import Mathlib.Data.List.Sort

/-! Steps taken in the order of a rank.

A run takes its steps one after another and stops at the first that fails. When steps of one rank commute, every
order of the steps that goes by the rank gives the same run: how steps of one rank are ordered is not seen. -/
namespace SglangOmni.Lib

section
variable {σ α κ : Type*} (f : σ → α → Option σ)

/-- Either both orders of two steps fail, or they reach the same state. -/
def StepsCommute (a b : α) : Prop := ∀ s, (f s a).bind (fun t => f t b) = (f s b).bind (fun t => f t a)

theorem foldlM_cons (a : α) (l : List α) (s : σ) : (a :: l).foldlM f s = (f s a).bind fun t => l.foldlM f t := rfl

/-- A step goes before the steps that commute with it. -/
theorem foldlM_move {a : α} {front : List α} (commute : ∀ b ∈ front, StepsCommute f a b) (back : List α) (s : σ) :
    (front ++ a :: back).foldlM f s = (a :: (front ++ back)).foldlM f s := by
  induction front generalizing s with
  | nil => rfl
  | cons b front ih =>
    have hrest : ∀ c ∈ front, StepsCommute f a c := fun c hc => commute c (List.mem_cons_of_mem b hc)
    calc (b :: (front ++ a :: back)).foldlM f s
        = (f s b).bind fun t => (a :: (front ++ back)).foldlM f t := by
          rw [foldlM_cons]
          congr 1
          funext t
          exact ih hrest t
      _ = ((f s b).bind fun t => f t a).bind fun t => (front ++ back).foldlM f t := by
          rw [Option.bind_assoc]
          rfl
      _ = ((f s a).bind fun t => f t b).bind fun t => (front ++ back).foldlM f t := by
          rw [← commute b (List.mem_cons_self) s]
      _ = (a :: b :: (front ++ back)).foldlM f s := by
          rw [Option.bind_assoc]
          rfl

variable [LinearOrder κ] (rank : α → κ)

/-- **Two orders by rank give the same run**, when steps of one rank commute. -/
theorem foldlM_eq_of_ranked {l k : List α} (perm : l.Perm k) (hl : l.Pairwise fun a b => rank a ≤ rank b)
    (hk : k.Pairwise fun a b => rank a ≤ rank b)
    (commute : ∀ a ∈ l, ∀ b ∈ l, rank a = rank b → StepsCommute f a b) (s : σ) :
    l.foldlM f s = k.foldlM f s := by
  induction l generalizing k s with
  | nil => rw [List.nil_perm.mp perm]
  | cons a l ih =>
    obtain ⟨front, back, rfl⟩ := List.append_of_mem (perm.subset (List.mem_cons_self))
    have hperm : l.Perm (front ++ back) := (perm.trans List.perm_middle).cons_inv
    have hcommute : ∀ b ∈ front, StepsCommute f a b := fun b hb => by
      have hmem : b ∈ a :: l := perm.symm.subset (List.mem_append_left _ hb)
      have hle : rank b ≤ rank a := (List.pairwise_append.mp hk).2.2 b hb a List.mem_cons_self
      have hge : rank a ≤ rank b := by
        cases List.mem_cons.mp hmem with
        | inl he => rw [he]
        | inr hl' => exact List.rel_of_pairwise_cons hl hl'
      exact commute a List.mem_cons_self b hmem (le_antisymm hge hle)
    have hback : (front ++ back).Pairwise fun a b => rank a ≤ rank b :=
      hk.sublist (List.Sublist.append_left (List.sublist_cons_self a back) front)
    rw [foldlM_move f hcommute, foldlM_cons, foldlM_cons]
    congr 1
    funext t
    exact ih hperm hl.tail hback (fun b hb c hc =>
      commute b (List.mem_cons_of_mem a hb) c (List.mem_cons_of_mem a hc)) t

end

/-- What holds at the start and is kept by every step holds at the end. -/
theorem foldlM_preserves {σ α : Type*} {f : σ → α → Option σ} {P : σ → Prop} {l : List α}
    (step : ∀ a ∈ l, ∀ s t, P s → f s a = some t → P t) {s t : σ} (hs : P s) (h : l.foldlM f s = some t) : P t := by
  induction l generalizing s with
  | nil =>
    cases h
    exact hs
  | cons a l ih =>
    rw [foldlM_cons] at h
    obtain ⟨u, hu, ht⟩ := Option.bind_eq_some_iff.mp h
    exact ih (fun b hb => step b (List.mem_cons_of_mem a hb)) (step a List.mem_cons_self s u hs hu) ht

end SglangOmni.Lib
