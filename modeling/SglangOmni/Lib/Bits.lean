import Mathlib.Data.Bool.Count

/-! Intervals of a list of flags: writing one, and counting what a write changes. -/
namespace SglangOmni.Lib

/-- The flags with every position of `[start, start + n)` set to `b`. -/
def setRange (l : List Bool) (start n : Nat) (b : Bool) : List Bool :=
  (List.range' start n).foldl (fun l i => l.set i b) l

/-- Every position of `[start, start + n)` holds `b`; in particular it is a position. -/
def RunAt (l : List Bool) (start n : Nat) (b : Bool) : Prop :=
  ∀ k, start ≤ k → k < start + n → l[k]? = some b

section
variable (l : List Bool) (start n : Nat) (b : Bool)
include l start n b

theorem setRange_succ :
    setRange l start (n + 1) b = setRange (l.set start b) (start + 1) n b := rfl

@[simp] theorem length_setRange :
    (setRange l start n b).length = l.length := by
  induction n generalizing l start with
  | zero => rfl
  | succ n ih => rw [setRange_succ, ih, List.length_set]

theorem getElem?_setRange (k : Nat) :
    (setRange l start n b)[k]? =
      if start ≤ k ∧ k < start + n ∧ k < l.length then some b else l[k]? := by
  induction n generalizing l start with
  | zero =>
    have hk : ¬(start ≤ k ∧ k < start + 0 ∧ k < l.length) := by omega
    rw [if_neg hk]
    rfl
  | succ n ih =>
    rw [setRange_succ, ih, List.length_set, List.getElem?_set]
    by_cases hlt : k < l.length
    · by_cases hs : start = k
      · subst hs
        have h1 : ¬(start + 1 ≤ start ∧ start < start + 1 + n ∧ start < l.length) := by omega
        have h2 : start ≤ start ∧ start < start + (n + 1) ∧ start < l.length := by omega
        rw [if_neg h1, if_pos h2]
        simp [hlt]
      · have hiff : (start + 1 ≤ k ∧ k < start + 1 + n ∧ k < l.length) ↔
            (start ≤ k ∧ k < start + (n + 1) ∧ k < l.length) := by omega
        simp only [hiff, hs, if_false]
    · have hset : (l.set start b)[k]? = none :=
        List.getElem?_eq_none (by rw [List.length_set]; omega)
      rw [← List.getElem?_set, hset, List.getElem?_eq_none (Nat.le_of_not_lt hlt)]
      simp [hlt]

/-- A run of the other value, overwritten, moves the count by its length. -/
theorem count_setRange (h : RunAt l start n (!b)) :
    (setRange l start n b).count b = l.count b + n := by
  induction n generalizing l start with
  | zero => rfl
  | succ n ih =>
    have h0 : l[start]? = some (!b) := h start (Nat.le_refl _) (by omega)
    have hlt : start < l.length := (List.getElem?_eq_some_iff.mp h0).1
    have hget : l[start] = !b := (List.getElem?_eq_some_iff.mp h0).2
    have hrest : RunAt (l.set start b) (start + 1) n (!b) := by
      intro k hk hk'
      rw [List.getElem?_set_ne (by omega)]
      exact h k (by omega) (by omega)
    rw [setRange_succ, ih _ _ hrest, List.count_set hlt, hget]
    cases b <;> simp <;> omega

/-- The same write, counted by the value it removes. -/
theorem count_not_setRange (h : RunAt l start n (!b)) :
    (setRange l start n b).count (!b) + n = l.count (!b) := by
  have h1 := count_setRange l start n b h
  have h2 := List.count_add_count_not (setRange l start n b) b
  have h3 := List.count_add_count_not l b
  rw [length_setRange] at h2
  omega

end

end SglangOmni.Lib
