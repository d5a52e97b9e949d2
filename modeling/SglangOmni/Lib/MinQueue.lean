import Mathlib.Order.Lattice
import Mathlib.Data.List.Perm.Basic

/-! Queues that give their least element first.

A queue is the list of what is in it, in no order; `popMin` takes out an element whose key is least. -/
namespace SglangOmni.Lib

variable {α κ : Type} [LinearOrder κ] (key : α → κ)

/-- The least element, and the others. -/
def popMin : List α → Option (α × List α)
  | [] => none
  | x :: rest =>
    match popMin rest with
    | none => some (x, [])
    | some (y, others) => if key y < key x then some (y, x :: others) else some (x, y :: others)

variable {key}

theorem popMin_eq_none {l : List α} : popMin key l = none ↔ l = [] := by
  cases l with
  | nil => simp [popMin]
  | cons x rest =>
    simp only [popMin, List.cons_ne_nil, iff_false]
    cases popMin key rest with
    | none => simp
    | some p =>
      simp only
      split
      · simp
      · simp

/-- What is taken out is no more than the rest, and nothing is lost. -/
theorem popMin_spec {l rest : List α} {x : α} (h : popMin key l = some (x, rest)) :
    l.Perm (x :: rest) ∧ ∀ y ∈ rest, key x ≤ key y := by
  induction l generalizing x rest with
  | nil => cases h
  | cons a l ih =>
    simp only [popMin] at h
    cases hpop : popMin key l with
    | none =>
      simp only [hpop, Option.some.injEq, Prod.mk.injEq] at h
      obtain ⟨rfl, rfl⟩ := h
      rw [popMin_eq_none.mp hpop]
      exact ⟨List.Perm.refl _, fun y hy => nomatch hy⟩
    | some p =>
      obtain ⟨b, others⟩ := p
      obtain ⟨hperm, hleast⟩ := ih hpop
      simp only [hpop] at h
      split at h
      · next hlt =>
        simp only [Option.some.injEq, Prod.mk.injEq] at h
        obtain ⟨rfl, rfl⟩ := h
        refine ⟨(hperm.cons a).trans (List.Perm.swap _ a others), fun y hy => ?_⟩
        cases List.mem_cons.mp hy with
        | inl heq => exact heq ▸ le_of_lt hlt
        | inr hmem => exact hleast y hmem
      · next hnot =>
        simp only [Option.some.injEq, Prod.mk.injEq] at h
        obtain ⟨rfl, rfl⟩ := h
        refine ⟨hperm.cons a, fun y hy => ?_⟩
        have hle : key a ≤ key b := le_of_not_gt hnot
        cases List.mem_cons.mp hy with
        | inl heq => exact heq ▸ hle
        | inr hmem => exact le_trans hle (hleast y hmem)

end SglangOmni.Lib
