import Mathlib.Data.List.Basic

/-! Holding items back.

A component holds what comes, and lets go of all it holds at once, as one group. Whatever decides when, the groups are
consecutive, and with what is still held they are what came. -/
namespace SglangOmni.Lib

variable {α : Type}

/-- What was held and what came are the groups that were let go of and what is held now. -/
structure Releases (held came : List α) (groups : List (List α)) (kept : List α) : Prop where
  full : ∀ group ∈ groups, group ≠ []
  partition : held ++ came = groups.flatten ++ kept

namespace Releases
variable {held came more kept kept' : List α} {groups others : List (List α)}

theorem keep (held came : List α) : Releases held came [] (held ++ came) := ⟨(fun _ h => nomatch h), rfl⟩

theorem nothing (held : List α) : Releases held [] [] held := ⟨(fun _ h => nomatch h), List.append_nil held⟩

theorem all (h : held ++ came ≠ []) : Releases held came [held ++ came] [] := by
  constructor
  · intro group hgroup
    rw [List.mem_singleton.mp hgroup]
    exact h
  · simp

theorem trans (first : Releases held came groups kept) (second : Releases kept more others kept') :
    Releases held (came ++ more) (groups ++ others) kept' := by
  constructor
  · intro group hgroup
    cases List.mem_append.mp hgroup with
    | inl hin => exact first.full group hin
    | inr hin => exact second.full group hin
  · calc held ++ (came ++ more) = groups.flatten ++ kept ++ more := by rw [← List.append_assoc, first.partition]
      _ = groups.flatten ++ (others.flatten ++ kept') := by rw [List.append_assoc, second.partition]
      _ = (groups ++ others).flatten ++ kept' := by rw [List.flatten_append, List.append_assoc]

end Releases
end SglangOmni.Lib
