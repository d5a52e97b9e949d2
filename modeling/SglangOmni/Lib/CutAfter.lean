import Mathlib.Data.List.Basic

/-! Cutting a list after each of its boundaries.

A text that arrives in pieces is cut as it comes: what follows the last boundary is kept, and the next piece goes on
from it. The cuts are those of the whole text (`cutAfter_append`), so they do not depend on the pieces. -/
namespace SglangOmni.Lib

variable {α : Type} (boundary : α → Bool)

/-- The pieces of `acc ++ text` that end in a boundary of `text`, and what follows the last of them. -/
def cutAfter : List α → List α → List (List α) × List α
  | acc, [] => ([], acc)
  | acc, c :: text =>
    if boundary c then ((acc ++ [c]) :: (cutAfter [] text).1, (cutAfter [] text).2) else cutAfter (acc ++ [c]) text

variable {boundary}

theorem cutAfter_append (acc x y : List α) :
    cutAfter boundary acc (x ++ y) =
      ((cutAfter boundary acc x).1 ++ (cutAfter boundary (cutAfter boundary acc x).2 y).1,
        (cutAfter boundary (cutAfter boundary acc x).2 y).2) := by
  induction x generalizing acc with
  | nil => rfl
  | cons c x ih =>
    simp only [List.cons_append, cutAfter]
    split
    · rw [ih []]
      rfl
    · exact ih _

/-- A text without a boundary is not cut. -/
theorem cutAfter_of_none (acc x : List α) (h : ∀ c ∈ x, boundary c = false) :
    cutAfter boundary acc x = ([], acc ++ x) := by
  induction x generalizing acc with
  | nil => rw [cutAfter, List.append_nil]
  | cons c x ih =>
    rw [cutAfter, if_neg (by rw [h c (.head _)]; decide), ih _ fun d hd => h d (.tail _ hd)]
    simp

/-- What is left has no boundary. -/
theorem cutAfter_rest (acc x : List α) (h : ∀ c ∈ acc, boundary c = false) :
    ∀ c ∈ (cutAfter boundary acc x).2, boundary c = false := by
  induction x generalizing acc with
  | nil => exact h
  | cons c x ih =>
    simp only [cutAfter]
    split
    · exact ih [] fun _ h => (nomatch h)
    · rename_i hc
      refine ih _ fun d hd => ?_
      rcases List.mem_append.1 hd with hm | hm
      · exact h d hm
      · rw [List.mem_singleton.1 hm]
        exact Bool.eq_false_iff.2 hc

/-- A text goes on from what was left of the text before it. -/
theorem cutAfter_rest_append (x y : List α) :
    cutAfter boundary [] ((cutAfter boundary [] x).2 ++ y) = cutAfter boundary (cutAfter boundary [] x).2 y := by
  have hrest : cutAfter boundary [] (cutAfter boundary [] x).2 = ([], (cutAfter boundary [] x).2) :=
    cutAfter_of_none [] _ (cutAfter_rest [] x fun _ h => (nomatch h))
  rw [cutAfter_append, hrest]
  rfl

/-- The pieces and the rest are the text. -/
theorem flatten_cutAfter (acc x : List α) :
    (cutAfter boundary acc x).1.flatten ++ (cutAfter boundary acc x).2 = acc ++ x := by
  induction x generalizing acc with
  | nil => exact (List.append_nil _).symm
  | cons c x ih =>
    simp only [cutAfter]
    split
    · rw [List.flatten_cons, List.append_assoc, ih, List.nil_append, List.append_assoc]
      rfl
    · rw [ih, List.append_assoc]
      rfl

/-- Each piece ends in a boundary. -/
theorem cutAfter_ends (acc x : List α) :
    ∀ piece ∈ (cutAfter boundary acc x).1, ∃ c, piece.getLast? = some c ∧ boundary c = true := by
  induction x generalizing acc with
  | nil => exact fun piece h => absurd h List.not_mem_nil
  | cons c x ih =>
    simp only [cutAfter]
    split
    · next hc =>
      intro piece h
      rcases List.mem_cons.mp h with rfl | h
      · exact ⟨c, List.getLast?_concat, hc⟩
      · exact ih [] piece h
    · exact ih _

end SglangOmni.Lib
