import Mathlib.Tactic.Common

/-! Tilings of a range by half-open spans.

The spans are consecutive and none of them is empty. So every point of the range lies in one span and in no other
(`Tiles.exists_unique`). -/
namespace SglangOmni.Lib

/-- The spans, in order, make up the range from `lo` to `hi`. -/
def Tiles : Nat → List (Nat × Nat) → Nat → Prop
  | lo, [], hi => lo = hi
  | lo, span :: rest, hi => span.1 = lo ∧ span.1 < span.2 ∧ Tiles span.2 rest hi

variable {spans : List (Nat × Nat)}

theorem Tiles.le {lo hi : Nat} (h : Tiles lo spans hi) : lo ≤ hi := by
  induction spans generalizing lo with
  | nil => exact Nat.le_of_eq h
  | cons span rest ih =>
    obtain ⟨hstart, hne, hrest⟩ := h
    rw [← hstart]
    exact Nat.le_trans (Nat.le_of_lt hne) (ih hrest)

/-- The spans of a tiling lie in its range. -/
theorem Tiles.within {lo hi : Nat} (h : Tiles lo spans hi) :
    ∀ span ∈ spans, lo ≤ span.1 ∧ span.1 < span.2 ∧ span.2 ≤ hi := by
  induction spans generalizing lo with
  | nil => exact fun _ hspan => nomatch hspan
  | cons span rest ih =>
    obtain ⟨hstart, hne, hrest⟩ := h
    intro other hother
    cases List.mem_cons.mp hother with
    | inl heq => exact heq ▸ ⟨Nat.le_of_eq hstart.symm, hne, hrest.le⟩
    | inr hother =>
      obtain ⟨hlo, hin, hhi⟩ := ih hrest other hother
      exact ⟨by omega, hin, hhi⟩

/-- No gaps and no overlaps: each point of the range is in exactly one span. -/
theorem Tiles.exists_unique {lo hi : Nat} (h : Tiles lo spans hi) (x : Nat) (hlo : lo ≤ x)
    (hhi : x < hi) : ∃ span ∈ spans, (span.1 ≤ x ∧ x < span.2) ∧
      ∀ other ∈ spans, other.1 ≤ x ∧ x < other.2 → other = span := by
  induction spans generalizing lo with
  | nil =>
    have hnil : lo = hi := h
    omega
  | cons span rest ih =>
    obtain ⟨hstart, hne, hrest⟩ := h
    by_cases hx : x < span.2
    · refine ⟨span, List.mem_cons_self, ⟨hstart ▸ hlo, hx⟩, ?_⟩
      intro other hother hin
      cases List.mem_cons.mp hother with
      | inl heq => exact heq
      | inr hother =>
        have hafter := (hrest.within other hother).1
        omega
    · obtain ⟨found, hfound, hin, hunique⟩ := ih hrest (Nat.le_of_not_lt hx)
      refine ⟨found, List.mem_cons_of_mem _ hfound, hin, ?_⟩
      intro other hother hcovers
      cases List.mem_cons.mp hother with
      | inl heq => exact absurd (heq ▸ hcovers.2) hx
      | inr hother => exact hunique other hother hcovers

end SglangOmni.Lib
