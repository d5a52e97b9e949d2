import Mathlib.Data.List.Induction

/-! The runs of a list: its longest stretches of consecutive elements that are kept.

The runs are found one element at a time (`push`), the way a stream finds them: the runs that ended and the one that is
open. No run is empty (`run_ne_nil`), and they are the stretches between gaps in which everything is kept
(`maximal_of`). -/
namespace SglangOmni.Lib

/-- The runs that ended, and the open one. -/
structure Runs (α : Type) where
  ended : List (List α) := []
  current : Option (List α) := none

namespace Runs
variable {α β : Type} (keep : α → Bool) {xs : List α} {intervals : List (Nat × Nat)}

/-- Every run found so far. -/
def all (r : Runs α) : List (List α) := r.ended ++ r.current.toList

def close (r : Runs α) : Runs α := { ended := r.all }

def push (r : Runs α) (a : α) : Runs α :=
  if keep a then { r with current := some (r.current.getD [] ++ [a]) } else r.close

/-- The runs of a list. -/
def of (xs : List α) : Runs α := xs.foldl (push keep) {}

/-- The runs of a list of points, read as the runs of what stands at the points. -/
def map (f : α → β) (r : Runs α) : Runs β := ⟨r.ended.map (List.map f), r.current.map (List.map f)⟩

@[simp] theorem of_nil : of keep [] = {} := rfl

@[simp] theorem of_concat (xs : List α) (a : α) : of keep (xs ++ [a]) = push keep (of keep xs) a := by
  simp only [of, List.foldl_append, List.foldl_cons, List.foldl_nil]

@[simp] theorem all_close (r : Runs α) : r.close.all = r.all := List.append_nil _

theorem all_map (f : α → β) (r : Runs α) : (r.map f).all = r.all.map (List.map f) := by
  cases h : r.current <;> simp [all, map, h]

theorem map_push (f : α → β) (keep' : β → Bool) (r : Runs α) (a : α) (h : keep a = keep' (f a)) :
    (push keep r a).map f = push keep' (r.map f) (f a) := by
  simp only [push, ← h]
  split
  · cases hc : r.current <;> simp [map, hc]
  · show (⟨r.all.map (List.map f), none⟩ : Runs β) = ⟨(r.map f).all, none⟩
    rw [all_map]

/-- Reading the points of a list changes nothing in how it falls into runs. -/
theorem map_of (f : α → β) (keep' : β → Bool) (xs : List α) (h : ∀ a ∈ xs, keep a = keep' (f a)) :
    (of keep xs).map f = of keep' (xs.map f) := by
  induction xs using List.reverseRecOn with
  | nil => rfl
  | append_singleton xs a ih =>
    rw [of_concat, List.map_append, List.map_singleton, of_concat,
      map_push keep f keep' _ a (h a (by simp)), ih fun b hb => h b (by simp [hb])]

/-- No run is empty. -/
theorem run_ne_nil (xs : List α) : ∀ run ∈ (of keep xs).all, run ≠ [] := by
  induction xs using List.reverseRecOn with
  | nil => exact fun _ h => (nomatch h)
  | append_singleton xs a ih =>
    rw [of_concat]
    by_cases h : keep a
    · intro run hr
      simp only [push, if_pos h, all, Option.toList_some, List.mem_append, List.mem_singleton] at hr
      obtain hr | hr := hr
      · exact ih run (List.mem_append_left _ hr)
      · simp [hr]
    · rw [push, if_neg h, all_close]
      exact ih

/-! ### Where the runs stand -/

/-- The elements from one place up to another. -/
def slice (xs : List α) (r : Nat × Nat) : List α := (xs.take r.2).drop r.1

/-- Intervals of places in order, with a gap between any two, which hold exactly the places of the elements that are
kept. -/
structure Maximal (xs : List α) (intervals : List (Nat × Nat)) : Prop where
  bounds : ∀ r ∈ intervals, r.1 < r.2 ∧ r.2 ≤ xs.length
  apart : intervals.Pairwise fun r r' => r.2 < r'.1
  covers : ∀ i a, xs[i]? = some a → (keep a = true ↔ ∃ r ∈ intervals, r.1 ≤ i ∧ i < r.2)

theorem slice_append {r : Nat × Nat} (h : r.2 ≤ xs.length) (ys : List α) : slice (xs ++ ys) r = slice xs r := by
  rw [slice, slice, List.take_append_of_le_length h]

theorem map_slice_append (h : ∀ r ∈ intervals, r.2 ≤ xs.length) (ys : List α) :
    intervals.map (slice (xs ++ ys)) = intervals.map (slice xs) :=
  List.map_congr_left fun r hr => slice_append (h r hr) ys

variable {keep}

theorem Maximal.congr {keep' : α → Bool} (h : Maximal keep xs intervals)
    (hsame : ∀ a ∈ xs, keep a = keep' a) : Maximal keep' xs intervals :=
  ⟨h.bounds, h.apart, fun i a ha => hsame a (List.mem_of_getElem? ha) ▸ h.covers i a ha⟩

/-- One more element, which is not kept. -/
theorem Maximal.skip (h : Maximal keep xs intervals) {a : α}
    (ha : ¬keep a = true) : Maximal keep (xs ++ [a]) intervals := by
  refine ⟨fun r hr => ?_, h.apart, fun i b hb => ?_⟩
  · rw [List.length_append]
    exact ⟨(h.bounds r hr).1, Nat.le_add_right_of_le (h.bounds r hr).2⟩
  · rcases Nat.lt_or_ge i xs.length with hi | hi
    · rw [List.getElem?_append_left hi] at hb
      exact h.covers i b hb
    · rw [List.getElem?_append_right hi, List.getElem?_singleton] at hb
      split at hb
      · obtain rfl := Option.some.inj hb
        refine ⟨fun hk => absurd hk ha, fun ⟨r, hr, _, hlt⟩ => ?_⟩
        exact absurd (h.bounds r hr).2 (by omega)
      · exact nomatch hb

/-- One more element that is kept: the last interval goes up to it. -/
theorem Maximal.extend {init : List (Nat × Nat)} {start : Nat} {a : α} (ha : keep a = true)
    (hbounds : ∀ r ∈ init, r.1 < r.2 ∧ r.2 ≤ xs.length) (hstart : start ≤ xs.length)
    (hapart : init.Pairwise fun r r' => r.2 < r'.1) (hgap : ∀ r ∈ init, r.2 < start)
    (hcovers : ∀ i b, xs[i]? = some b → (keep b = true ↔ (∃ r ∈ init, r.1 ≤ i ∧ i < r.2) ∨ start ≤ i)) :
    Maximal keep (xs ++ [a]) (init ++ [(start, xs.length + 1)]) := by
  refine ⟨fun r hr => ?_, ?_, fun i b hb => ?_⟩
  · rw [List.length_append, List.length_singleton]
    rcases List.mem_append.mp hr with hr | hr
    · exact ⟨(hbounds r hr).1, Nat.le_succ_of_le (hbounds r hr).2⟩
    · rw [List.mem_singleton.mp hr]
      exact ⟨Nat.lt_succ_of_le hstart, Nat.le_refl _⟩
  · refine List.pairwise_append.mpr ⟨hapart, List.pairwise_singleton _ _, fun r hr r' hr' => ?_⟩
    rw [List.mem_singleton.mp hr']
    exact hgap r hr
  · have hplaces : (∃ r ∈ init ++ [(start, xs.length + 1)], r.1 ≤ i ∧ i < r.2) ↔
        (∃ r ∈ init, r.1 ≤ i ∧ i < r.2) ∨ (start ≤ i ∧ i < xs.length + 1) := by
      simp [or_and_right, exists_or]
    rw [hplaces]
    rcases Nat.lt_or_ge i xs.length with hi | hi
    · rw [List.getElem?_append_left hi] at hb
      rw [hcovers i b hb, and_iff_left (Nat.lt_succ_of_lt hi)]
    · rw [List.getElem?_append_right hi, List.getElem?_singleton] at hb
      split at hb
      · obtain rfl := Option.some.inj hb
        exact ⟨fun _ => .inr ⟨by omega, by omega⟩, fun _ => ha⟩
      · exact nomatch hb

variable (keep)

/-- The intervals of the runs; the open run is the one that goes up to the end. -/
theorem intervals_of (xs : List α) : ∃ intervals, Maximal keep xs intervals ∧
    (of keep xs).all = intervals.map (slice xs) ∧
    ((of keep xs).current.isSome → ∃ init start, intervals = init ++ [(start, xs.length)]) ∧
    ((of keep xs).current = none → ∀ r ∈ intervals, r.2 < xs.length) := by
  induction xs using List.reverseRecOn with
  | nil =>
    refine ⟨[], ⟨(fun _ h => nomatch h), .nil, fun i a h => nomatch h⟩, rfl, (fun h => nomatch h),
      fun _ _ h => nomatch h⟩
  | append_singleton xs a ih =>
    obtain ⟨intervals, hmax, hall, hopen, hclosed⟩ := ih
    have hlen : (xs ++ [a]).length = xs.length + 1 := List.length_append
    rw [of_concat]
    by_cases ha : keep a = true
    · rw [push, if_pos ha]
      cases hc : (of keep xs).current with
      | some cur =>
        obtain ⟨init, start, rfl⟩ := hopen (by rw [hc]; rfl)
        have hbounds : ∀ r ∈ init, r.1 < r.2 ∧ r.2 ≤ xs.length := fun r hr => hmax.bounds r (List.mem_append_left _ hr)
        have hstart : start < xs.length := (hmax.bounds _ (List.mem_append_right _ List.mem_cons_self)).1
        obtain ⟨hapart, _, hgap⟩ := List.pairwise_append.mp hmax.apart
        rw [all, hc, List.map_append, List.map_singleton] at hall
        obtain ⟨hended, hcur⟩ := List.append_inj' hall rfl
        have hcur : cur = xs.drop start := by
          rw [slice, List.take_length] at hcur
          exact (List.cons.inj hcur).1
        refine ⟨init ++ [(start, xs.length + 1)], Maximal.extend ha hbounds (Nat.le_of_lt hstart) hapart
          (fun r hr => hgap r hr _ List.mem_cons_self) (fun i b hb => ?_), ?_, fun _ => ⟨init, start, by rw [hlen]⟩,
          fun h => nomatch h⟩
        · have hi : i < xs.length := (List.getElem?_eq_some_iff.mp hb).1
          rw [hmax.covers i b hb]
          simp [or_and_right, exists_or, hi]
        · rw [all, List.map_append, map_slice_append fun r hr => (hbounds r hr).2, hended, List.map_singleton, slice,
            ← hlen, List.take_length, List.drop_append_of_le_length (Nat.le_of_lt hstart), hcur]
          rfl
      | none =>
        have hlt := hclosed hc
        refine ⟨intervals ++ [(xs.length, xs.length + 1)], Maximal.extend ha hmax.bounds (Nat.le_refl _) hmax.apart hlt
          (fun i b hb => ?_), ?_, fun _ => ⟨intervals, xs.length, by rw [hlen]⟩, fun h => nomatch h⟩
        · have hi : i < xs.length := (List.getElem?_eq_some_iff.mp hb).1
          rw [hmax.covers i b hb, or_iff_left (Nat.not_le.mpr hi)]
        · rw [all, hc, Option.toList_none, List.append_nil] at hall
          rw [all, List.map_append, map_slice_append fun r hr => (hmax.bounds r hr).2, hall, List.map_singleton, slice,
            ← hlen, List.take_length, List.drop_left]
          rfl
    · rw [push, if_neg ha]
      refine ⟨intervals, hmax.skip ha, ?_, (fun h => nomatch h), fun _ r hr => ?_⟩
      · rw [all_close, hall, map_slice_append fun r hr => (hmax.bounds r hr).2]
      · rw [hlen]
        exact Nat.lt_succ_of_le (hmax.bounds r hr).2

/-- **The runs are maximal**: they are the stretches of what is kept, in order. -/
theorem maximal_of (xs : List α) : ∃ intervals, Maximal keep xs intervals ∧
      (of keep xs).all = intervals.map (slice xs) := by
  obtain ⟨intervals, hmax, hall, _⟩ := intervals_of keep xs
  exact ⟨intervals, hmax, hall⟩

end Runs
end SglangOmni.Lib
