import Mathlib.Algebra.GroupWithZero.Nat
import Mathlib.Algebra.BigOperators.Group.List.Basic
import Mathlib.Data.List.Range

/-! Segments of a flat list.

A list may hold one segment for each of several owners, one after the other: segment `k` has the `k`-th length and
begins where the lengths before it end. Gathering the elements of some of the segments by their indices gives a flat
list of these segments, for the lengths of their owners. -/
namespace SglangOmni.Lib

variable {α β : Type} {lens owners : List Nat}

/-- The segment of the `k`-th owner. -/
def ownedSegment (xs : List α) (lens : List Nat) (k : Nat) : List α := (xs.drop (lens.take k).sum).take (lens.getD k 0)

/-- `xs[idx]`, which raises for an index out of range. -/
def gather (xs : List α) (idx : List Nat) : Option (List α) := idx.mapM (xs[·]?)

/-- Where each segment begins, from `start` on. -/
def startsFrom (start : Nat) : List Nat → List Nat
  | [] => []
  | len :: lens => start :: startsFrom (start + len) lens

/-- The indices of the segments of some owners, which raises for an owner that has none. -/
def segmentIndices (lens : List Nat) (owners : List Nat) : Option (List Nat) := do
  let ranges ← owners.mapM fun i => do
    let start ← (startsFrom 0 lens)[i]?
    let len ← lens[i]?
    pure (List.range' start len)
  pure ranges.flatten

theorem getElem?_startsFrom (start : Nat) (lens : List Nat) {i : Nat} (h : i < lens.length) :
    (startsFrom start lens)[i]? = some (start + (lens.take i).sum) := by
  induction lens generalizing start i with
  | nil => exact absurd h (Nat.not_lt_zero i)
  | cons len lens ih =>
    cases i with
    | zero => rfl
    | succ i =>
      rw [startsFrom, List.getElem?_cons_succ, ih _ (Nat.lt_of_succ_lt_succ h), List.take_succ_cons, List.sum_cons,
        Nat.add_assoc]

/-- A segment ends where the next one begins. -/
theorem sum_take_add_getD (lens : List Nat) (i : Nat) :
    (lens.take i).sum + lens.getD i 0 = (lens.take (i + 1)).sum := by
  induction lens generalizing i with
  | nil => simp
  | cons len lens ih =>
    cases i with
    | zero => simp
    | succ i =>
      rw [List.take_succ_cons, List.take_succ_cons, List.sum_cons, List.sum_cons, List.getD_cons_succ,
        Nat.add_assoc, ih]

theorem sum_take_le (lens : List Nat) (i : Nat) : (lens.take i).sum ≤ lens.sum := by
  have hsplit := congrArg List.sum (List.take_append_drop i lens)
  rw [List.sum_append] at hsplit
  omega

theorem length_segment {xs : List α} (h : xs.length = lens.sum) (i : Nat) :
    (ownedSegment xs lens i).length = lens.getD i 0 := by
  have hend := sum_take_le lens (i + 1)
  rw [← sum_take_add_getD] at hend
  rw [ownedSegment, List.length_take, List.length_drop]
  omega

theorem gather_append (xs : List α) (a b : List Nat) {ys zs : List α} (ha : gather xs a = some ys)
    (hb : gather xs b = some zs) : gather xs (a ++ b) = some (ys ++ zs) := by
  unfold gather at ha hb ⊢
  rw [List.mapM_append, ha, hb]
  rfl

theorem gather_range' (xs : List α) (start len : Nat) (h : start + len ≤ xs.length) :
    gather xs (List.range' start len) = some ((xs.drop start).take len) := by
  induction len generalizing start with
  | zero =>
    rw [List.take_zero]
    rfl
  | succ len ih =>
    have hstart : start < xs.length := by omega
    have hrest := ih (start + 1) (by omega)
    unfold gather at hrest ⊢
    rw [List.range'_succ, List.mapM_cons, hrest, List.getElem?_eq_getElem hstart, List.drop_eq_getElem_cons hstart,
      List.take_succ_cons]
    rfl

theorem mapM_some {f : α → Option β} {g : α → β} {l : List α} (h : ∀ a ∈ l, f a = some (g a)) :
    l.mapM f = some (l.map g) := by
  induction l with
  | nil => rfl
  | cons a l ih =>
    rw [List.mapM_cons, h a List.mem_cons_self, ih fun b hb => h b (List.mem_cons_of_mem a hb)]
    rfl

theorem getElem?_eq_some_getD {xs : List Nat} {i : Nat} (h : i < xs.length) : xs[i]? = some (xs.getD i 0) := by
  rw [List.getD_eq_getElem?_getD, List.getElem?_eq_getElem h, Option.getD_some]

/-- Every owner has an entry of a list that is as long as there are owners. -/
theorem gather_known {xs : List Nat} (known : ∀ i ∈ owners, i < xs.length) :
    gather xs owners = some (owners.map fun i => xs.getD i 0) := by
  apply mapM_some
  intro i hi
  exact getElem?_eq_some_getD (known i hi)

theorem segmentIndices_known (known : ∀ i ∈ owners, i < lens.length) :
    segmentIndices lens owners =
      some (owners.map fun i => List.range' (lens.take i).sum (lens.getD i 0)).flatten := by
  have hranges := mapM_some (f := fun i => do
      let start ← (startsFrom 0 lens)[i]?
      let len ← lens[i]?
      pure (List.range' start len))
    (g := fun i => List.range' (lens.take i).sum (lens.getD i 0)) (l := owners) (by
      intro i hi
      rw [getElem?_startsFrom 0 lens (known i hi), getElem?_eq_some_getD (known i hi), Nat.zero_add]
      rfl)
  unfold segmentIndices
  rw [hranges]
  rfl

/-- The segments of some owners, gathered. -/
theorem gather_segments {xs : List α} (h : xs.length = lens.sum) (known : ∀ i ∈ owners, i < lens.length) :
    (segmentIndices lens owners).bind (gather xs) = some (owners.map (ownedSegment xs lens)).flatten := by
  rw [segmentIndices_known known, Option.bind_some]
  clear known
  induction owners with
  | nil => rfl
  | cons i owners ih =>
    have hend := sum_take_le lens (i + 1)
    rw [← sum_take_add_getD] at hend
    have hone := gather_range' xs (lens.take i).sum (lens.getD i 0) (by omega)
    rw [List.map_cons, List.flatten_cons, List.map_cons, List.flatten_cons]
    exact gather_append xs _ _ hone ih

/-- The segments of a flat list of segments are these. -/
theorem segment_flatten (ls : List (List α)) {k : Nat} {l : List α} (h : ls[k]? = some l) :
    ownedSegment ls.flatten (ls.map List.length) k = l := by
  induction ls generalizing k with
  | nil => cases h
  | cons first rest ih =>
    cases k with
    | zero =>
      cases h
      simp [ownedSegment]
    | succ k =>
      have hrest := ih (by simpa using h)
      unfold ownedSegment at hrest ⊢
      rw [List.map_cons, List.take_succ_cons, List.sum_cons, List.flatten_cons, List.getD_cons_succ,
        List.drop_length_add_append]
      exact hrest

/-- What was gathered has the segments of its owners, for their lengths. -/
theorem segment_gathered {xs : List α} (h : xs.length = lens.sum) {k i : Nat} (hk : owners[k]? = some i) :
    ownedSegment (owners.map (ownedSegment xs lens)).flatten (owners.map fun j => lens.getD j 0) k =
      ownedSegment xs lens i := by
  have hlengths : owners.map (fun j => lens.getD j 0) = (owners.map (ownedSegment xs lens)).map List.length := by
    rw [List.map_map]
    exact List.map_congr_left fun j _ => (length_segment h j).symm
  rw [hlengths]
  refine segment_flatten _ ?_
  rw [List.getElem?_map, hk]
  rfl

end SglangOmni.Lib
