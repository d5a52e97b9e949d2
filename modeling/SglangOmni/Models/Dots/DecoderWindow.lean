import Mathlib.Data.List.GetD
import Mathlib.Tactic.Common

/-! The decoder windows of slots of different ages.

`appendDecoderInputPerRow` is one tensor operation on all rows: it scatters the new frames behind the valid ones of each
row and gathers the last frames of the window. A row then has its last frames, left aligned and padded with zeros
(`fillWindow`), whatever its age (`appendDecoderInputPerRow_eq`). -/
namespace SglangOmni.Models.Dots

inductive AppendError where
  /-- `valid_frames must have shape [batch], got … for window batch …`. -/
  | validFrames (got batch : Nat)
  /-- `decoder window size … must be larger than chunk_size …`. -/
  | chunkSize (windowSize chunkSize : Nat)
  deriving DecidableEq

section
variable {F : Type} (zero : F)

/-- `scatter_` on one row. -/
def scatterRow (row : List F) (index : List Nat) (values : List F) : List F :=
  (index.zip values).foldl (fun row entry => row.set entry.1 entry.2) row

/-- `gather` on one row. -/
def gatherRow (row : List F) (index : List Nat) : List F := index.map fun i => row.getD i zero

/-- The product with a mask that is one up to `valid`. -/
def maskRow (valid : Nat) (row : List F) : List F := row.mapIdx fun p x => if p < valid then x else zero

/-- `append_decoder_input_per_row`; the sizes are the last dimensions of the two tensors. -/
def appendDecoderInputPerRow (windowSize chunkSize : Nat) (decoderInput window : List (List F))
    (validFrames : List Int) : Except AppendError (List (List F)) :=
  if validFrames.length ≠ window.length then .error (.validFrames validFrames.length window.length)
  else if windowSize ≤ chunkSize then .error (.chunkSize windowSize chunkSize)
  else
    let clippedValid := validFrames.map fun v => min v.toNat windowSize
    let insertIndex := clippedValid.map fun v => (List.range chunkSize).map (v + ·)
    let combined := ((window.map (· ++ List.replicate chunkSize zero)).zip (insertIndex.zip decoderInput)).map
      fun row => scatterRow row.1 row.2.1 row.2.2
    let newValid := clippedValid.map fun v => min (v + chunkSize) windowSize
    let start := clippedValid.map fun v => v + chunkSize - windowSize
    let gatherIndex := start.map fun s => (List.range windowSize).map fun p => min (s + p) (windowSize + chunkSize - 1)
    let gathered := (combined.zip gatherIndex).map fun row => gatherRow zero row.1 row.2
    .ok ((newValid.zip gathered).map fun row => maskRow zero row.1 row.2)

/-- The last frames, left aligned and padded with zeros. -/
def fillWindow (windowSize : Nat) (frames : List F) : List F :=
  frames.drop (frames.length - windowSize) ++ List.replicate (windowSize - frames.length) zero

@[simp] theorem length_fillWindow (windowSize : Nat) (frames : List F) :
    (fillWindow zero windowSize frames).length = windowSize := by
  simp only [fillWindow, List.length_append, List.length_drop, List.length_replicate]
  omega

/-- What fell out of the window does not come back. -/
theorem fillWindow_append (windowSize : Nat) (frames more : List F) :
    fillWindow zero windowSize (frames.drop (frames.length - windowSize) ++ more) =
      fillWindow zero windowSize (frames ++ more) := by
  by_cases h : frames.length ≤ windowSize
  · rw [Nat.sub_eq_zero_of_le h, List.drop_zero]
  · have hlen : (frames.drop (frames.length - windowSize)).length = windowSize := by
      rw [List.length_drop]
      omega
    unfold fillWindow
    rw [List.length_append, List.length_append, hlen]
    congr 1
    · rw [List.drop_append, List.drop_append, List.drop_drop, hlen]
      congr 2 <;> omega
    · congr 1
      omega

/-- The valid part of a window. -/
theorem take_fillWindow (windowSize : Nat) (frames : List F) :
    (fillWindow zero windowSize frames).take (min frames.length windowSize) =
      frames.drop (frames.length - windowSize) := by
  unfold fillWindow
  rw [List.take_append_of_le_length (by rw [List.length_drop]; omega)]
  exact List.take_of_length_le (by rw [List.length_drop]; omega)

/-! ### One row -/

variable {zero}

theorem foldl_set_getD (values : List F) (row : List F) (v : Nat) (hfit : v + values.length ≤ row.length)
    (j : Nat) (d : F) :
    (((List.range' v values.length).zip values).foldl (fun row entry => row.set entry.1 entry.2) row).getD j d =
      if v ≤ j ∧ j < v + values.length then values.getD (j - v) d else row.getD j d := by
  induction values generalizing row v with
  | nil =>
    have hnone : ¬(v ≤ j ∧ j < v + ([] : List F).length) := by
      rw [List.length_nil]
      omega
    rw [if_neg hnone]
    rfl
  | cons x rest ih =>
    rw [List.length_cons] at hfit
    rw [List.length_cons, List.range'_succ, List.zip_cons_cons, List.foldl_cons,
      ih (row.set v x) (v + 1) (by rw [List.length_set]; omega)]
    by_cases hj : j = v
    · subst hj
      rw [if_neg (by omega), if_pos (by omega), Nat.sub_self, List.getD_cons_zero,
        List.getD_eq_getElem _ _ (by rw [List.length_set]; omega), List.getElem_set_self]
    · by_cases hin : v + 1 ≤ j ∧ j < v + 1 + rest.length
      · rw [if_pos hin, if_pos (by omega), show j - v = j - (v + 1) + 1 by omega, List.getD_cons_succ]
      · rw [if_neg hin, if_neg (by omega), List.getD_eq_getElem?_getD, List.getElem?_set_ne (Ne.symm hj),
          ← List.getD_eq_getElem?_getD]

/-- Consecutive places are written. -/
theorem getD_scatterRow (row values : List F) (v : Nat) (hfit : v + values.length ≤ row.length) (j : Nat) (d : F) :
    (scatterRow row ((List.range values.length).map (v + ·)) values).getD j d =
      if v ≤ j ∧ j < v + values.length then values.getD (j - v) d else row.getD j d := by
  rw [scatterRow, ← List.range'_eq_map_range]
  exact foldl_set_getD values row v hfit j d

/-- What the gathered and masked row has at a place of the window. -/
theorem getElem?_fillWindow (windowSize : Nat) (frames : List F) {p : Nat} (hp : p < windowSize) :
    (fillWindow zero windowSize frames)[p]? = some (if p < min frames.length windowSize then
      frames.getD (frames.length - windowSize + p) zero else zero) := by
  have hlen : (frames.drop (frames.length - windowSize)).length = min frames.length windowSize := by
    rw [List.length_drop]
    omega
  unfold fillWindow
  split
  · next h =>
    rw [List.getElem?_append_left (by omega), List.getElem?_drop, List.getD_eq_getElem?_getD,
      List.getElem?_eq_getElem (by omega), Option.getD_some]
  · next h =>
    rw [List.getElem?_append_right (by omega), List.getElem?_replicate, if_pos (by omega)]

theorem appendRow_eq {windowSize : Nat} {window input : List F} {v : Nat} (hwindow : window.length = windowSize)
    (hv : v ≤ windowSize) (hinput : input.length < windowSize) :
    maskRow zero (min (v + input.length) windowSize) (gatherRow zero
      (scatterRow (window ++ List.replicate input.length zero) ((List.range input.length).map (v + ·)) input)
      ((List.range windowSize).map fun p =>
        min (v + input.length - windowSize + p) (windowSize + input.length - 1))) =
    fillWindow zero windowSize (window.take v ++ input) := by
  have hlen : (window.take v ++ input).length = v + input.length := by
    rw [List.length_append, List.length_take]
    omega
  refine List.ext_getElem? fun p => ?_
  by_cases hp : p < windowSize
  · rw [getElem?_fillWindow _ _ hp, hlen]
    simp only [maskRow, gatherRow, List.getElem?_mapIdx, List.getElem?_map, List.getElem?_range hp, Option.map_some]
    congr 1
    split
    · next hvalid =>
      have hplace : min (v + input.length - windowSize + p) (windowSize + input.length - 1) =
          v + input.length - windowSize + p := by omega
      rw [hplace, getD_scatterRow _ _ _ (by rw [List.length_append, List.length_replicate]; omega)]
      by_cases hold : v + input.length - windowSize + p < v
      · rw [if_neg (by omega), List.getD_append _ _ _ _ (by omega),
          List.getD_append _ _ _ _ (by rw [List.length_take]; omega)]
        simp only [List.getD_eq_getElem?_getD, List.getElem?_take, if_pos hold]
      · have htake : (window.take v).length = v := by
          rw [List.length_take]
          omega
        rw [if_pos (by omega), List.getD_append_right _ _ _ _ (by omega), htake]
    · rfl
  · have hshort : (fillWindow zero windowSize (window.take v ++ input)).length ≤ p := by
      rw [length_fillWindow]
      omega
    rw [List.getElem?_eq_none hshort, List.getElem?_eq_none (by simp [maskRow, gatherRow]; omega)]

variable (zero)

/-- **What the operation leaves in each row**: its last frames, left aligned and padded with zeros. The rows have any
ages. -/
theorem appendDecoderInputPerRow_eq {windowSize chunkSize : Nat} (hsize : chunkSize < windowSize)
    (rows : List (List F × List F × Nat)) (hwindow : ∀ row ∈ rows, row.2.1.length = windowSize)
    (hinput : ∀ row ∈ rows, row.1.length = chunkSize) (hvalid : ∀ row ∈ rows, row.2.2 ≤ windowSize) :
    appendDecoderInputPerRow zero windowSize chunkSize (rows.map fun row => row.1) (rows.map fun row => row.2.1)
        (rows.map fun row => (row.2.2 : Int)) =
      .ok (rows.map fun row => fillWindow zero windowSize (row.2.1.take row.2.2 ++ row.1)) := by
  rw [appendDecoderInputPerRow, if_neg (by simp), if_neg (by omega)]
  simp only [List.map_map, List.zip_map', Function.comp_def, Int.toNat_natCast]
  congr 1
  apply List.map_congr_left
  intro row hrow
  have hv := hvalid row hrow
  rw [Nat.min_eq_left hv, ← hinput row hrow]
  exact appendRow_eq (hwindow row hrow) hv (by rw [hinput row hrow]; exact hsize)

end

end SglangOmni.Models.Dots
