import SglangOmni.Models.Higgs.Sampler

/-! The delay pattern of Higgs, and what undoes it.

`applyDelayPattern` writes one column after the other: codebook `c` is shifted by `c` rows, with a begin code before and
an end code behind. It is written for entries of any kind, so that the same program on marks tells which positions are
copied (`copied`). The shared inverse and the strided view of MOSS-TTS both give the codes back, and the action mask
shows the copied positions. -/
namespace SglangOmni.Models.Higgs
open Lib MossTts

/-! ### The forward direction -/

section
variable {α : Type} {codes : List (List α)} {numCodebooks : Nat}

/-- `codes[t, c]`. -/
def cell? (codes : List (List α)) (t c : Nat) : Option α := codes[t]?.bind fun row => row[c]?

/-- `out[t_idx < c, c] = BOC_ID`, then `out[c : c + T, c] = codes_TN[:, c]`. -/
def writeColumn (boc : α) (codes out : List (List α)) (c : Nat) : List (List α) :=
  let out := out.mapIdx fun t row => if t < c then row.set c boc else row
  out.mapIdx fun t row =>
    if c ≤ t ∧ t < c + codes.length then
      match cell? codes (t - c) c with
      | some code => row.set c code
      | none => row
    else row

/-- `apply_delay_pattern`. -/
def applyDelayPattern (boc eoc : α) (codes : List (List α)) (numCodebooks : Nat) : List (List α) :=
  (List.range numCodebooks).foldl (writeColumn boc codes)
    (List.replicate (codes.length + numCodebooks - 1) (List.replicate numCodebooks eoc))

/-- What stands in row `t` of codebook `c` afterwards. -/
def delayedCode (boc eoc : α) (codes : List (List α)) (t c : Nat) : α :=
  if t < c then boc else if t < c + codes.length then (cell? codes (t - c) c).getD eoc else eoc

theorem exists_cell {t c : Nat} (regular : ∀ row ∈ codes, row.length = numCodebooks)
    (ht : t < codes.length) (hc : c < numCodebooks) : ∃ code, cell? codes t c = some code := by
  have hrow : codes[t].length = numCodebooks := regular _ (List.getElem_mem ht)
  rw [cell?, List.getElem?_eq_getElem ht]
  exact ⟨_, List.getElem?_eq_getElem (hrow ▸ hc)⟩

theorem mapIdx_map_range {β γ : Type} (f : Nat → β → γ) (g : Nat → β) (n : Nat) :
    ((List.range n).map g).mapIdx f = (List.range n).map fun t => f t (g t) := by
  refine List.ext_getElem (by simp) fun i h₁ h₂ => ?_
  simp

theorem set_map_range (g : Nat → α) (n c : Nat) (a : α) :
    ((List.range n).map g).set c a = (List.range n).map fun k => if k = c then a else g k := by
  refine List.ext_getElem (by simp) fun i h₁ h₂ => ?_
  rw [List.getElem_set]
  simp [eq_comm]

/-- One column is written, and the others stay. -/
theorem writeColumn_map {c : Nat} (regular : ∀ row ∈ codes, row.length = numCodebooks)
    (hc : c < numCodebooks) (boc eoc : α) (rows : Nat) :
    writeColumn boc codes ((List.range rows).map fun t => (List.range numCodebooks).map fun k =>
        if k < c then delayedCode boc eoc codes t k else eoc) c =
      (List.range rows).map fun t => (List.range numCodebooks).map fun k =>
        if k < c + 1 then delayedCode boc eoc codes t k else eoc := by
  rw [writeColumn, mapIdx_map_range, mapIdx_map_range]
  refine List.map_congr_left fun t _ => ?_
  have hrow : ∀ v : α, ((List.range numCodebooks).map fun k =>
    if k < c then delayedCode boc eoc codes t k else eoc).set c v =
      (List.range numCodebooks).map fun k =>
        if k = c then v else if k < c then delayedCode boc eoc codes t k else eoc :=
    fun v => set_map_range _ _ _ _
  have hrest : ∀ k v, v = delayedCode boc eoc codes t c →
      (if k = c then v else if k < c then delayedCode boc eoc codes t k else eoc) =
        if k < c + 1 then delayedCode boc eoc codes t k else eoc := by
    intro k v hv
    by_cases hk : k = c
    · rw [if_pos hk, if_pos (by omega), hv, hk]
    · rw [if_neg hk]
      by_cases hlt : k < c
      · rw [if_pos hlt, if_pos (by omega)]
      · rw [if_neg hlt, if_neg (by omega)]
  by_cases hbefore : t < c
  · rw [if_pos hbefore, if_neg (by omega), hrow]
    exact List.map_congr_left fun k _ => hrest k boc (by rw [delayedCode, if_pos hbefore])
  · rw [if_neg hbefore]
    by_cases hcopied : t < c + codes.length
    · obtain ⟨code, hcell⟩ := exists_cell regular (t := t - c) (by omega) hc
      rw [if_pos ⟨by omega, hcopied⟩, hcell]
      dsimp only
      rw [hrow]
      refine List.map_congr_left fun k _ => hrest k _ ?_
      rw [delayedCode, if_neg hbefore, if_pos hcopied, hcell]
      rfl
    · rw [if_neg fun h => hcopied h.2]
      refine List.map_congr_left fun k _ => ?_
      by_cases hk : k = c
      · rw [hk, if_neg (Nat.lt_irrefl c), if_pos (Nat.lt_succ_self c), delayedCode, if_neg hbefore, if_neg hcopied]
      · by_cases hlt : k < c
        · rw [if_pos hlt, if_pos (by omega)]
        · rw [if_neg hlt, if_neg (by omega)]

/-- **What the loop over the codebooks writes.** -/
theorem applyDelayPattern_eq (regular : ∀ row ∈ codes, row.length = numCodebooks) (boc eoc : α) :
    applyDelayPattern boc eoc codes numCodebooks =
      (List.range (codes.length + numCodebooks - 1)).map fun t =>
        (List.range numCodebooks).map fun c => delayedCode boc eoc codes t c := by
  have hloop : ∀ k ≤ numCodebooks, (List.range k).foldl (writeColumn boc codes)
      (List.replicate (codes.length + numCodebooks - 1) (List.replicate numCodebooks eoc)) =
        (List.range (codes.length + numCodebooks - 1)).map fun t => (List.range numCodebooks).map fun c =>
          if c < k then delayedCode boc eoc codes t c else eoc := by
    intro k hk
    induction k with
    | zero => simp [List.map_const']
    | succ k ih => rw [List.range_succ, List.foldl_append, ih (Nat.le_of_succ_le hk), List.foldl_cons, List.foldl_nil,
        writeColumn_map regular hk]
  rw [applyDelayPattern, hloop numCodebooks (Nat.le_refl _)]
  refine List.map_congr_left fun t _ => List.map_congr_left fun c hc => ?_
  rw [if_pos (List.mem_range.mp hc)]

theorem cell?_map {β : Type} (f : α → β) (codes : List (List α)) (t c : Nat) :
    cell? (codes.map (List.map f)) t c = (cell? codes t c).map f := by
  rw [cell?, cell?, List.getElem?_map]
  cases codes[t]? with
  | none => rfl
  | some row => exact List.getElem?_map

end

/-! ### The action mask -/

/-- `delay_pattern_action_mask`: true at the positions of real audio. -/
def delayPatternActionMask (delayed : List Frame) (numCodebooks : Nat) (eoc : Int) : List (List Bool) :=
  let cb0EocRows := (List.range delayed.length).filter fun r => cell? delayed r 0 == some eoc
  let tRaw := cb0EocRows.head?.getD delayed.length
  (List.range delayed.length).map fun r => (List.range numCodebooks).map fun c =>
    decide (c ≤ r) && decide (r < c + tRaw)

/-- Where `apply_delay_pattern` copies: it is run on marks. -/
def copied (codes : List Frame) (numCodebooks : Nat) : List (List Bool) :=
  applyDelayPattern false false (codes.map (List.map fun _ => true)) numCodebooks

variable {codes : List Frame} {numCodebooks : Nat}

section
variable (regular : ∀ row ∈ codes, row.length = numCodebooks)
include regular

/-- The copied positions of codebook `c` are the rows from `c` on, as many as there are frames. -/
theorem copied_eq :
    copied codes numCodebooks = (List.range (codes.length + numCodebooks - 1)).map fun r =>
      (List.range numCodebooks).map fun c => decide (c ≤ r) && decide (r < c + codes.length) := by
  have hregular : ∀ row ∈ codes.map (List.map fun _ => true), row.length = numCodebooks := by
    intro row hrow
    obtain ⟨row, hmem, rfl⟩ := List.mem_map.mp hrow
    rw [List.length_map, regular row hmem]
  rw [copied, applyDelayPattern_eq hregular, List.length_map]
  refine List.map_congr_left fun r _ => List.map_congr_left fun c hc => ?_
  rw [delayedCode, List.length_map, cell?_map]
  by_cases hbefore : r < c
  · rw [if_pos hbefore, decide_eq_false (Nat.not_le.mpr hbefore), Bool.false_and]
  · rw [if_neg hbefore, decide_eq_true (Nat.not_lt.mp hbefore), Bool.true_and]
    by_cases hin : r < c + codes.length
    · obtain ⟨code, hcell⟩ := exists_cell regular (t := r - c) (by omega) (List.mem_range.mp hc)
      rw [if_pos hin, decide_eq_true hin, hcell]
      rfl
    · rw [if_neg hin, decide_eq_false hin]

/-- The first row whose codebook 0 has the end code is the one after the frames. -/
theorem rawLength_eq
    (hpos : 0 < numCodebooks) (boc : Int) {eoc : Int} (hcodes : ∀ row ∈ codes, row.head? ≠ some eoc) :
    (((List.range (applyDelayPattern boc eoc codes numCodebooks).length).filter fun r =>
        cell? (applyDelayPattern boc eoc codes numCodebooks) r 0 == some eoc).head?).getD
      (applyDelayPattern boc eoc codes numCodebooks).length = codes.length := by
  have hcell : ∀ r < codes.length + numCodebooks - 1,
      cell? (applyDelayPattern boc eoc codes numCodebooks) r 0 = some (delayedCode boc eoc codes r 0) := by
    intro r hr
    rw [applyDelayPattern_eq regular, cell?, List.getElem?_map, List.getElem?_range hr]
    simp [hpos]
  have hlen : (applyDelayPattern boc eoc codes numCodebooks).length = codes.length + (numCodebooks - 1) := by
    rw [applyDelayPattern_eq regular, List.length_map, List.length_range]
    omega
  have hcopied : ∀ r < codes.length, delayedCode boc eoc codes r 0 ≠ eoc := by
    intro r hr
    obtain ⟨code, hcode⟩ := exists_cell regular hr hpos
    have hhead : codes[r].head? = some code := by
      rw [cell?, List.getElem?_eq_getElem hr] at hcode
      rw [List.head?_eq_getElem?]
      exact hcode
    rw [delayedCode, if_neg (Nat.not_lt_zero r), if_pos (by omega), Nat.sub_zero, hcode, Option.getD_some]
    rintro rfl
    exact hcodes _ (List.getElem_mem hr) hhead
  have hnone : (List.range codes.length).filter (fun r =>
      cell? (applyDelayPattern boc eoc codes numCodebooks) r 0 == some eoc) = [] := by
    refine List.filter_eq_nil_iff.mpr fun r hr => ?_
    have hlt := List.mem_range.mp hr
    rw [hcell r (by omega)]
    simpa using hcopied r hlt
  rw [hlen, List.range_add, List.filter_append, hnone, List.nil_append]
  cases hrest : numCodebooks - 1 with
  | zero => rfl
  | succ k =>
    have hend : cell? (applyDelayPattern boc eoc codes numCodebooks) codes.length 0 = some eoc := by
      rw [hcell _ (by omega), delayedCode, if_neg (Nat.not_lt_zero _), if_neg (by omega)]
    rw [List.range_succ_eq_map, List.map_cons, Nat.add_zero, List.filter_cons_of_pos (by simp [hend])]
    rfl

/-- **The action mask shows the copied positions.** -/
theorem actionMask_eq_copied
    (hpos : 0 < numCodebooks) (boc : Int) {eoc : Int}
    (hcodes : ∀ row ∈ codes, row.head? ≠ some eoc) :
    delayPatternActionMask (applyDelayPattern boc eoc codes numCodebooks) numCodebooks eoc =
      copied codes numCodebooks := by
  have hraw := rawLength_eq regular hpos boc hcodes
  unfold delayPatternActionMask
  dsimp only
  rw [hraw, copied_eq regular, applyDelayPattern_eq regular, List.length_map, List.length_range]

/-! ### The inverse -/

theorem length_applyDelayPattern (boc eoc : Int) :
    (applyDelayPattern boc eoc codes numCodebooks).length = codes.length + numCodebooks - 1 := by
  rw [applyDelayPattern_eq regular, List.length_map, List.length_range]

/-- The diagonals are the frames. -/
theorem rawFrames_applyDelayPattern
    (hpos : 0 < numCodebooks) (boc eoc : Int) :
    rawFrames numCodebooks (applyDelayPattern boc eoc codes numCodebooks) = codes := by
  rw [rawFrames, length_applyDelayPattern regular]
  have hcount : codes.length + numCodebooks - 1 - (numCodebooks - 1) = codes.length := by omega
  rw [hcount]
  refine List.ext_getElem (by simp) fun t h₁ ht => ?_
  rw [List.getElem_map, List.getElem_range]
  have hrow : codes[t].length = numCodebooks := regular _ (List.getElem_mem ht)
  refine List.ext_getElem (by simp [rawFrame, hrow]) fun c h₂ hc => ?_
  have hc' : c < numCodebooks := hrow ▸ hc
  have hplace : (applyDelayPattern boc eoc codes numCodebooks).getD (t + c) [] =
      (List.range numCodebooks).map fun k => delayedCode boc eoc codes (t + c) k := by
    rw [applyDelayPattern_eq regular, List.getD_eq_getElem _ _ (by simp; omega), List.getElem_map, List.getElem_range]
  simp only [rawFrame, List.getElem_map, List.getElem_range]
  rw [hplace, List.getD_eq_getElem _ _ (by simpa using hc'), List.getElem_map, List.getElem_range, delayedCode,
    if_neg (by omega), if_pos (by omega), Nat.add_sub_cancel, cell?, List.getElem?_eq_getElem ht]
  show (codes[t][c]?).getD eoc = codes[t][c]
  rw [List.getElem?_eq_getElem hc]
  rfl

end

/-- The delayed rows, as a tensor. -/
def delayedRows (codes : CodeRows) : CodeRows where
  width := codes.width
  rows := applyDelayPattern bocId eocId codes.rows codes.width
  regular row hrow := by
    rw [applyDelayPattern_eq codes.regular] at hrow
    obtain ⟨t, _, rfl⟩ := List.mem_map.mp hrow
    simp

/-- Whatever stands in the rows, the segments are the maximal runs of the frames whose codes are all audio codes. -/
theorem split_maximal (delayed : CodeRows) (hpos : 0 < delayed.width) (padCode : Int) {start : Int}
    (hstart : start ≤ 0) :
    ∃ frames intervals, Models.reverseDelayPattern delayed.rows delayed.width true = .ok frames ∧
      Runs.Maximal (isCompleteCode padCode) frames intervals ∧
      splitMossAudioSegments delayed padCode start = intervals.map (Runs.slice frames) := by
  obtain ⟨intervals, hmax, hall⟩ := Runs.maximal_of (nonPad padCode) (rawFrames delayed.width delayed.rows)
  refine ⟨_, intervals, reverseDelayPattern_allowShort delayed.rows hpos, hmax.congr fun frame hframe => ?_, ?_⟩
  · obtain ⟨t, _, rfl⟩ := List.mem_map.mp hframe
    exact nonPad_of_ne_nil padCode (by simp [rawFrame, Nat.pos_iff_ne_zero.mp hpos])
  · have htrim : ∀ segments : List (List Frame), trimAssistantPrefix start segments = segments := by
      intro segments
      cases segments with
      | nil => rfl
      | cons first rest => exact if_neg (Int.not_lt.mpr hstart)
    rw [split_runs, htrim, if_neg (Nat.pos_iff_ne_zero.mp hpos), segmentsOf, hall]

/-- **Main theorem.** The delay pattern is undone by the shared inverse and by the strided view alike, whose segments
are the maximal runs of complete frames; and the action mask of delayed codes shows exactly the positions that were
copied. -/
theorem delay_pattern_undone :
    (∀ codes : CodeRows, 0 < codes.rows.length → 0 < codes.width →
      (∀ allowShort, Models.reverseDelayPattern (delayedRows codes).rows codes.width allowShort = .ok codes.rows) ∧
      (delayedRows codes).asStrided ((delayedRows codes).rows.length - (codes.width - 1)) = codes.rows ∧
      ((∀ row ∈ codes.rows, row.head? ≠ some eocId) →
        delayPatternActionMask (delayedRows codes).rows codes.width eocId = copied codes.rows codes.width)) ∧
    ∀ delayed : CodeRows, 0 < delayed.width → ∀ padCode start : Int, start ≤ 0 →
      ∃ frames intervals, Models.reverseDelayPattern delayed.rows delayed.width true = .ok frames ∧
        Runs.Maximal (isCompleteCode padCode) frames intervals ∧
        splitMossAudioSegments delayed padCode start = intervals.map (Runs.slice frames) := by
  refine ⟨fun codes hrows hpos => ⟨fun allowShort => ?_, ?_, ?_⟩,
    fun delayed hpos padCode start => split_maximal delayed hpos padCode⟩
  · have hlen : codes.width ≤ (delayedRows codes).rows.length := by
      show codes.width ≤ (applyDelayPattern bocId eocId codes.rows codes.width).length
      rw [length_applyDelayPattern codes.regular]
      omega
    rw [reverseDelayPattern_eq _ hpos hlen]
    exact congrArg Except.ok (rawFrames_applyDelayPattern codes.regular hpos bocId eocId)
  · rw [asStrided_eq]
    exact rawFrames_applyDelayPattern codes.regular hpos bocId eocId
  · exact actionMask_eq_copied codes.regular hpos bocId

/-- Three rows of two codes, with one that is padding. -/
def threeRows : CodeRows where
  width := 2
  rows := [[1, 2], [9, 9], [5, 6]]
  regular := by decide

theorem delay_pattern_undone_three_rows :
    Models.reverseDelayPattern (delayedRows threeRows).rows 2 false = .ok [[1, 2], [9, 9], [5, 6]] ∧
      delayPatternActionMask (delayedRows threeRows).rows 2 eocId = copied threeRows.rows 2 ∧
      ∃ frames intervals, Models.reverseDelayPattern (delayedRows threeRows).rows 2 true = .ok frames ∧
        Runs.Maximal (isCompleteCode 9) frames intervals ∧ intervals.map (Runs.slice frames) =
          [[[1, 2]], [[5, 6]]] := by
  obtain ⟨hinverse, _, hmask⟩ := delay_pattern_undone.1 threeRows (by decide) (by decide)
  obtain ⟨frames, intervals, hframes, hmax, hsplit⟩ :=
    delay_pattern_undone.2 (delayedRows threeRows) (by decide) 9 0 (by decide)
  exact ⟨hinverse false, hmask (by decide), frames, intervals, hframes, hmax, hsplit.symm.trans (by decide)⟩

end SglangOmni.Models.Higgs
