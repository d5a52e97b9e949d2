import SglangOmni.Lib.Runs
import Mathlib.Data.List.GetD
import Mathlib.Tactic.Ring

/-! The delay pattern of MOSS-TTS audio codes.

A row of the pattern holds, for codebook `c`, the code of the frame `c` rows earlier. `splitMossAudioSegments` undoes
the delay on a whole request: frame `t` is read off the diagonal that starts in row `t`, the frames that hold a code in
every codebook are kept, and a segment is a run of kept frames. The assistant prefix is cut off the first segment
(`trimAssistantPrefix`); before that, the segments are the runs of the frames (`split_runs`). -/
namespace SglangOmni.Models.MossTts
open Lib

/-- One code for each codebook. -/
abbrev Frame := List Int

/-- A two-dimensional tensor of codes: rows of one width. -/
structure CodeRows where
  width : Nat
  rows : List Frame
  regular : ∀ row ∈ rows, row.length = width

/-- `as_strided` with strides `(width, width + 1)` over the rows laid end to end. -/
def CodeRows.asStrided (delayed : CodeRows) (count : Nat) : List Frame :=
  (List.range count).map fun t => (List.range delayed.width).map fun c =>
    delayed.rows.flatten.getD (t * delayed.width + c * (delayed.width + 1)) 0

def isPad (padCode : Int) (frame : Frame) : Bool := frame.all fun code => code == padCode

def isCompleteCode (padCode : Int) (frame : Frame) : Bool :=
  frame.all fun code => decide (0 ≤ code) && decide (code < padCode)

def nonPad (padCode : Int) (frame : Frame) : Bool := !isPad padCode frame && isCompleteCode padCode frame

/-- A frame that is complete is no padding, unless it has no codebook. -/
theorem nonPad_of_ne_nil (padCode : Int) {frame : Frame} (h : frame ≠ []) :
    nonPad padCode frame = isCompleteCode padCode frame := by
  obtain ⟨code, rest, rfl⟩ := List.exists_cons_of_ne_nil h
  cases hcomplete : isCompleteCode padCode (code :: rest) with
  | false => rw [nonPad, hcomplete, Bool.and_false]
  | true =>
    have hcode : 0 ≤ code ∧ code < padCode := by
      simp only [isCompleteCode, List.all_cons, Bool.and_eq_true, decide_eq_true_eq] at hcomplete
      exact hcomplete.1
    have hpad : isPad padCode (code :: rest) = false := by
      rw [isPad, List.all_cons, beq_eq_false_iff_ne.mpr (Int.ne_of_lt hcode.2), Bool.false_and]
    rw [nonPad, hpad, hcomplete]
    rfl

/-- The places where an index does not follow the one before it. -/
def breakPoints (idx : List Nat) : List Nat :=
  ((List.range (idx.length - 1)).filter fun j => idx.getD (j + 1) 0 != idx.getD j 0 + 1).map (· + 1)

def tensorSplitFrom {α : Type} (xs : List α) : Nat → List Nat → List (List α)
  | start, [] => [xs.drop start]
  | start, point :: points => (xs.take point).drop start :: tensorSplitFrom xs point points

/-- `torch.tensor_split` at the given places. -/
def tensorSplit {α : Type} (xs : List α) (points : List Nat) : List (List α) := tensorSplitFrom xs 0 points

/-- The first frames of the first segment are the assistant's prefix; a segment left empty is dropped. -/
def trimAssistantPrefix (assistantStartLength : Int) (segments : List (List Frame)) : List (List Frame) :=
  match segments with
  | [] => []
  | first :: rest =>
    if 0 < assistantStartLength then
      (first.drop (min assistantStartLength.toNat first.length) :: rest).filter fun segment => !segment.isEmpty
    else first :: rest

/-- Contiguous audio-code segments of delayed rows. -/
def splitMossAudioSegments (delayed : CodeRows) (audioPadCode assistantStartLength : Int) : List (List Frame) :=
  if delayed.rows.length * delayed.width = 0 then []
  else if delayed.rows.length ≤ delayed.width - 1 then []
  else
    let audioCodes := delayed.asStrided (delayed.rows.length - (delayed.width - 1))
    let idx := (List.range audioCodes.length).filter fun t => nonPad audioPadCode (audioCodes.getD t [])
    if idx = [] then []
    else
      trimAssistantPrefix assistantStartLength
        ((tensorSplit idx (breakPoints idx)).map (List.map fun t => audioCodes.getD t []))

/-! ### Undoing the delay -/

/-- The frame on the diagonal that starts in row `t`. -/
def rawFrame (nVq : Nat) (rows : List Frame) (t : Nat) : Frame :=
  (List.range nVq).map fun c => (rows.getD (t + c) []).getD c 0

/-- Every frame whose diagonal is complete. -/
def rawFrames (nVq : Nat) (rows : List Frame) : List Frame :=
  (List.range (rows.length - (nVq - 1))).map (rawFrame nVq rows)

theorem flatten_getD (rows : List Frame) {width c : Nat} (h : ∀ row ∈ rows, row.length = width)
    (hc : c < width) (i : Nat) :
    rows.flatten.getD (i * width + c) 0 = (rows.getD i []).getD c 0 := by
  induction rows generalizing i with
  | nil => rfl
  | cons row rows ih =>
    have hrow : row.length = width := h row (.head _)
    cases i with
    | zero =>
      rw [List.flatten_cons, List.getD_append _ _ _ _ (by omega)]
      simp
    | succ i =>
      have hpast : row.length ≤ (i + 1) * width + c := by
        rw [hrow, Nat.succ_mul]
        omega
      have hshift : (i + 1) * width + c - row.length = i * width + c := by
        rw [hrow, Nat.succ_mul]
        omega
      rw [List.flatten_cons, List.getD_append_right _ _ _ _ hpast, hshift, ih (fun r hr => h r (.tail _ hr)) i]
      rfl

/-- The strided view reads the diagonals. -/
theorem asStrided_eq (delayed : CodeRows) (count : Nat) :
    delayed.asStrided count = (List.range count).map (rawFrame delayed.width delayed.rows) := by
  apply List.map_congr_left
  intro t _
  apply List.map_congr_left
  intro c hc
  have hplace : t * delayed.width + c * (delayed.width + 1) = (t + c) * delayed.width + c := by ring
  rw [hplace, flatten_getD _ delayed.regular (List.mem_range.mp hc)]

/-- A new row completes the diagonal that ends in it. -/
theorem rawFrames_concat {nVq : Nat} (hpos : 0 < nVq) (rows : List Frame) (row : Frame) :
    rawFrames nVq (rows ++ [row]) =
      rawFrames nVq rows ++
        if rows.length + 1 < nVq then [] else [rawFrame nVq (rows ++ [row]) (rows.length + 1 - nVq)] := by
  have hkept : ∀ t ∈ List.range (rows.length - (nVq - 1)), rawFrame nVq (rows ++ [row]) t = rawFrame nVq rows t := by
    intro t ht
    rw [List.mem_range] at ht
    apply List.map_congr_left
    intro c hc
    rw [List.mem_range] at hc
    rw [List.getD_append _ _ _ _ (by omega)]
  rw [rawFrames, rawFrames, List.length_append, List.length_singleton, ← List.map_congr_left hkept]
  by_cases h : rows.length + 1 < nVq
  · rw [if_pos h, List.append_nil, show rows.length + 1 - (nVq - 1) = rows.length - (nVq - 1) by omega]
  · rw [if_neg h, show rows.length + 1 - (nVq - 1) = rows.length - (nVq - 1) + 1 by omega,
      List.range_succ, List.map_append,
      List.map_singleton, show rows.length - (nVq - 1) = rows.length + 1 - nVq by omega]

/-! ### Splitting at the break points -/

theorem breakPoints_concat (idx : List Nat) (last k : Nat) :
    breakPoints (idx ++ [last] ++ [k]) =
      breakPoints (idx ++ [last]) ++ if k = last + 1 then [] else [(idx ++ [last]).length] := by
  have hkept : ∀ j ∈ List.range idx.length,
      ((idx ++ [last] ++ [k]).getD (j + 1) 0 != (idx ++ [last] ++ [k]).getD j 0 + 1) =
        ((idx ++ [last]).getD (j + 1) 0 != (idx ++ [last]).getD j 0 + 1) := by
    intro j hj
    rw [List.mem_range] at hj
    rw [List.getD_append (idx ++ [last]) _ _ _ (by simp; omega),
      List.getD_append (idx ++ [last]) _ _ _ (by simp; omega)]
  simp only [breakPoints, List.length_append, List.length_singleton, Nat.add_sub_cancel, List.range_succ,
    List.filter_append,
    List.map_append]
  rw [List.filter_congr hkept]
  by_cases h : k = last + 1 <;> simp [h]

theorem breakPoints_le (idx : List Nat) : ∀ point ∈ breakPoints idx, point ≤ idx.length := by
  intro point hp
  simp only [breakPoints, List.mem_map, List.mem_filter, List.mem_range] at hp
  obtain ⟨j, ⟨hj, _⟩, rfl⟩ := hp
  omega

section TensorSplit
variable {α : Type} (xs : List α) (a : α)

/-- A new element goes to the last piece. -/
theorem tensorSplitFrom_concat (start : Nat) (points : List Nat) (hs : start ≤ xs.length)
    (hp : ∀ p ∈ points, p ≤ xs.length)
    {pieces : List (List α)} {last : List α} (h : tensorSplitFrom xs start points = pieces ++ [last]) :
    tensorSplitFrom (xs ++ [a]) start points = pieces ++ [last ++ [a]] := by
  induction points generalizing start pieces with
  | nil =>
    obtain ⟨rfl, hlast⟩ := List.append_inj' (show [] ++ [xs.drop start] = pieces ++ [last] from h) rfl
    rw [tensorSplitFrom, List.drop_append_of_le_length hs, ← List.cons.inj hlast |>.1]
    rfl
  | cons point points ih =>
    have hpoint : point ≤ xs.length := hp point (.head _)
    rw [tensorSplitFrom] at h ⊢
    cases pieces with
    | nil =>
      have hnil := (List.cons.inj h).2
      cases points <;> simp [tensorSplitFrom] at hnil
    | cons piece pieces =>
      obtain ⟨rfl, hrest⟩ := List.cons.inj h
      rw [ih point hpoint (fun p hp' => hp p (.tail _ hp')) hrest, List.take_append_of_le_length hpoint]
      rfl

/-- A break point at the end starts a new piece. -/
theorem tensorSplitFrom_break (start : Nat) (points : List Nat) (hs : start ≤ xs.length)
    (hp : ∀ p ∈ points, p ≤ xs.length) :
    tensorSplitFrom (xs ++ [a]) start (points ++ [xs.length]) = tensorSplitFrom xs start points ++ [[a]] := by
  induction points generalizing start with
  | nil => simp [tensorSplitFrom]
  | cons point points ih =>
    have hpoint : point ≤ xs.length := hp point (.head _)
    rw [List.cons_append, tensorSplitFrom, ih point hpoint fun p hp' => hp p (.tail _ hp'), tensorSplitFrom,
      List.take_append_of_le_length hpoint]
    rfl

end TensorSplit

/-- What splitting the kept indexes below `n` gives, beside the runs found one index at a time. -/
structure SplitTracks (keep : Nat → Bool) (n : Nat) : Prop where
  nothing : (List.range n).filter keep = [] → Runs.of keep (List.range n) = {}
  pieces : (List.range n).filter keep ≠ [] →
    tensorSplit ((List.range n).filter keep) (breakPoints ((List.range n).filter keep)) =
      (Runs.of keep (List.range n)).all
  opened : (Runs.of keep (List.range n)).current.isSome → ∃ idx, (List.range n).filter keep = idx ++ [n - 1] ∧ 0 < n
  closed : (Runs.of keep (List.range n)).current = none → ∀ last ∈ (List.range n).filter keep, last + 1 < n

theorem splitTracks (keep : Nat → Bool) (n : Nat) : SplitTracks keep n := by
  induction n with
  | zero => exact ⟨fun _ => rfl, fun h => absurd rfl h, fun h => (nomatch h), fun _ _ h => (nomatch h)⟩
  | succ n ih =>
    have hbound : ∀ i ∈ (List.range n).filter keep, i < n := fun i hi => List.mem_range.mp (List.mem_filter.mp hi).1
    by_cases hk : keep n
    · have hidx : (List.range (n + 1)).filter keep = (List.range n).filter keep ++ [n] := by
        rw [List.range_succ, List.filter_append, List.filter_cons_of_pos hk]
        rfl
      have hof : Runs.of keep (List.range (n + 1)) =
          { Runs.of keep (List.range n) with
            current := some ((Runs.of keep (List.range n)).current.getD [] ++ [n]) } := by
        rw [List.range_succ, Runs.of_concat, Runs.push, if_pos hk]
      refine ⟨fun h => ?_, fun _ => ?_, fun _ => ⟨_, hidx, Nat.succ_pos n⟩, fun h => ?_⟩
      · rw [hidx] at h
        simp at h
      · rw [hidx, hof]
        by_cases hnone : (List.range n).filter keep = []
        · rw [hnone, ih.nothing hnone]
          rfl
        · have hsplit := ih.pieces hnone
          cases hc : (Runs.of keep (List.range n)).current with
          | some cur =>
            -- the run goes on: no new break point, and the index joins the last piece
            obtain ⟨idx, hlast, hpos⟩ := ih.opened (by rw [hc]; rfl)
            have hnext : n = n - 1 + 1 := by omega
            rw [Runs.all, hc, hlast] at hsplit
            rw [hlast, breakPoints_concat, if_pos hnext, List.append_nil]
            exact tensorSplitFrom_concat _ _ _ _ (Nat.zero_le _) (breakPoints_le _) hsplit
          | none =>
            obtain ⟨idx, last, hlast⟩ := (List.eq_nil_or_concat ((List.range n).filter keep)).resolve_left hnone
            rw [List.concat_eq_append] at hlast
            have hgap : n ≠ last + 1 := by
              have := ih.closed hc last (by simp [hlast])
              omega
            rw [Runs.all, hc, hlast] at hsplit
            rw [hlast, breakPoints_concat, if_neg hgap, tensorSplit,
              tensorSplitFrom_break _ _ _ _ (Nat.zero_le _) (breakPoints_le _)]
            show tensorSplit _ _ ++ [[n]] = _
            rw [hsplit]
            simp [Runs.all]
      · rw [hof] at h
        cases h
    · have hidx : (List.range (n + 1)).filter keep = (List.range n).filter keep := by
        rw [List.range_succ, List.filter_append, List.filter_cons_of_neg hk]
        exact List.append_nil _
      have hof : Runs.of keep (List.range (n + 1)) = (Runs.of keep (List.range n)).close := by
        rw [List.range_succ, Runs.of_concat, Runs.push, if_neg hk]
      refine ⟨fun h => ?_, fun h => ?_, fun h => ?_, fun _ last hl => ?_⟩
      · rw [hof, ih.nothing (hidx ▸ h)]
        rfl
      · rw [hof, Runs.all_close, hidx]
        exact ih.pieces (hidx ▸ h)
      · rw [hof] at h
        cases h
      · rw [hidx] at hl
        exact Nat.succ_lt_succ (hbound last hl)

/-- The code segments before the prefix is cut off. -/
def segmentsOf (padCode : Int) (frames : List Frame) : List (List Frame) := (Runs.of (nonPad padCode) frames).all

/-- **Splitting the delayed rows gives the runs of the undelayed frames**, less the assistant's prefix. -/
theorem split_runs (delayed : CodeRows) (padCode assistantStartLength : Int) :
    splitMossAudioSegments delayed padCode assistantStartLength =
      trimAssistantPrefix assistantStartLength (segmentsOf padCode
        (if delayed.width = 0 then [] else rawFrames delayed.width delayed.rows)) := by
  rw [splitMossAudioSegments]
  by_cases hw : delayed.width = 0
  · rw [if_pos (by rw [hw]; rfl), if_pos hw]
    rfl
  · rw [if_neg hw]
    by_cases hlen : delayed.rows.length ≤ delayed.width - 1
    · have hnone : rawFrames delayed.width delayed.rows = [] := by
        rw [rawFrames, Nat.sub_eq_zero_of_le hlen]
        rfl
      rw [hnone, if_pos hlen, ite_self]
      rfl
    · have hnumel : delayed.rows.length * delayed.width ≠ 0 := Nat.mul_ne_zero (by omega) hw
      have hview : delayed.asStrided (delayed.rows.length - (delayed.width - 1)) =
        rawFrames delayed.width delayed.rows :=
        asStrided_eq delayed _
      rw [if_neg hnumel, if_neg hlen, hview]
      generalize rawFrames delayed.width delayed.rows = frames
      have hread : (List.range frames.length).map (fun t => frames.getD t []) = frames :=
        List.ext_getElem (by simp) (by simp +contextual)
      have hmap := Runs.map_of (fun t => nonPad padCode (frames.getD t [])) (fun t => frames.getD t []) (nonPad padCode)
        (List.range frames.length) fun _ _ => rfl
      rw [hread] at hmap
      have ht := splitTracks (fun t => nonPad padCode (frames.getD t [])) frames.length
      by_cases hnone : (List.range frames.length).filter (fun t => nonPad padCode (frames.getD t [])) = []
      · rw [ht.nothing hnone] at hmap
        simp only [hnone, if_true, segmentsOf, ← hmap]
        rfl
      · simp only [hnone, if_false, segmentsOf, ← hmap, Runs.all_map, ht.pieces hnone]

theorem trimAssistantPrefix_zero (segments : List (List Frame)) : trimAssistantPrefix 0 segments = segments := by
  cases segments <;> rfl

/-- Cutting a prefix off leaves every segment as it is only where there is nothing to cut. -/
theorem trimAssistantPrefix_eq_self {segments : List (List Frame)} (h : ∀ segment ∈ segments, segment ≠ [])
    (length : Int) : trimAssistantPrefix length segments = segments ↔ length ≤ 0 ∨ segments = [] := by
  cases segments with
  | nil => simp [trimAssistantPrefix]
  | cons first rest =>
    by_cases hpos : 0 < length
    · have hfirst : 0 < first.length := List.length_pos_iff.mpr (h first (.head _))
      have hne : trimAssistantPrefix length (first :: rest) ≠ first :: rest := by
        intro heq
        have hsum : (trimAssistantPrefix length (first :: rest)).flatten.length =
          (first :: rest).flatten.length := by rw [heq]
        rw [trimAssistantPrefix, if_pos hpos, List.flatten_filter_not_isEmpty] at hsum
        simp only [List.flatten_cons, List.length_append, List.length_drop] at hsum
        omega
      simp only [hne, false_iff, not_or, reduceCtorEq, not_false_eq_true, and_true]
      omega
    · simp only [trimAssistantPrefix, if_neg hpos, true_iff]
      omega

end SglangOmni.Models.MossTts
