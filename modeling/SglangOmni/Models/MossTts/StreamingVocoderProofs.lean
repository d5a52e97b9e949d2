import SglangOmni.Models.MossTts.StreamingVocoder

/-! Streaming against the non-streaming path.

The frames a stream has undelayed are, at any time, those in its segments and those it still holds back, together the
frames of the rows it was sent (`Stream`). Between two decodes every segment is emitted to its end (`Settled`); a decode
opens a gap only at the end of the last segment and behind it (`Emitted.inOrder`), so filling the gaps in the order of
the segments continues the audio where it stopped. -/
namespace SglangOmni.Models.MossTts
open Lib

/-! ### What the codec is relied on for -/

section Codec
variable {Sample : Type}

/-- The codec gives every frame of a segment the same number of samples, which depend on that frame and at most
`overlap` frames before it. -/
def Framewise (decodeCodes : List (List Frame) → List (List Sample)) (overlap : Nat)
    (render : List Frame → List Sample) : Prop :=
  ∀ frames, decodeCodes [frames] = [windowed overlap render frames 0 frames.length]

/-- What the stream knows about the samples of a frame is right. -/
def RateKnown (size : Nat) (known : Option Nat) : Prop := known.getD 0 = 0 ∨ known = some (max size 1)

theorem RateKnown.resolved {size : Nat} {known : Option Nat} (h : RateKnown size known) {frames : Nat}
    (hpos : 0 < frames) :
    resolvedSamplesPerFrame known (frames * size) frames = max size 1 := by
  have hdiv : frames * size / max frames 1 = size := by
    rw [Nat.max_eq_left hpos, Nat.mul_div_cancel_left _ hpos]
  cases known with
  | none => simp only [resolvedSamplesPerFrame, hdiv]
  | some n =>
    cases n with
    | zero => simp only [resolvedSamplesPerFrame, hdiv]
    | succ n =>
      obtain h | h := h
      · exact absurd h (Nat.succ_ne_zero n)
      · exact Option.some.inj h

/-- How far a segment is: its frames, and how many of them were emitted. -/
def Segment.progress (segment : Segment) : List Frame × Nat := (segment.frames, segment.emittedFrames)

variable (overlap : Nat) (render : List Frame → List Sample)

def emittedAudio (p : List Frame × Nat) : List Sample := windowed overlap render p.1 0 p.2

def missingAudio (p : List Frame × Nat) : List Sample := windowed overlap render p.1 p.2 p.1.length

def wholeAudio (p : List Frame × Nat) : List Sample := windowed overlap render p.1 0 p.1.length

/-- What was emitted is the beginning of the segments' audio. -/
structure Emitted (out : List Sample) (segments : List (List Frame × Nat)) : Prop where
  reached : ∀ p ∈ segments, p.2 ≤ p.1.length
  inOrder : segments.Pairwise fun p q => p.2 = p.1.length ∨ q.2 = 0
  audio : out = segments.flatMap (emittedAudio overlap render)

namespace Emitted
variable {overlap : Nat} {render : List Frame → List Sample} {out : List Sample}
    {segments pre : List (List Frame × Nat)}

/-- A frame at the end of the last segment. -/
theorem extend {frames : List Frame} {emitted : Nat} (h : Emitted overlap render out (pre ++ [(frames, emitted)]))
    (frame : Frame) : Emitted overlap render out (pre ++ [(frames ++ [frame], emitted)]) := by
  have hreach : emitted ≤ frames.length := h.reached (frames, emitted) (by simp)
  refine ⟨fun p hp => ?_, ?_, ?_⟩
  · rw [List.mem_append, List.mem_singleton] at hp
    obtain hp | rfl := hp
    · exact h.reached p (List.mem_append_left _ hp)
    · simp only [List.length_append, List.length_singleton]
      omega
  · have hpair := List.pairwise_append.mp h.inOrder
    apply List.pairwise_append.mpr
    refine ⟨hpair.1, List.pairwise_singleton _ _, fun p hp q hq => ?_⟩
    rw [List.mem_singleton] at hq
    rw [hq]
    exact hpair.2.2 p hp (frames, emitted) (by simp)
  · rw [h.audio]
    simp only [List.flatMap_append, List.flatMap_singleton, emittedAudio, windowed_extend overlap render _ _ hreach]

/-- A frame that starts a segment. -/
theorem start (h : Emitted overlap render out segments) (frame : Frame) :
    Emitted overlap render out (segments ++ [([frame], 0)]) := by
  refine ⟨fun p hp => ?_, ?_, ?_⟩
  · rw [List.mem_append, List.mem_singleton] at hp
    obtain hp | rfl := hp
    · exact h.reached p hp
    · exact Nat.zero_le _
  · apply List.pairwise_append.mpr
    refine ⟨h.inOrder, List.pairwise_singleton _ _, fun p _ q hq => ?_⟩
    rw [List.mem_singleton] at hq
    exact .inr (by rw [hq])
  · rw [h.audio]
    simp [emittedAudio]

/-- **Filling the gaps in the order of the segments continues the audio.** -/
theorem fill (h : Emitted overlap render out segments) :
    out ++ segments.flatMap (missingAudio overlap render) = segments.flatMap (wholeAudio overlap render) := by
  rw [h.audio]
  have hreach := h.reached
  have hord := h.inOrder
  clear h
  induction segments with
  | nil => rfl
  | cons p rest ih =>
    have hp : p.2 ≤ p.1.length := hreach p (.head _)
    have hrest := fun q hq => hreach q (.tail _ hq)
    have hsplit := windowed_append overlap render p.1 (Nat.zero_le p.2) hp
    obtain ⟨hhead, htail⟩ := List.pairwise_cons.mp hord
    simp only [List.flatMap_cons]
    by_cases hdone : p.2 = p.1.length
    · have hnone : missingAudio overlap render p = [] := by rw [missingAudio, hdone, windowed_self]
      have hall : emittedAudio overlap render p = wholeAudio overlap render p := by rw [emittedAudio, wholeAudio, hdone]
      rw [hnone, hall, List.nil_append, List.append_assoc, ih hrest htail]
    · have hzero : ∀ q ∈ rest, q.2 = 0 := fun q hq => (hhead q hq).resolve_left hdone
      have hnone : rest.flatMap (emittedAudio overlap render) = [] := by
        apply List.flatMap_eq_nil_iff.mpr
        intro q hq
        rw [emittedAudio, hzero q hq, windowed_self]
      have hmissing : rest.flatMap (missingAudio overlap render) = rest.flatMap (wholeAudio overlap render) := by
        apply List.flatMap_congr
        intro q hq
        rw [missingAudio, wholeAudio, hzero q hq]
      rw [hnone, hmissing, List.append_nil, ← List.append_assoc]
      exact congrArg (· ++ _) hsplit

/-- Segments emitted to their ends. -/
theorem filled (h : out = segments.flatMap (wholeAudio overlap render)) :
    Emitted overlap render out (segments.map fun p => (p.1, p.1.length)) := by
  refine ⟨fun p hp => ?_, ?_, ?_⟩
  · obtain ⟨q, _, rfl⟩ := List.mem_map.mp hp
    exact Nat.le_refl _
  · apply List.pairwise_map.mpr
    exact List.pairwise_of_forall fun _ _ => .inl rfl
  · rw [h, List.flatMap_map]
    rfl

end Emitted
end Codec

/-! ### Decoding segments -/

section Decode
variable {Sample : Type} {decodeCodes : List (List Frame) → List (List Sample)} {sch : Scheduler}
  {render : List Frame → List Sample} {size : Nat}

/-- A segment emits exactly what it has not emitted yet. -/
theorem decodeSegmentDelta_emits (hdec : Framewise decodeCodes sch.streamOverlapTokens render)
    (hsize : ∀ ctx, (render ctx).length = size) {known : Option Nat} (hknown : RateKnown size known) (segment : Segment)
    (hreach : segment.emittedFrames ≤ segment.frames.length) (hne : segment.frames ≠ []) (flush : Bool) :
    ∃ chunk known' segment', decodeSegmentDelta decodeCodes sch known segment flush = .ok (chunk, known', segment') ∧
      RateKnown size known' ∧ segment'.progress = (segment.frames, segment.frames.length) ∧
      chunk.toList.flatten = missingAudio sch.streamOverlapTokens render segment.progress := by
  rw [decodeSegmentDelta]
  simp only [if_neg (Nat.not_lt.mpr hreach)]
  by_cases hskip : segment.frames.length = segment.emittedFrames ∧ (!flush || segment.tailEmitted) = true
  · refine ⟨none, known, segment, if_pos hskip, hknown, ?_, ?_⟩
    · rw [Segment.progress, hskip.1]
    · rw [missingAudio, Segment.progress, hskip.1, windowed_self]
      rfl
  · rw [if_neg hskip]
    have hframes : 0 < segment.frames.length := List.length_pos_iff.mpr hne
    have hov : 0 < sch.streamOverlapTokens := sch.overlap_pos
    generalize hws : segment.emittedFrames - sch.streamOverlapTokens = windowStart
    have hlt : windowStart < segment.frames.length := by omega
    have hwindow : segment.frames.drop windowStart ≠ [] := by
      rw [ne_eq, List.drop_eq_nil_iff]
      omega
    have hlen : (windowed sch.streamOverlapTokens render (segment.frames.drop windowStart) 0
        (segment.frames.drop windowStart).length).length = (segment.frames.length - windowStart) * size := by
      rw [windowed_length _ hsize, List.length_drop, Nat.sub_zero]
    rw [if_neg hwindow, hdec]
    simp only [hlen, hknown.resolved (Nat.sub_pos_of_lt hlt)]
    -- what is left behind the overlap, whatever a frame weighs
    have hdelta : (windowed sch.streamOverlapTokens render (segment.frames.drop windowStart) 0
          (segment.frames.drop windowStart).length).drop
          (min ((segment.emittedFrames - windowStart) * max size 1) ((segment.frames.length - windowStart) * size)) =
        missingAudio sch.streamOverlapTokens render segment.progress := by
      have hmissing : missingAudio sch.streamOverlapTokens render segment.progress =
          windowed sch.streamOverlapTokens render (segment.frames.drop windowStart)
            (segment.emittedFrames - windowStart)
            (segment.frames.length - windowStart) :=
        (windowed_drop _ render segment.frames (show windowStart ≤ segment.emittedFrames by omega) (by omega)).symm
      rw [hmissing]
      obtain rfl | hpos := Nat.eq_zero_or_pos size
      · have hnil : ∀ a b, windowed sch.streamOverlapTokens render (segment.frames.drop windowStart) a b = [] := by
          intro a b
          apply List.eq_nil_of_length_eq_zero
          rw [windowed_length _ hsize, Nat.mul_zero]
        rw [hnil, hnil, List.drop_nil]
      · have htrim : (segment.emittedFrames - windowStart) * size ≤ (segment.frames.length - windowStart) * size :=
          Nat.mul_le_mul_right _ (by omega)
        rw [Nat.max_eq_left hpos, Nat.min_eq_left htrim, List.length_drop]
        have := drop_windowed sch.streamOverlapTokens hsize (segment.frames.drop windowStart)
          (Nat.zero_le (segment.emittedFrames - windowStart))
          (show segment.emittedFrames - windowStart ≤ segment.frames.length - windowStart by omega)
        rwa [Nat.sub_zero] at this
    have htake : (missingAudio sch.streamOverlapTokens render segment.progress).take
          ((segment.frames.length - segment.emittedFrames) * max size 1) =
        missingAudio sch.streamOverlapTokens render segment.progress := by
      apply List.take_of_length_le
      rw [missingAudio, windowed_length _ hsize]
      exact Nat.mul_le_mul_left _ (Nat.le_max_left ..)
    rw [hdelta, htake, ite_self]
    refine ⟨_, _, _, rfl, .inr rfl, rfl, ?_⟩
    by_cases hempty : (missingAudio sch.streamOverlapTokens render segment.progress).isEmpty
    · rw [if_pos hempty, List.isEmpty_iff.mp hempty]
      rfl
    · rw [if_neg hempty]
      exact List.append_nil _

/-- One pass emits what the segments have not emitted yet, in their order. -/
theorem decodeSegments_emits (hdec : Framewise decodeCodes sch.streamOverlapTokens render)
    (hsize : ∀ ctx, (render ctx).length = size) (isFinal : Bool) {known : Option Nat} (hknown : RateKnown size known)
    (segments : List Segment) (hreach : ∀ s ∈ segments, s.emittedFrames ≤ s.frames.length)
    (hne : ∀ s ∈ segments, s.frames ≠ []) :
    ∃ chunks known' segments', decodeSegments decodeCodes sch isFinal known segments = .ok (chunks, known', segments') ∧
      RateKnown size known' ∧
      segments'.map Segment.progress = (segments.map Segment.progress).map (fun p => (p.1, p.1.length)) ∧
      chunks.flatten = (segments.map Segment.progress).flatMap (missingAudio sch.streamOverlapTokens render) := by
  induction segments generalizing known with
  | nil => exact ⟨[], known, [], rfl, hknown, rfl, rfl⟩
  | cons segment rest ih =>
    obtain ⟨chunk, known₁, segment', h₁, hk₁, hp₁, ha₁⟩ := decodeSegmentDelta_emits hdec hsize hknown segment
      (hreach segment (.head _)) (hne segment (.head _)) (segment.closed || isFinal)
    obtain ⟨chunks, known₂, rest', h₂, hk₂, hp₂, ha₂⟩ := ih hk₁ (fun s hs => hreach s (.tail _ hs))
      (fun s hs => hne s (.tail _ hs))
    refine ⟨chunk.toList ++ chunks, known₂, segment' :: rest', ?_, hk₂, ?_, ?_⟩
    · rw [decodeSegments, h₁]
      simp only [h₂]
    · rw [List.map_cons, List.map_cons, List.map_cons, hp₁, hp₂]
      rfl
    · rw [List.flatten_append, ha₁, ha₂, List.map_cons, List.flatMap_cons]

end Decode

/-! ### What a stream holds -/

def StreamState.progress (st : StreamState) : List (List Frame × Nat) := st.segments.map Segment.progress

section Stream
variable {Sample : Type} (sch : Scheduler) (render : List Frame → List Sample) (size : Nat)

/-- A stream that was sent `rows`, has the frames `done` in segments, and gave the audio `out`. -/
structure Holds (nVq : Nat) (rows done : List Frame) (out : List Sample) (st : StreamState) : Prop where
  nVq_pos : 0 < nVq
  codebooks : st.nVq = some nVq
  padCode : st.audioPadCode = some sch.defaultAudioPadCode
  rate : RateKnown size st.samplesPerFrame
  undelayed : done ++ st.pendingRawFrames = rawFrames nVq rows
  window : st.delayWindow = rows.drop (rows.length - (nVq - 1))
  frames : st.progress.map Prod.fst = (Runs.of (nonPad sch.defaultAudioPadCode) done).all
  emitted : Emitted sch.streamOverlapTokens render out st.progress

/-- The segment that takes the next frame is the open run. -/
def Active (done : List Frame) (st : StreamState) : Prop :=
  st.activeSegment = (Runs.of (nonPad sch.defaultAudioPadCode) done).current.map fun _ =>
    (Runs.of (nonPad sch.defaultAudioPadCode) done).ended.length

/-- Every segment is emitted to its end. -/
def Settled (st : StreamState) : Prop := ∀ p ∈ st.progress, p.2 = p.1.length

variable {sch render size} {nVq : Nat} {rows done : List Frame} {out : List Sample} {st : StreamState}

/-! ### Taking rows -/

/-- A row completes the frame on the diagonal that ends in it. -/
theorem Holds.ingestRow (h : Holds sch render size nVq rows done out st) (row : Frame) :
    Holds sch render size nVq (rows ++ [row]) done out (MossTts.ingestRow nVq st row) := by
  have hpos := h.nVq_pos
  have hwindow : st.delayWindow ++ [row] = (rows ++ [row]).drop (rows.length - (nVq - 1)) := by
    rw [h.window, List.drop_append_of_le_length (Nat.sub_le ..)]
  have hlen : (st.delayWindow ++ [row]).length = rows.length + 1 - (rows.length - (nVq - 1)) := by
    rw [hwindow, List.length_drop, List.length_append, List.length_singleton]
  have hraw := rawFrames_concat hpos rows row
  rw [MossTts.ingestRow]
  by_cases hshort : rows.length + 1 < nVq
  · rw [if_pos hshort, List.append_nil] at hraw
    simp only [if_pos (show (st.delayWindow ++ [row]).length < nVq by omega)]
    refine { h with undelayed := ?_, window := ?_ }
    · rw [hraw]
      exact h.undelayed
    · show st.delayWindow ++ [row] = _
      rw [hwindow, List.length_append, List.length_singleton, show rows.length - (nVq - 1) = 0 by omega,
        show rows.length + 1 - (nVq - 1) = 0 by omega]
  · rw [if_neg hshort, ← h.undelayed] at hraw
    simp only [if_neg (show ¬ (st.delayWindow ++ [row]).length < nVq by omega)]
    refine { h with undelayed := ?_, window := ?_ }
    · have hframe : ((List.range nVq).map fun channel =>
          ((st.delayWindow ++ [row]).getD channel []).getD channel 0) =
            rawFrame nVq (rows ++ [row]) (rows.length + 1 - nVq) := by
        apply List.map_congr_left
        intro channel _
        have hat : ((rows ++ [row]).drop (rows.length - (nVq - 1))).getD channel [] =
            (rows ++ [row]).getD (rows.length + 1 - nVq + channel) [] := by
          rw [List.getD_eq_getElem?_getD, List.getElem?_drop, List.getD_eq_getElem?_getD,
            show rows.length - (nVq - 1) = rows.length + 1 - nVq by omega]
        rw [hwindow, hat]
      show done ++ (st.pendingRawFrames ++ [_]) = _
      rw [hraw, hframe, List.append_assoc]
    · show (st.delayWindow ++ [row]).tail = _
      rw [hwindow, List.tail_drop, List.length_append, List.length_singleton,
        show rows.length - (nVq - 1) + 1 = rows.length + 1 - (nVq - 1) by omega]

theorem ingestRow_frame (nVq : Nat) (st : StreamState) (row : Frame) :
    (MossTts.ingestRow nVq st row).segments = st.segments ∧
      (MossTts.ingestRow nVq st row).activeSegment = st.activeSegment := by
  simp only [MossTts.ingestRow]
  split <;> exact ⟨rfl, rfl⟩

theorem Holds.ingestRows (h : Holds sch render size nVq rows done out st) (ha : Active sch done st) (hs : Settled st)
    (more : List Frame) :
    Holds sch render size nVq (rows ++ more) done out (more.foldl (MossTts.ingestRow nVq) st) ∧
      Active sch done (more.foldl (MossTts.ingestRow nVq) st) ∧ Settled (more.foldl (MossTts.ingestRow nVq) st) := by
  induction more generalizing rows st with
  | nil =>
    rw [List.append_nil]
    exact ⟨h, ha, hs⟩
  | cons row more ih =>
    obtain ⟨hseg, hact⟩ := ingestRow_frame nVq st row
    have hsettled : Settled (MossTts.ingestRow nVq st row) := by
      rw [Settled, StreamState.progress, hseg]
      exact hs
    have := ih (h.ingestRow row) (hact.trans ha) hsettled
    rwa [List.append_assoc] at this

/-! ### Moving frames into segments -/

theorem map_modify {α β : Type} {f : α → α} (f' : β → β) {g : α → β} (hfg : ∀ a, g (f a) = f' (g a))
    (xs : List α) (i : Nat) :
    (xs.modify i f).map g = (xs.map g).modify i f' := by
  induction xs generalizing i with
  | nil => rw [List.modify_nil, List.map_nil, List.modify_nil]
  | cons a xs ih =>
    cases i with
    | zero => simp [hfg]
    | succ i => simp [ih]

theorem modify_length {α : Type} (f : α → α) (xs : List α) (a : α) : (xs ++ [a]).modify xs.length f = xs ++ [f a] := by
  induction xs with
  | nil => rfl
  | cons b xs ih => simp [ih]

/-- Closing a segment moves nothing. -/
theorem closeActiveSegment_eq (st : StreamState) : ∃ segments, segments.map Segment.progress = st.progress ∧
    closeActiveSegment st = { st with segments := segments, activeSegment := none } := by
  cases h : st.activeSegment with
  | none =>
    refine ⟨st.segments, rfl, ?_⟩
    simp only [closeActiveSegment, h]
    rw [← h]
  | some i =>
    refine ⟨st.segments.modify i fun segment => { segment with closed := true },
      ?_, by simp only [closeActiveSegment, h]⟩
    calc _ = (st.segments.map Segment.progress).modify i id := by
            apply map_modify
            exact fun _ => rfl
      _ = st.progress := List.modify_id _ _

/-- A frame leaves the pending ones. -/
theorem Holds.collect (h : Holds sch render size nVq rows done out st) {frame : Frame} {rest : List Frame}
    (hp : st.pendingRawFrames = frame :: rest) {segments : List Segment} (active : Option Nat)
    (hframes : (segments.map Segment.progress).map Prod.fst =
      (Runs.of (nonPad sch.defaultAudioPadCode) (done ++ [frame])).all)
    (hemitted : Emitted sch.streamOverlapTokens render out (segments.map Segment.progress)) :
    Holds sch render size nVq rows (done ++ [frame]) out
      { st with pendingRawFrames := rest, segments := segments, activeSegment := active } where
  nVq_pos := h.nVq_pos
  codebooks := h.codebooks
  padCode := h.padCode
  rate := h.rate
  undelayed := by
    rw [← h.undelayed, hp, List.append_assoc]
    rfl
  window := h.window
  frames := hframes
  emitted := hemitted

theorem Holds.ingestRawFrame (h : Holds sch render size nVq rows done out st) (ha : Active sch done st) {frame : Frame}
    {rest : List Frame} (hp : st.pendingRawFrames = frame :: rest) :
    Holds sch render size nVq rows (done ++ [frame]) out
        (MossTts.ingestRawFrame sch.defaultAudioPadCode { st with pendingRawFrames := rest } frame) ∧
      Active sch (done ++ [frame])
        (MossTts.ingestRawFrame sch.defaultAudioPadCode { st with pendingRawFrames := rest } frame) := by
  have hframes := h.frames
  have hemitted := h.emitted
  unfold Active at ha
  by_cases hkeep : nonPad sch.defaultAudioPadCode frame
  · have hcond : (isPad sch.defaultAudioPadCode frame || !isCompleteCode sch.defaultAudioPadCode frame) = false := by
      rw [nonPad, Bool.and_eq_true, Bool.not_eq_true'] at hkeep
      rw [hkeep.1, hkeep.2]
      rfl
    simp only [MossTts.ingestRawFrame, hcond, Bool.false_eq_true, if_false]
    have hof : Runs.of (nonPad sch.defaultAudioPadCode) (done ++ [frame]) =
        { Runs.of (nonPad sch.defaultAudioPadCode) done with
          current := some ((Runs.of (nonPad sch.defaultAudioPadCode) done).current.getD [] ++ [frame]) } := by
      rw [Runs.of_concat, Runs.push, if_pos hkeep]
    unfold Active
    cases hc : (Runs.of (nonPad sch.defaultAudioPadCode) done).current with
    | some cur =>
      -- the open segment is the last one, and the frame goes to its end
      rw [hc, Option.map_some] at ha
      rw [Runs.all, hc] at hframes
      obtain ⟨pre, post, hsplit, hpre, hpost⟩ := List.map_eq_append_iff.mp hframes
      obtain ⟨last, rfl, hlast⟩ := List.map_eq_singleton_iff.mp hpost
      have hat : (Runs.of (nonPad sch.defaultAudioPadCode) done).ended.length = pre.length := by
        rw [← hpre, List.length_map]
      have hprogress : (st.segments.modify (Runs.of (nonPad sch.defaultAudioPadCode) done).ended.length
          fun segment => { segment with frames := segment.frames ++ [frame] }).map Segment.progress =
            pre ++ [(cur ++ [frame], last.2)] := by
        calc _ = (st.segments.map Segment.progress).modify pre.length (fun p => (p.1 ++ [frame], p.2)) := by
              rw [hat]
              apply map_modify
              exact fun _ => rfl
          _ = st.progress.modify pre.length (fun p => (p.1 ++ [frame], p.2)) := rfl
          _ = _ := by rw [hsplit, modify_length, hlast]
      have hback : st.progress = pre ++ [(cur, last.2)] := by rw [hsplit, ← hlast]
      simp only [ha]
      refine ⟨h.collect hp _ ?_ ?_, ?_⟩
      · rw [hprogress, hof, hc, List.map_append, hpre]
        rfl
      · rw [hprogress]
        exact Emitted.extend (hback ▸ hemitted) frame
      · rw [hof]
        rfl
    | none =>
      rw [hc, Option.map_none] at ha
      rw [Runs.all, hc, Option.toList_none, List.append_nil] at hframes
      have hprogress : ((st.segments ++ [({ frames := [] } : Segment)]).modify st.segments.length
          fun segment => { segment with frames := segment.frames ++ [frame] }).map Segment.progress =
            st.progress ++ [([frame], 0)] := by
        rw [modify_length, List.map_append]
        rfl
      simp only [ha]
      refine ⟨h.collect hp _ ?_ ?_, ?_⟩
      · rw [hprogress, hof, hc, List.map_append, hframes]
        rfl
      · rw [hprogress]
        exact hemitted.start frame
      · rw [hof, Option.map_some, ← hframes, List.length_map, StreamState.progress, List.length_map]
  · have hcond : (isPad sch.defaultAudioPadCode frame || !isCompleteCode sch.defaultAudioPadCode frame) = true := by
      rw [nonPad, Bool.and_eq_true, Bool.not_eq_true', not_and] at hkeep
      cases hpad : isPad sch.defaultAudioPadCode frame with
      | true => rfl
      | false => rw [Bool.not_eq_true _ |>.mp (hkeep hpad)]; rfl
    have hof : Runs.of (nonPad sch.defaultAudioPadCode) (done ++ [frame]) =
        (Runs.of (nonPad sch.defaultAudioPadCode) done).close := by
      rw [Runs.of_concat, Runs.push, if_neg hkeep]
    obtain ⟨segments, hprogress, hclose⟩ := closeActiveSegment_eq { st with pendingRawFrames := rest }
    rw [MossTts.ingestRawFrame, if_pos hcond, hclose]
    refine ⟨h.collect hp none ?_ ?_, ?_⟩
    · rw [hprogress, hof, Runs.all_close]
      exact hframes
    · rw [hprogress]
      exact hemitted
    · rw [Active, hof]
      rfl

theorem Holds.processRawFrames (count : Nat) (h : Holds sch render size nVq rows done out st)
    (ha : Active sch done st) :
    ∃ done', Holds sch render size nVq rows done' out (MossTts.processRawFrames sch.defaultAudioPadCode count st) ∧
      Active sch done' (MossTts.processRawFrames sch.defaultAudioPadCode count st) ∧
      (st.pendingRawFrames.length ≤ count →
        (MossTts.processRawFrames sch.defaultAudioPadCode count st).pendingRawFrames = []) := by
  induction count generalizing st done with
  | zero => exact ⟨done, h, ha, fun hc => List.eq_nil_of_length_eq_zero (Nat.le_zero.mp hc)⟩
  | succ count ih =>
    cases hp : st.pendingRawFrames with
    | nil =>
      simp only [MossTts.processRawFrames, hp]
      exact ⟨done, h, ha, fun _ => trivial⟩
    | cons frame rest =>
      simp only [MossTts.processRawFrames, hp]
      obtain ⟨h', ha'⟩ := h.ingestRawFrame ha hp
      have hpending : (MossTts.ingestRawFrame sch.defaultAudioPadCode { st with pendingRawFrames := rest }
        frame).pendingRawFrames
          = rest := List.append_cancel_left ((h'.undelayed.trans h.undelayed.symm).trans (by rw [hp]; simp))
      obtain ⟨done', hh, haa, hempty⟩ := ih h' ha'
      refine ⟨done', hh, haa, fun hc => hempty ?_⟩
      rw [hpending]
      exact Nat.le_of_succ_le_succ hc

end Stream

end SglangOmni.Models.MossTts
