import SglangOmni.Models.Higgs.StreamingVocoder

/-! When the stream gives the audio of one decode.

What was emitted is the audio of the first frames of the rows so far (`Progress`), and a decode gives the audio of some
frames after these, for a causal codec whose look-back is within the overlap. The final flush gives the rest. It raises
where it has nothing left to emit, no overlap to decode, and a hop length: then it takes fewer rows than a frame
needs. -/
namespace SglangOmni.Models.Higgs
open Lib
open MossTts (Frame rawFrame rawFrames rawFrames_concat)

variable {Sample : Type}

/-- A codec that gives a number of samples for each frame, from the frame and a number of frames before it. -/
structure CausalCodec (decode : List Frame → List Sample) (overlap hop : Nat) (render : List Frame → List Sample) :
    Prop where
  hop_pos : 0 < hop
  render_length : ∀ ctx, (render ctx).length = hop
  decode_eq : ∀ frames, decode frames = windowed overlap render frames 0 frames.length

/-! ### Frames of rows -/

/-- The frames of the rows, as the codec takes them. -/
def framesOf (numCodebooks : Nat) (codebookSize : Int) (rows : List Frame) : List Frame :=
  (rawFrames numCodebooks rows).map (clampCodes codebookSize)

@[simp] theorem length_framesOf (numCodebooks : Nat) (codebookSize : Int) (rows : List Frame) :
    (framesOf numCodebooks codebookSize rows).length = rows.length - (numCodebooks - 1) := by
  simp [framesOf, rawFrames]

/-- New rows complete further frames, and change none. -/
theorem framesOf_append {numCodebooks : Nat} (hpos : 0 < numCodebooks) (codebookSize : Int) (rows more : List Frame) :
    ∃ later, framesOf numCodebooks codebookSize (rows ++ more) =
      framesOf numCodebooks codebookSize rows ++ later := by
  induction more using List.reverseRecOn with
  | nil => exact ⟨[], by simp⟩
  | append_singleton more row ih =>
    obtain ⟨later, hlater⟩ := ih
    unfold framesOf at hlater ⊢
    rw [← List.append_assoc, rawFrames_concat hpos, List.map_append, hlater, List.append_assoc]
    exact ⟨_, rfl⟩

/-- The frames of a window of rows are a window of the frames. -/
theorem rawFrames_window {numCodebooks : Nat} (hpos : 0 < numCodebooks) (rows : List Frame) {w e : Nat} (hw : w ≤ e)
    (he : e + numCodebooks - 1 ≤ rows.length) :
    rawFrames numCodebooks ((rows.take (e + numCodebooks - 1)).drop w) =
      ((rawFrames numCodebooks rows).take e).drop w := by
  have hlen : ((rows.take (e + numCodebooks - 1)).drop w).length - (numCodebooks - 1) = e - w := by
    simp only [List.length_drop, List.length_take]
    omega
  have hwhole : (rawFrames numCodebooks rows).length = rows.length - (numCodebooks - 1) := by simp [rawFrames]
  refine List.ext_getElem ?_ fun t h₁ h₂ => ?_
  · rw [rawFrames, List.length_map, List.length_range, hlen, List.length_drop, List.length_take, hwhole]
    omega
  · rw [rawFrames, List.length_map, List.length_range, hlen] at h₁
    simp only [rawFrames, List.getElem_map, List.getElem_range, List.getElem_drop, List.getElem_take]
    apply List.map_congr_left
    intro c hc
    rw [List.mem_range] at hc
    congr 1
    rw [List.getD_eq_getElem _ _ (by simp only [List.length_drop, List.length_take]; omega),
      List.getD_eq_getElem _ _ (by omega), List.getElem_drop, List.getElem_take]
    simp only [Nat.add_assoc]

theorem framesOf_window {numCodebooks : Nat} (hpos : 0 < numCodebooks) (codebookSize : Int)
    (rows : List Frame) {w e : Nat}
    (hw : w ≤ e) (he : e + numCodebooks - 1 ≤ rows.length) :
    framesOf numCodebooks codebookSize ((rows.take (e + numCodebooks - 1)).drop w) =
      ((framesOf numCodebooks codebookSize rows).take e).drop w := by
  rw [framesOf, rawFrames_window hpos rows hw he, framesOf, List.map_drop, List.map_take]

/-! ### One decode -/

section Decode
variable {decode : List Frame → List Sample} {sch : Scheduler} {hop : Nat} {render : List Frame → List Sample}

theorem decodeDelayedRows_ok {numCodebooks : Nat} (hpos : 0 < numCodebooks) (codebookSize : Int) {rows : List Frame}
    (h : numCodebooks ≤ rows.length) :
    decodeDelayedRows decode rows numCodebooks codebookSize =
      .ok (decode (framesOf numCodebooks codebookSize rows)) := by
  rw [decodeDelayedRows, if_neg (Nat.not_lt.mpr h), reverseDelayPattern_eq rows hpos h]
  rfl

theorem decodeDelayedRows_short {numCodebooks : Nat} (codebookSize : Int) {rows : List Frame}
    (h : rows.length < numCodebooks) :
    decodeDelayedRows decode rows numCodebooks codebookSize = .error (.tooFewRows numCodebooks rows.length) :=
  if_pos h

/-- The audio of the frames that a window adds, behind an overlap of frames that were emitted. -/
theorem cutDelta_eq (codec : CausalCodec decode sch.streamOverlapTokens hop render)
    (known : sch.samplesPerFrame = none ∨ sch.samplesPerFrame = some hop) (st : StreamState) (isFinal : Bool)
    (frames : List Frame) {e : Nat} (hemitted : st.emittedRawFrames ≤ e) (he : e ≤ frames.length)
    (hwindow : st.emittedRawFrames - sch.streamOverlapTokens < e) :
    cutDelta sch st e (st.emittedRawFrames - sch.streamOverlapTokens) isFinal
        (decode ((frames.take e).drop (st.emittedRawFrames - sch.streamOverlapTokens))) =
      windowed sch.streamOverlapTokens render frames st.emittedRawFrames e := by
  generalize hw : st.emittedRawFrames - sch.streamOverlapTokens = w at hwindow ⊢
  have hcount : ((frames.take e).drop w).length = e - w := by
    rw [List.length_drop, List.length_take]
    omega
  have hlen : (decode ((frames.take e).drop w)).length = (e - w) * hop := by
    rw [codec.decode_eq, windowed_length _ codec.render_length, hcount, Nat.sub_zero]
  have hrate : sch.samplesPerFrame.getD (max ((e - w) * hop / max (e - w) 1) 1) = hop := by
    rcases known with hnone | hsome
    · have hdiv : (e - w) * hop / max (e - w) 1 = hop := by
        rw [Nat.max_eq_left (by omega), Nat.mul_div_cancel_left _ (by omega)]
      rw [hnone, Option.getD_none, hdiv, Nat.max_eq_left codec.hop_pos]
    · rw [hsome, Option.getD_some]
  have htrim : min ((st.emittedRawFrames - w) * hop) ((e - w) * hop) = (st.emittedRawFrames - w) * hop :=
    Nat.min_eq_left (Nat.mul_le_mul_right _ (by omega))
  have hdelta : (decode ((frames.take e).drop w)).drop ((st.emittedRawFrames - w) * hop) =
      windowed sch.streamOverlapTokens render frames st.emittedRawFrames e := by
    have hskip := drop_windowed sch.streamOverlapTokens codec.render_length ((frames.take e).drop w)
      (Nat.zero_le (st.emittedRawFrames - w)) (show st.emittedRawFrames - w ≤ e - w by omega)
    have hextend := windowed_extend sch.streamOverlapTokens render (frames.take e) (frames.drop e)
      (a := st.emittedRawFrames) (b := e) (by rw [List.length_take]; omega)
    rw [Nat.sub_zero] at hskip
    rw [codec.decode_eq, hcount, hskip, windowed_drop _ _ _ (by omega) (by omega), ← hextend, List.take_append_drop]
  simp only [cutDelta, hlen, hrate, htrim, hdelta]
  split
  · refine List.take_of_length_le ?_
    rw [windowed_length _ codec.render_length]
  · rfl

/-! ### Streams -/

/-- What was emitted is the audio of the first frames of the rows so far. -/
structure Progress (sch : Scheduler) (render : List Frame → List Sample) (numCodebooks : Nat) (codebookSize : Int)
    (rows : List Frame) (out : List Sample) (st : StreamState) : Prop where
  held : st.delayedRows = rows
  width : st.numCodebooks = numCodebooks
  size : st.codebookSize = codebookSize
  reached : st.emittedRawFrames ≤ rows.length - (numCodebooks - 1)
  out : out = windowed sch.streamOverlapTokens render (framesOf numCodebooks codebookSize rows) 0 st.emittedRawFrames

/-- At the end of the stream nothing is left to emit, no overlap is decoded, and the hop length is known. -/
def Stalls (sch : Scheduler) (st : StreamState) : Prop :=
  sch.streamOverlapTokens = 0 ∧ sch.samplesPerFrame.isSome = true ∧
    st.emittedRawFrames = st.delayedRows.length - (st.numCodebooks - 1)

instance (sch : Scheduler) (st : StreamState) : Decidable (Stalls sch st) :=
  inferInstanceAs (Decidable (_ ∧ _ ∧ _))

theorem emitUntilRaw_le (sch : Scheduler) (st : StreamState) (rawTotal : Nat) (isFinal : Bool) :
    emitUntilRaw sch st rawTotal isFinal ≤ rawTotal := by
  unfold emitUntilRaw
  split
  · exact Nat.min_le_left ..
  · split
    · exact Nat.sub_le ..
    · exact Nat.le_refl _

@[simp] theorem emitUntilRaw_final (sch : Scheduler) (st : StreamState) (rawTotal : Nat) :
    emitUntilRaw sch st rawTotal true = rawTotal := by
  simp [emitUntilRaw]

variable {numCodebooks : Nat} {codebookSize : Int} {rows : List Frame} {out : List Sample} {st : StreamState}

theorem Progress.wait (h : Progress sch render numCodebooks codebookSize rows out st) (next : Nat) :
    Progress sch render numCodebooks codebookSize rows (out ++ []) { st with nextDecodeRows := next } :=
  { h with out := by rw [List.append_nil]; exact h.out }

/-- A decode of at least one new frame. -/
theorem Progress.emit (h : Progress sch render numCodebooks codebookSize rows out st) {e : Nat}
    (hemitted : st.emittedRawFrames ≤ e) (he : e ≤ rows.length - (numCodebooks - 1)) (next : Nat) (emitted : Bool) :
    Progress sch render numCodebooks codebookSize rows
      (out ++ windowed sch.streamOverlapTokens render (framesOf numCodebooks codebookSize rows) st.emittedRawFrames e)
      { st with emittedRawFrames := e, nextDecodeRows := next, hasEmitted := emitted } :=
  { h with
    reached := he
    out := by rw [h.out, windowed_append _ _ _ (Nat.zero_le _) hemitted] }

/-- **A decode never raises while it does not stall**, and the last one gives all that is left. -/
theorem Progress.decodeAndEmit (codec : CausalCodec decode sch.streamOverlapTokens hop render)
    (known : sch.samplesPerFrame = none ∨ sch.samplesPerFrame = some hop) (hpos : 0 < numCodebooks)
    (h : Progress sch render numCodebooks codebookSize rows out st) (isFinal : Bool)
    (hgo : isFinal = true → ¬Stalls sch st) :
    ∃ delta st', Higgs.decodeAndEmit decode sch st isFinal = .ok (delta, st') ∧
      Progress sch render numCodebooks codebookSize rows (out ++ delta) st' ∧
      (isFinal = true → numCodebooks ≤ rows.length → st'.emittedRawFrames = rows.length - (numCodebooks - 1)) := by
  obtain ⟨rfl, rfl, rfl, hreached, hout⟩ := h
  have h : Progress sch render st.numCodebooks st.codebookSize st.delayedRows out st := ⟨rfl, rfl, rfl, hreached, hout⟩
  by_cases hfew : st.delayedRows.length < st.numCodebooks
  · refine ⟨[], st, ?_, ?_, fun _ hlen => absurd hfew (Nat.not_lt.mpr hlen)⟩
    · simp only [Higgs.decodeAndEmit, decodeDelta, if_pos hfew, ite_self]
    · exact h.wait st.nextDecodeRows
  have hnonempty : st.delayedRows.length ≠ 0 := by omega
  have htotal : st.delayedRows.length - st.numCodebooks + 1 = st.delayedRows.length - (st.numCodebooks - 1) := by omega
  by_cases hwait : (!isFinal && decide (st.delayedRows.length < neededRows sch st isFinal)) = true
  · refine ⟨[], { st with nextDecodeRows := neededRows sch st isFinal }, ?_, h.wait _, fun hfinal => ?_⟩
    · simp only [Higgs.decodeAndEmit, decodeDelta, if_neg hnonempty, if_neg hfew, if_pos hwait]
    · simp [hfinal] at hwait
  have hle := emitUntilRaw_le sch st (st.delayedRows.length - st.numCodebooks + 1) isFinal
  generalize he : emitUntilRaw sch st (st.delayedRows.length - st.numCodebooks + 1) isFinal = e at hle
  have hfinalTotal : isFinal = true → e = st.delayedRows.length - (st.numCodebooks - 1) := fun hfinal => by
    rw [← he, hfinal, emitUntilRaw_final, htotal]
  by_cases hnothing : e < st.emittedRawFrames ∨
    (e = st.emittedRawFrames ∧ (isFinal && sch.samplesPerFrame.isSome) = false)
  · refine ⟨[], { st with nextDecodeRows := st.delayedRows.length + sch.streamFollowupStride }, ?_, h.wait _,
      fun hfinal _ => ?_⟩
    · simp only [Higgs.decodeAndEmit, decodeDelta, if_neg hnonempty, if_neg hfew, if_neg hwait, he, if_pos hnothing]
    · have := hfinalTotal hfinal
      show st.emittedRawFrames = _
      omega
  have hemitted : st.emittedRawFrames ≤ e := by omega
  have hwindow : st.emittedRawFrames - sch.streamOverlapTokens < e := by
    by_contra hge
    have hsame : e = st.emittedRawFrames := by omega
    have hflush : (isFinal && sch.samplesPerFrame.isSome) = true := by
      cases hb : (isFinal && sch.samplesPerFrame.isSome) with
      | true => rfl
      | false => exact absurd (.inr ⟨hsame, hb⟩) hnothing
    rw [Bool.and_eq_true] at hflush
    have hend := hfinalTotal hflush.1
    exact hgo hflush.1 ⟨by omega, hflush.2, by omega⟩
  have hrows : st.numCodebooks ≤
      ((st.delayedRows.take (e + st.numCodebooks - 1)).drop
        (st.emittedRawFrames - sch.streamOverlapTokens)).length := by
    rw [List.length_drop, List.length_take]
    omega
  have hdecode : decodeDelayedRows decode _ st.numCodebooks st.codebookSize = .ok _ :=
    decodeDelayedRows_ok hpos st.codebookSize hrows
  rw [framesOf_window hpos _ _ (by omega) (by omega)] at hdecode
  have hcut := cutDelta_eq codec known st isFinal (framesOf st.numCodebooks st.codebookSize st.delayedRows) hemitted
    (by rw [length_framesOf]; omega) hwindow
  by_cases hempty : (windowed sch.streamOverlapTokens render (framesOf st.numCodebooks st.codebookSize st.delayedRows)
      st.emittedRawFrames e).isEmpty = true
  · have hsame : e = st.emittedRawFrames := by
      rw [List.isEmpty_iff, ← List.length_eq_zero_iff, windowed_length _ codec.render_length, Nat.mul_eq_zero] at hempty
      have := codec.hop_pos
      omega
    refine ⟨[], { st with nextDecodeRows := st.delayedRows.length + sch.streamFollowupStride }, ?_, h.wait _,
      fun hfinal _ => ?_⟩
    · simp only [Higgs.decodeAndEmit, decodeDelta, if_neg hnonempty, if_neg hfew, if_neg hwait, he, if_neg hnothing,
        hdecode, hcut, if_pos hempty]
    · have := hfinalTotal hfinal
      show st.emittedRawFrames = _
      omega
  · refine ⟨_, _, ?_, h.emit hemitted (by omega) (nextDecodeRowsAfterEmit sch st.delayedRows.length st.numCodebooks
      (useInitialChunk sch st && !isFinal)) true, fun hfinal _ => hfinalTotal hfinal⟩
    simp only [Higgs.decodeAndEmit, decodeDelta, if_neg hnonempty, if_neg hfew, if_neg hwait, he, if_neg hnothing,
      hdecode, hcut, if_neg hempty]

/-- New rows change nothing in what was emitted. -/
theorem Progress.append (hpos : 0 < numCodebooks) (h : Progress sch render numCodebooks codebookSize rows out st)
    (more : List Frame) :
    Progress sch render numCodebooks codebookSize (rows ++ more) out
      { st with delayedRows := st.delayedRows ++ more } := by
  obtain ⟨later, hlater⟩ := framesOf_append hpos codebookSize rows more
  have hreached := h.reached
  exact { h with
    held := by rw [h.held]
    reached := by
      show st.emittedRawFrames ≤ (rows ++ more).length - (numCodebooks - 1)
      rw [List.length_append]
      omega
    out := by rw [h.out, hlater, windowed_extend _ _ _ _ (by rw [length_framesOf]; exact hreached)] }

theorem Progress.latch (h : Progress sch render numCodebooks codebookSize rows out st) (initialFrames : Option Nat) :
    Progress sch render numCodebooks codebookSize rows out (latchInitialChunkFrames sch st initialFrames) :=
  { h with }

theorem Progress.onMessage (codec : CausalCodec decode sch.streamOverlapTokens hop render)
    (known : sch.samplesPerFrame = none ∨ sch.samplesPerFrame = some hop) (hpos : 0 < numCodebooks)
    (h : Progress sch render numCodebooks codebookSize rows out st) (m : Message) :
    ∃ delta st', Higgs.onMessage decode sch st m = .ok (delta, st') ∧
      Progress sch render numCodebooks codebookSize (rows ++ m.rows) (out ++ delta) st' := by
  cases m with
  | payload initialFrames =>
    refine ⟨[], _, rfl, ?_⟩
    show Progress sch render numCodebooks codebookSize (rows ++ []) (out ++ []) _
    rw [List.append_nil, List.append_nil]
    exact h.latch initialFrames
  | chunk initialFrames more =>
    cases initialFrames with
    | none =>
      obtain ⟨delta, st', hok, hprogress, _⟩ := (h.append hpos more).decodeAndEmit codec known hpos false (by simp)
      exact ⟨delta, st', hok, hprogress⟩
    | some initialFrames =>
      obtain ⟨delta, st', hok, hprogress, _⟩ :=
        ((h.latch initialFrames).append hpos more).decodeAndEmit codec known hpos false (by simp)
      exact ⟨delta, st', hok, hprogress⟩

/-- The messages of a stream are taken without an error, whatever their order. -/
theorem Progress.onMessages (codec : CausalCodec decode sch.streamOverlapTokens hop render)
    (known : sch.samplesPerFrame = none ∨ sch.samplesPerFrame = some hop) (hpos : 0 < numCodebooks)
    (h : Progress sch render numCodebooks codebookSize rows out st) (messages : List Message) :
    ∃ deltas st', Higgs.onMessages decode sch st messages = .ok (deltas, st') ∧
      Progress sch render numCodebooks codebookSize (rows ++ messages.flatMap Message.rows) (out ++ deltas) st' := by
  induction messages generalizing rows out st with
  | nil =>
    refine ⟨[], st, rfl, ?_⟩
    rw [List.flatMap_nil, List.append_nil, List.append_nil]
    exact h
  | cons m rest ih =>
    obtain ⟨delta, st₁, hok, hprogress⟩ := h.onMessage codec known hpos m
    obtain ⟨deltas, st₂, hrest, hdone⟩ := ih hprogress
    refine ⟨delta ++ deltas, st₂, ?_, ?_⟩
    · simp only [Higgs.onMessages, hok, bind, Except.bind, hrest]
      rfl
    · rw [List.flatMap_cons, ← List.append_assoc, ← List.append_assoc]
      exact hdone

/-- A stall raises. -/
theorem Stalls.raises (hpos : 0 < st.numCodebooks) (hrows : st.numCodebooks ≤ st.delayedRows.length)
    (h : Stalls sch st) : Higgs.decodeAndEmit decode sch st true =
      .error (.tooFewRows st.numCodebooks (st.numCodebooks - 1)) := by
  obtain ⟨hoverlap, hknown, hall⟩ := h
  have htotal : st.delayedRows.length - st.numCodebooks + 1 = st.emittedRawFrames := by omega
  have hnonempty : st.delayedRows.length ≠ 0 := by omega
  have hlen : ((st.delayedRows.take (st.emittedRawFrames + st.numCodebooks - 1)).drop st.emittedRawFrames).length =
      st.numCodebooks - 1 := by
    rw [List.length_drop, List.length_take]
    omega
  simp only [Higgs.decodeAndEmit, decodeDelta, if_neg hnonempty, if_neg (Nat.not_lt.mpr hrows), Bool.not_true,
    Bool.false_and, Bool.false_eq_true, if_false, emitUntilRaw_final, htotal, hoverlap, Nat.sub_zero, hknown,
    Bool.and_self, Nat.lt_irrefl, Bool.true_eq_false, and_false, or_self]
  rw [decodeDelayedRows_short _ (by omega), hlen]

end Decode

/-- The final flush of a stream stalls. -/
def StallsAtFlush (decode : List Frame → List Sample) (sch : Scheduler) (st : StreamState) (messages : List Message) :
    Prop :=
  ∃ deltas st', onMessages decode sch st messages = .ok (deltas, st') ∧ Stalls sch st'

/-- **Main theorem**: a stream with at least one frame, in any messages, gives the audio of one decode of all its rows
and never raises, if and only if its final flush does not stall. -/
theorem streaming_equals_offline_iff {decode : List Frame → List Sample} {sch : Scheduler} {hop : Nat}
    {render : List Frame → List Sample} (codec : CausalCodec decode sch.streamOverlapTokens hop render)
    (known : sch.samplesPerFrame = none ∨ sch.samplesPerFrame = some hop) {numCodebooks : Nat} (hpos : 0 < numCodebooks)
    (codebookSize : Int) (messages : List Message)
    (hlen : numCodebooks ≤ (messages.flatMap Message.rows).length) :
    (∃ audio, decodeDelayedRows decode (messages.flatMap Message.rows) numCodebooks codebookSize = .ok audio ∧
      streamAudio decode sch { numCodebooks, codebookSize } messages = .ok audio) ↔
    ¬StallsAtFlush decode sch { numCodebooks, codebookSize } messages := by
  have hstart : Progress sch render numCodebooks codebookSize [] [] { numCodebooks, codebookSize } :=
    ⟨rfl, rfl, rfl, Nat.zero_le _, (windowed_self _ _ _ _).symm⟩
  obtain ⟨deltas, st, hok, hprogress⟩ := hstart.onMessages codec known hpos messages
  rw [List.nil_append, List.nil_append] at hprogress
  have hstalls : StallsAtFlush decode sch { numCodebooks, codebookSize } messages ↔ Stalls sch st := by
    constructor
    · rintro ⟨deltas', st', hok', hstall⟩
      rw [hok] at hok'
      cases hok'
      exact hstall
    · exact fun hstall => ⟨deltas, st, hok, hstall⟩
  rw [hstalls]
  constructor
  · rintro ⟨audio, _, hstream⟩ hstall
    have hraises : Higgs.decodeAndEmit decode sch st true = .error _ :=
      hstall.raises (hprogress.width ▸ hpos) (by rw [hprogress.width, hprogress.held]; exact hlen)
    simp only [streamAudio, hok, bind, Except.bind, hraises] at hstream
    cases hstream
  · intro hgo
    obtain ⟨tail, st', htail, hdone, hall⟩ := hprogress.decodeAndEmit codec known hpos true fun _ => hgo
    refine ⟨deltas ++ tail, ?_, ?_⟩
    · rw [decodeDelayedRows_ok hpos _ hlen, hdone.out, hall rfl hlen, codec.decode_eq, length_framesOf]
    · simp only [streamAudio, hok, bind, Except.bind, htail]
      rfl

/-! ### A stall -/

/-- A codec that sounds a frame as the sum of its codes. -/
def sumCodec (frames : List Frame) : List Int := frames.map List.sum

theorem sumCodec_causal (overlap : Nat) :
    CausalCodec sumCodec overlap 1 fun ctx => [(ctx.getLast?.getD []).sum] :=
  { hop_pos := Nat.one_pos
    render_length := fun _ => rfl
    decode_eq := fun frames => by
      have hone : ∀ ctx : List Frame, [(ctx.getLast?.getD []).sum].length = 1 := fun _ => rfl
      refine List.ext_getElem ?_ fun i h₁ h₂ => ?_
      · rw [windowed_length overlap hone, sumCodec, List.length_map]
        omega
      · have hi : i < frames.length := by simpa [sumCodec] using h₁
        have hlast : (lookBack overlap frames i).getLast? = some frames[i] := by
          rw [lookBack, List.getLast?_drop, if_neg (by rw [List.length_take]; omega), List.getLast?_take,
            if_neg (by omega)]
          simp [hi]
        simp [windowed, sumCodec, ← List.map_eq_flatMap, hlast] }

/-- Strides of one row, no initial chunk, no overlap and no holdback, for a codec with one sample a frame. -/
def eagerScheduler : Scheduler := ⟨1, 1, 0, 0, 0, some 1, Nat.one_pos, Nat.one_pos⟩

/-- The constructor accepts these settings, and the flush of a stream of one row raises. -/
theorem eager_stream_raises :
    Scheduler.init 1 1 0 0 0 (some 1) = .ok eagerScheduler ∧
      CausalCodec sumCodec eagerScheduler.streamOverlapTokens 1 (fun ctx => [(ctx.getLast?.getD []).sum]) ∧
      streamAudio sumCodec eagerScheduler { numCodebooks := 1, codebookSize := 4 } [.chunk none [[1]]] =
        .error (.tooFewRows 1 0) := ⟨rfl, sumCodec_causal 0, by decide⟩

/-- With an overlap of one frame the same stream gives its audio. -/
theorem streaming_equals_offline_iff_overlap :
    (∃ audio, decodeDelayedRows sumCodec [[1]] 1 4 = .ok audio ∧
      streamAudio sumCodec ⟨1, 1, 0, 1, 0, some 1, Nat.one_pos, Nat.one_pos⟩ { numCodebooks := 1, codebookSize := 4 }
        [.chunk none [[1]]] = .ok audio) ↔
    ¬StallsAtFlush sumCodec ⟨1, 1, 0, 1, 0, some 1, Nat.one_pos, Nat.one_pos⟩ { numCodebooks := 1, codebookSize := 4 }
      [.chunk none [[1]]] :=
  streaming_equals_offline_iff (sumCodec_causal 1) (.inr rfl) Nat.one_pos 4 [.chunk none [[1]]] (by decide)

end SglangOmni.Models.Higgs
