import SglangOmni.Models.MossTts.StreamingVocoderProofs
import SglangOmni.Lib.Raising

/-! A whole stream gives the audio of the whole request.

Every call keeps what a stream holds, and a decode settles it, so after any calls the final flush is left with the
frames of all the rows in segments, every one emitted: the segments `splitMossAudioSegments` finds in the rows
(`streaming_equals_offline`). The stream is never told how long the assistant's prefix is, and cuts nothing off. -/
namespace SglangOmni.Models.MossTts
open Lib

section Stream
variable {Sample : Type} {decodeCodes : List (List Frame) → List (List Sample)} {sch : Scheduler}
  {render : List Frame → List Sample} {size : Nat} {nVq : Nat} {rows done : List Frame} {out : List Sample}
    {st : StreamState}
  {st' : StreamState} {source : ContractSource}

/-! ### Decoding -/

theorem Holds.closed (h : Holds sch render size nVq rows done out st) :
    Holds sch render size nVq rows done out (closeActiveSegment st) ∧
      (closeActiveSegment st).pendingRawFrames = st.pendingRawFrames := by
  obtain ⟨segments, hprogress, hclose⟩ := closeActiveSegment_eq st
  rw [hclose]
  have hsame : ({ st with segments := segments, activeSegment := none } : StreamState).progress =
    st.progress := hprogress
  exact ⟨{ h with frames := hsame ▸ h.frames, emitted := hsame ▸ h.emitted }, rfl⟩

/-- Moving frames into segments keeps what the stream holds; the last time, no frame is held back. -/
theorem Holds.collectFrames (h : Holds sch render size nVq rows done out st) (ha : Active sch done st)
    (isFinal : Bool) :
    ∃ done', Holds sch render size nVq rows done' out (MossTts.collectFrames sch sch.defaultAudioPadCode st isFinal) ∧
      (isFinal = false → Active sch done' (MossTts.collectFrames sch sch.defaultAudioPadCode st isFinal)) ∧
      (isFinal = true → (MossTts.collectFrames sch sch.defaultAudioPadCode st isFinal).pendingRawFrames = []) := by
  cases isFinal with
  | false =>
    obtain ⟨done', h', ha', _⟩ := h.processRawFrames (st.pendingRawFrames.length - sch.streamHoldbackTokens) ha
    exact ⟨done', h', fun _ => ha', fun hf => (nomatch hf)⟩
  | true =>
    obtain ⟨done', h', _, hempty⟩ := h.processRawFrames st.pendingRawFrames.length ha
    obtain ⟨hclosed, hpending⟩ := h'.closed
    exact ⟨done', hclosed, fun hf => (nomatch hf), fun _ => hpending.trans (hempty (Nat.le_refl _))⟩

theorem Holds.segment_ne_nil (h : Holds sch render size nVq rows done out st) : ∀ s ∈ st.segments, s.frames ≠ [] := by
  intro s hs
  have hmem : s.frames ∈ st.progress.map Prod.fst :=
    List.mem_map.mpr ⟨s.progress, List.mem_map.mpr ⟨s, hs, rfl⟩, rfl⟩
  rw [h.frames] at hmem
  exact Runs.run_ne_nil _ _ _ hmem

section
variable (hdec : Framewise decodeCodes sch.streamOverlapTokens render) (hsize : ∀ ctx, (render ctx).length = size)
    (h : Holds sch render size nVq rows done out st)
include hdec hsize h

/-- One pass over the segments settles the stream, and gives what was missing. -/
theorem Holds.decoded (isFinal : Bool) :
    ∃ chunks known segments,
      decodeSegments decodeCodes sch isFinal st.samplesPerFrame st.segments = .ok (chunks, known, segments) ∧
      ∀ next, Holds sch render size nVq rows done (out ++ chunks.flatten)
          { st with segments := segments, samplesPerFrame := known, nextDecodeRows := next } ∧
        Settled { st with segments := segments, samplesPerFrame := known, nextDecodeRows := next } := by
  have hreach : ∀ s ∈ st.segments, s.emittedFrames ≤ s.frames.length := fun s hs =>
    h.emitted.reached s.progress (List.mem_map.mpr ⟨s, hs, rfl⟩)
  obtain ⟨chunks, known, segments, heq, hknown, hprogress, haudio⟩ :=
    decodeSegments_emits hdec hsize isFinal h.rate st.segments hreach h.segment_ne_nil
  have hfill := h.emitted.fill
  have hall : segments.map Segment.progress = st.progress.map fun p => (p.1, p.1.length) := hprogress
  refine ⟨chunks, known, segments, heq, fun next => ⟨{ h with rate := hknown, frames := ?_, emitted := ?_ }, ?_⟩⟩
  · show (segments.map Segment.progress).map Prod.fst = _
    rw [hall, List.map_map, ← h.frames]
    rfl
  · show Emitted _ _ _ (segments.map Segment.progress)
    rw [hall]
    apply Emitted.filled
    rw [haudio]
    exact hfill
  · intro p hp
    have hp' : p ∈ segments.map Segment.progress := hp
    rw [hall] at hp'
    obtain ⟨q, _, rfl⟩ := List.mem_map.mp hp'
    rfl

/-- **A decode never raises**, and keeps what the stream holds with the audio it gave. -/
theorem Holds.decodeDelta (ha : Active sch done st)
    (hs : Settled st) (isFinal : Bool) :
    ∃ audio st' done', MossTts.decodeDelta decodeCodes sch st isFinal = .ok (audio, st') ∧
      Holds sch render size nVq rows done' (out ++ audio.getD []) st' ∧ Settled st' ∧
      (isFinal = false → Active sch done' st') ∧ (isFinal = true → st'.pendingRawFrames = []) := by
  have hcontract : requireContract st = .ok (nVq, sch.defaultAudioPadCode) := by
    rw [requireContract, h.codebooks, h.padCode]
  rw [MossTts.decodeDelta, hcontract]
  simp only
  generalize (if st.nextDecodeRows = 0 then firstDecodeRows sch st nVq else st.nextDecodeRows) = nextRows
  by_cases hearly : (!isFinal && decide (st.delayedCount < nextRows)) = true
  · rw [if_pos hearly]
    refine ⟨none, _, done, rfl, ?_, hs, fun _ => ha, fun hf => ?_⟩
    · rw [Option.getD_none, List.append_nil]
      exact { h with }
    · rw [hf] at hearly
      cases hearly
  · rw [if_neg hearly]
    obtain ⟨done', h', ha', hempty⟩ := h.collectFrames ha isFinal
    obtain ⟨chunks, known, segments, heq, hnext⟩ := h'.decoded hdec hsize isFinal
    rw [heq]
    cases chunks with
    | nil =>
      cases isFinal with
      | true => exact ⟨none, _, done', rfl, (hnext _).1, (hnext _).2, fun hf => (nomatch hf), fun _ => hempty rfl⟩
      | false => exact ⟨none, _, done', rfl, (hnext _).1, (hnext _).2, fun _ => ha' rfl, fun hf => (nomatch hf)⟩
    | cons chunk more =>
      refine ⟨_, _, done', rfl, ?_, (hnext _).2, fun hf => ha' hf, fun hf => hempty hf⟩
      have hjoin : (if more.isEmpty then chunk else (chunk :: more).flatten) = (chunk :: more).flatten := by
        cases more with
        | nil => simp
        | cons _ _ => rfl
      rw [Option.getD_some, hjoin]
      exact (hnext _).1

end

/-! ### Taking a chunk -/

/-- Latching a contract sets the codebooks, the pad code and the rate, and nothing a stream holds. -/
structure Latched (st st' : StreamState) : Prop where
  codebooks : ∃ n, 0 < n ∧ st'.nVq = some n ∧ ∀ m, st.nVq = some m → m = n
  padCode : ∀ pad, st.audioPadCode = some pad → st'.audioPadCode = some pad
  rest : ∃ nVq pad rate initial, st' =
    { st with nVq := nVq, audioPadCode := pad, sampleRate := rate, initialCodecChunkFrames := initial }

theorem unchanged_eq {field : ContractField} {previous value : Int} {u : Unit}
    (h : unchanged field (some previous) value = .ok u) : previous = value := by
  rw [unchanged] at h
  split at h
  · assumption
  · cases h

theorem latchContractValues_latched {n pad rate : IntLike}
    (h : latchContractValues st n pad rate = .ok st') : Latched st st' := by
  cases n <;> cases pad <;> cases rate <;> simp only [latchContractValues, reduceCtorEq] at h
  rename_i n pad rate
  by_cases hbad : n ≤ 0 ∨ pad ≤ 0 ∨ rate ≤ 0
  · rw [if_pos hbad] at h
    cases h
  · rw [if_neg hbad] at h
    obtain ⟨_, hn, h⟩ := bind_eq_ok.mp h
    obtain ⟨_, hp, h⟩ := bind_eq_ok.mp h
    obtain ⟨_, _, h⟩ := bind_eq_ok.mp h
    cases h
    refine ⟨⟨n.toNat, by omega, rfl, fun m hm => ?_⟩, fun pad' hpad => ?_, ⟨_, _, _, _, rfl⟩⟩
    · rw [hm] at hn
      rw [← unchanged_eq hn]
      rfl
    · rw [hpad] at hp
      rw [unchanged_eq hp]

theorem Latched.initial (h : Latched st st') {st'' : StreamState} {value : Option IntLike}
    (hl : latchInitialChunkFrames sch st' value = .ok st'') : Latched st st'' := by
  rw [latchInitialChunkFrames] at hl
  obtain ⟨_, _, hl⟩ := bind_eq_ok.mp hl
  obtain ⟨frames, _, hl⟩ := bind_eq_ok.mp hl
  cases hl
  obtain ⟨nVq, pad, rate, initial, rfl⟩ := h.rest
  exact ⟨h.codebooks, h.padCode, ⟨_, _, _, _, rfl⟩⟩

theorem latchStreamContract_latched (h : latchStreamContract sch st source = .ok st') : Latched st st' := by
  cases source with
  | payload width rate initial | metadata n pad rate initial =>
    simp only [latchStreamContract] at h
    obtain ⟨latched, hl, hi⟩ := bind_eq_ok.mp h
    exact (latchContractValues_latched hl).initial hi

theorem requireContract_of {pad : Int} (hn : st.nVq = some nVq)
    (hp : st.audioPadCode = some pad) : requireContract st = .ok (nVq, pad) := by
  rw [requireContract, hn, hp]

theorem validateChunk_ok (hn : st.nVq = some nVq) {pad : Int} (hp : st.audioPadCode = some pad)
    {codes : Codes} {chunk : CodeRows} (h : validateChunk st codes = .ok chunk) :
    chunk.rows = codes.toRows ∧ chunk.width = nVq := by
  have hchecked : ∀ given : CodeRows, (requireContract st >>= fun contract =>
      if given.width = contract.1 then (.ok given : Except VocoderError CodeRows)
      else .error (.chunkCodebooks given.width contract.1)) = .ok chunk → chunk = given ∧ given.width = nVq := by
    intro given hg
    rw [requireContract_of hn hp] at hg
    by_cases hw : given.width = nVq
    · exact ⟨(Except.ok.inj ((if_pos hw).symm.trans hg)).symm, hw⟩
    · cases (if_neg hw).symm.trans hg
  cases codes with
  | vector row | matrix rows =>
    obtain ⟨rfl, hw⟩ := hchecked _ h
    exact ⟨rfl, hw⟩
  | other => cases h

/-- An accepted chunk adds its rows to those the stream was sent. -/
theorem Holds.takeChunk (h : Holds sch render size nVq rows done out st) (ha : Active sch done st) (hs : Settled st)
    {codes : Codes} (hok : MossTts.takeChunk sch st source codes = .ok st') :
    Holds sch render size nVq (rows ++ codes.toRows) done out st' ∧ Active sch done st' ∧ Settled st' ∧
      ∀ row ∈ codes.toRows, row.length = nVq := by
  obtain ⟨latched, hl, hok⟩ := bind_eq_ok.mp hok
  obtain ⟨chunk, hv, hok⟩ := bind_eq_ok.mp hok
  have hlatched := latchStreamContract_latched hl
  obtain ⟨n, hn, hcode, hsame⟩ := hlatched.codebooks
  obtain rfl : nVq = n := hsame nVq h.codebooks
  have hpad := hlatched.padCode _ h.padCode
  obtain ⟨hrows, hwidth⟩ := validateChunk_ok hcode hpad hv
  rw [ingest, requireContract_of hcode hpad] at hok
  obtain rfl : chunk.rows.foldl (MossTts.ingestRow nVq) latched = st' := Except.ok.inj hok
  obtain ⟨nVq', pad', rate, initial, rfl⟩ := hlatched.rest
  have hholds : Holds sch render size nVq rows done out
      { st with nVq := nVq', audioPadCode := pad', sampleRate := rate, initialCodecChunkFrames := initial } :=
    { h with codebooks := hcode, padCode := hpad }
  obtain ⟨h', ha', hs'⟩ := hholds.ingestRows ha hs chunk.rows
  rw [← hrows]
  exact ⟨h', ha', hs', fun row hr => (chunk.regular row hr).trans hwidth⟩

/-! ### Calls -/

/-- What holds of a stream between two calls. -/
def Between (sch : Scheduler) (render : List Frame → List Sample) (size nVq : Nat) (rows : List Frame)
    (out : List Sample)
    (st : StreamState) : Prop :=
  (∃ done, Holds sch render size nVq rows done out st ∧ Active sch done st) ∧ Settled st ∧
    ∀ row ∈ rows, row.length = nVq

theorem Between.apply (hdec : Framewise decodeCodes sch.streamOverlapTokens render)
    (hsize : ∀ ctx, (render ctx).length = size) (h : Between sch render size nVq rows out st) {call : Call}
    {audio : List Sample} (hok : call.apply decodeCodes sch st = .ok (audio, st')) :
    Between sch render size nVq (rows ++ call.rows) (out ++ audio) st' := by
  obtain ⟨⟨done, hh, ha⟩, hs, hwidth⟩ := h
  cases call with
  | chunk source codes =>
    cases ht : MossTts.takeChunk sch st source codes with
    | error e =>
      rw [Call.apply, ht] at hok
      cases hok
    | ok taken =>
      rw [Call.apply, ht] at hok
      cases hok
      obtain ⟨h', ha', hs', hnew⟩ := hh.takeChunk ha hs ht
      rw [List.append_nil]
      refine ⟨⟨done, h', ha'⟩, hs', fun row hr => ?_⟩
      obtain hr | hr := List.mem_append.mp hr
      · exact hwidth row hr
      · exact hnew row hr
  | decode =>
    obtain ⟨given, decoded, done', hd, h', hs', ha', _⟩ := hh.decodeDelta hdec hsize ha hs false
    rw [Call.apply, hd] at hok
    cases hok
    rw [Call.rows, List.append_nil]
    exact ⟨⟨done', h', ha' rfl⟩, hs', hwidth⟩

theorem Between.runCalls (hdec : Framewise decodeCodes sch.streamOverlapTokens render)
    (hsize : ∀ ctx, (render ctx).length = size) (calls : List Call) (h : Between sch render size nVq rows out st)
    {audio : List Sample} (hok : MossTts.runCalls decodeCodes sch st calls = .ok (audio, st')) :
    Between sch render size nVq (rows ++ sentRows calls) (out ++ audio) st' := by
  induction calls generalizing rows out st audio with
  | nil =>
    cases hok
    rw [List.append_nil, sentRows, List.flatMap_nil, List.append_nil]
    exact h
  | cons call rest ih =>
    rw [MossTts.runCalls] at hok
    cases hc : call.apply decodeCodes sch st with
    | error e =>
      rw [hc] at hok
      cases hok
    | ok result =>
      obtain ⟨first, st₁⟩ := result
      cases hr : MossTts.runCalls decodeCodes sch st₁ rest with
      | error e =>
        simp only [hc, hr, reduceCtorEq] at hok
      | ok result =>
        obtain ⟨more, st₂⟩ := result
        simp only [hc, hr, Except.ok.injEq, Prod.mk.injEq] at hok
        obtain ⟨rfl, rfl⟩ := hok
        have := ih (h.apply hdec hsize hc) hr
        rwa [List.append_assoc, List.append_assoc] at this

/-- A stream with its first contract. -/
theorem latched_between (hrate : RateKnown size sch.defaultSamplesPerFrame)
    (hl : latchStreamContract sch (createStreamState sch) source = .ok st) :
    ∃ nVq, Between sch render size nVq [] [] st := by
  have hlatched := latchStreamContract_latched hl
  obtain ⟨n, hn, hcode, _⟩ := hlatched.codebooks
  have hpad := hlatched.padCode sch.defaultAudioPadCode rfl
  obtain ⟨nVq', pad', rate, initial, rfl⟩ := hlatched.rest
  have hraw : rawFrames n [] = [] := by
    rw [rawFrames, List.length_nil, Nat.zero_sub]
    rfl
  refine ⟨n, ⟨[], ?_, rfl⟩, fun _ hp => (by cases hp), fun _ hr => (by cases hr)⟩
  exact {
    nVq_pos := hn
    codebooks := hcode
    padCode := hpad
    rate := hrate
    undelayed := hraw.symm
    window := List.drop_nil.symm
    frames := rfl
    emitted := ⟨fun _ hp => (by cases hp), List.Pairwise.nil, rfl⟩ }

/-! ### The whole stream -/

theorem getD_decodeAudio (delayed : CodeRows) (padCode start : Int) :
    (decodeAudio decodeCodes delayed padCode start).getD [] =
      ((splitMossAudioSegments delayed padCode start).flatMap fun segment => decodeCodes [segment]).flatten := by
  unfold decodeAudio
  dsimp only
  split
  · next hnone =>
    rw [List.isEmpty_iff.mp hnone]
    rfl
  · rfl

/-- **Streaming is offline decoding without the cut.** Whatever chunks the rows come in and whenever a decode is asked
for, no decode raises, the segments after the final flush are those of `splitMossAudioSegments` over all the rows before
a prefix is cut off, and the audio is what the non-streaming path makes of them, each segment's samples once and in
order. With a prefix to cut they differ as soon as there is a segment. -/
theorem streaming_equals_offline (hdec : Framewise decodeCodes sch.streamOverlapTokens render)
    (hsize : ∀ ctx, (render ctx).length = size)
    (hrate : sch.defaultSamplesPerFrame = none ∨ sch.defaultSamplesPerFrame = some size) (source : ContractSource)
    (calls : List Call) (hrun : runStream decodeCodes sch source calls = .ok (out, st)) (delayed : CodeRows)
    (hrows : delayed.rows = sentRows calls) (hwidth : st.nVq = some delayed.width) :
    (∃ audio st', MossTts.decodeDelta decodeCodes sch st false = .ok (audio, st')) ∧
    ∃ audio st', MossTts.decodeDelta decodeCodes sch st true = .ok (audio, st') ∧
      st'.segments.map Segment.frames = splitMossAudioSegments delayed sch.defaultAudioPadCode 0 ∧
      out ++ audio.getD [] = (decodeAudio decodeCodes delayed sch.defaultAudioPadCode 0).getD [] ∧
      ∀ assistantStartLength,
        st'.segments.map Segment.frames = splitMossAudioSegments delayed sch.defaultAudioPadCode assistantStartLength ↔
          assistantStartLength ≤ 0 ∨ splitMossAudioSegments delayed sch.defaultAudioPadCode 0 = [] := by
  have hknown : RateKnown size sch.defaultSamplesPerFrame := by
    obtain h | h := hrate
    · exact .inl (by rw [h]; rfl)
    · rw [h]
      cases size with
      | zero => exact .inl rfl
      | succ n => exact .inr (by rw [Nat.max_eq_left (Nat.succ_pos n)])
  rw [runStream] at hrun
  cases hl : latchStreamContract sch (createStreamState sch) source with
  | error e =>
    rw [hl] at hrun
    cases hrun
  | ok latched =>
    rw [hl] at hrun
    obtain ⟨nVq, hstart⟩ := latched_between hknown hl
    obtain ⟨⟨done, h, ha⟩, hs, _⟩ := hstart.runCalls hdec hsize calls hrun
    rw [List.nil_append, List.nil_append] at h
    obtain rfl : nVq = delayed.width := Option.some.inj (h.codebooks.symm.trans hwidth)
    obtain ⟨audio₀, st₀, _, hd₀, _⟩ := h.decodeDelta hdec hsize ha hs false
    obtain ⟨audio, st', done', hd, h', hs', _, hempty⟩ := h.decodeDelta hdec hsize ha hs true
    have hpos := h.nVq_pos
    have hall : done' = rawFrames delayed.width delayed.rows := by
      have := h'.undelayed
      rwa [hempty rfl, List.append_nil, ← hrows] at this
    have hsegments : st'.segments.map Segment.frames = segmentsOf sch.defaultAudioPadCode done' := by
      have := h'.frames
      rwa [StreamState.progress, List.map_map] at this
    have hsplit : ∀ length, splitMossAudioSegments delayed sch.defaultAudioPadCode length =
        trimAssistantPrefix length (segmentsOf sch.defaultAudioPadCode done') := by
      intro length
      rw [split_runs, if_neg (by omega), hall]
    have hzero := (hsplit 0).trans (trimAssistantPrefix_zero _)
    refine ⟨⟨audio₀, st₀, hd₀⟩, audio, st', hd, hsegments.trans hzero.symm, ?_, fun length => ?_⟩
    · have hwhole : ∀ p ∈ st'.progress, emittedAudio sch.streamOverlapTokens render p =
          (decodeCodes [p.1]).flatten := by
        intro p hp
        rw [hdec, emittedAudio, hs' p hp]
        exact (List.append_nil _).symm
      rw [h'.emitted.audio, List.flatMap_congr hwhole, getD_decodeAudio, hzero, ← hsegments, StreamState.progress,
        List.flatMap_map, List.flatMap_map, ← List.flatMap_id, List.flatMap_assoc]
      apply List.flatMap_congr
      intro segment _
      exact List.flatMap_id.symm
    · rw [hsegments, hsplit length, hzero, eq_comm]
      exact trimAssistantPrefix_eq_self (fun segment hm => Runs.run_ne_nil _ _ segment hm) length

end Stream

/-! ### A small stream -/

/-- A codec whose one sample of a frame sums up its codes and those of the frame before it. -/
def frameSums : List (List Frame) → List (List Int) :=
  List.map fun frames => windowed 1 (fun ctx => [ctx.flatten.sum]) frames 0 frames.length

def twoBookScheduler : Scheduler where
  streamStride := 1
  streamFollowupStride := 1
  streamOverlapTokens := 1
  streamHoldbackTokens := 1
  defaultInitialChunkFrames := 0
  defaultNVq := 2
  defaultAudioPadCode := 9
  defaultSamplesPerFrame := none
  sampleRate := 24000
  stride_pos := by decide
  followup_pos := by decide
  overlap_pos := by decide

/-- Three frames, a pad frame and two frames, delayed over two codebooks. -/
def sixFrames : CodeRows where
  width := 2
  rows := [[1, 9], [2, 1], [3, 2], [9, 3], [4, 9], [5, 4], [9, 5]]
  regular := by decide

/-- Each row by itself, with a decode after it. -/
def rowByRow : List Call :=
  sixFrames.rows.flatMap fun row => [.chunk (.metadata (some (.int 2)) none none none) (.vector row), .decode]

theorem streaming_equals_offline_rowByRow :
    ∃ out st, runStream frameSums twoBookScheduler (.payload none 0 none) rowByRow = .ok (out, st) ∧
      ∃ audio st', decodeDelta frameSums twoBookScheduler st true = .ok (audio, st') ∧
        out ++ audio.getD [] = [2, 6, 10, 8, 18] := by
  have hok : ((runStream frameSums twoBookScheduler (.payload none 0 none) rowByRow).toOption.bind fun r => r.2.nVq) =
      some 2 := by decide +kernel
  cases hrun : runStream frameSums twoBookScheduler (.payload none 0 none) rowByRow with
  | error e =>
    rw [hrun] at hok
    cases hok
  | ok result =>
    rw [hrun] at hok
    obtain ⟨out, st⟩ := result
    have hdec : Framewise frameSums twoBookScheduler.streamOverlapTokens (fun ctx => [ctx.flatten.sum]) := fun _ => rfl
    obtain ⟨_, audio, st', hd, _, ha, _⟩ := streaming_equals_offline hdec (fun _ => rfl) (.inl rfl)
      (.payload none 0 none) rowByRow hrun sixFrames (by decide) hok
    exact ⟨out, st, rfl, audio, st', hd, ha.trans (by decide)⟩

/-- With a prefix of one frame the non-streaming path drops the first frame, and the stream has it. -/
theorem stream_keeps_the_prefix :
    ((runStream frameSums twoBookScheduler (.payload none 0 none) rowByRow).toOption.bind fun r =>
      (decodeDelta frameSums twoBookScheduler r.2 true).toOption.map fun flushed =>
        flushed.2.segments.map Segment.frames) = some [[[1, 1], [2, 2], [3, 3]], [[4, 4], [5, 5]]] ∧
    splitMossAudioSegments sixFrames twoBookScheduler.defaultAudioPadCode 1 = [[[2, 2], [3, 3]], [[4, 4], [5, 5]]] := by
  decide +kernel

end SglangOmni.Models.MossTts
