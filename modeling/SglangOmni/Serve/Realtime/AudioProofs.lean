import SglangOmni.Serve.Realtime.Audio

/-! How audio is sent does not matter to the utterances cut from it.

The detector on two pieces of a stream, one after the other, is the detector on both at once (`process_append`), so what
it reports belongs to the stream. The utterances of a stream are then cut from its whole bytes (`Cut`), and a session
refines the cut of what it has received: its buffer is what follows the last commit. -/
namespace SglangOmni.Serve.Realtime
open Lib

namespace Vad
variable {cfg : VadConfig}

/-! ### Pieces of a stream -/

theorem onFrame_leftover (v : Vad) (l : List UInt8) (frame : List UInt8) :
    ({ v with leftoverPcm := l }.onFrame cfg frame) =
      ({ (v.onFrame cfg frame).1 with leftoverPcm := l }, (v.onFrame cfg frame).2) := by
  simp only [onFrame]
  split
  · split <;> rfl
  · split <;> rfl

theorem onFrame_leftoverPcm (v : Vad) (frame : List UInt8) : (v.onFrame cfg frame).1.leftoverPcm = v.leftoverPcm := by
  simp only [onFrame]
  split
  · split <;> rfl
  · split <;> rfl

theorem onFrame_frames (v : Vad) (frame : List UInt8) : (v.onFrame cfg frame).1.frames = v.frames ++ [frame] := by
  simp only [onFrame]
  split
  · split <;> rfl
  · split <;> rfl

theorem onFrame_samplesConsumed (v : Vad) (frame : List UInt8) :
    (v.onFrame cfg frame).1.samplesConsumed = v.samplesConsumed + cfg.frameSamples := by
  simp only [onFrame]
  split
  · split <;> rfl
  · split <;> rfl

/-- Once the fuel covers the bytes it does not matter. -/
theorem loop_fuel (n m : Nat) (v : Vad) (hn : v.leftoverPcm.length ≤ n) (hm : v.leftoverPcm.length ≤ m) :
    v.loop cfg n = v.loop cfg m := by
  have hpos := cfg.frame_pos
  induction n generalizing m v with
  | zero =>
    cases m with
    | zero => rfl
    | succ m =>
      have short : ¬cfg.frameSamples * 2 ≤ v.leftoverPcm.length := by omega
      simp only [loop, if_neg short]
  | succ n ih =>
    cases m with
    | zero =>
      have short : ¬cfg.frameSamples * 2 ≤ v.leftoverPcm.length := by omega
      simp only [loop, if_neg short]
    | succ m =>
      simp only [loop]
      split
      · rename_i full
        have rest := ih m ({ v with leftoverPcm := v.leftoverPcm.drop (cfg.frameSamples * 2) }.onFrame cfg
          (v.leftoverPcm.take (cfg.frameSamples * 2))).1
          (by rw [onFrame_leftoverPcm, List.length_drop]; omega) (by rw [onFrame_leftoverPcm, List.length_drop]; omega)
        rw [rest]
      · rfl

/-- The frames of the first piece are the first frames of both. -/
theorem loop_append (n m k : Nat) (v : Vad) (b : List UInt8) (hn : v.leftoverPcm.length ≤ n)
    (hm : (v.leftoverPcm ++ b).length ≤ m) (hk : (v.leftoverPcm ++ b).length ≤ k) :
    { v with leftoverPcm := v.leftoverPcm ++ b }.loop cfg m =
      let first := v.loop cfg n
      let second := { first.1 with leftoverPcm := first.1.leftoverPcm ++ b }.loop cfg k
      (second.1, first.2 ++ second.2) := by
  have hpos := cfg.frame_pos
  induction n generalizing m v with
  | zero => exact loop_fuel m k _ hm hk
  | succ n ih =>
    by_cases full : cfg.frameSamples * 2 ≤ v.leftoverPcm.length
    · cases m with
      | zero =>
        rw [List.length_append] at hm
        omega
      | succ m =>
        have full' : cfg.frameSamples * 2 ≤ (v.leftoverPcm ++ b).length := by
          rw [List.length_append]
          omega
        rw [List.length_append] at hm hk
        -- One frame of the first piece, and then the induction on the rest of it.
        let stepped := { v with leftoverPcm := v.leftoverPcm.drop (cfg.frameSamples * 2) }.onFrame cfg
          (v.leftoverPcm.take (cfg.frameSamples * 2))
        have hleft : stepped.1.leftoverPcm = v.leftoverPcm.drop (cfg.frameSamples * 2) := onFrame_leftoverPcm _ _
        have rest := ih m stepped.1 (by rw [hleft, List.length_drop]; omega)
          (by rw [hleft, List.length_append, List.length_drop]; omega)
          (by rw [hleft, List.length_append, List.length_drop]; omega)
        have hstep : { v with leftoverPcm := (v.leftoverPcm ++ b).drop (cfg.frameSamples * 2) }.onFrame cfg
            ((v.leftoverPcm ++ b).take (cfg.frameSamples * 2)) =
              ({ stepped.1 with leftoverPcm := stepped.1.leftoverPcm ++ b }, stepped.2) := by
          rw [List.take_append_of_le_length full, List.drop_append_of_le_length full, hleft, onFrame_leftover,
            show stepped = _ from onFrame_leftover v _ _]
        have lhs : { v with leftoverPcm := v.leftoverPcm ++ b }.loop cfg (m + 1) =
            let r := { stepped.1 with leftoverPcm := stepped.1.leftoverPcm ++ b }.loop cfg m
            (r.1, stepped.2 ++ r.2) := by
          simp only [loop, if_pos full', hstep]
        have first : v.loop cfg (n + 1) = ((stepped.1.loop cfg n).1, stepped.2 ++ (stepped.1.loop cfg n).2) := by
          simp only [loop, if_pos full, stepped]
        rw [lhs, first]
        simp only [rest, List.append_assoc]
    · simp only [loop, if_neg full, List.nil_append]
      exact loop_fuel m k _ hm hk

theorem loop_leftover_le (n : Nat) (v : Vad) : (v.loop cfg n).1.leftoverPcm.length ≤ v.leftoverPcm.length := by
  induction n generalizing v with
  | zero => exact Nat.le_refl _
  | succ n ih =>
    simp only [loop]
    split
    · refine Nat.le_trans (ih _) ?_
      rw [onFrame_leftoverPcm, List.length_drop]
      exact Nat.sub_le ..
    · exact Nat.le_refl _

/-- **Two pieces one after the other are processed like both at once.** -/
theorem process_append (v : Vad) (a b : List UInt8) :
    v.process cfg (a ++ b) =
      (((v.process cfg a).1.process cfg b).1, (v.process cfg a).2 ++ ((v.process cfg a).1.process cfg b).2) := by
  by_cases ha : a = []
  · subst ha
    simp [process]
  by_cases hb : b = []
  · subst hb
    simp [process]
  have hab : (a ++ b).isEmpty = false := by simp [ha]
  have ha' : a.isEmpty = false := by simp [ha]
  have hb' : b.isEmpty = false := by simp [hb]
  let grown : Vad := { v with leftoverPcm := v.leftoverPcm ++ a }
  have key := @loop_append cfg grown.leftoverPcm.length (grown.leftoverPcm ++ b).length
    (grown.leftoverPcm ++ b).length grown b (Nat.le_refl _) (Nat.le_refl _) (Nat.le_refl _)
  have fuel := @loop_fuel cfg (grown.leftoverPcm ++ b).length
    ((grown.loop cfg grown.leftoverPcm.length).1.leftoverPcm ++ b).length
    { (grown.loop cfg grown.leftoverPcm.length).1 with
      leftoverPcm := (grown.loop cfg grown.leftoverPcm.length).1.leftoverPcm ++ b }
    (by
      have := @loop_leftover_le cfg grown.leftoverPcm.length grown
      simp only [List.length_append] at this ⊢
      omega) (Nat.le_refl _)
  simp only [process, hab, ha', hb', Bool.false_eq_true, if_false, ← List.append_assoc]
  simp only [grown] at key fuel
  rw [key]
  simp only [fuel]

/-- The frames are those of the stream, and the rest of it is left over. -/
structure Framed (cfg : VadConfig) (x : List UInt8) (v : Vad) : Prop where
  stream : v.frames.flatten ++ v.leftoverPcm = x
  whole : ∀ frame ∈ v.frames, frame.length = cfg.frameSamples * 2

theorem Framed.loop {x : List UInt8} {v : Vad} (h : Framed cfg x v) (n : Nat) : Framed cfg x (v.loop cfg n).1 := by
  induction n generalizing v with
  | zero => exact h
  | succ n ih =>
    simp only [Vad.loop]
    split
    · rename_i full
      refine ih ⟨?_, ?_⟩
      · rw [onFrame_frames, onFrame_leftoverPcm, List.flatten_append, List.flatten_singleton, List.append_assoc,
          List.take_append_drop]
        exact h.stream
      · intro frame hmem
        rw [onFrame_frames] at hmem
        rcases List.mem_append.1 hmem with hm | hm
        · exact h.whole frame hm
        · rw [List.mem_singleton.1 hm, List.length_take]
          omega
    · exact h

theorem Framed.process {x : List UInt8} {v : Vad} (h : Framed cfg x v) (pcm : List UInt8) :
    Framed cfg (x ++ pcm) (v.process cfg pcm).1 := by
  simp only [Vad.process]
  split
  · rename_i he
    rw [List.isEmpty_iff.1 he, List.append_nil]
    exact h
  · have grown : Framed cfg (x ++ pcm) { v with leftoverPcm := v.leftoverPcm ++ pcm } := ⟨?_, h.whole⟩
    · exact grown.loop _
    show v.frames.flatten ++ (v.leftoverPcm ++ pcm) = x ++ pcm
    rw [← List.append_assoc, h.stream]

theorem Framed.length_eq {x : List UInt8} {v : Vad} (h : Framed cfg x v) :
    x.length = cfg.frameSamples * v.frames.length * 2 + v.leftoverPcm.length := by
  rw [← h.stream, List.length_append, Nat.mul_right_comm]
  congr 1
  have whole := h.whole
  generalize v.frames = frames at whole
  induction frames with
  | nil => rfl
  | cons frame rest ih =>
    rw [List.flatten_cons, List.length_append, whole frame (.head _), ih fun f hf => whole f (.tail _ hf),
      List.length_cons, Nat.mul_succ (cfg.frameSamples * 2), Nat.add_comm]

/-- Less than a frame is left over. -/
theorem loop_leftover_lt (n : Nat) (v : Vad) (h : v.leftoverPcm.length ≤ n) :
    (v.loop cfg n).1.leftoverPcm.length < cfg.frameSamples * 2 := by
  have hpos := cfg.frame_pos
  induction n generalizing v with
  | zero =>
    show v.leftoverPcm.length < _
    omega
  | succ n ih =>
    simp only [loop]
    split
    · refine ih _ ?_
      rw [onFrame_leftoverPcm, List.length_drop]
      omega
    · exact Nat.lt_of_not_le ‹_›

theorem process_leftover_lt (v : Vad) (pcm : List UInt8) (h : v.leftoverPcm.length < cfg.frameSamples * 2) :
    (v.process cfg pcm).1.leftoverPcm.length < cfg.frameSamples * 2 := by
  simp only [process]
  split
  · exact h
  · exact loop_leftover_lt _ _ (Nat.le_refl _)

end Vad

/-! ### The utterances of a stream -/

/-- The bytes of a stream between two samples. -/
def slice (x : List UInt8) (start stop : Nat) : List UInt8 := (x.take (2 * stop)).drop (2 * start)

/-- An utterance, in samples: where its speech starts with the padding, where it is cut, and where its last speech
ends. -/
structure Span where
  padded : Nat
  start : Nat
  stop : Nat
  deriving DecidableEq

/-- The stream up to an emit: the end of the last commit, and the start of the utterance that is open. -/
structure Cut where
  committed : Nat := 0
  opened : Option (Nat × Nat) := none
  spans : List Span := []
  sent : List AudioEvent := []

namespace Cut
variable (cfg : VadConfig) (x : List UInt8)

/-- An emit cuts the stream: an utterance starts at its padded start, but not before the last commit, and is committed
at the end of its last speech. -/
def onEmit (c : Cut) : Emit → Cut
  | .speechStarted offset =>
    { c with
      opened := some (offset, max offset c.committed)
      sent := c.sent ++ [.speechStarted (AudioInput.offsetsToMs cfg offset)] }
  | .speechStopped offset =>
    match c.opened with
    | none => { c with sent := c.sent ++ [.speechStopped (AudioInput.offsetsToMs cfg offset)] }
    | some (padded, start) =>
      { committed := offset
        opened := none
        spans := c.spans ++ [⟨padded, start, offset⟩]
        sent := c.sent ++
          [.speechStopped (AudioInput.offsetsToMs cfg offset), .committed (slice x start offset)] }

/-- The emits of a stream, all at once. -/
def emitsOf : List Emit := (({} : Vad).process cfg x).2

def ofStream : Cut := (emitsOf cfg x).foldl (onEmit cfg x) {}

/-- The bytes of the utterances that were committed. -/
def commits (sent : List AudioEvent) : List (List UInt8) :=
  sent.filterMap fun
    | .committed bytes => some bytes
    | _ => none

/-- What an emit finds: speech starts after the last commit, and stops after it has started. -/
def Fits (c : Cut) : Emit → Prop
  | .speechStarted offset => c.opened = none ∧ 2 * c.committed ≤ x.length ∧ 2 * offset ≤ x.length
  | .speechStopped offset => ∃ padded start, c.opened = some (padded, start) ∧ c.committed ≤ start ∧ start < offset ∧
      2 * offset ≤ x.length

variable {cfg x}

theorem slice_append {start stop : Nat} (y : List UInt8) (h : 2 * stop ≤ x.length) :
    slice (x ++ y) start stop = slice x start stop := by
  rw [slice, List.take_append_of_le_length h, slice]

theorem commits_foldl (emits : List Emit) (c : Cut)
    (h : commits c.sent = c.spans.map fun span => slice x span.start span.stop) :
    commits (emits.foldl (onEmit cfg x) c).sent =
      (emits.foldl (onEmit cfg x) c).spans.map fun span => slice x span.start span.stop := by
  induction emits generalizing c with
  | nil => exact h
  | cons e rest ih =>
    refine ih _ ?_
    cases e with
    | speechStarted offset =>
      show commits (c.sent ++ [_]) = _
      rw [commits, List.filterMap_append]
      exact (List.append_nil _).trans h
    | speechStopped offset =>
      cases ho : c.opened with
      | none =>
        simp only [onEmit, ho]
        rw [commits, List.filterMap_append]
        exact (List.append_nil _).trans h
      | some o =>
        simp only [onEmit, ho]
        rw [commits, List.filterMap_append, List.map_append]
        exact congrArg (· ++ [slice x o.2 offset]) h

/-- More of the stream does not change what has been cut. -/
theorem onEmit_append {c : Cut} {e : Emit} (y : List UInt8) (fits : Fits x c e) :
    onEmit cfg (x ++ y) c e = onEmit cfg x c e := by
  cases e with
  | speechStarted offset => rfl
  | speechStopped offset =>
    obtain ⟨padded, start, ho, -, -, hlen⟩ := fits
    simp only [onEmit, ho, slice_append y hlen]

theorem foldl_append (emits : List Emit) (c : Cut) (y : List UInt8) (fits : Along (onEmit cfg x) (Fits x) c emits) :
    emits.foldl (onEmit cfg (x ++ y)) c = emits.foldl (onEmit cfg x) c := by
  induction emits generalizing c with
  | nil => rfl
  | cons e rest ih =>
    simp only [List.foldl_cons]
    rw [onEmit_append y fits.1]
    exact ih _ fits.2

theorem Fits.append {c : Cut} {e : Emit} (y : List UInt8) (fits : Fits x c e) : Fits (x ++ y) c e := by
  cases e with
  | speechStarted offset =>
    obtain ⟨ho, hc, hlen⟩ := fits
    exact ⟨ho, by rw [List.length_append]; omega, by rw [List.length_append]; omega⟩
  | speechStopped offset =>
    obtain ⟨padded, start, ho, hc, hs, hlen⟩ := fits
    exact ⟨padded, start, ho, hc, hs, by rw [List.length_append]; omega⟩

theorem along_append_stream (emits : List Emit) (c : Cut) (y : List UInt8)
    (fits : Along (onEmit cfg x) (Fits x) c emits) :
    Along (onEmit cfg (x ++ y)) (Fits (x ++ y)) c emits := by
  induction emits generalizing c with
  | nil => trivial
  | cons e rest ih =>
    refine ⟨fits.1.append y, ?_⟩
    rw [onEmit_append y fits.1]
    exact ih _ fits.2

end Cut

/-! ### The detector cuts at the frames of speech -/

/-- Whether frame `k` is speech. -/
def speaks (cfg : VadConfig) (frames : List (List UInt8)) (k : Nat) : Prop := cfg.speech (frames.take (k + 1)) = true

/-- `prefix_padding_ms` in samples. -/
def VadConfig.padding (cfg : VadConfig) : Nat := cfg.prefixPaddingMs * cfg.sampleRate / 1000

/-- `silence_threshold`. -/
def VadConfig.silence (cfg : VadConfig) : Nat := cfg.silenceDurationMs * cfg.sampleRate / 1000

/-- Speech that begins with the frame `first` and of which `last` is the last so far, among the frames before `n`. -/
structure Speech (cfg : VadConfig) (frames : List (List UInt8)) (next first last n : Nat) : Prop where
  first_le : first ≤ last
  last_lt : last < n
  n_le : n ≤ frames.length
  speaks_first : speaks cfg frames first
  speaks_last : speaks cfg frames last
  after_next : next ≤ first
  quiet_before : ∀ k, next ≤ k → k < first → ¬speaks cfg frames k
  quiet_after : ∀ k, last < k → k < n → ¬speaks cfg frames k

/-- The utterances of the frames, up to the frame before `next`, and the end of the last of them: each starts at its
first speech frame less the padding, or at the end of the utterance before, and stops at the end of its last speech
frame, once enough silence has followed. -/
inductive Utterances (cfg : VadConfig) (frames : List (List UInt8)) : List Span → Nat → Nat → Prop where
  | none : Utterances cfg frames [] 0 0
  | next {spans : List Span} {committed next : Nat} (earlier : Utterances cfg frames spans committed next)
      (first last n : Nat) (speech : Speech cfg frames next first last n)
      (silent : cfg.silence ≤ cfg.frameSamples * (n - (last + 1))) :
      Utterances cfg frames
        (spans ++ [⟨cfg.frameSamples * first - cfg.padding, max (cfg.frameSamples * first - cfg.padding) committed,
          cfg.frameSamples * (last + 1)⟩])
        (cfg.frameSamples * (last + 1)) n

section
variable {cfg : VadConfig} {frames : List (List UInt8)} {spans : List Span}

theorem speaks_append {k : Nat} (frame : List UInt8) (h : k < frames.length) :
    speaks cfg (frames ++ [frame]) k ↔ speaks cfg frames k := by
  rw [speaks, List.take_append_of_le_length h, speaks]

theorem speaks_concat (frame : List UInt8) :
    speaks cfg (frames ++ [frame]) frames.length ↔ cfg.speech (frames ++ [frame]) = true := by
  rw [speaks, List.take_of_length_le (by simp)]

theorem Speech.append {next first last n : Nat} (h : Speech cfg frames next first last n) (frame : List UInt8) :
    Speech cfg (frames ++ [frame]) next first last n := by
  have hle := h.first_le
  have hlt := h.last_lt
  have hn := h.n_le
  refine ⟨hle, hlt, by rw [List.length_append]; omega, ?_, ?_, h.after_next, ?_, ?_⟩
  · exact (speaks_append frame (by omega)).2 h.speaks_first
  · exact (speaks_append frame (by omega)).2 h.speaks_last
  · intro k hk hkf hs
    exact h.quiet_before k hk hkf ((speaks_append frame (by omega)).1 hs)
  · intro k hk hkn hs
    exact h.quiet_after k hk hkn ((speaks_append frame (by omega)).1 hs)

theorem Utterances.append {committed next : Nat} (h : Utterances cfg frames spans committed next)
    (frame : List UInt8) : Utterances cfg (frames ++ [frame]) spans committed next := by
  induction h with
  | none => exact .none
  | next _ first last n speech silent ih => exact ih.next first last n (speech.append frame) silent

theorem Utterances.bounds {committed next : Nat} (h : Utterances cfg frames spans committed next) :
    committed ≤ cfg.frameSamples * next ∧ next ≤ frames.length := by
  cases h with
  | none => exact ⟨Nat.zero_le _, Nat.zero_le _⟩
  | next _ first last n speech silent => exact ⟨Nat.mul_le_mul_left _ speech.last_lt, speech.n_le⟩

/-- An utterance starts before it stops, and not before the one before it has stopped. -/
theorem Utterances.ordered {committed next : Nat} (h : Utterances cfg frames spans committed next) :
    spans.Pairwise (fun a b => a.stop ≤ b.start) ∧ ∀ span ∈ spans, span.start < span.stop ∧ span.stop ≤ committed := by
  have hpos := cfg.frame_pos
  induction h with
  | none => exact ⟨List.Pairwise.nil, fun _ h => nomatch h⟩
  | @next spans committed next earlier first last n speech silent ih =>
    obtain ⟨chain, inside⟩ := ih
    have hcommitted : committed ≤ cfg.frameSamples * first :=
      Nat.le_trans earlier.bounds.1 (Nat.mul_le_mul_left _ speech.after_next)
    have hlast : cfg.frameSamples * first + cfg.frameSamples ≤ cfg.frameSamples * (last + 1) := by
      rw [← Nat.mul_succ]
      exact Nat.mul_le_mul_left _ (Nat.succ_le_succ speech.first_le)
    refine ⟨?_, ?_⟩
    · refine List.pairwise_append.2 ⟨chain, List.pairwise_singleton _ _, ?_⟩
      intro a ha b hb
      obtain rfl := List.mem_singleton.1 hb
      exact Nat.le_trans (inside a ha).2 (Nat.le_max_right _ _)
    · intro span hspan
      rcases List.mem_append.1 hspan with hs | hs
      · have := inside span hs
        exact ⟨this.1, by omega⟩
      · obtain rfl := List.mem_singleton.1 hs
        refine ⟨?_, Nat.le_refl _⟩
        show max (cfg.frameSamples * first - cfg.padding) committed < cfg.frameSamples * (last + 1)
        omega

end

/-- The detector after some frames, and the stream cut at what it has reported of them. -/
structure Tracks (cfg : VadConfig) (v : Vad) (c : Cut) : Prop where
  consumed : v.samplesConsumed = cfg.frameSamples * v.frames.length
  quiet : v.isSpeech = false → c.opened = none ∧ ∃ next, Utterances cfg v.frames c.spans c.committed next ∧
    ∀ k, next ≤ k → k < v.frames.length → ¬speaks cfg v.frames k
  talking : v.isSpeech = true → ∃ next first last, Utterances cfg v.frames c.spans c.committed next ∧
    Speech cfg v.frames next first last v.frames.length ∧
    c.opened = some (cfg.frameSamples * first - cfg.padding, max (cfg.frameSamples * first - cfg.padding) c.committed) ∧
    v.lastSpeechOffset = cfg.frameSamples * (last + 1) ∧
    v.silenceRunSamples = cfg.frameSamples * (v.frames.length - (last + 1))

section
variable {cfg : VadConfig} {v : Vad} {c : Cut} {x : List UInt8} {frame : List UInt8} {frames : List (List UInt8)}

theorem Tracks.bounds (h : Tracks cfg v c) : c.committed ≤ v.samplesConsumed := by
  rw [h.consumed]
  cases hs : v.isSpeech with
  | false =>
    obtain ⟨-, next, cuts, -⟩ := h.quiet hs
    exact Nat.le_trans cuts.bounds.1 (Nat.mul_le_mul_left _ cuts.bounds.2)
  | true =>
    obtain ⟨next, -, -, cuts, -⟩ := h.talking hs
    exact Nat.le_trans cuts.bounds.1 (Nat.mul_le_mul_left _ cuts.bounds.2)

/-- What a frame does to the detector. -/
theorem Vad.onFrame_cases (v : Vad) (frame : List UInt8) :
    let taken : Vad :=
      { v with frames := v.frames ++ [frame], samplesConsumed := v.samplesConsumed + cfg.frameSamples }
    let spoken : Vad := { taken with silenceRunSamples := 0, lastSpeechOffset := v.samplesConsumed + cfg.frameSamples }
    let silent : Vad := { taken with silenceRunSamples := v.silenceRunSamples + cfg.frameSamples }
    (cfg.speech taken.frames = true ∧ v.isSpeech = true ∧ v.onFrame cfg frame = (spoken, [])) ∨
    (cfg.speech taken.frames = true ∧ v.isSpeech = false ∧
      v.onFrame cfg frame = ({ spoken with isSpeech := true }, [.speechStarted (v.samplesConsumed - cfg.padding)])) ∨
    (cfg.speech taken.frames = false ∧ v.isSpeech = true ∧ cfg.silence ≤ silent.silenceRunSamples ∧
      v.onFrame cfg frame = ({ silent with isSpeech := false }, [.speechStopped v.lastSpeechOffset])) ∨
    (cfg.speech taken.frames = false ∧ (v.isSpeech = true → silent.silenceRunSamples < cfg.silence) ∧
      v.onFrame cfg frame = (silent, [])) := by
  intro taken spoken silent
  have hpad : v.samplesConsumed + cfg.frameSamples - cfg.frameSamples - cfg.prefixPaddingMs * cfg.sampleRate / 1000 =
      v.samplesConsumed - cfg.padding := by
    rw [Nat.add_sub_cancel, VadConfig.padding]
  cases hframe : cfg.speech (v.frames ++ [frame]) with
  | true =>
    cases hs : v.isSpeech with
    | true => exact .inl ⟨rfl, rfl, by simp only [onFrame, hframe, hs, if_true, spoken, taken]⟩
    | false =>
      refine .inr (.inl ⟨rfl, rfl, ?_⟩)
      simp only [onFrame, hframe, hs, if_true, Bool.false_eq_true, if_false, hpad, spoken, taken]
  | false =>
    cases hs : v.isSpeech with
    | false =>
      refine .inr (.inr (.inr ⟨rfl, fun h => (nomatch h), ?_⟩))
      simp only [onFrame, hframe, hs, Bool.false_eq_true, if_false, Bool.false_and, silent, taken]
    | true =>
      by_cases hlong : cfg.silenceDurationMs * cfg.sampleRate / 1000 ≤ v.silenceRunSamples + cfg.frameSamples
      · refine .inr (.inr (.inl ⟨rfl, rfl, hlong, ?_⟩))
        simp only [onFrame, hframe, hs, Bool.false_eq_true, if_false, Bool.true_and, decide_eq_true hlong,
          if_true, silent,
          taken]
      · refine .inr (.inr (.inr ⟨rfl, fun _ => Nat.lt_of_not_le hlong, ?_⟩))
        simp only [onFrame, hframe, hs, Bool.false_eq_true, if_false, Bool.true_and, decide_eq_false hlong,
          silent, taken]

/-- A speech frame is the last of the speech. -/
theorem Speech.go_on {next first last : Nat}
    (h : Speech cfg frames next first last frames.length) (hframe : cfg.speech (frames ++ [frame]) = true) :
    Speech cfg (frames ++ [frame]) next first frames.length (frames ++ [frame]).length := by
  have hlen : (frames ++ [frame]).length = frames.length + 1 := by simp
  have hap := h.append frame
  have := h.first_le
  have := h.last_lt
  refine ⟨by omega, by omega, Nat.le_refl _, hap.speaks_first, (speaks_concat frame).2 hframe, hap.after_next,
    hap.quiet_before, ?_⟩
  intro k hk hk'
  omega

/-- Speech begins with the first speech frame after the last utterance. -/
theorem Speech.begin {next : Nat} (hnext : next ≤ frames.length)
    (hquiet : ∀ k, next ≤ k → k < frames.length → ¬speaks cfg frames k)
    (hframe : cfg.speech (frames ++ [frame]) = true) :
    Speech cfg (frames ++ [frame]) next frames.length frames.length (frames ++ [frame]).length := by
  have hlen : (frames ++ [frame]).length = frames.length + 1 := by simp
  have hsp := (speaks_concat frame).2 hframe
  refine ⟨Nat.le_refl _, by omega, Nat.le_refl _, hsp, hsp, hnext, ?_, ?_⟩
  · intro k hk hk' hsk
    exact hquiet k hk hk' ((speaks_append frame hk').1 hsk)
  · intro k hk hk'
    omega

/-- A frame of silence stays outside the speech. -/
theorem quiet_concat {j : Nat} (hquiet : ∀ k, j ≤ k → k < frames.length → ¬speaks cfg frames k)
    (hframe : cfg.speech (frames ++ [frame]) = false) :
    ∀ k, j ≤ k → k < (frames ++ [frame]).length → ¬speaks cfg (frames ++ [frame]) k := by
  intro k hk hk' hsk
  have hk'' : k < frames.length + 1 := by simpa using hk'
  rcases Nat.lt_succ_iff_lt_or_eq.1 hk'' with hlt | rfl
  · exact hquiet k hk hlt ((speaks_append frame hlt).1 hsk)
  · rw [speaks_concat, hframe] at hsk
    exact nomatch hsk

theorem Speech.pause {next first last : Nat}
    (h : Speech cfg frames next first last frames.length) (hframe : cfg.speech (frames ++ [frame]) = false) :
    Speech cfg (frames ++ [frame]) next first last (frames ++ [frame]).length := by
  have hap := h.append frame
  have := h.last_lt
  refine ⟨h.first_le, by rw [List.length_append]; omega, Nat.le_refl _, hap.speaks_first, hap.speaks_last,
    hap.after_next, hap.quiet_before, ?_⟩
  exact quiet_concat h.quiet_after hframe

/-- A frame reports at most one emit, which fits the stream cut so far. -/
theorem Tracks.onFrame (h : Tracks cfg v c) (frame : List UInt8)
    (hx : 2 * (v.samplesConsumed + cfg.frameSamples) ≤ x.length) :
    Tracks cfg (v.onFrame cfg frame).1 ((v.onFrame cfg frame).2.foldl (Cut.onEmit cfg x) c) ∧
      Along (Cut.onEmit cfg x) (Cut.Fits x) c (v.onFrame cfg frame).2 := by
  have hpos := cfg.frame_pos
  have hbounds := h.bounds
  have hlen : (v.frames ++ [frame]).length = v.frames.length + 1 := by simp
  have hconsumed : v.samplesConsumed + cfg.frameSamples = cfg.frameSamples * (v.frames ++ [frame]).length := by
    rw [hlen, Nat.mul_succ, h.consumed]
  have hnone : 0 = cfg.frameSamples * ((v.frames ++ [frame]).length - (v.frames.length + 1)) := by
    rw [hlen, Nat.sub_self, Nat.mul_zero]
  rcases @Vad.onFrame_cases cfg v frame with ⟨hframe, hs, heq⟩ | ⟨hframe, hs, heq⟩ | ⟨hframe, hs, hlong, heq⟩ |
    ⟨hframe, -, heq⟩
  · obtain ⟨next, first, last, cuts, speech, ho, -, -⟩ := h.talking hs
    rw [heq]
    refine ⟨⟨hconsumed, fun hq => absurd (hs.symm.trans hq) (by decide), fun _ => ?_⟩, trivial⟩
    exact ⟨next, first, v.frames.length, cuts.append frame, speech.go_on hframe,
      ho, by rw [hlen] at hconsumed; exact hconsumed,
      hnone⟩
  · obtain ⟨ho, next, cuts, hquiet⟩ := h.quiet hs
    rw [heq]
    refine ⟨⟨hconsumed, fun hq => (nomatch hq), fun _ => ?_⟩, ⟨ho, by omega, by omega⟩, trivial⟩
    refine ⟨next, v.frames.length, v.frames.length, cuts.append frame, .begin cuts.bounds.2 hquiet hframe, ?_,
      by rw [hlen] at hconsumed; exact hconsumed, hnone⟩
    rw [← h.consumed]
    rfl
  · obtain ⟨next, first, last, cuts, speech, ho, hlast, hsil⟩ := h.talking hs
    have hlt := speech.last_lt
    have hrun : v.silenceRunSamples + cfg.frameSamples =
        cfg.frameSamples * ((v.frames ++ [frame]).length - (last + 1)) := by
      rw [hlen, hsil, ← Nat.mul_succ]
      congr 1
      omega
    have hstop : cfg.frameSamples * (last + 1) ≤ v.samplesConsumed := by
      rw [h.consumed]
      exact Nat.mul_le_mul_left _ hlt
    have hstart : cfg.frameSamples * first + cfg.frameSamples ≤ cfg.frameSamples * (last + 1) := by
      rw [← Nat.mul_succ]
      exact Nat.mul_le_mul_left _ (Nat.succ_le_succ speech.first_le)
    have hcommitted : c.committed ≤ cfg.frameSamples * first :=
      Nat.le_trans cuts.bounds.1 (Nat.mul_le_mul_left _ speech.after_next)
    rw [heq, hlast]
    refine ⟨⟨hconsumed, fun _ => ?_, fun hq => (nomatch hq)⟩, ⟨_, _, ho, Nat.le_max_right _ _, by omega, by omega⟩,
      trivial⟩
    have cuts' := (cuts.append frame).next first last _ (speech.pause hframe) (hrun ▸ hlong)
    simp only [List.foldl_cons, List.foldl_nil, Cut.onEmit, ho]
    exact ⟨trivial, _, cuts', fun k hk hk' => absurd hk' (Nat.not_lt.2 hk)⟩
  · rw [heq]
    refine ⟨⟨hconsumed, fun hq => ?_, fun hq => ?_⟩, trivial⟩
    · obtain ⟨ho, next, cuts, hquiet⟩ := h.quiet hq
      exact ⟨ho, next, cuts.append frame, quiet_concat hquiet hframe⟩
    · obtain ⟨next, first, last, cuts, speech, ho, hlast, hsil⟩ := h.talking hq
      have hlt := speech.last_lt
      refine ⟨next, first, last, cuts.append frame, speech.pause hframe, ho, hlast, ?_⟩
      show v.silenceRunSamples + cfg.frameSamples = cfg.frameSamples * ((v.frames ++ [frame]).length - (last + 1))
      rw [hlen, hsil, ← Nat.mul_succ]
      congr 1
      omega

/-- The frames of a message, one after the other. -/
theorem Tracks.loop (n : Nat) (h : Tracks cfg v c) (hx : 2 * v.samplesConsumed + v.leftoverPcm.length ≤ x.length) :
    Tracks cfg (v.loop cfg n).1 ((v.loop cfg n).2.foldl (Cut.onEmit cfg x) c) ∧
      Along (Cut.onEmit cfg x) (Cut.Fits x) c (v.loop cfg n).2 := by
  induction n generalizing v c with
  | zero => exact ⟨h, trivial⟩
  | succ n ih =>
    simp only [Vad.loop]
    split
    · rename_i full
      let dropped : Vad := { v with leftoverPcm := v.leftoverPcm.drop (cfg.frameSamples * 2) }
      have hd : Tracks cfg dropped c := ⟨h.consumed, h.quiet, h.talking⟩
      have hdx : 2 * (dropped.samplesConsumed + cfg.frameSamples) ≤ x.length := by
        show 2 * (v.samplesConsumed + cfg.frameSamples) ≤ x.length
        omega
      obtain ⟨tracked, fits⟩ := hd.onFrame (v.leftoverPcm.take (cfg.frameSamples * 2)) hdx
      obtain ⟨tracked', fits'⟩ := ih tracked (by
        rw [Vad.onFrame_samplesConsumed, Vad.onFrame_leftoverPcm]
        show 2 * (v.samplesConsumed + cfg.frameSamples) + (v.leftoverPcm.drop (cfg.frameSamples * 2)).length ≤ x.length
        rw [List.length_drop]
        omega)
      rw [List.foldl_append]
      exact ⟨tracked', along_append _ fits fits'⟩
    · exact ⟨h, trivial⟩

/-- **Everything a message makes the detector report fits the stream.** -/
theorem Tracks.process (h : Tracks cfg v c) (pcm : List UInt8)
    (hx : 2 * v.samplesConsumed + v.leftoverPcm.length + pcm.length ≤ x.length) :
    Tracks cfg (v.process cfg pcm).1 ((v.process cfg pcm).2.foldl (Cut.onEmit cfg x) c) ∧
      Along (Cut.onEmit cfg x) (Cut.Fits x) c (v.process cfg pcm).2 := by
  simp only [Vad.process]
  split
  · exact ⟨h, trivial⟩
  · let grown : Vad := { v with leftoverPcm := v.leftoverPcm ++ pcm }
    have hg : Tracks cfg grown c := ⟨h.consumed, h.quiet, h.talking⟩
    refine hg.loop _ ?_
    show 2 * v.samplesConsumed + (v.leftoverPcm ++ pcm).length ≤ x.length
    rw [List.length_append]
    omega

end

/-! ### A session refines the cut of what it has received -/

namespace AudioInput
variable {cfg : VadConfig} {x : List UInt8} {s : AudioInput}

/-- The buffer is what follows the last commit. -/
structure Refines (x : List UInt8) (s : AudioInput) (c : Cut) : Prop where
  vadOrigin : s.vadOriginSamples = 0
  origin : s.bufferOriginSamples = c.committed
  within : 2 * c.committed ≤ x.length
  buf : s.buf = x.drop (2 * c.committed)
  start : s.utteranceStartByte = c.opened.map fun o => 2 * (o.2 - c.committed)
  sent : s.sent = c.sent

theorem Refines.buf_length {c : Cut} (h : Refines x s c) :
    s.buf.length = x.length - 2 * c.committed := by
  rw [h.buf, List.length_drop]

theorem Refines.handleVadEmit {c : Cut} {e : Emit} (h : Refines x s c) (fits : Cut.Fits x c e) :
    Refines x (s.handleVadEmit cfg e) (c.onEmit cfg x e) := by
  have hlen := h.buf_length
  have habs : ∀ offset, s.absoluteSample offset = offset := by
    intro offset
    rw [absoluteSample, h.vadOrigin, Nat.zero_add]
  cases e with
  | speechStarted offset =>
    obtain ⟨-, -, hoff⟩ := fits
    refine ⟨h.vadOrigin, h.origin, h.within, h.buf, ?_, ?_⟩
    · simp only [AudioInput.handleVadEmit, Cut.onEmit, Option.map_some, sampleOffsetToBufferByte, habs, h.origin, hlen,
        Option.some.injEq]
      omega
    · simp only [AudioInput.handleVadEmit, Cut.onEmit, habs, h.sent]
  | speechStopped offset =>
    obtain ⟨padded, start, ho, hcs, hso, hoff⟩ := fits
    have hstart : s.utteranceStartByte = some (2 * (start - c.committed)) := by
      rw [h.start, ho]
      rfl
    have hend : min ((s.vadOriginSamples + offset - s.bufferOriginSamples) * 2) s.buf.length =
        2 * (offset - c.committed) := by
      rw [h.vadOrigin, h.origin, hlen]
      omega
    have hpayload : (s.buf.take (2 * (offset - c.committed))).drop (2 * (start - c.committed)) =
      slice x start offset := by
      rw [h.buf, slice, List.take_drop, List.drop_drop]
      congr 1
      · omega
      · congr 1
        omega
    have nonempty : ¬s.buf.length / 2 = 0 := by omega
    have later : ¬2 * (offset - c.committed) ≤ 2 * (start - c.committed) := by omega
    have hstep : s.handleVadEmit cfg (.speechStopped offset) =
        { s with
          buf := s.buf.drop (2 * (offset - c.committed))
          bufferOriginSamples := s.bufferOriginSamples + 2 * (offset - c.committed) / 2
          utteranceStartByte := none
          sent := s.sent ++ [.speechStopped (offsetsToMs cfg offset)] ++ [.committed (slice x start offset)] } := by
      simp only [AudioInput.handleVadEmit, autoCommitUtterance, consumeCommittedPrefix, sampleOffsetToBufferByte,
        absoluteSample, hend, hstart, Option.getD_some, if_neg nonempty, if_neg later, hpayload]
      rw [h.vadOrigin, Nat.zero_add]
    have hcut : c.onEmit cfg x (.speechStopped offset) =
        { committed := offset, opened := none, spans := c.spans ++ [⟨padded, start, offset⟩],
          sent := c.sent ++ [.speechStopped (offsetsToMs cfg offset), .committed (slice x start offset)] } := by
      simp only [Cut.onEmit, ho]
    rw [hstep, hcut]
    refine ⟨h.vadOrigin, ?_, hoff, ?_, rfl, ?_⟩
    · show s.bufferOriginSamples + 2 * (offset - c.committed) / 2 = offset
      rw [h.origin]
      omega
    · show s.buf.drop (2 * (offset - c.committed)) = x.drop (2 * offset)
      rw [h.buf, List.drop_drop]
      congr 1
      omega
    · show s.sent ++ [_] ++ [_] = c.sent ++ [_, _]
      rw [h.sent, List.append_assoc]
      rfl

/-- The emits of one message, one after the other. -/
theorem Refines.foldl {c : Cut} (emits : List Emit) (h : Refines x s c)
    (fits : Along (Cut.onEmit cfg x) (Cut.Fits x) c emits) :
    Refines x (emits.foldl (AudioInput.handleVadEmit cfg) s) (emits.foldl (Cut.onEmit cfg x) c) := by
  induction emits generalizing s c with
  | nil => exact h
  | cons e rest ih => exact ih (h.handleVadEmit fits.1) fits.2

theorem foldl_handleVadEmit_vad (emits : List Emit) (s : AudioInput) :
    (emits.foldl (handleVadEmit cfg) s).vad = s.vad := by
  induction emits generalizing s with
  | nil => rfl
  | cons e rest ih =>
    rw [List.foldl_cons, ih]
    cases e with
    | speechStarted offset => rfl
    | speechStopped offset =>
      simp only [AudioInput.handleVadEmit, autoCommitUtterance]
      split
      · rfl
      · split <;> rfl

/-- A session that has been sent a stream. -/
structure Heard (cfg : VadConfig) (x : List UInt8) (s : AudioInput) : Prop where
  vad : s.vad = (({} : Vad).process cfg x).1
  cut : Refines x s (Cut.ofStream cfg x)
  fits : Along (Cut.onEmit cfg x) (Cut.Fits x) {} (Cut.emitsOf cfg x)
  tracks : Tracks cfg s.vad (Cut.ofStream cfg x)
  framed : Vad.Framed cfg x s.vad
  short : s.vad.leftoverPcm.length < cfg.frameSamples * 2

theorem Heard.initial : Heard cfg [] {} := by
  have hpos := cfg.frame_pos
  refine ⟨rfl, ⟨rfl, rfl, Nat.zero_le _, rfl, rfl, rfl⟩, trivial,
    ⟨rfl, fun _ => ⟨rfl, 0, .none, ?_⟩, fun h => (nomatch h)⟩,
    ⟨rfl, fun _ h => (nomatch h)⟩, ?_⟩
  · intro k _ hk
    exact absurd hk (Nat.not_lt_zero k)
  · show 0 < _
    omega

/-- One more message extends the stream. -/
theorem Heard.append {s' : AudioInput} {chunk : List UInt8} (h : Heard cfg x s)
    (hstep : s.handleAudioAppend cfg chunk = some s') : Heard cfg (x ++ chunk) s' := by
  simp only [handleAudioAppend] at hstep
  split at hstep
  · exact nomatch hstep
  -- The bytes that the detector is given are the message.
  have htail : (s.buf ++ chunk).drop ((s.buf ++ chunk).length - chunk.length) = chunk := by
    rw [List.length_append, Nat.add_sub_cancel, List.drop_left]
  rw [htail] at hstep
  obtain rfl := Option.some.inj hstep
  have hproc := @Vad.process_append cfg {} x chunk
  rw [← h.vad] at hproc
  have hcut : Cut.ofStream cfg (x ++ chunk) =
      (s.vad.process cfg chunk).2.foldl (Cut.onEmit cfg (x ++ chunk)) (Cut.ofStream cfg x) := by
    rw [Cut.ofStream, Cut.emitsOf, hproc, List.foldl_append]
    congr 1
    exact Cut.foldl_append _ _ chunk h.fits
  have hlen := h.framed.length_eq
  have hcons := h.tracks.consumed
  obtain ⟨tracks, fits⟩ := h.tracks.process (x := x ++ chunk) chunk (by rw [List.length_append]; omega)
  have grown : Refines (x ++ chunk) { s with buf := s.buf ++ chunk, vad := (s.vad.process cfg chunk).1 }
      (Cut.ofStream cfg x) := by
    refine ⟨h.cut.vadOrigin, h.cut.origin, ?_, ?_, h.cut.start, h.cut.sent⟩
    · have := h.cut.within
      rw [List.length_append]
      omega
    · show s.buf ++ chunk = _
      rw [h.cut.buf, List.drop_append_of_le_length h.cut.within]
  refine ⟨?_, ?_, ?_, ?_, ?_, ?_⟩
  · rw [foldl_handleVadEmit_vad, hproc]
  · rw [hcut]
    exact grown.foldl _ fits
  · rw [Cut.emitsOf, hproc]
    refine along_append _ (Cut.along_append_stream _ _ chunk h.fits) ?_
    show Along _ _ ((Cut.emitsOf cfg x).foldl (Cut.onEmit cfg (x ++ chunk)) {}) _
    rw [Cut.foldl_append _ _ chunk h.fits]
    exact fits
  · rw [foldl_handleVadEmit_vad, hcut]
    exact tracks
  · rw [foldl_handleVadEmit_vad]
    exact h.framed.process chunk
  · rw [foldl_handleVadEmit_vad]
    exact Vad.process_leftover_lt _ _ h.short

/-- The messages one after the other are heard as one stream. -/
theorem Heard.appends (chunks : List (List UInt8)) (h : AudioInput.appends cfg chunks = some s) :
    Heard cfg chunks.flatten s := by
  have whole : ∀ (chunks : List (List UInt8)) (x : List UInt8) (s₀ : AudioInput), Heard cfg x s₀ →
      chunks.foldlM (handleAudioAppend cfg) s₀ = some s → Heard cfg (x ++ chunks.flatten) s := by
    intro chunks
    induction chunks with
    | nil =>
      intro x s₀ heard hs
      obtain rfl : s₀ = s := Option.some.inj hs
      rw [List.flatten_nil, List.append_nil]
      exact heard
    | cons chunk rest ih =>
      intro x s₀ heard hs
      rw [List.foldlM_cons] at hs
      obtain ⟨s₁, hstep, hrest⟩ := Option.bind_eq_some_iff.1 hs
      rw [List.flatten_cons, ← List.append_assoc]
      exact ih _ _ (heard.append hstep) hrest
  exact whole chunks [] {} .initial h

/-! ### The buffer counts the samples -/

/-- The states of a session: after a message and between the emits of one. `x` is what was received since the last clear
and `cleared` the samples before it. -/
inductive Reaches (cfg : VadConfig) : AudioInput → List UInt8 → Nat → List Emit → Prop where
  | initial : Reaches cfg {} [] 0 []
  | append {s : AudioInput} {x : List UInt8} {cleared : Nat} (chunk : List UInt8) (h : Reaches cfg s x cleared [])
      (room : s.buf.length + chunk.length ≤ cfg.maxBytes) :
      Reaches cfg { s with buf := s.buf ++ chunk, vad := (s.vad.process cfg chunk).1 } (x ++ chunk) cleared
        (s.vad.process cfg chunk).2
  | emit {s : AudioInput} {x : List UInt8} {cleared : Nat} {e : Emit} {rest : List Emit}
      (h : Reaches cfg s x cleared (e :: rest)) : Reaches cfg (s.handleVadEmit cfg e) x cleared rest
  | clear {s : AudioInput} {x : List UInt8} {cleared : Nat} (h : Reaches cfg s x cleared []) :
      Reaches cfg s.handleAudioClear [] (cleared + x.length / 2) []

/-- What the detector has consumed, and that the last speech is part of it. -/
structure Consumed (cfg : VadConfig) (v : Vad) : Prop where
  consumed : v.samplesConsumed = cfg.frameSamples * v.frames.length
  spoken : v.lastSpeechOffset ≤ v.samplesConsumed

theorem Consumed.onFrame {v : Vad} (h : Consumed cfg v) (frame : List UInt8) :
    Consumed cfg (v.onFrame cfg frame).1 ∧ ∀ e ∈ (v.onFrame cfg frame).2, e.offset ≤ v.samplesConsumed := by
  have hspoken := h.spoken
  have hconsumed : v.samplesConsumed + cfg.frameSamples = cfg.frameSamples * (v.frames ++ [frame]).length := by
    rw [List.length_append, List.length_singleton, Nat.mul_succ, h.consumed]
  rcases @Vad.onFrame_cases cfg v frame with ⟨-, -, heq⟩ | ⟨-, -, heq⟩ | ⟨-, -, -, heq⟩ | ⟨-, -, heq⟩
  · rw [heq]
    exact ⟨⟨hconsumed, Nat.le_refl _⟩, fun _ h => (nomatch h)⟩
  · rw [heq]
    refine ⟨⟨hconsumed, Nat.le_refl _⟩, fun e he => ?_⟩
    rw [List.mem_singleton.1 he]
    exact Nat.sub_le ..
  · rw [heq]
    refine ⟨⟨hconsumed, Nat.le_add_right_of_le hspoken⟩, fun e he => ?_⟩
    rw [List.mem_singleton.1 he]
    exact hspoken
  · rw [heq]
    exact ⟨⟨hconsumed, Nat.le_add_right_of_le hspoken⟩, fun _ h => (nomatch h)⟩

theorem Consumed.loop {v : Vad} (h : Consumed cfg v) (n : Nat) :
    Consumed cfg (v.loop cfg n).1 ∧ v.samplesConsumed ≤ (v.loop cfg n).1.samplesConsumed ∧
      ∀ e ∈ (v.loop cfg n).2, e.offset ≤ (v.loop cfg n).1.samplesConsumed := by
  induction n generalizing v with
  | zero => exact ⟨h, Nat.le_refl _, fun _ h => (nomatch h)⟩
  | succ n ih =>
    simp only [Vad.loop]
    split
    · let dropped : Vad := { v with leftoverPcm := v.leftoverPcm.drop (cfg.frameSamples * 2) }
      have hd : Consumed cfg dropped := ⟨h.consumed, h.spoken⟩
      obtain ⟨next, told⟩ := hd.onFrame (v.leftoverPcm.take (cfg.frameSamples * 2))
      obtain ⟨last, grows, told'⟩ := ih next
      rw [Vad.onFrame_samplesConsumed] at grows
      have hle : v.samplesConsumed ≤ _ := Nat.le_trans (Nat.le_add_right _ _) grows
      refine ⟨last, hle, fun e he => ?_⟩
      rcases List.mem_append.1 he with hm | hm
      · exact Nat.le_trans (told e hm) hle
      · exact told' e hm
    · exact ⟨h, Nat.le_refl _, fun _ h => (nomatch h)⟩

theorem Consumed.process {v : Vad} (h : Consumed cfg v) (pcm : List UInt8) :
    Consumed cfg (v.process cfg pcm).1 ∧
      ∀ e ∈ (v.process cfg pcm).2, e.offset ≤ (v.process cfg pcm).1.samplesConsumed := by
  simp only [Vad.process]
  split
  · exact ⟨h, fun _ h => (nomatch h)⟩
  · have grown : Consumed cfg { v with leftoverPcm := v.leftoverPcm ++ pcm } := ⟨h.consumed, h.spoken⟩
    obtain ⟨last, -, told⟩ := grown.loop (v.leftoverPcm ++ pcm).length
    exact ⟨last, told⟩

/-- The buffer and the samples before it make up what was received, and the emits still to be handled lie in it. -/
structure Counted (cfg : VadConfig) (s : AudioInput) (x : List UInt8) (cleared : Nat) (pending : List Emit) : Prop where
  vadOrigin : s.vadOriginSamples = cleared
  received : 2 * s.bufferOriginSamples + s.buf.length = 2 * cleared + x.length
  framed : Vad.Framed cfg x s.vad
  consumed : Consumed cfg s.vad
  pending : ∀ e ∈ pending, 2 * e.offset ≤ x.length

theorem Counted.emit {cleared : Nat} {e : Emit} {rest : List Emit}
    (h : Counted cfg s x cleared (e :: rest)) : Counted cfg (s.handleVadEmit cfg e) x cleared rest := by
  have hreceived := h.received
  have hrest : ∀ e ∈ rest, 2 * e.offset ≤ x.length := fun e he => h.pending e (.tail _ he)
  cases e with
  | speechStarted offset => exact ⟨h.vadOrigin, hreceived, h.framed, h.consumed, hrest⟩
  | speechStopped offset =>
    have hoff : 2 * offset ≤ x.length := h.pending _ (.head _)
    simp only [AudioInput.handleVadEmit, autoCommitUtterance]
    split
    · exact ⟨h.vadOrigin, hreceived, h.framed, h.consumed, hrest⟩
    · split
      · exact ⟨h.vadOrigin, hreceived, h.framed, h.consumed, hrest⟩
      · -- The cut is at a whole sample of the buffer, also when the buffer ends in half of one.
        refine ⟨h.vadOrigin, ?_, h.framed, h.consumed, hrest⟩
        have hv := h.vadOrigin
        simp only [consumeCommittedPrefix, sampleOffsetToBufferByte, absoluteSample, List.length_drop]
        omega

theorem Reaches.counted {cleared : Nat} {pending : List Emit}
    (h : Reaches cfg s x cleared pending) : Counted cfg s x cleared pending := by
  induction h with
  | initial => exact ⟨rfl, rfl, ⟨rfl, fun _ h => (nomatch h)⟩, ⟨rfl, Nat.le_refl _⟩, fun _ h => (nomatch h)⟩
  | @append s x cleared chunk _ _ ih =>
    obtain ⟨consumed, told⟩ := ih.consumed.process chunk
    have framed := ih.framed.process chunk
    refine ⟨ih.vadOrigin, ?_, framed, consumed, fun e he => ?_⟩
    · have := ih.received
      simp only [List.length_append]
      omega
    · have hle := told e he
      have hlen := framed.length_eq
      rw [consumed.consumed] at hle
      omega
  | emit _ ih => exact ih.emit
  | @clear s x cleared _ ih =>
    have hreceived := ih.received
    refine ⟨?_, ?_, ⟨rfl, fun _ h => (nomatch h)⟩, ⟨rfl, Nat.le_refl _⟩, fun _ h => (nomatch h)⟩
    · simp only [handleAudioClear]
      omega
    · simp only [handleAudioClear, List.length_nil]
      omega

/-- **Utterances do not depend on how the audio is sent.** Two sessions that are sent the same stream report the same,
each utterance is the bytes from its padded start, or the end of the utterance before, to the end of its last speech
frame, and in every state the buffer and what precedes it make up the samples received. -/
theorem utterances_of_stream (cfg : VadConfig) (a b : List (List UInt8)) (s t : AudioInput)
    (same : a.flatten = b.flatten) (ha : AudioInput.appends cfg a = some s) (hb : AudioInput.appends cfg b = some t) :
    s.sent = t.sent ∧
      (∃ spans committed next, Utterances cfg s.vad.frames spans committed next ∧
        Cut.commits s.sent = (spans.map fun span => slice a.flatten span.start span.stop) ∧
        spans.Pairwise (fun a b => a.stop ≤ b.start) ∧
        ∀ span ∈ spans, span.start < span.stop ∧ 2 * span.stop ≤ a.flatten.length) ∧
      (s.vad.frames.flatten ++ s.vad.leftoverPcm = a.flatten ∧
        (∀ frame ∈ s.vad.frames, frame.length = cfg.frameSamples * 2) ∧
        s.vad.leftoverPcm.length < cfg.frameSamples * 2) ∧
      s.bufferOriginSamples + s.buf.length / 2 = a.flatten.length / 2 ∧
      ∀ s x cleared pending, Reaches cfg s x cleared pending →
        s.bufferOriginSamples + s.buf.length / 2 = cleared + x.length / 2 := by
  have heard := Heard.appends a ha
  have heard' := Heard.appends b hb
  rw [← same] at heard'
  have hwithin := heard.cut.within
  refine ⟨by rw [heard.cut.sent, heard'.cut.sent], ?_, ⟨heard.framed.stream, heard.framed.whole, heard.short⟩, ?_, ?_⟩
  · obtain ⟨next, cuts⟩ : ∃ next, Utterances cfg s.vad.frames (Cut.ofStream cfg a.flatten).spans
        (Cut.ofStream cfg a.flatten).committed next := by
      cases hs : s.vad.isSpeech with
      | false =>
        obtain ⟨-, next, cuts, -⟩ := heard.tracks.quiet hs
        exact ⟨next, cuts⟩
      | true =>
        obtain ⟨next, -, -, cuts, -⟩ := heard.tracks.talking hs
        exact ⟨next, cuts⟩
    obtain ⟨chain, inside⟩ := cuts.ordered
    refine ⟨_, _, next, cuts, ?_, chain, fun span hspan => ⟨(inside span hspan).1, ?_⟩⟩
    · rw [heard.cut.sent]
      exact Cut.commits_foldl _ _ rfl
    · have := (inside span hspan).2
      omega
  · rw [heard.cut.origin, heard.cut.buf_length]
    omega
  · intro s x cleared pending reached
    have := reached.counted.received
    omega

/-- Frames of one sample, where all but silence is speech, with a sample of padding and of silence. -/
def sampleConfig : VadConfig where
  frameSamples := 1
  frame_pos := Nat.zero_lt_one
  sampleRate := 1000
  prefixPaddingMs := 1
  silenceDurationMs := 1
  speech frames := frames.getLast? != some [0, 0]

/-- Two utterances, the second of them padded up to the end of the first, sent at once and in pieces of odd lengths. -/
theorem utterances_of_stream_pieces :
    ∃ s t, AudioInput.appends sampleConfig [[0, 0, 0, 0, 1, 1, 0, 0, 2, 2, 0, 0, 7]] = some s ∧
      AudioInput.appends sampleConfig [[0], [0, 0, 0, 1], [1, 0, 0, 2, 2, 0], [0, 7]] = some t ∧ s.sent = t.sent ∧
      Cut.commits s.sent = [[0, 0, 1, 1], [0, 0, 2, 2]] ∧ s.bufferOriginSamples + s.buf.length / 2 = 6 := by
  obtain ⟨s, hs⟩ := Option.isSome_iff_exists.1
    (show (AudioInput.appends sampleConfig [[0, 0, 0, 0, 1, 1, 0, 0, 2, 2, 0, 0, 7]]).isSome by decide)
  obtain ⟨t, ht⟩ := Option.isSome_iff_exists.1
    (show (AudioInput.appends sampleConfig [[0], [0, 0, 0, 1], [1, 0, 0, 2, 2, 0], [0, 7]]).isSome by decide)
  have result := utterances_of_stream sampleConfig _ _ s t rfl hs ht
  have commits : (AudioInput.appends sampleConfig [[0, 0, 0, 0, 1, 1, 0, 0, 2, 2, 0, 0, 7]]).map
      (fun s => Cut.commits s.sent) = some [[0, 0, 1, 1], [0, 0, 2, 2]] := by decide
  rw [hs] at commits
  exact ⟨s, t, hs, ht, result.1, Option.some.inj commits, result.2.2.2.1⟩

/-- Two samples and a clear: every sample is cleared, and two are counted. -/
theorem cleared_samples_counted :
    ∃ s cleared, Reaches sampleConfig s [] cleared [] ∧ s.bufferOriginSamples + s.buf.length / 2 = 2 :=
  ⟨_, _, .clear (.append [0, 0, 0, 0] .initial (by decide)), rfl⟩

end AudioInput
end SglangOmni.Serve.Realtime
