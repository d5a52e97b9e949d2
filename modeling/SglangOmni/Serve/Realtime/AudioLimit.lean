import Mathlib.Data.List.Infix
import SglangOmni.Serve.Realtime.AudioProofs

/-! What the limit of the audio buffer bounds.

The buffer holds everything received since the end of the last committed utterance, speech or not, and an append that
takes it over the limit raises. So the limit is one on the time between commits: a stream of silence reaches it. -/
namespace SglangOmni.Serve.Realtime.AudioInput
open Lib

variable {cfg : VadConfig}

/-- The bytes received since the end of the last committed utterance of a stream. -/
def held (cfg : VadConfig) (x : List UInt8) : Nat := x.length - 2 * (Cut.ofStream cfg x).committed

/-- At every message, what is held and the message are within the limit. -/
def Within (cfg : VadConfig) (chunks : List (List UInt8)) : Prop :=
  ∀ a chunk b, chunks = a ++ chunk :: b → held cfg a.flatten + chunk.length ≤ cfg.maxBytes

theorem within_concat {chunks : List (List UInt8)} {chunk : List UInt8} :
    Within cfg (chunks ++ [chunk]) ↔ Within cfg chunks ∧ held cfg chunks.flatten + chunk.length ≤ cfg.maxBytes := by
  constructor
  · intro h
    constructor
    · intro a c b hsplit
      apply h a c (b ++ [chunk])
      rw [hsplit, List.append_assoc, List.cons_append]
    · exact h chunks chunk [] rfl
  · intro ⟨hbefore, hlast⟩ a c b hsplit
    cases List.eq_nil_or_concat b with
    | inl hb =>
      subst hb
      obtain ⟨rfl, hc⟩ := List.append_inj' hsplit rfl
      cases hc
      exact hlast
    | inr hb =>
      obtain ⟨b, last, rfl⟩ := hb
      apply hbefore a c b
      have hassoc : chunks ++ [chunk] = (a ++ c :: b) ++ [last] := by
        rw [hsplit, List.concat_eq_append, List.append_assoc, List.cons_append]
      exact (List.append_inj' hassoc rfl).1

theorem appends_concat (chunks : List (List UInt8)) (chunk : List UInt8) :
    appends cfg (chunks ++ [chunk]) = (appends cfg chunks).bind (handleAudioAppend cfg · chunk) := by
  unfold appends
  rw [List.foldlM_append]
  cases chunks.foldlM (handleAudioAppend cfg) ({} : AudioInput) with
  | none => rfl
  | some s => exact bind_pure (s.handleAudioAppend cfg chunk)

/-- An append raises when it takes the buffer over the limit. -/
theorem handleAudioAppend_isSome {x : List UInt8} {s : AudioInput} (h : Heard cfg x s) (chunk : List UInt8) :
    (s.handleAudioAppend cfg chunk).isSome ↔ held cfg x + chunk.length ≤ cfg.maxBytes := by
  simp only [handleAudioAppend, h.cut.buf_length]
  show (if cfg.maxBytes < held cfg x + chunk.length then none else some _).isSome ↔ _
  split
  · next hover => exact iff_of_false (fun h => by cases h) (Nat.not_le_of_lt hover)
  · next hroom => exact iff_of_true rfl (Nat.le_of_not_lt hroom)

theorem appends_isSome (chunks : List (List UInt8)) : (appends cfg chunks).isSome ↔ Within cfg chunks := by
  induction chunks using List.reverseRecOn with
  | nil =>
    apply iff_of_true rfl
    intro a chunk b hsplit
    exact absurd hsplit.symm (List.append_ne_nil_of_right_ne_nil _ (List.cons_ne_nil _ _))
  | append_singleton chunks chunk ih =>
    rw [within_concat, ← ih, appends_concat]
    cases hs : appends cfg chunks with
    | none => simp
    | some s =>
      rw [← handleAudioAppend_isSome (Heard.appends chunks hs)]
      exact (and_iff_right rfl).symm

/-- A stream so far, with utterances of at most `spoken` samples and stretches without speech of at most `quiet`: since
the last commit, or up to the padded start of the utterance that is open. -/
structure Brief (cfg : VadConfig) (spoken quiet : Nat) (x : List UInt8) : Prop where
  closed : (Cut.ofStream cfg x).opened = none → x.length ≤ 2 * ((Cut.ofStream cfg x).committed + quiet)
  opened : ∀ padded start, (Cut.ofStream cfg x).opened = some (padded, start) →
    start ≤ (Cut.ofStream cfg x).committed + quiet ∧ x.length ≤ 2 * (start + spoken)

theorem Brief.held_le {spoken quiet : Nat} {x : List UInt8} (h : Brief cfg spoken quiet x) :
    held cfg x ≤ 2 * (quiet + spoken) := by
  unfold held
  cases hopened : (Cut.ofStream cfg x).opened with
  | none =>
    have hquiet := h.closed hopened
    omega
  | some o =>
    obtain ⟨hquiet, hspoken⟩ := h.opened o.1 o.2 hopened
    omega

/-- **The limit is on the time between commits.** For every stream of messages, the appends raise when what was received
since the end of the last committed utterance is longer than the limit, and only then. So messages of up to a second,
utterances of up to 30 seconds and stretches without speech of up to 29 seconds never reach a limit of 60. -/
theorem overflows_iff (cfg : VadConfig) (chunks : List (List UInt8)) :
    (appends cfg chunks = none ↔
      ∃ a chunk b, chunks = a ++ chunk :: b ∧ cfg.maxBytes < held cfg a.flatten + chunk.length) ∧
    (cfg.maxBytes = 60 * cfg.sampleRate * 2 → (∀ chunk ∈ chunks, chunk.length ≤ cfg.sampleRate * 2) →
      (∀ a b, chunks = a ++ b → Brief cfg (30 * cfg.sampleRate) (29 * cfg.sampleRate) a.flatten) →
      appends cfg chunks ≠ none) := by
  have hiff : (appends cfg chunks).isSome ↔ Within cfg chunks := appends_isSome chunks
  constructor
  · rw [← Option.not_isSome_iff_eq_none, hiff]
    simp only [Within, not_forall, Nat.not_le, exists_prop]
  · intro hmax hmessages hbrief hnone
    have hwithin : Within cfg chunks := by
      intro a chunk b hsplit
      have hheld := (hbrief a (chunk :: b) hsplit).held_le
      have hchunk := hmessages chunk (hsplit ▸ List.mem_append_right _ List.mem_cons_self)
      omega
    rw [← hiff, hnone] at hwithin
    cases hwithin

/-- A limit of a minute. -/
def minuteConfig : VadConfig := { sampleConfig with maxBytes := 60 * 1000 * 2 }

theorem overflows_iff_two_utterances : appends minuteConfig [[0, 0, 0, 0, 1, 1, 0, 0], [2, 2, 0, 0, 7]] ≠ none := by
  have hinits : ∀ a ∈ List.inits [[0, 0, 0, 0, 1, 1, 0, 0], [2, 2, 0, 0, 7]],
      (Cut.ofStream minuteConfig a.flatten).opened = none ∧ a.flatten.length ≤ 13 := by decide
  refine (overflows_iff minuteConfig _).2 rfl (by decide) fun a b hsplit => ?_
  obtain ⟨hopened, hlength⟩ := hinits a ((List.mem_inits _ _).mpr ⟨b, hsplit.symm⟩)
  refine ⟨fun _ => ?_, fun _ _ hopen => ?_⟩
  · simp only [minuteConfig, sampleConfig]
    omega
  · rw [hopened] at hopen
    cases hopen

/-! ### Silence -/

/-- A detector that never hears speech. -/
def deaf : VadConfig where
  speech _ := false

theorem onFrame_deaf (v : Vad) (h : v.isSpeech = false) (frame : List UInt8) :
    (v.onFrame deaf frame).1.isSpeech = false ∧ (v.onFrame deaf frame).2 = [] := by
  simp [Vad.onFrame, deaf, h]

theorem loop_deaf (n : Nat) (v : Vad) (h : v.isSpeech = false) : (v.loop deaf n).2 = [] := by
  induction n generalizing v with
  | zero => rfl
  | succ n ih =>
    simp only [Vad.loop]
    split
    · obtain ⟨hquiet, hemits⟩ := onFrame_deaf { v with leftoverPcm := v.leftoverPcm.drop (deaf.frameSamples * 2) } h
        (v.leftoverPcm.take (deaf.frameSamples * 2))
      rw [hemits, ih _ hquiet]
      rfl
    · rfl

/-- Nothing is ever committed of a stream without speech. -/
theorem held_deaf (x : List UInt8) : held deaf x = x.length := by
  have hemits : Cut.emitsOf deaf x = [] := by
    unfold Cut.emitsOf Vad.process
    split
    · rfl
    · exact loop_deaf _ _ rfl
  unfold held Cut.ofStream
  rw [hemits]
  rfl

/-- A second of silence. -/
def second : List UInt8 := List.replicate 32000 0

/-- A minute of silence and one second more end the session. -/
theorem silence_overflows :
    (∀ frames, deaf.speech frames = false) ∧ (∀ chunk ∈ List.replicate 61 second, chunk.length ≤ deaf.sampleRate * 2) ∧
      appends deaf (List.replicate 61 second) = none := by
  have hlength : second.length = 32000 := List.length_replicate
  constructor
  · exact fun _ => rfl
  constructor
  · intro chunk hchunk
    rw [(List.mem_replicate.mp hchunk).2, hlength]
    decide
  · rw [← Option.not_isSome_iff_eq_none, appends_isSome]
    intro hwithin
    have hlast := hwithin (List.replicate 60 second) second [] List.replicate_succ'
    rw [held_deaf, second, List.flatten_replicate_replicate, List.length_replicate, List.length_replicate] at hlast
    exact absurd hlast (by decide)

end SglangOmni.Serve.Realtime.AudioInput
