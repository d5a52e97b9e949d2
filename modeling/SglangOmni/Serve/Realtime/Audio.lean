import SglangOmni.Lib.History
import Mathlib.Algebra.GroupWithZero.Nat

/-! The input audio of a realtime session: the buffer, the voice activity detector, and the utterances cut from them.

The detector takes whole frames of what it has been given, and reports where speech starts and stops in samples since
its last reset; the session turns them into bytes of a buffer whose committed prefix is dropped. The network is a
function of the frames since the last reset. Item ids, the responses that speech interrupts and the encoding of the
committed bytes are left out. -/
namespace SglangOmni.Serve.Realtime
open Lib

structure VadConfig where
  /-- `VAD_FRAME_SAMPLES`. -/
  frameSamples : Nat := 512
  frame_pos : 0 < frameSamples := by decide
  /-- `VAD_SAMPLE_RATE`. -/
  sampleRate : Nat := 16000
  prefixPaddingMs : Nat := 300
  silenceDurationMs : Nat := 500
  /-- Whether the last of the frames since the reset is speech, with a probability of the threshold at least. -/
  speech : List (List UInt8) → Bool
  /-- `max_bytes` of the audio buffer. -/
  maxBytes : Nat := 60 * 16000 * 2

inductive Emit where
  | speechStarted (sampleOffset : Nat)
  | speechStopped (sampleOffset : Nat)
  deriving DecidableEq

def Emit.offset : Emit → Nat
  | .speechStarted sampleOffset => sampleOffset
  | .speechStopped sampleOffset => sampleOffset

structure Vad where
  leftoverPcm : List UInt8 := []
  /-- The frames that the network has seen since its reset. -/
  frames : List (List UInt8) := []
  samplesConsumed : Nat := 0
  isSpeech : Bool := false
  silenceRunSamples : Nat := 0
  lastSpeechOffset : Nat := 0
  deriving DecidableEq

namespace Vad
variable (cfg : VadConfig)

/-- The body of the loop of `process`, after the frame was taken. -/
def onFrame (v : Vad) (frame : List UInt8) : Vad × List Emit :=
  let frames := v.frames ++ [frame]
  let consumed := v.samplesConsumed + cfg.frameSamples
  let v := { v with frames, samplesConsumed := consumed }
  if cfg.speech frames then
    let v := { v with silenceRunSamples := 0, lastSpeechOffset := consumed }
    if v.isSpeech then (v, [])
    else
      let pad := cfg.prefixPaddingMs * cfg.sampleRate / 1000
      ({ v with isSpeech := true }, [.speechStarted (consumed - cfg.frameSamples - pad)])
  else
    let v := { v with silenceRunSamples := v.silenceRunSamples + cfg.frameSamples }
    if v.isSpeech && cfg.silenceDurationMs * cfg.sampleRate / 1000 ≤ v.silenceRunSamples then
      ({ v with isSpeech := false }, [.speechStopped v.lastSpeechOffset])
    else (v, [])

/-- The loop of `process`, for at most `n` frames. -/
def loop : Nat → Vad → Vad × List Emit
  | 0, v => (v, [])
  | n + 1, v =>
    if cfg.frameSamples * 2 ≤ v.leftoverPcm.length then
      let frame := v.leftoverPcm.take (cfg.frameSamples * 2)
      let stepped := { v with leftoverPcm := v.leftoverPcm.drop (cfg.frameSamples * 2) }.onFrame cfg frame
      let rest := loop n stepped.1
      (rest.1, stepped.2 ++ rest.2)
    else (v, [])

/-- `process`; a frame has a byte at least, so the length bounds the number of frames. -/
def process (v : Vad) (pcmBytes : List UInt8) : Vad × List Emit :=
  if pcmBytes.isEmpty then (v, [])
  else
    let v := { v with leftoverPcm := v.leftoverPcm ++ pcmBytes }
    v.loop cfg v.leftoverPcm.length

/-- `reset`. -/
def reset (_ : Vad) : Vad := {}

end Vad

/-- What a session reports of its input audio. -/
inductive AudioEvent where
  | speechStarted (audioStartMs : Nat)
  | speechStopped (audioEndMs : Nat)
  | committed (bytes : List UInt8)
  deriving DecidableEq

structure AudioInput where
  buf : List UInt8 := []
  vad : Vad := {}
  vadOriginSamples : Nat := 0
  bufferOriginSamples : Nat := 0
  utteranceStartByte : Option Nat := none
  sent : List AudioEvent := []
  deriving DecidableEq

namespace AudioInput
variable (cfg : VadConfig)

/-- `offsets_to_ms`. -/
def offsetsToMs (samples : Nat) : Nat := samples * 1000 / cfg.sampleRate

def absoluteSample (s : AudioInput) (sampleOffset : Nat) : Nat := s.vadOriginSamples + sampleOffset

/-- `sample_offset_to_buffer_byte`: 0 for a sample before the buffer. -/
def sampleOffsetToBufferByte (s : AudioInput) (sampleOffset : Nat) : Nat :=
  (s.absoluteSample sampleOffset - s.bufferOriginSamples) * 2

/-- `consume_committed_prefix`. -/
def consumeCommittedPrefix (s : AudioInput) (endByte : Nat) : AudioInput :=
  { s with
    buf := s.buf.drop endByte
    bufferOriginSamples := s.bufferOriginSamples + endByte / 2
    utteranceStartByte := none }

/-- `auto_commit_utterance`. -/
def autoCommitUtterance (s : AudioInput) (endSampleOffset : Nat) : AudioInput :=
  if s.buf.length / 2 = 0 then s
  else
    let startByte := s.utteranceStartByte.getD 0
    let endByte := min (s.sampleOffsetToBufferByte endSampleOffset) s.buf.length
    if endByte ≤ startByte then s
    else
      let payload := (s.buf.take endByte).drop startByte
      { s.consumeCommittedPrefix endByte with sent := s.sent ++ [.committed payload] }

/-- `handle_vad_emit`. -/
def handleVadEmit (s : AudioInput) : Emit → AudioInput
  | .speechStarted offset =>
    { s with
      utteranceStartByte := some (min (s.sampleOffsetToBufferByte offset) s.buf.length)
      sent := s.sent ++ [.speechStarted (offsetsToMs cfg (s.absoluteSample offset))] }
  | .speechStopped offset =>
    let reported : AudioInput :=
      { s with sent := s.sent ++ [.speechStopped (offsetsToMs cfg (s.absoluteSample offset))] }
    reported.autoCommitUtterance offset

/-- `handle_audio_append`; nothing on a `BufferOverflow`. -/
def handleAudioAppend (s : AudioInput) (chunk : List UInt8) : Option AudioInput :=
  if cfg.maxBytes < s.buf.length + chunk.length then none
  else
    let buf := s.buf ++ chunk
    let newBytes := buf.drop (buf.length - chunk.length)
    let processed := s.vad.process cfg newBytes
    some (processed.2.foldl (handleVadEmit cfg) { s with buf, vad := processed.1 })

/-- `handle_audio_clear`. -/
def handleAudioClear (s : AudioInput) : AudioInput :=
  let origin := s.bufferOriginSamples + s.buf.length / 2
  { s with
    buf := [], bufferOriginSamples := origin, vadOriginSamples := origin, utteranceStartByte := none
    vad := s.vad.reset }

/-- A session that is sent the messages one after the other. -/
def appends (chunks : List (List UInt8)) : Option AudioInput := chunks.foldlM (handleAudioAppend cfg) {}

end AudioInput
end SglangOmni.Serve.Realtime
