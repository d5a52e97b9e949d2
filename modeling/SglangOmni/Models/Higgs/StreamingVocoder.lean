import SglangOmni.Models.CodecDelay
import SglangOmni.Lib.Windowed

/-! The streaming vocoder of Higgs TTS.

Delayed rows arrive in chunks and are all kept. `decodeDelta` waits for a number of rows, undoes the delay of a window
of them that begins an overlap before the first frame not emitted, decodes it, and cuts the overlap off the audio. The
codec is a parameter: it takes frames and gives their waveform. -/
namespace SglangOmni.Models.Higgs
open MossTts (Frame)

/-! ### Settings and state -/

inductive InitError
  | strides
  | overlap
  | holdback
  deriving DecidableEq

/-- The settings of the scheduler, as its constructor accepts them. -/
structure Scheduler where
  streamStride : Nat
  streamFollowupStride : Nat
  defaultInitialChunkFrames : Nat
  streamOverlapTokens : Nat
  streamHoldbackTokens : Nat
  /-- The hop length of the codec, where its configuration has one. -/
  samplesPerFrame : Option Nat
  stride_pos : 0 < streamStride
  followup_pos : 0 < streamFollowupStride

/-- `_resolve_samples_per_frame`. -/
def resolveSamplesPerFrame (hopLength : Option Int) : Option Nat :=
  match hopLength with
  | none => none
  | some hop => if 0 < hop then some hop.toNat else none

/-- The constructor. -/
def Scheduler.init (streamStride streamFollowupStride initialChunkFrames streamOverlapTokens streamHoldbackTokens : Int)
    (hopLength : Option Int) : Except InitError Scheduler :=
  if hs : streamStride ≤ 0 ∨ streamFollowupStride ≤ 0 then .error .strides
  else if streamOverlapTokens < 0 then .error .overlap
  else if streamHoldbackTokens < 0 then .error .holdback
  else .ok {
    streamStride := streamStride.toNat
    streamFollowupStride := streamFollowupStride.toNat
    defaultInitialChunkFrames := initialChunkFrames.toNat
    streamOverlapTokens := streamOverlapTokens.toNat
    streamHoldbackTokens := streamHoldbackTokens.toNat
    samplesPerFrame := resolveSamplesPerFrame hopLength
    stride_pos := by omega
    followup_pos := by omega }

/-- `_HiggsStreamState`, with the contract that was latched. -/
structure StreamState where
  delayedRows : List Frame := []
  emittedRawFrames : Nat := 0
  nextDecodeRows : Nat := 0
  numCodebooks : Nat
  codebookSize : Int
  initialCodecChunkFrames : Nat := 0
  /-- `_stream_has_emitted`. -/
  hasEmitted : Bool := false
  deriving DecidableEq

inductive VocoderError
  /-- `Higgs delayed rows must include at least … rows, got …`. -/
  | tooFewRows (numCodebooks got : Nat)
  | delay (exc : Models.DelayError)
  deriving DecidableEq

/-! ### Decoding -/

section Decode
variable {Sample : Type} (decode : List Frame → List Sample) (sch : Scheduler)

/-- Codes outside the codec's vocabulary are silence. -/
def clampCodes (codebookSize : Int) (frame : Frame) : Frame :=
  frame.map fun code => if codebookSize - 2 ≤ code then 0 else code

/-- `_decode_delayed_rows`. -/
def decodeDelayedRows (rows : List Frame) (numCodebooks : Nat) (codebookSize : Int) :
    Except VocoderError (List Sample) :=
  if rows.length < numCodebooks then .error (.tooFewRows numCodebooks rows.length)
  else match Models.reverseDelayPattern rows numCodebooks false with
    | .error exc => .error (.delay exc)
    | .ok codes => .ok (decode (codes.map (clampCodes codebookSize)))

/-- The frames of a steady chunk. -/
def steadyCodecFrames (numCodebooks : Nat) : Nat := max 1 (sch.streamStride + 1 - numCodebooks)

def useInitialChunk (st : StreamState) : Bool :=
  decide (0 < st.initialCodecChunkFrames) &&
    decide (st.initialCodecChunkFrames < steadyCodecFrames sch st.numCodebooks) &&
    !st.hasEmitted

/-- How many rows a decode waits for. -/
def neededRows (st : StreamState) (isFinal : Bool) : Nat :=
  if st.nextDecodeRows ≠ 0 then st.nextDecodeRows
  else if useInitialChunk sch st && !isFinal then
    max st.numCodebooks (st.initialCodecChunkFrames + st.numCodebooks - 1)
  else max st.numCodebooks sch.streamStride

/-- Where the frames to emit end. -/
def emitUntilRaw (st : StreamState) (rawTotal : Nat) (isFinal : Bool) : Nat :=
  if useInitialChunk sch st && !isFinal then min rawTotal st.initialCodecChunkFrames
  else if !isFinal && decide (sch.streamHoldbackTokens ≠ 0) then rawTotal - sch.streamHoldbackTokens
  else rawTotal

/-- `_next_decode_rows_after_emit`. -/
def nextDecodeRowsAfterEmit (delayedCount numCodebooks : Nat) (emittedInitialChunk : Bool) : Nat :=
  if emittedInitialChunk then max numCodebooks sch.streamStride + sch.streamFollowupStride
  else delayedCount + sch.streamFollowupStride

/-- The part of a window's audio that was not emitted yet. -/
def cutDelta (st : StreamState) (emitUntil windowStart : Nat) (isFinal : Bool) (audio : List Sample) : List Sample :=
  let samplesPerFrame := sch.samplesPerFrame.getD (max (audio.length / max (emitUntil - windowStart) 1) 1)
  let trimSamples := min ((st.emittedRawFrames - windowStart) * samplesPerFrame) audio.length
  if !isFinal && sch.samplesPerFrame.isSome then
    (audio.drop trimSamples).take ((emitUntil - st.emittedRawFrames) * samplesPerFrame)
  else audio.drop trimSamples

def decodeDelta (st : StreamState) (isFinal : Bool) : Except VocoderError (Option (List Sample) × StreamState) :=
  let delayedCount := st.delayedRows.length
  let numCodebooks := st.numCodebooks
  if delayedCount = 0 then .ok (none, st)
  else if delayedCount < numCodebooks then .ok (none, st)
  else
    let rawTotal := delayedCount - numCodebooks + 1
    let nextDecodeRows := neededRows sch st isFinal
    if !isFinal && decide (delayedCount < nextDecodeRows) then .ok (none, { st with nextDecodeRows })
    else
      let emitUntil := emitUntilRaw sch st rawTotal isFinal
      let canFlushCodecTail := isFinal && sch.samplesPerFrame.isSome
      let later : StreamState := { st with nextDecodeRows := delayedCount + sch.streamFollowupStride }
      if emitUntil < st.emittedRawFrames ∨ (emitUntil = st.emittedRawFrames ∧ canFlushCodecTail = false) then
        .ok (none, later)
      else
        let windowStart := st.emittedRawFrames - sch.streamOverlapTokens
        let rows := (st.delayedRows.take (emitUntil + numCodebooks - 1)).drop windowStart
        match decodeDelayedRows decode rows numCodebooks st.codebookSize with
        | .error exc => .error exc
        | .ok audio =>
          let delta := cutDelta sch st emitUntil windowStart isFinal audio
          if delta.isEmpty then .ok (none, later)
          else .ok (some delta, { st with
            emittedRawFrames := emitUntil
            nextDecodeRows :=
              nextDecodeRowsAfterEmit sch delayedCount numCodebooks (useInitialChunk sch st && !isFinal) })

/-! ### A stream -/

/-- What a request sends: its payload, or a chunk of delayed rows. The parameters of the payload set the initial chunk,
and so do the metadata of a chunk that have the field. -/
inductive Message
  | payload (initialFrames : Option Nat)
  | chunk (initialFrames : Option (Option Nat)) (rows : List Frame)

/-- `_latch_initial_codec_chunk_frames_from_mapping`, for parameters that are accepted. -/
def latchInitialChunkFrames (st : StreamState) (initialFrames : Option Nat) : StreamState :=
  let frames := min (initialFrames.getD sch.defaultInitialChunkFrames) (steadyCodecFrames sch st.numCodebooks)
  { st with initialCodecChunkFrames := frames }

/-- A decode, and the mark that audio was emitted. -/
def decodeAndEmit (st : StreamState) (isFinal : Bool) : Except VocoderError (List Sample × StreamState) :=
  match decodeDelta decode sch st isFinal with
  | .error exc => .error exc
  | .ok (none, st) => .ok ([], st)
  | .ok (some delta, st) => .ok (delta, { st with hasEmitted := true })

def onMessage (st : StreamState) : Message → Except VocoderError (List Sample × StreamState)
  | .payload initialFrames => .ok ([], latchInitialChunkFrames sch st initialFrames)
  | .chunk initialFrames rows =>
    let st := match initialFrames with
      | some initialFrames => latchInitialChunkFrames sch st initialFrames
      | none => st
    decodeAndEmit decode sch { st with delayedRows := st.delayedRows ++ rows } false

/-- The audio of the messages, one after the other. -/
def onMessages (st : StreamState) : List Message → Except VocoderError (List Sample × StreamState)
  | [] => .ok ([], st)
  | m :: rest => do
    let (delta, st) ← onMessage decode sch st m
    let (deltas, st) ← onMessages st rest
    return (delta ++ deltas, st)

/-- The whole stream, the final flush included. -/
def streamAudio (st : StreamState) (messages : List Message) : Except VocoderError (List Sample) := do
  let (deltas, st) ← onMessages decode sch st messages
  let (tail, _) ← decodeAndEmit decode sch st true
  return deltas ++ tail

end Decode

def Message.rows : Message → List Frame
  | .payload _ => []
  | .chunk _ rows => rows

end SglangOmni.Models.Higgs
