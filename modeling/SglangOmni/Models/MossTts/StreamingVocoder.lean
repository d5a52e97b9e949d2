import SglangOmni.Models.MossTts.DelayPattern
import SglangOmni.Lib.Windowed

/-! The streaming vocoder of MOSS-TTS.

Delayed rows arrive in chunks. `ingest` undoes the delay row by row through a window of the last rows; `decodeDelta`
moves the undelayed frames, all but a holdback, into segments, and decodes what a segment has not emitted yet behind an
overlap of frames it has. The codec is a parameter: it takes a list of segments and gives their waveforms. -/
namespace SglangOmni.Models.MossTts
open Lib

/-! ### Errors and settings -/

inductive ContractField
  | nVq
  | audioPadCode
  | sampleRate
  deriving DecidableEq

inductive VocoderError
  | metadataType
  | metadataValue
  | contractChanged (field : ContractField) (previous value : Int)
  | contractIncomplete
  | initialChunkType
  | initialChunkNegative
  | chunkRank
  | chunkCodebooks (got expected : Nat)
  | cursorMovedBackwards
  | stackOfNothing
  deriving DecidableEq

inductive InitError
  | strides
  | overlap
  | holdback
  deriving DecidableEq

/-- The settings of the scheduler, as its constructor accepts them. -/
structure Scheduler where
  streamStride : Nat
  streamFollowupStride : Nat
  streamOverlapTokens : Nat
  streamHoldbackTokens : Nat
  defaultInitialChunkFrames : Nat
  defaultNVq : Nat
  defaultAudioPadCode : Int
  defaultSamplesPerFrame : Option Nat
  sampleRate : Int
  stride_pos : 0 < streamStride
  followup_pos : 0 < streamFollowupStride
  overlap_pos : 0 < streamOverlapTokens

/-- The constructor. -/
def Scheduler.init (streamStride streamFollowupStride streamOverlapTokens streamHoldbackTokens initialChunkFrames : Int)
    (nVq : Nat) (audioPadCode : Int) (samplesPerFrame : Option Nat) (sampleRate : Int) : Except InitError Scheduler :=
  if hs : streamStride ≤ 0 ∨ streamFollowupStride ≤ 0 then .error .strides
  else if ho : streamOverlapTokens ≤ 0 then .error .overlap
  else if streamHoldbackTokens < 0 then .error .holdback
  else .ok {
    streamStride := streamStride.toNat
    streamFollowupStride := streamFollowupStride.toNat
    streamOverlapTokens := streamOverlapTokens.toNat
    streamHoldbackTokens := streamHoldbackTokens.toNat
    defaultInitialChunkFrames := initialChunkFrames.toNat
    defaultNVq := nVq
    defaultAudioPadCode := audioPadCode
    defaultSamplesPerFrame := samplesPerFrame
    sampleRate := sampleRate
    stride_pos := by omega
    followup_pos := by omega
    overlap_pos := by omega }

/-! ### State -/

structure Segment where
  frames : List Frame := []
  emittedFrames : Nat := 0
  closed : Bool := false
  tailEmitted : Bool := false
  deriving DecidableEq

structure StreamState where
  delayWindow : List Frame := []
  pendingRawFrames : List Frame := []
  segments : List Segment := []
  activeSegment : Option Nat := none
  delayedCount : Nat := 0
  nextDecodeRows : Nat := 0
  nVq : Option Nat := none
  audioPadCode : Option Int := none
  sampleRate : Int := 24000
  initialCodecChunkFrames : Nat := 0
  samplesPerFrame : Option Nat := none
  deriving DecidableEq

def createStreamState (sch : Scheduler) : StreamState where
  nVq := if sch.defaultNVq = 0 then none else some sch.defaultNVq
  audioPadCode := some sch.defaultAudioPadCode
  sampleRate := sch.sampleRate
  samplesPerFrame := sch.defaultSamplesPerFrame

def requireContract (st : StreamState) : Except VocoderError (Nat × Int) :=
  match st.nVq, st.audioPadCode with
  | some nVq, some audioPadCode => .ok (nVq, audioPadCode)
  | _, _ => .error .contractIncomplete

/-! ### The stream contract -/

/-- What `int()` makes of a value. -/
inductive IntLike
  | int (value : Int)
  | invalid
  deriving DecidableEq

def IntLike.ofOption : Option Int → IntLike
  | some value => .int value
  | none => .invalid

/-- Where a contract comes from: the payload of the request, or the metadata of a chunk. -/
inductive ContractSource
  | payload (delayedWidth : Option Nat) (sampleRate : Int) (initialChunkFrames : Option IntLike)
  | metadata (nVq audioPadCode sampleRate : Option IntLike) (initialChunkFrames : Option IntLike)
  deriving DecidableEq

/-- A latched value may not change. -/
def unchanged (field : ContractField) (previous : Option Int) (value : Int) : Except VocoderError Unit :=
  match previous with
  | some previous => if previous = value then .ok () else .error (.contractChanged field previous value)
  | none => .ok ()

def latchContractValues (st : StreamState) (nVq audioPadCode sampleRate : IntLike) : Except VocoderError StreamState :=
  match nVq, audioPadCode, sampleRate with
  | .int n, .int pad, .int rate =>
    if n ≤ 0 ∨ pad ≤ 0 ∨ rate ≤ 0 then .error .metadataValue
    else do
      unchanged .nVq (st.nVq.map Int.ofNat) n
      unchanged .audioPadCode st.audioPadCode pad
      unchanged .sampleRate (some st.sampleRate) rate
      return { st with nVq := some n.toNat, audioPadCode := some pad, sampleRate := rate }
  | _, _, _ => .error .metadataType

def resolveInitialCodecChunkFrames (value : Option IntLike) (steadyChunkFrames defaultFrames : Nat) :
    Except VocoderError Nat :=
  match value.getD (.int defaultFrames) with
  | .invalid => .error .initialChunkType
  | .int frames => if frames < 0 then .error .initialChunkNegative else .ok (min frames.toNat steadyChunkFrames)

def latchInitialChunkFrames (sch : Scheduler) (st : StreamState) (value : Option IntLike) :
    Except VocoderError StreamState := do
  let _ ← requireContract st
  let frames ← resolveInitialCodecChunkFrames value sch.streamFollowupStride sch.defaultInitialChunkFrames
  return { st with initialCodecChunkFrames := frames }

def latchStreamContract (sch : Scheduler) (st : StreamState) (source : ContractSource) :
    Except VocoderError StreamState :=
  match source with
  | .payload delayedWidth sampleRate initial => do
    let nVq := match delayedWidth with
      | some (width + 1) => some (Int.ofNat (width + 1))
      | _ => st.nVq.map Int.ofNat
    let latched ← latchContractValues st (.ofOption nVq) (.ofOption st.audioPadCode)
      (.int (if sampleRate = 0 then st.sampleRate else sampleRate))
    latchInitialChunkFrames sch latched initial
  | .metadata nVq audioPadCode sampleRate initial => do
    let latched ← latchContractValues st (nVq.getD (.ofOption (st.nVq.map Int.ofNat)))
      (audioPadCode.getD (.ofOption st.audioPadCode)) (sampleRate.getD (.int st.sampleRate))
    latchInitialChunkFrames sch latched initial

/-! ### Chunks -/

/-- A chunk's tensor: one row, rows of one width, or anything of another rank. -/
inductive Codes
  | vector (row : Frame)
  | matrix (rows : CodeRows)
  | other

/-- `unsqueeze(0)`. -/
def CodeRows.single (row : Frame) : CodeRows where
  width := row.length
  rows := [row]
  regular := by simp

def validateChunk (st : StreamState) (codes : Codes) : Except VocoderError CodeRows :=
  let checked (rows : CodeRows) : Except VocoderError CodeRows := do
    let (nVq, _) ← requireContract st
    if rows.width = nVq then .ok rows else .error (.chunkCodebooks rows.width nVq)
  match codes with
  | .vector row => checked (.single row)
  | .matrix rows => checked rows
  | .other => .error .chunkRank

def ingestRow (nVq : Nat) (st : StreamState) (row : Frame) : StreamState :=
  let window := st.delayWindow ++ [row]
  if window.length < nVq then { st with delayWindow := window, delayedCount := st.delayedCount + 1 }
  else
    let rawFrame := (List.range nVq).map fun channel => (window.getD channel []).getD channel 0
    { st with
      delayWindow := window.tail
      delayedCount := st.delayedCount + 1
      pendingRawFrames := st.pendingRawFrames ++ [rawFrame] }

def ingest (st : StreamState) (codes : CodeRows) : Except VocoderError StreamState := do
  let (nVq, _) ← requireContract st
  return codes.rows.foldl (ingestRow nVq) st

/-! ### Segments -/

def closeActiveSegment (st : StreamState) : StreamState :=
  match st.activeSegment with
  | none => st
  | some i => { st with
      segments := st.segments.modify i fun segment => { segment with closed := true }
      activeSegment := none }

def ingestRawFrame (audioPadCode : Int) (st : StreamState) (frame : Frame) : StreamState :=
  if isPad audioPadCode frame || !isCompleteCode audioPadCode frame then closeActiveSegment st
  else
    let append (segment : Segment) : Segment := { segment with frames := segment.frames ++ [frame] }
    match st.activeSegment with
    | some i => { st with segments := st.segments.modify i append }
    | none => { st with
        segments := (st.segments ++ [({ frames := [] } : Segment)]).modify st.segments.length append
        activeSegment := some st.segments.length }

/-- Move the next `count` pending frames into segments. -/
def processRawFrames (audioPadCode : Int) : Nat → StreamState → StreamState
  | 0, st => st
  | count + 1, st =>
    match st.pendingRawFrames with
    | [] => st
    | frame :: rest =>
      processRawFrames audioPadCode count (ingestRawFrame audioPadCode { st with pendingRawFrames := rest } frame)

section Decode
variable {Sample : Type} (decodeCodes : List (List Frame) → List (List Sample)) (sch : Scheduler)

/-- `samples_per_frame or max(samples // max(frames, 1), 1)`. -/
def resolvedSamplesPerFrame (known : Option Nat) (samples decodedFrames : Nat) : Nat :=
  match known with
  | some (n + 1) => n + 1
  | _ => max (samples / max decodedFrames 1) 1

/-- What a segment emits now, with the samples per frame of the stream. -/
def decodeSegmentDelta (samplesPerFrame : Option Nat) (segment : Segment) (flushTail : Bool) :
    Except VocoderError (Option (List Sample) × Option Nat × Segment) :=
  let totalFrames := segment.frames.length
  let emittedFrames := segment.emittedFrames
  if totalFrames < emittedFrames then .error .cursorMovedBackwards
  else if totalFrames = emittedFrames ∧ (!flushTail || segment.tailEmitted) then .ok (none, samplesPerFrame, segment)
  else
    let windowStart := emittedFrames - sch.streamOverlapTokens
    let window := segment.frames.drop windowStart
    if window = [] then .error .stackOfNothing
    else
      match decodeCodes [window] with
      | [] => .ok (none, samplesPerFrame, segment)
      | audio :: _ =>
        let perFrame := resolvedSamplesPerFrame samplesPerFrame audio.length (totalFrames - windowStart)
        let trimSamples := min ((emittedFrames - windowStart) * perFrame) audio.length
        let delta :=
          if flushTail then audio.drop trimSamples
          else (audio.drop trimSamples).take ((totalFrames - emittedFrames) * perFrame)
        let emitted := { segment with
          emittedFrames := totalFrames
          tailEmitted := flushTail || segment.tailEmitted }
        .ok (if delta.isEmpty then none else some delta, some perFrame, emitted)

/-- One pass over the segments of the stream. -/
def decodeSegments (isFinal : Bool) (samplesPerFrame : Option Nat) :
    List Segment → Except VocoderError (List (List Sample) × Option Nat × List Segment)
  | [] => .ok ([], samplesPerFrame, [])
  | segment :: rest =>
    match decodeSegmentDelta decodeCodes sch samplesPerFrame segment (segment.closed || isFinal) with
    | .error e => .error e
    | .ok (chunk, perFrame, segment') =>
      match decodeSegments isFinal perFrame rest with
      | .error e => .error e
      | .ok (chunks, perFrame', rest') => .ok (chunk.toList ++ chunks, perFrame', segment' :: rest')

def firstDecodeRows (st : StreamState) (nVq : Nat) : Nat :=
  if 0 < st.initialCodecChunkFrames then nVq - 1 + st.initialCodecChunkFrames + sch.streamHoldbackTokens
  else max nVq sch.streamStride

/-- When the next decode is due, after one that gave no audio. -/
def retryDecodeRows (st : StreamState) (nVq : Nat) : Nat :=
  if st.pendingRawFrames.length ≤ sch.streamHoldbackTokens then max (st.delayedCount + 1)
    (nVq + sch.streamHoldbackTokens)
  else st.delayedCount + sch.streamFollowupStride

/-- Move the frames that are due into segments. -/
def collectFrames (audioPadCode : Int) (st : StreamState) (isFinal : Bool) : StreamState :=
  let pendingCount := st.pendingRawFrames.length
  let processCount := if isFinal then pendingCount else pendingCount - sch.streamHoldbackTokens
  let processed := processRawFrames audioPadCode processCount st
  if isFinal then closeActiveSegment processed else processed

def decodeDelta (st : StreamState) (isFinal : Bool) : Except VocoderError (Option (List Sample) × StreamState) :=
  match requireContract st with
  | .error e => .error e
  | .ok (nVq, audioPadCode) =>
    let nextDecodeRows := if st.nextDecodeRows = 0 then firstDecodeRows sch st nVq else st.nextDecodeRows
    if !isFinal && decide (st.delayedCount < nextDecodeRows) then
      .ok (none, { st with nextDecodeRows := nextDecodeRows })
    else
      let collected := collectFrames sch audioPadCode st isFinal
      match decodeSegments decodeCodes sch isFinal collected.samplesPerFrame collected.segments with
      | .error e => .error e
      | .ok (chunks, perFrame, segments) =>
        let decoded := { collected with segments := segments, samplesPerFrame := perFrame }
        match chunks with
        | [] =>
          .ok (none, if isFinal then decoded else { decoded with nextDecodeRows := retryDecodeRows sch decoded nVq })
        | chunk :: more =>
          .ok (some (if more.isEmpty then chunk else (chunk :: more).flatten),
            { decoded with nextDecodeRows := decoded.delayedCount + sch.streamFollowupStride })

/-! ### A stream -/

/-- What the scheduler does with a stream before its end: take a chunk, or decode. -/
inductive Call
  | chunk (source : ContractSource) (codes : Codes)
  | decode

def takeChunk (st : StreamState) (source : ContractSource) (codes : Codes) : Except VocoderError StreamState := do
  let latched ← latchStreamContract sch st source
  let rows ← validateChunk latched codes
  ingest latched rows

def Call.apply (st : StreamState) : Call → Except VocoderError (List Sample × StreamState)
  | .chunk source codes => (takeChunk sch st source codes).map fun st' => ([], st')
  | .decode => (decodeDelta decodeCodes sch st false).map fun result => (result.1.getD [], result.2)

/-- The calls of a stream, with the audio they gave. -/
def runCalls (st : StreamState) : List Call → Except VocoderError (List Sample × StreamState)
  | [] => .ok ([], st)
  | call :: rest =>
    match call.apply decodeCodes sch st with
    | .error e => .error e
    | .ok (audio, st') =>
      match runCalls st' rest with
      | .error e => .error e
      | .ok (more, st'') => .ok (audio ++ more, st'')

/-- A stream from its first contract on. -/
def runStream (source : ContractSource) (calls : List Call) : Except VocoderError (List Sample × StreamState) :=
  match latchStreamContract sch (createStreamState sch) source with
  | .error e => .error e
  | .ok st => runCalls decodeCodes sch st calls

end Decode

def Codes.toRows : Codes → List Frame
  | .vector row => [row]
  | .matrix rows => rows.rows
  | .other => []

def Call.rows : Call → List Frame
  | .chunk _ codes => codes.toRows
  | .decode => []

/-- Every row a stream was sent. -/
def sentRows (calls : List Call) : List Frame := calls.flatMap Call.rows

/-! ### The non-streaming path -/

/-- `_decode_audio`: every segment decoded by itself; no audio at all is an error. -/
def decodeAudio {Sample : Type} (decodeCodes : List (List Frame) → List (List Sample)) (delayed : CodeRows)
    (audioPadCode assistantStartLength : Int) : Option (List Sample) :=
  let segments := splitMossAudioSegments delayed audioPadCode assistantStartLength
  let decoded := segments.flatMap fun segment => decodeCodes [segment]
  if decoded.isEmpty then none else some decoded.flatten

end SglangOmni.Models.MossTts
