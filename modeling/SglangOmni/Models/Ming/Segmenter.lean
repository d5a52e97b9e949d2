import SglangOmni.Router.VoiceRouting

/-! The text segmenter of Ming.

Text arrives from the thinker in pieces and leaves in segments that can be spoken. A request has a payload and a stream,
and whichever message comes first makes its state; the request is finished when both have ended. The clock is a
parameter of each event, so nothing is assumed about it. -/
namespace SglangOmni.Models.Ming
open Lib
open Router.Voices (isSpace)

/-! ### Text -/

abbrev Text := List Char

/-- `bytes.decode("utf-8", errors="ignore")`, from the `i`-th byte on. -/
def decodeFrom (bytes : ByteArray) : Nat → Nat → Text
  | 0, _ => []
  | n + 1, i =>
    match bytes.utf8DecodeChar? i with
    | some c => c :: decodeFrom bytes n (i + c.utf8Size)
    | none => decodeFrom bytes n (i + 1)

/-- `uint8_tensor_to_text`. -/
def uint8TensorToText (values : List UInt8) : Text :=
  decodeFrom ⟨values.toArray⟩ values.length 0

/-- `text_to_uint8_tensor`. -/
def textToUint8Tensor (text : Text) : List UInt8 := text.flatMap String.utf8EncodeChar

/-- `str.split`. -/
def split (text : Text) : List Text := (text.splitOnP isSpace).filter (· ≠ [])

/-- `split_whitespace_tokens`. -/
def splitWhitespaceTokens (text : Text) (maxTokens : Nat) : Text × Text :=
  let parts := split text
  if parts.length ≤ maxTokens then (text, [])
  else ([' '].intercalate (parts.take maxTokens), [' '].intercalate (parts.drop maxTokens))

/-- `_SEGMENT_END_PUNCTUATION`. -/
def segmentEndPunctuation : Text := ['.', '!', '?', '。', '！', '？', '；', ';']

/-- `_default_token_count`. -/
def defaultTokenCount (text : Text) : Nat :=
  let words := (split text).length
  if words = 0 then text.length else words

/-! ### Segments of one text -/

structure SegmenterConfig where
  segmentMinTokens : Nat := 8
  segmentMaxTokens : Nat := 40
  firstSegmentMinTokens : Nat := 4
  firstSegmentMaxWaitMs : Nat := 450
  min_pos : 0 < segmentMinTokens := by decide
  max_pos : 0 < segmentMaxTokens := by decide
  first_pos : 0 < firstSegmentMinTokens := by decide
  min_le_max : segmentMinTokens ≤ segmentMaxTokens := by decide
  first_le_max : firstSegmentMinTokens ≤ segmentMaxTokens := by decide

structure TextSegment where
  segmentId : Nat
  text : Text
  isFinalSegment : Bool := false
  deriving DecidableEq

/-- What a scheduler is made with. -/
structure Setup where
  config : SegmenterConfig := {}
  tokenCountFn : Text → Nat := defaultTokenCount
  targetStage : String := "talker_stream"

structure SegmenterState where
  buffer : Text := []
  segmentId : Nat := 0
  firstTextMs : Option Int := none
  deriving DecidableEq

namespace SegmenterState

/-- `_emit_text`. -/
def emitText (g : SegmenterState) (text remainder : Text) (isFinalSegment : Bool) (remainderStartMs : Option Int) :
    TextSegment × SegmenterState :=
  (⟨g.segmentId, text, isFinalSegment⟩,
    { buffer := remainder, segmentId := g.segmentId + 1, firstTextMs := remainderStartMs })

/-- `_emit`. -/
def emit (g : SegmenterState) (isFinalSegment : Bool) : TextSegment × SegmenterState :=
  g.emitText g.buffer [] isFinalSegment none

/-- `_emit_max_window`. -/
def emitMaxWindow (setup : Setup) (g : SegmenterState) (nowMs : Int) : TextSegment × SegmenterState :=
  let parts := splitWhitespaceTokens g.buffer setup.config.segmentMaxTokens
  g.emitText parts.1 parts.2 false (if parts.2 = [] then none else some nowMs)

/-- `_has_segment_end_punctuation`. -/
def hasSegmentEndPunctuation (g : SegmenterState) : Bool :=
  (g.buffer.rdropWhile isSpace).getLast?.any fun c => segmentEndPunctuation.contains c

/-- `push`, after the text was added to the buffer. -/
def emitReady (setup : Setup) (g : SegmenterState) (nowMs : Int) : List TextSegment × SegmenterState :=
  if g.buffer = [] then ([], g)
  else
    let tokens := setup.tokenCountFn g.buffer
    if setup.config.segmentMaxTokens ≤ tokens then
      let emitted := g.emitMaxWindow setup nowMs
      ([emitted.1], emitted.2)
    else
      let firstTimeoutReady := g.segmentId = 0 ∧ setup.config.firstSegmentMinTokens ≤ tokens ∧
        g.firstTextMs.any fun first => setup.config.firstSegmentMaxWaitMs ≤ nowMs - first
      if (setup.config.segmentMinTokens ≤ tokens ∧ g.hasSegmentEndPunctuation) ∨ firstTimeoutReady then
        let emitted := g.emit false
        ([emitted.1], emitted.2)
      else ([], g)

def push (setup : Setup) (g : SegmenterState) (text : Text) (nowMs : Int) : List TextSegment × SegmenterState :=
  { g with
    buffer := g.buffer ++ text
    firstTextMs := if text ≠ [] ∧ g.firstTextMs = none then some nowMs else g.firstTextMs }.emitReady setup nowMs

def bufferTokenCount (setup : Setup) (g : SegmenterState) : Nat :=
  if g.buffer = [] then 0 else setup.tokenCountFn g.buffer

def flush (g : SegmenterState) : List TextSegment × SegmenterState :=
  if g.buffer = [] then ([], g)
  else
    let emitted := g.emit true
    ([emitted.1], emitted.2)

end SegmenterState

/-! ### One request

The handlers look at one entry of `_states` each. A handler is what becomes of the entry, and what it puts into the
outbox. -/

/-- The data of a `stream_chunk`. -/
inductive Chunk where
  /-- No `StreamItem`. -/
  | other
  /-- A tensor that is not of type `uint8`. -/
  | wrongType
  | bytes (values : List UInt8)
  deriving DecidableEq

inductive Message (P : Type) where
  | newRequest (payload : P)
  | streamChunk (item : Chunk)
  | streamDone
  deriving DecidableEq

inductive Outgoing (P : Type) where
  | stream (data : List UInt8) (target : String) (segmentId : Nat) (isFinalSegment : Bool) (textLen : Nat)
  /-- The payload that came with the request, and its `data` from here. -/
  | result (payload : Option P) (segmentCount : Nat) (aborted : Bool)
  | error
  deriving DecidableEq

/-- `_RequestState`. -/
structure RequestState (P : Type) where
  segmenter : SegmenterState := {}
  payload : Option P := none
  payloadArrived : Bool := false
  streamDone : Bool := false
  finalized : Bool := false
  aborted : Bool := false
  segmentCount : Nat := 0
  firstTextMs : Option Int := none
  deriving DecidableEq

namespace RequestState

variable {P : Type} (setup : Setup)

/-- `_emit_segment`. -/
def emitSegment (segment : TextSegment) : Outgoing P :=
  let data := textToUint8Tensor segment.text
  .stream data setup.targetStage segment.segmentId segment.isFinalSegment data.length

/-- The loop over what `push` returned. -/
def emitSegments (st : RequestState P) (segments : List TextSegment) : RequestState P × List (Outgoing P) :=
  segments.foldl (fun acc segment =>
    ({ acc.1 with segmentCount := acc.1.segmentCount + 1, firstTextMs := none }, acc.2 ++ [emitSegment setup segment]))
    (st, [])

/-- `push`, and the loop over what it returned. -/
def pushText (st : RequestState P) (text : Text) (nowMs : Int) : RequestState P × List (Outgoing P) :=
  let pushed := st.segmenter.push setup text nowMs
  { st with segmenter := pushed.2 }.emitSegments setup pushed.1

/-- `_finalize`. -/
def finalize (st : RequestState P) : Option (RequestState P) × List (Outgoing P) :=
  if st.finalized then (some st, [])
  else
    let flushed := st.segmenter.flush.1
    let finalSegments := if flushed = [] then [⟨st.segmentCount, [], true⟩] else flushed
    (none, finalSegments.map (emitSegment setup) ++
      [.result st.payload (st.segmentCount + finalSegments.length) false])

/-- `_on_new_request`. -/
def onNewRequest (payload : P) (state : Option (RequestState P)) : Option (RequestState P) × List (Outgoing P) :=
  let st := { state.getD {} with payload := some payload, payloadArrived := true }
  if st.streamDone ∧ ¬ st.finalized then st.finalize setup else (some st, [])

/-- `_on_stream_chunk`, with the handler of `start` for what it raises. -/
def onStreamChunk (item : Chunk) (nowMs : Int) (state : Option (RequestState P)) :
    Option (RequestState P) × List (Outgoing P) :=
  let st := state.getD {}
  if st.aborted ∨ st.finalized then (some st, [])
  else
    match item with
    | .other => (some st, [])
    | .wrongType => (none, [.error])
    | .bytes values =>
      let text := uint8TensorToText values
      if text = [] then (some st, [])
      else
        let st := { st with firstTextMs := if st.firstTextMs = none then some nowMs else st.firstTextMs }
        let pushed := st.pushText setup text nowMs
        (some pushed.1, pushed.2)

/-- `_on_stream_done`. -/
def onStreamDone (state : Option (RequestState P)) : Option (RequestState P) × List (Outgoing P) :=
  match state with
  | none => (none, [])
  | some st =>
    let st := { st with streamDone := true }
    if st.payloadArrived ∧ ¬ st.finalized then st.finalize setup else (some st, [])

/-- `_handle_message`. -/
def handleMessage (nowMs : Int) (msg : Message P) (state : Option (RequestState P)) :
    Option (RequestState P) × List (Outgoing P) :=
  match msg with
  | .newRequest payload => onNewRequest setup payload state
  | .streamChunk item => onStreamChunk setup item nowMs state
  | .streamDone => onStreamDone setup state

/-- The body of the loop of `_tick_first_segment_timeouts`. -/
def tickFirstSegmentTimeout (nowMs : Int) (state : Option (RequestState P)) :
    Option (RequestState P) × List (Outgoing P) :=
  match state with
  | none => (none, [])
  | some st =>
    if st.aborted ∨ st.finalized ∨ st.segmentCount ≠ 0 then (some st, [])
    else
      match st.firstTextMs with
      | none => (some st, [])
      | some first =>
        if nowMs - first < setup.config.firstSegmentMaxWaitMs then (some st, [])
        else if st.segmenter.bufferTokenCount setup < setup.config.firstSegmentMinTokens then (some st, [])
        else
          let pushed := st.pushText setup [] nowMs
          (some pushed.1, pushed.2)

end RequestState

/-! ### The scheduler -/

inductive Event (K P : Type) where
  /-- The loop takes a message. -/
  | message (nowMs : Int) (requestId : K) (msg : Message P)
  /-- The inbox stays empty for a while. -/
  | idle (nowMs : Int)
  | abort (requestId : K)
  deriving DecidableEq

structure Scheduler (K P : Type) where
  states : Dict K (RequestState P) := ∅
  outbox : List (K × Outgoing P) := []

namespace Scheduler

variable {K P : Type} [DecidableEq K] (setup : Setup)

/-- The entry of a request is looked at, and what a handler says is done with it. -/
def handle (s : Scheduler K P) (requestId : K)
    (handler : Option (RequestState P) → Option (RequestState P) × List (Outgoing P)) : Scheduler K P :=
  let handled := handler (s.states.get? requestId)
  { states :=
      match handled.1 with
      | some st => s.states.set requestId st
      | none => s.states.pop requestId
    outbox := s.outbox ++ handled.2.map fun out => (requestId, out) }

/-- `_tick_first_segment_timeouts`. -/
def tickFirstSegmentTimeouts (s : Scheduler K P) (nowMs : Int) : Scheduler K P :=
  s.states.keys.foldl (fun s requestId => s.handle requestId (RequestState.tickFirstSegmentTimeout setup nowMs)) s

def step (s : Scheduler K P) : Event K P → Scheduler K P
  | .message nowMs requestId msg => s.handle requestId (RequestState.handleMessage setup nowMs msg)
  | .idle nowMs => s.tickFirstSegmentTimeouts setup nowMs
  | .abort requestId => { s with states := s.states.pop requestId }

def run (events : List (Event K P)) : Scheduler K P := events.foldl (step setup) {}

/-- What was put for one request. -/
def outboxOf (s : Scheduler K P) (requestId : K) : List (Outgoing P) :=
  s.outbox.filterMap fun e => if e.1 = requestId then some e.2 else none

end Scheduler

end SglangOmni.Models.Ming
