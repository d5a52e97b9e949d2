import SglangOmni.Lib.History
import Mathlib.Algebra.GroupWithZero.Nat
import Mathlib.Data.List.DropRight

/-! The session of a speech WebSocket, after it was configured.

The message loop takes one frame at a time and generates the sentences of it one after the other. While a sentence is
generated a second task reads the socket, in case the client goes away, and keeps what it reads for the message loop.
The generation itself, the audio that it sends and the abort of a request are left out: a generation ends at any time,
and either fails or does not. -/
namespace SglangOmni.Serve.SpeechWs
open Lib

/-! ### Text -/

/-- A `str`, by its code points: those of JSON can be surrogates. -/
abbrev Str := List Nat

def sentenceBoundaries : Str := ".!?。！？".toList.map Char.toNat

def clauseBoundaries : Str := ".!?。！？,，;；".toList.map Char.toNat

/-- `str.isspace`, for one code point. -/
def isSpace (n : Nat) : Bool :=
  (9 ≤ n && n ≤ 13) || (28 ≤ n && n ≤ 32) || n = 0x85 || n = 0xA0 || n = 0x1680 || (0x2000 ≤ n && n ≤ 0x200A) ||
    n = 0x2028 || n = 0x2029 || n = 0x202F || n = 0x205F || n = 0x3000

/-- `str.strip`. -/
def strip (s : Str) : Str := (s.dropWhile isSpace).rdropWhile isSpace

inductive SplitGranularity where
  | sentence
  | clause
  deriving DecidableEq

namespace SplitGranularity

def boundaries : SplitGranularity → Str
  | .clause => clauseBoundaries
  | .sentence => sentenceBoundaries

def isBoundary (g : SplitGranularity) (char : Nat) : Bool := g.boundaries.contains char

/-- The body of the loop of `_pop_complete_segments`, over the segments and `start`. -/
def popSegment (g : SplitGranularity) (buffer : Str) (acc : List Str × Nat) : Nat × Nat → List Str × Nat
  | (char, index) =>
    if g.isBoundary char then
      let segment := strip ((buffer.take (index + 1)).drop acc.2)
      (if segment.isEmpty then acc.1 else acc.1 ++ [segment], index + 1)
    else acc

/-- `_pop_complete_segments`: the segments, and the buffer that is left. -/
def popCompleteSegments (g : SplitGranularity) (buffer : Str) : List Str × Str :=
  let popped := buffer.zipIdx.foldl (g.popSegment buffer) ([], 0)
  (popped.1, buffer.drop popped.2)

end SplitGranularity

/-! ### Frames -/

inductive Body where
  | inputText (text : Str)
  | inputCommit
  | inputDone
  /-- What is answered with an error: no text frame, no JSON object, another type, or a text that is no string. -/
  | invalid
  | disconnect
  deriving DecidableEq

structure Frame where
  body : Body
  /-- `_receive_message_size`. -/
  size : Nat
  deriving DecidableEq

def maxTextMessageBytes : Nat := 128 * 1024
def maxBufferedTextChars : Nat := 256 * 1024
def maxBufferedReceiveMessages : Nat := 16
def maxBufferedReceiveBytes : Nat := maxBufferedReceiveMessages * maxTextMessageBytes

/-! ### The session -/

inductive Event where
  /-- A generation is started. -/
  | generate (sentenceIndex : Nat) (sentence : Str)
  | audioDone (sentenceIndex : Nat) (error : Bool)
  | committed (segmentIndex segmentSentences totalSentences : Nat)
  | sessionDone (totalSentences : Nat)
  | error
  deriving DecidableEq

/-- What a handler does after its last sentence. -/
inductive After where
  | nothing
  | commit
  | done
  deriving DecidableEq

inductive Task where
  /-- In `_receive_text_frame`. -/
  | receiving
  /-- In `_run_generation_until_disconnect`, with the sentences that follow. -/
  | generating (sentenceIndex : Nat) (rest : List Str) (after : After)
  | closed
  deriving DecidableEq

structure Session where
  /-- The frames that have arrived and that no task has received. -/
  socket : List Frame := []
  bufferedReceiveMessages : List Frame := []
  bufferedReceiveMessageBytes : Nat := 0
  /-- The frames that the message loop has taken. -/
  processed : List Frame := []
  buffer : Str := []
  sentenceIndex : Nat := 0
  committedSentenceCount : Nat := 0
  segmentIndex : Nat := 0
  task : Task := .receiving
  sent : List Event := []
  deriving DecidableEq

namespace Session

/-- The rest of `_handle_input_commit` and of `_handle_input_done`, after the buffer was flushed. -/
def finishHandler (s : Session) : After → Session
  | .nothing => { s with task := .receiving }
  | .commit =>
    { s with
      task := .receiving
      sent := s.sent ++
        [.committed s.segmentIndex (s.sentenceIndex - s.committedSentenceCount) s.sentenceIndex]
      committedSentenceCount := s.sentenceIndex
      segmentIndex := s.segmentIndex + 1 }
  | .done => { s with task := .closed, sent := s.sent ++ [.sessionDone s.sentenceIndex] }

/-- `_generate_sentence` for each of the sentences, up to the first generation. -/
def generate (s : Session) (after : After) : List Str → Session
  | [] => s.finishHandler after
  | sentence :: rest =>
    { s with
      sentenceIndex := s.sentenceIndex + 1
      task := .generating s.sentenceIndex rest after
      sent := s.sent ++ [.generate s.sentenceIndex sentence] }

/-- `_flush_buffer`, and what comes after it. -/
def flushBuffer (s : Session) (after : After) : Session :=
  let remaining := strip s.buffer
  { s with buffer := [] }.generate after (if remaining.isEmpty then [] else [remaining])

/-- `_handle_input_text`. -/
def handleInputText (g : SplitGranularity) (s : Session) (text : Str) : Session :=
  if text.isEmpty then s
  else if maxBufferedTextChars < s.buffer.length + text.length then
    { s with buffer := [], sent := s.sent ++ [.error], task := .closed }
  else
    let popped := g.popCompleteSegments (s.buffer ++ text)
    { s with buffer := popped.2 }.generate .nothing popped.1

/-- The body of `_message_loop`, with a frame that `_receive_text_frame` was given. -/
def handleFrame (g : SplitGranularity) (s : Session) (frame : Frame) : Session :=
  match frame.body with
  | .disconnect => { s with task := .closed }
  | .invalid => { s with sent := s.sent ++ [.error] }
  | .inputText text =>
    if maxTextMessageBytes < frame.size then { s with sent := s.sent ++ [.error] } else s.handleInputText g text
  | .inputCommit =>
    if maxTextMessageBytes < frame.size then { s with sent := s.sent ++ [.error] } else s.flushBuffer .commit
  | .inputDone =>
    if maxTextMessageBytes < frame.size then { s with sent := s.sent ++ [.error] } else s.flushBuffer .done

/-- The frame that `_receive_text_frame` takes, and the session without it. -/
def takeFrame (s : Session) : Option (Frame × Session) :=
  match s.bufferedReceiveMessages with
  | frame :: rest =>
    some (frame,
      { s with
        bufferedReceiveMessages := rest
        bufferedReceiveMessageBytes := s.bufferedReceiveMessageBytes - frame.size })
  | [] =>
    match s.socket with
    | [] => none
    | frame :: rest => some (frame, { s with socket := rest })

/-- A round of `_message_loop`. -/
def receive (g : SplitGranularity) (s : Session) : Session :=
  match s.takeFrame with
  | none => s
  | some (frame, s) => { s with processed := s.processed ++ [frame] }.handleFrame g frame

/-- A round of `_watch_client_disconnect`. Nothing can be sent any more once the client is gone or has sent too much. -/
def watch (s : Session) : Session :=
  match s.socket with
  | [] => s
  | frame :: rest =>
    let s := { s with socket := rest }
    if frame.body = .disconnect then { s with task := .closed }
    else if maxBufferedReceiveMessages ≤ s.bufferedReceiveMessages.length || maxTextMessageBytes < frame.size ||
        maxBufferedReceiveBytes < s.bufferedReceiveMessageBytes + frame.size then
      { s with task := .closed }
    else
      { s with
        bufferedReceiveMessages := s.bufferedReceiveMessages ++ [frame]
        bufferedReceiveMessageBytes := s.bufferedReceiveMessageBytes + frame.size }

/-- A generation ends: the rest of `_generate_sentence`, and the sentence after it. -/
def finish (s : Session) (failed : Bool) (sentenceIndex : Nat) (rest : List Str) (after : After) : Session :=
  { s with
    sent := s.sent ++ (if failed then [Event.error] else []) ++
      [Event.audioDone sentenceIndex failed] }.generate after rest

inductive Step where
  /-- A frame arrives at the socket. -/
  | arrive (frame : Frame)
  | receive
  | watch
  | finish (failed : Bool)
  /-- Nothing was received for `IDLE_TIMEOUT_S`. -/
  | idle
  deriving DecidableEq

/-- Steps of a task that does not run, or that waits, leave the session as it is. -/
def step (g : SplitGranularity) (s : Session) : Step → Session
  | .arrive frame => { s with socket := s.socket ++ [frame] }
  | .receive =>
    match s.task with
    | .receiving => s.receive g
    | _ => s
  | .watch =>
    match s.task with
    | .generating .. => s.watch
    | _ => s
  | .finish failed =>
    match s.task with
    | .generating sentenceIndex rest after => s.finish failed sentenceIndex rest after
    | _ => s
  | .idle =>
    match s.task with
    | .receiving => if s.takeFrame.isNone then { s with sent := s.sent ++ [.error], task := .closed } else s
    | _ => s

end Session
end SglangOmni.Serve.SpeechWs
