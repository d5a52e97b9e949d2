import SglangOmni.Lib.History

/-! The responses of a realtime session.

A turn runs `run_response` and then a transcription, one turn after the other. `run_response` is suspended where it
waits for a send or for the engine; a cancel comes from the client or from a barge-in, marks the response, and is thrown
into the task where it waits. The lock of the response state is never held over a suspension, so its sections are part
of the step that enters them. A send that is cancelled may have written its frame or not. Sends do not raise, and the
session is not torn down; a turn's response is known by the turn's number. -/
namespace SglangOmni.Serve.Realtime
open Lib

inductive Status where
  | completed
  | failed
  | cancelled
  deriving DecidableEq

/-- The server events of a response. -/
inductive ResponseEvent where
  | created
  | textDelta (delta : String)
  | audioDelta (delta : String)
  | textDone (text : String)
  | audioDone
  | done (status : Status) (reason text : String)
  deriving DecidableEq

inductive Modality where
  | text
  | audio
  | other
  deriving DecidableEq

/-- A chunk of `completion_stream`; an empty string stands for none. -/
structure Chunk where
  text : String := ""
  modality : Modality := .text
  audioB64 : String := ""
  finishReason : Option String := none

def Chunk.isText (c : Chunk) : Bool := c.modality = .text

def Chunk.isAudio (c : Chunk) : Bool := c.modality = .audio

/-- What the terminal task sends: events of the response, and an error that names no response. -/
inductive Outgoing where
  | event (e : ResponseEvent)
  | error (code : String)

inductive Phase where
  /-- In the send of `response.created`. -/
  | creating
  /-- Waits for the next chunk. -/
  | streaming
  /-- In a send of the loop, for the chunk. -/
  | sending (event : ResponseEvent) (chunk : Chunk)
  /-- The shielded task that sends the terminals, with what is left to send. -/
  | terminal (todo : List Outgoing)

/-- The local state of `run_response`. -/
structure Response where
  wantsAudio : Bool
  textAcc : List String := []
  finishReason : String := "stop"
  sawAudio : Bool := false
  textDone : Bool := false
  audioDone : Bool := false
  phase : Phase := .creating
  /-- The frame of the send that the task waits for is written. -/
  written : Bool := false

inductive Stage where
  | idle
  /-- `drain_queue` has taken the turn; before `run_response`. -/
  | starting
  /-- `run_response` raised before its first event. -/
  | unstarted
  | running (r : Response)
  | transcribing

structure Session where
  /-- The number of turns taken; the current one. -/
  turn : Nat := 0
  stage : Stage := .idle
  /-- `"audio" in session_object.modalities`. -/
  audioModality : Bool := false
  responseStartPending : Bool := false
  pendingResponseCancelReason : Option String := none
  activeResponseRequestId : Option Nat := none
  activeResponseHasAudio : Bool := false
  /-- `cancelled_response_request_id` with its reason. -/
  cancelledResponse : Option (Nat × String) := none
  finalizedResponseRequestId : Option Nat := none
  /-- `response_task.cancel()`, until it is thrown. -/
  cancelRequested : Bool := false
  sent : List (Nat × ResponseEvent) := []
  errors : List String := []
  /-- The turns for which a cancel came between the start of the turn and the claim of its terminal. -/
  asked : List Nat := []

inductive Event where
  | sessionUpdate (audio : Bool)
  | nextTurn
  | runResponse
  /-- `build_response_request` raises. -/
  | buildFails
  /-- The frame of the current send is written. -/
  | write
  /-- The current send returns. -/
  | sendReturns
  | chunk (c : Chunk)
  /-- The stream of chunks ends. -/
  | streamEnds
  | engineError
  /-- `CancelledError` is thrown into `run_response`. -/
  | interrupt
  /-- The terminal task has returned, and `run_response` leaves through its `finally`. -/
  | responseReturns
  | turnEnds
  | responseCancel
  | speechStarted (interruptResponse : Bool)

namespace Response

def text (r : Response) : String := String.join r.textAcc

/-- `chunk.text and (chunk.modality == "text" or not text_acc)`. -/
def sendsText (r : Response) (c : Chunk) : Bool := c.text ≠ "" && (c.isText || r.textAcc.isEmpty)

def sendsAudio (r : Response) (c : Chunk) : Bool := r.wantsAudio && c.isAudio && c.audioB64 ≠ ""

def sending (r : Response) (e : ResponseEvent) (c : Chunk) : Response :=
  { r with phase := .sending e c, written := false }

def streaming (r : Response) : Response := { r with phase := .streaming, written := false }

/-- The end of a chunk: its finish reason, and the terminal of its modality. -/
def afterAudio (r : Response) (c : Chunk) : Response :=
  let r := { r with finishReason := if c.isText then c.finishReason.getD r.finishReason else r.finishReason }
  if c.isText && c.finishReason.isSome && !r.textDone then r.sending (.textDone r.text) c
  else if r.wantsAudio && c.isAudio && c.finishReason.isSome && r.sawAudio && !r.audioDone then
    r.sending .audioDone c
  else r.streaming

def afterText (r : Response) (c : Chunk) : Response :=
  if r.sendsAudio c then { r with sawAudio := true }.sending (.audioDelta c.audioB64) c else r.afterAudio c

def onChunk (r : Response) (c : Chunk) : Response :=
  if r.sendsText c then { r with textAcc := r.textAcc ++ [c.text] }.sending (.textDelta c.text) c else r.afterText c

/-- The loop after a send of it has returned. -/
def afterSend (r : Response) (c : Chunk) : ResponseEvent → Response
  | .textDelta _ => r.afterText c
  | .audioDelta _ => r.afterAudio c
  | .textDone _ => { r with textDone := true }.streaming
  | .audioDone => { r with audioDone := true }.streaming
  | _ => r

/-- `emit_terminals`. -/
def terminals (r : Response) (text : String) (includeAudio : Bool) (status : Status) (reason : String)
    (error : Option String) : List Outgoing :=
  (if r.textDone then [] else [.event (.textDone text)]) ++
    (if includeAudio && r.sawAudio && !r.audioDone then [.event .audioDone] else []) ++
    error.toList.map .error ++ [.event (.done status reason text)]

end Response

namespace Session

/-- `cancel_active_response`. -/
def cancelActiveResponse (s : Session) (reason : String) : Session :=
  if s.responseStartPending then
    { s with pendingResponseCancelReason := some (s.pendingResponseCancelReason.getD reason) }
  else
    match s.activeResponseRequestId with
    | none => s
    | some n =>
      if s.finalizedResponseRequestId = some n || s.cancelledResponse.map Prod.fst = some n then s
      else { s with cancelledResponse := some (n, reason), cancelRequested := true }

/-- The current turn has not claimed its terminal yet. -/
def unclaimed (s : Session) : Bool :=
  match s.stage with
  | .starting | .unstarted => true
  | .running r => match r.phase with
    | .terminal _ => false
    | _ => true
  | _ => false

/-- A call of `cancel_active_response`, with the record that it came. -/
def cancel (s : Session) (reason : String) : Session :=
  { s.cancelActiveResponse reason with asked := if s.unclaimed then s.turn :: s.asked else s.asked }

/-- `response_has_audio` of `handle_vad_emit`. -/
def responseHasAudio (s : Session) : Bool :=
  s.activeResponseHasAudio || (s.responseStartPending && s.audioModality)

def setResponse (s : Session) (r : Response) : Session := { s with stage := .running r }

def isCancelled (s : Session) : Bool := s.cancelledResponse.map Prod.fst = some s.turn

def cancelReason (s : Session) : String := (s.cancelledResponse.map Prod.snd).getD "client_cancelled"

/-- `claim_terminal`, and the terminals that follow from what it returns. -/
def claim (s : Session) (r : Response) (todo : List Outgoing) : Session :=
  { s.setResponse { r with phase := .terminal todo, written := false } with
    finalizedResponseRequestId := some s.turn, cancelRequested := false }

/-- The section after `response.created`: a cancel that came before is the response's own. -/
def afterCreated (s : Session) (r : Response) : Session :=
  let started := { s with responseStartPending := false, pendingResponseCancelReason := none }
  match s.pendingResponseCancelReason with
  | none => started.setResponse r.streaming
  | some reason =>
    { started with cancelledResponse := some (s.turn, reason) }.claim r (r.terminals "" false .cancelled reason none)

def afterStream (s : Session) (r : Response) : Session :=
  if s.isCancelled then
    s.claim r (r.terminals r.text (r.wantsAudio && r.sawAudio) .cancelled s.cancelReason none)
  else if r.wantsAudio && !r.sawAudio then
    s.claim r (r.terminals r.text false .failed "audio_output_missing" (some "audio_output_missing"))
  else s.claim r (r.terminals r.text r.wantsAudio .completed r.finishReason none)

/-- `except Exception`. -/
def afterError (s : Session) (r : Response) : Session :=
  let includeAudio := r.wantsAudio && r.sawAudio
  if s.isCancelled then s.claim r (r.terminals r.text includeAudio .cancelled s.cancelReason none)
  else s.claim r (r.terminals r.text includeAudio .failed "error" (some "response_generation_failed"))

/-- `except asyncio.CancelledError`. -/
def afterInterrupt (s : Session) (r : Response) : Session :=
  s.claim r (r.terminals r.text (r.wantsAudio && r.sawAudio) .cancelled s.cancelReason none)

/-- The `finally` of `run_response`, which resets what is its own. -/
def release (s : Session) : Session :=
  let active := s.activeResponseRequestId = some s.turn
  { s with
    stage := .transcribing
    activeResponseRequestId := if active then none else s.activeResponseRequestId
    activeResponseHasAudio := if active then false else s.activeResponseHasAudio
    cancelledResponse := if s.isCancelled then none else s.cancelledResponse
    finalizedResponseRequestId :=
      if s.finalizedResponseRequestId = some s.turn then none else s.finalizedResponseRequestId }

def emit (s : Session) (e : ResponseEvent) : Session := { s with sent := s.sent ++ [(s.turn, e)] }

/-- The steps of `run_response`. -/
def stepResponse (s : Session) (r : Response) : Event → Session
  | .write =>
    match r.phase with
    | .creating => if r.written then s else (s.setResponse { r with written := true }).emit .created
    | .sending e _ =>
      if r.written || s.cancelRequested then s else (s.setResponse { r with written := true }).emit e
    | .terminal (.event e :: rest) => (s.setResponse { r with phase := .terminal rest }).emit e
    | .terminal (.error code :: rest) =>
      { s.setResponse { r with phase := .terminal rest } with errors := s.errors ++ [code] }
    | _ => s
  | .sendReturns =>
    match r.phase with
    | .creating => if r.written then s.afterCreated r else s
    | .sending e c => if r.written && !s.cancelRequested then s.setResponse (r.afterSend c e) else s
    | _ => s
  | .chunk c =>
    match r.phase with
    | .streaming => if s.isCancelled then s else s.setResponse (r.onChunk c)
    | _ => s
  | .streamEnds =>
    match r.phase with
    | .streaming => s.afterStream r
    | _ => s
  | .engineError =>
    match r.phase with
    | .streaming => s.afterError r
    | _ => s
  | .interrupt =>
    match r.phase with
    | .streaming | .sending _ _ => if s.cancelRequested then s.afterInterrupt r else s
    | _ => s
  | .responseReturns =>
    match r.phase with
    | .terminal [] => s.release
    | _ => s
  | _ => s

def step (s : Session) : Event → Session
  | .sessionUpdate audio => { s with audioModality := audio }
  | .nextTurn =>
    match s.stage with
    | .idle => { s with turn := s.turn + 1, stage := .starting, responseStartPending := true }
    | _ => s
  | .runResponse =>
    match s.stage with
    | .starting =>
      { s with
        stage := .running { wantsAudio := s.audioModality }
        activeResponseRequestId := some s.turn
        activeResponseHasAudio := s.audioModality }
    | _ => s
  | .buildFails =>
    match s.stage with
    | .starting => { s with stage := .unstarted }
    | _ => s
  | .turnEnds =>
    match s.stage with
    | .transcribing | .unstarted =>
      { s with stage := .idle, responseStartPending := false, pendingResponseCancelReason := none }
    | _ => s
  | .responseCancel => s.cancel "client_cancelled"
  | .speechStarted interruptResponse =>
    if s.responseHasAudio && interruptResponse then s.cancel "turn_detected" else s
  | e =>
    match s.stage with
    | .running r => s.stepResponse r e
    | _ => s

def runs (es : List Event) : Session := run step {} es

/-- The events that went out for a response. -/
def events (s : Session) (n : Nat) : List ResponseEvent :=
  s.sent.filterMap fun e => if e.1 = n then some e.2 else none

end Session
end SglangOmni.Serve.Realtime
