import SglangOmni.Lib.Dict
import SglangOmni.Lib.History
import SglangOmni.Lib.Raising
import SglangOmni.Lib.Releases

/-! The streaming detokenizer of Qwen3-Omni.

Tokens come from the thinker one at a time, and their text goes out as soon as it ends in a whole character. A request
has a payload and a stream, and whichever message comes first makes its entry in `_state`; an end of the stream that
comes before any other message is noted in `_done_seen`, which is bounded. What a handler raises is caught for each
message: the entry is dropped, and an error is put for the request. -/
namespace SglangOmni.Models.Qwen3Omni.Detokenizer
open Lib

abbrev Text := List Char

def replacement : Char := '\uFFFD'

/-- What the scheduler calls. -/
structure Calls (P R E : Type) where
  /-- `tokenizer.decode`, with `skip_special_tokens`. -/
  decode : List Int → Text
  /-- The parameter `stream` of the request of a payload. -/
  isStreaming : P → Except E Bool
  /-- `_build_result`. -/
  buildResult : P → Bool → R

/-- What the calls raise while one message is handled. -/
structure Faults (E : Type) where
  decode : Option E := none
  result : Option E := none
  deriving DecidableEq

inductive Message (P E : Type) where
  | newRequest (payload : P)
  /-- A token, or what `int` raises on what came in its place. -/
  | streamChunk (item : Except E Int)
  | streamDone

inductive Outgoing (P R E : Type) where
  | stream (text : Text)
  | result (payload : P) (data : R)
  | error (e : E)
  deriving DecidableEq

/-- `_RequestState`. -/
structure RequestState (P : Type) where
  pendingTokens : List Int := []
  payload : Option P := none
  done : Bool := false

structure Scheduler (K P R E : Type) where
  state : Dict K (RequestState P) := ∅
  doneSeen : Dict K Unit := ∅
  outbox : List (K × Outgoing P R E) := []

/-- `_DONE_SEEN_MAX`. -/
def doneSeenMax : Nat := 10000

/-- `_DONE_SEEN_EVICT_TO`. -/
def doneSeenEvictTo : Nat := 5000

/-- The methods of the scheduler. -/
abbrev Program (K P R E : Type) := EStateM E (Scheduler K P R E)

section
variable {K P R E : Type} [DecidableEq K]

/-- `outbox.put`. -/
def put (requestId : K) (out : Outgoing P R E) : Program K P R E PUnit :=
  modify fun s => { s with outbox := s.outbox ++ [(requestId, out)] }

/-- A delta, if there is text. -/
def putText (requestId : K) (text : Text) : Program K P R E PUnit :=
  if text = [] then pure ⟨⟩ else put requestId (.stream text)

def setState (requestId : K) (st : RequestState P) : Program K P R E PUnit :=
  modify fun s => { s with state := s.state.set requestId st }

def abort (requestId : K) : Program K P R E PUnit :=
  modify fun s => { s with state := s.state.pop requestId, doneSeen := s.doneSeen.pop requestId }

def raiseIf {σ : Type} : Option E → EStateM E σ PUnit
  | some e => throw e
  | none => pure ⟨⟩

variable (calls : Calls P R E) (faults : Faults E)

/-- The tokens that are left, when a request is over. -/
def flushPending (requestId : K) (st : RequestState P) : Program K P R E PUnit :=
  if st.pendingTokens = [] then pure ⟨⟩
  else do
    raiseIf faults.decode
    putText requestId (calls.decode st.pendingTokens)

/-- The terminal message. -/
def putResult (requestId : K) (payload : P) : Program K P R E PUnit := do
  let isStreaming ← fromExcept id (calls.isStreaming payload)
  raiseIf faults.result
  put requestId (.result payload (calls.buildResult payload isStreaming))

/-- `_finalize`. -/
def finalize (requestId : K) : Program K P R E PUnit := do
  let s ← get
  abort requestId
  match s.state.get? requestId with
  | none => pure ⟨⟩
  | some st =>
    match st.payload with
    | none => pure ⟨⟩
    | some payload => do
      flushPending calls faults requestId st
      putResult calls faults requestId payload

/-- `_on_stream_chunk`. -/
def onStreamChunk (requestId : K) (item : Except E Int) : Program K P R E PUnit := do
  let tokenId ← fromExcept id item
  let s ← get
  let st := (s.state.get? requestId).getD {}
  let pendingTokens := st.pendingTokens ++ [tokenId]
  setState requestId { st with pendingTokens := pendingTokens }
  raiseIf faults.decode
  let candidate := calls.decode pendingTokens
  if replacement ∈ candidate then pure ⟨⟩
  else do
    setState requestId { st with pendingTokens := [] }
    putText requestId candidate

/-- The end of a stream is noted, and the oldest notes are dropped where there are too many. -/
def latch (requestId : K) : Program K P R E PUnit :=
  modify fun s =>
    let seen := s.doneSeen.set requestId ()
    { s with doneSeen := if doneSeenMax < seen.length then seen.drop (seen.length - doneSeenEvictTo) else seen }

/-- `_on_stream_done`. -/
def onStreamDone (requestId : K) : Program K P R E PUnit := do
  let s ← get
  match s.state.get? requestId with
  | none => latch requestId
  | some st => do
    setState requestId { st with done := true }
    if st.payload.isSome then finalize calls faults requestId else pure ⟨⟩

/-- `_on_new_request`. -/
def onNewRequest (requestId : K) (payload : P) : Program K P R E PUnit := do
  let s ← get
  let st := (s.state.get? requestId).getD {}
  let done := st.done || s.doneSeen.contains requestId
  set { s with
    state := s.state.set requestId { st with payload := some payload, done := done }
    doneSeen := s.doneSeen.pop requestId }
  let isStreaming ← fromExcept id (calls.isStreaming payload)
  if done || !isStreaming then finalize calls faults requestId else pure ⟨⟩

/-- The handler of a message, as the loop of `start` chooses it. -/
def dispatch (requestId : K) : Message P E → Program K P R E PUnit
  | .newRequest payload => onNewRequest calls faults requestId payload
  | .streamChunk item => onStreamChunk calls faults requestId item
  | .streamDone => onStreamDone calls faults requestId

/-- One message in the loop of `start`. -/
def handleMessage (requestId : K) (msg : Message P E) : Program K P R E PUnit :=
  catching (dispatch calls faults requestId msg) fun e => do
    abort requestId
    put requestId (.error e)

inductive Event (K P E : Type) where
  | message (requestId : K) (msg : Message P E) (faults : Faults E)
  | abort (requestId : K)

namespace Scheduler

def step (s : Scheduler K P R E) : Event K P E → Scheduler K P R E
  | .message requestId msg faults => stateOf (handleMessage calls faults requestId msg s)
  | .abort requestId => stateOf (abort requestId s)

/-- What was put for one request. -/
def outboxOf (s : Scheduler K P R E) (requestId : K) : List (Outgoing P R E) :=
  s.outbox.filterMap fun e => if e.1 = requestId then some e.2 else none

end Scheduler

end

end SglangOmni.Models.Qwen3Omni.Detokenizer
