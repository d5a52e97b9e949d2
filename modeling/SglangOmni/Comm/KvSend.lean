import SglangOmni.Lib.Dict
import SglangOmni.Lib.History

/-! The sending side of the comm engine: paged KV transfers and their leases.

A KV transfer pins its source pages with a lease. `send_kv_pages` owns the lease until
it registers the transfer, from there on the pending record does, and a watcher task
ends the record. Payload and stream transfers go through the same pending table
without a lease. The code between two suspensions is one step; how a suspension ends
comes with the event. Exceptions are told apart only as far as the code does: a
cancellation from any other.

The log is for the proofs: it has, newest first, what the peer and the owner of the
pages see: a `DataReady` that may be on its way, a `DataAck` that came in, and a
release of the lease. -/
namespace SglangOmni.Comm.KvSend
open Lib

/-! ### State -/

inductive Entry where
  | exposed (c : Nat) (objectId : String)
  | acked (objectId : String)
  | released (c : Nat)
  deriving DecidableEq

/-- The future of a `KVTransferReadyMessage`. -/
inductive Ready where
  | waiting
  | ready (success : Bool)
  | exception
  deriving DecidableEq

/-- The future of a `DataAckMessage`. -/
inductive Ack where
  | waiting
  | ok
  | failed (cancelled : Bool)
  deriving DecidableEq

/-- The watcher task of a pending transfer: not armed, waiting for the ack, waiting for
the operations after an ack or after a failure, or ended. -/
inductive Watch where
  | unarmed
  | waiting
  | completing
  | failing
  | finished
  deriving DecidableEq

/-- `_PendingTransfer`. -/
structure Pending where
  objectId : String
  ack : Ack := .waiting
  task : Watch := .unarmed
  lease : Bool
  retainPendingOnFailure : Bool
  receiverTerminal : Bool := false
  deriving DecidableEq

inductive Kind where
  | kvPages
  | data
  deriving DecidableEq

inductive Phase where
  | preparing
  | awaitingReady
  | putting
  | publishing
  | awaitingWatch
  | done
  deriving DecidableEq

/-- One call of `send_kv_pages`, or of a payload or stream send; `lease` while the call
itself owns it. -/
structure Send where
  kind : Kind
  requestId : String
  transferId : String
  lease : Bool
  phase : Phase
  deriving DecidableEq

/-- The tables; a pending record and a ready future have the number of their call. -/
structure State where
  kvReady : Dict String Nat
  outboundKvRequests : Dict String String
  pending : Dict String Nat
  retainedPendingKvTransfers : List Nat
  readyFutures : Nat → Ready
  pendings : Nat → Option Pending
  sends : Nat → Option Send
  nextSend : Nat
  log : List Entry

def State.create : State where
  kvReady := ∅
  outboundKvRequests := ∅
  pending := ∅
  retainedPendingKvTransfers := []
  readyFutures := fun _ => .waiting
  pendings := fun _ => none
  sends := fun _ => none
  nextSend := 0
  log := []

def State.setSend (s : State) (c : Nat) (send : Send) : State :=
  { s with sends := Function.update s.sends c (some send) }

def State.setPending (s : State) (c : Nat) (p : Pending) : State :=
  { s with pendings := Function.update s.pendings c (some p) }

/-! ### Pending transfers -/

/-- `_register_pending`, `none` for a duplicate. The `DataReady` goes out next. -/
def registerPending (s : State) (c : Nat) (p : Pending) : Option State :=
  if s.pending.contains p.objectId then none
  else
    some
      { s.setPending c p with
        pending := s.pending.set p.objectId c
        log := .exposed c p.objectId :: s.log }

/-- `_arm_pending`, `none` for the `KeyError` of a transfer that is gone and the failed
assertion of one that is armed. -/
def armPending (s : State) (objectId : String) : Option State :=
  match s.pending.get? objectId with
  | none => none
  | some c =>
    match s.pendings c with
    | none => none
    | some p => if p.task = .unarmed then some (s.setPending c { p with task := .waiting }) else none

def failPending (s : State) (objectId : String) (cancelled : Bool) : State :=
  match s.pending.get? objectId with
  | none => s
  | some c =>
    match s.pendings c with
    | none => s
    | some p =>
      s.setPending c
        { p with
          ack := if p.ack = .waiting then .failed cancelled else p.ack
          task := if p.task = .unarmed then .waiting else p.task }

/-- A release of the lease, when there is one. -/
def release (log : List Entry) (lease : Bool) (c : Nat) : List Entry :=
  if lease then .released c :: log else log

/-- `_retain_pending_kv_transfer`: the record keeps its lease. -/
def retainPendingKvTransfer (s : State) (c : Nat) (p : Pending) : State :=
  { s.setPending c { p with task := .finished } with
    pending := s.pending.pop p.objectId
    retainedPendingKvTransfers := s.retainedPendingKvTransfers ++ [c] }

/-- The `finally` of a watcher that does not retain its transfer. -/
def endWatch (s : State) (c : Nat) (p : Pending) : State :=
  { s.setPending c { p with task := .finished } with
    pending := s.pending.pop p.objectId
    log := release s.log p.lease c }

/-- A watcher that got an exception. A local failure is no proof that the peer stopped
reading. -/
def watchFails (s : State) (c : Nat) (p : Pending) (cancelled : Bool) : State :=
  if p.retainPendingOnFailure && !p.receiverTerminal then retainPendingKvTransfer s c p
  else if cancelled then endWatch s c p
  else s.setPending c { p with task := .failing }

/-- `wait_for` cancels the future that it gives up; a record that may be retained shields its own. -/
def Pending.cancelAck (p : Pending) : Pending :=
  if p.retainPendingOnFailure || p.ack ≠ .waiting then p else { p with ack := .failed true }

/-- The watcher's `wait_for` is over before the ack future is done. -/
def watchGivesUp (s : State) (c : Nat) (p : Pending) (cancelled : Bool) : State :=
  watchFails (s.setPending c p.cancelAck) c p.cancelAck cancelled

/-- The watcher's `wait_for` is over because the ack future is done. -/
def watchAck (s : State) (c : Nat) (p : Pending) : State :=
  match p.ack with
  | .waiting => s
  | .ok => s.setPending c { p with task := .completing }
  | .failed cancelled => watchFails s c p cancelled

/-- `ack_transfer`; a failure without a text raises before it changes anything. -/
def ackTransfer (s : State) (objectId : String) (success : Bool) (hasError : Bool) : State :=
  let s := { s with log := .acked objectId :: s.log }
  match s.pending.get? objectId with
  | none => s
  | some c =>
    match s.pendings c with
    | none => s
    | some p =>
      if success then
        s.setPending c
          { p with receiverTerminal := true, ack := if p.ack = .waiting then .ok else p.ack }
      else if hasError then
        s.setPending c
          { p with receiverTerminal := true, ack := if p.ack = .waiting then .failed false else p.ack }
      else s

/-! ### Sends -/

/-- The `finally` of a send. It pops the transfer's entries even if they are another
send's under the same id. -/
def finishSend (s : State) (c : Nat) (send : Send) : State :=
  let s := s.setSend c { send with phase := .done, lease := false }
  let s := { s with log := release s.log send.lease c }
  match send.kind with
  | .kvPages =>
    { s with
      kvReady := s.kvReady.pop send.transferId
      outboundKvRequests := s.outboundKvRequests.pop send.transferId }
  | .data => s

/-- `send_kv_pages` up to its first suspension; `valid` when the pool, the page indices
and the transport pass their checks. -/
def sendKvPages (s : State) (requestId transferId : String) (lease valid : Bool) : State :=
  let c := s.nextSend
  let send : Send := { kind := .kvPages, requestId, transferId, lease, phase := .preparing }
  let s : State := { s.setSend c send with nextSend := c + 1 }
  if valid = false ∨ s.kvReady.contains transferId ∨ s.pending.contains transferId then finishSend s c send
  else
    { s with
      kvReady := s.kvReady.set transferId c
      readyFutures := Function.update s.readyFutures c .waiting
      outboundKvRequests := s.outboundKvRequests.set transferId requestId }

/-- The record of a send's transfer; only KV transfers are retained on failure. -/
def Send.record (send : Send) : Pending where
  objectId := send.transferId
  lease := send.lease
  retainPendingOnFailure := send.kind = .kvPages

/-- A send raises when its object is with the relay. The handler of a payload or stream
send fails whatever is pending under its id. -/
def sendRaises (s : State) (c : Nat) (send : Send) : State :=
  match send.kind with
  | .kvPages => finishSend s c send
  | .data => finishSend (failPending s send.transferId false) c send

/-- The send registers its transfer and publishes it; from here on the record owns the
lease. -/
def registerSend (s : State) (c : Nat) (send : Send) : State :=
  match registerPending s c send.record with
  | none => sendRaises s c send
  | some s => s.setSend c { send with phase := .publishing, lease := false }

/-- A payload or stream send, whose data is already with the relay. -/
def sendData (s : State) (requestId transferId : String) : State :=
  let c := s.nextSend
  let send : Send := { kind := .data, requestId, transferId, lease := false, phase := .putting }
  registerSend { s.setSend c send with nextSend := c + 1 } c send

def readyWakes (s : State) (c : Nat) (send : Send) : State :=
  match s.readyFutures c with
  | .waiting => s
  | .ready true => s.setSend c { send with phase := .putting }
  | .ready false => finishSend s c send
  | .exception => finishSend s c send

def published (s : State) (c : Nat) (send : Send) : State :=
  match armPending s send.transferId with
  | none => sendRaises s c send
  | some s =>
    match send.kind with
    | .kvPages => s.setSend c { send with phase := .awaitingWatch }
    | .data => finishSend s c send

def publishFailed (s : State) (c : Nat) (send : Send) (cancelled : Bool) : State :=
  finishSend (failPending s send.transferId cancelled) c send

def kvTransferReady (s : State) (transferId : String) (success : Bool) : State :=
  match s.kvReady.get? transferId with
  | none => s
  | some c =>
    if s.readyFutures c = .waiting then
      { s with readyFutures := Function.update s.readyFutures c (.ready success) }
    else s

/-! ### Cleanup and close -/

def failReady (s : State) (transferId : String) : State :=
  match s.kvReady.get? transferId with
  | none => s
  | some c =>
    if s.readyFutures c = .waiting then
      { s with readyFutures := Function.update s.readyFutures c .exception }
    else s

def cleanupOne (requestId : String) (s : State) (e : String × String) : State :=
  if e.2 ≠ requestId then s else failPending (failReady s e.1) e.1 false

/-- The outbound part of `cleanup`. -/
def cleanup (s : State) (requestId : String) : State :=
  s.outboundKvRequests.entries.foldl (cleanupOne requestId) s

/-- The outbound part of `close`. -/
def close (s : State) : State :=
  let s := s.pending.keys.foldl (fun s objectId => failPending s objectId false) s
  let s := s.kvReady.keys.foldl failReady s
  { s with kvReady := ∅, outboundKvRequests := ∅ }

/-! ### Events -/

inductive Event where
  | sendKvPages (requestId transferId : String) (lease valid : Bool)
  | sendData (requestId transferId : String)
  | prepared (c : Nat)
  | readyWakes (c : Nat)
  | putDone (c : Nat)
  | sendFailed (c : Nat)
  | published (c : Nat)
  | publishFailed (c : Nat) (cancelled : Bool)
  | callerLeaves (c : Nat)
  | kvTransferReady (transferId : String) (success : Bool)
  | ackTransfer (objectId : String) (success hasError : Bool)
  | ackWakes (c : Nat)
  | ackTimesOut (c : Nat)
  | watchCancelled (c : Nat)
  | operationsDone (c : Nat)
  | operationsFailed (c : Nat)
  | cleanup (requestId : String)
  | close
  deriving DecidableEq

def onSend (s : State) (c : Nat) (phases : List Phase) (act : Send → State) : State :=
  match s.sends c with
  | none => s
  | some send => if send.phase ∈ phases then act send else s

def onWatch (s : State) (c : Nat) (tasks : List Watch) (act : Pending → State) : State :=
  match s.pendings c with
  | none => s
  | some p => if p.task ∈ tasks then act p else s

/-- The engine's step; an event that cannot happen leaves the state as it is. -/
def step (s : State) : Event → State
  | .sendKvPages requestId transferId lease valid => sendKvPages s requestId transferId lease valid
  | .sendData requestId transferId => sendData s requestId transferId
  | .prepared c =>
    onSend s c [.preparing] fun send => s.setSend c { send with phase := .awaitingReady }
  | .readyWakes c => onSend s c [.awaitingReady] (readyWakes s c)
  | .putDone c => onSend s c [.putting] (registerSend s c)
  | .sendFailed c => onSend s c [.preparing, .awaitingReady, .putting] (finishSend s c)
  | .published c => onSend s c [.publishing] (published s c)
  | .publishFailed c cancelled =>
    onSend s c [.publishing] fun send => publishFailed s c send cancelled
  | .callerLeaves c => onSend s c [.awaitingWatch] (finishSend s c)
  | .kvTransferReady transferId success => kvTransferReady s transferId success
  | .ackTransfer objectId success hasError => ackTransfer s objectId success hasError
  | .ackWakes c => onWatch s c [.waiting] (watchAck s c)
  | .ackTimesOut c => onWatch s c [.waiting] fun p => watchGivesUp s c p false
  | .watchCancelled c =>
    onWatch s c [.waiting, .completing, .failing] fun p =>
      if p.task = .failing then endWatch s c p
      else if p.task = .waiting then watchGivesUp s c p true
      else watchFails s c p true
  | .operationsDone c => onWatch s c [.completing, .failing] (endWatch s c)
  | .operationsFailed c => onWatch s c [.completing] fun p => watchFails s c p false
  | .cleanup requestId => cleanup s requestId
  | .close => close s

end SglangOmni.Comm.KvSend
