import SglangOmni.Lib.BoundedSet
import SglangOmni.Lib.Dict
import SglangOmni.Lib.History

/-! The receiving side of the comm engine: reservations for inbound KV transfers.

A prepare message reserves destination pages, a `DataReady` starts a task that copies
into them and commits, and `cleanup` and `close` abort what has not been copied. Tasks
come from the engine's own rank control loop (`rank`) or from its stage, which ends its
tasks before it closes the engine. The code between two suspensions is one step; how a
suspension ends comes with the event. `commit` does not raise, and what `abort` raises
is suppressed.

The log is for the proofs: it has, newest first, what the receiver sees of each
reservation, and the cleanups with the tombstones they record and drop. -/
namespace SglangOmni.Comm.KvReceive
open Lib

/-! ### State -/

/-- `n` is the number of the reservation, in the order they were made. -/
inductive Entry where
  | reserved (n : Nat) (requestId : String)
  | committed (n : Nat) (requestId : String)
  | aborted (n : Nat) (requestId : String)
  | cleanedUp (requestId : String)
  | evicted (requestId : String)
  deriving DecidableEq

/-- `_InboundKVTransfer`. -/
structure Inbound where
  requestId : String
  transferId : String
  copyStarted : Bool := false
  abortError : Bool := false
  deriving DecidableEq

/-- Where a reading task stands: not started, in `get_kv_pages` or in
`wait_for_completion` for a reservation, or past the read. -/
inductive At where
  | created
  | fetching (n : Nat)
  | completing (n : Nat)
  | done
  deriving DecidableEq

structure Read where
  requestId : String
  transferId : String
  rank : Bool
  pc : At
  deriving DecidableEq

inductive Phase where
  | running
  | closing
  | closed
  deriving DecidableEq

structure State where
  inboundKv : Dict String Nat
  transfers : Nat → Option Inbound
  nextTransfer : Nat
  abortedKvRequests : List String
  reads : List Read
  rankControl : Bool
  phase : Phase
  log : List Entry

def State.create : State where
  inboundKv := ∅
  transfers := fun _ => none
  nextTransfer := 0
  abortedKvRequests := []
  reads := []
  rankControl := true
  phase := .running
  log := []

def State.setTransfer (s : State) (n : Nat) (t : Inbound) : State :=
  { s with transfers := Function.update s.transfers n (some t) }

def State.setRead (s : State) (c : Nat) (read : Read) : State :=
  { s with reads := s.reads.set c read }

/-! ### Prepare -/

/-- How `prepare_kv_receive` goes: no receiver for the pool or the wrong transport,
`reserve` raises, a check after it raises, or all is well. -/
inductive Outcome where
  | rejected
  | reserveFails
  | checkFails
  | accepted
  deriving DecidableEq

/-- The rank control loop's prepare message. A duplicate raises, which ends the loop. -/
def prepareKvReceive (s : State) (requestId transferId : String) (outcome : Outcome) : State :=
  if requestId ∈ s.abortedKvRequests then s
  else if s.inboundKv.contains transferId then { s with rankControl := false }
  else
    let n := s.nextTransfer
    match outcome with
    | .rejected => s
    | .reserveFails => s
    | .checkFails =>
      { s with
        nextTransfer := n + 1
        log := .aborted n requestId :: .reserved n requestId :: s.log }
    | .accepted =>
      { s.setTransfer n { requestId, transferId } with
        nextTransfer := n + 1
        inboundKv := s.inboundKv.set transferId n
        log := .reserved n requestId :: s.log }

/-! ### Cleanup and close -/

def cleanupOne (requestId : String) (s : State) (e : String × Nat) : State :=
  match s.transfers e.2 with
  | none => s
  | some t =>
    if t.requestId ≠ requestId then s
    else if t.copyStarted then s.setTransfer e.2 { t with abortError := true }
    else
      { s with
        inboundKv := s.inboundKv.pop e.1
        log := .aborted e.2 t.requestId :: s.log }

/-- The tombstone that `cleanup` leaves; `hint` for the iteration order of the set. -/
def recordAborted (s : State) (requestId : String) (hint : List String) : State :=
  { s with
    abortedKvRequests := record 10000 5000 hint s.abortedKvRequests requestId
    log := (dropped 10000 5000 hint s.abortedKvRequests requestId).map .evicted ++
      .cleanedUp requestId :: s.log }

/-- The inbound part of `cleanup`. -/
def cleanup (s : State) (requestId : String) (hint : List String) : State :=
  s.inboundKv.entries.foldl (cleanupOne requestId) (recordAborted s requestId hint)

/-- The end of `close`, when its tasks are gone. -/
def closeOne (s : State) (e : String × Nat) : State :=
  match s.transfers e.2 with
  | none => s
  | some t => { s with log := .aborted e.2 t.requestId :: s.log }

def closeFinishes (s : State) : State :=
  { s.inboundKv.entries.foldl closeOne s with
    inboundKv := ∅
    abortedKvRequests := []
    phase := .closed }

/-! ### Reads -/

/-- A read that raised; only the rank control loop's task cleans up by itself, and not
when it is cancelled. -/
def readRaises (s : State) (c : Nat) (read : Read) (cancelled : Bool) (hint : List String) : State :=
  let s := s.setRead c { read with pc := .done }
  if read.rank && !cancelled then cleanup s read.requestId hint else s

/-- The `except` and the `finally` of `_read_kv_pages`. -/
def readFails (s : State) (c n : Nat) (read : Read) (cancelled : Bool) (hint : List String) : State :=
  match s.transfers n with
  | none => s
  | some t =>
    readRaises
      { s with
        inboundKv := s.inboundKv.pop read.transferId
        log := .aborted n t.requestId :: s.log }
      c read cancelled hint

/-- A reading task up to its first suspension; `valid` when its transport is the right
one. -/
def readStarts (s : State) (c : Nat) (read : Read) (valid : Bool) (hint : List String) : State :=
  if read.rank && read.requestId ∈ s.abortedKvRequests then s.setRead c { read with pc := .done }
  else if valid = false then readRaises s c read false hint
  else
    match s.inboundKv.get? read.transferId with
    | none => readRaises s c read false hint
    | some n =>
      match s.transfers n with
      | none => s
      | some t =>
        (s.setTransfer n { t with copyStarted := true }).setRead c { read with pc := .fetching n }

/-- The copy is complete. -/
def readCompletes (s : State) (c n : Nat) (read : Read) (hint : List String) : State :=
  match s.transfers n with
  | none => s
  | some t =>
    if t.abortError then readFails s c n read false hint
    else
      { s.setRead c { read with pc := .done } with
        inboundKv := s.inboundKv.pop read.transferId
        log := .committed n t.requestId :: s.log }

/-! ### Events -/

inductive Event where
  | prepare (requestId transferId : String) (outcome : Outcome)
  | dataReady (requestId transferId : String) (rank : Bool)
  | readStarts (c : Nat) (valid : Bool) (hint : List String)
  | readResumes (c : Nat) (hint : List String)
  | readRaises (c : Nat) (cancelled : Bool) (hint : List String)
  | cleanup (requestId : String) (hint : List String)
  | close
  | closeFinishes
  deriving DecidableEq

def onRead (s : State) (c : Nat) (act : Read → State) : State :=
  match s.reads[c]? with
  | none => s
  | some read => act read

/-- The engine's step; an event that cannot happen leaves the state as it is. -/
def step (s : State) : Event → State
  | .prepare requestId transferId outcome =>
    if s.phase = .running ∧ s.rankControl = true then prepareKvReceive s requestId transferId outcome
    else s
  | .dataReady requestId transferId rank =>
    if s.phase = .running ∧ (rank = true → s.rankControl = true) then
      { s with reads := s.reads ++ [{ requestId, transferId, rank, pc := .created }] }
    else s
  | .readStarts c valid hint =>
    onRead s c fun read => if read.pc = .created then readStarts s c read valid hint else s
  | .readResumes c hint =>
    onRead s c fun read =>
      match read.pc with
      | .fetching n => s.setRead c { read with pc := .completing n }
      | .completing n => readCompletes s c n read hint
      | .created | .done => s
  | .readRaises c cancelled hint =>
    onRead s c fun read =>
      match read.pc with
      -- a task cancelled before its first step never reads
      | .created => if cancelled then s.setRead c { read with pc := .done } else s
      | .fetching n | .completing n => readFails s c n read cancelled hint
      | .done => s
  | .cleanup requestId hint => cleanup s requestId hint
  | .close =>
    if s.phase = .running ∧ s.reads.all (fun read => read.rank || read.pc = .done) then
      { s with phase := .closing, rankControl := false }
    else s
  | .closeFinishes =>
    if s.phase = .closing ∧ s.reads.all (fun read => read.pc = .done) then closeFinishes s else s

/-- The transfer that a `DataReady` announces. -/
def Event.announced : Event → Option String
  | .dataReady _ transferId _ => some transferId
  | _ => none

/-- The transfer that a prepare message is about. -/
def Event.prepared : Event → Option String
  | .prepare _ transferId _ => some transferId
  | _ => none

end SglangOmni.Comm.KvReceive
