import SglangOmni.Proto.Messages
import Mathlib.Algebra.BigOperators.Group.Finset.Basic
import Mathlib.Data.Fintype.Basic

/-! Administrative operations of a tensor-parallel stage.

The leader passes an operation to its followers, runs it itself, and collects one result from
every follower's queue: one blocking `get` for each queue, in threads of its own, all with the
operation's timeout. `gather` ends with the first exception and leaves the other threads
where they are: their `get` still takes what it finds, for nobody. Operations are handled one
after the other, by the leader and by each follower.

The operations, the answers of a follower and the waits that ran out are kept for the proofs. -/
namespace SglangOmni.Pipeline.TpControl
open Lib Proto

/-! ### Followers -/

/-- The `get` of the running collect on a follower's queue. -/
inductive Get where
  | idle
  | pending
  | took (result : AdminResult)
  | timedOut

/-- A follower's work queue and result queue. `orphans` counts the threads that still wait for
a collect that is over. -/
structure Follower where
  work : List AdminOperation := []
  results : List AdminResult := []
  get : Get := .idle
  orphans : Nat := 0
  answered : List AdminResult := []
  timeouts : Nat := 0

/-- `fanout_control`. -/
def Follower.assign (op : AdminOperation) (w : Follower) : Follower := { w with work := w.work ++ [op] }

/-- The follower's `_on_admin`: its result has the operation's id. -/
def Follower.answer (result : AdminResult) (w : Follower) : Follower :=
  match w.work with
  | [] => w
  | op :: rest =>
    let result := { result with opId := op.opId, action := op.action }
    { w with work := rest, results := w.results ++ [result], answered := w.answered ++ [result] }

def Follower.await (w : Follower) : Follower := { w with get := .pending }

def Follower.take (w : Follower) : Follower :=
  match w.get, w.results with
  | .pending, result :: rest => { w with get := .took result, results := rest }
  | _, _ => w

/-- A `get` runs out only on an empty queue. -/
def Follower.expire (w : Follower) : Follower :=
  match w.get, w.results with
  | .pending, [] => { w with get := .timedOut, timeouts := w.timeouts + 1 }
  | _, _ => w

def Follower.orphanTake (w : Follower) : Follower :=
  match w.orphans, w.results with
  | orphans + 1, _ :: rest => { w with orphans, results := rest }
  | _, _ => w

def Follower.orphanExpire (w : Follower) : Follower :=
  match w.orphans, w.results with
  | orphans + 1, [] => { w with orphans, timeouts := w.timeouts + 1 }
  | _, _ => w

/-- The end of the collect, for the follower's thread. -/
def Follower.abandon (w : Follower) : Follower :=
  match w.get with
  | .pending => { w with get := .idle, orphans := w.orphans + 1 }
  | _ => { w with get := .idle }

/-! ### Collecting -/

def Get.isTimedOut : Get → Bool
  | .timedOut => true
  | _ => false

def Get.result? : Get → Option AdminResult
  | .took result => some result
  | _ => none

/-- The checks of `collect_admin_results` on what was taken. -/
def checkResults (opId : String) : List AdminResult → Except String (List AdminResult)
  | [] => .ok []
  | r :: rest =>
    if r.opId ≠ opId then .error ("Unexpected TP follower admin op id: " ++ r.opId ++ " != " ++ opId)
    else (checkResults opId rest).map (r :: ·)

/-- What `gather` comes to, once it does; `queue.Empty` has no text. -/
def collectAdminResults (opId : String) (gets : List Get) : Option (Except String (List AdminResult)) :=
  if gets.any Get.isTimedOut then some (.error "") else (gets.mapM Get.result?).map (checkResults opId)

/-- An operation that was reported: the leader's own result and what was collected. -/
structure Report where
  operation : AdminOperation
  own : AdminResult
  collected : Except String (List AdminResult)
  timeouts : Nat

/-- The leader's result as it is reported. -/
def Report.local (r : Report) : AdminResult :=
  match r.collected with
  | .ok _ => r.own
  | .error e =>
    { r.own with success := false, error := .str e, message := "failed to collect TP follower admin results" }

def Report.rankResults (r : Report) : List AdminResult :=
  r.local :: match r.collected with
    | .ok results => results
    | .error _ => []

/-- The errors that are not empty; an error is a string or `None`. -/
def errorTexts (results : List AdminResult) : List String :=
  results.filterMap fun r => match r.error with
    | .str s => if s = "" then none else some s
    | _ => none

/-- What `_on_admin` sends to the coordinator. -/
def Report.result (r : Report) (stage : String) (role : Value) : AdminResult :=
  let success := r.rankResults.all (·.success)
  let errors := "; ".intercalate (errorTexts r.rankResults)
  { opId := r.operation.opId
    stage
    action := r.operation.action
    success
    message := if success then r.local.message else if errors = "" then r.local.message else errors
    data := setEntries "rank_results" (.list (r.rankResults.map fun item => .dict item.toDict))
      (setEntries "tp_size" (.int r.rankResults.length) r.local.data)
    error := if success then .none else if errors = "" then r.local.error else .str errors
    rank := .int 0
    role }

/-! ### The stage -/

inductive Phase where
  | idle
  | running (op : AdminOperation)
  | collecting (op : AdminOperation) (own : AdminResult)

structure State (n : Nat) where
  phase : Phase
  followers : Fin n → Follower
  reports : List Report
  ops : List AdminOperation

def State.create (n : Nat) : State n := ⟨.idle, fun _ => {}, [], []⟩

inductive Event (n : Nat) where
  /-- The coordinator's message reaches the leader. -/
  | admin (op : AdminOperation)
  /-- The leader's own run ends, and it starts to collect. -/
  | ownDone (result : AdminResult)
  | answer (follower : Fin n) (result : AdminResult)
  | take (follower : Fin n)
  | expire (follower : Fin n)
  | orphanTake (follower : Fin n)
  | orphanExpire (follower : Fin n)
  /-- The leader's turn after `gather`. -/
  | gathered

variable {n : Nat}

def State.onFollower (s : State n) (follower : Fin n) (f : Follower → Follower) : State n :=
  { s with followers := Function.update s.followers follower (f (s.followers follower)) }

def State.onFollowers (s : State n) (f : Follower → Follower) : State n :=
  { s with followers := fun i => f (s.followers i) }

/-- The waits that ran out so far. -/
def State.timeouts (s : State n) : Nat := ∑ i, (s.followers i).timeouts

def State.gets (s : State n) : List Get := List.ofFn fun i => (s.followers i).get

def report (s : State n) (op : AdminOperation) (own : AdminResult)
    (collected : Except String (List AdminResult)) : State n :=
  { s.onFollowers Follower.abandon with
    phase := .idle, reports := s.reports ++ [⟨op, own, collected, s.timeouts⟩] }

def step (s : State n) : Event n → State n
  | .admin op =>
    match s.phase with
    | .idle => { s.onFollowers (·.assign op) with phase := .running op, ops := s.ops ++ [op] }
    | _ => s
  | .ownDone result =>
    match s.phase with
    | .running op => { s.onFollowers Follower.await with phase := .collecting op result }
    | _ => s
  | .answer follower result => s.onFollower follower (·.answer result)
  | .take follower => s.onFollower follower Follower.take
  | .expire follower => s.onFollower follower Follower.expire
  | .orphanTake follower => s.onFollower follower Follower.orphanTake
  | .orphanExpire follower => s.onFollower follower Follower.orphanExpire
  | .gathered =>
    match s.phase with
    | .collecting op own =>
      match collectAdminResults op.opId s.gets with
      | none => s
      | some collected => report s op own collected
    | _ => s

def run (s : State n) (events : List (Event n)) : State n := events.foldl step s

end SglangOmni.Pipeline.TpControl
