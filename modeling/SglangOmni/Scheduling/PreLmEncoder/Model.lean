import SglangOmni.Lib.History

/-! The service that runs encoder hooks on a worker thread behind a queue.

Every `_submit` is a thread of its own: it looks for a failed worker, puts its entry into the queue, looks again, and
completes its future itself when the worker has failed. The worker takes batches, executes them, completes the futures,
and on a failure of its own goes through `_fail_worker`. The sections under the lock are one event each, and so are the
done check of `_submit` and the completion that follows it. Hooks raise `Exception`s, with the events. Shutdown is left
out, and no `_next_batch` raises once it has taken an entry. -/
namespace SglangOmni.Scheduling.PreLmEncoder
open Lib

structure Service (M R E : Type) where
  /-- 0 for a queue without a bound. -/
  maxQueueSize : Nat
  /-- `_future_result`. -/
  futureResult : M → Except E R
  /-- Another number of embeddings than items. -/
  cardinalityError : E

inductive Phase (E : Type) where
  /-- Before the first section under the lock. -/
  | checking
  /-- In `_enqueue`. -/
  | putting
  /-- The entry is in the queue; before the second section. -/
  | reading
  /-- The worker has failed; before `future.done()`. -/
  | deciding (workerError : E)
  /-- The future was not done; before `set_exception`. -/
  | setting (workerError : E)
  | returned
  /-- Raised "pre-LM encoder worker has failed". -/
  | rejected
  /-- Raised `InvalidStateError`. -/
  | invalid
  deriving DecidableEq

/-- A call of `_submit` and its future. -/
structure Submission (Item R E : Type) where
  item : Item
  phase : Phase E := .checking
  future : Option (Except E R) := none
  /-- How often the service has completed the future. -/
  completions : Nat := 0

structure QueueEntry (Item : Type) where
  item : Item
  submission : Nat

inductive Worker (Item M E : Type) where
  | polling
  /-- In `_next_batch`, with the entries taken so far. -/
  | gathering (batch : List (QueueEntry Item))
  | executing (batch : List (QueueEntry Item))
  /-- The batch has failed; before `_handle_batch_failure`. -/
  | handling (batch : List (QueueEntry Item)) (e : E)
  /-- Item by item; `rest` is still to do. -/
  | retrying (batch rest : List (QueueEntry Item))
  /-- In a loop that completes the futures of a batch. -/
  | completing (rest : List (QueueEntry Item × Except E M))
  /-- A hook raised out of the loop; before the lock of `_fail_worker`. -/
  | raised (e : E) (batch : List (QueueEntry Item))
  /-- In the loop of `_fail_worker`. -/
  | failing (e : E) (pending : List (QueueEntry Item))
  | dead

structure State (Item M R E : Type) where
  submissions : Nat → Option (Submission Item R E) := fun _ => none
  queue : List (QueueEntry Item) := []
  workerError : Option E := none
  worker : Worker Item M E := .polling
  /-- The items of every `_execute_batch`, with its outcome. -/
  executed : List (List Item × Except E (List M)) := []

inductive SubmitEvent where
  /-- The first section under the lock. -/
  | check
  | put
  /-- `queue.Full`, and the look at the worker that follows. -/
  | full
  /-- The second section under the lock. -/
  | read
  /-- `future.done()`. -/
  | decide
  /-- `future.set_exception`. -/
  | set
  deriving DecidableEq

inductive WorkerEvent (M E : Type) where
  | take
  | nextBatch
  | nextBatchRaises (e : E)
  | execute (outcome : Except E (List M))
  /-- `_handle_batch_failure` and `_retry_batch`. -/
  | handle (handled : Except E E) (retry : Except E Bool)
  /-- `_execute_batch` of one item, with `_handle_item_failure` when it raises. -/
  | retryOne (outcome : Except E (List M)) (handled : Except E E)
  /-- The next completion of the loop that the worker is in, or the end of the loop. -/
  | complete
  /-- The section of `_fail_worker` under the lock. -/
  | fail

inductive Event (Item M E : Type) where
  | submit (c : Nat) (item : Item)
  | onSubmit (c : Nat) (e : SubmitEvent)
  | onWorker (e : WorkerEvent M E)

variable {Item M R E : Type}

/-- The entries that the worker has taken and may still complete. -/
def Worker.holds : Worker Item M E → List (QueueEntry Item)
  | .polling | .dead => []
  | .gathering batch | .executing batch | .handling batch _ | .raised _ batch | .failing _ batch => batch
  | .retrying _ rest => rest
  | .completing rest => rest.map Prod.fst

/-- `_execute_batch` checks the number of embeddings itself. -/
def Service.checked (V : Service M R E) (n : Nat) : Except E (List M) → Except E (List M)
  | .ok embeddings => if embeddings.length = n then .ok embeddings else .error V.cardinalityError
  | .error e => .error e

/-- What a future gets from the outcome of its item. -/
def Service.result (V : Service M R E) : Except E M → Except E R
  | .ok embedding => V.futureResult embedding
  | .error e => .error e

def Submission.complete (x : Submission Item R E) (r : Except E R) : Submission Item R E :=
  { x with future := some r, completions := x.completions + 1 }

namespace State
variable (V : Service M R E)

def setSubmission (s : State Item M R E) (c : Nat) (x : Submission Item R E) : State Item M R E :=
  { s with submissions := Function.update s.submissions c (some x) }

/-- `_set_result` and `_set_exception`: a future that is done, also since the check, is left alone. -/
def complete (s : State Item M R E) (entry : QueueEntry Item) (r : Except E R) : State Item M R E :=
  match s.submissions entry.submission with
  | none => s
  | some x => if x.future.isSome then s else s.setSubmission entry.submission (x.complete r)

def isFull (s : State Item M R E) : Bool := V.maxQueueSize ≠ 0 && V.maxQueueSize ≤ s.queue.length

def stepSubmit (s : State Item M R E) (c : Nat) (x : Submission Item R E) : SubmitEvent → State Item M R E
  | .check =>
    match x.phase with
    | .checking => s.setSubmission c { x with phase := if s.workerError.isSome then .rejected else .putting }
    | _ => s
  | .put =>
    match x.phase with
    | .putting =>
      if s.isFull V then s
      else { s.setSubmission c { x with phase := .reading } with queue := s.queue ++ [⟨x.item, c⟩] }
    | _ => s
  | .full =>
    match x.phase with
    | .putting =>
      if s.isFull V && s.workerError.isSome then s.setSubmission c { x with phase := .rejected } else s
    | _ => s
  | .read =>
    match x.phase with
    | .reading => s.setSubmission c { x with phase := s.workerError.elim .returned .deciding }
    | _ => s
  | .decide =>
    match x.phase with
    | .deciding e => s.setSubmission c { x with phase := if x.future.isSome then .returned else .setting e }
    | _ => s
  | .set =>
    match x.phase with
    | .setting e =>
      if x.future.isSome then s.setSubmission c { x with phase := .invalid }
      else s.setSubmission c { x.complete (.error e) with phase := .returned }
    | _ => s

def stepWorker (s : State Item M R E) : WorkerEvent M E → State Item M R E
  | .take =>
    match s.worker, s.queue with
    | .polling, entry :: rest => { s with worker := .gathering [entry], queue := rest }
    | .gathering batch, entry :: rest => { s with worker := .gathering (batch ++ [entry]), queue := rest }
    | _, _ => s
  | .nextBatch =>
    match s.worker with
    | .gathering batch => { s with worker := .executing batch }
    | _ => s
  | .nextBatchRaises e =>
    match s.worker with
    | .polling => { s with worker := .raised e [] }
    | _ => s
  | .execute outcome =>
    match s.worker with
    | .executing batch =>
      let checked := V.checked batch.length outcome
      let ran := { s with executed := (batch.map QueueEntry.item, checked) :: s.executed }
      match checked with
      | .ok embeddings => { ran with worker := .completing (batch.zip (embeddings.map .ok)) }
      | .error e => { ran with worker := .handling batch e }
    | _ => s
  | .handle handled retry =>
    match s.worker with
    | .handling batch _ =>
      match handled, retry with
      | .error e, _ | .ok _, .error e => { s with worker := .raised e batch }
      | .ok _, .ok true => { s with worker := .retrying batch batch }
      | .ok e, .ok false => { s with worker := .completing (batch.map fun entry => (entry, .error e)) }
    | _ => s
  | .retryOne outcome handled =>
    match s.worker with
    | .retrying batch (entry :: rest) =>
      let checked := V.checked 1 outcome
      let ran := { s with executed := ([entry.item], checked) :: s.executed }
      match checked, handled with
      | .ok (embedding :: _), _ => { ran.complete entry (V.futureResult embedding) with worker := .retrying batch rest }
      | .ok [], _ => ran
      | .error _, .ok e => { ran.complete entry (.error e) with worker := .retrying batch rest }
      | .error _, .error e => { ran with worker := .raised e batch }
    | .retrying _ [] => { s with worker := .polling }
    | _ => s
  | .complete =>
    match s.worker with
    | .completing ((entry, outcome) :: rest) => { s.complete entry (V.result outcome) with worker := .completing rest }
    | .completing [] => { s with worker := .polling }
    | .failing e (entry :: rest) => { s.complete entry (.error e) with worker := .failing e rest }
    | .failing _ [] => { s with worker := .dead }
    | _ => s
  | .fail =>
    match s.worker with
    | .raised e batch => { s with workerError := some e, worker := .failing e (batch ++ s.queue), queue := [] }
    | _ => s

def step (s : State Item M R E) : Event Item M E → State Item M R E
  | .submit c item =>
    match s.submissions c with
    | none => s.setSubmission c { item }
    | some _ => s
  | .onSubmit c e =>
    match s.submissions c with
    | none => s
    | some x => s.stepSubmit V c x e
  | .onWorker e => s.stepWorker V e

def runFrom (s : State Item M R E) (es : List (Event Item M E)) : State Item M R E := run (step V) s es

/-- The service after a history of submissions, hook outcomes and steps of the worker. -/
def runs (es : List (Event Item M E)) : State Item M R E := runFrom V {} es

end State
end SglangOmni.Scheduling.PreLmEncoder
