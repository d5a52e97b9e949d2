import SglangOmni.Comm.StageIo
import SglangOmni.Lib.Semaphore

/-! Writing stream chunks to the shared-memory relay.

A chunk is put tensor by tensor: its data, then every tensor of its metadata, each under one
credit of the relay. An operation keeps its credit until the receiver is done with the block
or the wait for it ends, and nobody waits for it before the whole chunk is written and
published. Several writers share a relay; what a writer does up to its next wait for a credit
is one step. -/
namespace SglangOmni.Comm.StreamChunk
open Lib
open StageIo (Tensor Value extractTensors)

variable {τ σ : Type}

/-! ### The writer -/

structure Chunk (τ σ : Type) where
  data : Tensor τ
  metadata : Option (List (String × Value τ σ))

/-- What `_with_stream_metadata` puts. -/
def Chunk.metadataTensors (chunk : Chunk τ σ) : List (Tensor τ) :=
  match chunk.metadata with
  | none => []
  | some entries => (extractTensors (.dict entries)).2.entries.map Prod.snd

def Chunk.tensors (chunk : Chunk τ σ) : List (Tensor τ) := chunk.data :: chunk.metadataTensors

/-- How a put ends: with an exception before it asks for a credit (the tensor has no view as
bytes), with one under the credit (the block is not created, as for an empty tensor), or with
an operation. -/
inductive Outcome where
  | notViewable
  | notCreated
  | made
  deriving DecidableEq

/-- The chunk's puts in order, when the put at each index ends as `outcome` says. -/
def Chunk.puts (chunk : Chunk τ σ) (outcome : Nat → Outcome) : List Outcome :=
  (List.range chunk.tensors.length).map outcome

/-- Where `write_stream_chunk` stands; `rest` starts with the put that waits for its credit. -/
inductive Phase where
  | waiting (rest : List Outcome)
  | raised
  | returned
  deriving DecidableEq

/-- A call of `write_stream_chunk`, with the length of `pending_ops` and how many of these
operations were waited for. -/
structure Writer where
  puts : List Outcome
  pendingOps : Nat
  completed : Nat := 0
  phase : Phase
  deriving DecidableEq

/-- The credits of the writer's operations. -/
def Writer.held (w : Writer) : Nat := w.pendingOps - w.completed

/-- What a turn of a writer leaves behind. -/
structure Turn where
  sem : Semaphore
  pendingOps : Nat
  phase : Phase

/-- `put_async` with its credit, and the chunk's other puts up to the next wait. -/
def writeFrom (task : Nat) : List Outcome → Nat → Semaphore → Turn
  | [], pendingOps, sem => ⟨sem, pendingOps, .returned⟩
  | .notViewable :: _, pendingOps, sem => ⟨sem, pendingOps, .raised⟩
  | .notCreated :: rest, pendingOps, sem =>
    match sem.acquire task with
    | (sem, true) => ⟨sem.release, pendingOps, .raised⟩
    | (sem, false) => ⟨sem, pendingOps, .waiting (.notCreated :: rest)⟩
  | .made :: rest, pendingOps, sem =>
    match sem.acquire task with
    | (sem, true) => writeFrom task rest (pendingOps + 1) sem
    | (sem, false) => ⟨sem, pendingOps, .waiting (.made :: rest)⟩

/-- The writer was handed the credit it waited for. -/
def continueFrom (task : Nat) (rest : List Outcome) (pendingOps : Nat) (sem : Semaphore) : Turn :=
  match rest with
  | .made :: rest => writeFrom task rest (pendingOps + 1) sem
  | _ => ⟨sem.release, pendingOps, .raised⟩

/-! ### The relay -/

structure State where
  sem : Semaphore
  writers : List Writer
  deriving DecidableEq

def State.create (credits : Nat) : State := ⟨.create credits, []⟩

inductive Event (τ σ : Type) where
  /-- A send worker writes its next chunk. -/
  | write (chunk : Chunk τ σ) (outcome : Nat → Outcome)
  /-- A writer that was handed a credit has its turn. -/
  | resume (task : Nat)
  /-- The wait for an operation of a written chunk is over. -/
  | complete (task : Nat)

def write (s : State) (puts : List Outcome) : State :=
  let t := writeFrom s.writers.length puts 0 s.sem
  ⟨t.sem, s.writers ++ [{ puts, pendingOps := t.pendingOps, phase := t.phase }]⟩

def resume (s : State) (task : Nat) (w : Writer) (rest : List Outcome) : State :=
  let t := continueFrom task rest w.pendingOps (s.sem.resume task)
  ⟨t.sem, s.writers.set task { w with pendingOps := t.pendingOps, phase := t.phase }⟩

def complete (s : State) (task : Nat) (w : Writer) : State :=
  ⟨s.sem.release, s.writers.set task { w with completed := w.completed + 1 }⟩

def step (s : State) : Event τ σ → State
  | .write chunk outcome => write s (chunk.puts outcome)
  | .resume task =>
    match s.writers[task]? with
    | none => s
    | some w =>
      match w.phase with
      | .waiting rest => if s.sem.handed task then resume s task w rest else s
      | _ => s
  | .complete task =>
    match s.writers[task]? with
    | none => s
    | some w => if w.phase = .returned ∧ w.completed < w.pendingOps then complete s task w else s

def run (s : State) (events : List (Event τ σ)) : State := events.foldl step s

/-- The writer waits for a credit and holds them all. -/
structure SelfBlocked (credits : Nat) (w : Writer) : Prop where
  waiting : ∃ rest, w.phase = .waiting rest
  all : w.held = credits

/-! ### Credits are conserved -/

/-- A turn gives out the credits of its operations. -/
def Turn.credits (t : Turn) : Nat := t.sem.permits + t.pendingOps

theorem writeFrom_credits (task : Nat) (puts : List Outcome) (pendingOps : Nat) (sem : Semaphore) :
    (writeFrom task puts pendingOps sem).credits = sem.permits + pendingOps := by
  induction puts generalizing pendingOps sem with
  | nil => rfl
  | cons o rest ih =>
    have hacquire := sem.permits_acquire task
    cases o with
    | notViewable => rfl
    | notCreated =>
      rcases ha : sem.acquire task with ⟨after, _ | _⟩ <;> rw [ha] at hacquire
      · simp only [writeFrom, ha, Turn.credits]
        rw [← hacquire]
        rfl
      · simp only [writeFrom, ha, Turn.credits, Semaphore.permits_release]
        rw [← hacquire]
        rfl
    | made =>
      rcases ha : sem.acquire task with ⟨after, _ | _⟩ <;> rw [ha] at hacquire
      · simp only [writeFrom, ha, Turn.credits]
        rw [← hacquire]
        rfl
      · simp only [writeFrom, ha, ih]
        simp only [Bool.toNat_true] at hacquire
        omega

theorem continueFrom_credits (task : Nat) (rest : List Outcome) (pendingOps : Nat) (sem : Semaphore) :
    (continueFrom task rest pendingOps sem).credits = sem.permits + pendingOps + 1 := by
  have hraise : (⟨sem.release, pendingOps, .raised⟩ : Turn).credits = sem.permits + pendingOps + 1 := by
    simp only [Turn.credits, Semaphore.permits_release]
    omega
  match rest with
  | [] => exact hraise
  | .made :: rest => exact writeFrom_credits task rest (pendingOps + 1) sem
  | .notViewable :: _ => exact hraise
  | .notCreated :: _ => exact hraise

end SglangOmni.Comm.StreamChunk
