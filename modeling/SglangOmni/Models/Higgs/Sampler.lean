import SglangOmni.Models.CodecDelay
import Mathlib.Data.List.Nodup

/-! The multi-codebook sampler of Higgs, written twice.

`step` advances one request with nested conditions; `batchedStepDirect` advances a batch with masks over its columns,
and `batchedStep` gathers the columns from a pool and scatters them back. The sampled codes come from outside: both are
given the same ones. Codebook `c` of a row of codes runs `c` steps behind codebook 0, and `reverseDelayPattern` undoes
this. -/
namespace SglangOmni.Models.Higgs

def bocId : Int := 1024
def eocId : Int := 1025

/-- `STOP_CODE`: what a finished request answers. -/
def stopCode : Int := -1

/-- `NO_SEED`. -/
def noSeed : Int := -1

/-- A code for each codebook. -/
abbrev Codes (N : Nat) := Fin N → Int

variable {M N : Nat}

/-! ### One request -/

structure HiggsSamplerState (N : Nat) where
  delayCount : Nat := 0
  eocCountdown : Option Int := none
  generationDone : Bool := false
  lastCodes : Option (Codes N) := none

section
variable [NeZero N]

/-- The branches of `step` after the codes were sampled: the codes, and the state without `last_codes`. -/
def HiggsSamplerState.advance (state : HiggsSamplerState N) (sampled : Codes N) : Codes N × HiggsSamplerState N :=
  if state.delayCount < N then
    let nextCb := state.delayCount + 1
    (fun c => if nextCb ≤ c then bocId else sampled c, { state with delayCount := state.delayCount + 1 })
  else
    match state.eocCountdown with
    | some countdown =>
      (sampled, { state with
        eocCountdown := some (countdown - 1)
        generationDone := decide (countdown - 1 ≤ 0) || state.generationDone })
    | none =>
      if sampled 0 = eocId then
        if N ≤ 2 then (sampled, { state with generationDone := true })
        else (sampled, { state with eocCountdown := some (N - 2) })
      else (sampled, state)

/-- `step`. -/
def step (state : HiggsSamplerState N) (sampled : Codes N) : Codes N × HiggsSamplerState N :=
  if state.generationDone then (fun _ => stopCode, state)
  else
    let advanced := state.advance sampled
    (advanced.1, if advanced.2.generationDone then advanced.2 else { advanced.2 with lastCodes := some advanced.1 })

end

/-! ### The pool -/

/-- `HiggsBatchedSamplerState`, one column a field. -/
structure HiggsBatchedSamplerState (M N : Nat) where
  delayCount : Fin M → Nat := fun _ => 0
  eocCountdown : Fin M → Int := fun _ => -1
  generationDone : Fin M → Bool := fun _ => false
  lastCodes : Fin M → Codes N := fun _ _ => 0
  seeds : Fin M → Int := fun _ => noSeed
  stepCount : Fin M → Nat := fun _ => 0

/-- The list of rows of a step, all different, and what is sampled for each. -/
structure Batch (M N : Nat) where
  rowIndices : List (Fin M)
  nodup : rowIndices.Nodup
  sampled : Fin rowIndices.length → Codes N

namespace HiggsBatchedSamplerState

/-- `column[row] = value`. -/
def put {α : Type} (column : Fin M → α) (row : Fin M) (value : α) : Fin M → α :=
  fun r => if r = row then value else column r

def resetRow (s : HiggsBatchedSamplerState M N) (row : Fin M) : HiggsBatchedSamplerState M N where
  delayCount := put s.delayCount row 0
  eocCountdown := put s.eocCountdown row (-1)
  generationDone := put s.generationDone row false
  lastCodes := put s.lastCodes row fun _ => 0
  seeds := put s.seeds row noSeed
  stepCount := put s.stepCount row 0

def viewRow (s : HiggsBatchedSamplerState M N) (row : Fin M) : HiggsSamplerState N where
  delayCount := s.delayCount row
  eocCountdown := if s.eocCountdown row < 0 then none else some (s.eocCountdown row)
  generationDone := s.generationDone row
  lastCodes := if s.delayCount row = 0 then none else some (s.lastCodes row)

end HiggsBatchedSamplerState

/-- What `batched_step_direct` returns for a batch of `B` rows. -/
structure Stepped (B N : Nat) where
  outCodes : Fin B → Codes N
  delayCount : Fin B → Nat
  eocCountdown : Fin B → Int
  generationDone : Fin B → Bool
  lastCodes : Fin B → Codes N
  stepCount : Fin B → Nat

/-- `batched_step_direct`. -/
def batchedStepDirect [NeZero N] {B : Nat} (sampled : Fin B → Codes N) (delayCount : Fin B → Nat)
    (eocCountdown : Fin B → Int) (generationDone : Fin B → Bool) (lastCodes : Fin B → Codes N)
    (stepCount : Fin B → Nat) : Stepped B N :=
  let inDelay b := decide (delayCount b < N)
  let delayMask b (cbIdx : Fin N) := inDelay b && decide (delayCount b < cbIdx)
  let codes b cbIdx := if delayMask b cbIdx then bocId else sampled b cbIdx
  let active b := !generationDone b
  let inDelayActive b := active b && decide (delayCount b < N)
  let inWinddownActive b := active b && decide (0 ≤ eocCountdown b) && !inDelayActive b
  let cb0EocNowActive b := active b && !inDelayActive b && !inWinddownActive b && decide (codes b 0 = eocId)
  let newDelayCount b := if inDelayActive b then delayCount b + 1 else delayCount b
  let newEocCountdown b :=
    if 2 < N then
      if cb0EocNowActive b then (N : Int) - 2
      else if inWinddownActive b then eocCountdown b - 1 else eocCountdown b
    else if inWinddownActive b then eocCountdown b - 1 else eocCountdown b
  let doneThisStep b :=
    if 2 < N then inWinddownActive b && decide (newEocCountdown b ≤ 0)
    else cb0EocNowActive b || (inWinddownActive b && decide (newEocCountdown b ≤ 0))
  let updateCodes b := active b && !doneThisStep b
  { outCodes := fun b cbIdx => if generationDone b then stopCode else codes b cbIdx
    delayCount := newDelayCount
    eocCountdown := newEocCountdown
    generationDone := fun b => generationDone b || doneThisStep b
    lastCodes := fun b => if updateCodes b then codes b else lastCodes b
    stepCount := fun b => stepCount b + (active b).toNat }

namespace Batch

/-- `column[row_indices]`. -/
def gather {α : Type} (b : Batch M N) (column : Fin M → α) : Fin b.rowIndices.length → α :=
  fun i => column (b.rowIndices.get i)

/-- `column[row_indices] = values`. -/
def scatter {α : Type} (b : Batch M N) (column : Fin M → α) (values : Fin b.rowIndices.length → α) : Fin M → α :=
  fun r => if h : r ∈ b.rowIndices then values ⟨b.rowIndices.idxOf r, List.idxOf_lt_length_of_mem h⟩ else column r

end Batch

/-- `batched_step`. -/
def batchedStep [NeZero N] (s : HiggsBatchedSamplerState M N) (b : Batch M N) :
    (Fin b.rowIndices.length → Codes N) × HiggsBatchedSamplerState M N :=
  let stepped := batchedStepDirect b.sampled (b.gather s.delayCount) (b.gather s.eocCountdown)
    (b.gather s.generationDone) (b.gather s.lastCodes) (b.gather s.stepCount)
  (stepped.outCodes,
    { s with
      delayCount := b.scatter s.delayCount stepped.delayCount
      eocCountdown := b.scatter s.eocCountdown stepped.eocCountdown
      generationDone := b.scatter s.generationDone stepped.generationDone
      lastCodes := b.scatter s.lastCodes stepped.lastCodes
      stepCount := b.scatter s.stepCount stepped.stepCount })

/-! ### What is done with a pool -/

inductive Op (M N : Nat) where
  /-- `reset_row`, when a row is acquired or released. -/
  | resetRow (row : Fin M)
  /-- The seed of a new owner. -/
  | setSeed (row : Fin M) (value : Int)
  | batchedStep (batch : Batch M N)

def Op.apply [NeZero N] (s : HiggsBatchedSamplerState M N) : Op M N → HiggsBatchedSamplerState M N
  | .resetRow row => s.resetRow row
  | .setSeed row value => { s with seeds := HiggsBatchedSamplerState.put s.seeds row value }
  | .batchedStep batch => (Higgs.batchedStep s batch).2

/-- The state of a pool that began with all rows reset. -/
def run [NeZero N] (ops : List (Op M N)) : HiggsBatchedSamplerState M N := ops.foldl Op.apply {}

/-- What happens to the state of one request, in a step of a pool. -/
def Op.sampledFor (r : Fin M) (history : List (Codes N)) : Op M N → List (Codes N)
  | .resetRow row => if row = r then [] else history
  | .setSeed _ _ => history
  | .batchedStep b =>
    if h : r ∈ b.rowIndices then
      history ++ [b.sampled ⟨b.rowIndices.idxOf r, List.idxOf_lt_length_of_mem h⟩]
    else history

/-- What was sampled for a row since it was reset last. -/
def historyOf (r : Fin M) (ops : List (Op M N)) : List (Codes N) := ops.foldl (Op.sampledFor r) []

/-! ### The delay pattern -/

/-- `reverse_delay_pattern`. -/
def reverseDelayPattern (delayed : List (Codes N)) (allowShort : Bool) : Except DelayError (List (Codes N)) :=
  if delayed.length < N then
    if allowShort then .ok [] else .error (.tooShort delayed.length N)
  else
    .ok (List.ofFn fun i : Fin (delayed.length + 1 - N) => fun c =>
      delayed.get ⟨c + i, by have := i.isLt; have := c.isLt; omega⟩ c)

end SglangOmni.Models.Higgs
