import SglangOmni.Lib.Dict
import SglangOmni.Lib.History
import Mathlib.Data.Finset.Basic

/-! The decode-state pool of MOSS-TTS Local.

Each request owns one row of twelve tensors while it is decoded. Rows are handed out as they are, so a row has to be
clean when it is given back. A row is what the twelve tensors hold at its index; the values of the request, of the
device and of an embedding are types of their own. The model runner writes two of the tensors itself, and its writes are
among the operations here. -/
namespace SglangOmni.Models.MossTtsLocal
open Lib

/-- What a pool is made with; the last row is `paddingRow`. -/
structure PoolConfig (F D : Type) where
  paddingRow : Nat
  nVq : Nat
  audioVocabSize : Nat
  /-- How a host float is stored in a `float32` tensor. -/
  toDevice : F → D

/-- The request-static sampling parameters. -/
structure SamplingParams (F : Type) where
  textTemperature : F
  textTopP : F
  audioTemperature : F
  audioTopP : F
  textTopK : Int
  audioTopK : Int
  samplingSeed : Int
  /-- Not every request has it. -/
  audioRepetitionPenalty : Option F
  deriving DecidableEq

/-- One row of the pool. -/
structure Row (D V : Type) where
  feedbackEmbeds : V
  textTemp : D
  textTopP : D
  audioTemp : D
  audioTopP : D
  textTopK : Int
  audioTopK : Int
  seeds : Int
  generationSteps : Int
  samplingSteps : Int
  audioRepetitionPenalty : D
  /-- By channel and code. -/
  audioTokenPresence : Nat → Nat → Bool

inductive PoolError where
  /-- `decode-state pool exhausted (… rows, all held)`. -/
  | exhausted (rows : Nat)
  /-- `audio history rows must have shape [B, n_vq + 1]`. -/
  | historyShape
  /-- `audio history row index mismatch`. -/
  | historyRows (rows codeRows : Nat)
  deriving DecidableEq

variable {K F D V : Type}

namespace Row

section
variable [Zero D] [Zero V]

/-- A row with every field zero. -/
def zero : Row D V where
  feedbackEmbeds := 0
  textTemp := 0
  textTopP := 0
  audioTemp := 0
  audioTopP := 0
  textTopK := 0
  audioTopK := 0
  seeds := 0
  generationSteps := 0
  samplingSteps := 0
  audioRepetitionPenalty := 0
  audioTokenPresence := fun _ _ => false

end

/-- The tensor writes of `write_params`. -/
def withParams [One F] (cfg : PoolConfig F D) (data : SamplingParams F) (row : Row D V) : Row D V :=
  { row with
    textTemp := cfg.toDevice data.textTemperature
    textTopP := cfg.toDevice data.textTopP
    audioTemp := cfg.toDevice data.audioTemperature
    audioTopP := cfg.toDevice data.audioTopP
    textTopK := data.textTopK
    audioTopK := data.audioTopK
    seeds := data.samplingSeed
    audioRepetitionPenalty := cfg.toDevice (data.audioRepetitionPenalty.getD 1) }

/-- A commit of a step, where `old` is what the row was before the write. -/
def commit (old row : Row D V) (step : Int) : Row D V :=
  { row with generationSteps := step, samplingSteps := max old.samplingSteps step }

/-- The codes of one frame, marked as present where they are codes. -/
def mark (cfg : PoolConfig F D) (_old row : Row D V) (codes : List Int) : Row D V :=
  { row with
    audioTokenPresence := fun channel code =>
      row.audioTokenPresence channel code ||
        decide (channel < cfg.nVq ∧ code < cfg.audioVocabSize ∧ codes[channel]? = some (code : Int)) }

def withSamplingSteps (_old row : Row D V) (step : Int) : Row D V := { row with samplingSteps := step }

def withFeedback (_old row : Row D V) (embeds : V) : Row D V := { row with feedbackEmbeds := embeds }

end Row

/-- `MossTTSLocalDecodeStatePool`. -/
structure DecodeStatePool (K F D V : Type) where
  rows : Nat → Row D V
  ridToRow : Dict K Nat
  paramsWrittenRids : Finset K
  audioRepetitionPenaltyRows : Finset Nat
  freeRows : List Nat
  /-- Of each row the penalty of its last `write_params` since its last reset; the code does not keep it. -/
  lastPenalty : Nat → Option F

namespace DecodeStatePool

variable [DecidableEq K] [DecidableEq F] [One F] [Zero D] [Zero V] (cfg : PoolConfig F D)

def create : DecodeStatePool K F D V where
  rows := fun _ => Row.zero
  ridToRow := ∅
  paramsWrittenRids := ∅
  audioRepetitionPenaltyRows := ∅
  freeRows := List.range cfg.paddingRow
  lastPenalty := fun _ => none

def rowFor (s : DecodeStatePool K F D V) (rid : K) : Option Nat := s.ridToRow.get? rid

def acquireRow (s : DecodeStatePool K F D V) (rid : K) : Except PoolError (Nat × DecodeStatePool K F D V) :=
  match s.ridToRow.get? rid with
  | some existing => .ok (existing, s)
  | none =>
    match s.freeRows.getLast? with
    | none => .error (.exhausted cfg.paddingRow)
    | some rowIdx =>
      .ok (rowIdx, { s with freeRows := s.freeRows.dropLast, ridToRow := s.ridToRow.set rid rowIdx })

def resetRow (s : DecodeStatePool K F D V) (rowIdx : Nat) : DecodeStatePool K F D V :=
  { s with
    rows := Function.update s.rows rowIdx Row.zero
    audioRepetitionPenaltyRows := s.audioRepetitionPenaltyRows.erase rowIdx
    lastPenalty := Function.update s.lastPenalty rowIdx none }

def releaseRow (s : DecodeStatePool K F D V) (rid : K) : DecodeStatePool K F D V :=
  match s.ridToRow.get? rid with
  | none => s
  | some rowIdx =>
    let s := { s with
      ridToRow := s.ridToRow.pop rid, paramsWrittenRids := s.paramsWrittenRids.erase rid }.resetRow rowIdx
    { s with freeRows := s.freeRows ++ [rowIdx] }

def writeParams (s : DecodeStatePool K F D V) (rowIdx : Nat) (data : SamplingParams F) : DecodeStatePool K F D V :=
  let audioRepetitionPenalty := data.audioRepetitionPenalty.getD 1
  { s with
    rows := Function.update s.rows rowIdx ((s.rows rowIdx).withParams cfg data)
    audioRepetitionPenaltyRows :=
      if audioRepetitionPenalty = 1 then s.audioRepetitionPenaltyRows.erase rowIdx
      else insert rowIdx s.audioRepetitionPenaltyRows
    lastPenalty := Function.update s.lastPenalty rowIdx (some audioRepetitionPenalty) }

def ensureParams (s : DecodeStatePool K F D V) (rowIdx : Nat) (rid : K) (data : SamplingParams F) :
    DecodeStatePool K F D V :=
  if rid ∈ s.paramsWrittenRids then s
  else
    let s := s.writeParams cfg rowIdx data
    { s with paramsWrittenRids := insert rid s.paramsWrittenRids }

def invalidateParams (s : DecodeStatePool K F D V) (rid : K) : DecodeStatePool K F D V :=
  { s with paramsWrittenRids := s.paramsWrittenRids.erase rid }

/-- `tensor[row_t] = values`: what is written may depend on what the row was before. -/
def writeRows {A : Type} (write : Row D V → Row D V → A → Row D V) (s : DecodeStatePool K F D V)
    (entries : List (Nat × A)) :
    DecodeStatePool K F D V :=
  { s with
    rows := entries.foldl (fun rows e => Function.update rows e.1 (write (s.rows e.1) (rows e.1) e.2)) s.rows }

def commitGenerationStep (s : DecodeStatePool K F D V) (rid : K) (generationSteps : Int) : DecodeStatePool K F D V :=
  match s.rowFor rid with
  | none => s
  | some rowIdx => s.writeRows Row.commit [(rowIdx, generationSteps)]

def commitGenerationSteps (s : DecodeStatePool K F D V) (entries : List (Nat × Int)) : DecodeStatePool K F D V :=
  s.writeRows Row.commit entries

def resetForRefill (s : DecodeStatePool K F D V) (rid : K) (generationSteps : Int) : Bool × DecodeStatePool K F D V :=
  match s.rowFor rid with
  | none => (false, s)
  | some rowIdx =>
    let s := (s.invalidateParams rid).resetRow rowIdx
    (true, { s with
      rows := Function.update s.rows rowIdx
        { s.rows rowIdx with generationSteps := generationSteps, samplingSteps := generationSteps } })

/-- `update_audio_history`: a row of `rows` is a text token and `n_vq` codes. -/
def updateAudioHistory (s : DecodeStatePool K F D V) (rowT : List Nat) (rows : List (List Int)) :
    Except PoolError (DecodeStatePool K F D V) :=
  if rowT = [] then .ok s
  else if rows.any fun row => row.length ≠ cfg.nVq + 1 then .error .historyShape
  else if rowT.length ≠ rows.length then .error (.historyRows rowT.length rows.length)
  else .ok (s.writeRows (Row.mark cfg) (rowT.zip (rows.map List.tail)))

def rebuildAudioHistory (s : DecodeStatePool K F D V) (rid : K) (outputRows : List (List Int)) :
    Except PoolError Bool × DecodeStatePool K F D V :=
  match s.rowFor rid with
  | none => (.ok false, s)
  | some rowIdx =>
    let s := { s with
      rows := Function.update s.rows rowIdx { s.rows rowIdx with audioTokenPresence := fun _ _ => false } }
    if outputRows = [] then (.ok true, s)
    else
      match s.updateAudioHistory cfg (List.replicate outputRows.length rowIdx) outputRows with
      | .ok s => (.ok true, s)
      | .error e => (.error e, s)

/-- The loop of `prepare_active_rows`, with the rows so far and whether one of them has a penalty. -/
def prepareRows (s : DecodeStatePool K F D V) (poolRows : List Nat) (hasPenalty : Bool) :
    List (K × SamplingParams F) → Except PoolError (List Nat × Bool) × DecodeStatePool K F D V
  | [] => (.ok (poolRows, hasPenalty), s)
  | (rid, data) :: rest =>
    match s.acquireRow cfg rid with
    | .error e => (.error e, s)
    | .ok (rowIdx, s) =>
      let s := s.ensureParams cfg rowIdx rid data
      s.prepareRows (poolRows ++ [rowIdx]) (hasPenalty || decide (rowIdx ∈ s.audioRepetitionPenaltyRows)) rest

def prepareActiveRows (s : DecodeStatePool K F D V) (requests : List (K × SamplingParams F)) :
    Except PoolError (List Nat × Bool) × DecodeStatePool K F D V :=
  s.prepareRows cfg [] false requests

end DecodeStatePool

/-! ### Operations -/

inductive PoolOp (K F V : Type) where
  | acquireRow (rid : K)
  | releaseRow (rid : K)
  | prepareActiveRows (requests : List (K × SamplingParams F))
  | commitGenerationStep (rid : K) (generationSteps : Int)
  | commitGenerationSteps (entries : List (Nat × Int))
  | resetForRefill (rid : K) (generationSteps : Int)
  | updateAudioHistory (rowT : List Nat) (rows : List (List Int))
  | rebuildAudioHistory (rid : K) (outputRows : List (List Int))
  /-- `pool.sampling_steps[emit_row_t] = …` of the model runner. -/
  | writeSamplingSteps (entries : List (Nat × Int))
  /-- `pool.feedback_embeds[emit_row_t] = …` of the model runner. -/
  | writeFeedback (entries : List (Nat × V))

namespace PoolOp

/-- The rows that a batched operation is given. -/
def rows : PoolOp K F V → List Nat
  | .commitGenerationSteps entries | .writeSamplingSteps entries => entries.map Prod.fst
  | .writeFeedback entries => entries.map Prod.fst
  | .updateAudioHistory rowT _ => rowT
  | .acquireRow _ | .releaseRow _ | .prepareActiveRows _ | .commitGenerationStep .. | .resetForRefill ..
  | .rebuildAudioHistory .. => []

end PoolOp

namespace DecodeStatePool

variable [DecidableEq K] [DecidableEq F] [One F] [Zero D] [Zero V] (cfg : PoolConfig F D)

/-- An operation; one that raises leaves what it did before. -/
def step (s : DecodeStatePool K F D V) : PoolOp K F V → DecodeStatePool K F D V
  | .acquireRow rid =>
    match s.acquireRow cfg rid with
    | .ok acquired => acquired.2
    | .error _ => s
  | .releaseRow rid => s.releaseRow rid
  | .prepareActiveRows requests => (s.prepareActiveRows cfg requests).2
  | .commitGenerationStep rid generationSteps => s.commitGenerationStep rid generationSteps
  | .commitGenerationSteps entries => s.commitGenerationSteps entries
  | .resetForRefill rid generationSteps => (s.resetForRefill rid generationSteps).2
  | .updateAudioHistory rowT rows =>
    match s.updateAudioHistory cfg rowT rows with
    | .ok s => s
    | .error _ => s
  | .rebuildAudioHistory rid outputRows => (s.rebuildAudioHistory cfg rid outputRows).2
  | .writeSamplingSteps entries => s.writeRows Row.withSamplingSteps entries
  | .writeFeedback entries => s.writeRows Row.withFeedback entries

def run (ops : List (PoolOp K F V)) : DecodeStatePool K F D V := Lib.run (step cfg) (create cfg) ops

end DecodeStatePool

end SglangOmni.Models.MossTtsLocal
