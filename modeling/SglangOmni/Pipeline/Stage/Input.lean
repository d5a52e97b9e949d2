import SglangOmni.Lib.Dict

/-! Input handlers: what a stage does with the payloads that reach it.

`DirectInput` passes a payload on; `AggregatedInput` collects one from every expected
source and merges them. The tables of the handler are kept per request, as a `Fanin`;
an empty one is no entry. -/
namespace SglangOmni.Pipeline.Stage
open Lib

variable {α : Type}

/-- What `AggregatedInput.receive` raises; `merge` for what the merge function raises. -/
inductive InputError where
  | outsideExpected (unexpected expected : List String)
  | noSources
  | outsideWaitFor (unknown allowed : List String)
  | merge (text : String)
  deriving DecidableEq

/-- `_pending` and `_expected_sources` of one request. -/
structure Fanin (α : Type) where
  pending : Dict String α := ∅
  expectedSources : Option (List String) := none
  deriving DecidableEq

structure AggregatedInput (α : Type) where
  sources : List String
  merge : Dict String α → Except String α
  expectedSourcesFn : Option (String → String → α → Option (List String))

namespace AggregatedInput

def normalizeExpectedSources (h : AggregatedInput α) (expected : List String) :
    Except InputError (List String) :=
  let unknown := expected.filter fun source => source ∉ h.sources
  if expected = [] then .error .noSources
  else if unknown ≠ [] then .error (.outsideWaitFor unknown h.sources)
  else .ok expected

/-- The fan-in of a request once `data` is recorded, with the sources it waits for when
these are known. -/
def expect (h : AggregatedInput α) (f : Fanin α) (requestId source : String) (data : α) :
    Fanin α × Except InputError (Option (List String)) :=
  match f.expectedSources, h.expectedSourcesFn with
  | some expected, _ => (f, .ok (some expected))
  | none, none => (f, .ok (some h.sources))
  | none, some resolver =>
    match resolver requestId source data with
    | none => (f, .ok none)
    | some resolved =>
      match h.normalizeExpectedSources resolved with
      | .error e => (f, .error e)
      | .ok expected => ({ f with expectedSources := some expected }, .ok (some expected))

def receive (h : AggregatedInput α) (f : Fanin α) (requestId source : String) (data : α) :
    Fanin α × Except InputError (Option α) :=
  if source ∉ h.sources then (f, .ok none)
  else
    match h.expect { f with pending := f.pending.set source data } requestId source data with
    | (f, .error e) => (f, .error e)
    | (f, .ok none) => (f, .ok none)
    | (f, .ok (some expected)) =>
      let unexpected := f.pending.keys.filter fun source => source ∉ expected
      if unexpected ≠ [] then (f, .error (.outsideExpected unexpected expected))
      else if expected.all fun source => f.pending.contains source then
        ({}, (h.merge f.pending).mapError .merge |>.map some)
      else (f, .ok none)

end AggregatedInput

inductive InputHandler (α : Type) where
  | direct
  | aggregated (h : AggregatedInput α)

/-- `receive`: the merged payload when the request is complete. -/
def InputHandler.receive (h : InputHandler α) (f : Fanin α) (requestId source : String) (data : α) :
    Fanin α × Except InputError (Option α) :=
  match h with
  | .direct => (f, .ok (some data))
  | .aggregated h => h.receive f requestId source data

end SglangOmni.Pipeline.Stage
