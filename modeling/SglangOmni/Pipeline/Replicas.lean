import SglangOmni.Lib.Dict
import Mathlib.Data.Finset.Basic

/-! Process replicas: instance names, the replica topology and request bindings.

Model code and routing refer to logical stage names; a send resolves the logical
name and the request's binding to an instance, and what an instance reports is
converted back. -/
namespace SglangOmni.Pipeline
open Lib

/-! ### Instance names -/

def replicaInstanceName (logicalName : String) (replicaId : Nat) : String :=
  logicalName ++ "@r" ++ toString replicaId

/-- The characters before and after the last `@r`. -/
def splitLastSeparator : List Char → Option (List Char × List Char)
  | [] => none
  | c :: rest =>
    match splitLastSeparator rest with
    | some (before, after) => some (c :: before, after)
    | none => if c = '@' ∧ rest.head? = some 'r' then some ([], rest.tail) else none

/-- The stage and index of an instance name, `none` for a plain name. Digits are
the ASCII ones: no other digit reaches a stage name past config validation. -/
def parseReplicaInstanceName (name : String) : String × Option Nat :=
  match splitLastSeparator name.toList with
  | none => (name, none)
  | some (logical, suffix) =>
    if suffix ≠ [] ∧ suffix.all Char.isDigit then
      (String.ofList logical, some (suffix.foldl (fun n c => 10 * n + (c.toNat - '0'.toNat)) 0))
    else (name, none)

theorem splitLastSeparator_eq_none {l : List Char} (h : '@' ∉ l) : splitLastSeparator l = none := by
  induction l with
  | nil => rfl
  | cons c rest ih =>
    simp only [List.mem_cons, not_or] at h
    rw [splitLastSeparator, ih h.2]
    simp [Ne.symm h.1]

/-- The last separator is the one after which there is no other. -/
theorem splitLastSeparator_append (l : List Char) {suffix : List Char} (h : '@' ∉ suffix) :
    splitLastSeparator (l ++ '@' :: 'r' :: suffix) = some (l, suffix) := by
  induction l with
  | nil =>
    have hnone : splitLastSeparator ('r' :: suffix) = none := splitLastSeparator_eq_none (by simp [h])
    rw [List.nil_append, splitLastSeparator, hnone]
    simp
  | cons c rest ih => rw [List.cons_append, splitLastSeparator, ih]

/-- An instance name is parsed back to the stage and the index it was made of. -/
theorem parse_replicaInstanceName (name : String) (i : Nat) :
    parseReplicaInstanceName (replicaInstanceName name i) = (name, some i) := by
  have hdigit : ∀ c ∈ Nat.toDigits 10 i, c.isDigit = true := fun c hc =>
    Nat.isDigit_of_mem_toDigits (by decide) (by decide) hc
  have hnone : '@' ∉ Nat.toDigits 10 i := fun hc => by
    have := hdigit _ hc
    revert this
    decide
  have hlist : (replicaInstanceName name i).toList = name.toList ++ '@' :: 'r' :: Nat.toDigits 10 i := by
    simp [replicaInstanceName, Nat.toString_eq_repr]
  have hvalue : (Nat.toDigits 10 i).foldl (fun n c => 10 * n + (c.toNat - '0'.toNat)) 0 = i :=
    Nat.ofDigitChars_toDigits (by decide) (by decide)
  rw [parseReplicaInstanceName, hlist, splitLastSeparator_append _ hnone]
  simp only
  rw [if_pos ⟨Nat.toDigits_ne_nil, List.all_eq_true.mpr hdigit⟩, hvalue, String.ofList_toList]

theorem replicaInstanceName_inj {a b : String} {i j : Nat} (h : replicaInstanceName a i = replicaInstanceName b j) :
    a = b ∧ i = j := by
  have hparse := congrArg parseReplicaInstanceName h
  rw [parse_replicaInstanceName, parse_replicaInstanceName] at hparse
  simpa using hparse

/-! ### The topology -/

/-- The instances of every replicated stage. -/
structure ReplicaTopology where
  replicas : Dict String (List String)

namespace ReplicaTopology

def isReplicated (t : ReplicaTopology) (logicalName : String) : Bool := t.replicas.contains logicalName

def logicalName (t : ReplicaTopology) (name : String) : String :=
  match parseReplicaInstanceName name with
  | (_, none) => name
  | (logical, some _) =>
    match t.replicas.get? logical with
    | none => name
    | some instances => if name ∈ instances then logical else name

inductive ResolveError where
  | notReplicated (logicalName : String) (replicaId : Int)
  | outOfRange (logicalName : String) (replicas : Nat) (replicaId : Int)

def resolve (t : ReplicaTopology) (logicalName : String) (replicaId : Int) :
    Except ResolveError String :=
  match t.replicas.get? logicalName with
  | none => if replicaId ≠ 0 then .error (.notReplicated logicalName replicaId) else .ok logicalName
  | some instances =>
    if 0 ≤ replicaId then
      match instances[replicaId.toNat]? with
      | some name => .ok name
      | none => .error (.outOfRange logicalName instances.length replicaId)
    else .error (.outOfRange logicalName instances.length replicaId)

end ReplicaTopology

/-! ### Bindings -/

structure LogicalProcess where
  name : String
  stageNames : List String
  numReplicas : Nat

def LogicalProcess.isReplicated (p : LogicalProcess) : Bool := p.numReplicas > 1

/-- The stage-keyed bindings of one request, the policy consulted once for every
replicated process; `none` when the policy names a replica that does not exist. -/
def assignReplicaBindings (processes : List LogicalProcess) (bind : String → Nat → Int) :
    Option (Option (Dict String Int)) :=
  if processes.any (·.isReplicated) then
    (processes.filter (·.isReplicated)).foldl (fun bindings p =>
      let index := bind p.name p.numReplicas
      match bindings with
      | some (some d) =>
        if 0 ≤ index ∧ index < p.numReplicas then
          some (some (p.stageNames.foldl (fun d stage => d.set stage index) d))
        else none
      | other => other) (some (some ∅))
  else some none

end SglangOmni.Pipeline
