import SglangOmni.Lib.Dict

/-! Taking the tensors out of a stage payload and putting them back.

A payload is sent as a header, in which every tensor is replaced by a placeholder
that names a path, and a map from paths to tensors. The path of a tensor is the
text of its position: keys joined by dots, indices in brackets. -/
namespace SglangOmni.Comm.StageIo
open Lib

/-- What the data plane reads off a tensor, and its contents. -/
structure Tensor (τ : Type) where
  shape : List Nat
  dtype : String
  device : String
  isCuda : Bool
  data : τ
  deriving DecidableEq

/-- Payload values. A dictionary is its entries in order; `scalar` is any leaf that
is neither a tensor, a string nor an integer. -/
inductive Value (τ σ : Type) where
  | tensor (t : Tensor τ)
  | dict (entries : List (String × Value τ σ))
  | list (items : List (Value τ σ))
  | tuple (items : List (Value τ σ))
  | str (s : String)
  | int (n : Int)
  | scalar (s : σ)

variable {τ σ : Type}

def placeholderKey : String := "_tensor_placeholder"

def placeholder (path : String) (t : Tensor τ) : Value τ σ :=
  .dict [(placeholderKey, .str path), ("shape", .list (t.shape.map fun n => .int n)),
    ("dtype", .str t.dtype), ("device", .str t.device)]

/-- The path of a dictionary's child: the key alone at the top. -/
def keyPath (path key : String) : String := if path = "" then key else path ++ "." ++ key

def indexPath (path : String) (index : Nat) : String := path ++ "[" ++ toString index ++ "]"

section Extract
variable (pick : Tensor τ → Bool)

mutual

/-- The value with every tensor that `pick` accepts replaced by its placeholder,
and those tensors by path. -/
def extractWith : Value τ σ → String → Value τ σ × Dict String (Tensor τ)
  | .tensor t, path =>
    if pick t then (placeholder path t, (∅ : Dict String (Tensor τ)).set path t) else (.tensor t, ∅)
  | .dict entries, path =>
    let r := extractEntries entries path [] ∅
    (.dict r.1, r.2)
  | .list items, path =>
    let r := extractItems items path 0 [] ∅
    (.list r.1, r.2)
  | .tuple items, path =>
    let r := extractItems items path 0 [] ∅
    (.tuple r.1, r.2)
  | .str s, _ => (.str s, ∅)
  | .int n, _ => (.int n, ∅)
  | .scalar s, _ => (.scalar s, ∅)

def extractEntries : List (String × Value τ σ) → String → List (String × Value τ σ) →
    Dict String (Tensor τ) → List (String × Value τ σ) × Dict String (Tensor τ)
  | [], _, out, tensors => (out, tensors)
  | (key, value) :: rest, path, out, tensors =>
    let child := extractWith value (keyPath path key)
    extractEntries rest path (setEntries key child.1 out) (tensors.update child.2)

def extractItems : List (Value τ σ) → String → Nat → List (Value τ σ) →
    Dict String (Tensor τ) → List (Value τ σ) × Dict String (Tensor τ)
  | [], _, _, out, tensors => (out, tensors)
  | value :: rest, path, index, out, tensors =>
    let child := extractWith value (indexPath path index)
    extractItems rest path (index + 1) (out ++ [child.1]) (tensors.update child.2)

end

end Extract

def extractTensors (v : Value τ σ) : Value τ σ × Dict String (Tensor τ) :=
  extractWith (fun _ => true) v ""

/-- A placeholder path that is not in the map (`KeyError`), or that cannot be
looked up at all (`TypeError`). -/
inductive Error (τ σ : Type) where
  | missingTensor (path : Value τ σ)
  | unhashable (path : Value τ σ)

mutual

def Value.hashable : Value τ σ → Bool
  | .dict _ => false
  | .list _ => false
  | .tuple items => hashableItems items
  | _ => true

def hashableItems : List (Value τ σ) → Bool
  | [] => true
  | v :: rest => v.hashable && hashableItems rest

end

/-- The tensor a placeholder names. -/
def lookupPlaceholder (tensors : Dict String (Tensor τ)) (path : Value τ σ) :
    Except (Error τ σ) (Value τ σ) :=
  match path with
  | .str p =>
    match tensors.get? p with
    | some t => .ok (.tensor t)
    | none => .error (.missingTensor path)
  | _ => if path.hashable then .error (.missingTensor path) else .error (.unhashable path)

mutual

def restoreTensors (tensors : Dict String (Tensor τ)) :
    Value τ σ → Except (Error τ σ) (Value τ σ)
  | .dict entries =>
    match entries.lookup placeholderKey with
    | some path => lookupPlaceholder tensors path
    | none => do return .dict (← restoreEntries tensors entries)
  | .list items => do return .list (← restoreItems tensors items)
  | .tuple items => do return .tuple (← restoreItems tensors items)
  | .tensor t => .ok (.tensor t)
  | .str s => .ok (.str s)
  | .int n => .ok (.int n)
  | .scalar s => .ok (.scalar s)

def restoreEntries (tensors : Dict String (Tensor τ)) :
    List (String × Value τ σ) → Except (Error τ σ) (List (String × Value τ σ))
  | [] => .ok []
  | (key, value) :: rest => do
    let value ← restoreTensors tensors value
    let rest ← restoreEntries tensors rest
    return (key, value) :: rest

def restoreItems (tensors : Dict String (Tensor τ)) :
    List (Value τ σ) → Except (Error τ σ) (List (Value τ σ))
  | [] => .ok []
  | value :: rest => do
    let value ← restoreTensors tensors value
    let rest ← restoreItems tensors rest
    return value :: rest

end

end SglangOmni.Comm.StageIo
