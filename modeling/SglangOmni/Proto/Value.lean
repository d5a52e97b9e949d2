import SglangOmni.Lib.Dict

/-! Python values, as far as the control plane's codecs look into them.

A dictionary with string keys is its entries in order. `object` is any value that is none of
the others (a float, an instance of a class, a dictionary with other keys); the codecs only
pass it on. -/
namespace SglangOmni.Proto

inductive Value where
  | none
  | bool (b : Bool)
  | int (n : Int)
  | str (s : String)
  | list (items : List Value)
  | tuple (items : List Value)
  | dict (entries : List (String × Value))
  | object (typeName : String) (id : Nat)

abbrev Entries := List (String × Value)

inductive PyError where
  | keyError (key : String)
  | typeError (message : String)
  | valueError (message : String)
  deriving DecidableEq

namespace Value

/-- `type(value).__name__`. -/
def typeName : Value → String
  | .none => "NoneType"
  | .bool _ => "bool"
  | .int _ => "int"
  | .str _ => "str"
  | .list _ => "list"
  | .tuple _ => "tuple"
  | .dict _ => "dict"
  | .object name _ => name

def isNone : Value → Bool
  | .none => true
  | _ => false

/-- `bool(value)`; an object is true. -/
def truthy : Value → Bool
  | .none => false
  | .bool b => b
  | .int n => n ≠ 0
  | .str s => s ≠ ""
  | .list items | .tuple items => !items.isEmpty
  | .dict entries => !entries.isEmpty
  | .object .. => true

end Value

/-! ### Dictionaries -/

/-- `d.get(key)`. -/
def dictGet (d : Entries) (key : String) : Value := (d.lookup key).getD .none

/-- `d[key]`. -/
def item (d : Entries) (key : String) : Except PyError Value :=
  match d.lookup key with
  | none => .error (.keyError key)
  | some value => .ok value

/-- An entry that is written only when there is a value. -/
def entry (key : String) : Option Value → Entries
  | none => []
  | some value => [(key, value)]

@[simp] theorem lookup_entry (key k : String) (value : Option Value) :
    (entry key value).lookup k = if k = key then value else none := by
  cases value with
  | none => simp [entry]
  | some value =>
    by_cases h : k = key
    · simp [entry, h]
    · have hb : (k == key) = false := beq_eq_false_iff_ne.mpr h
      simp [entry, h, List.lookup_cons, hb]

@[simp] theorem lookup_cons_literal (key k : String) (value : Value) (rest : Entries) :
    List.lookup k ((key, value) :: rest) = if k = key then some value else rest.lookup k := by
  by_cases h : k = key
  · simp [h]
  · have hb : (k == key) = false := beq_eq_false_iff_ne.mpr h
    simp [List.lookup_cons, h, hb]

/-- A value that is looked up is smaller than the dictionary. -/
theorem sizeOf_lookup {d : Entries} {key : String} {value : Value} (h : d.lookup key = some value) :
    sizeOf value < sizeOf d := by
  induction d with
  | nil => cases h
  | cons e rest ih =>
    obtain ⟨k, v⟩ := e
    rw [lookup_cons_literal] at h
    simp only [List.cons.sizeOf_spec, Prod.mk.sizeOf_spec]
    split at h
    · cases h
      omega
    · have := ih h
      omega

/-- `dict(items)`: later pairs overwrite earlier ones. -/
def pairs (items : List Value) : Except PyError Entries :=
  items.foldlM
    (fun d item =>
      match item with
      | .list [.str key, value] | .tuple [.str key, value] => .ok (Lib.setEntries key value d)
      | _ => .error (.typeError "cannot convert dictionary update sequence element to a sequence"))
    []

/-- `dict(value)`. -/
def dictOf : Value → Except PyError Entries
  | .dict entries => .ok entries
  | .list items | .tuple items => pairs items
  | value => .error (.typeError (value.typeName ++ " object is not iterable"))

/-- `list(value)`; the characters of a string. -/
def listOf : Value → Except PyError (List Value)
  | .list items | .tuple items => .ok items
  | .dict entries => .ok (entries.map fun e => .str e.1)
  | .str s => .ok (s.toList.map fun c => .str (String.singleton c))
  | value => .error (.typeError (value.typeName ++ " object is not iterable"))

end SglangOmni.Proto
