import SglangOmni.Lib.Dict
import Mathlib.Data.String.Basic

/-! Config documents and the paths into them.

A document is what `model_dump` gives: dictionaries, lists and scalars; a value that was read against the schema may
also be a model. Two dictionaries with the same entries are the same in Python whatever their order, so that entries
are kept in the order of their keys. A path goes through
keys of dictionaries and through the entries of a list by their name; writing at a path creates the mappings that
are missing on the way, and never a list entry. Writes at different paths of one length commute, as long as
neither changes a name that paths go by (`updateAt_comm`). -/
namespace SglangOmni.Config
open Lib

/-! ### Documents -/

inductive PyFloat where
  | finite (value : Rat)
  | negativeZero
  | infinite (negative : Bool)
  | nan
  deriving DecidableEq

inductive Value where
  | null
  | bool (b : Bool)
  | int (n : Int)
  | float (x : PyFloat)
  | str (s : String)
  | list (items : List Value)
  | dict (entries : List (String × Value))
  | model (cls : String) (fields : List (String × Value))

abbrev Entries := List (String × Value)

/-- What a number counts for when it is compared: `True` is 1, and 1.0 is 1. -/
def Value.number : Value → Option Rat
  | .bool b => some (if b then 1 else 0)
  | .int n => some n
  | .float (.finite x) => some x
  | .float .negativeZero => some 0
  | _ => none

mutual

/-- `a == b`. -/
def Value.pyEq : Value → Value → Bool
  | .null, .null => true
  | .str a, .str b => a = b
  | .float (.infinite a), .float (.infinite b) => a = b
  | .list a, .list b => pyEqItems a b
  | .dict a, .dict b => pyEqEntries a b
  | .model c a, .model d b => c = d && pyEqEntries a b
  | a, b =>
    match a.number, b.number with
    | some x, some y => x = y
    | _, _ => false

def Value.pyEqItems : List Value → List Value → Bool
  | [], [] => true
  | a :: as, b :: bs => a.pyEq b && pyEqItems as bs
  | _, _ => false

def Value.pyEqEntries : Entries → Entries → Bool
  | [], [] => true
  | (j, a) :: as, (k, b) :: bs => j = k && a.pyEq b && pyEqEntries as bs
  | _, _ => false

end

/-! ### Comparison in Python is symmetric and transitive -/

mutual

/-- The value with every number in one form; nothing when a NaN is in it. -/
def Value.canonical : Value → Option Value
  | .null => some .null
  | .str s => some (.str s)
  | .float (.infinite a) => some (.float (.infinite a))
  | .list items => (canonicalItems items).map .list
  | .dict entries => (canonicalEntries entries).map .dict
  | .model cls fields => (canonicalEntries fields).map (.model cls)
  | v => v.number.map fun x => .float (.finite x)

def Value.canonicalItems : List Value → Option (List Value)
  | [] => some []
  | v :: rest => do
    let a ← v.canonical
    let as ← canonicalItems rest
    return a :: as

def Value.canonicalEntries : Entries → Option Entries
  | [] => some []
  | (k, v) :: rest => do
    let a ← v.canonical
    let as ← canonicalEntries rest
    return (k, a) :: as

end

variable {v : Value}

theorem Value.canonicalItems_cons {rest cs : List Value} :
    canonicalItems (v :: rest) = some cs ↔
      ∃ a as, v.canonical = some a ∧ canonicalItems rest = some as ∧ cs = a :: as := by
  simp only [canonicalItems, Option.bind_eq_bind, Option.pure_def, Option.bind_eq_some_iff, Option.some.injEq]
  exact ⟨fun ⟨a, ha, as, has, he⟩ => ⟨a, as, ha, has, he.symm⟩, fun ⟨a, as, ha, has, he⟩ => ⟨a, ha, as, has, he.symm⟩⟩

theorem Value.canonicalEntries_cons {k : String} {rest cs : Entries} :
    canonicalEntries ((k, v) :: rest) = some cs ↔
      ∃ a as, v.canonical = some a ∧ canonicalEntries rest = some as ∧ cs = (k, a) :: as := by
  simp only [canonicalEntries, Option.bind_eq_bind, Option.pure_def, Option.bind_eq_some_iff, Option.some.injEq]
  exact ⟨fun ⟨a, ha, as, has, he⟩ => ⟨a, as, ha, has, he.symm⟩, fun ⟨a, as, ha, has, he⟩ => ⟨a, ha, as, has, he.symm⟩⟩

theorem zero_eq_intCast (n : Int) : (0 : Rat) = n ↔ n = 0 := eq_comm.trans Rat.intCast_eq_zero_iff

mutual

theorem Value.pyEq_iff (a b : Value) : a.pyEq b = true ↔ ∃ c, a.canonical = some c ∧ b.canonical = some c := by
  cases a with
  | list as =>
    cases b with
    | list bs => simp [pyEq, canonical, Value.pyEqItems_iff as bs]
    | float x => cases x <;> simp [pyEq, canonical, number]
    | _ => simp [pyEq, canonical, number]
  | dict as =>
    cases b with
    | dict bs => simp [pyEq, canonical, Value.pyEqEntries_iff as bs]
    | float x => cases x <;> simp [pyEq, canonical, number]
    | _ => simp [pyEq, canonical, number]
  | model c as =>
    cases b with
    | model d bs =>
      simp only [pyEq, canonical, Bool.and_eq_true, decide_eq_true_eq, Value.pyEqEntries_iff as bs]
      simp
      grind
    | float x => cases x <;> simp [pyEq, canonical, number]
    | _ => simp [pyEq, canonical, number]
  | float x =>
    cases b with
    | float y => cases x <;> cases y <;> simp [pyEq, canonical, number] <;> exact eq_comm
    | int n =>
      cases x <;> simp [pyEq, canonical, number, zero_eq_intCast]
      exact eq_comm
    | _ => cases x <;> simp [pyEq, canonical, number] <;> exact eq_comm
  | _ =>
    cases b with
    | float y => cases y <;> simp [pyEq, canonical, number, zero_eq_intCast] <;> exact eq_comm
    | _ => simp [pyEq, canonical, number] <;> exact eq_comm

theorem Value.pyEqItems_iff (as bs : List Value) :
    pyEqItems as bs = true ↔ ∃ cs, canonicalItems as = some cs ∧ canonicalItems bs = some cs := by
  cases as with
  | nil =>
    cases bs with
    | nil => simp [pyEqItems, canonicalItems]
    | cons b bs => simp [pyEqItems, canonicalItems_cons, canonicalItems.eq_1]
  | cons a as =>
    cases bs with
    | nil => simp [pyEqItems, canonicalItems_cons, canonicalItems.eq_1]
    | cons b bs =>
      simp only [pyEqItems, canonicalItems_cons, Bool.and_eq_true, Value.pyEq_iff a b, Value.pyEqItems_iff as bs]
      grind

theorem Value.pyEqEntries_iff (as bs : Entries) :
    pyEqEntries as bs = true ↔ ∃ cs, canonicalEntries as = some cs ∧ canonicalEntries bs = some cs := by
  cases as with
  | nil =>
    cases bs with
    | nil => simp [pyEqEntries, canonicalEntries]
    | cons b bs =>
      obtain ⟨k, b⟩ := b
      simp [pyEqEntries, canonicalEntries_cons, canonicalEntries.eq_1]
  | cons a as =>
    obtain ⟨j, a⟩ := a
    cases bs with
    | nil => simp [pyEqEntries, canonicalEntries_cons, canonicalEntries.eq_1]
    | cons b bs =>
      obtain ⟨k, b⟩ := b
      simp only [pyEqEntries, canonicalEntries_cons, Bool.and_eq_true, decide_eq_true_eq, Value.pyEq_iff a b,
        Value.pyEqEntries_iff as bs]
      grind

end

theorem Value.pyEq_symm {a b : Value} (h : a.pyEq b = true) : b.pyEq a = true := by
  obtain ⟨c, ha, hb⟩ := (Value.pyEq_iff a b).mp h
  exact (Value.pyEq_iff b a).mpr ⟨c, hb, ha⟩

theorem Value.pyEq_trans {a b c : Value} (hab : a.pyEq b = true) (hbc : b.pyEq c = true) : a.pyEq c = true := by
  obtain ⟨x, ha, hb⟩ := (Value.pyEq_iff a b).mp hab
  obtain ⟨y, hb', hc⟩ := (Value.pyEq_iff b c).mp hbc
  have hxy : x = y := Option.some.inj (hb.symm.trans hb')
  exact (Value.pyEq_iff a c).mpr ⟨x, ha, hxy ▸ hc⟩

/-! ### Entries in the order of their keys -/

def insertKey (k : String) (v : Value) : Entries → Entries
  | [] => [(k, v)]
  | e :: rest => if k = e.1 then (k, v) :: rest else if k < e.1 then (k, v) :: e :: rest else e :: insertKey k v rest

theorem insertKey_nil (k : String) (v : Value) : insertKey k v [] = [(k, v)] := rfl

theorem insertKey_cons (k : String) (v : Value) (e : String × Value) (rest : Entries) :
    insertKey k v (e :: rest) =
      if k = e.1 then (k, v) :: rest else if k < e.1 then (k, v) :: e :: rest else e :: insertKey k v rest := rfl

theorem lookup_insertKey (k : String) (v : Value) (l : Entries) (x : String) :
    (insertKey k v l).lookup x = if x = k then some v else l.lookup x := by
  induction l with
  | nil => exact Dict.lookup_cons_eq ..
  | cons e rest ih =>
    rw [insertKey_cons]
    split
    · next he =>
      rw [Dict.lookup_cons_eq, Dict.lookup_cons_eq]
      by_cases hx : x = k
      · simp [hx]
      · simp [hx, ← he]
    · next he =>
      split
      · rw [Dict.lookup_cons_eq]
      · rw [Dict.lookup_cons_eq, Dict.lookup_cons_eq, ih]
        by_cases hx : x = k
        · simp [hx, he]
        · simp [hx]

theorem insertKey_insertKey (k : String) (v w : Value) (l : Entries) :
    insertKey k w (insertKey k v l) = insertKey k w l := by
  induction l with
  | nil => exact if_pos rfl
  | cons e rest ih =>
    by_cases he : k = e.1
    · simp [insertKey_cons, he]
    · by_cases hlt : k < e.1
      · simp [insertKey_cons, he, hlt]
      · simp [insertKey_cons, he, hlt, ih]

/-- Keys that are written in another order end up in the same places. -/
theorem insertKey_comm {j k : String} (hne : j ≠ k) (v w : Value) (l : Entries) :
    insertKey j v (insertKey k w l) = insertKey k w (insertKey j v l) := by
  induction l with
  | nil =>
    rcases lt_or_gt_of_ne hne with h | h
    · simp [insertKey_cons, insertKey_nil, hne, Ne.symm hne, h, not_lt_of_gt h]
    · simp [insertKey_cons, insertKey_nil, hne, Ne.symm hne, h, not_lt_of_gt h]
  | cons e rest ih =>
    by_cases hj : j = e.1
    · subst hj
      by_cases hk : k < e.1
      · simp [insertKey_cons, hne, Ne.symm hne, hk, not_lt_of_gt hk]
      · simp [insertKey_cons, Ne.symm hne, hk]
    · by_cases hk : k = e.1
      · subst hk
        by_cases hlt : j < e.1
        · simp [insertKey_cons, hne, Ne.symm hne, hlt, not_lt_of_gt hlt]
        · simp [insertKey_cons, hne, hlt]
      · by_cases hje : j < e.1
        · by_cases hke : k < e.1
          · rcases lt_or_gt_of_ne hne with h | h
            · simp [insertKey_cons, hj, hk, hne, Ne.symm hne, hje, hke, h, not_lt_of_gt h]
            · simp [insertKey_cons, hj, hk, hne, Ne.symm hne, hje, hke, h, not_lt_of_gt h]
          · have hlt : j < k := lt_of_lt_of_le hje (not_lt.mp hke)
            simp [insertKey_cons, hj, hk, Ne.symm hne, hje, hke, not_lt_of_gt hlt]
        · by_cases hke : k < e.1
          · have hlt : k < j := lt_of_lt_of_le hke (not_lt.mp hje)
            simp [insertKey_cons, hj, hk, hne, hje, hke, not_lt_of_gt hlt]
          · simp [insertKey_cons, hj, hk, hje, hke, ih]

/-! ### Paths -/

/-- What reading and writing look at in a segment of a path: a key, or the name of a list entry. -/
structure Step where
  raw : String
  named : Bool := false
  deriving DecidableEq

/-- The list entry goes by the name. -/
def isNamed (name : String) : Value → Bool
  | .dict entries =>
    match entries.lookup "name" with
    | some (.str s) => s = name
    | _ => false
  | _ => false

/-- `read`; nothing where a step is not there. -/
def readAt : List Step → Value → Option Value
  | [], v => some v
  | step :: rest, .list items =>
    if step.named then
      match items.find? (isNamed step.raw) with
      | some item => readAt rest item
      | none => none
    else none
  | step :: rest, .dict entries =>
    if step.named then none
    else
      match entries.lookup step.raw with
      | some v => readAt rest v
      | none => none
  | _ :: _, _ => none

theorem readAt_nil (v : Value) : readAt [] v = some v := rfl

theorem readAt_cons_list (step : Step) (rest : List Step) (items : List Value) :
    readAt (step :: rest) (.list items) =
      if step.named then
        match items.find? (isNamed step.raw) with
        | some item => readAt rest item
        | none => none
      else none := rfl

theorem readAt_cons_dict (step : Step) (rest : List Step) (entries : Entries) :
    readAt (step :: rest) (.dict entries) =
      if step.named then none
      else
        match entries.lookup step.raw with
        | some v => readAt rest v
        | none => none := rfl

/-- What a path goes on in: a mapping is made where there is nothing. -/
def container : Option Value → Value
  | none => .dict []
  | some .null => .dict []
  | some v => v

/-- The document with `f` applied at a path to what is there; nothing where the path cannot be followed. -/
def updateAt : List Step → (Option Value → Value) → Option Value → Option Value
  | [], f, o => some (f o)
  | step :: rest, f, o =>
    match container o with
    | .list items =>
      if step.named then
        match items.findIdx? (isNamed step.raw) with
        | some i => (updateAt rest f items[i]?).map fun v => .list (items.set i v)
        | none => none
      else none
    | .dict entries =>
      if step.named then none
      else (updateAt rest f (entries.lookup step.raw)).map fun v => .dict (insertKey step.raw v entries)
    | _ => none

/-- `write`. -/
def writeAt (path : List Step) (v : Value) (data : Value) : Option Value :=
  updateAt path (fun _ => v) (some data)

/-! ### Names are kept -/

/-- The update gives no list entry another name: it neither writes below the `name` of an entry nor puts an entry of
another name in its place. -/
def KeepsNames : List Step → (Option Value → Value) → Prop
  | [], _ => True
  | [step], f => step.named = true → ∀ v other, isNamed step.raw v = true → isNamed other (f (some v)) = true →
      other = step.raw
  | step :: next :: rest, f => (step.named = true → next.raw ≠ "name") ∧ KeepsNames (next :: rest) f

variable {f : Option Value → Value} {rest : List Step} {step : Step} {w : Value} {i : Nat} {items : List Value}

theorem KeepsNames.tail (h : KeepsNames (step :: rest) f) : KeepsNames rest f := by
  cases rest with
  | nil => trivial
  | cons next rest => exact h.2

/-- An entry goes by one name at most. -/
theorem isNamed_unique {a b : String} (ha : isNamed a v = true) (hb : isNamed b v = true) : a = b := by
  cases v with
  | dict entries =>
    unfold isNamed at ha hb
    cases hname : entries.lookup "name" with
    | none => simp [hname] at ha
    | some w =>
      cases w with
      | str s =>
        simp only [hname, decide_eq_true_eq] at ha hb
        exact ha.symm.trans hb
      | _ => simp [hname] at ha
  | _ => simp [isNamed] at ha

theorem isNamed_eq_false {a b : String} (hv : isNamed a v = true) (hne : a ≠ b) : isNamed b v = false := by
  by_contra h
  exact hne (isNamed_unique hv (by simpa using h))

/-- An update below the entry of a name leaves it its name. -/
theorem updateAt_isNamed {next : Step}
    (keeps : KeepsNames (step :: next :: rest) f) (named : step.named = true) (hv : isNamed step.raw v = true)
    (h : updateAt (next :: rest) f (some v) = some w) : isNamed step.raw w = true := by
  cases v with
  | dict entries =>
    simp only [updateAt, container] at h
    split at h
    · cases h
    · obtain ⟨u, _, rfl⟩ := Option.map_eq_some_iff.mp h
      have hname : "name" ≠ next.raw := Ne.symm (keeps.1 named)
      simp only [isNamed, lookup_insertKey, if_neg hname] at hv ⊢
      exact hv
  | _ => simp [isNamed] at hv

/-- The entry goes by no other name after an update of it. -/
theorem updateAt_isNamed_other {other : String}
    (keeps : KeepsNames (step :: rest) f) (named : step.named = true) (hv : isNamed step.raw v = true)
    (h : updateAt rest f (some v) = some w) (hne : other ≠ step.raw) : isNamed other w = isNamed other v := by
  rw [isNamed_eq_false hv (Ne.symm hne)]
  cases rest with
  | nil =>
    cases h
    by_contra hw
    exact hne (keeps named v other hv (by simpa using hw))
  | cons next rest => exact isNamed_eq_false (updateAt_isNamed keeps named hv h) (Ne.symm hne)

/-- Nobody is found elsewhere after an entry was exchanged for one of the same name. -/
theorem findIdx?_set {P : Value → Bool} (hi : items[i]? = some v)
    (h : P w = P v) : (items.set i w).findIdx? P = items.findIdx? P := by
  induction items generalizing i with
  | nil => rfl
  | cons a rest ih =>
    cases i with
    | zero =>
      cases hi
      rw [List.set_cons_zero, List.findIdx?_cons, List.findIdx?_cons, h]
    | succ i =>
      rw [List.set_cons_succ, List.findIdx?_cons, List.findIdx?_cons, ih hi]

theorem getElem?_of_findIdx? {P : Value → Bool} (h : items.findIdx? P = some i) :
    ∃ v, items[i]? = some v ∧ P v = true := by
  obtain ⟨hlt, hp, _⟩ := List.findIdx?_eq_some_iff_getElem.mp h
  exact ⟨items[i], List.getElem?_eq_getElem hlt, hp⟩

/-! ### Updates that commute -/

theorem updateAt_list (named : step.named = true) (h : items.findIdx? (isNamed step.raw) = some i) :
    updateAt (step :: rest) f (some (.list items)) =
      (updateAt rest f items[i]?).map fun v => .list (items.set i v) := by
  simp only [updateAt, container, named, if_true, h]

variable {entries : Entries} {a b : Step} {g : Option Value → Value} {p q : List Step} {o : Option Value}

theorem updateAt_dict (key : step.named = false) :
    updateAt (step :: rest) f (some (.dict entries)) =
      (updateAt rest f (entries.lookup step.raw)).map fun v => .dict (insertKey step.raw v entries) := by
  simp only [updateAt, container, key, Bool.false_eq_true, if_false]

/-- Both orders of two updates. -/
def Commute (p q : List Step) (f g : Option Value → Value) (o : Option Value) : Prop :=
  (updateAt p f o).bind (fun v => updateAt q g (some v)) = (updateAt q g o).bind (fun v => updateAt p f (some v))

theorem commute_dict (ha : a.named = false) (hb : b.named = false) (hne : a.raw ≠ b.raw) :
    Commute (a :: p) (b :: q) f g (some (.dict entries)) := by
  unfold Commute
  rw [updateAt_dict ha, updateAt_dict hb]
  cases hu : updateAt p f (entries.lookup a.raw) with
  | none =>
    cases hw : updateAt q g (entries.lookup b.raw) with
    | none => rfl
    | some w =>
      simp only [Option.map_none, Option.bind_none, Option.map_some, Option.bind_some]
      rw [updateAt_dict ha, lookup_insertKey, if_neg hne, hu]
      rfl
  | some u =>
    simp only [Option.map_some, Option.bind_some]
    rw [updateAt_dict hb, lookup_insertKey, if_neg (Ne.symm hne)]
    cases hw : updateAt q g (entries.lookup b.raw) with
    | none => rfl
    | some w =>
      simp only [Option.map_some, Option.bind_some]
      rw [updateAt_dict ha, lookup_insertKey, if_neg hne, hu, Option.map_some, insertKey_comm hne]

theorem updateAt_list_none (named : step.named = true) (h : items.findIdx? (isNamed step.raw) = none) :
    updateAt (step :: rest) f (some (.list items)) = none := by
  simp only [updateAt, container, named, if_true, h]

/-- After the entry of one name was updated, the entry of another name is found where it was. -/
theorem findIdx?_other {u : Value}
    {other : String} (ha : a.named = true) (keeps : KeepsNames (a :: p) f) (hi : items[i]? = some v)
    (hv : isNamed a.raw v = true) (hu : updateAt p f (some v) = some u) (hne : other ≠ a.raw) :
    (items.set i u).findIdx? (isNamed other) = items.findIdx? (isNamed other) :=
  findIdx?_set hi (updateAt_isNamed_other keeps ha hv hu hne)

theorem updateAt_list_after {u : Value} (ha : a.named = true) (hb : b.named = true) (keeps : KeepsNames (a :: p) f)
    (hi : items[i]? = some v) (hv : isNamed a.raw v = true) (hu : updateAt p f (some v) = some u)
    (hne : b.raw ≠ a.raw) :
    updateAt (b :: q) g (some (.list (items.set i u))) =
      match items.findIdx? (isNamed b.raw) with
      | some j => (updateAt q g (items.set i u)[j]?).map fun w => .list ((items.set i u).set j w)
      | none => none := by
  have hfind := findIdx?_other ha keeps hi hv hu hne
  cases hj : items.findIdx? (isNamed b.raw) with
  | none => exact updateAt_list_none hb (hfind.trans hj)
  | some j => exact updateAt_list hb (hfind.trans hj)

theorem commute_list (ha : a.named = true) (hb : b.named = true) (hne : a.raw ≠ b.raw) (hf : KeepsNames (a :: p) f)
    (hg : KeepsNames (b :: q) g) : Commute (a :: p) (b :: q) f g (some (.list items)) := by
  unfold Commute
  cases hi : items.findIdx? (isNamed a.raw) with
  | none =>
    rw [updateAt_list_none ha hi]
    cases hj : items.findIdx? (isNamed b.raw) with
    | none =>
      rw [updateAt_list_none hb hj]
      rfl
    | some j =>
      obtain ⟨w, hw, hwn⟩ := getElem?_of_findIdx? hj
      rw [updateAt_list hb hj, hw]
      cases hu : updateAt q g (some w) with
      | none => rfl
      | some u =>
        simp only [Option.map_some, Option.bind_some, Option.bind_none]
        rw [updateAt_list_after hb ha hg hw hwn hu hne, hi]
  | some i =>
    obtain ⟨v, hv, hvn⟩ := getElem?_of_findIdx? hi
    rw [updateAt_list ha hi, hv]
    cases hj : items.findIdx? (isNamed b.raw) with
    | none =>
      rw [updateAt_list_none hb hj]
      cases hu : updateAt p f (some v) with
      | none => rfl
      | some u =>
        simp only [Option.map_some, Option.bind_some, Option.bind_none]
        rw [updateAt_list_after ha hb hf hv hvn hu (Ne.symm hne), hj]
    | some j =>
      obtain ⟨w, hw, hwn⟩ := getElem?_of_findIdx? hj
      have hij : i ≠ j := fun he => by
        rw [he, hw] at hv
        cases hv
        exact hne (isNamed_unique hvn hwn)
      rw [updateAt_list hb hj, hw]
      cases hu : updateAt p f (some v) with
      | none =>
        cases hx : updateAt q g (some w) with
        | none => rfl
        | some x =>
          simp only [Option.map_none, Option.bind_none, Option.map_some, Option.bind_some]
          rw [updateAt_list_after hb ha hg hw hwn hx hne, hi]
          simp only
          rw [List.getElem?_set_ne (Ne.symm hij), hv, hu]
          rfl
      | some u =>
        simp only [Option.map_some, Option.bind_some]
        rw [updateAt_list_after ha hb hf hv hvn hu (Ne.symm hne), hj]
        simp only
        rw [List.getElem?_set_ne hij, hw]
        cases hx : updateAt q g (some w) with
        | none => rfl
        | some x =>
          simp only [Option.map_some, Option.bind_some]
          rw [updateAt_list_after hb ha hg hw hwn hx hne, hi]
          simp only
          rw [List.getElem?_set_ne (Ne.symm hij), hv, hu, List.set_comm _ _ hij]
          rfl

theorem updateAt_container (step : Step) (rest : List Step) (f : Option Value → Value) (o : Option Value) :
    updateAt (step :: rest) f o = updateAt (step :: rest) f (some (container o)) := by
  have hself : container (some (container o)) = container o := by
    cases o with
    | none => rfl
    | some v => cases v <;> rfl
  simp only [updateAt, hself]

theorem container_ne_null (o : Option Value) : container o ≠ .null := by
  cases o with
  | none => exact fun h => nomatch h
  | some v => cases v <;> exact fun h => nomatch h

theorem updateAt_key_list (key : step.named = false) : updateAt (step :: rest) f (some (.list items)) = none := by
  simp only [updateAt, container, key, Bool.false_eq_true, if_false]

theorem updateAt_named_dict (named : step.named = true) : updateAt (step :: rest) f (some (.dict entries)) = none := by
  simp only [updateAt, container, named, if_true]

/-- Two updates below one key, seen from the mapping. -/
theorem bind_updateAt_dict (ha : a.named = false) :
    ((updateAt (a :: p) f (some (.dict entries))).bind fun v => updateAt (a :: q) g (some v)) =
      ((updateAt p f (entries.lookup a.raw)).bind fun v => updateAt q g (some v)).map fun w =>
        .dict (insertKey a.raw w entries) := by
  rw [updateAt_dict ha]
  cases updateAt p f (entries.lookup a.raw) with
  | none => rfl
  | some u =>
    simp only [Option.map_some, Option.bind_some]
    rw [updateAt_dict ha, lookup_insertKey, if_pos rfl]
    simp only [insertKey_insertKey]

/-- Two updates below one list entry, seen from the list. -/
theorem bind_updateAt_list {next : Step}
    (ha : a.named = true) (hf : KeepsNames (a :: next :: p) f) (hi : items.findIdx? (isNamed a.raw) = some i) :
    ((updateAt (a :: next :: p) f (some (.list items))).bind fun v => updateAt (a :: q) g (some v)) =
      ((updateAt (next :: p) f items[i]?).bind fun v => updateAt q g (some v)).map fun w =>
        .list (items.set i w) := by
  obtain ⟨v, hv, hvn⟩ := getElem?_of_findIdx? hi
  have hlt : i < items.length := (List.getElem?_eq_some_iff.mp hv).1
  rw [updateAt_list ha hi, hv]
  cases hu : updateAt (next :: p) f (some v) with
  | none => rfl
  | some u =>
    have hfind : (items.set i u).findIdx? (isNamed a.raw) = some i :=
      (findIdx?_set hv ((updateAt_isNamed hf ha hvn hu).trans hvn.symm)).trans hi
    simp only [Option.map_some, Option.bind_some]
    rw [updateAt_list ha hfind]
    simp only [List.getElem?_set_self hlt, List.set_set]

/-- One path goes on by a key and the other by a name: one of them cannot be followed. -/
theorem commute_mixed (ha : a.named = true) (hb : b.named = false) :
    ((updateAt (a :: p) f o).bind fun v => updateAt (b :: q) g (some v)) = none ∧
      ((updateAt (b :: q) g o).bind fun v => updateAt (a :: p) f (some v)) = none := by
  rw [updateAt_container a, updateAt_container b]
  cases hc : container o with
  | dict entries =>
    rw [updateAt_named_dict ha, updateAt_dict hb]
    refine ⟨rfl, ?_⟩
    cases updateAt q g (entries.lookup b.raw) with
    | none => rfl
    | some w => exact updateAt_named_dict ha
  | list items =>
    rw [updateAt_key_list hb]
    refine ⟨?_, rfl⟩
    cases hi : items.findIdx? (isNamed a.raw) with
    | none => rw [updateAt_list_none ha hi, Option.bind_none]
    | some i =>
      rw [updateAt_list ha hi]
      cases updateAt p f items[i]? with
      | none => rfl
      | some u => exact updateAt_key_list hb
  | null => exact absurd hc (container_ne_null o)
  | _ => exact ⟨rfl, rfl⟩

theorem commute_same {x y : Step}
    (hf : KeepsNames (a :: x :: p) f) (hg : KeepsNames (a :: y :: q) g) (ih : ∀ o, Commute (x :: p) (y :: q) f g o) :
    Commute (a :: x :: p) (a :: y :: q) f g o := by
  unfold Commute
  rw [updateAt_container a, updateAt_container a (y :: q)]
  cases hc : container o with
  | dict entries =>
    cases ha : a.named with
    | true =>
      rw [updateAt_named_dict ha, updateAt_named_dict ha]
      rfl
    | false => rw [bind_updateAt_dict ha, bind_updateAt_dict ha, ih]
  | list items =>
    cases ha : a.named with
    | false =>
      rw [updateAt_key_list ha, updateAt_key_list ha]
      rfl
    | true =>
      cases hi : items.findIdx? (isNamed a.raw) with
      | none =>
        rw [updateAt_list_none ha hi, updateAt_list_none ha hi]
        rfl
      | some i => rw [bind_updateAt_list ha hf hi, bind_updateAt_list ha hg hi, ih]
  | null => exact absurd hc (container_ne_null o)
  | _ => rfl

theorem commute_distinct
    (same : a.named = b.named) (hne : a.raw ≠ b.raw) (hf : KeepsNames (a :: p) f) (hg : KeepsNames (b :: q) g) :
    Commute (a :: p) (b :: q) f g o := by
  unfold Commute
  rw [updateAt_container a, updateAt_container b q]
  cases hc : container o with
  | dict entries =>
    cases ha : a.named with
    | true =>
      rw [updateAt_named_dict ha, updateAt_named_dict (same ▸ ha)]
      rfl
    | false => exact commute_dict ha (same ▸ ha) hne
  | list items =>
    cases ha : a.named with
    | false =>
      rw [updateAt_key_list ha, updateAt_key_list (same ▸ ha)]
      rfl
    | true => exact commute_list ha (same ▸ ha) hne hf hg
  | null => exact absurd hc (container_ne_null o)
  | _ => rfl

/-- **Updates at different paths of one length commute**, names kept; also in that they cannot be made. -/
theorem updateAt_comm (length : p.length = q.length) (hne : p ≠ q)
    (hf : KeepsNames p f) (hg : KeepsNames q g) (o : Option Value) : Commute p q f g o := by
  induction p generalizing q o with
  | nil => exact absurd (List.eq_nil_of_length_eq_zero length.symm).symm hne
  | cons a p ih =>
    cases q with
    | nil => cases length
    | cons b q =>
      have hlength : p.length = q.length := Nat.succ.inj length
      by_cases hnamed : a.named = b.named
      · by_cases hraw : a.raw = b.raw
        · have hab : a = b := by
            cases a
            cases b
            simp_all
          subst hab
          have htail : p ≠ q := fun he => hne (he ▸ rfl)
          cases p with
          | nil => exact absurd (List.eq_nil_of_length_eq_zero hlength.symm).symm htail
          | cons x p =>
            cases q with
            | nil => cases hlength
            | cons y q => exact commute_same hf hg fun o => ih hlength htail hf.tail hg.tail o
        · exact commute_distinct hnamed hraw hf hg
      · cases ha : a.named with
        | true =>
          have hb : b.named = false := by simpa [ha] using hnamed
          have hmixed := commute_mixed (f := f) (g := g) (p := p) (q := q) (o := o) ha hb
          exact hmixed.1.trans hmixed.2.symm
        | false =>
          have hb : b.named = true := by simpa [ha] using hnamed
          have hmixed := commute_mixed (f := g) (g := f) (p := q) (q := p) (o := o) hb ha
          exact hmixed.2.trans hmixed.1.symm

/-! ### Reading before writing -/

/-- Reading goes on below the first segment. -/
theorem readAt_list (named : step.named = true) (h : items.findIdx? (isNamed step.raw) = some i) :
    readAt (step :: rest) (.list items) = items[i]?.bind (readAt rest) := by
  have hfind : items.find? (isNamed step.raw) = items[i]? := by
    rw [List.find?_eq_bind_findIdx?_getElem?, h, Option.bind_some]
  simp only [readAt_cons_list, named, if_true, hfind]
  cases items[i]? with
  | none => rfl
  | some v => rfl

theorem readAt_dict (key : step.named = false) :
    readAt (step :: rest) (.dict entries) = (entries.lookup step.raw).bind (readAt rest) := by
  simp only [readAt_cons_dict, key, Bool.false_eq_true, if_false]
  cases entries.lookup step.raw with
  | none => rfl
  | some v => rfl

theorem readAt_container (step : Step) (rest : List Step) (o : Option Value) :
    readAt (step :: rest) (container o) = o.bind (readAt (step :: rest)) := by
  have hempty : readAt (step :: rest) (.dict []) = none := by
    cases hn : step.named <;> simp [readAt_cons_dict, hn]
  cases o with
  | none => exact hempty
  | some v =>
    cases v with
    | null => exact hempty
    | _ => rfl

/-- Only what is at the path counts for an update. -/
theorem updateAt_congr {path : List Step}
    (h : f (o.bind (readAt path)) = g (o.bind (readAt path))) : updateAt path f o = updateAt path g o := by
  induction path generalizing o with
  | nil =>
    have hread : o.bind (readAt []) = o := by
      cases o with
      | none => rfl
      | some v => exact readAt_nil v
    rw [hread] at h
    exact congrArg some h
  | cons step rest ih =>
    rw [updateAt_container, updateAt_container _ _ g]
    rw [← readAt_container] at h
    cases hc : container o with
    | list items =>
      rw [hc] at h
      cases hn : step.named with
      | false => rw [updateAt_key_list hn, updateAt_key_list hn]
      | true =>
        cases hi : items.findIdx? (isNamed step.raw) with
        | none => rw [updateAt_list_none hn hi, updateAt_list_none hn hi]
        | some i =>
          rw [readAt_list hn hi] at h
          rw [updateAt_list hn hi, updateAt_list hn hi, ih h]
    | dict entries =>
      rw [hc] at h
      cases hn : step.named with
      | true => rw [updateAt_named_dict hn, updateAt_named_dict hn]
      | false =>
        rw [readAt_dict hn] at h
        rw [updateAt_dict hn, updateAt_dict hn, ih h]
    | null => exact absurd hc (container_ne_null o)
    | _ => rfl

/-- An update is a read followed by a write. -/
theorem updateAt_eq_write (path : List Step) (f : Option Value → Value) (data : Value) :
    updateAt path f (some data) = writeAt path (f (readAt path data)) data :=
  updateAt_congr rfl

/-! ### Reading after writing -/

/-- Neither path goes on from where the other ends. -/
def Apart (p q : List Step) : Prop := ¬ p <+: q ∧ ¬ q <+: p

theorem Apart.tail (h : Apart (a :: p) (a :: q)) : Apart p q :=
  ⟨fun hp => h.1 (List.cons_prefix_cons.mpr ⟨rfl, hp⟩), fun hq => h.2 (List.cons_prefix_cons.mpr ⟨rfl, hq⟩)⟩

theorem readAt_list_none (named : step.named = true)
    (h : items.findIdx? (isNamed step.raw) = none) : readAt (step :: rest) (.list items) = none := by
  have hfind : items.find? (isNamed step.raw) = none := by
    rw [List.find?_eq_bind_findIdx?_getElem?, h, Option.bind_none]
  simp only [readAt_cons_list, named, if_true, hfind]

theorem readAt_key_list (key : step.named = false) :
    readAt (step :: rest) (.list items) = none := by
  simp only [readAt_cons_list, key, Bool.false_eq_true, if_false]

theorem readAt_named_dict (named : step.named = true) :
    readAt (step :: rest) (.dict entries) = none := by
  simp only [readAt_cons_dict, named, if_true]

/-- What a path can be followed into, and what an update makes of it. -/
theorem updateAt_cons_some (h : updateAt (step :: rest) f o = some w) :
    (∃ items i v u, container o = .list items ∧ step.named = true ∧ items.findIdx? (isNamed step.raw) = some i ∧
        items[i]? = some v ∧ isNamed step.raw v = true ∧ updateAt rest f (some v) = some u ∧
          w = .list (items.set i u)) ∨
      (∃ entries u, container o = .dict entries ∧ step.named = false ∧
        updateAt rest f (entries.lookup step.raw) = some u ∧ w = .dict (insertKey step.raw u entries)) := by
  rw [updateAt_container] at h
  cases hc : container o with
  | list items =>
    rw [hc] at h
    cases hn : step.named with
    | false =>
      rw [updateAt_key_list hn] at h
      cases h
    | true =>
      cases hi : items.findIdx? (isNamed step.raw) with
      | none =>
        rw [updateAt_list_none hn hi] at h
        cases h
      | some i =>
        obtain ⟨v, hv, hvn⟩ := getElem?_of_findIdx? hi
        rw [updateAt_list hn hi, hv] at h
        obtain ⟨u, hu, rfl⟩ := Option.map_eq_some_iff.mp h
        exact .inl ⟨items, i, v, u, rfl, rfl, hi, hv, hvn, hu, rfl⟩
  | dict entries =>
    rw [hc] at h
    cases hn : step.named with
    | true =>
      rw [updateAt_named_dict hn] at h
      cases h
    | false =>
      rw [updateAt_dict hn] at h
      obtain ⟨u, hu, rfl⟩ := Option.map_eq_some_iff.mp h
      exact .inr ⟨entries, u, rfl, rfl, hu, rfl⟩
  | null => exact absurd hc (container_ne_null o)
  | _ =>
    rw [hc] at h
    cases h

/-- An update is not seen from a path apart from it. -/
theorem readAt_updateAt_apart (apart : Apart p q) (keeps : KeepsNames q g) (h : updateAt q g o = some w) :
    readAt p w = o.bind (readAt p) := by
  induction p generalizing q o w with
  | nil => exact absurd List.nil_prefix apart.1
  | cons a p ih =>
    cases q with
    | nil => exact absurd List.nil_prefix apart.2
    | cons b q =>
      rw [← readAt_container]
      obtain ⟨items, i, v, u, hc, hb, hi, hv, hvn, hu, rfl⟩ | ⟨entries, u, hc, hb, hu, rfl⟩ := updateAt_cons_some h
      · rw [hc]
        cases ha : a.named with
        | false => rw [readAt_key_list ha, readAt_key_list ha]
        | true =>
          by_cases hraw : a.raw = b.raw
          · have hab : a = b := by
              cases a
              cases b
              simp_all
            subst hab
            cases q with
            | nil => exact absurd (List.cons_prefix_cons.mpr ⟨rfl, List.nil_prefix⟩) apart.2
            | cons next q =>
              have hlt : i < items.length := (List.getElem?_eq_some_iff.mp hv).1
              have hfind : (items.set i u).findIdx? (isNamed a.raw) = some i :=
                (findIdx?_set hv ((updateAt_isNamed keeps ha hvn hu).trans hvn.symm)).trans hi
              rw [readAt_list ha hfind, readAt_list ha hi, List.getElem?_set_self hlt, hv, Option.bind_some]
              exact ih apart.tail keeps.tail hu
          · have hfind := findIdx?_other hb keeps hv hvn hu hraw
            cases hj : items.findIdx? (isNamed a.raw) with
            | none => rw [readAt_list_none ha hj, readAt_list_none ha (hfind.trans hj)]
            | some j =>
              obtain ⟨x, hx, hxn⟩ := getElem?_of_findIdx? hj
              have hij : i ≠ j := fun he => by
                rw [he, hx] at hv
                cases hv
                exact hraw (isNamed_unique hxn hvn)
              rw [readAt_list ha hj, readAt_list ha (hfind.trans hj), List.getElem?_set_ne hij]
      · rw [hc]
        cases ha : a.named with
        | true => rw [readAt_named_dict ha, readAt_named_dict ha]
        | false =>
          rw [readAt_dict ha, readAt_dict ha, lookup_insertKey]
          by_cases hraw : a.raw = b.raw
          · have hab : a = b := by
              cases a
              cases b
              simp_all
            subst hab
            rw [if_pos rfl, Option.bind_some]
            exact ih apart.tail keeps.tail hu
          · rw [if_neg hraw]

/-- The path ends with a key, not with a name. -/
def EndsWithKey (path : List Step) : Prop := ∃ step, path.getLast? = some step ∧ step.named = false

/-- What was written at a key is read there. -/
theorem readAt_updateAt_self {path : List Step}
    (key : EndsWithKey path) (keeps : KeepsNames path f) (h : updateAt path f o = some w) :
    readAt path w = some (f (o.bind (readAt path))) := by
  induction path generalizing o w with
  | nil =>
    obtain ⟨step, hlast, _⟩ := key
    cases hlast
  | cons a rest ih =>
    rw [← readAt_container]
    obtain ⟨items, i, v, u, hc, ha, hi, hv, hvn, hu, rfl⟩ | ⟨entries, u, hc, ha, hu, rfl⟩ := updateAt_cons_some h
    · cases rest with
      | nil =>
        obtain ⟨step, hlast, hkey⟩ := key
        have hstep : a = step := by simpa using hlast
        rw [← hstep, ha] at hkey
        cases hkey
      | cons next rest =>
        have hlt : i < items.length := (List.getElem?_eq_some_iff.mp hv).1
        have hfind : (items.set i u).findIdx? (isNamed a.raw) = some i :=
          (findIdx?_set hv ((updateAt_isNamed keeps ha hvn hu).trans hvn.symm)).trans hi
        rw [hc, readAt_list ha hfind, readAt_list ha hi, List.getElem?_set_self hlt, hv, Option.bind_some]
        exact ih key keeps.tail hu
    · rw [hc, readAt_dict ha, readAt_dict ha, lookup_insertKey, if_pos rfl, Option.bind_some]
      cases rest with
      | nil =>
        cases hu
        simp only [readAt_nil]
        cases entries.lookup a.raw with
        | none => rfl
        | some v => rfl
      | cons next rest => exact ih key keeps.tail hu

end SglangOmni.Config
