import Mathlib
import SglangOmni.Comm.StageIo

/-! When a payload comes back from its header and tensor map.

Every tensor of a payload has a position, a list of keys and indices, and the map
is keyed by the text of the position (`flatPath`). Two positions may have the same
text, and then the map keeps the tensor that was met last. So a payload comes back
exactly when positions with the same text hold the same tensor (`restore_extract`). -/
namespace SglangOmni.Comm.StageIo
open Lib

variable {τ σ : Type}

/-! ### Payloads -/

mutual

/-- Every dictionary in the value has a list of keys that `P` accepts. -/
def Value.allKeys (P : List String → Bool) : Value τ σ → Bool
  | .dict entries => P (entries.map Prod.fst) && allKeysEntries P entries
  | .list items => allKeysItems P items
  | .tuple items => allKeysItems P items
  | _ => true

def allKeysEntries (P : List String → Bool) : List (String × Value τ σ) → Bool
  | [] => true
  | (_, v) :: rest => v.allKeys P && allKeysEntries P rest

def allKeysItems (P : List String → Bool) : List (Value τ σ) → Bool
  | [] => true
  | v :: rest => v.allKeys P && allKeysItems P rest

end

/-- A payload value: dictionaries with distinct keys, none of them the key that
marks a placeholder. -/
def Value.Payload (v : Value τ σ) : Prop :=
  v.allKeys (fun keys => decide keys.Nodup && decide (placeholderKey ∉ keys)) = true

instance (v : Value τ σ) : Decidable v.Payload := inferInstanceAs (Decidable (_ = true))

/-! ### Positions -/

inductive PathStep where
  | key (k : String)
  | index (i : Nat)
  deriving DecidableEq

def PathStep.extend (path : String) : PathStep → String
  | .key k => keyPath path k
  | .index i => indexPath path i

/-- The text of a position below `path`. -/
def flatFrom (path : String) (steps : List PathStep) : String := steps.foldl PathStep.extend path

def flatPath (steps : List PathStep) : String := flatFrom "" steps

section Leaves
variable (pick : Tensor τ → Bool)

mutual

/-- The tensors that `pick` accepts, with their positions, in the order they are met. -/
def tensorLeaves : Value τ σ → List (List PathStep × Tensor τ)
  | .tensor t => if pick t then [([], t)] else []
  | .dict entries => leavesEntries entries
  | .list items => leavesItems items 0
  | .tuple items => leavesItems items 0
  | _ => []

def leavesEntries : List (String × Value τ σ) → List (List PathStep × Tensor τ)
  | [] => []
  | (key, v) :: rest =>
    (tensorLeaves v).map (fun l => (PathStep.key key :: l.1, l.2)) ++ leavesEntries rest

def leavesItems : List (Value τ σ) → Nat → List (List PathStep × Tensor τ)
  | [], _ => []
  | v :: rest, index =>
    (tensorLeaves v).map (fun l => (PathStep.index index :: l.1, l.2)) ++ leavesItems rest (index + 1)

end

/-- Leaves with the text of their position. -/
def flatten (path : String) (leaves : List (List PathStep × Tensor τ)) : List (String × Tensor τ) :=
  leaves.map fun l => (flatFrom path l.1, l.2)

theorem flatten_append (path : String) (a b : List (List PathStep × Tensor τ)) :
    flatten path (a ++ b) = flatten path a ++ flatten path b := by
  simp [flatten]

theorem flatten_cons (path : String) (step : PathStep) (leaves : List (List PathStep × Tensor τ)) :
    flatten path (leaves.map fun l => (step :: l.1, l.2)) = flatten (step.extend path) leaves := by
  simp [flatten, flatFrom]

/-! ### The tensor map -/

mutual

/-- A lookup in the map of a value sees the last leaf with that path. -/
theorem extractWith_get? (v : Value τ σ) (path k : String) :
    (extractWith pick v path).2.get? k = (flatten path (tensorLeaves pick v)).reverse.lookup k := by
  cases v with
  | tensor t =>
    simp only [extractWith, tensorLeaves]
    split
    · simp [flatten, flatFrom, Dict.get?_set, Dict.lookup_cons_eq]
    · simp [flatten]
  | dict entries => simp [extractWith, tensorLeaves, extractEntries_get? entries]
  | list items | tuple items => simp [extractWith, tensorLeaves, extractItems_get? items]
  | str s | int n | scalar s => simp [extractWith, tensorLeaves, flatten]

theorem extractEntries_get? (entries : List (String × Value τ σ)) (path : String)
    (out : List (String × Value τ σ)) (tensors : Dict String (Tensor τ)) (k : String) :
    (extractEntries pick entries path out tensors).2.get? k =
      ((flatten path (leavesEntries pick entries)).reverse.lookup k).or (tensors.get? k) := by
  match entries with
  | [] => simp [extractEntries, leavesEntries, flatten]
  | (key, v) :: rest =>
    rw [extractEntries, extractEntries_get? rest, Dict.get?_update, extractWith_get? v, leavesEntries,
      flatten_append, flatten_cons, List.reverse_append, List.lookup_append, Option.or_assoc]
    rfl

theorem extractItems_get? (items : List (Value τ σ)) (path : String) (index : Nat)
    (out : List (Value τ σ)) (tensors : Dict String (Tensor τ)) (k : String) :
    (extractItems pick items path index out tensors).2.get? k =
      ((flatten path (leavesItems pick items index)).reverse.lookup k).or (tensors.get? k) := by
  match items with
  | [] => simp [extractItems, leavesItems, flatten]
  | v :: rest =>
    rw [extractItems, extractItems_get? rest, Dict.get?_update, extractWith_get? v, leavesItems,
      flatten_append, flatten_cons, List.reverse_append, List.lookup_append, Option.or_assoc]
    rfl

end

/-! ### The header -/

theorem setEntries_absent {V : Type} {k : String} {l : List (String × V)} (v : V)
    (h : k ∉ l.map Prod.fst) : setEntries k v l = l ++ [(k, v)] := by
  induction l with
  | nil => rfl
  | cons e rest ih =>
    simp only [List.map_cons, List.mem_cons, not_or] at h
    rw [setEntries, if_neg (Ne.symm h.1), ih h.2, List.cons_append]

/-- The header of a dictionary with distinct keys, entry by entry. -/
theorem extractEntries_fst (entries : List (String × Value τ σ)) (path : String)
    (out : List (String × Value τ σ)) (tensors : Dict String (Tensor τ))
    (hnodup : ((out ++ entries).map Prod.fst).Nodup) :
    (extractEntries pick entries path out tensors).1 =
      out ++ entries.map (fun e => (e.1, (extractWith pick e.2 (keyPath path e.1)).1)) := by
  induction entries generalizing out tensors with
  | nil => simp [extractEntries]
  | cons e rest ih =>
    obtain ⟨key, v⟩ := e
    have habsent : key ∉ out.map Prod.fst := by
      rw [List.map_append, List.nodup_append] at hnodup
      intro hmem
      exact hnodup.2.2 key hmem key (by simp) rfl
    rw [extractEntries, setEntries_absent _ habsent, ih]
    · simp
    · simpa using hnodup

/-- The header of a sequence, item by item from `index` on. -/
theorem extractItems_fst (items : List (Value τ σ)) (path : String) (index : Nat)
    (out : List (Value τ σ)) (tensors : Dict String (Tensor τ)) :
    (extractItems pick items path index out tensors).1 =
      out ++ (items.zipIdx index).map (fun e => (extractWith pick e.1 (indexPath path e.2)).1) := by
  induction items generalizing index out tensors with
  | nil => simp [extractItems]
  | cons v rest ih =>
    rw [extractItems, ih]
    simp

/-! ### Putting the tensors back -/

theorem bind_eq_ok {ε α β : Type} {x : Except ε α} {f : α → Except ε β} {b : β} :
    (x >>= f) = .ok b ↔ ∃ a, x = .ok a ∧ f a = .ok b := by
  cases x with
  | error e => simp [bind, Except.bind]
  | ok a => simp [bind, Except.bind]

mutual

/-- The header restored from any map is the value exactly when the map has every
leaf under the path of its position. -/
theorem restore_extractWith (tensors : Dict String (Tensor τ)) (v : Value τ σ) (path : String)
    (hv : v.Payload) :
    restoreTensors tensors (extractWith pick v path).1 = .ok v ↔
      ∀ l ∈ tensorLeaves pick v, tensors.get? (flatFrom path l.1) = some l.2 := by
  cases v with
  | tensor t =>
    simp only [extractWith, tensorLeaves]
    split
    · have hlookup : restoreTensors tensors (placeholder path t : Value τ σ) =
          lookupPlaceholder tensors (.str path) := by
        simp [placeholder, restoreTensors, Dict.lookup_cons_eq]
      rw [hlookup, lookupPlaceholder]
      cases htensor : tensors.get? path <;> simp [flatFrom, htensor]
    · simp [restoreTensors]
  | dict entries =>
    simp only [Value.Payload, Value.allKeys, Bool.and_eq_true, decide_eq_true_eq] at hv
    obtain ⟨⟨hnodup, hkey⟩, hentries⟩ := hv
    have hfst := extractEntries_fst pick entries path [] ∅ (by simpa using hnodup)
    rw [List.nil_append] at hfst
    simp only [extractWith, tensorLeaves, hfst, restoreTensors]
    have hlookup : (entries.map fun e => (e.1, (extractWith pick e.2 (keyPath path e.1)).1)).lookup
        placeholderKey = none := by
      rw [Dict.lookup_eq_none, List.map_map]
      exact hkey
    rw [hlookup]
    simp only [bind_eq_ok, pure, Except.pure, Except.ok.injEq, Value.dict.injEq, exists_eq_right]
    exact restore_extractEntries tensors entries path hentries
  | list items =>
    simp only [extractWith, extractItems_fst, List.nil_append, restoreTensors, tensorLeaves]
    simp only [bind_eq_ok, pure, Except.pure, Except.ok.injEq, Value.list.injEq, exists_eq_right]
    exact restore_extractItems tensors items path 0 hv
  | tuple items =>
    simp only [extractWith, extractItems_fst, List.nil_append, restoreTensors, tensorLeaves]
    simp only [bind_eq_ok, pure, Except.pure, Except.ok.injEq, Value.tuple.injEq, exists_eq_right]
    exact restore_extractItems tensors items path 0 hv
  | str s | int n | scalar s => simp [extractWith, restoreTensors, tensorLeaves]

theorem restore_extractEntries (tensors : Dict String (Tensor τ)) (entries : List (String × Value τ σ))
    (path : String)
    (hv : allKeysEntries (fun keys => decide keys.Nodup && decide (placeholderKey ∉ keys)) entries =
      true) :
    restoreEntries tensors
        (entries.map fun e => (e.1, (extractWith pick e.2 (keyPath path e.1)).1)) = .ok entries ↔
      ∀ l ∈ leavesEntries pick entries, tensors.get? (flatFrom path l.1) = some l.2 := by
  match entries with
  | [] => simp [restoreEntries, leavesEntries]
  | (key, v) :: rest =>
    rw [allKeysEntries, Bool.and_eq_true] at hv
    have hvalue := restore_extractWith tensors v (keyPath path key) hv.1
    have hrest := restore_extractEntries tensors rest path hv.2
    simp only [List.map_cons, restoreEntries, bind_eq_ok, pure, Except.pure, Except.ok.injEq,
      List.cons.injEq, Prod.mk.injEq, true_and, leavesEntries, List.forall_mem_append,
      List.forall_mem_map]
    rw [← hrest]
    refine Iff.trans ?_ (and_congr_left fun _ => hvalue)
    constructor
    · rintro ⟨_, hval, _, hres, rfl, rfl⟩
      exact ⟨hval, hres⟩
    · rintro ⟨hval, hres⟩
      exact ⟨v, hval, rest, hres, rfl, rfl⟩

theorem restore_extractItems (tensors : Dict String (Tensor τ)) (items : List (Value τ σ))
    (path : String) (index : Nat)
    (hv : allKeysItems (fun keys => decide keys.Nodup && decide (placeholderKey ∉ keys)) items = true) :
    restoreItems tensors
        ((items.zipIdx index).map fun e => (extractWith pick e.1 (indexPath path e.2)).1) = .ok items ↔
      ∀ l ∈ leavesItems pick items index, tensors.get? (flatFrom path l.1) = some l.2 := by
  match items with
  | [] => simp [restoreItems, leavesItems]
  | v :: rest =>
    rw [allKeysItems, Bool.and_eq_true] at hv
    have hvalue := restore_extractWith tensors v (indexPath path index) hv.1
    have hrest := restore_extractItems tensors rest path (index + 1) hv.2
    simp only [List.zipIdx_cons, List.map_cons, restoreItems, bind_eq_ok, pure, Except.pure,
      Except.ok.injEq, List.cons.injEq, leavesItems, List.forall_mem_append, List.forall_mem_map]
    rw [← hrest]
    refine Iff.trans ?_ (and_congr_left fun _ => hvalue)
    constructor
    · rintro ⟨_, hval, _, hres, rfl, rfl⟩
      exact ⟨hval, hres⟩
    · rintro ⟨hval, hres⟩
      exact ⟨v, hval, rest, hres, rfl, rfl⟩

end

/-! ### The round trip -/

/-- Leaves that agree wherever the text of their positions does. -/
def Agree (leaves : List (List PathStep × Tensor τ)) : Prop :=
  ∀ l ∈ leaves, ∀ m ∈ leaves, flatPath l.1 = flatPath m.1 → l.2 = m.2

/-- The last leaf under a path is every leaf under that path exactly when they agree. -/
theorem last_leaf_iff (leaves : List (List PathStep × Tensor τ)) :
    (∀ l ∈ leaves, (flatten "" leaves).reverse.lookup (flatPath l.1) = some l.2) ↔ Agree leaves := by
  constructor
  · intro h l hl m hm heq
    have hl' := h l hl
    rw [heq, h m hm] at hl'
    exact (Option.some.inj hl').symm
  · intro h l hl
    have hsome : (flatten "" leaves).reverse.lookup (flatPath l.1) ≠ none := by
      rw [ne_eq, Dict.lookup_eq_none, not_not]
      simp only [flatten, List.map_reverse, List.map_map, List.mem_reverse, List.mem_map]
      exact ⟨l, hl, rfl⟩
    obtain ⟨t, ht⟩ := Option.ne_none_iff_exists'.mp hsome
    obtain ⟨a, b, hsplit, _⟩ := List.lookup_eq_some_iff.mp ht
    have hmem : (flatPath l.1, t) ∈ flatten "" leaves := by
      rw [← List.mem_reverse, hsplit]
      simp
    obtain ⟨m, hm, hmt⟩ := List.mem_map.mp hmem
    obtain ⟨hpath, rfl⟩ := Prod.mk.inj hmt
    rw [ht, h l hl m hm hpath.symm]

theorem restore_extract (v : Value τ σ) (hv : v.Payload) :
    restoreTensors (extractWith pick v "").2 (extractWith pick v "").1 = .ok v ↔
      Agree (tensorLeaves pick v) := by
  rw [restore_extractWith pick _ v "" hv, ← last_leaf_iff]
  simp only [extractWith_get?]
  rfl

end Leaves

/-- **The round trip.** A payload comes back from its header and tensor map exactly
when any two of its tensors whose positions have the same text are the same tensor. -/
theorem restore_extract_tensors (v : Value τ σ) (hv : v.Payload) :
    restoreTensors (extractTensors v).2 (extractTensors v).1 = .ok v ↔
      ∀ l ∈ tensorLeaves (fun _ => true) v, ∀ m ∈ tensorLeaves (fun _ => true) v,
        flatPath l.1 = flatPath m.1 → l.2 = m.2 :=
  restore_extract _ v hv

/-- A payload with keys of its own and of a nested dictionary, tensors apart. -/
theorem restore_extract_tensors_nested :
    let t : Tensor Nat := ⟨[1], "torch.int64", "cpu", false, 1⟩
    let u : Tensor Nat := ⟨[1], "torch.int64", "cpu", false, 2⟩
    let v : Value Nat Unit := .dict [("a", .dict [("b", .tensor t)]), ("c", .list [.tensor u])]
    restoreTensors (extractTensors v).2 (extractTensors v).1 = .ok v := by
  intro t u v
  refine (restore_extract_tensors v (by decide)).mpr ?_
  have hleaves : tensorLeaves (fun _ => true) v =
      [([.key "a", .key "b"], t), ([.key "c", .index 0], u)] := rfl
  rw [hleaves]
  decide

/-- A dotted key and a nested key with the same text: both come back as the tensor
that was met last. -/
theorem dotted_key_collides :
    let t : Tensor Nat := ⟨[1], "torch.int64", "cpu", false, 1⟩
    let u : Tensor Nat := ⟨[1], "torch.int64", "cpu", false, 2⟩
    let v : Value Nat Unit := .dict [("a.b", .tensor t), ("a", .dict [("b", .tensor u)])]
    v.Payload ∧
      restoreTensors (extractTensors v).2 (extractTensors v).1 =
        .ok (.dict [("a.b", .tensor u), ("a", .dict [("b", .tensor u)])]) ∧
      restoreTensors (extractTensors v).2 (extractTensors v).1 ≠ .ok v := by
  intro t u v
  have hv : v.Payload := by decide
  refine ⟨hv, rfl, fun h => ?_⟩
  have hagree := (restore_extract _ v hv).mp h ([.key "a.b"], t) (by simp [v, tensorLeaves, leavesEntries])
    ([.key "a", .key "b"], u) (by simp [v, tensorLeaves, leavesEntries]) (by decide)
  exact absurd hagree (by decide)

end SglangOmni.Comm.StageIo
