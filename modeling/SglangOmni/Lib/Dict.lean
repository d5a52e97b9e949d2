import Mathlib.Algebra.GroupWithZero.Nat
import Mathlib.Data.List.Nodup

/-! Insertion-ordered dictionaries.

A `Dict` is a list of entries with distinct keys, in the order the keys were
first set: overwriting a key keeps its place, a new key goes to the end. The
operations are characterised by what a lookup sees after them (`get?_set`,
`get?_pop`, `get?_update`); proofs about tables use these and never the entries. -/
namespace SglangOmni.Lib

variable {K V : Type} [DecidableEq K]

/-- Entries after an assignment. -/
def setEntries (k : K) (v : V) : List (K × V) → List (K × V)
  | [] => [(k, v)]
  | e :: rest => if e.1 = k then (k, v) :: rest else e :: setEntries k v rest

theorem mem_setEntries_keys (k : K) (v : V) (l : List (K × V)) (x : K) :
    x ∈ (setEntries k v l).map Prod.fst ↔ x = k ∨ x ∈ l.map Prod.fst := by
  induction l with
  | nil => simp [setEntries]
  | cons e rest ih =>
    unfold setEntries
    split
    · next h => simp [← h]
    · next h =>
      simp only [List.map_cons, List.mem_cons, ih]
      tauto

theorem setEntries_nodup (k : K) (v : V) (l : List (K × V)) (h : (l.map Prod.fst).Nodup) :
    ((setEntries k v l).map Prod.fst).Nodup := by
  induction l with
  | nil => simp [setEntries]
  | cons e rest ih =>
    simp only [List.map_cons, List.nodup_cons] at h
    unfold setEntries
    split
    · next he => simpa [← he] using h
    · next he =>
      simp only [List.map_cons, List.nodup_cons, mem_setEntries_keys, not_or]
      exact ⟨⟨he, h.1⟩, ih h.2⟩

/-- A dictionary: entries with distinct keys, in insertion order. -/
structure Dict (K V : Type) where
  entries : List (K × V)
  nodup : (entries.map Prod.fst).Nodup
  deriving DecidableEq

namespace Dict

def empty : Dict K V := ⟨[], by simp⟩

instance : EmptyCollection (Dict K V) := ⟨empty⟩

def get? (d : Dict K V) (k : K) : Option V := d.entries.lookup k

def contains (d : Dict K V) (k : K) : Bool := (d.get? k).isSome

def keys (d : Dict K V) : List K := d.entries.map Prod.fst

def length (d : Dict K V) : Nat := d.entries.length

/-- `d[k] = v`. -/
def set (d : Dict K V) (k : K) (v : V) : Dict K V :=
  ⟨setEntries k v d.entries, setEntries_nodup k v d.entries d.nodup⟩

/-- `d.pop(k, None)`. -/
def pop (d : Dict K V) (k : K) : Dict K V :=
  ⟨d.entries.filter (fun e => e.1 ≠ k), (List.filter_sublist.map Prod.fst).nodup d.nodup⟩

/-- The dictionary without its oldest entries. -/
def drop (d : Dict K V) (n : Nat) : Dict K V :=
  ⟨d.entries.drop n, ((List.drop_sublist n d.entries).map Prod.fst).nodup d.nodup⟩

/-- `d.update(e)`. -/
def update (d e : Dict K V) : Dict K V := e.entries.foldl (fun d e => d.set e.1 e.2) d

theorem lookup_cons_eq (e : K × V) (l : List (K × V)) (x : K) :
    (e :: l).lookup x = if x = e.1 then some e.2 else l.lookup x := by
  obtain ⟨a, b⟩ := e
  by_cases h : x = a
  · simp [h]
  · have hb : (x == a) = false := beq_eq_false_iff_ne.mpr h
    simp [List.lookup_cons, hb, h]

theorem lookup_setEntries (k : K) (v : V) (l : List (K × V)) (x : K) :
    (setEntries k v l).lookup x = if x = k then some v else l.lookup x := by
  induction l with
  | nil => simp only [setEntries, lookup_cons_eq]
  | cons e rest ih =>
    unfold setEntries
    split
    · next he =>
      subst he
      simp only [lookup_cons_eq]
      split <;> rfl
    · next he =>
      simp only [lookup_cons_eq, ih]
      by_cases hx : x = e.1
      · simp [hx, he]
      · simp [hx]

theorem lookup_filter_ne (k : K) (l : List (K × V)) (x : K) :
    (l.filter (fun e => e.1 ≠ k)).lookup x = if x = k then none else l.lookup x := by
  induction l with
  | nil => simp
  | cons e rest ih =>
    by_cases he : e.1 = k
    · rw [List.filter_cons_of_neg (by simpa using he), ih, lookup_cons_eq, he]
      split <;> rfl
    · rw [List.filter_cons_of_pos (by simpa using he), lookup_cons_eq, lookup_cons_eq, ih]
      by_cases hx : x = e.1
      · simp [hx, he]
      · simp [hx]

@[simp] theorem get?_empty (k : K) : (∅ : Dict K V).get? k = none := rfl

theorem get?_set (d : Dict K V) (k : K) (v : V) (x : K) :
    (d.set k v).get? x = if x = k then some v else d.get? x :=
  lookup_setEntries k v d.entries x

@[simp] theorem get?_set_self (d : Dict K V) (k : K) (v : V) : (d.set k v).get? k = some v := by
  simp [get?_set]

variable {k : K} {d : Dict K V} {l : List (K × V)}

theorem get?_set_ne (d : Dict K V) {x : K} (v : V) (h : x ≠ k) :
    (d.set k v).get? x = d.get? x := by
  simp [get?_set, h]

theorem get?_pop (d : Dict K V) (k x : K) :
    (d.pop k).get? x = if x = k then none else d.get? x :=
  lookup_filter_ne k d.entries x

@[simp] theorem get?_pop_self (d : Dict K V) (k : K) : (d.pop k).get? k = none := by
  simp [get?_pop]

theorem get?_pop_ne (d : Dict K V) {x : K} (h : x ≠ k) : (d.pop k).get? x = d.get? x := by
  simp [get?_pop, h]

theorem lookup_eq_none (l : List (K × V)) (k : K) : l.lookup k = none ↔ k ∉ l.map Prod.fst := by
  induction l with
  | nil => simp
  | cons e rest ih =>
    rw [lookup_cons_eq, List.map_cons, List.mem_cons]
    by_cases h : k = e.1
    · simp [h]
    · simp [h, ih]

/-- With distinct keys the order of the entries does not matter to a lookup. -/
theorem lookup_reverse (l : List (K × V)) (h : (l.map Prod.fst).Nodup) (k : K) :
    l.reverse.lookup k = l.lookup k := by
  induction l with
  | nil => rfl
  | cons e rest ih =>
    simp only [List.map_cons, List.nodup_cons] at h
    rw [List.reverse_cons, List.lookup_append, ih h.2, lookup_cons_eq, lookup_cons_eq]
    by_cases hk : k = e.1
    · rw [(lookup_eq_none rest k).mpr (hk ▸ h.1)]
      simp [hk]
    · simp [hk]

/-- After a list of assignments a lookup sees the last one to its key. -/
theorem get?_foldl_set (l : List (K × V)) (d : Dict K V) (k : K) :
    (l.foldl (fun d e => d.set e.1 e.2) d).get? k = (l.reverse.lookup k).or (d.get? k) := by
  induction l generalizing d with
  | nil => simp
  | cons e rest ih =>
    rw [List.foldl_cons, ih, List.reverse_cons, List.lookup_append, lookup_cons_eq, get?_set,
      Option.or_assoc]
    split <;> simp

theorem get?_update (d e : Dict K V) (k : K) : (d.update e).get? k = (e.get? k).or (d.get? k) := by
  rw [update, get?_foldl_set, lookup_reverse _ e.nodup]
  rfl

@[simp] theorem contains_iff (d : Dict K V) (k : K) : d.contains k = true ↔ ∃ v, d.get? k = some v := by
  simp [contains, Option.isSome_iff_exists]

omit [DecidableEq K] in
@[simp] theorem keys_empty : (∅ : Dict K V).keys = [] := rfl

theorem get?_drop (h : d.get? k = none) (n : Nat) : (d.drop n).get? k = none := by
  refine (lookup_eq_none _ k).mpr fun hk => (lookup_eq_none _ k).mp h ?_
  exact ((List.drop_sublist n d.entries).map Prod.fst).subset hk

omit [DecidableEq K] in
theorem keys_drop (d : Dict K V) (n : Nat) : (d.drop n).keys = d.keys.drop n := List.map_drop

/-- Without the oldest entry. -/
theorem get?_drop_one {rest : List K} (h : d.keys = k :: rest) (x : K) :
    (d.drop 1).get? x = if x = k then none else d.get? x := by
  obtain ⟨entries, nodup⟩ := d
  cases entries with
  | nil => cases h
  | cons e entries =>
    obtain ⟨rfl, _⟩ := List.cons.inj h
    show entries.lookup x = if x = e.1 then none else (e :: entries).lookup x
    rw [lookup_cons_eq]
    by_cases hx : x = e.1
    · rw [if_pos hx, lookup_eq_none, hx]
      exact (List.nodup_cons.mp nodup).1
    · rw [if_neg hx, if_neg hx]

theorem mem_keys_set (d : Dict K V) (k : K) (v : V) (x : K) :
    x ∈ (d.set k v).keys ↔ x = k ∨ x ∈ d.keys :=
  mem_setEntries_keys k v d.entries x

theorem mem_keys (d : Dict K V) (k : K) : k ∈ d.keys ↔ ∃ v, d.get? k = some v := by
  rw [← Option.ne_none_iff_exists', keys, get?, ne_eq, lookup_eq_none, not_not]

/-- The entry a lookup finds is the only one under its key. -/
theorem lookup_eq_some (h : (l.map Prod.fst).Nodup) (k : K) (v : V) :
    l.lookup k = some v ↔ (k, v) ∈ l := by
  induction l with
  | nil => simp
  | cons e rest ih =>
    simp only [List.map_cons, List.nodup_cons] at h
    rw [lookup_cons_eq, List.mem_cons]
    by_cases hk : k = e.1
    · have hrest : (k, v) ∉ rest := fun hm => h.1 (hk ▸ List.mem_map_of_mem hm)
      simp [hk, Prod.ext_iff, eq_comm, hk ▸ hrest]
    · simp [hk, ih h.2, Prod.ext_iff]

theorem mem_entries (d : Dict K V) (k : K) (v : V) : (k, v) ∈ d.entries ↔ d.get? k = some v :=
  (lookup_eq_some d.nodup k v).symm

/-! ### Keys in order -/

theorem keys_pop (d : Dict K V) (k : K) : (d.pop k).keys = d.keys.filter (· ≠ k) := by
  simp only [keys, pop, List.filter_map]
  rfl

theorem pop_eq_self (h : k ∉ d.keys) : d.pop k = d := by
  have hentries : d.entries.filter (fun e => e.1 ≠ k) = d.entries := by
    refine List.filter_eq_self.mpr ?_
    intro e he
    have hne : e.1 ≠ k := fun hk => h (hk ▸ List.mem_map_of_mem he)
    simpa using hne
  cases d
  simp only [pop, hentries]

variable {v : V}

theorem setEntries_of_notMem (h : k ∉ l.map Prod.fst) :
    setEntries k v l = l ++ [(k, v)] := by
  induction l with
  | nil => rfl
  | cons e rest ih =>
    simp only [List.map_cons, List.mem_cons, not_or] at h
    rw [setEntries, if_neg (Ne.symm h.1), ih h.2, List.cons_append]

theorem setEntries_setEntries (k : K) (v w : V) (l : List (K × V)) :
    setEntries k w (setEntries k v l) = setEntries k w l := by
  induction l with
  | nil => simp [setEntries]
  | cons e rest ih =>
    by_cases he : e.1 = k
    · simp [setEntries, he]
    · simp [setEntries, he, ih]

@[simp] theorem set_set (d : Dict K V) (k : K) (v w : V) : (d.set k v).set k w = d.set k w := by
  simp only [set, setEntries_setEntries]

theorem keys_setEntries_of_mem (h : k ∈ l.map Prod.fst) :
    (setEntries k v l).map Prod.fst = l.map Prod.fst := by
  induction l with
  | nil => cases h
  | cons e rest ih =>
    unfold setEntries
    split
    · next he => simp [he]
    · next he =>
      simp only [List.map_cons, List.mem_cons] at h ⊢
      rw [ih (h.resolve_left (Ne.symm he))]

/-- A new key goes to the end. -/
theorem keys_set_of_notMem (h : k ∉ d.keys) : (d.set k v).keys = d.keys ++ [k] := by
  simp only [keys, set, setEntries_of_notMem h, List.map_append, List.map_cons, List.map_nil]

/-- A key that is there keeps its place. -/
theorem keys_set_of_mem (h : k ∈ d.keys) : (d.set k v).keys = d.keys :=
  keys_setEntries_of_mem h

omit [DecidableEq K] in
theorem length_eq_keys (d : Dict K V) : d.length = d.keys.length := by
  simp only [length, keys, List.length_map]

theorem length_pop_le (d : Dict K V) (k : K) : (d.pop k).length ≤ d.length := by
  simp only [length_eq_keys, keys_pop]
  exact List.length_filter_le _ _

theorem length_pop_lt (h : k ∈ d.keys) : (d.pop k).length < d.length := by
  simp only [length_eq_keys, keys_pop]
  exact List.length_filter_lt_length_iff_exists.mpr ⟨k, h, by simp⟩

theorem length_set_le (d : Dict K V) (k : K) (v : V) : (d.set k v).length ≤ d.length + 1 := by
  simp only [length_eq_keys]
  by_cases h : k ∈ d.keys
  · rw [keys_set_of_mem h]
    exact Nat.le_succ _
  · simp [keys_set_of_notMem h]

theorem pop_pop_self (d : Dict K V) (k : K) : (d.pop k).pop k = d.pop k := by
  refine pop_eq_self ?_
  rw [keys_pop]
  simp

theorem get?_foldl_pop (ks : List K) (d : Dict K V) (x : K) :
    (ks.foldl pop d).get? x = if x ∈ ks then none else d.get? x := by
  induction ks generalizing d with
  | nil => simp
  | cons k rest ih =>
    rw [List.foldl_cons, ih, get?_pop]
    by_cases hx : x = k
    · simp [hx]
    · simp [hx]

theorem count_keys (d : Dict K V) (k : K) : d.keys.count k = (d.get? k).isSome.toNat := by
  have hnodup : d.keys.Nodup := d.nodup
  by_cases h : k ∈ d.keys
  · obtain ⟨v, hv⟩ := (mem_keys d k).mp h
    rw [List.count_eq_one_of_mem hnodup h, hv]
    rfl
  · have hnone : d.get? k = none := (lookup_eq_none d.entries k).mpr h
    rw [List.count_eq_zero_of_not_mem h, hnone]
    rfl

theorem count_keys_set (d : Dict K V) (k : K) (v : V) (x : K) :
    (d.set k v).keys.count x = if x = k then 1 else d.keys.count x := by
  rw [count_keys, get?_set]
  split
  · rfl
  · rw [count_keys]

theorem count_keys_pop (d : Dict K V) (k x : K) : (d.pop k).keys.count x = if x = k then 0 else d.keys.count x := by
  rw [count_keys, get?_pop]
  split
  · rfl
  · rw [count_keys]

/-! ### Assignments that look at the entry -/

/-- `d[k] = f(d.get(k))`, and nothing where `f` has no value for it. -/
def modify (d : Dict K V) (k : K) (f : Option V → Option V) : Dict K V :=
  match f (d.get? k) with
  | some v => d.set k v
  | none => d

theorem get?_modify (d : Dict K V) (k : K) (f : Option V → Option V) (x : K) :
    (d.modify k f).get? x = if x = k then (f (d.get? x)).or (d.get? x) else d.get? x := by
  unfold modify
  by_cases hx : x = k
  · subst hx
    rw [if_pos rfl]
    cases hf : f (d.get? x) with
    | some v => exact get?_set_self ..
    | none => rfl
  · rw [if_neg hx]
    cases hf : f (d.get? k) with
    | some v => exact get?_set_ne _ _ hx
    | none => rfl

/-- A loop over distinct keys that looks at one entry a turn. -/
theorem get?_foldl_modify (f : K → Option V → Option V) {ks : List K} (nodup : ks.Nodup) (d : Dict K V) (x : K) :
    (ks.foldl (fun d k => d.modify k (f k)) d).get? x =
      if x ∈ ks then (f x (d.get? x)).or (d.get? x) else d.get? x := by
  induction ks generalizing d with
  | nil => simp
  | cons k rest ih =>
    obtain ⟨hk, hrest⟩ := List.nodup_cons.mp nodup
    rw [List.foldl_cons, ih hrest, get?_modify]
    by_cases hx : x = k
    · subst hx
      simp [hk]
    · simp [hx]

/-! ### Loops of which at most one turn touches a key -/

theorem get?_foldl_of_none {P : Type} {f : Dict K V → P → Dict K V} {l : List P} {x : K}
    (other : ∀ q ∈ l, ∀ d, (f d q).get? x = d.get? x) (d : Dict K V) : (l.foldl f d).get? x = d.get? x := by
  induction l generalizing d with
  | nil => rfl
  | cons q rest ih =>
    rw [List.foldl_cons, ih fun q' hq' => other q' (List.mem_cons_of_mem _ hq'), other q (List.mem_cons_self ..)]

theorem get?_foldl_of_one {P : Type} {f : Dict K V → P → Dict K V} {l : List P} {x : K} {p : P} (nodup : l.Nodup)
    (mem : p ∈ l) (other : ∀ q ∈ l, q ≠ p → ∀ d, (f d q).get? x = d.get? x) (d : Dict K V) :
    ∃ d', d'.get? x = d.get? x ∧ (l.foldl f d).get? x = (f d' p).get? x := by
  obtain ⟨before, after, rfl⟩ := List.append_of_mem mem
  obtain ⟨_, hafter, hdisjoint⟩ := List.nodup_append.mp nodup
  have hbefore : ∀ q ∈ before, ∀ d, (f d q).get? x = d.get? x := fun q hq =>
    other q (List.mem_append_left _ hq) (hdisjoint q hq p (List.mem_cons_self ..))
  have hrest : ∀ q ∈ after, ∀ d, (f d q).get? x = d.get? x := fun q hq =>
    other q (List.mem_append_right _ (List.mem_cons_of_mem _ hq)) fun he =>
      (List.nodup_cons.mp hafter).1 (he ▸ hq)
  refine ⟨before.foldl f d, get?_foldl_of_none hbefore d, ?_⟩
  rw [List.foldl_append, List.foldl_cons, get?_foldl_of_none hrest]

/-- A loop that gives the same value to each of its keys. -/
theorem get?_foldl_set_const (ks : List K) (v : K → V) (d : Dict K V) (x : K) :
    (ks.foldl (fun d k => d.set k (v k)) d).get? x = if x ∈ ks then some (v x) else d.get? x := by
  induction ks generalizing d with
  | nil => simp
  | cons k rest ih =>
    rw [List.foldl_cons, ih, get?_set]
    by_cases hx : x = k
    · simp [hx]
    · simp [hx]

/-! ### Sums over the values -/

/-- The sum of what the entries weigh. -/
def total (w : V → Nat) (d : Dict K V) : Nat := (d.entries.map fun e => w e.2).sum

theorem total_set_of_none (w : V → Nat) (v : V) (h : d.get? k = none) :
    (d.set k v).total w = d.total w + w v := by
  have hk : k ∉ d.entries.map Prod.fst := (lookup_eq_none _ k).mp h
  simp only [total, set, setEntries_of_notMem hk, List.map_append, List.sum_append, List.map_cons, List.map_nil,
    List.sum_singleton]

theorem sum_setEntries (w : V → Nat) (v' : V) (h : l.lookup k = some v) :
    ((setEntries k v' l).map fun e => w e.2).sum + w v = (l.map fun e => w e.2).sum + w v' := by
  induction l with
  | nil => cases h
  | cons e rest ih =>
    rw [lookup_cons_eq] at h
    unfold setEntries
    by_cases he : k = e.1
    · rw [if_pos he] at h
      cases h
      rw [if_pos he.symm]
      simp only [List.map_cons, List.sum_cons]
      omega
    · rw [if_neg he] at h
      rw [if_neg (Ne.symm he)]
      simp only [List.map_cons, List.sum_cons]
      have := ih h
      omega

/-- An assignment to a key that is there exchanges one weight for another. -/
theorem total_set_of_some (w : V → Nat) (v' : V) (h : d.get? k = some v) :
    (d.set k v').total w + w v = d.total w + w v' :=
  sum_setEntries w v' h

/-- The sum of what the entries weigh, their keys included. -/
def weigh (w : K → V → Nat) (d : Dict K V) : Nat := (d.entries.map fun e => w e.1 e.2).sum

theorem sum_filter_ne (w : K → V → Nat) (nodup : (l.map Prod.fst).Nodup) (h : l.lookup k = some v) :
    ((l.filter fun e => e.1 ≠ k).map fun e => w e.1 e.2).sum + w k v = (l.map fun e => w e.1 e.2).sum := by
  induction l with
  | nil => cases h
  | cons e rest ih =>
    obtain ⟨hfresh, hrest⟩ := List.nodup_cons.mp nodup
    rw [lookup_cons_eq] at h
    by_cases he : k = e.1
    · rw [if_pos he] at h
      cases h
      have hkeep : rest.filter (fun e => e.1 ≠ k) = rest := by
        refine List.filter_eq_self.mpr fun e' he' => ?_
        have hne : e'.1 ≠ k := fun heq => hfresh (he ▸ heq ▸ List.mem_map_of_mem he')
        simpa using hne
      rw [List.filter_cons_of_neg (by simpa using he.symm), hkeep, he, List.map_cons, List.sum_cons, Nat.add_comm]
    · rw [if_neg he] at h
      rw [List.filter_cons_of_pos (by simpa using Ne.symm he)]
      simp only [List.map_cons, List.sum_cons]
      have := ih hrest h
      omega

/-- What is taken out takes its weight with it. -/
theorem weigh_pop_of_some (w : K → V → Nat) (h : d.get? k = some v) :
    (d.pop k).weigh w + w k v = d.weigh w :=
  sum_filter_ne w d.nodup h

theorem weigh_pop_of_none (w : K → V → Nat) (h : d.get? k = none) :
    (d.pop k).weigh w = d.weigh w := by
  rw [pop_eq_self ((lookup_eq_none _ k).mp h)]

omit [DecidableEq K] in
theorem weigh_eq_zero {w : K → V → Nat} (h : ∀ e ∈ d.entries, w e.1 e.2 = 0) : d.weigh w = 0 := by
  rw [weigh, List.map_congr_left h, List.map_const', List.sum_replicate_nat, Nat.mul_zero]

/-- Weights that only one key has. -/
theorem weigh_single (f : V → Nat) (d : Dict K V) (k : K) :
    d.weigh (fun k' v => if k' = k then f v else 0) = ((d.get? k).map f).getD 0 := by
  cases hk : d.get? k with
  | none =>
    refine weigh_eq_zero fun e he => if_neg fun heq => ?_
    have hkey : e.1 ∈ d.entries.map Prod.fst := List.mem_map_of_mem he
    exact (lookup_eq_none _ k).mp hk (heq ▸ hkey)
  | some v =>
    have hrest : (d.pop k).weigh (fun k' v => if k' = k then f v else 0) = 0 :=
      weigh_eq_zero fun e he => if_neg (by simpa using (List.mem_filter.mp he).2)
    rw [← weigh_pop_of_some _ hk, hrest, if_pos rfl, Nat.zero_add]
    rfl

/-- A dictionary from its entries: `{k: v for …}`. -/
def ofList (l : List (K × V)) : Dict K V := l.foldl (fun d e => d.set e.1 e.2) ∅

theorem entries_foldl_set (h : ((d.entries ++ l).map Prod.fst).Nodup) :
    (l.foldl (fun d e => d.set e.1 e.2) d).entries = d.entries ++ l := by
  induction l generalizing d with
  | nil => exact (List.append_nil _).symm
  | cons e rest ih =>
    have hfresh : e.1 ∉ d.entries.map Prod.fst := by
      rw [List.map_append, List.map_cons] at h
      exact fun hmem => (List.nodup_append.mp h).2.2 e.1 hmem e.1 List.mem_cons_self rfl
    have hset : (d.set e.1 e.2).entries = d.entries ++ [e] := setEntries_of_notMem hfresh
    rw [List.foldl_cons, ih (by rw [hset, List.append_assoc]; exact h), hset, List.append_assoc]
    rfl

/-- Entries with distinct keys are kept as they are. -/
theorem entries_ofList (h : (l.map Prod.fst).Nodup) : (ofList l).entries = l :=
  entries_foldl_set h

theorem get?_ofList (h : (l.map Prod.fst).Nodup) (k : K) : (ofList l).get? k = l.lookup k := by
  rw [get?, entries_ofList h]

end Dict

end SglangOmni.Lib
