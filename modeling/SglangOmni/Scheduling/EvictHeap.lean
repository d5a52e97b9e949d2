import SglangOmni.Lib.History
import SglangOmni.Lib.MinQueue
import Mathlib.Data.Prod.Lex
import Mathlib.Data.List.Count
import Mathlib.Data.List.Nodup

/-! A radix cache whose eviction heap persists from one eviction to the next.

The heap may have entries of nodes that are no longer evictable, and entries whose priority is out of date; an eviction
drops the former and pushes the latter again. Every evictable leaf has an entry that is not above its priority, so that
the first entry which is up to date is of the leaf that a fresh heap would give. -/
namespace SglangOmni.Scheduling.EvictHeap
open Lib

/-- The radix cache below, as far as it is used: `σ` are the states that it can be in. -/
structure RadixTree (σ N P : Type) [LinearOrder P] where
  start : σ
  disable : Bool
  /-- `evictable_leaves`. -/
  leaves : σ → List N
  /-- `eviction_strategy.get_priority`. -/
  priority : σ → N → P
  /-- `len(x.value)`. -/
  size : σ → N → Nat
  parent : σ → N → N
  /-- The number of nodes. -/
  count : σ → Nat
  /-- `_delete_leaf` until it calls `_update_leaf_status` on the parent. -/
  detach : σ → N → σ
  updateLeafStatus : σ → N → σ
  leaves_start : leaves start = []
  nodup : ∀ t, (leaves t).Nodup
  distinct : ∀ t x y, x ∈ leaves t → y ∈ leaves t → priority t x = priority t y → x = y
  parent_notMem : ∀ t x, x ∈ leaves t → parent t x ∉ leaves t
  leaves_detach : ∀ t x, x ∈ leaves t → ∀ y, y ∈ leaves (detach t x) ↔ y ∈ leaves t ∧ y ≠ x
  priority_detach : ∀ t x y, priority (detach t x) y = priority t y
  count_detach : ∀ t x, x ∈ leaves t → count (detach t x) < count t
  leaves_update : ∀ t n y, y ≠ n → (y ∈ leaves (updateLeafStatus t n) ↔ y ∈ leaves t)
  priority_update : ∀ t n y, priority (updateLeafStatus t n) y = priority t y
  count_update : ∀ t n, count (updateLeafStatus t n) = count t

variable {σ N P : Type} [LinearOrder P] [DecidableEq N] (U : RadixTree σ N P)

/-- `_delete_leaf`. -/
def RadixTree.deleteLeaf (t : σ) (x : N) : σ := U.updateLeafStatus (U.detach t x) (U.parent t x)

/-- What the tree may do between two calls of `_update_leaf_status`: leaves are taken out or used again. -/
def RadixTree.Internal (t t' : σ) : Prop := ∀ y ∈ U.leaves t', y ∈ U.leaves t ∧ U.priority t y ≤ U.priority t' y

instance (t t' : σ) : Decidable (U.Internal t t') :=
  inferInstanceAs (Decidable (∀ y ∈ U.leaves t', y ∈ U.leaves t ∧ U.priority t y ≤ U.priority t' y))

/-! ### The persistent heap -/

structure Entry (N P : Type) where
  priority : P
  seq : Nat
  node : N

def Entry.key (e : Entry N P) : Lex (P × Nat) := toLex (e.priority, e.seq)

structure Cache (σ N P : Type) where
  tree : σ
  evictHeap : List (Entry N P) := []
  evictHeapSeq : Nat := 0

namespace Cache

/-- `_evict_heap_rebuild`. -/
def rebuild (c : Cache σ N P) : Cache σ N P :=
  { c with
    evictHeap := (U.leaves c.tree).zipIdx.map fun e => ⟨U.priority c.tree e.1, e.2, e.1⟩
    evictHeapSeq := (U.leaves c.tree).length }

/-- `_evict_heap_push`. -/
def push (c : Cache σ N P) (n : N) : Cache σ N P :=
  let pushed : Cache σ N P :=
    { c with
      evictHeap := ⟨U.priority c.tree n, c.evictHeapSeq + 1, n⟩ :: c.evictHeap, evictHeapSeq := c.evictHeapSeq + 1 }
  if max 1024 (4 * (U.leaves c.tree).length) < pushed.evictHeap.length then pushed.rebuild U else pushed

/-- `_update_leaf_status`. -/
def updateLeafStatus (c : Cache σ N P) (n : N) : Cache σ N P :=
  let updated : Cache σ N P := { c with tree := U.updateLeafStatus c.tree n }
  if n ∉ U.leaves c.tree ∧ n ∈ U.leaves updated.tree then updated.push U n else updated

/-- `_delete_leaf`, with the heap. -/
def deleteLeaf (c : Cache σ N P) (x : N) : Cache σ N P :=
  updateLeafStatus U { c with tree := U.detach c.tree x } (U.parent c.tree x)

/-- An entry of a leaf whose priority has changed. -/
def isStale (t : σ) (e : Entry N P) : Bool := e.node ∈ U.leaves t ∧ U.priority t e.node ≠ e.priority

def stale (c : Cache σ N P) : Nat := c.evictHeap.countP (isStale U c.tree)

omit [DecidableEq N] in
theorem push_tree (c : Cache σ N P) (n : N) : (c.push U n).tree = c.tree := by
  unfold push
  simp only
  split
  · rfl
  · rfl

theorem stale_rebuild (c : Cache σ N P) : stale U (c.rebuild U) = 0 := by
  refine List.countP_eq_zero.mpr fun e he => ?_
  obtain ⟨x, hx, rfl⟩ := List.mem_map.mp he
  simp [isStale, rebuild]

theorem stale_push_le (c : Cache σ N P) (n : N) : stale U (c.push U n) ≤ stale U c := by
  unfold push
  simp only
  split
  · rw [stale_rebuild]
    exact Nat.zero_le _
  · unfold stale
    rw [List.countP_cons_of_neg (by simp [isStale])]

theorem deleteLeaf_tree (c : Cache σ N P) (x : N) : (c.deleteLeaf U x).tree = U.deleteLeaf c.tree x := by
  unfold deleteLeaf updateLeafStatus
  simp only
  split
  · exact push_tree U _ _
  · rfl

omit [DecidableEq N] in
theorem count_deleteLeaf {t : σ} {x : N} (h : x ∈ U.leaves t) : U.count (U.deleteLeaf t x) < U.count t := by
  unfold RadixTree.deleteLeaf
  rw [U.count_update]
  exact U.count_detach t x h

end Cache

/-- What an eviction has done: the cache, the tokens it freed, and the leaves in the order they went. -/
structure Evicted (τ N : Type) where
  cache : τ
  numEvicted : Nat
  freed : List N
  deriving DecidableEq

namespace Cache

/-- The loop of `evict`. -/
def evictLoop (c : Cache σ N P) (numTokens numEvicted : Nat) (freed : List N) : Evicted (Cache σ N P) N :=
  if numEvicted < numTokens then
    match _hpop : popMin Entry.key c.evictHeap with
    | none => ⟨c, numEvicted, freed⟩
    | some (e, rest) =>
      if _hleaf : e.node ∈ U.leaves c.tree then
        if _hfresh : U.priority c.tree e.node = e.priority then
          evictLoop (deleteLeaf U { c with evictHeap := rest } e.node) numTokens
            (numEvicted + U.size c.tree e.node) (freed ++ [e.node])
        else evictLoop (push U { c with evictHeap := rest } e.node) numTokens numEvicted freed
      else evictLoop { c with evictHeap := rest } numTokens numEvicted freed
  else ⟨c, numEvicted, freed⟩
termination_by (U.count c.tree, c.stale U, c.evictHeap.length)
decreasing_by
  · rw [deleteLeaf_tree]
    exact Prod.Lex.left _ _ (count_deleteLeaf U _hleaf)
  · have hperm := (popMin_spec _hpop).1.countP_eq (isStale U c.tree)
    have hstale : isStale U c.tree e = true := by simp [isStale, _hleaf, _hfresh]
    rw [List.countP_cons_of_pos hstale] at hperm
    have hle : stale U (push U { c with evictHeap := rest } e.node) ≤ rest.countP (isStale U c.tree) :=
      stale_push_le U { c with evictHeap := rest } e.node
    have hlt : rest.countP (isStale U c.tree) < stale U c := by
      unfold stale
      omega
    rw [push_tree]
    exact Prod.Lex.right _ (Prod.Lex.left _ _ (Nat.lt_of_le_of_lt hle hlt))
  · have hperm := (popMin_spec _hpop).1.countP_eq (isStale U c.tree)
    have hdead : ¬ isStale U c.tree e = true := by simp [isStale, _hleaf]
    rw [List.countP_cons_of_neg hdead] at hperm
    have hlength := (popMin_spec _hpop).1.length_eq
    have hsame : stale U { c with evictHeap := rest } = stale U c := hperm.symm
    rw [hsame]
    refine Prod.Lex.right _ (Prod.Lex.right _ ?_)
    simp only [List.length_cons] at hlength
    omega

/-- `evict`. -/
def evict (c : Cache σ N P) (numTokens : Nat) : Evicted (Cache σ N P) N :=
  if U.disable then ⟨c, 0, []⟩ else c.evictLoop U numTokens 0 []

end Cache

/-! ### A fresh heap for every eviction -/

/-- The loop of an eviction that made its own heap; nothing when it takes more turns than given. -/
def referenceLoop : Nat → σ → List (P × N) → Nat → Nat → List N → Option (Evicted σ N)
  | 0, _, _, _, _, _ => none
  | turns + 1, t, heap, numTokens, numEvicted, freed =>
    if numEvicted < numTokens then
      match popMin Prod.fst heap with
      | none => some ⟨t, numEvicted, freed⟩
      | some (e, rest) =>
        let after := U.deleteLeaf t e.2
        let becomesLeaf := U.parent t e.2 ∉ U.leaves t ∧ U.parent t e.2 ∈ U.leaves after
        let heap := if becomesLeaf then (U.priority after (U.parent t e.2), U.parent t e.2) :: rest else rest
        referenceLoop turns after heap numTokens (numEvicted + U.size t e.2) (freed ++ [e.2])
    else some ⟨t, numEvicted, freed⟩

/-- An eviction that makes a heap of the leaves that are evictable when it is called. -/
def referenceEvict (t : σ) (numTokens : Nat) : Option (Evicted σ N) :=
  if U.disable then some ⟨t, 0, []⟩
  else referenceLoop U (U.count t + 1) t ((U.leaves t).map fun n => (U.priority t n, n)) numTokens 0 []

/-! ### Runs -/

inductive Event (σ N : Type) where
  | internal (tree : σ)
  | update (n : N)
  | reset (tree : σ)
  | evict (numTokens : Nat)

/-- One step of the cache. Inserts, matches, locks and unlocks are such steps of the tree, one after another. -/
def step (c : Cache σ N P) : Event σ N → Cache σ N P
  | .internal tree => if U.Internal c.tree tree then { c with tree } else c
  | .update n => c.updateLeafStatus U n
  | .reset tree => if U.leaves tree = [] then { c with tree, evictHeap := [] } else c
  | .evict numTokens => (c.evict U numTokens).cache

/-! ### What an eviction frees -/

/-- Leaf after leaf is freed, the least first, until there are enough tokens or no leaves. -/
inductive Frees (numTokens : Nat) : σ → Nat → List N → σ → Nat → Prop where
  | enough {t : σ} {n : Nat} : ¬ n < numTokens → Frees numTokens t n [] t n
  | bare {t : σ} {n : Nat} : U.leaves t = [] → Frees numTokens t n [] t n
  | free {t t' : σ} {n n' : Nat} {x : N} {xs : List N} : n < numTokens → x ∈ U.leaves t →
      (∀ y ∈ U.leaves t, U.priority t x ≤ U.priority t y) →
      Frees numTokens (U.deleteLeaf t x) (n + U.size t x) xs t' n' → Frees numTokens t n (x :: xs) t' n'

omit [DecidableEq N] in
/-- There is one way to do so. -/
theorem Frees.unique {numTokens : Nat} {t t₁ t₂ : σ} {n n₁ n₂ : Nat} {xs ys : List N}
    (h : Frees U numTokens t n xs t₁ n₁) (h' : Frees U numTokens t n ys t₂ n₂) : xs = ys ∧ t₁ = t₂ ∧ n₁ = n₂ := by
  induction h generalizing ys with
  | enough henough =>
    cases h' with
    | enough _ => exact ⟨rfl, rfl, rfl⟩
    | bare _ => exact ⟨rfl, rfl, rfl⟩
    | free hmore _ _ _ => exact absurd hmore henough
  | bare hbare =>
    cases h' with
    | enough _ => exact ⟨rfl, rfl, rfl⟩
    | bare _ => exact ⟨rfl, rfl, rfl⟩
    | free _ hmem _ _ =>
      rw [hbare] at hmem
      cases hmem
  | free hmore hmem hleast _ ih =>
    cases h' with
    | enough henough => exact absurd hmore henough
    | bare hbare =>
      rw [hbare] at hmem
      cases hmem
    | free _ hmem' hleast' hrest' =>
      have hsame := U.distinct _ _ _ hmem hmem' (le_antisymm (hleast _ hmem') (hleast' _ hmem))
      subst hsame
      obtain ⟨hxs, ht, hn⟩ := ih hrest'
      exact ⟨by rw [hxs], ht, hn⟩

/-! ### The persistent heap finds the least leaf -/

/-- Some entry of a node is not above its priority. -/
def Covers (t : σ) (heap : List (Entry N P)) (y : N) : Prop := ∃ e ∈ heap, e.node = y ∧ e.priority ≤ U.priority t y

/-- Every evictable leaf has an entry that is not above its priority. -/
def Covered (c : Cache σ N P) : Prop := ∀ y ∈ U.leaves c.tree, Covers U c.tree c.evictHeap y

omit [DecidableEq N] in
theorem covered_rebuild (c : Cache σ N P) : Covered U (c.rebuild U) := by
  intro y hy
  obtain ⟨i, hi⟩ := List.mem_iff_getElem?.mp hy
  have hmem : (y, i) ∈ (U.leaves c.tree).zipIdx := List.mk_mem_zipIdx_iff_getElem?.mpr hi
  exact ⟨_, List.mem_map_of_mem hmem, rfl, le_refl _⟩

variable {c : Cache σ N P}

omit [DecidableEq N] in
theorem covered_push {n : N} (h : ∀ y ∈ U.leaves c.tree, y ≠ n → Covers U c.tree c.evictHeap y) :
    Covered U (c.push U n) := by
  classical
  unfold Cache.push
  simp only
  split
  · exact covered_rebuild U _
  · intro y hy
    by_cases hyn : y = n
    · exact ⟨_, List.mem_cons_self, hyn.symm, le_of_eq (by rw [hyn])⟩
    · obtain ⟨e, he, hnode, hle⟩ := h y hy hyn
      exact ⟨e, List.mem_cons_of_mem _ he, hnode, hle⟩

theorem covered_update (h : Covered U c) (n : N) : Covered U (c.updateLeafStatus U n) := by
  have hother : ∀ y ∈ U.leaves (U.updateLeafStatus c.tree n), y ∈ U.leaves c.tree →
      Covers U (U.updateLeafStatus c.tree n) c.evictHeap y := fun y _ hold => by
    obtain ⟨e, he, hnode, hle⟩ := h y hold
    exact ⟨e, he, hnode, by rw [U.priority_update]; exact hle⟩
  unfold Cache.updateLeafStatus
  simp only
  split
  · exact covered_push U fun y hy hne => hother y hy ((U.leaves_update c.tree n y hne).mp hy)
  · next hnot =>
    intro y hy
    refine hother y hy ?_
    by_cases hyn : y = n
    · subst hyn
      by_cases hold : y ∈ U.leaves c.tree
      · exact hold
      · exact absurd ⟨hold, hy⟩ hnot
    · exact (U.leaves_update c.tree n y hyn).mp hy

omit [DecidableEq N] in
/-- The entry that is popped was needed by its own node only. -/
theorem covers_rest {t : σ} {heap rest : List (Entry N P)} {e : Entry N P} (h : heap.Perm (e :: rest)) {y : N}
    (hne : y ≠ e.node) (covers : Covers U t heap y) : Covers U t rest y := by
  obtain ⟨e', he', hnode, hle⟩ := covers
  cases List.mem_cons.mp (h.mem_iff.mp he') with
  | inl heq => exact absurd (heq ▸ hnode).symm hne
  | inr hrest => exact ⟨e', hrest, hnode, hle⟩

omit [DecidableEq N] in
/-- An entry that is popped and is up to date is of the least leaf. -/
theorem least_of_pop (h : Covered U c) {e : Entry N P} {rest : List (Entry N P)}
    (hpop : popMin Entry.key c.evictHeap = some (e, rest)) (fresh : U.priority c.tree e.node = e.priority) :
    ∀ y ∈ U.leaves c.tree, U.priority c.tree e.node ≤ U.priority c.tree y := by
  intro y hy
  obtain ⟨hperm, hleast⟩ := popMin_spec hpop
  obtain ⟨e', he', hnode, hle⟩ := h y hy
  rw [fresh]
  refine le_trans ?_ hle
  cases List.mem_cons.mp (hperm.mem_iff.mp he') with
  | inl heq => rw [heq]
  | inr hrest =>
    cases Prod.Lex.le_iff.mp (hleast e' hrest) with
    | inl hlt => exact le_of_lt hlt
    | inr heq => exact le_of_eq heq.1

/-- **An eviction from the persistent heap frees the least leaves, and leaves the heap as it should be.** -/
theorem evictLoop_frees (c : Cache σ N P) (numTokens numEvicted : Nat) (freed : List N) (h : Covered U c) :
    Covered U (c.evictLoop U numTokens numEvicted freed).cache ∧
      ∃ xs, (c.evictLoop U numTokens numEvicted freed).freed = freed ++ xs ∧
        Frees U numTokens c.tree numEvicted xs (c.evictLoop U numTokens numEvicted freed).cache.tree
          (c.evictLoop U numTokens numEvicted freed).numEvicted := by
  fun_induction Cache.evictLoop U c numTokens numEvicted freed with
  | case1 c numEvicted freed hmore hpop =>
    refine ⟨h, [], (List.append_nil _).symm, .bare ?_⟩
    -- Without an entry there is no leaf.
    refine List.eq_nil_iff_forall_not_mem.mpr fun y hy => ?_
    obtain ⟨e, he, _⟩ := h y hy
    rw [popMin_eq_none.mp hpop] at he
    cases he
  | case2 c numEvicted freed hmore e rest hpop hleaf hfresh ih =>
    have hperm := (popMin_spec hpop).1
    have hcovered : Covered U (Cache.deleteLeaf U { c with evictHeap := rest } e.node) := by
      refine covered_update U (fun y hy => ?_) _
      obtain ⟨hold, hne⟩ := (U.leaves_detach c.tree e.node hleaf y).mp hy
      obtain ⟨e', he', hnode, hle⟩ := covers_rest U hperm hne (h y hold)
      exact ⟨e', he', hnode, by rw [U.priority_detach]; exact hle⟩
    obtain ⟨hafter, xs, hfreed, hfrees⟩ := ih hcovered
    rw [Cache.deleteLeaf_tree] at hfrees
    refine ⟨hafter, e.node :: xs, ?_, .free hmore hleaf (least_of_pop U h hpop hfresh) hfrees⟩
    rw [hfreed, List.append_assoc]
    rfl
  | case3 c numEvicted freed hmore e rest hpop hleaf hstale ih =>
    have hperm := (popMin_spec hpop).1
    have hcovered : Covered U (Cache.push U { c with evictHeap := rest } e.node) :=
      covered_push U fun y hy hne => covers_rest U hperm hne (h y hy)
    obtain ⟨hafter, xs, hfreed, hfrees⟩ := ih hcovered
    rw [Cache.push_tree] at hfrees
    exact ⟨hafter, xs, hfreed, hfrees⟩
  | case4 c numEvicted freed hmore e rest hpop hdead ih =>
    have hperm := (popMin_spec hpop).1
    exact ih fun y hy => covers_rest U hperm (fun heq => hdead (heq ▸ hy)) (h y hy)
  | case5 c numEvicted freed henough => exact ⟨h, [], (List.append_nil _).symm, .enough henough⟩

/-! ### So does a fresh heap -/

/-- A heap that has each leaf once, with its priority. -/
structure Matches (t : σ) (heap : List (P × N)) : Prop where
  nodup : (heap.map Prod.snd).Nodup
  mem : ∀ y, y ∈ heap.map Prod.snd ↔ y ∈ U.leaves t
  priority : ∀ e ∈ heap, e.1 = U.priority t e.2

omit [DecidableEq N] in
theorem matches_leaves (t : σ) : Matches U t ((U.leaves t).map fun n => (U.priority t n, n)) := by
  have hnodes : ((U.leaves t).map fun n => (U.priority t n, n)).map Prod.snd = U.leaves t := by
    rw [List.map_map]
    exact List.map_id _
  refine ⟨by rw [hnodes]; exact U.nodup t, fun y => by rw [hnodes], fun e he => ?_⟩
  obtain ⟨n, _, rfl⟩ := List.mem_map.mp he
  rfl

omit [DecidableEq N] in
theorem priority_deleteLeaf (t : σ) (x y : N) : U.priority (U.deleteLeaf t x) y = U.priority t y := by
  rw [RadixTree.deleteLeaf, U.priority_update, U.priority_detach]

omit [DecidableEq N] in
theorem leaves_deleteLeaf {t : σ} {x y : N} (hx : x ∈ U.leaves t) (hne : y ≠ U.parent t x) :
    y ∈ U.leaves (U.deleteLeaf t x) ↔ y ∈ U.leaves t ∧ y ≠ x := by
  rw [RadixTree.deleteLeaf, U.leaves_update _ _ _ hne, U.leaves_detach t x hx]

/-- A turn: the leaf goes, and its parent comes if it is a leaf now. -/
theorem matches_turn {t : σ} {heap rest : List (P × N)} {e : P × N} (h : Matches U t heap)
    (hperm : heap.Perm (e :: rest)) (hleaf : e.2 ∈ U.leaves t) :
    Matches U (U.deleteLeaf t e.2)
      (if U.parent t e.2 ∉ U.leaves t ∧ U.parent t e.2 ∈ U.leaves (U.deleteLeaf t e.2) then
        (U.priority (U.deleteLeaf t e.2) (U.parent t e.2), U.parent t e.2) :: rest
      else rest) := by
  have hnodes : (heap.map Prod.snd).Perm (e.2 :: rest.map Prod.snd) := hperm.map Prod.snd
  obtain ⟨hfresh, hnodup⟩ := List.nodup_cons.mp (hnodes.nodup_iff.mp h.nodup)
  have hparent := U.parent_notMem t e.2 hleaf
  have hrest : ∀ y, y ∈ rest.map Prod.snd ↔ y ∈ U.leaves t ∧ y ≠ e.2 := fun y => by
    rw [← h.mem y, hnodes.mem_iff, List.mem_cons]
    constructor
    · intro hy
      exact ⟨.inr hy, fun heq => hfresh (heq ▸ hy)⟩
    · intro ⟨hy, hne⟩
      exact hy.resolve_left hne
  have hpriority : ∀ e' ∈ rest, e'.1 = U.priority (U.deleteLeaf t e.2) e'.2 := fun e' he' => by
    rw [priority_deleteLeaf]
    exact h.priority e' (hperm.mem_iff.mpr (List.mem_cons_of_mem e he'))
  split
  · next hbecomes =>
    refine ⟨?_, fun y => ?_, fun e' he' => ?_⟩
    · rw [List.map_cons, List.nodup_cons]
      exact ⟨fun hmem => hparent ((hrest _).mp hmem).1, hnodup⟩
    · rw [List.map_cons, List.mem_cons, hrest]
      by_cases hy : y = U.parent t e.2
      · exact ⟨fun _ => hy ▸ hbecomes.2, fun _ => .inl hy⟩
      · rw [leaves_deleteLeaf U hleaf hy]
        exact ⟨fun hor => hor.resolve_left hy, .inr⟩
    · cases List.mem_cons.mp he' with
      | inl heq => rw [heq]
      | inr hmem => exact hpriority e' hmem
  · next hnot =>
    refine ⟨hnodup, fun y => ?_, hpriority⟩
    rw [hrest]
    by_cases hy : y = U.parent t e.2
    · subst hy
      exact ⟨fun hold => absurd hold.1 hparent, fun hnew => absurd ⟨hparent, hnew⟩ hnot⟩
    · rw [leaves_deleteLeaf U hleaf hy]

/-- **An eviction with a heap of its own frees the least leaves.** -/
theorem referenceLoop_frees (turns : Nat) {t : σ} {heap : List (P × N)} (numTokens numEvicted : Nat) (freed : List N)
    (h : Matches U t heap) (hturns : U.count t < turns) :
    ∃ xs t' n', referenceLoop U turns t heap numTokens numEvicted freed = some ⟨t', n', freed ++ xs⟩ ∧
      Frees U numTokens t numEvicted xs t' n' := by
  induction turns generalizing t heap numEvicted freed with
  | zero => omega
  | succ turns ih =>
    unfold referenceLoop
    by_cases hmore : numEvicted < numTokens
    · rw [if_pos hmore]
      cases hpop : popMin Prod.fst heap with
      | none =>
        refine ⟨[], t, numEvicted, by rw [List.append_nil], .bare ?_⟩
        refine List.eq_nil_iff_forall_not_mem.mpr fun y hy => ?_
        have hmem := (h.mem y).mpr hy
        rw [popMin_eq_none.mp hpop] at hmem
        cases hmem
      | some p =>
        obtain ⟨e, rest⟩ := p
        obtain ⟨hperm, hleast⟩ := popMin_spec hpop
        have hentry : e ∈ heap := hperm.mem_iff.mpr List.mem_cons_self
        have hleaf : e.2 ∈ U.leaves t := (h.mem e.2).mp (List.mem_map_of_mem hentry)
        have hmin : ∀ y ∈ U.leaves t, U.priority t e.2 ≤ U.priority t y := fun y hy => by
          obtain ⟨e', he', rfl⟩ := List.mem_map.mp ((h.mem y).mpr hy)
          rw [← h.priority e hentry, ← h.priority e' he']
          cases List.mem_cons.mp (hperm.mem_iff.mp he') with
          | inl heq => rw [heq]
          | inr hrest => exact hleast e' hrest
        have hcount := Cache.count_deleteLeaf U hleaf
        obtain ⟨xs, t', n', hresult, hfrees⟩ := ih (numEvicted + U.size t e.2) (freed ++ [e.2])
          (matches_turn U h hperm hleaf) (by omega)
        refine ⟨e.2 :: xs, t', n', ?_, .free hmore hleaf hmin hfrees⟩
        simp only
        rw [hresult, List.append_assoc]
        rfl
    · rw [if_neg hmore]
      exact ⟨[], t, numEvicted, by rw [List.append_nil], .enough hmore⟩

/-! ### Every run -/

theorem covered_evict (h : Covered U c) (numTokens : Nat) :
    Covered U (c.evict U numTokens).cache := by
  unfold Cache.evict
  split
  · exact h
  · exact (evictLoop_frees U c numTokens 0 [] h).1

theorem covered_step (h : Covered U c) (e : Event σ N) : Covered U (step U c e) := by
  cases e with
  | internal tree =>
    simp only [step]
    split
    · next hinternal =>
      intro y hy
      obtain ⟨hold, hgrown⟩ := hinternal y hy
      obtain ⟨entry, hentry, hnode, hle⟩ := h y hold
      exact ⟨entry, hentry, hnode, le_trans hle hgrown⟩
    · exact h
  | update n => exact covered_update U h n
  | reset tree =>
    simp only [step]
    split
    · next hbare =>
      intro y hy
      rw [hbare] at hy
      cases hy
    · exact h
  | evict numTokens => exact covered_evict U h numTokens

theorem covered_run (events : List (Event σ N)) : Covered U (run (step U) { tree := U.start } events) := by
  refine run_invariant (I := Covered U) (fun y hy => ?_) (fun c e h => covered_step U h e) events
  rw [U.leaves_start] at hy
  cases hy

/-- **The persistent heap evicts like a fresh one.** After any run, an eviction (which always ends) frees the leaves
that one with a heap of its own would free, in the same order, and leaves the tree the same; and every evictable leaf
has an entry in the heap that is not above its priority. -/
theorem evicts_like_fresh (events : List (Event σ N)) :
    (∀ numTokens, referenceEvict U (run (step U) { tree := U.start } events).tree numTokens =
      some ⟨((run (step U) { tree := U.start } events).evict U numTokens).cache.tree,
        ((run (step U) { tree := U.start } events).evict U numTokens).numEvicted,
        ((run (step U) { tree := U.start } events).evict U numTokens).freed⟩) ∧
    ∀ y ∈ U.leaves (run (step U) { tree := U.start } events).tree,
      ∃ e ∈ (run (step U) { tree := U.start } events).evictHeap,
        e.node = y ∧ e.priority ≤ U.priority (run (step U) { tree := U.start } events).tree y := by
  have h := covered_run U events
  generalize run (step U) { tree := U.start } events = c at h
  refine ⟨fun numTokens => ?_, h⟩
  unfold referenceEvict Cache.evict
  split
  · rfl
  · obtain ⟨_, xs, hfreed, hfrees⟩ := evictLoop_frees U c numTokens 0 [] h
    obtain ⟨ys, t', n', hresult, hfrees'⟩ := referenceLoop_frees U (U.count c.tree + 1) numTokens 0 []
      (matches_leaves U c.tree) (Nat.lt_succ_self _)
    obtain ⟨hxs, ht, hn⟩ := Frees.unique U hfrees hfrees'
    rw [hresult, hfreed, hxs, ht, hn]

/-- The tree of one sequence that is cached in pieces: how many there are, and whether the last one is evictable. -/
def chain : RadixTree (Nat × Bool) Nat Nat where
  start := (0, false)
  disable := false
  leaves t := if 0 < t.1 ∧ t.2 = true then [t.1] else []
  priority _ x := x
  size _ _ := 1
  parent _ x := x - 1
  count t := t.1
  detach t _ := (t.1 - 1, false)
  updateLeafStatus t n := if n = t.1 then (t.1, true) else t
  leaves_start := rfl
  nodup t := by
    split
    · exact List.nodup_singleton _
    · exact List.nodup_nil
  distinct _ _ _ _ _ h := h
  parent_notMem t x h := by
    split at h
    · next hlast =>
      rw [List.mem_singleton.mp h, if_pos hlast, List.mem_singleton]
      omega
    · cases h
  leaves_detach t x h y := by
    split at h
    · next hlast =>
      rw [List.mem_singleton.mp h, if_pos hlast, List.mem_singleton]
      simp
    · cases h
  priority_detach _ _ _ := rfl
  count_detach t x h := by
    split at h
    · next hlast => exact Nat.sub_lt hlast.1 Nat.one_pos
    · cases h
  leaves_update t n y hne := by
    by_cases hn : n = t.1
    · have hlast : y ≠ t.1 := hn ▸ hne
      simp only [hn, if_true]
      split
      · split
        · exact Iff.rfl
        · simp [hlast]
      · split
        · simp [hlast]
        · exact Iff.rfl
    · simp only [hn, if_false]
  priority_update _ _ _ := rfl
  count_update t n := by
    split
    · rfl
    · rfl

/-- Three pieces are cached, and room is made for two. -/
theorem evicts_like_fresh_chain :
    referenceEvict chain (run (step chain) { tree := chain.start } [.internal (3, false), .update 3]).tree 2 =
      some ⟨((run (step chain) { tree := chain.start } [.internal (3, false), .update 3]).evict chain 2).cache.tree,
        ((run (step chain) { tree := chain.start } [.internal (3, false), .update 3]).evict chain 2).numEvicted,
        ((run (step chain) { tree := chain.start } [.internal (3, false), .update 3]).evict chain 2).freed⟩ ∧
    referenceEvict chain (run (step chain) { tree := chain.start } [.internal (3, false), .update 3]).tree 2 =
      some ⟨(1, true), 2, [3, 2]⟩ :=
  ⟨(evicts_like_fresh chain [.internal (3, false), .update 3]).1 2, by decide⟩

end SglangOmni.Scheduling.EvictHeap
