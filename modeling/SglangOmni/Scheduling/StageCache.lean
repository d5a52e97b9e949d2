import SglangOmni.Lib.Dict

/-! The in-memory LRU cache of stage outputs.

An entry that is read or written moves to the end; what exceeds the number of entries or the bytes allowed is evicted
from the front. -/
namespace SglangOmni.Scheduling.StageCache
open Lib

structure Limits where
  maxSize : Option Nat := none
  maxBytes : Option Nat := none

structure CacheEntry (D : Type) where
  data : D
  sizeBytes : Nat

structure Cache (K D : Type) where
  cache : Dict K (CacheEntry D)
  currentBytes : Int := 0
  evictionCount : Nat := 0

namespace Cache
variable {K D : Type} [DecidableEq K]

def empty : Cache K D := { cache := ∅ }

/-- `popitem(last=False)` and its accounts. -/
def popOldest (c : Cache K D) : Cache K D :=
  match c.cache.entries with
  | [] => c
  | e :: _ =>
    { cache := c.cache.drop 1, currentBytes := c.currentBytes - e.2.sizeBytes, evictionCount := c.evictionCount + 1 }

/-- An eviction loop: it can pop each of the `n` entries once. -/
def evictWhile (exceeded : Cache K D → Bool) : Nat → Cache K D → Cache K D
  | 0, c => c
  | n + 1, c => if exceeded c then evictWhile exceeded n c.popOldest else c

/-- The first loop of `_evict_over_budget`. -/
def evictEntries (limits : Limits) (c : Cache K D) : Cache K D :=
  match limits.maxSize with
  | none => c
  | some n => evictWhile (fun c => n < c.cache.length) c.cache.length c

/-- Its second loop. Still over the bytes with every entry popped, the counter starts again. -/
def evictBytes (limits : Limits) (c : Cache K D) : Cache K D :=
  match limits.maxBytes with
  | none => c
  | some bytes =>
    let kept := evictWhile (fun c => bytes < c.currentBytes) c.cache.length c
    if bytes < kept.currentBytes then { kept with currentBytes := 0 } else kept

/-- `_evict_over_budget`. -/
def evictOverBudget (limits : Limits) (c : Cache K D) : Cache K D := evictBytes limits (evictEntries limits c)

def get (c : Cache K D) (k : K) : Option D × Cache K D :=
  match c.cache.get? k with
  | none => (none, c)
  | some entry => (some entry.data, { c with cache := (c.cache.pop k).set k entry })

/-- `put` takes the old entry out before it looks at the size of the new one. -/
def popOld (c : Cache K D) (k : K) : Cache K D :=
  match c.cache.get? k with
  | none => c
  | some old => { c with cache := c.cache.pop k, currentBytes := c.currentBytes - old.sizeBytes }

def put (limits : Limits) (sizeFn : D → Nat) (c : Cache K D) (k : K) (data : D) : Cache K D :=
  let popped := c.popOld k
  if limits.maxBytes.any (· < sizeFn data) then popped
  else
    evictOverBudget limits
      { popped with
        cache := popped.cache.set k ⟨data, sizeFn data⟩, currentBytes := popped.currentBytes + sizeFn data }

/-- `remove_if`. -/
def removeIf (c : Cache K D) (predicate : K → Bool) : Cache K D := (c.cache.keys.filter predicate).foldl popOld c

/-! ### What a lookup can find -/

/-- The entries of `c'` are entries of `c`. -/
def Within (c' c : Cache K D) : Prop := ∀ x e, c'.cache.get? x = some e → c.cache.get? x = some e

theorem Within.trans {a b c : Cache K D} (h : Within a b) (h' : Within b c) : Within a c :=
  fun x e hx => h' x e (h x e hx)

theorem within_popOldest (c : Cache K D) : Within c.popOldest c := by
  intro x e hx
  unfold popOldest at hx
  split at hx
  · exact hx
  · exact (c.cache.mem_entries x e).mp (List.mem_of_mem_drop ((Dict.mem_entries _ x e).mpr hx))

theorem within_evictWhile (exceeded : Cache K D → Bool) (n : Nat) (c : Cache K D) :
    Within (evictWhile exceeded n c) c := by
  induction n generalizing c with
  | zero => exact fun _ _ hx => hx
  | succ n ih =>
    simp only [evictWhile]
    split
    · exact (ih c.popOldest).trans (within_popOldest c)
    · exact fun _ _ hx => hx

theorem within_evictEntries (limits : Limits) (c : Cache K D) : Within (evictEntries limits c) c := by
  unfold evictEntries
  split
  · exact fun _ _ hx => hx
  · exact within_evictWhile _ _ _

theorem within_evictBytes (limits : Limits) (c : Cache K D) : Within (evictBytes limits c) c := by
  unfold evictBytes
  split
  · exact fun _ _ hx => hx
  · rename_i bytes _
    have kept := within_evictWhile (fun c => bytes < c.currentBytes) c.cache.length c
    simp only
    split
    · exact fun x e hx => kept x e hx
    · exact kept

theorem within_evictOverBudget (limits : Limits) (c : Cache K D) : Within (evictOverBudget limits c) c :=
  (within_evictBytes limits _).trans (within_evictEntries limits c)

theorem cache_get (c : Cache K D) (k x : K) : (c.get k).2.cache.get? x = c.cache.get? x := by
  unfold get
  split
  · rfl
  · rename_i entry h
    by_cases hx : x = k
    · rw [hx, Dict.get?_set_self, h]
    · rw [Dict.get?_set_ne _ _ hx, Dict.get?_pop_ne _ hx]

theorem get_fst (c : Cache K D) (k : K) : (c.get k).1 = (c.cache.get? k).map CacheEntry.data := by
  unfold get
  split <;> rename_i h <;> rw [h] <;> rfl

theorem within_popOld (c : Cache K D) (k : K) : Within (c.popOld k) c := by
  intro x e hx
  unfold popOld at hx
  split at hx
  · exact hx
  · by_cases hxk : x = k
    · rw [hxk, Dict.get?_pop_self] at hx
      cases hx
    · rwa [Dict.get?_pop_ne _ hxk] at hx

theorem within_removeIf (c : Cache K D) (predicate : K → Bool) : Within (c.removeIf predicate) c := by
  unfold removeIf
  generalize c.cache.keys.filter predicate = keys
  induction keys generalizing c with
  | nil => exact fun _ _ hx => hx
  | cons k rest ih => exact (ih (c.popOld k)).trans (within_popOld c k)

/-- What is in the cache after a `put` was put now, or was there before. -/
theorem put_within (limits : Limits) (sizeFn : D → Nat) (c : Cache K D) (k : K) (data : D) {x : K} {e : CacheEntry D}
    (h : (c.put limits sizeFn k data).cache.get? x = some e) :
    x = k ∧ e.data = data ∨ c.cache.get? x = some e := by
  unfold put at h
  simp only at h
  split at h
  · exact .inr (within_popOld c k x e h)
  · have hs := within_evictOverBudget limits _ x e h
    rw [Dict.get?_set] at hs
    split at hs
    · rename_i hx
      cases hs
      exact .inl ⟨hx, rfl⟩
    · exact .inr (within_popOld c k x e hs)

end Cache
end SglangOmni.Scheduling.StageCache
