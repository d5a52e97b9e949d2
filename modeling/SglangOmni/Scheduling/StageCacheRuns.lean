import SglangOmni.Lib.History
import SglangOmni.Scheduling.StageCache

/-! The stage cache over whole runs.

A run is logged: what was stored, used, refused, removed, and what an eviction loop popped. The log alone says which
keys are there, in which order (`recency`), and what is under each of them (`lastStored`); the cache agrees with it
after every run, and the running byte counter with the entries. -/
namespace SglangOmni.Scheduling.StageCache
open Lib

variable {K D : Type}

/-! ### Accounts -/

namespace Cache

/-- The sizes of the stored entries. -/
def held (c : Cache K D) : Nat := c.cache.total CacheEntry.sizeBytes

def Accounted (c : Cache K D) : Prop := c.currentBytes = c.held

structure Fits (limits : Limits) (c : Cache K D) : Prop where
  entries : ∀ n, limits.maxSize = some n → c.cache.length ≤ n
  bytes : ∀ n, limits.maxBytes = some n → c.held ≤ n

/-! ### Eviction -/

/-- The oldest entries are gone, and nothing else has changed. -/
structure Evicted (c c' : Cache K D) : Prop where
  dropped : ∃ n, n ≤ c.cache.length ∧ c'.cache = c.cache.drop n
  accounted : c.Accounted → c'.Accounted

theorem Evicted.refl (c : Cache K D) : Evicted c c := ⟨⟨0, Nat.zero_le _, rfl⟩, fun h => h⟩

theorem length_drop (d : Dict K (CacheEntry D)) (n : Nat) : (d.drop n).length = d.length - n := List.length_drop

variable {c : Cache K D}

theorem Evicted.trans {a b : Cache K D} (h : Evicted a b) (h' : Evicted b c) : Evicted a c := by
  obtain ⟨n, hn, hb⟩ := h.dropped
  obtain ⟨m, hm, hc⟩ := h'.dropped
  have hlength : b.cache.length = a.cache.length - n := by rw [hb, length_drop]
  refine ⟨⟨n + m, by omega, ?_⟩, fun ha => h'.accounted (h.accounted ha)⟩
  rw [hc, hb]
  simp only [Dict.drop, List.drop_drop]

theorem Evicted.length_le {c' : Cache K D} (h : Evicted c c') : c'.cache.length ≤ c.cache.length := by
  obtain ⟨n, _, hn⟩ := h.dropped
  rw [hn, length_drop]
  exact Nat.sub_le _ _

theorem held_drop_one {e : K × CacheEntry D} {rest : List (K × CacheEntry D)}
    (h : c.cache.entries = e :: rest) : c.held = e.2.sizeBytes + (c.cache.drop 1).total CacheEntry.sizeBytes := by
  simp only [held, Dict.total, Dict.drop, h, List.map_cons, List.sum_cons, List.drop_succ_cons, List.drop_zero]

theorem evicted_popOldest (c : Cache K D) : Evicted c c.popOldest := by
  unfold popOldest
  split
  · exact .refl c
  · next e rest hentries =>
    refine ⟨⟨1, ?_, rfl⟩, fun h => ?_⟩
    · rw [Dict.length, hentries]
      exact Nat.succ_le_succ (Nat.zero_le _)
    · have hheld := held_drop_one hentries
      unfold Accounted at h ⊢
      show c.currentBytes - e.2.sizeBytes = ((c.cache.drop 1).total CacheEntry.sizeBytes : Nat)
      omega

theorem length_popOldest (h : c.cache.length ≠ 0) : c.popOldest.cache.length + 1 = c.cache.length := by
  unfold popOldest
  split
  · next hentries => exact absurd (by rw [Dict.length, hentries]; rfl) h
  · show (c.cache.drop 1).length + 1 = c.cache.length
    rw [length_drop]
    omega

theorem evicted_evictWhile (exceeded : Cache K D → Bool) (n : Nat) (c : Cache K D) :
    Evicted c (evictWhile exceeded n c) := by
  induction n generalizing c with
  | zero => exact .refl c
  | succ n ih =>
    simp only [evictWhile]
    split
    · exact (evicted_popOldest c).trans (ih _)
    · exact .refl c

/-- A loop that may pop everything stops within its limit, or has popped everything. -/
theorem evictWhile_stops (exceeded : Cache K D → Bool) (n : Nat) (c : Cache K D) (hn : c.cache.length ≤ n) :
    exceeded (evictWhile exceeded n c) = false ∨ (evictWhile exceeded n c).cache.length = 0 := by
  induction n generalizing c with
  | zero => exact .inr (Nat.le_zero.mp hn)
  | succ n ih =>
    simp only [evictWhile]
    split
    · by_cases hzero : c.cache.length = 0
      · have hpop := (evicted_popOldest c).length_le
        exact ih _ (by omega)
      · have hpop := length_popOldest hzero
        exact ih _ (by omega)
    · next h => exact .inl (Bool.eq_false_iff.mpr h)

theorem evicted_evictEntries (limits : Limits) (c : Cache K D) : Evicted c (evictEntries limits c) := by
  unfold evictEntries
  split
  · exact .refl c
  · exact evicted_evictWhile _ _ c

theorem length_evictEntries {limits : Limits} {n : Nat} (hlimit : limits.maxSize = some n) (c : Cache K D) :
    (evictEntries limits c).cache.length ≤ n := by
  simp only [evictEntries, hlimit]
  cases evictWhile_stops (fun c => n < c.cache.length) c.cache.length c (Nat.le_refl _) with
  | inl h => simpa using h
  | inr h => exact h ▸ Nat.zero_le n

theorem held_of_length (h : c.cache.length = 0) : c.held = 0 := by
  have hentries : c.cache.entries = [] := List.length_eq_zero_iff.mp h
  simp only [held, Dict.total, hentries, List.map_nil, List.sum_nil]

/-- With the accounts in order the counter never starts again. -/
theorem evictBytes_eq {limits : Limits} {bytes : Nat} (hlimit : limits.maxBytes = some bytes) (h : c.Accounted) :
    evictBytes limits c = evictWhile (fun c => bytes < c.currentBytes) c.cache.length c ∧
      (evictBytes limits c).held ≤ bytes := by
  have haccounted :=
    (evicted_evictWhile (fun c => decide ((bytes : Int) < c.currentBytes)) c.cache.length c).accounted h
  have hkept : (evictWhile (fun c => decide ((bytes : Int) < c.currentBytes)) c.cache.length c).held ≤ bytes := by
    cases evictWhile_stops (fun c => decide ((bytes : Int) < c.currentBytes)) c.cache.length c (Nat.le_refl _) with
    | inl hstop =>
      have hle := of_decide_eq_false hstop
      unfold Accounted at haccounted
      omega
    | inr hzero => exact held_of_length hzero ▸ Nat.zero_le bytes
  have heq : evictBytes limits c = evictWhile (fun c => bytes < c.currentBytes) c.cache.length c := by
    simp only [evictBytes, hlimit]
    refine if_neg ?_
    unfold Accounted at haccounted
    omega
  exact ⟨heq, heq ▸ hkept⟩

theorem evicted_evictBytes (limits : Limits) (h : c.Accounted) : Evicted c (evictBytes limits c) := by
  cases hlimit : limits.maxBytes with
  | none =>
    simp only [evictBytes, hlimit]
    exact .refl c
  | some bytes =>
    rw [(evictBytes_eq hlimit h).1]
    exact evicted_evictWhile _ _ c

theorem evicted_evictOverBudget (limits : Limits) (h : c.Accounted) :
    Evicted c (evictOverBudget limits c) :=
  (evicted_evictEntries limits c).trans (evicted_evictBytes limits ((evicted_evictEntries limits c).accounted h))

theorem fits_evictOverBudget (limits : Limits) (h : c.Accounted) : (evictOverBudget limits c).Fits limits := by
  have haccounted := (evicted_evictEntries limits c).accounted h
  constructor
  · intro n hn
    exact Nat.le_trans (evicted_evictBytes limits haccounted).length_le (length_evictEntries hn c)
  · intro n hn
    exact (evictBytes_eq hn haccounted).2

end Cache

variable [DecidableEq K]

/-! ### Operations -/

/-- One section under the lock. A `put` may raise while it copies the value; `remove_if` pops the keys it listed, with
whatever happened since. -/
inductive Op (K D : Type) where
  | get (key : K)
  | put (key : K) (data : D)
  | putRaises (key : K)
  | remove (keys : List K)
  | removeIfSame (key : K) (same : D → Bool)
  | clear

inductive Event (K D : Type) where
  | stored (key : K) (data : D)
  | used (key : K)
  | refused (key : K)
  | evicted (key : K)
  | removed (key : K)
  | cleared

namespace Cache

/-- `clear`. -/
def clear (c : Cache K D) : Cache K D := { c with cache := ∅, currentBytes := 0 }

/-- `remove_if_same`. -/
def removeIfSame (c : Cache K D) (k : K) (same : D → Bool) : Cache K D :=
  if ((c.cache.get? k).map (same ·.data)).getD false then c.popOld k else c

/-- The cache with a value stored in it, before `_evict_over_budget`. -/
def store (sizeFn : D → Nat) (c : Cache K D) (k : K) (data : D) : Cache K D :=
  { c.popOld k with
    cache := (c.popOld k).cache.set k ⟨data, sizeFn data⟩
    currentBytes := (c.popOld k).currentBytes + sizeFn data }

/-- The keys that an eviction took. -/
def lost (before after : Cache K D) : List K := before.cache.keys.take (before.cache.length - after.cache.length)

/-- What an operation leaves, and what is logged of it. -/
def apply (limits : Limits) (sizeFn : D → Nat) (c : Cache K D) : Op K D → Cache K D × List (Event K D)
  | .get k => ((c.get k).2, if c.cache.contains k then [.used k] else [])
  | .put k data =>
    (c.put limits sizeFn k data,
      if limits.maxBytes.any (· < sizeFn data) then [.refused k]
      else .stored k data :: ((c.store sizeFn k data).lost (c.put limits sizeFn k data)).map .evicted)
  | .putRaises k => (c.popOld k, [.removed k])
  | .remove keys => (keys.foldl popOld c, keys.map .removed)
  | .removeIfSame k same =>
    (c.removeIfSame k same, if ((c.cache.get? k).map (same ·.data)).getD false then [.removed k] else [])
  | .clear => (c.clear, [.cleared])

end Cache

structure Logged (K D : Type) where
  cache : Cache K D
  log : List (Event K D)

def step (limits : Limits) (sizeFn : D → Nat) (s : Logged K D) (op : Op K D) : Logged K D :=
  ⟨(s.cache.apply limits sizeFn op).1, s.log ++ (s.cache.apply limits sizeFn op).2⟩

/-- The cache after a run, with its log. -/
def runs (limits : Limits) (sizeFn : D → Nat) (ops : List (Op K D)) : Logged K D :=
  run (step limits sizeFn) ⟨Cache.empty, []⟩ ops

/-! ### What the log says -/

/-- The keys that are there, the least recently used first. -/
def recencyAfter (keys : List K) : Event K D → List K
  | .stored k _ | .used k => keys.filter (· ≠ k) ++ [k]
  | .refused k | .evicted k | .removed k => keys.filter (· ≠ k)
  | .cleared => []

def recency (log : List (Event K D)) : List K := log.foldl recencyAfter []

def storedAfter (k : K) (value : Option D) : Event K D → Option D
  | .stored k' data => if k = k' then some data else value
  | .used _ => value
  | .refused k' | .evicted k' | .removed k' => if k = k' then none else value
  | .cleared => none

/-- The value last put under a key, if nothing has taken it since. -/
def lastStored (k : K) (log : List (Event K D)) : Option D := log.foldl (storedAfter k) none

/-- Whatever was evicted was the least recently used of what was there. -/
def EvictsOldest (log : List (Event K D)) : Prop :=
  ∀ before k after, log = before ++ .evicted k :: after → (recency before).head? = some k

/-! ### Storing and popping -/

namespace Cache

variable {c : Cache K D}

theorem held_pop_of_some {k : K} {entry : CacheEntry D} (h : c.cache.get? k = some entry) :
    (c.cache.pop k).total CacheEntry.sizeBytes + entry.sizeBytes = c.held :=
  Dict.weigh_pop_of_some (fun _ entry => entry.sizeBytes) h

theorem held_popOld_le (c : Cache K D) (k : K) : (c.popOld k).held ≤ c.held := by
  unfold popOld
  split
  · exact Nat.le_refl _
  · next old h =>
    have hpop := held_pop_of_some h
    show (c.cache.pop k).total CacheEntry.sizeBytes ≤ c.held
    omega

theorem cache_popOld (c : Cache K D) (k : K) : (c.popOld k).cache = c.cache.pop k := by
  unfold popOld
  split
  · next h =>
    refine (Dict.pop_eq_self fun hk => ?_).symm
    obtain ⟨entry, hentry⟩ := (Dict.mem_keys _ _).mp hk
    rw [h] at hentry
    cases hentry
  · rfl

theorem Accounted.popOld (h : c.Accounted) (k : K) : (c.popOld k).Accounted := by
  unfold Accounted Cache.popOld at *
  split
  · exact h
  · next old hold =>
    have hpop := held_pop_of_some hold
    show c.currentBytes - old.sizeBytes = ((c.cache.pop k).total CacheEntry.sizeBytes : Nat)
    omega

theorem Fits.popOld {limits : Limits} (h : c.Fits limits) (k : K) : (c.popOld k).Fits limits where
  entries n hn := by
    rw [cache_popOld]
    exact Nat.le_trans (Dict.length_pop_le c.cache k) (h.entries n hn)
  bytes n hn := Nat.le_trans (held_popOld_le c k) (h.bytes n hn)

theorem Accounted.store (h : c.Accounted) (sizeFn : D → Nat) (k : K) (data : D) :
    (c.store sizeFn k data).Accounted := by
  have hpopped := h.popOld k
  have hnone : (c.popOld k).cache.get? k = none := by
    rw [cache_popOld]
    exact Dict.get?_pop_self _ _
  have hset := Dict.total_set_of_none CacheEntry.sizeBytes ⟨data, sizeFn data⟩ hnone
  unfold Accounted held at hpopped ⊢
  show (c.popOld k).currentBytes + sizeFn data = _
  rw [hpopped]
  simp only [Cache.store, hset]
  omega

/-! ### The log -/

/-- What the log says of the entries is so. -/
structure Follows (entries : Dict K (CacheEntry D)) (log : List (Event K D)) : Prop where
  keys : entries.keys = recency log
  values : ∀ k, (entries.get? k).map CacheEntry.data = lastStored k log
  oldest : EvictsOldest log

variable {entries entries' : Dict K (CacheEntry D)} {log : List (Event K D)} {e : Event K D}

theorem EvictsOldest.concat (h : EvictsOldest log)
    (he : ∀ k, e = .evicted k → (recency log).head? = some k) : EvictsOldest (log ++ [e]) := by
  intro before k after hlog
  cases List.eq_nil_or_concat after with
  | inl hnil =>
    subst hnil
    obtain ⟨hbefore, hlast⟩ := List.append_inj' hlog rfl
    exact hbefore ▸ he k (List.singleton_inj.mp hlast)
  | inr hconcat =>
    obtain ⟨rest, last, hafter⟩ := hconcat
    subst hafter
    rw [List.concat_eq_append, ← List.cons_append, ← List.append_assoc] at hlog
    exact h before k rest (List.append_inj' hlog rfl).1

/-- One more event. -/
theorem Follows.event (h : Follows entries log) (keys : entries'.keys = recencyAfter entries.keys e)
    (values : ∀ k, (entries'.get? k).map CacheEntry.data = storedAfter k ((entries.get? k).map CacheEntry.data) e)
    (oldest : ∀ k, e = .evicted k → entries.keys.head? = some k) : Follows entries' (log ++ [e]) where
  keys := by
    rw [keys, h.keys, recency, recency, List.foldl_append]
    rfl
  values k := by
    rw [values, h.values, lastStored, lastStored, List.foldl_append]
    rfl
  oldest := EvictsOldest.concat h.oldest fun k he => h.keys ▸ oldest k he

/-- A key is taken out, for one reason or another. -/
theorem Follows.pop (h : Follows entries log) (k : K) (he : e = .removed k ∨ e = .refused k) :
    Follows (entries.pop k) (log ++ [e]) := by
  refine h.event ?_ ?_ ?_
  · rw [Dict.keys_pop]
    cases he with
    | inl he => rw [he]; rfl
    | inr he => rw [he]; rfl
  · intro x
    rw [Dict.get?_pop]
    cases he with
    | inl he | inr he =>
      rw [he, storedAfter]
      split <;> rfl
  · intro x hx
    cases he with
    | inl he => cases he.symm.trans hx
    | inr he => cases he.symm.trans hx

/-- A key that is set moves to the end. -/
theorem Follows.move (h : Follows entries log) (k : K) (entry : CacheEntry D)
    (keys : recencyAfter entries.keys e = entries.keys.filter (· ≠ k) ++ [k])
    (values : ∀ x, storedAfter x ((entries.get? x).map CacheEntry.data) e =
      if x = k then some entry.data else (entries.get? x).map CacheEntry.data)
    (kept : ∀ x, e ≠ .evicted x) : Follows ((entries.pop k).set k entry) (log ++ [e]) := by
  refine h.event ?_ ?_ fun x hx => absurd hx (kept x)
  · rw [keys, Dict.keys_set_of_notMem, Dict.keys_pop]
    rw [Dict.keys_pop]
    exact fun hmem => of_decide_eq_true (List.mem_filter.mp hmem).2 rfl
  · intro x
    rw [Dict.get?_set, Dict.get?_pop, values]
    split <;> rfl

/-- The oldest entry is evicted. -/
theorem Follows.evictOne (h : Follows entries log) {k : K} {rest : List K} (hkeys : entries.keys = k :: rest) :
    Follows (entries.drop 1) (log ++ [.evicted k]) := by
  have hnodup : (k :: rest).Nodup := hkeys ▸ entries.nodup
  obtain ⟨hk, hrest⟩ := List.nodup_cons.mp hnodup
  have hdrop : (entries.drop 1).keys = rest := by
    rw [Dict.keys_drop, hkeys]
    rfl
  refine h.event ?_ ?_ ?_
  · rw [hdrop, hkeys, recencyAfter, List.filter_cons_of_neg (by simp)]
    refine (List.filter_eq_self.mpr fun x hx => ?_).symm
    have hne : x ≠ k := fun hxk => hk (hxk ▸ hx)
    simpa using hne
  · intro x
    rw [Dict.get?_drop_one hkeys, storedAfter]
    split <;> rfl
  · intro x hx
    cases hx
    rw [hkeys]
    rfl

/-- The oldest entries are evicted, one after the other. -/
theorem Follows.evict (h : Follows entries log) (n : Nat) :
    Follows (entries.drop n) (log ++ (entries.keys.take n).map .evicted) := by
  induction n generalizing entries log with
  | zero =>
    rw [List.take_zero, List.map_nil, List.append_nil]
    exact h
  | succ n ih =>
    cases hkeys : entries.keys with
    | nil =>
      have hentries : entries.entries = [] := List.map_eq_nil_iff.mp hkeys
      have hdrop : entries.drop (n + 1) = entries := by
        obtain ⟨l, nodup⟩ := entries
        subst hentries
        rfl
      rw [List.take_nil, List.map_nil, List.append_nil, hdrop]
      exact h
    | cons k rest =>
      have hrest : (entries.drop 1).keys = rest := by
        rw [Dict.keys_drop, hkeys]
        rfl
      have hmore := ih (h.evictOne hkeys)
      have hdrop : (entries.drop 1).drop n = entries.drop (n + 1) := by
        simp only [Dict.drop, List.drop_drop, Nat.add_comm]
      rw [hrest, hdrop, List.append_assoc] at hmore
      exact hmore

/-- The cache is what the log says, and its accounts are in order. -/
structure Sound (limits : Limits) (s : Logged K D) : Prop where
  accounted : s.cache.Accounted
  fits : s.cache.Fits limits
  follows : Follows s.cache.cache s.log

theorem cache_get_of_some {k : K} {entry : CacheEntry D} (h : c.cache.get? k = some entry) :
    (c.get k).2 = { c with cache := (c.cache.pop k).set k entry } := by
  simp only [get, h]

theorem cache_get_of_none {k : K} (h : c.cache.get? k = none) : (c.get k).2 = c := by
  simp only [get, h]

variable {limits : Limits} {sizeFn : D → Nat} {s : Logged K D}

theorem Sound.get (h : Sound limits s) (k : K) : Sound limits (step limits sizeFn s (.get k)) := by
  unfold step apply
  cases hk : s.cache.cache.get? k with
  | none =>
    have hcontains : s.cache.cache.contains k = false := by rw [Dict.contains, hk]; rfl
    simp only [cache_get_of_none hk, hcontains, Bool.false_eq_true, if_false, List.append_nil]
    exact h
  | some entry =>
    have hcontains : s.cache.cache.contains k = true := by rw [Dict.contains, hk]; rfl
    have hheld : ((s.cache.cache.pop k).set k entry).total CacheEntry.sizeBytes = s.cache.held := by
      rw [Dict.total_set_of_none _ _ (Dict.get?_pop_self _ _)]
      exact held_pop_of_some hk
    have hlength : ((s.cache.cache.pop k).set k entry).length ≤ s.cache.cache.length := by
      have hlt := Dict.length_pop_lt ((Dict.mem_keys _ _).mpr ⟨entry, hk⟩)
      exact Nat.le_trans (Dict.length_set_le _ _ _) hlt
    simp only [cache_get_of_some hk, hcontains, if_true]
    refine ⟨?_, ⟨fun n hn => Nat.le_trans hlength (h.fits.entries n hn), fun n hn => ?_⟩, ?_⟩
    · show s.cache.currentBytes = (((s.cache.cache.pop k).set k entry).total CacheEntry.sizeBytes : Nat)
      rw [hheld]
      exact h.accounted
    · show ((s.cache.cache.pop k).set k entry).total CacheEntry.sizeBytes ≤ n
      rw [hheld]
      exact h.fits.bytes n hn
    · refine h.follows.move k entry rfl (fun x => ?_) fun _ he => by cases he
      rw [storedAfter]
      split
      · next hx =>
        rw [hx, hk]
        rfl
      · rfl

theorem Sound.popOld (h : Sound limits s) (k : K) (he : e = .removed k ∨ e = .refused k) :
    Sound limits ⟨s.cache.popOld k, s.log ++ [e]⟩ where
  accounted := h.accounted.popOld k
  fits := h.fits.popOld k
  follows := by
    rw [cache_popOld]
    exact h.follows.pop k he

theorem Sound.put (h : Sound limits s) (k : K) (data : D) : Sound limits (step limits sizeFn s (.put k data)) := by
  unfold step apply
  by_cases hbig : limits.maxBytes.any (· < sizeFn data) = true
  · have hput : s.cache.put limits sizeFn k data = s.cache.popOld k := by simp only [Cache.put, hbig, if_true]
    simp only [hput, hbig, if_true]
    exact h.popOld k (.inr rfl)
  · have hput : s.cache.put limits sizeFn k data = evictOverBudget limits (s.cache.store sizeFn k data) := by
      simp only [Cache.put, hbig]
      rfl
    have haccounted := h.accounted.store sizeFn k data
    have hevicted := evicted_evictOverBudget limits haccounted
    have hstored : Follows (s.cache.store sizeFn k data).cache (s.log ++ [.stored k data]) := by
      simp only [store, cache_popOld]
      exact h.follows.move k ⟨data, sizeFn data⟩ rfl (fun _ => rfl) fun _ he => nomatch he
    obtain ⟨n, hn, hdrop⟩ := hevicted.dropped
    have hlost : (s.cache.store sizeFn k data).lost (evictOverBudget limits (s.cache.store sizeFn k data)) =
        (s.cache.store sizeFn k data).cache.keys.take n := by
      have hlength : (s.cache.store sizeFn k data).cache.length -
          ((s.cache.store sizeFn k data).cache.drop n).length = n := by
        rw [length_drop]
        omega
      rw [lost, hdrop, hlength]
    simp only [hput, hlost, hbig]
    refine ⟨hevicted.accounted haccounted, fits_evictOverBudget limits haccounted, ?_⟩
    show Follows (evictOverBudget limits _).cache _
    rw [hdrop]
    have hafter := hstored.evict n
    rw [List.append_assoc] at hafter
    exact hafter

theorem Sound.remove (h : Sound limits s) (keys : List K) : Sound limits (step limits sizeFn s (.remove keys)) := by
  show Sound limits ⟨keys.foldl Cache.popOld s.cache, s.log ++ keys.map .removed⟩
  induction keys generalizing s with
  | nil =>
    rw [List.map_nil, List.append_nil]
    exact h
  | cons k rest ih =>
    rw [List.map_cons, List.append_cons]
    exact ih (h.popOld k (.inl rfl))

theorem Sound.step (h : Sound limits s) (op : Op K D) : Sound limits (step limits sizeFn s op) := by
  cases op with
  | get k => exact h.get k
  | put k data => exact h.put k data
  | putRaises k => exact h.popOld k (.inl rfl)
  | remove keys => exact h.remove keys
  | removeIfSame k same =>
    unfold StageCache.step apply removeIfSame
    simp only
    split
    · exact h.popOld k (.inl rfl)
    · rw [List.append_nil]
      exact h
  | clear =>
    refine ⟨rfl, ⟨fun n _ => Nat.zero_le n, fun n _ => Nat.zero_le n⟩, ?_⟩
    exact h.follows.event rfl (fun _ => rfl) fun _ he => nomatch he

theorem sound_empty : Sound limits (⟨Cache.empty, []⟩ : Logged K D) where
  accounted := rfl
  fits := ⟨fun n _ => Nat.zero_le n, fun n _ => Nat.zero_le n⟩
  follows := ⟨rfl, fun _ => rfl, fun before _ _ hlog => absurd hlog (by simp)⟩

end Cache

end SglangOmni.Scheduling.StageCache
