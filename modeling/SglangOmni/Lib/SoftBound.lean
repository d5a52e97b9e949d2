import Mathlib.Algebra.BigOperators.Fin
import Mathlib.Algebra.Order.BigOperators.Group.Finset

/-! Counters that are bounded softly.

Each of `n` writers owns a counter. Before it counts up it reads all the counters, one after
another, and goes on when they sum to less than a limit; the others go on counting meanwhile, so the
sum it saw may never have been there. Still the counters never sum to more than `limit + n - 1`.

The argument is about the writer whose last scan started last. Every other writer has counted up at
most once since that scan began, for its own scan began earlier. So each counter is at most one more
than the scan saw, and the scan saw less than the limit. -/
namespace SglangOmni.Lib

/-- A scan: when it started, and what it has seen of the counters, in their order. -/
structure Scan where
  start : Nat
  seen : List Nat

structure Counters (n : Nat) where
  count : Fin n → Nat
  /-- The scan a writer is in. -/
  scan : Fin n → Option Scan
  /-- The scan behind the last time a counter went up. -/
  last : Fin n → Option Scan
  clock : Nat

namespace Counters

variable {n limit : Nat} {c : Counters n}

def create (n : Nat) : Counters n where
  count _ := 0
  scan _ := none
  last _ := none
  clock := 0

/-! ### Moves -/

def start (c : Counters n) (i : Fin n) : Counters n :=
  { c with scan := Function.update c.scan i (some ⟨c.clock, []⟩), clock := c.clock + 1 }

/-- One more counter is read. -/
def read (c : Counters n) (i : Fin n) (sc : Scan) (j : Fin n) : Counters n :=
  { c with scan := Function.update c.scan i (some { sc with seen := sc.seen ++ [c.count j] }) }

def acquire (c : Counters n) (i : Fin n) (sc : Scan) : Counters n :=
  { c with
    count := Function.update c.count i (c.count i + 1)
    scan := Function.update c.scan i none
    last := Function.update c.last i (some sc) }

def lower (c : Counters n) (i : Fin n) (v : Nat) : Counters n := { c with count := Function.update c.count i v }

def reset (c : Counters n) (i : Fin n) : Counters n :=
  { c with
    count := Function.update c.count i 0
    scan := Function.update c.scan i none
    last := Function.update c.last i none }

/-! ### The invariant -/

/-- A scan of `i`, in progress or behind its last count. -/
def Scans (c : Counters n) (i : Fin n) (sc : Scan) : Prop := c.scan i = some sc ∨ c.last i = some sc

structure Inv (limit : Nat) (c : Counters n) : Prop where
  clock : ∀ i sc, c.Scans i sc → sc.start < c.clock
  order : ∀ i sc sc', c.scan i = some sc → c.last i = some sc' → sc'.start < sc.start
  fresh : ∀ i, c.last i = none → c.count i = 0
  full : ∀ i sc, c.last i = some sc → sc.seen.length = n ∧ sc.seen.sum < limit
  self : ∀ i sc v, c.scan i = some sc → sc.seen[i.val]? = some v → c.count i ≤ v
  selfLast : ∀ i sc v, c.last i = some sc → sc.seen[i.val]? = some v → c.count i ≤ v + 1
  /-- A counter went up at most once since it was seen, unless by a scan that started later. -/
  once : ∀ i sc, c.Scans i sc → ∀ j v, j ≠ i → sc.seen[j.val]? = some v →
    c.count j ≤ v + 1 ∨ ∃ sc', c.last j = some sc' ∧ sc.start < sc'.start
  /-- A writer that was in a scan already has not counted since. -/
  still : ∀ i sc, c.Scans i sc → ∀ j v sc', j ≠ i → sc.seen[j.val]? = some v → c.scan j = some sc' →
    sc'.start ≤ sc.start → c.count j ≤ v

theorem inv_create (limit : Nat) : Inv limit (create n) where
  clock i sc h := by obtain h | h := h <;> cases h
  order i sc sc' h := by cases h
  fresh i _ := rfl
  full i sc h := by cases h
  self i sc v h := by cases h
  selfLast i sc v h := by cases h
  once i sc h := by obtain h | h := h <;> cases h
  still i sc h := by obtain h | h := h <;> cases h

theorem update_some {α : Type} {f : Fin n → Option α} {i j : Fin n} {v : Option α} {a : α}
    (h : Function.update f i v j = some a) : (j = i ∧ v = some a) ∨ (j ≠ i ∧ f j = some a) := by
  rw [Function.update_apply] at h
  split at h
  · next hj => exact .inl ⟨hj, h⟩
  · next hj => exact .inr ⟨hj, h⟩

/-- Scans that are all old ones, and counters that are lower, or as they were. -/
theorem Inv.mono (h : Inv limit c) {c' : Counters n} (hclock : c'.clock = c.clock)
    (hcount : ∀ i, c'.count i ≤ c.count i) (hscan : ∀ i sc, c'.scan i = some sc → c.scan i = some sc)
    (hlast : ∀ i, c'.last i = c.last i ∨ (c'.last i = none ∧ c'.count i = 0)) : Inv limit c' := by
  have hold : ∀ i sc, c'.last i = some sc → c.last i = some sc := by
    intro i sc hl
    obtain h1 | ⟨h1, _⟩ := hlast i
    · rwa [← h1]
    · rw [h1] at hl
      cases hl
  have hscans : ∀ i sc, c'.Scans i sc → c.Scans i sc := fun i sc hs => hs.imp (hscan i sc) (hold i sc)
  refine ⟨?_, ?_, ?_, ?_, ?_, ?_, ?_, ?_⟩
  · intro i sc hs
    rw [hclock]
    exact h.clock i sc (hscans i sc hs)
  · exact fun i sc sc' h1 h2 => h.order i sc sc' (hscan i sc h1) (hold i sc' h2)
  · intro i hl
    obtain h1 | ⟨_, h1⟩ := hlast i
    · have hzero := h.fresh i (h1 ▸ hl)
      have := hcount i
      omega
    · exact h1
  · exact fun i sc hl => h.full i sc (hold i sc hl)
  · exact fun i sc v hs hv => Nat.le_trans (hcount i) (h.self i sc v (hscan i sc hs) hv)
  · exact fun i sc v hl hv => Nat.le_trans (hcount i) (h.selfLast i sc v (hold i sc hl) hv)
  · intro i sc hs j v hj hv
    obtain h1 | ⟨h1, hzero⟩ := hlast j
    · obtain hle | ⟨sc', hl, hlt⟩ := h.once i sc (hscans i sc hs) j v hj hv
      · exact .inl (Nat.le_trans (hcount j) hle)
      · exact .inr ⟨sc', h1.trans hl, hlt⟩
    · rw [hzero]
      exact .inl (Nat.zero_le _)
  · exact fun i sc hs j v sc' hj hv hsj hle =>
      Nat.le_trans (hcount j) (h.still i sc (hscans i sc hs) j v sc' hj hv (hscan j sc' hsj) hle)

theorem Inv.lower (h : Inv limit c) (i : Fin n) {v : Nat} (hv : v ≤ c.count i) : Inv limit (c.lower i v) := by
  refine h.mono rfl ?_ (fun _ _ hs => hs) fun _ => .inl rfl
  intro j
  show Function.update c.count i v j ≤ c.count j
  rw [Function.update_apply]
  split
  · next hj => exact hj ▸ hv
  · exact Nat.le_refl _

theorem Inv.reset (h : Inv limit c) (i : Fin n) : Inv limit (c.reset i) := by
  refine h.mono rfl ?_ ?_ ?_
  · intro j
    show Function.update c.count i 0 j ≤ c.count j
    rw [Function.update_apply]
    split
    · exact Nat.zero_le _
    · exact Nat.le_refl _
  · intro j sc hs
    obtain ⟨_, hs⟩ | ⟨_, hs⟩ := update_some hs
    · cases hs
    · exact hs
  · intro j
    by_cases hj : j = i
    · subst hj
      exact .inr ⟨Function.update_self .., Function.update_self ..⟩
    · exact .inl (Function.update_of_ne hj ..)

theorem Inv.start (h : Inv limit c) (i : Fin n) : Inv limit (c.start i) := by
  -- the new scan has seen nothing, and it is younger than all the others
  have hscans : ∀ j sc, (c.start i).Scans j sc → (sc = ⟨c.clock, []⟩ ∧ j = i) ∨ c.Scans j sc := by
    intro j sc hs
    obtain hs | hs := hs
    · obtain ⟨hj, hs⟩ | ⟨_, hs⟩ := update_some hs
      · exact .inl ⟨(Option.some.inj hs).symm, hj⟩
      · exact .inr (.inl hs)
    · exact .inr (.inr hs)
  refine ⟨?_, ?_, h.fresh, h.full, ?_, h.selfLast, ?_, ?_⟩
  · intro j sc hs
    obtain ⟨rfl, _⟩ | hs := hscans j sc hs
    · exact Nat.lt_succ_self _
    · exact Nat.lt_succ_of_lt (h.clock j sc hs)
  · intro j sc sc' hs hl
    obtain ⟨_, hs⟩ | ⟨_, hs⟩ := update_some hs
    · cases hs
      exact h.clock j sc' (.inr hl)
    · exact h.order j sc sc' hs hl
  · intro j sc v hs hv
    obtain ⟨_, hs⟩ | ⟨_, hs⟩ := update_some hs
    · cases hs
      cases hv
    · exact h.self j sc v hs hv
  · intro j sc hs k v hk hv
    obtain ⟨rfl, _⟩ | hs := hscans j sc hs
    · cases hv
    · exact h.once j sc hs k v hk hv
  · intro j sc hs k v sc' hk hv hsk hle
    obtain ⟨rfl, _⟩ | hs := hscans j sc hs
    · cases hv
    · obtain ⟨_, hsk⟩ | ⟨_, hsk⟩ := update_some hsk
      · cases hsk
        have hlt := h.clock j sc hs
        exact absurd hle (Nat.not_le.mpr hlt)
      · exact h.still j sc hs k v sc' hk hv hsk hle

theorem getElem?_snoc {l : List Nat} {k v w : Nat} (h : (l ++ [w])[k]? = some v) :
    l[k]? = some v ∨ (k = l.length ∧ v = w) := by
  obtain hk | hk := Nat.lt_trichotomy k l.length
  · rw [List.getElem?_append_left hk] at h
    exact .inl h
  · obtain rfl | hk := hk
    · rw [List.getElem?_concat_length] at h
      exact .inr ⟨rfl, (Option.some.inj h).symm⟩
    · rw [List.getElem?_eq_none (by rw [List.length_append, List.length_singleton]; omega)] at h
      cases h

theorem Inv.read (h : Inv limit c) {i j : Fin n} {sc : Scan} (hs : c.scan i = some sc)
    (hj : j.val = sc.seen.length) : Inv limit (c.read i sc j) := by
  -- what a scan has seen, before or now
  have hscans : ∀ k sc', (c.read i sc j).Scans k sc' →
      (k = i ∧ sc' = { sc with seen := sc.seen ++ [c.count j] }) ∨ c.Scans k sc' := by
    intro k sc' hk
    obtain hk | hk := hk
    · obtain ⟨hki, hk⟩ | ⟨_, hk⟩ := update_some hk
      · exact .inl ⟨hki, (Option.some.inj hk).symm⟩
      · exact .inr (.inl hk)
    · exact .inr (.inr hk)
  have hcurrent : ∀ k sc', (c.read i sc j).scan k = some sc' →
      ∃ sc'', c.scan k = some sc'' ∧ sc''.start = sc'.start := by
    intro k sc' hk
    obtain ⟨hki, hk⟩ | ⟨_, hk⟩ := update_some hk
    · cases hk
      exact ⟨sc, hki ▸ hs, rfl⟩
    · exact ⟨sc', hk, rfl⟩
  refine ⟨?_, ?_, h.fresh, h.full, ?_, h.selfLast, ?_, ?_⟩
  · intro k sc' hk
    obtain ⟨_, rfl⟩ | hk := hscans k sc' hk
    · exact h.clock i sc (.inl hs)
    · exact h.clock k sc' hk
  · intro k sc' last hk hl
    obtain ⟨sc'', hk, heq⟩ := hcurrent k sc' hk
    rw [← heq]
    exact h.order k sc'' last hk hl
  · intro k sc' v hk hv
    obtain ⟨hki, hk⟩ | ⟨_, hk⟩ := update_some hk
    · cases hk
      subst hki
      obtain hv | ⟨hkj, rfl⟩ := getElem?_snoc hv
      · exact h.self k sc v hs hv
      · have : k = j := Fin.ext (hkj.trans hj.symm)
        rw [this]
        exact Nat.le_refl _
    · exact h.self k sc' v hk hv
  · intro k sc' hk x v hx hv
    obtain ⟨rfl, rfl⟩ | hk := hscans k sc' hk
    · obtain hv | ⟨hxj, rfl⟩ := getElem?_snoc hv
      · exact h.once k sc (.inl hs) x v hx hv
      · have : x = j := Fin.ext (hxj.trans hj.symm)
        rw [this]
        exact .inl (Nat.le_succ _)
    · exact h.once k sc' hk x v hx hv
  · intro k sc' hk x v scx hx hv hsx hle
    obtain ⟨scx', hsx', heq⟩ := hcurrent x scx hsx
    rw [← heq] at hle
    obtain ⟨hki, rfl⟩ | hk := hscans k sc' hk
    · obtain hv | ⟨hxj, rfl⟩ := getElem?_snoc hv
      · exact h.still i sc (.inl hs) x v scx' (hki ▸ hx) hv hsx' hle
      · have : x = j := Fin.ext (hxj.trans hj.symm)
        rw [this]
        exact Nat.le_refl _
    · exact h.still k sc' hk x v scx' hx hv hsx' hle

theorem Inv.acquire (h : Inv limit c) {i : Fin n} {sc : Scan} (hs : c.scan i = some sc) (hfull : sc.seen.length = n)
    (hsum : sc.seen.sum < limit) : Inv limit (c.acquire i sc) := by
  have hscan : ∀ k sc', (c.acquire i sc).scan k = some sc' → k ≠ i ∧ c.scan k = some sc' := by
    intro k sc' hk
    obtain ⟨_, hk⟩ | hk := update_some hk
    · cases hk
    · exact hk
  have hlast : ∀ k sc', (c.acquire i sc).last k = some sc' → (k = i ∧ sc' = sc) ∨ (k ≠ i ∧ c.last k = some sc') := by
    intro k sc' hk
    obtain ⟨hki, hk⟩ | hk := update_some hk
    · exact .inl ⟨hki, (Option.some.inj hk).symm⟩
    · exact .inr hk
  have hscans : ∀ k sc', (c.acquire i sc).Scans k sc' → c.Scans k sc' := by
    intro k sc' hk
    obtain hk | hk := hk
    · exact .inl (hscan k sc' hk).2
    · obtain ⟨rfl, rfl⟩ | ⟨_, hk⟩ := hlast k sc' hk
      · exact .inl hs
      · exact .inr hk
  have hself : (c.acquire i sc).count i = c.count i + 1 := Function.update_self ..
  have hother : ∀ k, k ≠ i → (c.acquire i sc).count k = c.count k := fun k hk => Function.update_of_ne hk ..
  refine ⟨fun k sc' hk => h.clock k sc' (hscans k sc' hk), ?_, ?_, ?_, ?_, ?_, ?_, ?_⟩
  · intro k sc' last hk hl
    obtain ⟨hki, hk⟩ := hscan k sc' hk
    obtain ⟨hbad, _⟩ | ⟨_, hl⟩ := hlast k last hl
    · exact absurd hbad hki
    · exact h.order k sc' last hk hl
  · intro k hl
    by_cases hk : k = i
    · have hsome : (c.acquire i sc).last k = some sc := by rw [hk]; exact Function.update_self ..
      rw [hsome] at hl
      cases hl
    · have hnone : c.last k = none := (Function.update_of_ne hk ..).symm.trans hl
      rw [hother k hk]
      exact h.fresh k hnone
  · intro k sc' hl
    obtain ⟨_, rfl⟩ | ⟨_, hl⟩ := hlast k sc' hl
    · exact ⟨hfull, hsum⟩
    · exact h.full k sc' hl
  · intro k sc' v hk hv
    obtain ⟨hki, hk⟩ := hscan k sc' hk
    rw [hother k hki]
    exact h.self k sc' v hk hv
  · intro k sc' v hl hv
    obtain ⟨rfl, rfl⟩ | ⟨hki, hl⟩ := hlast k sc' hl
    · rw [hself]
      exact Nat.succ_le_succ (h.self k sc' v hs hv)
    · rw [hother k hki]
      exact h.selfLast k sc' v hl hv
  · intro k sc' hk x v hx hv
    have hold := hscans k sc' hk
    by_cases hxi : x = i
    · subst hxi
      rw [hself]
      -- the writer's scan is older than `sc'`, or it is the later one
      obtain hle | hlt := Nat.lt_or_ge sc'.start sc.start |>.symm
      · exact .inl (Nat.succ_le_succ (h.still k sc' hold x v sc hx hv hs hle))
      · exact .inr ⟨sc, Function.update_self .., hlt⟩
    · rw [hother x hxi]
      obtain hle | ⟨last, hl, hlt⟩ := h.once k sc' hold x v hx hv
      · exact .inl hle
      · exact .inr ⟨last, (Function.update_of_ne hxi ..).trans hl, hlt⟩
  · intro k sc' hk x v scx hx hv hsx hle
    obtain ⟨hxi, hsx⟩ := hscan x scx hsx
    rw [hother x hxi]
    exact h.still k sc' (hscans k sc' hk) x v scx hx hv hsx hle

/-! ### The bound -/

theorem sum_seen (sc : Scan) (h : sc.seen.length = n) : ∑ i : Fin n, (sc.seen[i.val]?).getD 0 = sc.seen.sum := by
  subst h
  rw [← Fin.sum_univ_getElem]
  refine Finset.sum_congr rfl fun i _ => ?_
  simp

/-- The counters sum to less than the limit and the number of writers. -/
theorem Inv.sum_le (h : Inv limit c) : ∑ i, c.count i ≤ limit + n - 1 := by
  by_cases hnone : ∀ i, c.last i = none
  · have hzero : ∑ i, c.count i = 0 := Finset.sum_eq_zero fun i _ => h.fresh i (hnone i)
    omega
  · -- the writer whose last scan started last
    obtain ⟨i₀, hi₀⟩ := not_forall.mp hnone
    obtain ⟨i, hi, hmax⟩ := Finset.exists_max_image (Finset.univ.filter fun i => c.last i ≠ none)
      (fun i => ((c.last i).map Scan.start).getD 0) ⟨i₀, by simpa using hi₀⟩
    have hi : c.last i ≠ none := by simpa using hi
    obtain ⟨sc, hsc⟩ := Option.ne_none_iff_exists'.mp hi
    obtain ⟨hfull, hsum⟩ := h.full i sc hsc
    have hle : ∀ j, c.count j ≤ (sc.seen[j.val]?).getD 0 + 1 := by
      intro j
      obtain ⟨v, hget⟩ : ∃ v, sc.seen[j.val]? = some v :=
        ⟨_, List.getElem?_eq_getElem (by rw [hfull]; exact j.isLt)⟩
      by_cases hj : j = i
      · subst hj
        rw [hget]
        exact h.selfLast j sc v hsc hget
      · obtain hle | ⟨sc', hl, hlt⟩ := h.once i sc (.inr hsc) j v hj hget
        · rw [hget]
          exact hle
        · have hlate := hmax j (by simp [hl])
          simp only [hsc, hl, Option.map_some, Option.getD_some] at hlate
          omega
    have hpos : 0 < n := Nat.lt_of_le_of_lt (Nat.zero_le _) i.isLt
    calc ∑ j, c.count j ≤ ∑ j : Fin n, ((sc.seen[j.val]?).getD 0 + 1) := Finset.sum_le_sum fun j _ => hle j
      _ = sc.seen.sum + n := by rw [Finset.sum_add_distrib, sum_seen sc hfull]; simp
      _ ≤ limit + n - 1 := by omega

end Counters

end SglangOmni.Lib
