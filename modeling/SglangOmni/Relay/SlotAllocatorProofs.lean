import SglangOmni.Relay.SlotAllocator

/-! What the slot allocator guarantees, over every history of calls.

The free map and the counter follow the slots that were handed out and not given
back (`Accounted`), and a parked task has nothing it could take (`NoLostWakeup`).
A release is checked against the free map alone (`Releasable`): it is accepted
exactly when every slot it names is taken, whoever took it. So the allocations
are whole runs as long as callers give back what they were given
(`Along step ReleasesLive`), and the allocator itself does not ask. -/
namespace SglangOmni.Relay.SlotAllocator
open Lib

variable {g : Geometry} {free : List Bool} {n i : Nat} {numSlots offset : Int} {a : Allocation}
  {range : Finset Nat} {c : Call} {s : State g}

/-! ### The first-fit scan -/

/-- Where the scan stands: `index` flags seen, the last `runLen` of them free and
the run not longer to the left, no run of `numSlots` among what was seen. -/
structure Scanning (free : List Bool) (numSlots index runStart runLen : Nat) : Prop where
  short : runLen < numSlots
  start : runLen ≠ 0 → runStart + runLen = index
  seen : runLen ≤ index
  run : RunAt free (index - runLen) runLen true
  left : runLen = index ∨ free[index - runLen - 1]? = some false
  none : ∀ j, j + numSlots ≤ index → ¬RunAt free j numSlots true

theorem scanning_false {index runStart runLen : Nat}
    (h : Scanning free n index runStart runLen) (hget : free[index]? = some false) :
    Scanning free n (index + 1) runStart 0 := by
  have hshort := h.short
  refine ⟨by omega, fun h => absurd rfl h, by omega, ?_, .inr (by simpa using hget), ?_⟩
  · intro k hk hk'
    omega
  · intro j hj hrun
    rcases Nat.lt_or_ge index (j + n) with hlt | hge
    · have hfree := hrun index (by omega) hlt
      rw [hget] at hfree
      cases hfree
    · exact h.none j hge hrun

theorem scanning_true {index runStart runLen : Nat}
    (h : Scanning free n index runStart runLen) (hget : free[index]? = some true) (hne : runLen + 1 ≠ n) :
    Scanning free n (index + 1) (if runLen = 0 then index else runStart) (runLen + 1) := by
  have hshort := h.short
  have hseen := h.seen
  refine ⟨by omega, fun _ => ?_, by omega, ?_, ?_, ?_⟩
  · split
    · omega
    · next hz =>
      have := h.start hz
      omega
  · intro k hk hk'
    rcases Nat.lt_or_ge k index with hlt | hge
    · exact h.run k (by omega) (by omega)
    · rw [show k = index by omega]
      exact hget
  · rcases h.left with hall | hleft
    · exact .inl (by omega)
    · right
      rw [show index + 1 - (runLen + 1) - 1 = index - runLen - 1 by omega]
      exact hleft
  · intro j hj hrun
    rcases Nat.lt_or_ge index (j + n) with hlt | hge
    · -- The run would end here, and so reach back past the flag left of the current run.
      rcases h.left with hall | hleft
      · omega
      · have hfree := hrun (index - runLen - 1) (by omega) (by omega)
        rw [hleft] at hfree
        cases hfree
    · exact h.none j hge hrun

theorem flag_of_drop {b : Bool} {rest : List Bool} {index : Nat} (h : free.drop index = b :: rest) :
    free[index]? = some b ∧ free.drop (index + 1) = rest := by
  refine ⟨?_, ?_⟩
  · have := congrArg (·[0]?) h
    simpa using this
  · rw [← List.drop_drop, h]
    rfl

theorem findContiguousFrom_some (rest : List Bool)
    (index runStart runLen i : Nat) (h : Scanning free n index runStart runLen)
    (hrest : free.drop index = rest) (hfound : findContiguousFrom n rest index runStart runLen = some i) :
    RunAt free i n true ∧ ∀ j < i, ¬RunAt free j n true := by
  induction rest generalizing index runStart runLen with
  | nil => cases hfound
  | cons b rest ih =>
    obtain ⟨hget, hdrop⟩ := flag_of_drop hrest
    cases b with
    | false => exact ih _ _ _ (scanning_false h hget) hdrop hfound
    | true =>
      simp only [findContiguousFrom] at hfound
      split at hfound
      · next hn =>
        have hseen := h.seen
        have hi : i = index - runLen := by
          rw [← Option.some.inj hfound]
          split
          · omega
          · next hz =>
            have := h.start hz
            omega
        refine ⟨?_, ?_⟩
        · intro k hk hk'
          rcases Nat.lt_or_ge k index with hlt | hge
          · exact h.run k (by omega) (by omega)
          · rw [show k = index by omega]
            exact hget
        · intro j hj
          exact h.none j (by omega)
      · next hne => exact ih _ _ _ (scanning_true h hget hne) hdrop hfound

theorem findContiguousFrom_none (rest : List Bool)
    (index runStart runLen : Nat) (h : Scanning free n index runStart runLen)
    (hrest : free.drop index = rest) (hfound : findContiguousFrom n rest index runStart runLen = none)
    (j : Nat) : ¬RunAt free j n true := by
  induction rest generalizing index runStart runLen with
  | nil =>
    intro hrun
    have hshort := h.short
    have hlast := hrun (j + n - 1) (by omega) (by omega)
    have hlt : j + n - 1 < free.length := (List.getElem?_eq_some_iff.mp hlast).1
    have hlen : free.length ≤ index := List.drop_eq_nil_iff.mp hrest
    exact h.none j (by omega) hrun
  | cons b rest ih =>
    obtain ⟨hget, hdrop⟩ := flag_of_drop hrest
    cases b with
    | false => exact ih _ _ _ (scanning_false h hget) hdrop hfound
    | true =>
      simp only [findContiguousFrom] at hfound
      split at hfound
      · cases hfound
      · next hne => exact ih _ _ _ (scanning_true h hget hne) hdrop hfound

theorem scanning_start (free : List Bool) (hn : 0 < n) : Scanning free n 0 0 0 :=
  ⟨hn, fun h => absurd rfl h, Nat.le_refl _, fun k _ hk => by omega, .inl rfl, fun j hj => by omega⟩

/-- First fit: the run found is free and no run starts before it. -/
theorem findContiguous_some (hn : 0 < n) (h : findContiguous free n = some i) :
    RunAt free i n true ∧ ∀ j < i, ¬RunAt free j n true :=
  findContiguousFrom_some free 0 0 0 i (scanning_start free hn) rfl h

/-- A scan that finds nothing has missed nothing. -/
theorem findContiguous_none (hn : 0 < n)
    (h : findContiguous free n = none) (j : Nat) : ¬RunAt free j n true :=
  findContiguousFrom_none free 0 0 0 (scanning_start free hn) rfl h j

/-! ### Release -/

/-- What `release` checks: a positive number of slots, aligned, inside the pool,
every one of them taken. -/
structure Releasable (p : Pool g) (offset numSlots : Int) : Prop where
  positive : 0 < numSlots
  aligned : offset % g.slotSize = 0
  nonneg : 0 ≤ offset / g.slotSize
  inside : offset / g.slotSize + numSlots ≤ g.slotCount
  taken : RunAt p.free (offset / g.slotSize).toNat numSlots.toNat false

theorem any_free_iff {start : Nat} (hlen : start + n ≤ free.length) :
    (List.range' start n).any (fun i => free.getD i false) = false ↔ RunAt free start n false := by
  rw [List.any_eq_false]
  constructor
  · intro h k hk hk'
    have hlt : k < free.length := by omega
    have hk2 := h k (by rw [List.mem_range'_1]; omega)
    rw [List.getD_eq_getElem?_getD, List.getElem?_eq_getElem hlt] at hk2
    rw [List.getElem?_eq_getElem hlt]
    simpa using hk2
  · intro h k hk
    rw [List.mem_range'_1] at hk
    rw [List.getD_eq_getElem?_getD, h k hk.1 hk.2]
    simp

/-- An accepted release frees exactly the slots it names, counts them and sets the event. -/
theorem release_accepted {p : Pool g} (hlen : p.free.length = g.slotCount)
    (h : Releasable p offset numSlots) :
    release p offset numSlots = (.ok (),
      { free := setRange p.free (offset / g.slotSize).toNat numSlots.toNat true
        freeSlots := p.freeSlots + numSlots
        changed := p.changed.set }) := by
  obtain ⟨hpos, haligned, hnonneg, hinside, htaken⟩ := h
  have hout : ¬(offset / g.slotSize < 0 ∨ offset / g.slotSize + numSlots > g.slotCount) := by omega
  have hany := (any_free_iff (by omega)).mpr htaken
  simp only [release, if_neg (not_le.mpr hpos), haligned, ne_eq, not_true_eq_false, if_false,
    if_neg hout, hany, Bool.false_eq_true]

/-- Any other release raises and changes nothing. -/
theorem release_rejected {p : Pool g} (hlen : p.free.length = g.slotCount)
    (h : ¬Releasable p offset numSlots) : ∃ e, release p offset numSlots = (.error e, p) := by
  unfold release
  split
  · exact ⟨_, rfl⟩
  next hpos =>
  split
  · exact ⟨_, rfl⟩
  next haligned =>
  simp only
  split
  · exact ⟨_, rfl⟩
  next hout =>
  split
  · exact ⟨_, rfl⟩
  next hany =>
  rw [Bool.not_eq_true, any_free_iff (by omega)] at hany
  exact absurd ⟨by omega, not_not.mp haligned, by omega, by omega, hany⟩ h

/-! ### The books -/

/-- What the free map and the counter say of the allocations: they hold disjoint
sets of slots inside the pool, a slot is taken exactly when one of them holds it,
and the counter counts the others. -/
structure Accounted (s : State g) : Prop where
  length : s.pool.free.length = g.slotCount
  inRange : ∀ a ∈ s.live, 0 < a.numSlots ∧ a.start + a.numSlots ≤ g.slotCount
  disjoint : s.live.Pairwise (fun a b => Disjoint a.held b.held)
  taken : ∀ i, s.pool.free[i]? = some false ↔ ∃ a ∈ s.live, i ∈ a.held
  counter : s.pool.freeSlots = s.pool.free.count true

/-- A parked task: the event is clear and no run is as long as what it asked for. -/
structure NoLostWakeup (s : State g) : Prop where
  clear : s.pool.changed.parked ≠ [] → s.pool.changed.value = false
  parked : ∀ task ∈ s.pool.changed.parked, ∃ c, s.calls.get? task = some c ∧
    ∀ start, ¬RunAt s.pool.free start c.numSlots true

/-- Suspended calls ask for something. -/
def Asking (s : State g) : Prop := ∀ task c, s.calls.get? task = some c → 0 < c.numSlots

theorem mem_held :
    i ∈ a.held ↔ (a.start ≤ i ∧ i < a.start + a.numSlots) ∧ i ∉ a.released := by
  simp [Allocation.held, Allocation.slots]

theorem mem_slotRange :
    i ∈ slotRange g offset numSlots ↔ (offset / g.slotSize).toNat ≤ i ∧
      i < (offset / g.slotSize).toNat + numSlots.toNat := by
  simp [slotRange]

theorem mem_held_giveBack :
    i ∈ (a.giveBack range).held ↔ i ∈ a.held ∧ i ∉ range := by
  simp only [mem_held, Allocation.giveBack, Allocation.slots, Finset.mem_union, Finset.mem_inter,
    Finset.mem_Ico]
  tauto

theorem held_giveBack_subset (range : Finset Nat) (a : Allocation) :
    (a.giveBack range).held ⊆ a.held := fun _ hi => (mem_held_giveBack.mp hi).1

/-- What the allocations hold after a range is given back. -/
theorem held_giveBack {live : List Allocation} :
    (∃ a ∈ giveBack range live, i ∈ a.held) ↔ (∃ a ∈ live, i ∈ a.held) ∧ i ∉ range := by
  simp only [giveBack, List.mem_filter, List.mem_map]
  constructor
  · rintro ⟨_, ⟨⟨a, ha, rfl⟩, _⟩, hi⟩
    have := mem_held_giveBack.mp hi
    exact ⟨⟨a, ha, this.1⟩, this.2⟩
  · rintro ⟨⟨a, ha, hi⟩, hr⟩
    have hi' : i ∈ (a.giveBack range).held := mem_held_giveBack.mpr ⟨hi, hr⟩
    refine ⟨_, ⟨⟨a, ha, rfl⟩, ?_⟩, hi'⟩
    simpa using Finset.ne_empty_of_mem hi'

theorem mem_giveBack {live : List Allocation}
    (h : a ∈ giveBack range live) : ∃ b ∈ live, a = b.giveBack range := by
  obtain ⟨b, hb, rfl⟩ := List.mem_map.mp (List.mem_filter.mp h).1
  exact ⟨b, hb, rfl⟩

theorem accounted_create (g : Geometry) : Accounted (State.create g) := by
  refine ⟨by simp [State.create, Pool.create], by simp [State.create], by simp [State.create], ?_, ?_⟩
  · intro i
    simp [State.create, Pool.create, List.getElem?_replicate]
  · simp [State.create, Pool.create]

/-- A pass that finds a run takes it from no one. -/
theorem accounted_acquired (h : Accounted s) (hc : 0 < c.numSlots)
    (hfound : findContiguous s.pool.free c.numSlots = some i) (calls : Dict Nat Call) (e : Event) :
    Accounted (⟨⟨setRange s.pool.free i c.numSlots false, s.pool.freeSlots - c.numSlots, e⟩, calls,
      ⟨i, c.numSlots, ∅⟩ :: s.live⟩ : State g) := by
  have hrun := (findContiguous_some hc hfound).1
  have hin : i + c.numSlots ≤ g.slotCount := by
    have hlast := hrun (i + c.numSlots - 1) (by omega) (by omega)
    have := (List.getElem?_eq_some_iff.mp hlast).1
    rw [h.length] at this
    omega
  refine ⟨by simpa using h.length, ?_, ?_, ?_, ?_⟩
  · intro a ha
    rcases List.mem_cons.mp ha with rfl | ha
    · exact ⟨hc, hin⟩
    · exact h.inRange a ha
  · refine List.pairwise_cons.mpr ⟨fun a ha => ?_, h.disjoint⟩
    rw [Finset.disjoint_left]
    intro k hk hka
    have hk' := (mem_held.mp hk).1
    have hfree := hrun k hk'.1 hk'.2
    rw [(h.taken k).mpr ⟨a, ha, hka⟩] at hfree
    cases hfree
  · intro k
    rw [getElem?_setRange, h.length]
    simp only [List.mem_cons, exists_eq_or_imp, mem_held (a := ⟨i, c.numSlots, ∅⟩),
      Finset.notMem_empty, not_false_eq_true, and_true]
    split
    · next hk => exact ⟨fun _ => .inl ⟨hk.1, hk.2.1⟩, fun _ => rfl⟩
    · next hk =>
      rw [h.taken k]
      constructor
      · exact .inr
      · rintro (hk' | hk')
        · omega
        · exact hk'
  · have := count_not_setRange s.pool.free i c.numSlots false hrun
    have hcounter := h.counter
    simp only [Bool.not_false] at this
    simp only [hcounter]
    omega

/-- An accepted release gives back exactly its range. -/
theorem accounted_release (h : Accounted s) (hr : Releasable s.pool offset numSlots) (e : Event) :
    Accounted (⟨⟨setRange s.pool.free (offset / g.slotSize).toNat numSlots.toNat true,
      s.pool.freeSlots + numSlots, e⟩, s.calls, giveBack (slotRange g offset numSlots) s.live⟩ :
        State g) := by
  obtain ⟨hpos, _, _, hinside, htaken⟩ := hr
  refine ⟨by simpa using h.length, ?_, ?_, ?_, ?_⟩
  · intro a ha
    obtain ⟨b, hb, rfl⟩ := mem_giveBack ha
    exact h.inRange b hb
  · refine List.Pairwise.filter _ (List.pairwise_map.mpr (h.disjoint.imp ?_))
    intro a b hab
    exact hab.mono (held_giveBack_subset _ a) (held_giveBack_subset _ b)
  · intro k
    show _ ↔ ∃ a ∈ giveBack (slotRange g offset numSlots) s.live, k ∈ a.held
    rw [held_giveBack, getElem?_setRange, mem_slotRange, ← h.taken k, h.length]
    split
    · next hk =>
      constructor
      · intro hfalse
        cases hfalse
      · rintro ⟨_, hout⟩
        exact absurd ⟨hk.1, hk.2.1⟩ hout
    · next hk =>
      constructor
      · intro hfree
        have hlt : k < s.pool.free.length := (List.getElem?_eq_some_iff.mp hfree).1
        rw [h.length] at hlt
        exact ⟨hfree, fun hk' => hk ⟨hk'.1, hk'.2, hlt⟩⟩
      · exact fun hk' => hk'.1
  · have := count_setRange s.pool.free _ _ true htaken
    have hcounter := h.counter
    simp only [hcounter, this]
    omega

/-! ### One step -/

structure Sound (s : State g) : Prop where
  accounted : Accounted s
  wakeup : NoLostWakeup s
  asking : Asking s

theorem sound_create (g : Geometry) : Sound (State.create g) :=
  ⟨accounted_create g, ⟨fun h => absurd rfl h, fun _ ht => nomatch ht⟩, fun _ _ h => nomatch h⟩

/-- Taking slots makes no run. -/
theorem runAt_of_taken {start m : Nat}
    (h : RunAt (setRange free i n false) start m true) : RunAt free start m true := by
  intro k hk hk'
  have hget := h k hk hk'
  rw [getElem?_setRange] at hget
  split at hget
  · cases hget
  · exact hget

/-- The locals a failed pass leaves ask for the same number of slots. -/
theorem acquirePass_numSlots {p q : Pool g} {d : Call} (h : acquirePass p c = (.inr d, q)) :
    d.numSlots = c.numSlots := by
  unfold acquirePass at h
  split at h
  · cases h
  · simp only [Prod.mk.injEq, Sum.inr.injEq] at h
    rw [← h.1]
    split <;> rfl

theorem attempt_some {task : Nat} (h : findContiguous s.pool.free c.numSlots = some i) :
    attempt s task c =
      { pool :=
          { free := setRange s.pool.free i c.numSlots false
            freeSlots := s.pool.freeSlots - c.numSlots
            changed := if s.pool.freeSlots - c.numSlots = 0 then s.pool.changed.clear
              else s.pool.changed }
        calls := s.calls.pop task
        live := ⟨i, c.numSlots, ∅⟩ :: s.live } := by
  simp only [attempt, acquirePass, h, Nat.mul_div_cancel i g.slotSize_pos]

theorem attempt_none (task : Nat) (h : findContiguous s.pool.free c.numSlots = none) :
    ∃ d : Call, d.numSlots = c.numSlots ∧ attempt s task c =
      { s with
        pool := {s.pool with changed := s.pool.changed.clear.wait task}
        calls := s.calls.set task d } := by
  have hpass : ∃ d, acquirePass s.pool c = (.inr d, {s.pool with changed := s.pool.changed.clear}) := by
    simp only [acquirePass, h]
    exact ⟨_, rfl⟩
  obtain ⟨d, hd⟩ := hpass
  exact ⟨d, acquirePass_numSlots hd, by simp only [attempt, hd]⟩

/-- A pass by a task that is not parked. -/
theorem sound_attempt (h : Sound s) {task : Nat} (hc : 0 < c.numSlots)
    (htask : task ∉ s.pool.changed.parked) : Sound (attempt s task c) := by
  obtain ⟨hacc, hwake, hask⟩ := h
  cases hfound : findContiguous s.pool.free c.numSlots with
  | some i =>
    rw [attempt_some hfound]
    refine ⟨accounted_acquired hacc hc hfound _ _, ⟨?_, ?_⟩, ?_⟩
    · intro hne
      dsimp only at hne ⊢
      split
      · rfl
      · next hz =>
        rw [if_neg hz] at hne
        exact hwake.clear hne
    · intro t ht
      have ht' : t ∈ s.pool.changed.parked := by
        dsimp only at ht
        split at ht <;> exact ht
      obtain ⟨d, hd, hnone⟩ := hwake.parked t ht'
      have hne : t ≠ task := fun he => htask (he ▸ ht')
      exact ⟨d, by rw [Dict.get?_pop_ne _ hne]; exact hd, fun start hrun => hnone start (runAt_of_taken hrun)⟩
    · intro t d hd
      rw [Dict.get?_pop] at hd
      split at hd
      · cases hd
      · exact hask t d hd
  | none =>
    obtain ⟨d, hd, heq⟩ := attempt_none task hfound
    rw [heq]
    refine ⟨⟨hacc.length, hacc.inRange, hacc.disjoint, hacc.taken, hacc.counter⟩, ⟨fun _ => rfl, ?_⟩, ?_⟩
    · intro t ht
      by_cases hne : t = task
      · subst hne
        refine ⟨d, Dict.get?_set_self .., fun start => ?_⟩
        rw [hd]
        exact findContiguous_none hc hfound start
      · have ht' : t ∈ s.pool.changed.parked := by
          rcases List.mem_append.mp ht with ht | ht
          · exact ht
          · exact absurd (List.mem_singleton.mp ht) hne
        obtain ⟨d', hd', hnone⟩ := hwake.parked t ht'
        exact ⟨d', by rw [Dict.get?_set_ne _ _ hne]; exact hd', hnone⟩
    · intro t d' hd'
      rw [Dict.get?_set] at hd'
      split at hd'
      · cases hd'
        omega
      · exact hask t d' hd'

theorem sound_cancel (h : Sound s) (task : Nat) : Sound (step s (.cancel task)) := by
  obtain ⟨hacc, hwake, hask⟩ := h
  refine ⟨⟨hacc.length, hacc.inRange, hacc.disjoint, hacc.taken, hacc.counter⟩, ⟨?_, ?_⟩, ?_⟩
  · intro hne
    refine hwake.clear fun hnil => hne ?_
    simp [step, Event.leave, hnil]
  · intro t ht
    have ht' := List.mem_filter.mp ht
    obtain ⟨d, hd, hnone⟩ := hwake.parked t ht'.1
    have hne : t ≠ task := by simpa using ht'.2
    exact ⟨d, by rw [step, Dict.get?_pop_ne _ hne]; exact hd, hnone⟩
  · intro t d hd
    rw [step, Dict.get?_pop] at hd
    split at hd
    · cases hd
    · exact hask t d hd

theorem step_release_accepted (h : Accounted s) (hr : Releasable s.pool offset numSlots) :
    step s (.release offset numSlots) =
      { pool :=
          { free := setRange s.pool.free (offset / g.slotSize).toNat numSlots.toNat true
            freeSlots := s.pool.freeSlots + numSlots
            changed := s.pool.changed.set }
        calls := s.calls
        live := giveBack (slotRange g offset numSlots) s.live } := by
  simp only [step, release_accepted h.length hr]

theorem step_release_rejected (h : Accounted s)
    (hr : ¬Releasable s.pool offset numSlots) : step s (.release offset numSlots) = s := by
  obtain ⟨e, he⟩ := release_rejected h.length hr
  simp only [step, he]

/-- Setting the event leaves no one parked: a set event has no pending waiter. -/
theorem parked_set (h : NoLostWakeup s) : s.pool.changed.set.parked = [] := by
  unfold Event.set
  split
  · next hv =>
    by_contra hne
    rw [h.clear hne] at hv
    cases hv
  · rfl

theorem sound_release (h : Sound s) (offset numSlots : Int) :
    Sound (step s (.release offset numSlots)) := by
  by_cases hr : Releasable s.pool offset numSlots
  · rw [step_release_accepted h.accounted hr]
    refine ⟨accounted_release h.accounted hr _, ⟨?_, ?_⟩, h.asking⟩
    · exact fun hne => absurd (parked_set h.wakeup) hne
    · intro t ht
      rw [parked_set h.wakeup] at ht
      cases ht
  · rw [step_release_rejected h.accounted hr]
    exact h

theorem sound_step (h : Sound s) (a : Action) : Sound (step s a) := by
  cases a with
  | acquire task numSlots captureLayout =>
    simp only [step]
    split
    · exact h
    next hcalls =>
    split
    · exact h
    next c hc =>
    have hpos : 0 < c.numSlots := by
      unfold beginAcquire at hc
      split at hc
      · cases hc
      split at hc
      · cases hc
      cases hc
      dsimp only
      omega
    refine sound_attempt h hpos fun hparked => hcalls ?_
    obtain ⟨d, hd, _⟩ := h.wakeup.parked task hparked
    exact (Dict.contains_iff _ _).mpr ⟨d, hd⟩
  | resume task =>
    simp only [step]
    split
    · next c hc =>
      split
      · exact h
      · next hparked => exact sound_attempt h (h.asking task c hc) hparked
    · exact h
  | cancel task => exact sound_cancel h task
  | release offset numSlots => exact sound_release h offset numSlots

theorem sound_run (g : Geometry) (history : List Action) :
    Sound (run step (State.create g) history) :=
  run_invariant (sound_create g) (fun _ a h => sound_step h a) history

/-! ### Whole runs -/

/-- Callers that give back what they were given: an accepted release names an
allocation nothing was taken from yet. -/
def ReleasesLive (s : State g) : Action → Prop
  | .release offset numSlots => Releasable s.pool offset numSlots →
    ∃ a ∈ s.live, a.released = ∅ ∧ offset = a.start * g.slotSize ∧ numSlots = a.numSlots
  | _ => True

/-- Every allocation still holds the whole run it was given. -/
def Whole (s : State g) : Prop := ∀ a ∈ s.live, a.released = ∅

theorem held_of_released (h : a.released = ∅) : a.held = a.slots := by
  simp [Allocation.held, h]

theorem slotRange_allocation (g : Geometry) (a : Allocation) :
    slotRange g (a.start * g.slotSize) a.numSlots = a.slots := by
  have hpos := g.slotSize_pos
  have hdiv : ((a.start : Int) * g.slotSize) / g.slotSize = a.start :=
    Int.mul_ediv_cancel _ (by omega)
  simp [slotRange, hdiv, Allocation.slots]

theorem giveBack_disjoint (h : Disjoint range a.slots) :
    a.giveBack range = a := by
  simp [Allocation.giveBack, Finset.disjoint_iff_inter_eq_empty.mp h]

theorem whole_release (hs : Sound s) (hw : Whole s) {b : Allocation} (hb : b ∈ s.live) :
    ∀ a ∈ giveBack b.slots s.live, a.released = ∅ := by
  intro a ha
  have hheld : a.held ≠ ∅ := by simpa using (List.mem_filter.mp ha).2
  obtain ⟨c, hc, rfl⟩ := mem_giveBack ha
  by_cases hcb : c = b
  · -- The allocation that is given back holds nothing afterwards.
    subst hcb
    refine absurd (Finset.eq_empty_of_forall_notMem fun i hi => ?_) hheld
    obtain ⟨hi, hout⟩ := mem_held_giveBack.mp hi
    rw [held_of_released (hw c hc)] at hi
    exact hout hi
  · have : Std.Symm (fun a b : Allocation => Disjoint a.held b.held) := ⟨fun _ _ h => h.symm⟩
    have hdisj := hs.accounted.disjoint.forall hb hc (Ne.symm hcb)
    rw [held_of_released (hw b hb), held_of_released (hw c hc)] at hdisj
    rw [giveBack_disjoint hdisj]
    exact hw c hc

theorem whole_attempt (hw : Whole s) (task : Nat) (c : Call) :
    Whole (attempt s task c) := by
  cases hfound : findContiguous s.pool.free c.numSlots with
  | some i =>
    rw [attempt_some hfound]
    intro a ha
    rcases List.mem_cons.mp ha with rfl | ha
    · rfl
    · exact hw a ha
  | none =>
    obtain ⟨d, _, heq⟩ := attempt_none task hfound
    rw [heq]
    exact hw

theorem whole_step (hs : Sound s) (hw : Whole s) (a : Action) (hr : ReleasesLive s a) :
    Whole (step s a) := by
  cases a with
  | acquire task numSlots captureLayout =>
    simp only [step]
    split
    · exact hw
    split
    · exact hw
    · exact whole_attempt hw _ _
  | resume task =>
    simp only [step]
    split
    · split
      · exact hw
      · exact whole_attempt hw _ _
    · exact hw
  | cancel task => exact hw
  | release offset numSlots =>
    by_cases hrel : Releasable s.pool offset numSlots
    · obtain ⟨b, hb, _, rfl, rfl⟩ := hr hrel
      rw [step_release_accepted hs.accounted hrel, slotRange_allocation]
      exact whole_release hs hw hb
    · rw [step_release_rejected hs.accounted hrel]
      exact hw

theorem whole_run (g : Geometry) (history : List Action)
    (rule : Along step ReleasesLive (State.create g) history) :
    Whole (run step (State.create g) history) := by
  let Inv (s : State g) := Sound s ∧ Whole s
  have h : Inv (run step (State.create g) history) :=
    along_invariant ⟨sound_create g, fun _ ha => nomatch ha⟩
      (fun _ a h hr => ⟨sound_step h.1 a, whole_step h.1 h.2 a hr⟩) history rule
  exact h.2

/-- A whole allocation can be given back. -/
theorem releasable_allocation (h : Accounted s) (ha : a ∈ s.live)
    (hw : a.released = ∅) : Releasable s.pool (a.start * g.slotSize) a.numSlots := by
  have hsize := g.slotSize_pos
  have hin := h.inRange a ha
  have hdiv : ((a.start : Int) * g.slotSize) / g.slotSize = a.start :=
    Int.mul_ediv_cancel _ (by omega)
  refine ⟨by omega, Int.mul_emod_left .., by omega, by omega, ?_⟩
  intro k hk hk'
  rw [hdiv] at hk hk'
  refine (h.taken k).mpr ⟨a, ha, ?_⟩
  rw [mem_held, hw]
  simp only [Int.toNat_natCast] at hk hk'
  exact ⟨⟨hk, hk'⟩, Finset.notMem_empty k⟩

/-- An accepted release restores the slots it names and no other. -/
theorem release_restores (h : Accounted s) (hr : Releasable s.pool offset numSlots) :
    ∃ p, release s.pool offset numSlots = (.ok (), p) ∧
      p.freeSlots = s.pool.freeSlots + numSlots ∧
      ∀ i, p.free[i]? = if i ∈ slotRange g offset numSlots then some true else s.pool.free[i]? := by
  refine ⟨_, release_accepted h.length hr, rfl, fun i => ?_⟩
  have hinside := hr.inside
  have hpos := hr.positive
  have hnonneg := hr.nonneg
  rw [getElem?_setRange, h.length]
  refine if_congr ?_ rfl rfl
  rw [mem_slotRange]
  omega

/-- **The slot pool**, after any history of calls by any number of tasks. The free
map and the counter are exact for what the allocations hold; no parked task could
be served; a release of taken slots restores exactly those, whether or not they
are one allocation, and any other release raises and changes nothing; a whole
allocation can always be given back; and the allocations are whole runs as long
as callers give back what they were given. -/
theorem slot_pool (g : Geometry) (history : List Action) :
    let s := run step (State.create g) history
    Accounted s ∧ NoLostWakeup s ∧
      (∀ offset numSlots, Releasable s.pool offset numSlots →
        ∃ p, release s.pool offset numSlots = (.ok (), p) ∧
          p.freeSlots = s.pool.freeSlots + numSlots ∧
          ∀ i, p.free[i]? = if i ∈ slotRange g offset numSlots then some true
            else s.pool.free[i]?) ∧
      (∀ offset numSlots, ¬Releasable s.pool offset numSlots →
        ∃ e, release s.pool offset numSlots = (.error e, s.pool)) ∧
      (∀ a ∈ s.live, a.released = ∅ →
        Releasable s.pool (a.start * g.slotSize) a.numSlots ∧
          slotRange g (a.start * g.slotSize) a.numSlots = a.slots) ∧
      (Along step ReleasesLive (State.create g) history → ∀ a ∈ s.live, a.held = a.slots) := by
  have h := sound_run g history
  exact ⟨h.accounted, h.wakeup, fun _ _ hr => release_restores h.accounted hr,
    fun _ _ hr => release_rejected h.accounted.length hr,
    fun a ha hw => ⟨releasable_allocation h.accounted ha hw, slotRange_allocation g a⟩,
    fun rule a ha => held_of_released (whole_run g history rule a ha)⟩

/-- Half of a live allocation is not a live allocation, and releasing it neither
raises nor leaves the pool as it was. -/
theorem half_release_accepted :
    let s := run step (State.create ⟨4, 8, by decide, by decide⟩) [.acquire 0 2 false]
    s.live = [⟨0, 2, ∅⟩] ∧ (release s.pool 0 1).1 = .ok () ∧
      (release s.pool 0 1).2.free = [true, false, true, true] := by
  decide

/-! ### An idle pool -/

/-- What a waiting call asks for is in the pool. -/
def Fitting (s : State g) : Prop :=
  ∀ task c, s.calls.get? task = some c → 0 < c.numSlots ∧ c.numSlots ≤ g.slotCount

theorem fitting_attempt (h : Fitting s) (task : Nat) (hc : 0 < c.numSlots ∧ c.numSlots ≤ g.slotCount) :
    Fitting (attempt s task c) := by
  intro t e he
  cases hfound : findContiguous s.pool.free c.numSlots with
  | some i =>
    rw [attempt_some hfound, Dict.get?_pop] at he
    split at he
    · cases he
    · exact h t e he
  | none =>
    obtain ⟨d, hd, heq⟩ := attempt_none task hfound
    rw [heq, Dict.get?_set] at he
    split at he
    · cases he
      rwa [hd]
    · exact h t e he

theorem fitting_step (h : Fitting s) (a : Action) : Fitting (step s a) := by
  cases a with
  | acquire task numSlots captureLayout =>
    simp only [step, beginAcquire]
    split_ifs with hcalls hpos hfits
    · exact h
    · exact h
    · exact h
    · exact fitting_attempt h task (by dsimp only; omega)
  | resume task =>
    simp only [step]
    split
    · next c hc =>
      split
      · exact h
      · exact fitting_attempt h task (h task c hc)
    · exact h
  | cancel task =>
    intro t e he
    simp only [step, Dict.get?_pop] at he
    split at he
    · cases he
    · exact h t e he
  | release offset numSlots =>
    simp only [step]
    split <;> exact h

/-- A call that fits gets the first slots of an idle pool. -/
theorem Accounted.attempt_idle (h : Accounted s) (idle : s.live = []) (task : Nat)
    (hc : 0 < c.numSlots ∧ c.numSlots ≤ g.slotCount) :
    RunAt s.pool.free 0 c.numSlots true ∧ (attempt s task c).live = [⟨0, c.numSlots, ∅⟩] := by
  have hrun : RunAt s.pool.free 0 c.numSlots true := by
    intro k _ hk
    have hlt : k < s.pool.free.length := by rw [h.length]; omega
    have htaken : s.pool.free[k]? ≠ some false := fun hk => by
      obtain ⟨a, ha, _⟩ := (h.taken k).mp hk
      rw [idle] at ha
      cases ha
    rw [List.getElem?_eq_getElem hlt] at htaken ⊢
    cases hk : s.pool.free[k] with
    | true => rfl
    | false => exact absurd (congrArg some hk) htaken
  refine ⟨hrun, ?_⟩
  cases hfound : findContiguous s.pool.free c.numSlots with
  | none => exact absurd hrun (findContiguous_none hc.1 hfound 0)
  | some i =>
    have hfirst := (findContiguous_some hc.1 hfound).2 0
    rw [attempt_some hfound, idle, Nat.eq_zero_of_not_pos fun hi => hfirst hi hrun]

/-- **An idle pool serves.** Whatever was acquired, cancelled and released before: when no slot is held any more, no
task is parked, and a call that was waiting, or comes now and asks for no more than the pool has, is served at its first
pass. -/
theorem idle_pool_serves (g : Geometry) (history : List Action) (idle : (run step (State.create g) history).live = []) :
    let s := run step (State.create g) history
    s.pool.changed.parked = [] ∧
      (∀ task c, s.calls.get? task = some c → (step s (.resume task)).live = [⟨0, c.numSlots, ∅⟩]) ∧
      ∀ task (numSlots : Int) captureLayout, s.calls.contains task = false → 0 < numSlots → numSlots ≤ g.slotCount →
        (step s (.acquire task numSlots captureLayout)).live = [⟨0, numSlots.toNat, ∅⟩] := by
  intro s
  have h := sound_run g history
  have hfitting : Fitting s :=
    run_invariant (I := Fitting) (fun _ _ h => by cases h) (fun _ a h => fitting_step h a) history
  have hparked : s.pool.changed.parked = [] := by
    refine List.eq_nil_iff_forall_not_mem.mpr fun task htask => ?_
    obtain ⟨c, hc, hnone⟩ := h.wakeup.parked task htask
    exact hnone 0 (h.accounted.attempt_idle idle task (hfitting task c hc)).1
  refine ⟨hparked, fun task c hc => ?_, fun task numSlots captureLayout hcalls hpos hfits => ?_⟩
  · simp only [step, hc, hparked, List.not_mem_nil, if_false]
    exact (h.accounted.attempt_idle idle task (hfitting task c hc)).2
  · simp only [step, hcalls, Bool.false_eq_true, if_false, beginAcquire, Int.not_le.mpr hpos, Int.not_lt.mpr hfits]
    exact (h.accounted.attempt_idle idle task (by dsimp only; omega)).2

theorem idle_pool_serves_waiting :
    (step (run step (State.create ⟨4, 8, by decide, by decide⟩)
      [.acquire 0 2 false, .acquire 1 4 false, .release 0 2]) (.resume 1)).live = [⟨0, 4, ∅⟩] :=
  (idle_pool_serves _ [.acquire 0 2 false, .acquire 1 4 false, .release 0 2] (by decide)).2.1 1 ⟨4, false, 1, 0, 0, 0⟩
    (by decide)

end SglangOmni.Relay.SlotAllocator
