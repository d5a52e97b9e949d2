import SglangOmni.Models.Qwen3Omni.Code2Wav

/-! Every pinned slot has one owner.

`Valid` counts the places of each slot: the free list, the quarantine, the requests whose window waits, and the slots
that are `held` by what is running. It goes through every program, also where a call raises, and between two steps what
is held is the retired list and the slot of the window in hand (`Owned`). -/
namespace SglangOmni.Models.Qwen3Omni.Code2Wav
open Lib

variable {K F α : Type} [DecidableEq K] [Device α]

/-! ### Places -/

/-- The window of the request waits for the slot. -/
def waitsFor (k : Nat) (state : StreamState F α) : Nat := if state.pending.map PendingWindow.slot = some k then 1 else 0

namespace Scheduler

/-- How many requests have a window that waits for the slot. -/
def waiting (s : Scheduler K F α) (k : Nat) : Nat := s.streamStates.total (waitsFor k)

/-- The slot of the window now being handled. -/
def hand (s : Scheduler K F α) : List Nat := (s.window.map Window.slot).toList

/-- When everything on the stream is done the slot has the audio that was launched into it. -/
def Holds (s : Scheduler K F α) (p : PendingWindow) : Prop :=
  (Device.settled s.device p.slot).take p.samples = s.launched p.slot

theorem waiting_setStream (s : Scheduler K F α) (r : K) (state : StreamState F α) (k : Nat) :
    (s.setStream r state).waiting k + waitsFor k (s.stream r) = s.waiting k + waitsFor k state := by
  unfold waiting setStream stream
  cases hget : s.streamStates.get? r with
  | none => simp [Dict.total_set_of_none _ _ hget, waitsFor, StreamState.create]
  | some old => exact Dict.total_set_of_some _ _ hget

@[simp] theorem stream_setStream (s : Scheduler K F α) (r : K) (state : StreamState F α) :
    (s.setStream r state).stream r = state := by
  simp [stream, setStream]

end Scheduler

/-- The slots are in order while a program runs. `held` are the slots that are in none of the other places, and the
windows in `kept` are launched ones among them. -/
structure Valid (win : Option (Window K α)) (held : List Nat) (kept : List PendingWindow) (s : Scheduler K F α) :
    Prop where
  window : s.window = win
  once : ∀ k, s.pinnedFree.count k + s.pinnedQuarantined.count k + s.waiting k + held.count k =
    if k < s.pinnedCreated then 1 else 0
  bound : s.pinnedCreated ≤ maxPinnedSlots
  /-- A free slot was seen to be done with, and it is. -/
  free : ∀ k ∈ s.pinnedFree, s.seen k = true ∧ Device.Idle s.device k
  fresh : ∀ k, s.pinnedCreated ≤ k → Device.Idle s.device k
  covered : ∀ k, k ∉ s.pinnedQuarantined → Device.Covered s.device k
  waits : ∀ r state p, s.streamStates.get? r = some state → state.pending = some p → s.Holds p
  kept : ∀ p ∈ kept, s.Holds p

namespace Valid
variable {win : Option (Window K α)} {held : List Nat} {kept : List PendingWindow} {s : Scheduler K F α} {k : Nat}
  {state : StreamState F α} {p : PendingWindow} {r : K}

/-- The order of what is held does not matter. -/
theorem reorder (h : Valid win held kept s) {held' : List Nat} (same : ∀ k, held'.count k = held.count k) :
    Valid win held' kept s :=
  { h with once := fun k => by rw [same, h.once] }

theorem forget (h : Valid win held kept s) : Valid win held [] s := { h with kept := by simp }

/-- What is held is in no other place. -/
theorem of_held (h : Valid win (k :: held) kept s) :
    k ∉ s.pinnedFree ∧ k ∉ s.pinnedQuarantined ∧ s.waiting k = 0 ∧ k < s.pinnedCreated := by
  have honce := h.once k
  rw [List.count_cons_self] at honce
  have hlt : k < s.pinnedCreated := by
    by_contra hge
    rw [if_neg hge] at honce
    omega
  rw [if_pos hlt] at honce
  exact ⟨List.count_eq_zero.mp (by omega), List.count_eq_zero.mp (by omega), by omega, hlt⟩

/-! ### What the device and the calls do -/

/-- The device goes on, whatever is counted meanwhile. -/
theorem advance (h : Valid win held kept s) (n calls : Nat) :
    Valid win held kept { s with calls, device := Device.advance s.device n } :=
  { h with
    free := fun k hk => ⟨(h.free k hk).1, (h.free k hk).2.advance n⟩
    fresh := fun k hk => (h.fresh k hk).advance n
    covered := fun k hk => (h.covered k hk).advance n
    waits := fun r state p hget hp => by
      have := h.waits r state p hget hp
      simpa [Scheduler.Holds] using this
    kept := fun p hp => by
      have := h.kept p hp
      simpa [Scheduler.Holds] using this }

theorem see (h : Valid win held kept s) (k : Nat) :
    Valid win held kept { s with seen := Function.update s.seen k true } :=
  { h with
    free := fun j hj => by
      refine ⟨?_, (h.free j hj).2⟩
      by_cases hjk : j = k
      · simp [hjk]
      · simpa [Function.update_of_ne hjk] using (h.free j hj).1 }

/-! ### Moves -/

theorem release (h : Valid win (k :: held) kept s) (seen : s.seen k = true) (idle : Device.Idle s.device k) :
    Valid win held kept { s with pinnedFree := s.pinnedFree ++ [k] } :=
  { h with
    once := fun j => by
      have := h.once j
      simp only [List.count_append, List.count_cons, List.count_nil] at this ⊢
      show _ + s.waiting j + _ = _
      omega
    free := fun j hj => by
      rcases List.mem_append.mp hj with hj | hj
      · exact h.free j hj
      · rw [List.mem_singleton.mp hj]
        exact ⟨seen, idle⟩ }

theorem quarantine (h : Valid win (k :: held) kept s) (active : Bool) :
    Valid win held kept { s with pinnedQuarantined := s.pinnedQuarantined ++ [k], pipelineActive := active } :=
  { h with
    once := fun j => by
      have := h.once j
      simp only [List.count_append, List.count_cons, List.count_nil] at this ⊢
      show _ + s.waiting j + _ = _
      omega
    covered := fun j hj => h.covered j fun hmem => hj (List.mem_append_left _ hmem) }

section
variable (h : Valid win held kept s)
include h

/-- A slot comes off the end of the free list. -/
theorem pop (last : s.pinnedFree.getLast? = some k) :
    Valid win (k :: held) kept { s with pinnedFree := s.pinnedFree.dropLast } ∧ s.seen k = true ∧
      Device.Idle s.device k := by
  have hsplit : s.pinnedFree = s.pinnedFree.dropLast ++ [k] := (List.dropLast_append_getLast? k last).symm
  refine ⟨{ h with once := fun j => ?_, free := fun j hj => ?_ }, ?_⟩
  · have := h.once j
    rw [hsplit] at this
    simp only [List.count_append, List.count_cons, List.count_nil] at this ⊢
    show _ + s.waiting j + _ = _
    omega
  · exact h.free j (List.dropLast_subset _ hj)
  · exact h.free k (List.mem_of_getLast? last)

/-- A slot is made. -/
theorem make (room : s.pinnedCreated < maxPinnedSlots) (samples : Nat) :
    Valid win (s.pinnedCreated :: held) kept { s with
      pinnedCreated := s.pinnedCreated + 1
      numel := Function.update s.numel s.pinnedCreated samples } :=
  { h with
    once := fun j => by
      have := h.once j
      simp only [List.count_cons] at this ⊢
      show _ + s.waiting j + _ = _
      by_cases hj : s.pinnedCreated = j
      · subst hj
        simp at this ⊢
        omega
      · have hlt : (j < s.pinnedCreated + 1) ↔ j < s.pinnedCreated := by omega
        simp only [hlt, beq_iff_eq, hj, if_false, Nat.add_zero] at this ⊢
        exact this
    bound := room
    fresh := fun j hj => h.fresh j (Nat.le_of_succ_le hj) }

/-- Another state for a request, with the same window waiting. -/
theorem setStream (r : K)
    (same : state.pending = (s.stream r).pending) : Valid win held kept (s.setStream r state) :=
  { h with
    once := fun j => by
      have := s.waiting_setStream r state j
      have hsame : waitsFor j state = waitsFor j (s.stream r) := by rw [waitsFor, same, waitsFor]
      rw [hsame, Nat.add_right_cancel_iff] at this
      show _ + (s.setStream r state).waiting j + _ = _
      rw [this]
      exact h.once j
    waits := fun r' state' p hget hp => by
      have hget : (s.streamStates.set r state).get? r' = some state' := hget
      rw [Dict.get?_set] at hget
      split at hget
      · cases hget
        rw [same] at hp
        unfold Scheduler.stream at hp
        cases hold : s.streamStates.get? r with
        | none => simp [hold, StreamState.create] at hp
        | some old =>
          rw [hold] at hp
          exact h.waits r old p hold hp
      · exact h.waits r' state' p hget hp }

theorem of_stream (hp : (s.stream r).pending = some p) :
    s.Holds p := by
  unfold Scheduler.stream at hp
  cases hold : s.streamStates.get? r with
  | none => simp [hold, StreamState.create] at hp
  | some old =>
    rw [hold] at hp
    exact h.waits r old p hold hp

/-- The waiting window is taken from its request. -/
theorem take (hp : (s.stream r).pending = some p) :
    Valid win (p.slot :: held) kept (s.setStream r { s.stream r with pending := none }) :=
  { h with
    once := fun j => by
      have hwait := s.waiting_setStream r { s.stream r with pending := none } j
      have := h.once j
      have hnow : waitsFor j (s.stream r) = if p.slot == j then 1 else 0 := by simp [waitsFor, hp]
      have hnone : waitsFor j { s.stream r with pending := none } = 0 := by simp [waitsFor]
      rw [hnow, hnone] at hwait
      rw [List.count_cons]
      show s.pinnedFree.count j + s.pinnedQuarantined.count j +
        (s.setStream r { s.stream r with pending := none }).waiting j + (held.count j + if p.slot == j then 1 else 0) =
          if j < s.pinnedCreated then 1 else 0
      omega
    waits := fun r' state' p' hget hp' => by
      have hget : (s.streamStates.set r { s.stream r with pending := none }).get? r' = some state' := hget
      rw [Dict.get?_set] at hget
      split at hget
      · cases hget
        cases hp'
      · exact h.waits r' state' p' hget hp' }

end

/-- A held window comes to wait at a request that has none. -/
theorem give (h : Valid win (p.slot :: held) (p :: kept) s) (none : (s.stream r).pending = none) (frames : Nat) :
    Valid win held kept (s.setStream r { s.stream r with pending := some p, emitted := frames }) :=
  { h with
    once := fun j => by
      have hwait := s.waiting_setStream r { s.stream r with pending := some p, emitted := frames } j
      have := h.once j
      have hnow : waitsFor j (s.stream r) = 0 := by simp [waitsFor, none]
      have hnew : waitsFor j { s.stream r with pending := some p, emitted := frames } =
        if p.slot == j then 1 else 0 := by simp [waitsFor]
      rw [hnow, hnew] at hwait
      rw [List.count_cons] at this
      show s.pinnedFree.count j + s.pinnedQuarantined.count j +
        (s.setStream r { s.stream r with pending := some p, emitted := frames }).waiting j + held.count j =
          if j < s.pinnedCreated then 1 else 0
      omega
    waits := fun r' state' p' hget hp' => by
      have hget : (s.streamStates.set r { s.stream r with pending := some p, emitted := frames }).get? r' =
        some state' := hget
      rw [Dict.get?_set] at hget
      split at hget
      · cases hget
        cases hp'
        exact h.kept p List.mem_cons_self
      · exact h.waits r' state' p' hget hp'
    kept := fun q hq => h.kept q (List.mem_cons_of_mem _ hq) }

/-- No request waits for what is held. -/
theorem slot_ne (none : s.waiting k = 0) (hp : (s.stream r).pending = some p) :
    p.slot ≠ k := by
  intro hk
  have hwait := s.waiting_setStream r { s.stream r with pending := .none } k
  have hnow : waitsFor k (s.stream r) = 1 := by simp [waitsFor, hp, hk]
  have hnone : waitsFor k { s.stream r with pending := .none } = 0 := by simp [waitsFor]
  omega

theorem of_quarantined (h : Valid win held kept s) (hk : k ∈ s.pinnedQuarantined) :
    k ∉ s.pinnedFree ∧ s.waiting k = 0 ∧ k < s.pinnedCreated := by
  have honce := h.once k
  have hpos := List.count_pos_iff.mpr hk
  have hlt : k < s.pinnedCreated := by
    by_contra hge
    rw [if_neg hge] at honce
    omega
  rw [if_pos hlt] at honce
  exact ⟨List.count_eq_zero.mp (by omega), by omega, hlt⟩

theorem waits_ne (h : Valid win held kept s) (hk : k ∈ s.pinnedQuarantined) (hget : s.streamStates.get? r = some state)
    (hp : state.pending = some p) : p.slot ≠ k := by
  refine slot_ne (h.of_quarantined hk).2.1 (r := r) ?_
  rw [Scheduler.stream, hget]
  exact hp

/-- What is launched into a slot that nobody counts on. -/
theorem relaunch (h : Valid win held [] s) (hk : k ∈ s.pinnedQuarantined) (wav : List α) :
    Valid win held [] { s with launched := Function.update s.launched k wav, seen := Function.update s.seen k false } :=
  { h with
    free := fun j hj => by
      have hne : j ≠ k := fun hjk => (h.of_quarantined hk).1 (hjk ▸ hj)
      simpa [Function.update_of_ne hne] using h.free j hj
    waits := fun r state p hget hp => by
      have := h.waits r state p hget hp
      simpa [Scheduler.Holds, Function.update_of_ne (h.waits_ne hk hget hp)] using this
    kept := by simp }

/-- The device may do anything to such a slot. -/
theorem enqueue {op : StreamOp α} (h : Valid win held [] s) (hk : op.target ∈ s.pinnedQuarantined) :
    Valid win held [] { s with device := Device.enqueue s.device op } := by
  obtain ⟨hfree, _, hlt⟩ := h.of_quarantined hk
  exact { h with
    free := fun j hj => by
      refine ⟨(h.free j hj).1, Device.idle_enqueue (h.free j hj).2 (StreamOp.isCopy_of_ne fun hjk => hfree ?_)⟩
      exact hjk ▸ hj
    fresh := fun j hj => Device.idle_enqueue (h.fresh j hj)
      (StreamOp.isCopy_of_ne (by have : s.pinnedCreated ≤ j := hj; omega))
    covered := fun j hj => Device.covered_enqueue (h.covered j hj) (StreamOp.isCopy_of_ne fun hjk => hj (hjk ▸ hk))
    waits := fun r state p hget hp => by
      have := h.waits r state p hget hp
      have hne := h.waits_ne hk hget hp
      simp only [Scheduler.Holds, Device.settled_enqueue] at this ⊢
      rw [StreamOp.perform_of_ne (Ne.symm hne)]
      exact this
    kept := by simp }

/-- A slot that is covered is taken out of the quarantine it was only thought to be in. -/
theorem hold {active : Bool}
    (h : Valid win held [] { s with pinnedQuarantined := s.pinnedQuarantined ++ [k], pipelineActive := active })
    (covered : Device.Covered s.device k) (holds : ∀ p ∈ kept, s.Holds p) : Valid win (k :: held) kept s :=
  { window := h.window
    bound := h.bound
    free := h.free
    fresh := h.fresh
    waits := h.waits
    kept := holds
    once := fun j => by
      have : s.pinnedFree.count j + (s.pinnedQuarantined ++ [k]).count j + s.waiting j + held.count j =
        if j < s.pinnedCreated then 1 else 0 := h.once j
      simp only [List.count_append, List.count_cons, List.count_nil] at this ⊢
      omega
    covered := fun j hj => by
      by_cases hjk : j = k
      · exact hjk ▸ covered
      · refine h.covered j fun hmem => ?_
        rcases List.mem_append.mp hmem with hmem | hmem
        · exact hj hmem
        · exact hjk (List.mem_singleton.mp hmem) }

/-- The window in hand is another. -/
theorem setWindow (h : Valid win held kept s) (win' : Option (Window K α)) :
    Valid win' held kept { s with window := win' } :=
  { h with window := rfl }

/-- A request is forgotten; the slot of its window is held. -/
theorem forgetStream (h : Valid win held kept s) (hget : s.streamStates.get? r = some state) :
    Valid win ((state.pending.map PendingWindow.slot).toList ++ held) kept
      { s with streamStates := s.streamStates.pop r } :=
  { h with
    once := fun j => by
      have hpop : (s.streamStates.pop r).total (waitsFor j) + waitsFor j state = s.streamStates.total (waitsFor j) :=
        Dict.weigh_pop_of_some (fun _ => waitsFor j) hget
      have := h.once j
      have hcount : ((state.pending.map PendingWindow.slot).toList).count j = waitsFor j state := by
        unfold waitsFor
        cases state.pending with
        | none => rfl
        | some p => simp [List.count_cons]
      rw [List.count_append, hcount]
      show s.pinnedFree.count j + s.pinnedQuarantined.count j + (s.streamStates.pop r).total (waitsFor j) +
        (waitsFor j state + held.count j) = if j < s.pinnedCreated then 1 else 0
      unfold Scheduler.waiting at this
      omega
    waits := fun r' state' p hget' hp => by
      have hget' : (s.streamStates.pop r).get? r' = some state' := hget'
      rw [Dict.get?_pop] at hget'
      split at hget'
      · cases hget'
      · exact h.waits r' state' p hget' hp }

end Valid

/-! ### Calls -/

/-- Nothing changes when the device goes on or an event is seen to have fired. -/
structure Calm (P : Scheduler K F α → Prop) : Prop where
  advance : ∀ s n calls, P s → P { s with calls, device := Device.advance s.device n }
  see : ∀ s k, P s → P { s with seen := Function.update s.seen k true }

/-- Between programs, with slots in hand beside the retired ones. -/
def Good (win : Option (Window K α)) (hand : List Nat) (kept : List PendingWindow) (s : Scheduler K F α) : Prop :=
  Valid win (hand ++ s.pinnedRetired) kept s

theorem Good.calm (win : Option (Window K α)) (hand : List Nat) (kept : List PendingWindow) :
    Calm (Good (F := F) win hand kept) :=
  ⟨fun _ n calls h => h.advance n calls, fun _ k h => h.see k⟩

theorem Valid.calm (win : Option (Window K α)) (held : List Nat) (kept : List PendingWindow) :
    Calm (Valid (F := F) win held kept) :=
  ⟨fun _ n calls h => h.advance n calls, fun _ k h => h.see k⟩

namespace Calm
variable {P : Scheduler K F α → Prop}

omit [DecidableEq K] in
/-- A slot that is done with stays so. -/
theorem done (hP : Calm P) (k : Nat) : Calm fun s => P s ∧ s.seen k = true ∧ Device.Idle s.device k :=
  { advance := fun s n calls h => ⟨hP.advance s n calls h.1, h.2.1, h.2.2.advance n⟩
    see := fun s j h => by
      refine ⟨hP.see s j h.1, ?_, h.2.2⟩
      by_cases hk : k = j
      · simp [hk]
      · simpa [Function.update_of_ne hk] using h.2.1 }

theorem waits (hP : Calm P) (r : K) (pending : Option PendingWindow) :
    Calm fun s => P s ∧ (s.stream r).pending = pending :=
  ⟨fun s n calls h => ⟨hP.advance s n calls h.1, h.2⟩, fun s k h => ⟨hP.see s k h.1, h.2⟩⟩

omit [DecidableEq K] in
theorem ask (hP : Calm P) (env : Nat → Answer) : Meets P (ask env) (fun _ => P) fun _ => False :=
  fun s hs => hP.advance s _ _ hs

omit [DecidableEq K] in
theorem call (hP : Calm P) (env : Nat → Answer) : Meets P (call env) (fun _ => P) P := by
  refine Meets.bind ((hP.ask env).weaken (fun _ h => h) (fun _ _ h => h) fun _ h => h.elim) fun answer => ?_
  exact Meets.ite (fun _ => Meets.throw fun _ h => h) fun _ => Meets.pure fun _ h => h

omit [DecidableEq K] in
theorem eventQuery (hP : Calm P) (env : Nat → Answer) (k : Nat) :
    Meets P (eventQuery env k) (fun b s => P s ∧ (b = true → s.seen k = true ∧ Device.fired s.device k = true)) P := by
  refine Meets.bind (hP.call env) fun _ => Meets.read fun s hs => Meets.ite (fun hfired => ?_) fun _ => ?_
  · refine Meets.bind (Meets.set (Q := fun _ t => t = { s with seen := Function.update s.seen k true })
      fun _ _ => rfl) fun _ => Meets.pure fun t ht => ?_
    subst ht
    exact ⟨hP.see s k hs, fun _ => ⟨by simp, hfired⟩⟩
  · refine Meets.pure fun t ht => ?_
    subst ht
    exact ⟨hs, (fun h => nomatch h)⟩

omit [DecidableEq K] in
theorem eventSynchronize (hP : Calm P) (env : Nat → Answer) (k : Nat) :
    Meets P (eventSynchronize env k) (fun _ s => P s ∧ s.seen k = true ∧ Device.fired s.device k = true) P := by
  refine Meets.bind (hP.call env) fun _ => Meets.modify fun s hs => ⟨?_, by simp, Device.fired_synchronize s.device k⟩
  exact hP.see _ k (hP.advance s _ s.calls hs)

end Calm

/-! ### The pool -/

section Pool
variable {win : Option (Window K α)} {hand : List Nat} {kept : List PendingWindow} (C : Config F α)
  (env : Nat → Answer)

theorem Valid.retire {k : Nat} {s : Scheduler K F α} (h : Good win (k :: hand) kept s) :
    Good win hand kept { s with pinnedRetired := s.pinnedRetired ++ [k] } := by
  have h' : Valid win (hand ++ (s.pinnedRetired ++ [k])) kept s := h.reorder fun j => by
    simp only [List.count_append, List.count_cons, List.count_nil, List.cons_append]
    omega
  exact { h' with }

theorem reapLoop_meets (slots : List Nat) (done : List Nat) :
    Meets (Valid win (slots ++ done) kept) (reapLoop (K := K) (F := F) (α := α) env slots)
      (fun still => Valid win (still ++ done) kept) fun _ => False := by
  induction slots generalizing done with
  | nil => exact Meets.pure fun _ h => h
  | cons k rest ih =>
    have hcalm : Calm (Valid (F := F) win (k :: (rest ++ done)) kept) := Valid.calm ..
    have hquery : Meets (Valid win (k :: (rest ++ done)) kept)
        (catching (some <$> eventQuery env k) fun _ => pure none)
        (fun o s => Valid (F := F) win (k :: (rest ++ done)) kept s ∧
          (o = some true → s.seen k = true ∧ Device.fired s.device k = true)) fun _ => False := by
      refine Meets.catching (S := Valid win (k :: (rest ++ done)) kept) ?_ fun _ =>
        Meets.pure fun _ h => ⟨h, (fun h => nomatch h)⟩
      refine Meets.bind (hcalm.eventQuery env k) fun b => Meets.pure fun s h => ⟨h.1, fun hb => h.2 ?_⟩
      exact Option.some.inj hb
    refine Meets.bind hquery fun o => ?_
    match o with
    | none =>
      refine Meets.bind (Q := fun _ => Valid win (rest ++ done) kept) (Meets.modify fun s h => ?_) fun _ => ih done
      exact h.1.quarantine false
    | some true =>
      refine Meets.bind (Q := fun _ => Valid win (rest ++ done) kept) (Meets.modify fun s h => ?_) fun _ => ih done
      obtain ⟨hseen, hfired⟩ := h.2 rfl
      exact h.1.release hseen (Device.idle_of_fired (h.1.covered k h.1.of_held.2.1) hfired)
    | some false =>
      have hrest : Meets (Valid win (rest ++ (k :: done)) kept) (reapLoop (K := K) (F := F) (α := α) env rest)
        (fun still => Valid win (still ++ (k :: done)) kept) fun _ => False := ih (k :: done)
      refine Meets.bind (hrest.weaken (fun s h => h.1.reorder fun j => ?_) (fun _ _ h => h) fun _ h => h)
        fun still => Meets.pure fun s h => h.reorder fun j => ?_
      all_goals
        simp only [List.count_append, List.count_cons, List.cons_append]
        omega

theorem reapRetiredSlots_meets :
    Meets (Good win hand kept) (reapRetiredSlots (K := K) (F := F) (α := α) env) (fun _ => Good win hand kept)
      fun _ => False := by
  refine Meets.read fun s hs => ?_
  have hs' : Valid win (s.pinnedRetired ++ hand) kept s :=
    Valid.reorder hs fun j => by simp only [List.count_append]; omega
  refine Meets.bind ((reapLoop_meets env s.pinnedRetired hand).known hs') fun still => Meets.modify fun t ht => ?_
  have ht' : Valid win (hand ++ still) kept t :=
    ht.reorder fun j => by simp only [List.count_append]; omega
  exact { ht' with }

/-- What is taken is a slot that was seen to be done with, or a new one with room. -/
theorem takeSlot_meets (samples : Nat) :
    Meets (Good win hand kept) (takeSlot (K := K) C env samples) (fun o s => match o with
      | none => Good win hand kept s
      | some k => Good win (k :: hand) kept s ∧ Device.Idle s.device k ∧ (s.seen k = true ∨ samples ≤ s.numel k))
      (Good win hand kept) := by
  refine Meets.read fun s hs => ?_
  cases hlast : s.pinnedFree.getLast? with
  | some k =>
    refine Meets.bind (Meets.set (Q := fun _ t => t = { s with pinnedFree := s.pinnedFree.dropLast })
      fun _ _ => rfl) fun _ => Meets.pure fun t ht => ?_
    subst ht
    obtain ⟨hpop, hseen, hidle⟩ := Valid.pop hs hlast
    exact ⟨hpop, hidle, .inl hseen⟩
  | none =>
    refine Meets.ite (fun hroom => ?_) fun _ => Meets.pure fun t ht => ht ▸ hs
    have hcalm : Calm fun t : Scheduler K F α => Good win hand kept t ∧ t.pinnedCreated = s.pinnedCreated :=
      ⟨fun t n calls h => ⟨h.1.advance n calls, h.2⟩, fun t k h => ⟨h.1.see k, h.2⟩⟩
    have hcall := (hcalm.call env).weaken (fun _ h => h) (fun _ _ h => h) fun _ h => h.1
    refine Meets.bind ((hcall.weaken (fun t ht => ?_) (fun _ _ h => h) fun _ h => h)) fun _ =>
      Meets.bind hcall fun _ => Meets.bind (Q := fun _ t => Good win (s.pinnedCreated :: hand) kept t ∧
        Device.Idle t.device s.pinnedCreated ∧ samples ≤ t.numel s.pinnedCreated) (Meets.modify fun t ht => ?_)
        fun _ => Meets.pure fun t ht => ⟨ht.1, ht.2.1, .inr ht.2.2⟩
    · subst ht
      exact ⟨hs, rfl⟩
    · obtain ⟨hgood, hsame⟩ := ht
      rw [← hsame]
      refine ⟨Valid.make hgood (hsame ▸ hroom) _, hgood.fresh _ (Nat.le_refl _), ?_⟩
      simp only [Function.update_self]
      exact Nat.le_max_left ..

theorem acquireSlot_meets (samples : Nat) :
    Meets (Good win hand kept) (acquireSlot (K := K) C env samples) (fun o s => match o with
      | none => Good win hand kept s
      | some k => Good win (k :: hand) kept s ∧ Device.Idle s.device k) (Good win hand kept) := by
  refine Meets.bind ((reapRetiredSlots_meets env).weaken (fun _ h => h) (fun _ _ h => h) fun _ h => h.elim) fun _ =>
    Meets.bind (takeSlot_meets C env samples) fun o => ?_
  match o with
  | none => exact Meets.pure fun _ h => h
  | some k =>
    refine Meets.read fun s hs => Meets.ite (fun hsmall => ?_) fun _ => Meets.pure fun t ht => ht ▸ ⟨hs.1, hs.2.1⟩
    have hseen : s.seen k = true := hs.2.2.resolve_right (by omega)
    have hcalm := (Good.calm (F := F) win (k :: hand) kept).done k
    have hgrow : Meets (fun t => t = s) (growSlot (K := K) (F := F) (α := α) env k samples)
        (fun _ t => Good win (k :: hand) kept t ∧ t.seen k = true ∧ Device.Idle t.device k)
        fun t => Good win (k :: hand) kept t ∧ t.seen k = true ∧ Device.Idle t.device k := by
      refine Meets.bind ((hcalm.call env).known ⟨hs.1, hseen, hs.2.1⟩) fun _ => Meets.modify fun t ht => ?_
      exact ⟨{ ht.1 with }, ht.2⟩
    refine Meets.bind (Meets.catching hgrow fun e => ?_) fun _ => Meets.pure fun t ht => ⟨ht.1, ht.2.2⟩
    refine Meets.bind (Q := fun _ => Good win hand kept) (Meets.modify fun t ht => ?_) fun _ => Meets.throw fun _ h => h
    exact Valid.release ht.1 ht.2.1 ht.2.2

/-! ### Windows -/

theorem appendAudio_keeps {P : Scheduler K F α → Prop} (hP : Calm P) (r : K) (audio : List α)
    (hparts : ∀ s parts, P s → P (s.setStream r { s.stream r with audioParts := parts })) :
    Keeps P (appendAudio env r audio) := by
  refine Meets.ite (fun _ => Keeps.pure _) fun _ => Keeps.bind ?_ fun _ => Keeps.modify fun s hs => hparts s _ hs
  exact Meets.read fun s hs => Meets.ite (fun _ => (hP.call env).known hs) fun _ => Meets.pure fun t ht => ht ▸ hs

/-- After a flush no window of the request waits. -/
theorem flushPending_meets (r : K) :
    Meets (Good win hand kept) (flushPending (F := F) (α := α) env r)
      (fun _ s => Good win hand kept s ∧ (s.stream r).pending = none) (Good win hand kept) := by
  refine Meets.read fun s hs => ?_
  cases hp : (s.stream r).pending with
  | none => exact Meets.pure fun t ht => ht ▸ ⟨hs, hp⟩
  | some p =>
    have hcalm : Calm fun t : Scheduler K F α => Good win hand kept t ∧ (t.stream r).pending = some p :=
      (Good.calm win hand kept).waits r (some p)
    have hsync := (hcalm.eventSynchronize env p.slot).known ⟨hs, hp⟩
    refine Meets.bind (hsync.weaken (fun _ h => h) (fun _ t ht => ?_) fun _ h => h.1) fun _ =>
      Meets.bind (((hcalm.done p.slot).call env).weaken (fun _ h => h) (fun _ _ h => h) fun _ h => h.1.1) fun _ =>
        Meets.read fun t ht => ?_
    · have hheld : p.slot ∉ t.pinnedQuarantined := (Valid.take ht.1.1 ht.1.2).of_held.2.1
      exact ⟨ht.1, ht.2.1, Device.idle_of_fired (ht.1.1.covered _ hheld) ht.2.2⟩
    · refine Meets.bind (Meets.set (Q := fun _ u => Good win (p.slot :: hand) kept u ∧ u.seen p.slot = true ∧
          Device.Idle u.device p.slot ∧ (u.stream r).pending = none) fun _ _ => ⟨?_, ht.2.1, ht.2.2, ?_⟩) fun _ =>
        Meets.bind (Q := fun _ u => Good win hand kept u ∧ (u.stream r).pending = none)
          (Meets.modify fun u hu => ⟨?_, hu.2.2.2⟩) fun _ =>
          (appendAudio_keeps env ((Good.calm win hand kept).waits r none) r _ fun u parts hu => ⟨?_, ?_⟩).weaken
            (fun _ h => h) (fun _ _ h => h) fun _ h => h.1
      · exact Valid.take ht.1.1 ht.1.2
      · simp
      · exact Valid.release hu.1 hu.2.1 hu.2.2.1
      · exact Valid.setStream hu.1 r rfl
      · rw [Scheduler.stream_setStream]
        exact hu.2

theorem slotForWindow_meets (r : K) (samples : Nat) :
    Meets (Good win hand kept) (slotForWindow C env r samples) (fun o s => match o with
      | none => Good win hand kept s
      | some k => Good win (k :: hand) kept s ∧ Device.Idle s.device k) (Good win hand kept) := by
  refine Meets.bind (acquireSlot_meets C env samples) fun o => ?_
  match o with
  | some k => exact Meets.pure fun _ h => h
  | none =>
    refine Meets.read fun s hs => Meets.ite (fun _ => ?_) fun _ => Meets.pure fun t ht => ht ▸ hs
    exact Meets.bind (((flushPending_meets env r).known hs).weaken (fun _ h => h) (fun _ _ h => h.1) fun _ h => h)
      fun _ => acquireSlot_meets C env samples

theorem scanWhen_keeps (due : Bool) (r : K) : Keeps (Good win hand kept) (scanWhen C env due r) := by
  refine Meets.ite (fun _ => ?_) fun _ => Keeps.pure _
  refine Meets.read fun s hs => Meets.ite (fun _ => Meets.pure fun t ht => ht ▸ hs) fun _ => ?_
  refine Meets.bind (((Good.calm win hand kept).call env).known hs) fun _ => Keeps.modify fun t ht => ?_
  exact Valid.setStream ht r rfl

theorem decodeNow_keeps (r : K) (frames : Nat) (wav : List α) :
    Keeps (Good win hand kept) (decodeNow (F := F) env r frames wav) :=
  Keeps.bind ((Good.calm win hand kept).call env) fun _ =>
    Keeps.bind (Keeps.modify fun _ ht => Valid.setStream ht r rfl) fun _ =>
      appendAudio_keeps env (Good.calm win hand kept) r wav fun _ _ ht => Valid.setStream ht r rfl

end Pool

/-- Between two steps: what is held is the retired list and the slot of the window in hand. A window that is not
launched has a slot without copies. -/
def Owned (s : Scheduler K F α) : Prop :=
  match s.window with
  | none => Good none [] [] s
  | some w =>
    if w.eventRecorded then Good (some w) [w.slot] [⟨w.slot, w.wav.length⟩] s
    else Good (some w) [w.slot] [] s ∧ Device.Idle s.device w.slot

theorem Good.owned {s : Scheduler K F α} (h : Good none [] [] s) : Owned s := by
  unfold Owned
  rw [h.window]
  exact h

/-- What the steps keep, with the slots that are held. -/
theorem Owned.valid {s : Scheduler K F α} (h : Owned s) :
    ∃ held kept, Valid s.window held kept s ∧ held = s.hand ++ s.pinnedRetired ∧
      ∀ w, s.window = some w → w.eventRecorded = false → Device.Idle s.device w.slot := by
  unfold Owned at h
  cases hw : s.window with
  | none =>
    rw [hw] at h
    exact ⟨_, _, h, by simp [Scheduler.hand, hw], (fun _ h => nomatch h)⟩
  | some w =>
    rw [hw] at h
    dsimp only at h
    split at h
    · next hrecorded =>
      refine ⟨_, _, h, by simp [Scheduler.hand, hw], fun w' hw' hnot => ?_⟩
      cases hw'
      rw [hrecorded] at hnot
      cases hnot
    · refine ⟨_, _, h.1, by simp [Scheduler.hand, hw], fun w' hw' _ => ?_⟩
      cases hw'
      exact h.2

section Steps
variable (C : Config F α) (env : Nat → Answer) {s : Scheduler K F α}

theorem decodeDelta_meets (r : K) (isFinal : Bool) :
    Meets (Good none [] []) (decodeDelta C env r isFinal)
      (fun _ s => Owned s ∧ (isFinal = true → Good none [] [] s)) (Good none [] []) := by
  have hnow : ∀ (frames : Nat) (wav : List α), Meets (Good none [] []) (decodeNow (F := F) env r frames wav)
      (fun _ s => Owned s ∧ (isFinal = true → Good none [] [] s)) (Good none [] []) := fun frames wav =>
    (decodeNow_keeps env r frames wav).weaken (fun _ h => h) (fun _ _ h => ⟨h.owned, fun _ => h⟩) fun _ h => h
  refine Meets.bind (scanWhen_keeps C env _ r) fun _ => Meets.read fun s hs => Meets.ite (fun _ => ?_) fun _ => ?_
  · exact Meets.pure fun t ht => ht ▸ ⟨hs.owned, fun _ => hs⟩
  · refine Meets.bind (((Good.calm none [] []).call env).known hs) fun _ => Meets.read fun t ht =>
      Meets.ite (fun hlaunch => ?_) fun _ => (hnow _ _).known ht
    have hfinal : isFinal = false := by
      simp only [Bool.and_eq_true, Bool.not_eq_true'] at hlaunch
      exact hlaunch.1.1.2
    refine Meets.bind ((slotForWindow_meets C env r _).known ht) fun o => ?_
    match o with
    | none => exact hnow _ _
    | some k =>
      refine Meets.modify fun u hu => ⟨?_, fun h => by rw [hfinal] at h; cases h⟩
      exact ⟨Valid.setWindow hu.1 _, hu.2⟩

/-- While a window is copied its slot is in order only as one of the quarantine. -/
def Launching (w : Window K α) (s : Scheduler K F α) : Prop :=
  Valid (some w) s.pinnedRetired [] { s with
    pinnedQuarantined := s.pinnedQuarantined ++ [w.slot], pipelineActive := false } ∧ s.launched w.slot = w.wav

omit [DecidableEq K] in
theorem Launching.mem (w : Window K α) (s : Scheduler K F α) : w.slot ∈ s.pinnedQuarantined ++ [w.slot] :=
  List.mem_append_right _ (List.mem_singleton.mpr rfl)

theorem Launching.enqueue {w : Window K α} (h : Launching w s) {op : StreamOp α}
    (hop : op.target = w.slot) : Launching w { s with device := Device.enqueue s.device op } :=
  ⟨Valid.enqueue h.1 (hop ▸ Launching.mem w s), h.2⟩

omit [DecidableEq K] in
theorem enqueue_meets {P Q R : Scheduler K F α → Prop} (op : StreamOp α)
    (advance : ∀ s n calls, P s → P { s with calls, device := Device.advance s.device n })
    (queued : ∀ s, P s → Q { s with device := Device.enqueue s.device op })
    (raisedQueued : ∀ s, P s → R { s with device := Device.enqueue s.device op }) (raised : ∀ s, P s → R s) :
    Meets P (enqueue env op) (fun _ => Q) R := by
  refine Meets.bind (Q := fun _ => P) (fun s hs => advance s _ _ hs) fun answer =>
    Meets.ite (fun _ => ?_) fun _ => Meets.modify queued
  refine Meets.bind (Q := fun _ => R) (Meets.modify fun s hs => ?_) fun _ => Meets.throw fun _ h => h
  split
  · exact raisedQueued s hs
  · exact raised s hs

/-- After the copy and the record the slot is covered, and will have the audio. -/
theorem copyAndRecord_meets (w : Window K α) :
    Meets (Launching w) (do
      enqueue env (.copy w.slot w.wav)
      enqueue env (.record w.slot))
      (fun _ s => Good (F := F) (some w) [w.slot] [⟨w.slot, w.wav.length⟩] s) (Launching w) := by
  refine Meets.bind (Q := fun _ s => Launching w s ∧ (Device.settled s.device w.slot).take w.wav.length = w.wav)
    (enqueue_meets env _ ?_ (fun s hs => ?_) (fun s hs => hs.enqueue rfl) fun _ h => h) fun _ =>
      enqueue_meets env _ ?_ (fun s hs => ?_) (fun s hs => hs.1.enqueue rfl) fun _ h => h.1
  · exact fun s n calls hs => ⟨hs.1.advance n calls, hs.2⟩
  · exact ⟨hs.enqueue rfl, Device.settled_enqueue_copy ..⟩
  · exact fun s n calls hs => ⟨⟨hs.1.1.advance n calls, hs.1.2⟩, by simpa using hs.2⟩
  · refine Valid.hold (hs.1.enqueue rfl).1 (Device.covered_record _ _) fun p hp => ?_
    rw [List.mem_singleton.mp hp]
    show (Device.settled (Device.enqueue s.device (.record w.slot)) w.slot).take w.wav.length = s.launched w.slot
    rw [Device.settled_enqueue, hs.1.2]
    exact hs.2

theorem launch_meets (w : Window K α) :
    Meets (fun s : Scheduler K F α => Good (some w) [w.slot] [] s ∧ Device.Idle s.device w.slot) (launch env w)
      (fun _ => Owned) (Good none [] []) := by
  refine Meets.bind (Q := fun _ => Launching w) (Meets.modify fun s hs => ⟨?_, by simp⟩) fun _ => ?_
  · exact Valid.relaunch (hs.1.quarantine false) (Launching.mem w s) w.wav
  refine Meets.bind (Meets.catching (copyAndRecord_meets env w) fun e => ?_) fun _ =>
    Meets.bind (Q := fun _ => Good (some w) [w.slot] [⟨w.slot, w.wav.length⟩])
      (Meets.catching ((Good.calm _ _ _).call env) fun e => ?_) fun _ => Meets.modify fun s hs => ?_
  · refine Meets.bind (Q := fun _ => Good (some w) [] []) (Meets.modify fun s hs => hs.1) fun _ =>
      Meets.bind (Q := fun _ => Good none [] []) (Meets.modify fun s hs => ?_) fun _ => Meets.throw fun _ h => h
    exact Valid.setWindow hs none
  · refine Meets.bind (Q := fun _ => Good (some w) [] []) (Meets.modify fun s hs => ?_) fun _ =>
      Meets.bind (Q := fun _ => Good none [] []) (Meets.modify fun s hs => ?_) fun _ => Meets.throw fun _ h => h
    · exact (Valid.retire hs).forget
    · exact Valid.setWindow hs none
  · show Owned { s with window := some { w with eventRecorded := true } }
    exact Valid.setWindow hs _

theorem handOver_meets (w : Window K α) :
    Meets (Good (F := F) (some w) [w.slot] [⟨w.slot, w.wav.length⟩]) (handOver env w)
      (fun _ => Good none [] []) (Good none [] []) := by
  refine Meets.bind (Meets.catching (flushPending_meets env w.rid) fun e => ?_) fun _ => Meets.modify fun s hs => ?_
  · refine Meets.bind (Q := fun _ => Good (some w) [] []) (Meets.modify fun s hs => ?_) fun _ =>
      Meets.bind (Q := fun _ => Good none [] []) (Meets.modify fun s hs => ?_) fun _ => Meets.throw fun _ h => h
    · exact (Valid.retire hs).forget
    · exact Valid.setWindow hs none
  · have hgive : Valid (some w) s.pinnedRetired [] (s.setStream w.rid { s.stream w.rid with
        pending := some ⟨w.slot, w.wav.length⟩, emitted := w.frames }) :=
        Valid.give (p := ⟨w.slot, w.wav.length⟩) hs.1 hs.2 w.frames
    exact Valid.setWindow hgive none

/-! ### Messages -/

theorem ingestStreamItem_keeps (r : K) (codes : F) (stream : Bool) :
    Keeps (Good none [] []) (ingestStreamItem C env r codes stream) := by
  have hcall : Keeps (Good none [] []) (call (K := K) (F := F) (α := α) env) := (Good.calm none [] []).call env
  refine Keeps.bind (Keeps.modify fun s hs => Valid.setStream hs r rfl) fun _ => Keeps.bind hcall fun _ =>
    Keeps.bind (Keeps.modify fun s hs => Valid.setStream hs r rfl) fun _ => Keeps.bind hcall fun _ =>
      Meets.ite (fun _ => Keeps.modify fun s hs => Valid.setStream hs r rfl) fun _ => Keeps.bind hcall fun _ =>
        Keeps.modify fun s hs => ?_
  split
  · exact hs
  · exact Valid.setStream hs r rfl

theorem flushDrained_keeps (r : K) : Keeps (Good none [] []) (flushDrained (F := F) (α := α) env r) := by
  refine Meets.read fun s hs => ?_
  have hflush : Keeps (Good none [] []) (flushPending (F := F) (α := α) env r) :=
    (flushPending_meets env r).weaken (fun _ h => h) (fun _ _ h => h.1) fun _ h => h
  cases (s.stream r).pending with
  | none => exact Meets.pure fun t ht => ht ▸ hs
  | some p =>
    refine Meets.bind (((Good.calm none [] []).eventQuery env p.slot).known hs) fun b => ?_
    refine Meets.ite (fun _ => hflush.weaken (fun _ h => h.1) (fun _ _ h => h) fun _ h => h) fun _ => ?_
    exact Meets.pure fun _ h => h.1

theorem onStreamChunk_meets (r : K) (codes : F) (stream : Bool) :
    Meets (Good none [] []) (onStreamChunk C env r codes stream) (fun _ => Owned) (Good none [] []) := by
  refine Meets.bind (ingestStreamItem_keeps C env r codes stream) fun _ =>
    Meets.bind (flushDrained_keeps env r) fun _ =>
    Meets.bind (Q := fun _ => Good none [] []) ?_ fun _ => Meets.ite (fun _ => ?_) fun _ => ?_
  · refine Meets.read fun s hs => Meets.bind ((scanWhen_keeps C env _ r).known hs) fun _ => ?_
    exact Meets.read fun t ht => Meets.pure fun u hu => hu ▸ ht
  · exact (decodeDelta_meets C env r false).weaken (fun _ h => h) (fun _ _ h => h.1) fun _ h => h
  · exact Meets.pure fun _ h => h.owned

theorem clearStreamState_keeps (r : K) : Keeps (Good none [] []) (clearStreamState (F := F) (α := α) r) := by
  refine Meets.read fun s hs => ?_
  cases hget : s.streamStates.get? r with
  | none => exact Meets.pure fun t ht => ht ▸ hs
  | some state =>
    refine Meets.bind (Meets.set (Q := fun _ t => t = { s with streamStates := s.streamStates.pop r })
      fun _ _ => rfl) fun _ => ?_
    have hforget := Valid.forgetStream hs hget
    cases hp : state.pending with
    | none =>
      rw [hp] at hforget
      exact Meets.pure fun t ht => ht ▸ hforget
    | some p =>
      rw [hp] at hforget
      have hgood : Good none [p.slot] [] { s with streamStates := s.streamStates.pop r } := hforget
      exact Meets.modify fun t ht => ht ▸ Valid.retire hgood

theorem handleStreamDone_keeps (r : K) (aborted : Bool) :
    Keeps (Good none [] []) (handleStreamDone C env r aborted) := by
  refine Keeps.bind ?_ fun _ => Meets.ite (fun _ => Keeps.pure _) fun _ => clearStreamState_keeps r
  refine Meets.bind ((flushPending_meets env r).weaken (fun _ h => h) (fun _ _ h => h.1) fun _ h => h) fun _ =>
    Keeps.bind ((Good.calm none [] []).call env) fun _ =>
      Keeps.bind (Keeps.modify fun s hs => Valid.setStream hs r rfl) fun _ =>
        Meets.bind ((decodeDelta_meets C env r true).weaken (fun _ h => h) (fun _ _ h => h.2 rfl) fun _ h => h) fun _ =>
          Meets.read fun s hs => Meets.ite (fun _ => Meets.throw fun t ht => ht ▸ hs) fun _ =>
            Meets.pure fun t ht => ht ▸ hs

theorem clearAll_keeps (rs : List K) : Keeps (Good none [] []) (clearAll (F := F) (α := α) rs) := by
  induction rs with
  | nil => exact Keeps.pure _
  | cons r rest ih => exact Keeps.bind (clearStreamState_keeps r) fun _ => ih

theorem drainLoop_meets (slots : List Nat) :
    Meets (fun s => Valid none slots [] s ∧ s.pinnedRetired = []) (drainLoop (K := K) (F := F) (α := α) env slots)
      (fun _ => Good none [] []) (Good none [] []) := by
  induction slots with
  | nil =>
    refine Meets.pure fun s hs => ?_
    show Valid none ([] ++ s.pinnedRetired) [] s
    rw [hs.2]
    exact hs.1
  | cons k rest ih =>
    have hcalm : Calm fun s : Scheduler K F α => Valid none (k :: rest) [] s ∧ s.pinnedRetired = [] :=
      ⟨fun s n calls h => ⟨h.1.advance n calls, h.2⟩, fun s j h => ⟨h.1.see j, h.2⟩⟩
    refine Meets.bind (Q := fun o s => (Valid none (k :: rest) [] s ∧ s.pinnedRetired = []) ∧
      (o = some () → s.seen k = true ∧ Device.fired s.device k = true)) (Meets.catching (Meets.bind
        (hcalm.eventSynchronize env k) fun _ => Meets.pure fun s hs => ⟨hs.1, fun _ => hs.2⟩) fun _ =>
          Meets.pure fun s hs => ⟨hs, (fun h => nomatch h)⟩) fun o => ?_
    match o with
    | none =>
      refine Meets.bind (Q := fun _ s => Valid none rest [] s ∧ s.pinnedRetired = []) (Meets.modify fun s hs => ?_)
        fun _ => ih
      exact ⟨hs.1.1.quarantine s.pipelineActive, hs.1.2⟩
    | some () =>
      refine Meets.bind (Q := fun _ s => Valid none rest [] s ∧ s.pinnedRetired = []) (Meets.modify fun s hs => ?_)
        fun _ => ih
      obtain ⟨hseen, hfired⟩ := hs.2 rfl
      exact ⟨hs.1.1.release hseen (Device.idle_of_fired (hs.1.1.covered k hs.1.1.of_held.2.1) hfired), hs.1.2⟩

theorem shutdownStreamStates_keeps : Keeps (Good none [] []) (shutdownStreamStates (K := K) (F := F) (α := α) env) := by
  refine Meets.read fun s hs => Meets.bind ((clearAll_keeps s.streamStates.keys).known hs) fun _ =>
    Meets.read fun t ht => Meets.bind (Meets.set (Q := fun _ u => u = { t with pinnedRetired := [] }) fun _ _ => rfl)
      fun _ => (drainLoop_meets env t.pinnedRetired).known ⟨?_, rfl⟩
  exact { ht with }

/-! ### Runs -/

theorem Good.calmDevice {win : Option (Window K α)} {hand : List Nat} {kept : List PendingWindow}
    (h : Good win hand kept s) : Good win hand kept { s with device := Device.tick s.device } :=
  h.advance 1 s.calls

/-- A step from a state without a window in hand. -/
theorem Owned.idle (h : Owned s) {x : Act K F α Unit}
    (hx : Meets (Good none [] []) x (fun _ => Owned) (Good none [] [])) :
    Owned (if s.window.isSome then s else stateOf (x s)) := by
  by_cases hw : s.window.isSome
  · rw [if_pos hw]
    exact h
  · rw [if_neg hw]
    have hnone : s.window = none := by simpa using hw
    have hgood : Good none [] [] s := by
      unfold Owned at h
      rw [hnone] at h
      exact h
    exact (hx.weaken (fun _ h => h) (fun _ _ h => h) fun _ h => h.owned).stateOf hgood

theorem Keeps.owned {x : Act K F α Unit} (hx : Keeps (Good none [] []) x) :
    Meets (Good none [] []) x (fun _ => Owned) (Good none [] []) :=
  hx.weaken (fun _ h => h) (fun _ _ h => h.owned) fun _ h => h

theorem owned_step (h : Owned s) (e : Step K F) : Owned (step C env s e) := by
  cases e with
  | device =>
    unfold Owned at h ⊢
    show match s.window with | none => _ | some w => _
    cases hw : s.window with
    | none =>
      rw [hw] at h
      exact h.calmDevice
    | some w =>
      rw [hw] at h
      dsimp only at h ⊢
      split at h
      · next hrecorded =>
        rw [if_pos hrecorded]
        exact h.calmDevice
      · next hrecorded =>
        rw [if_neg hrecorded]
        exact ⟨h.1.calmDevice, Device.idle_tick h.2⟩
  | launch =>
    unfold step
    cases hw : s.window with
    | none => exact h
    | some w =>
      dsimp only
      cases hrecorded : w.eventRecorded with
      | true => exact h
      | false =>
        have hpre : Good (some w) [w.slot] [] s ∧ Device.Idle s.device w.slot := by
          simpa [Owned, hw, hrecorded] using h
        exact ((launch_meets env w).weaken (fun _ h => h) (fun _ _ h => h) fun _ h => h.owned).stateOf hpre
  | handOver =>
    unfold step
    cases hw : s.window with
    | none => exact h
    | some w =>
      dsimp only
      cases hrecorded : w.eventRecorded with
      | false => exact h
      | true =>
        have hpre : Good (some w) [w.slot] [⟨w.slot, w.wav.length⟩] s := by simpa [Owned, hw, hrecorded] using h
        exact ((handOver_meets env w).stateOf hpre).owned
  | streamChunk r codes stream => exact h.idle (onStreamChunk_meets C env r codes stream)
  | streamDone r aborted => exact h.idle (Keeps.owned (handleStreamDone_keeps C env r aborted))
  | abort r => exact h.idle (Keeps.owned (clearStreamState_keeps r))
  | nextMessage =>
    refine h.idle (Keeps.owned ?_)
    exact (reapRetiredSlots_meets env).weaken (fun _ h => h) (fun _ _ h => h) fun _ h => h.elim
  | shutdown => exact h.idle (Keeps.owned (shutdownStreamStates_keeps env))

theorem Owned.create : Owned (Scheduler.create C : Scheduler K F α) := by
  refine Good.owned { window := rfl, once := fun k => ?_, bound := Nat.zero_le _, free := ?_, fresh := ?_,
                      covered := ?_, waits := ?_, kept := ?_ }
  · simp [Scheduler.create, Scheduler.waiting, Dict.total]
    rfl
  · simp [Scheduler.create]
  · exact fun k _ => Device.idle_empty k
  · exact fun k _ => Device.covered_empty k
  · simp [Scheduler.create]
  · simp

/-- **Main theorem**: whatever the calls into torch and CUDA do and in whatever order windows, messages, aborts,
reaping, shutdown and the device go on, every slot that was made is in exactly one place, and at most once: the free
list, the retired list, the quarantine, the waiting window of one request, or the window in hand. No more slots are made
than the maximum. A free slot was seen to be done with since its last use, and no copy into it is in flight; nor is one
into the slot of a window before its own copy. The waiting window of a request finds its own audio when its event has
fired. -/
theorem pinnedSlots_one_owner (steps : List (Step K F)) :
    let s := run (step C env) (Scheduler.create C : Scheduler K F α) steps
    (∀ k, s.pinnedFree.count k + s.pinnedRetired.count k + s.pinnedQuarantined.count k + s.waiting k + s.hand.count k =
      if k < s.pinnedCreated then 1 else 0) ∧
    s.pinnedCreated ≤ maxPinnedSlots ∧
    (∀ k ∈ s.pinnedFree, s.seen k = true ∧ Device.Idle s.device k) ∧
    (∀ w, s.window = some w → w.eventRecorded = false → Device.Idle s.device w.slot) ∧
    ∀ r p, (s.stream r).pending = some p → Device.fired s.device p.slot = true →
      (Device.host s.device p.slot).take p.samples = s.launched p.slot := by
  intro s
  have howned : Owned s := run_invariant (Owned.create C) (fun _ e h => owned_step C env h e) steps
  obtain ⟨held, kept, hvalid, hheld, hidle⟩ := howned.valid
  refine ⟨fun k => ?_, hvalid.bound, hvalid.free, hidle, fun r p hp hfired => ?_⟩
  · have honce := hvalid.once k
    rw [hheld, List.count_append] at honce
    omega
  · have hholds : s.Holds p := hvalid.of_stream hp
    have hcovered := hvalid.covered p.slot (hvalid.take hp).of_held.2.1
    rw [Device.host_eq_settled (Device.idle_of_fired hcovered hfired)]
    exact hholds

end Steps

/-- The second window of a request goes through a slot, and its event fires when the device has gone on twice. -/
theorem pinnedSlots_one_owner_copied :
    let C : Config Nat Nat := ⟨1, 0, 1, true, true, (· == 9), id⟩
    let s := run (step C fun _ => ⟨false, 0, false⟩) (Scheduler.create C)
      [.streamChunk 7 1 true, .streamChunk 7 2 true, .launch, .handOver, .device, .device]
    (Device.host s.device 0).take 1 = s.launched 0 ∧ s.launched 0 = [2] :=
  ⟨(pinnedSlots_one_owner _ _ _).2.2.2.2 7 ⟨0, 1⟩ (by decide +kernel) (by decide +kernel), by decide +kernel⟩

end SglangOmni.Models.Qwen3Omni.Code2Wav
