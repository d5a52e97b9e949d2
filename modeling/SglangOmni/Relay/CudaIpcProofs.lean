import SglangOmni.Relay.CudaIpc
import SglangOmni.Relay.SlotAllocatorProofs

/-! Who owns the slots of the CUDA IPC relay.

A call holds the run of slots that its acquire task has returned until the call takes it,
and the operation it returns holds it until the release. Every run that the allocator has
out is held by one call, with one exception: a cancellation that reaches a call whose
acquire task is done leaves the run to nobody. -/
namespace SglangOmni.Relay.CudaIpc
open Lib
open SlotAllocator (Geometry Allocation Whole)

variable {g : Geometry} {s s' : State g} {c : Nat} {call call' : Call} {a : Allocation} {failed : Bool} {offset : Nat}
  {acquire : Acquire}

/-! ### The allocator's runs -/

/-- Giving back one of the runs leaves the others. -/
theorem mem_giveBack_whole {al : SlotAllocator.State g} (hs : SlotAllocator.Sound al) (hw : Whole al)
    {b : Allocation} (hb : b ∈ al.live) :
    a ∈ SlotAllocator.giveBack b.slots al.live ↔ a ∈ al.live ∧ a ≠ b := by
  have hslots : ∀ a ∈ al.live, a.held = a.slots := fun a ha => SlotAllocator.held_of_released (hw a ha)
  have hgone : (b.giveBack b.slots).held = ∅ := by
    apply Finset.eq_empty_of_forall_notMem
    intro i hi
    obtain ⟨hin, hout⟩ := SlotAllocator.mem_held_giveBack.mp hi
    rw [hslots b hb] at hin
    exact hout hin
  have hkept : ∀ a ∈ al.live, a ≠ b → a.giveBack b.slots = a := by
    intro a ha hne
    have : Std.Symm (fun a b : Allocation => Disjoint a.held b.held) := ⟨fun _ _ h => h.symm⟩
    have hdisj := hs.accounted.disjoint.forall hb ha (Ne.symm hne)
    rw [hslots b hb, hslots a ha] at hdisj
    exact SlotAllocator.giveBack_disjoint hdisj
  simp only [SlotAllocator.giveBack, List.mem_filter, List.mem_map, decide_eq_true_eq]
  constructor
  · rintro ⟨⟨x, hx, heq⟩, hheld⟩
    by_cases hxb : x = b
    · rw [← heq, hxb, hgone] at hheld
      exact absurd rfl hheld
    · rw [hkept x hx hxb] at heq
      exact ⟨heq ▸ hx, fun hab => hxb (heq.trans hab)⟩
  · rintro ⟨ha, hne⟩
    refine ⟨⟨a, ha, hkept a ha hne⟩, ?_⟩
    rw [hslots a ha]
    have hpos := (hs.accounted.inRange a ha).1
    apply Finset.Nonempty.ne_empty
    exact ⟨a.start, by simp only [Allocation.slots, Finset.mem_Ico]; omega⟩

/-- A pass parks the task, or takes a run that was nobody's. -/
theorem attempt_cases {al : SlotAllocator.State g} (hs : SlotAllocator.Sound al) {k : SlotAllocator.Call}
    (hk : 0 < k.numSlots) (hparked : c ∉ al.pool.changed.parked) :
    (pass al k = .waiting ∧ (SlotAllocator.attempt al c k).live = al.live ∧
        ∃ d : SlotAllocator.Call, d.numSlots = k.numSlots ∧
          (SlotAllocator.attempt al c k).calls = al.calls.set c d) ∨
      ∃ i, pass al k = .done (i * g.slotSize) ∧
        (SlotAllocator.attempt al c k).live = ⟨i, k.numSlots, ∅⟩ :: al.live ∧
        (SlotAllocator.attempt al c k).calls = al.calls.pop c ∧ ⟨i, k.numSlots, ∅⟩ ∉ al.live := by
  have hsound := SlotAllocator.sound_attempt hs hk hparked
  cases hfound : SlotAllocator.findContiguous al.pool.free k.numSlots with
  | none =>
    left
    obtain ⟨d, hd, heq⟩ := SlotAllocator.attempt_none c hfound
    refine ⟨?_, by rw [heq], d, hd, by rw [heq]⟩
    simp only [pass, SlotAllocator.acquirePass, hfound]
  | some i =>
    right
    have heq : SlotAllocator.attempt al c k = _ := SlotAllocator.attempt_some hfound
    refine ⟨i, ?_, by rw [heq], by rw [heq], ?_⟩
    · simp only [pass, SlotAllocator.acquirePass, hfound]
    · intro hmem
      rw [heq] at hsound
      have hdisj := (List.pairwise_cons.mp hsound.accounted.disjoint).1 _ hmem
      have hheld := Finset.disjoint_self_iff_empty _ |>.mp hdisj
      rw [SlotAllocator.held_of_released rfl] at hheld
      have hin : i ∈ Allocation.slots ⟨i, k.numSlots, ∅⟩ := by
        simp only [Allocation.slots, Finset.mem_Ico]
        omega
      rw [hheld] at hin
      exact absurd hin (Finset.notMem_empty i)

/-! ### Operations -/

/-- An operation releases once, after an acknowledgement, and not after a failure. -/
structure PutOperation.Kept (op : PutOperation) : Prop where
  once : op.releases ≤ 1
  released : 0 < op.releases → op.completed = true ∧ op.receiver = .done ∧ op.refused = false
  waits : op.waiting = true → op.completed = false
  refused : op.refused = true → op.completed = true ∨ op.receiver = .failed

/-- The operation has the same slots. -/
def PutOperation.SameSlots (op op' : PutOperation) : Prop := op'.offset = op.offset ∧ op'.releases = op.releases

theorem PutOperation.waitStarts_slots (op : PutOperation) : op.SameSlots op.waitStarts := by
  unfold waitStarts
  split <;> exact ⟨rfl, rfl⟩

theorem PutOperation.markReceiverDone_slots (op : PutOperation) : op.SameSlots op.markReceiverDone := by
  unfold markReceiverDone
  split <;> exact ⟨rfl, rfl⟩

theorem PutOperation.markReceiverFailed_slots (op : PutOperation) : op.SameSlots op.markReceiverFailed := by
  unfold markReceiverFailed
  split <;> exact ⟨rfl, rfl⟩

theorem PutOperation.waitCancelled_slots (op : PutOperation) : op.SameSlots op.waitCancelled := by
  unfold waitCancelled
  split <;> exact ⟨rfl, rfl⟩

namespace PutOperation.Kept

variable {op : PutOperation}

theorem create (offset : Nat) : PutOperation.Kept { offset } where
  once := Nat.zero_le 1
  released h := absurd h (Nat.lt_irrefl 0)
  waits h := nomatch h
  refused h := nomatch h

theorem waitStarts (h : op.Kept) : op.waitStarts.Kept := by
  unfold PutOperation.waitStarts
  split
  · exact h
  · next hopen =>
    exact ⟨h.once, h.released, fun _ => Bool.eq_false_iff.mpr hopen, h.refused⟩

theorem markReceiverDone (h : op.Kept) : op.markReceiverDone.Kept := by
  unfold PutOperation.markReceiverDone
  split
  · next hpending =>
    refine ⟨h.once, fun hr => ?_, h.waits, fun hr => ?_⟩
    · obtain ⟨_, hdone, _⟩ := h.released hr
      rw [hpending] at hdone
      cases hdone
    · rcases h.refused hr with hc | hf
      · exact .inl hc
      · rw [hpending] at hf
        cases hf
  · exact h

theorem markReceiverFailed (h : op.Kept) : op.markReceiverFailed.Kept := by
  unfold PutOperation.markReceiverFailed
  split
  · next hpending =>
    refine ⟨h.once, fun hr => ?_, h.waits, fun _ => .inr rfl⟩
    obtain ⟨_, hdone, _⟩ := h.released hr
    rw [hpending] at hdone
    cases hdone
  · exact h

/-- Whoever waits has released nothing. -/
theorem none_released (h : op.Kept) (hw : op.waiting = true) : op.releases = 0 := by
  by_contra hne
  obtain ⟨hc, _, _⟩ := h.released (Nat.pos_of_ne_zero hne)
  rw [h.waits hw] at hc
  cases hc

theorem interrupt_failed {receiver : Receiver} (hf : receiver = .failed) : receiver.interrupt = .failed := by
  rw [hf]
  rfl

theorem waitCancelled (h : op.Kept) : op.waitCancelled.Kept := by
  unfold PutOperation.waitCancelled
  split
  · next hw =>
    have hnone := h.none_released hw
    refine ⟨h.once, fun hr => ?_, fun hw' => (nomatch hw'), fun hr => ?_⟩
    · simp only [hnone, Nat.lt_irrefl] at hr
    · rcases h.refused hr with hc | hf
      · exact .inl hc
      · exact .inr (interrupt_failed hf)
  · exact h

theorem timesOut (h : op.Kept) (hw : op.waiting = true) :
    PutOperation.Kept
      { op with waiting := false, completed := true, refused := true, receiver := op.receiver.interrupt } := by
  have hnone := h.none_released hw
  refine ⟨h.once, fun hr => ?_, fun hw' => (nomatch hw'), fun _ => .inl rfl⟩
  simp only [hnone, Nat.lt_irrefl] at hr

/-- The release. -/
theorem releases (h : op.Kept) (hw : op.waiting = true) (hd : op.receiver = .done) :
    PutOperation.Kept { op with waiting := false, completed := true, releases := op.releases + 1 } := by
  have hnone := h.none_released hw
  refine ⟨by simp only [hnone]; omega, fun _ => ⟨rfl, hd, ?_⟩, fun hw' => (nomatch hw'), fun _ => .inl rfl⟩
  by_contra hrefused
  rcases h.refused (Bool.of_not_eq_false hrefused) with hc | hf
  · rw [h.waits hw] at hc
    cases hc
  · rw [hd] at hf
    cases hf

/-- A wait that ends without a release. -/
theorem ends (h : op.Kept) (hw : op.waiting = true) (completed : Bool) (hc : op.completed = true → completed = true) :
    PutOperation.Kept { op with waiting := false, completed } := by
  have hnone := h.none_released hw
  refine ⟨h.once, fun hr => ?_, fun hw' => (nomatch hw'), fun hr => (h.refused hr).imp_left hc⟩
  simp only [hnone, Nat.lt_irrefl] at hr

end PutOperation.Kept

/-! ### Holders -/

/-- The offset of the slots a call holds: its task's result, or its operation's slots. -/
def Call.held (call : Call) : Option Nat :=
  match call.phase with
  | .racing (.done offset) _ => some offset
  | .returned op => if op.releases = 0 then some op.offset else none
  | .racing .created _ | .racing .waiting _ | .raised => none

/-- The call holds the run. -/
def Call.Holds (g : Geometry) (call : Call) (a : Allocation) : Prop :=
  ∃ offset, call.held = some offset ∧ a = ⟨offset / g.slotSize, call.numSlots, ∅⟩

def Holds (s : State g) (c : Nat) (a : Allocation) : Prop := ∃ call, s.calls c = some call ∧ call.Holds g a

theorem Holds.of_call (h : Holds s c a) (hc : s.calls c = some call) : call.Holds g a := by
  obtain ⟨x, hx, hholds⟩ := h
  rw [hc] at hx
  cases hx
  exact hholds

structure Sound (s : State g) : Prop where
  alloc : SlotAllocator.Sound s.alloc
  whole : Whole s.alloc
  live : ∀ c a, Holds s c a → a ∈ s.alloc.live
  unique : ∀ c c' a, Holds s c a → Holds s c' a → c = c'
  aligned : ∀ c call offset, s.calls c = some call → call.held = some offset → offset % g.slotSize = 0
  tasks : ∀ c k, s.alloc.calls.get? c = some k → ∃ call failed, s.calls c = some call ∧
    call.phase = .racing .waiting failed ∧ k.numSlots = call.numSlots
  asks : ∀ c call, s.calls c = some call → 0 < call.numSlots
  fresh : ∀ c, s.nextCall ≤ c → s.calls c = none
  kept : ∀ c call op, s.calls c = some call → call.phase = .returned op → op.Kept

/-- Every run that is out is held by a call. -/
def Covered (s : State g) : Prop := ∀ a ∈ s.alloc.live, ∃ c, Holds s c a

theorem sound_create (g : Geometry) : Sound (State.create g) where
  alloc := SlotAllocator.sound_create g
  whole _ h := nomatch h
  live _ _ h := nomatch h.choose_spec.1
  unique _ _ _ h := nomatch h.choose_spec.1
  aligned _ _ _ h := nomatch h
  tasks _ _ h := nomatch h
  asks _ _ h := nomatch h
  fresh _ _ := rfl
  kept _ _ _ h := nomatch h

/-! ### A turn of one call -/

/-- What a step does that is about the call `c`. -/
structure Turn (s s' : State g) (c : Nat) (call call' : Call) : Prop where
  here : s.calls c = some call
  calls : s'.calls = Function.update s.calls c (some call')
  nextCall : s'.nextCall = s.nextCall
  numSlots : call'.numSlots = call.numSlots
  alloc : SlotAllocator.Sound s'.alloc
  whole : Whole s'.alloc
  keeps : ∀ a ∈ s.alloc.live, ¬call.Holds g a → a ∈ s'.alloc.live
  owns : ∀ a, call'.Holds g a → a ∈ s'.alloc.live ∧ (call.Holds g a ∨ a ∉ s.alloc.live)
  aligned : ∀ offset, call'.held = some offset → offset % g.slotSize = 0
  tasks : ∀ x k, s'.alloc.calls.get? x = some k →
    (x = c → (∃ failed, call'.phase = .racing .waiting failed) ∧ k.numSlots = call'.numSlots) ∧
      (x ≠ c → s.alloc.calls.get? x = some k)
  kept : ∀ op, call'.phase = .returned op → op.Kept

/-- What is out after the turn was out before, and not the call's, or is the call's now. -/
def Tidy (s s' : State g) (call call' : Call) : Prop :=
  ∀ a ∈ s'.alloc.live, call'.Holds g a ∨ (a ∈ s.alloc.live ∧ ¬call.Holds g a)

theorem Turn.holds_self (t : Turn s s' c call call') : Holds s' c a ↔ call'.Holds g a := by
  have hself : s'.calls c = some call' := by rw [t.calls, Function.update_self]
  exact ⟨fun h => h.of_call hself, fun h => ⟨call', hself, h⟩⟩

theorem Turn.holds_other {x : Nat} (t : Turn s s' c call call') (hx : x ≠ c) :
    Holds s' x a ↔ Holds s x a := by
  unfold Holds
  rw [t.calls, Function.update_of_ne hx]

/-- The calls after a turn. -/
theorem Turn.cases {x : Nat} {y : Call} (t : Turn s s' c call call') (hx : s'.calls x = some y) :
    (x = c ∧ y = call') ∨ (x ≠ c ∧ s.calls x = some y) := by
  rw [t.calls, Function.update_apply] at hx
  split at hx
  · next heq => exact .inl ⟨heq, (Option.some.inj hx).symm⟩
  · next hne => exact .inr ⟨hne, hx⟩

theorem Sound.turn (h : Sound s) (t : Turn s s' c call call') : Sound s' where
  alloc := t.alloc
  whole := t.whole
  live x a hx := by
    by_cases hxc : x = c
    · rw [hxc, t.holds_self] at hx
      exact (t.owns a hx).1
    · rw [t.holds_other hxc] at hx
      apply t.keeps a (h.live x a hx)
      intro hcall
      exact hxc (h.unique x c a hx ⟨call, t.here, hcall⟩)
  unique := by
    have self : ∀ x a, x ≠ c → Holds s x a → ¬call'.Holds g a := by
      intro x a hx hold hnew
      rcases (t.owns a hnew).2 with hcall | hfree
      · exact hx (h.unique x c a hold ⟨call, t.here, hcall⟩)
      · exact hfree (h.live x a hold)
    intro x y a hx hy
    by_cases hxc : x = c
    · by_cases hyc : y = c
      · rw [hxc, hyc]
      · rw [hxc, t.holds_self] at hx
        rw [t.holds_other hyc] at hy
        exact absurd hx (self y a hyc hy)
    · rw [t.holds_other hxc] at hx
      by_cases hyc : y = c
      · rw [hyc, t.holds_self] at hy
        exact absurd hy (self x a hxc hx)
      · rw [t.holds_other hyc] at hy
        exact h.unique x y a hx hy
  aligned x y offset hx hheld := by
    rcases t.cases hx with ⟨_, rfl⟩ | ⟨_, hx⟩
    · exact t.aligned offset hheld
    · exact h.aligned x y offset hx hheld
  tasks x k hk := by
    obtain ⟨hself, hother⟩ := t.tasks x k hk
    rw [t.calls]
    by_cases hxc : x = c
    · obtain ⟨⟨failed, hphase⟩, hslots⟩ := hself hxc
      exact ⟨call', failed, by rw [hxc, Function.update_self], hphase, hslots⟩
    · obtain ⟨y, failed, hy, hphase, hslots⟩ := h.tasks x k (hother hxc)
      exact ⟨y, failed, by rw [Function.update_of_ne hxc]; exact hy, hphase, hslots⟩
  asks x y hx := by
    rcases t.cases hx with ⟨_, rfl⟩ | ⟨_, hx⟩
    · rw [t.numSlots]
      exact h.asks c call t.here
    · exact h.asks x y hx
  fresh x hx := by
    rw [t.nextCall] at hx
    have hne : x ≠ c := by
      intro heq
      have hnone := h.fresh x hx
      rw [heq, t.here] at hnone
      cases hnone
    rw [t.calls, Function.update_of_ne hne]
    exact h.fresh x hx
  kept x y op hx hphase := by
    rcases t.cases hx with ⟨_, rfl⟩ | ⟨_, hx⟩
    · exact t.kept op hphase
    · exact h.kept x y op hx hphase

theorem Covered.turn (h : Covered s) (t : Turn s s' c call call') (htidy : Tidy s s' call call') :
    Covered s' := by
  intro a ha
  rcases htidy a ha with hnew | ⟨hold, hnot⟩
  · exact ⟨c, t.holds_self.mpr hnew⟩
  · obtain ⟨x, hx⟩ := h a hold
    have hne : x ≠ c := by
      intro heq
      rw [heq] at hx
      exact hnot (hx.of_call t.here)
    exact ⟨x, (t.holds_other hne).mpr hx⟩

/-! ### The turns -/

/-- Nothing moves: the call holds what it held. -/
theorem Sound.quiet (h : Sound s) (hc : s.calls c = some call) {phase : Phase}
    (hheld : ({ call with phase } : Call).held = call.held)
    (hwaits : ∀ f, call.phase = .racing .waiting f → ∃ f', phase = .racing .waiting f')
    (hkept : ∀ op, phase = .returned op → op.Kept) :
    Turn s ({ s with failed := failed }.setPhase c call phase) c call { call with phase } ∧
      Tidy s ({ s with failed := failed }.setPhase c call phase) call { call with phase } := by
  have hsame : ∀ a, ({ call with phase } : Call).Holds g a ↔ call.Holds g a := by
    intro a
    simp only [Call.Holds, hheld]
  constructor
  · refine ⟨hc, rfl, rfl, rfl, h.alloc, h.whole, fun a ha _ => ha, ?_, ?_, ?_, hkept⟩
    · intro a ha
      exact ⟨h.live c a ⟨call, hc, (hsame a).mp ha⟩, .inl ((hsame a).mp ha)⟩
    · intro offset ho
      exact h.aligned c call offset hc (hheld ▸ ho)
    · intro x k hk
      refine ⟨fun hx => ?_, fun _ => hk⟩
      obtain ⟨y, f, hy, hphase, hslots⟩ := h.tasks x k hk
      rw [hx, hc] at hy
      cases hy
      exact ⟨hwaits f hphase, hslots⟩
  · intro a ha
    by_cases hholds : call.Holds g a
    · exact .inl ((hsame a).mpr hholds)
    · exact .inr ⟨ha, hholds⟩

/-- The acquire task has a turn of its own. -/
theorem Sound.attempt (h : Sound s) (hc : s.calls c = some call) {k : SlotAllocator.Call}
    (hheld : call.held = none) (hk : k.numSlots = call.numSlots) (hparked : c ∉ s.alloc.pool.changed.parked) :
    Turn s (attempt s c call failed k) c call { call with phase := .racing (pass s.alloc k) failed } ∧
      Tidy s (attempt s c call failed k) call { call with phase := .racing (pass s.alloc k) failed } := by
  have hpos : 0 < k.numSlots := by rw [hk]; exact h.asks c call hc
  have hnone : ∀ a, ¬call.Holds g a := by
    intro a ⟨offset, ho, _⟩
    rw [hheld] at ho
    cases ho
  have hsound := SlotAllocator.sound_attempt h.alloc hpos hparked
  have hwhole := SlotAllocator.whole_attempt h.whole c k
  rcases attempt_cases h.alloc hpos hparked with ⟨hpass, hlive, d, hd, hcalls⟩ | ⟨i, hpass, hlive, hcalls, hnew⟩
  · have hnot : ∀ a, ¬({ call with phase := .racing (pass s.alloc k) failed } : Call).Holds g a := by
      intro a ⟨offset, ho, _⟩
      simp only [Call.held, hpass, reduceCtorEq] at ho
    refine ⟨⟨hc, rfl, rfl, rfl, hsound, hwhole, ?_, fun a ha => absurd ha (hnot a), ?_, ?_,
      fun op ho => nomatch ho⟩, ?_⟩
    · intro a ha _
      exact hlive ▸ ha
    · intro offset ho
      simp only [Call.held, hpass, reduceCtorEq] at ho
    · intro x y hy
      have hy : (s.alloc.calls.set c d).get? x = some y := hcalls ▸ hy
      rw [Dict.get?_set] at hy
      split at hy
      · next hx =>
        cases hy
        exact ⟨fun _ => ⟨⟨failed, by rw [hpass]⟩, hd.trans hk⟩, fun hne => absurd hx hne⟩
      · next hx => exact ⟨fun heq => absurd heq hx, fun _ => hy⟩
    · intro a ha
      exact .inr ⟨hlive ▸ ha, hnone a⟩
  · have hdiv : i * g.slotSize / g.slotSize = i := Nat.mul_div_cancel i g.slotSize_pos
    have hself : ∀ a, ({ call with phase := .racing (pass s.alloc k) failed } : Call).Holds g a ↔
        a = ⟨i, k.numSlots, ∅⟩ := by
      intro a
      simp only [Call.Holds, Call.held, hpass, Option.some.injEq, exists_eq_left', hdiv, hk]
    refine ⟨⟨hc, rfl, rfl, rfl, hsound, hwhole, ?_, ?_, ?_, ?_, fun op ho => nomatch ho⟩, ?_⟩
    · intro a ha _
      rw [show (CudaIpc.attempt s c call failed k).alloc.live = _ from hlive]
      exact List.mem_cons_of_mem _ ha
    · intro a ha
      rw [show (CudaIpc.attempt s c call failed k).alloc.live = _ from hlive, (hself a).mp ha]
      exact ⟨List.mem_cons_self .., .inr hnew⟩
    · intro offset ho
      simp only [Call.held, hpass, Option.some.injEq] at ho
      rw [← ho, Nat.mul_mod_left]
    · intro x y hy
      have hy : (s.alloc.calls.pop c).get? x = some y := hcalls ▸ hy
      rw [Dict.get?_pop] at hy
      split at hy
      · cases hy
      · next hx => exact ⟨fun heq => absurd heq hx, fun _ => hy⟩
    · intro a ha
      have ha : a ∈ ⟨i, k.numSlots, ∅⟩ :: s.alloc.live := hlive ▸ ha
      rcases List.mem_cons.mp ha with heq | ha
      · exact .inl ((hself a).mpr heq)
      · exact .inr ⟨ha, hnone a⟩

/-- A run that is held is given back whole. -/
theorem Sound.release_alloc (h : Sound s) (hc : s.calls c = some call) (hheld : call.held = some offset) :
    SlotAllocator.Sound (release s offset call.numSlots).alloc ∧ Whole (release s offset call.numSlots).alloc ∧
      (release s offset call.numSlots).alloc.calls = s.alloc.calls ∧
      ∀ a, a ∈ (release s offset call.numSlots).alloc.live ↔ a ∈ s.alloc.live ∧ ¬call.Holds g a := by
  let own : Allocation := ⟨offset / g.slotSize, call.numSlots, ∅⟩
  have hown : own ∈ s.alloc.live := h.live c own ⟨call, hc, offset, hheld, rfl⟩
  have hoffset : (offset : Int) = own.start * g.slotSize := by
    have hmod := h.aligned c call offset hc hheld
    have hdiv := Nat.div_add_mod' offset g.slotSize
    rw [hmod, Nat.add_zero] at hdiv
    exact_mod_cast hdiv.symm
  have hreleasable := SlotAllocator.releasable_allocation h.alloc.accounted hown rfl
  have hstep := SlotAllocator.step_release_accepted h.alloc.accounted hreleasable
  have heq : (release s offset call.numSlots).alloc =
      SlotAllocator.step s.alloc (.release (own.start * g.slotSize) own.numSlots) := by
    rw [← hoffset]
    rfl
  have hholds : ∀ a, call.Holds g a ↔ a = own := by
    intro a
    simp only [Call.Holds, hheld, Option.some.injEq, exists_eq_left', own]
  rw [heq]
  refine ⟨SlotAllocator.sound_release h.alloc _ _, ?_, by rw [hstep], ?_⟩
  · apply SlotAllocator.whole_step h.alloc h.whole
    intro _
    exact ⟨own, hown, rfl, rfl, rfl⟩
  · intro a
    rw [hstep, SlotAllocator.slotRange_allocation, mem_giveBack_whole h.alloc h.whole hown, hholds]

theorem held_not_waiting (hheld : call.held = some offset) (f : Bool) :
    call.phase ≠ .racing .waiting f := by
  intro hphase
  simp only [Call.held, hphase, reduceCtorEq] at hheld

/-- The call gives its run back. -/
theorem Sound.releases (h : Sound s) (hc : s.calls c = some call) (hheld : call.held = some offset)
    (phase : Phase) (hnone : ({ call with phase } : Call).held = none) (hkept : ∀ op, phase = .returned op → op.Kept) :
    Turn s ((release s offset call.numSlots).setPhase c call phase) c call { call with phase } ∧
      Tidy s ((release s offset call.numSlots).setPhase c call phase) call { call with phase } := by
  obtain ⟨hsound, hwhole, hcalls, hlive⟩ := h.release_alloc hc hheld
  constructor
  · refine ⟨hc, rfl, rfl, rfl, hsound, hwhole, fun a ha hnot => (hlive a).mpr ⟨ha, hnot⟩, ?_, ?_, ?_, hkept⟩
    · intro a ⟨o, ho, _⟩
      rw [hnone] at ho
      cases ho
    · intro o ho
      rw [hnone] at ho
      cases ho
    · intro x k hk
      have hk : s.alloc.calls.get? x = some k := hcalls ▸ hk
      refine ⟨fun hx => ?_, fun _ => hk⟩
      obtain ⟨y, f, hy, hphase, _⟩ := h.tasks x k hk
      rw [hx, hc] at hy
      cases hy
      exact absurd hphase (held_not_waiting hheld f)
  · intro a ha
    exact .inr ((hlive a).mp ha)

/-- The call ends, and its task with it. -/
theorem Sound.cancels (h : Sound s) (hc : s.calls c = some call) (hheld : call.held = none) :
    Turn s ((cancelAcquire s c).setPhase c call .raised) c call { call with phase := .raised } ∧
      Tidy s ((cancelAcquire s c).setPhase c call .raised) call { call with phase := .raised } := by
  constructor
  · refine ⟨hc, rfl, rfl, rfl, SlotAllocator.sound_cancel h.alloc c, h.whole, fun a ha _ => ha, ?_, ?_, ?_,
      fun op ho => nomatch ho⟩
    · intro a ⟨o, ho, _⟩
      cases ho
    · intro o ho
      cases ho
    · intro x k hk
      have hk : (s.alloc.calls.pop c).get? x = some k := hk
      rw [Dict.get?_pop] at hk
      split at hk
      · cases hk
      · next hx => exact ⟨fun heq => absurd heq hx, fun _ => hk⟩
  · intro a ha
    refine .inr ⟨ha, fun ⟨o, ho, _⟩ => ?_⟩
    rw [hheld] at ho
    cases ho

/-- The call ends, and its run stays out. -/
theorem Sound.abandons (h : Sound s) (hc : s.calls c = some call) (hheld : call.held = some offset) :
    Turn s (s.setPhase c call .raised) c call { call with phase := .raised } := by
  refine ⟨hc, rfl, rfl, rfl, h.alloc, h.whole, fun a ha _ => ha, ?_, ?_, ?_, fun op ho => nomatch ho⟩
  · intro a ⟨o, ho, _⟩
    cases ho
  · intro o ho
    cases ho
  · intro x k hk
    refine ⟨fun hx => ?_, fun _ => hk⟩
    obtain ⟨y, f, hy, hphase, _⟩ := h.tasks x k hk
    rw [hx, hc] at hy
    cases hy
    exact absurd hphase (held_not_waiting hheld f)

/-! ### One step -/

/-- The acquire task of the call is done, and the call has not had its turn. -/
def Call.acquired (call : Call) : Bool :=
  match call.phase with
  | .racing (.done _) _ => true
  | _ => false

/-- A cancellation does not reach a call whose acquire task is done. -/
def Spared (s : State g) : Event → Prop
  | .putCancelled c => ∀ call, s.calls c = some call → call.acquired = false
  | _ => True

/-- A step that is about one call, or about none. -/
def Turns (s s' : State g) (spared : Prop) : Prop :=
  s' = s ∨ ∃ c call call', Turn s s' c call call' ∧ (spared → Tidy s s' call call')

theorem Turns.of_tidy {spared : Prop} (h : Turn s s' c call call' ∧ Tidy s s' call call') : Turns s s' spared :=
  .inr ⟨c, call, call', h.1, fun _ => h.2⟩

theorem Turns.onRace {spared : Prop} {act : Call → Acquire → Bool → State g}
    (h : ∀ call acquire failed, s.calls c = some call → call.phase = .racing acquire failed →
      Turns s (act call acquire failed) spared) : Turns s (onRace s c act) spared := by
  unfold CudaIpc.onRace
  split
  · exact .inl rfl
  · next call hc =>
    split
    · next acquire failed hphase => exact h call acquire failed hc hphase
    · exact .inl rfl
    · exact .inl rfl

theorem Turns.onOperation {spared : Prop} {act : Call → PutOperation → State g}
    (h : ∀ call op, s.calls c = some call → call.phase = .returned op → Turns s (act call op) spared) :
    Turns s (onOperation s c act) spared := by
  unfold CudaIpc.onOperation
  split
  · exact .inl rfl
  · next call hc =>
    split
    · next op hphase => exact h call op hc hphase
    · exact .inl rfl
    · exact .inl rfl

section
variable (h : Sound s) (hc : s.calls c = some call)
include h hc

/-- An operation is told something, and keeps its slots. -/
theorem Sound.operation {op op' : PutOperation}
    (hphase : call.phase = .returned op) (hkept : op'.Kept) (hsame : op.SameSlots op') {spared : Prop} :
    Turns s ({ s with failed := failed }.setPhase c call (.returned op')) spared := by
  apply Turns.of_tidy
  apply h.quiet hc
  · simp only [Call.held, hphase, hsame.1, hsame.2]
  · intro f hf
    rw [hphase] at hf
    cases hf
  · intro x hx
    cases hx
    exact hkept

/-- The same, when the relay does not fail of it. -/
theorem Sound.told {op op' : PutOperation}
    (hphase : call.phase = .returned op) (hkept : op'.Kept)
    (hsame : op.SameSlots op') {spared : Prop} : Turns s (s.setPhase c call (.returned op')) spared :=
  h.operation hc hphase hkept hsame

theorem Sound.failTaskEnds
    (hphase : call.phase = .racing acquire failed) {spared : Prop} :
    Turns s (s.setPhase c call (.racing acquire true)) spared := by
  have hquiet : Turn s ({ s with failed := s.failed }.setPhase c call (.racing acquire true)) c call
        { call with phase := .racing acquire true } ∧
      Tidy s ({ s with failed := s.failed }.setPhase c call (.racing acquire true)) call
        { call with phase := .racing acquire true } := by
    apply h.quiet hc
    · cases acquire with
      | created | waiting | done offset => simp only [Call.held, hphase]
    · intro f hf
      rw [hphase] at hf
      cases hf
      exact ⟨true, rfl⟩
    · exact fun op ho => nomatch ho
  exact .of_tidy hquiet

theorem Sound.acquireStarts
    (hphase : call.phase = .racing .created failed) {spared : Prop} :
    Turns s (acquireStarts s c call failed) spared := by
  unfold CudaIpc.acquireStarts
  split
  · exact .inl rfl
  · next k hk =>
    have hslots : k.numSlots = call.numSlots := by
      unfold SlotAllocator.beginAcquire at hk
      split_ifs at hk
      cases hk
      exact Int.toNat_natCast _
    have hparked : c ∉ s.alloc.pool.changed.parked := by
      intro hmem
      obtain ⟨d, hd, _⟩ := h.alloc.wakeup.parked c hmem
      obtain ⟨y, f, hy, hwaiting, _⟩ := h.tasks c d hd
      rw [hc] at hy
      cases hy
      rw [hphase] at hwaiting
      cases hwaiting
    exact .of_tidy (h.attempt hc (by simp only [Call.held, hphase]) hslots hparked)

theorem Sound.acquireResumes
    (hphase : call.phase = .racing .waiting failed) {spared : Prop} :
    Turns s (acquireResumes s c call failed) spared := by
  unfold CudaIpc.acquireResumes
  split
  · exact .inl rfl
  · next k hk =>
    obtain ⟨y, _, hy, _, hslots⟩ := h.tasks c k hk
    rw [hc] at hy
    cases hy
    split
    · exact .inl rfl
    · next hparked => exact .of_tidy (h.attempt hc (by simp only [Call.held, hphase]) hslots hparked)

theorem Sound.putResumes
    (hphase : call.phase = .racing acquire failed) (copyFails : Bool) {spared : Prop} :
    Turns s (putResumes s c call acquire failed copyFails) spared := by
  cases acquire with
  | created | waiting =>
    cases failed with
    | true => exact .of_tidy (h.cancels hc (by simp only [Call.held, hphase]))
    | false => exact .inl rfl
  | done offset =>
    have hheld : call.held = some offset := by simp only [Call.held, hphase]
    have raises := h.releases hc hheld .raised rfl fun op ho => nomatch ho
    cases failed with
    | true => exact .of_tidy raises
    | false =>
      simp only [CudaIpc.putResumes]
      split
      · exact .of_tidy raises
      · apply Turns.of_tidy
        apply h.quiet hc
        · simp only [hheld]
          rfl
        · intro f hf
          exact absurd hf (held_not_waiting hheld f)
        · intro op ho
          cases ho
          exact .create offset

theorem Sound.putCancelled (hphase : call.phase = .racing acquire failed) :
    Turns s (putCancelled s c call acquire) (Spared s (.putCancelled c)) := by
  cases acquire with
  | created | waiting => exact .of_tidy (h.cancels hc (by simp only [Call.held, hphase]))
  | done offset =>
    right
    have hheld : call.held = some offset := by simp only [Call.held, hphase]
    refine ⟨c, call, _, h.abandons hc hheld, fun hspared => ?_⟩
    have hnot := hspared call hc
    simp only [Call.acquired, hphase, reduceCtorEq] at hnot

theorem Sound.waitResumes {op : PutOperation}
    (hphase : call.phase = .returned op) {spared : Prop} : Turns s (waitResumes s c call op) spared := by
  have hop := h.kept c call op hc hphase
  unfold CudaIpc.waitResumes
  split
  · exact .inl rfl
  · exact .inl rfl
  · next hw hd =>
    have hheld : call.held = some op.offset := by
      simp only [Call.held, hphase, hop.none_released hw, if_true]
    apply Turns.of_tidy
    apply h.releases hc hheld
    · simp only [Call.held, Nat.add_eq_zero_iff, one_ne_zero, and_false, if_false]
    · intro x hx
      cases hx
      exact hop.releases hw hd
  · next hw _ => exact h.operation hc hphase (hop.ends hw true fun _ => rfl) ⟨rfl, rfl⟩
  · next hw _ => exact h.operation hc hphase (hop.ends hw op.completed fun hcompleted => hcompleted) ⟨rfl, rfl⟩

theorem Sound.waitTimesOut {op : PutOperation}
    (hphase : call.phase = .returned op) {spared : Prop} : Turns s (waitTimesOut s c call op) spared := by
  have hop := h.kept c call op hc hphase
  unfold CudaIpc.waitTimesOut
  split
  · next hw => exact h.operation hc hphase (hop.timesOut hw) ⟨rfl, rfl⟩
  · exact .inl rfl

end

/-- A new call holds nothing. -/
theorem Sound.put (h : Sound s) (size : Nat) (valid captureLayout : Bool) :
    Sound (putAsync s size valid captureLayout) ∧
      (Covered s → Covered (putAsync s size valid captureLayout)) := by
  unfold putAsync
  simp only
  split
  · exact ⟨h, id⟩
  · let new : Call :=
      { numSlots := slotsForSize size g.slotSize, captureLayout, phase := .racing .created false }
    have hcases : ∀ x y, Function.update s.calls s.nextCall (some new) x = some y →
        (y = new ∧ s.calls x = none) ∨ (x ≠ s.nextCall ∧ s.calls x = some y) := by
      intro x y hx
      rw [Function.update_apply] at hx
      split at hx
      · next heq =>
        rw [heq]
        exact .inl ⟨(Option.some.inj hx).symm, h.fresh _ (Nat.le_refl _)⟩
      · next hne => exact .inr ⟨hne, hx⟩
    have hkeeps : ∀ x y, s.calls x = some y → Function.update s.calls s.nextCall (some new) x = some y := by
      intro x y hx
      have hne : x ≠ s.nextCall := by
        intro heq
        rw [heq, h.fresh _ (Nat.le_refl _)] at hx
        cases hx
      rw [Function.update_of_ne hne]
      exact hx
    have hholds : ∀ x a, Holds (g := g)
        { s with calls := Function.update s.calls s.nextCall (some new), nextCall := s.nextCall + 1 } x a ↔
          Holds s x a := by
      intro x a
      constructor
      · intro ⟨y, hy, hya⟩
        rcases hcases x y hy with ⟨rfl, _⟩ | ⟨_, hx⟩
        · obtain ⟨o, ho, _⟩ := hya
          cases ho
        · exact ⟨y, hx, hya⟩
      · intro ⟨y, hy, hya⟩
        exact ⟨y, hkeeps x y hy, hya⟩
    constructor
    · refine ⟨h.alloc, h.whole, fun x a hx => h.live x a ((hholds x a).mp hx), ?_, ?_, ?_, ?_, ?_, ?_⟩
      · intro x y a hx hy
        exact h.unique x y a ((hholds x a).mp hx) ((hholds y a).mp hy)
      · intro x y offset hx ho
        rcases hcases x y hx with ⟨rfl, _⟩ | ⟨_, hx⟩
        · cases ho
        · exact h.aligned x y offset hx ho
      · intro x k hk
        obtain ⟨y, f, hy, hrest⟩ := h.tasks x k hk
        exact ⟨y, f, hkeeps x y hy, hrest⟩
      · intro x y hx
        rcases hcases x y hx with ⟨rfl, _⟩ | ⟨_, hx⟩
        · exact Nat.lt_of_lt_of_le Nat.zero_lt_one (Nat.le_max_left ..)
        · exact h.asks x y hx
      · intro x hx
        have hne : x ≠ s.nextCall := by
          intro heq
          rw [heq] at hx
          exact Nat.not_succ_le_self _ hx
        exact (Function.update_of_ne hne ..).trans (h.fresh x (Nat.le_of_succ_le hx))
      · intro x y op hx hphase
        rcases hcases x y hx with ⟨rfl, _⟩ | ⟨_, hx⟩
        · cases hphase
        · exact h.kept x y op hx hphase
    · intro hcov a ha
      obtain ⟨x, hx⟩ := hcov a ha
      exact ⟨x, (hholds x a).mpr hx⟩

theorem Sound.fails (h : Sound s) : Sound { s with failed := true } :=
  ⟨h.alloc, h.whole, h.live, h.unique, h.aligned, h.tasks, h.asks, h.fresh, h.kept⟩

theorem Turns.sound {spared : Prop} (t : Turns s s' spared) (h : Sound s) : Sound s' := by
  rcases t with heq | ⟨c, call, call', t, _⟩
  · rw [heq]
    exact h
  · exact h.turn t

theorem Turns.covered {spared : Prop} (t : Turns s s' spared) (hspared : spared) (h : Covered s) : Covered s' := by
  rcases t with heq | ⟨c, call, call', t, htidy⟩
  · rw [heq]
    exact h
  · exact h.turn t (htidy hspared)

/-- What a step can do: admit a call, mark the relay, or give one call a turn. -/
theorem step_turns (h : Sound s) (e : Event) :
    (∃ size valid captureLayout, e = .put size valid captureLayout) ∨ e = .markFailed ∨
      Turns s (step s e) (Spared s e) := by
  cases e with
  | put size valid captureLayout => exact .inl ⟨size, valid, captureLayout, rfl⟩
  | markFailed => exact .inr (.inl rfl)
  | acquireStarts c =>
    refine .inr (.inr (.onRace ?_))
    intro call acquire failed hc hphase
    split
    · next hcreated => exact h.acquireStarts hc (hcreated ▸ hphase)
    · exact .inl rfl
  | acquireResumes c =>
    refine .inr (.inr (.onRace ?_))
    intro call acquire failed hc hphase
    split
    · next hwaiting => exact h.acquireResumes hc (hwaiting ▸ hphase)
    · exact .inl rfl
  | failTaskEnds c =>
    refine .inr (.inr (.onRace ?_))
    intro call acquire failed hc hphase
    split
    · exact h.failTaskEnds hc hphase
    · exact .inl rfl
  | putResumes c copyFails =>
    refine .inr (.inr (.onRace ?_))
    intro call acquire failed hc hphase
    exact h.putResumes hc hphase copyFails
  | putCancelled c =>
    refine .inr (.inr (.onRace ?_))
    intro call acquire failed hc hphase
    exact h.putCancelled hc hphase
  | waitStarts c =>
    refine .inr (.inr (.onOperation ?_))
    intro call op hc hphase
    exact h.told hc hphase (h.kept c call op hc hphase).waitStarts op.waitStarts_slots
  | markReceiverDone c =>
    refine .inr (.inr (.onOperation ?_))
    intro call op hc hphase
    exact h.told hc hphase (h.kept c call op hc hphase).markReceiverDone op.markReceiverDone_slots
  | markReceiverFailed c =>
    refine .inr (.inr (.onOperation ?_))
    intro call op hc hphase
    exact h.told hc hphase (h.kept c call op hc hphase).markReceiverFailed op.markReceiverFailed_slots
  | waitResumes c =>
    refine .inr (.inr (.onOperation ?_))
    intro call op hc hphase
    exact h.waitResumes hc hphase
  | waitTimesOut c =>
    refine .inr (.inr (.onOperation ?_))
    intro call op hc hphase
    exact h.waitTimesOut hc hphase
  | waitCancelled c =>
    refine .inr (.inr (.onOperation ?_))
    intro call op hc hphase
    exact h.told hc hphase (h.kept c call op hc hphase).waitCancelled op.waitCancelled_slots

/-! ### Whole runs -/

theorem sound_step (h : Sound s) (e : Event) : Sound (step s e) := by
  rcases step_turns h e with ⟨size, valid, captureLayout, rfl⟩ | rfl | hturns
  · exact (h.put size valid captureLayout).1
  · exact h.fails
  · exact hturns.sound h

theorem covered_step (h : Sound s) (hcov : Covered s) (e : Event) (hspared : Spared s e) :
    Covered (step s e) := by
  rcases step_turns h e with ⟨size, valid, captureLayout, rfl⟩ | rfl | hturns
  · exact (h.put size valid captureLayout).2 hcov
  · exact hcov
  · exact hturns.covered hspared hcov

theorem covered_create (g : Geometry) : Covered (State.create g) := fun _ h => nomatch h

theorem sound_run (g : Geometry) (history : List Event) : Sound (run step (State.create g) history) :=
  run_invariant (sound_create g) (fun _ e h => sound_step h e) history

theorem covered_run (g : Geometry) (history : List Event) (rule : Along step Spared (State.create g) history) :
    Covered (run step (State.create g) history) := by
  have hboth : Sound (run step (State.create g) history) ∧ Covered (run step (State.create g) history) :=
    along_invariant (I := fun s => Sound s ∧ Covered s) ⟨sound_create g, covered_create g⟩
      (fun _ e h hspared => ⟨sound_step h.1 e, covered_step h.1 h.2 e hspared⟩) history rule
  exact hboth.2

/-- What a call holds is on its way to it, or belongs to the operation it has returned. -/
theorem Holds.owner (h : Holds s c a) (hc : s.calls c = some call) :
    call.acquired = true ∨ ∃ op, call.phase = .returned op ∧ op.releases = 0 := by
  obtain ⟨offset, ho, _⟩ := h.of_call hc
  unfold Call.held at ho
  split at ho
  · next heq => exact .inl (by simp only [Call.acquired, heq])
  · next op heq =>
    split at ho
    · next hnone => exact .inr ⟨op, heq, hnone⟩
    · cases ho
  · cases ho
  · cases ho
  · cases ho

/-- **No run of slots is lost.** In every run in which no cancellation reaches a `put_async`
whose acquire task is done, the runs that the allocator has out are those that a call holds,
each held by one call: by a call that has yet to take it, or by the operation that the call
has returned and that has not released it. An operation releases at most once, after the
receiver has acknowledged, and not when the receiver has failed or a wait has timed out. -/
theorem slots_owned (g : Geometry) (history : List Event)
    (rule : Along step Spared (State.create g) history) :
    let s := run step (State.create g) history
    (∀ a, a ∈ s.alloc.live ↔ ∃ c, Holds s c a) ∧
      (∀ c c' a, Holds s c a → Holds s c' a → c = c') ∧
      (∀ c call a, s.calls c = some call → Holds s c a →
        call.acquired = true ∨ ∃ op, call.phase = .returned op ∧ op.releases = 0) ∧
      ∀ c call op, s.calls c = some call → call.phase = .returned op →
        op.releases ≤ 1 ∧ (0 < op.releases → op.receiver = .done ∧ op.refused = false) := by
  intro s
  have h : Sound s := sound_run g history
  have hcov : Covered s := covered_run g history rule
  refine ⟨fun a => ⟨hcov a, fun ⟨c, hc⟩ => h.live c a hc⟩, h.unique, ?_, ?_⟩
  · intro c call a hc hholds
    exact hholds.owner hc
  · intro c call op hc hphase
    have hop := h.kept c call op hc hphase
    exact ⟨hop.once, fun hpos => (hop.released hpos).2⟩

/-! ### One slot -/

def oneSlot : Geometry := ⟨1, 4, Nat.zero_lt_one, Nat.zero_lt_succ 3⟩

/-- A transfer that is acknowledged. -/
def acknowledged : List Event :=
  [.put 3 true false, .acquireStarts 0, .putResumes 0 false, .waitStarts 0, .markReceiverDone 0, .waitResumes 0]

theorem slots_owned_acknowledged :
    let s := run step (State.create oneSlot) acknowledged
    (∀ a, a ∈ s.alloc.live ↔ ∃ c, Holds s c a) ∧ s.alloc.live = [] ∧
      (s.calls 0).map (·.phase) =
        some (.returned { offset := 0, receiver := .done, completed := true, releases := 1 }) := by
  have rule : Along step Spared (State.create oneSlot) acknowledged :=
    ⟨trivial, trivial, trivial, trivial, trivial, trivial, trivial⟩
  exact ⟨(slots_owned oneSlot acknowledged rule).1, by decide +kernel, by decide +kernel⟩

/-- The acquire task is done when the cancellation reaches the call: the slot is out, nobody
holds it, and the next call waits for it. -/
theorem cancelled_put_leaks :
    let s := run step (State.create oneSlot)
      [.put 3 true false, .acquireStarts 0, .putCancelled 0, .put 3 true false, .acquireStarts 1]
    s.alloc.live = [⟨0, 1, ∅⟩] ∧ (∀ c, ¬Holds s c ⟨0, 1, ∅⟩) ∧ s.failed = false ∧
      (s.calls 0).map (·.phase) = some .raised ∧
      (s.calls 1).map (·.phase) = some (.racing .waiting false) := by
  intro s
  refine ⟨by decide +kernel, ?_, rfl, by decide +kernel, by decide +kernel⟩
  intro c ⟨call, hc, offset, ho, _⟩
  have hheld : ∀ c, (s.calls c).bind Call.held = none := by
    intro c
    match c with
    | 0 => decide +kernel
    | 1 => decide +kernel
    | c + 2 => rfl
  have hnone := hheld c
  rw [hc] at hnone
  rw [Option.bind_some, ho] at hnone
  cases hnone

end SglangOmni.Relay.CudaIpc
