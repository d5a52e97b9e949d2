import SglangOmni.Router.Barrier

/-! The order of acknowledgements.

Sequence numbers are only ordered within an epoch. A heartbeat of the epoch on record can only raise the number, and one
of any other epoch is taken as it is, so a heartbeat that a data plane sent before it moved to the current epoch takes
an acknowledgement back when it comes late. Nothing else does (`ack_kept_iff`). -/
namespace SglangOmni.Router
open Lib

/-! ### What a message does to a record -/

/-- A data plane that was not known, or of a newer generation, registers. -/
def DataPlaneHello.Fresh (hello : DataPlaneHello) (current : Option DataPlaneRecord) (r : DataPlaneRecord) : Prop :=
  (∀ c, current = some c → c.generation < hello.generation) ∧ r.generation = hello.generation

/-- The data plane on record registers again. -/
def DataPlaneHello.Again (hello : DataPlaneHello) (current : Option DataPlaneRecord) (r : DataPlaneRecord) : Prop :=
  ∃ c, current = some c ∧ hello.generation = c.generation ∧ hello.pid = c.pid ∧
    r = { c with lastSeenAt := r.lastSeenAt }

/-- The data plane on record reports. -/
def DataPlaneHeartbeat.Taken (beat : DataPlaneHeartbeat) (current : Option DataPlaneRecord) (r : DataPlaneRecord) :
    Prop :=
  ∃ c, current = some c ∧ beat.generation = c.generation ∧ beat.pid = c.pid ∧ r.generation = c.generation ∧
    r.pid = c.pid ∧
    r.lastAppliedEpoch = beat.lastAppliedEpoch ∧
    (beat.lastAppliedEpoch = c.lastAppliedEpoch → c.lastAppliedSeq ≤ r.lastAppliedSeq)

theorem register_cases (records : Dict Nat DataPlaneRecord) (now : Int) (hello : DataPlaneHello) :
    (∃ e, register records now hello = .error e) ∨
      ∃ r, register records now hello = .ok (records.set hello.dpIndex r) ∧
        (hello.Fresh (records.get? hello.dpIndex) r ∨ hello.Again (records.get? hello.dpIndex) r) := by
  unfold register
  cases hc : records.get? hello.dpIndex with
  | none => exact .inr ⟨_, rfl, .inl ⟨(fun _ h => nomatch h), rfl⟩⟩
  | some c =>
    dsimp only
    split
    · exact .inl ⟨_, rfl⟩
    · next hold =>
      split
      · exact .inl ⟨_, rfl⟩
      · next hfenced =>
        split
        · next hsame => exact .inr ⟨_, rfl, .inr ⟨c, rfl, hsame.1, hsame.2, rfl⟩⟩
        · next hother =>
          refine .inr ⟨_, rfl, .inl ⟨fun c' hc' => ?_, rfl⟩⟩
          obtain rfl := Option.some.inj hc'
          have hne : hello.generation ≠ c.generation := fun heq => by
            by_cases hpid : hello.pid = c.pid
            · exact hother ⟨heq, hpid⟩
            · exact hfenced ⟨heq, hpid⟩
          omega

theorem heartbeat_cases (records : Dict Nat DataPlaneRecord) (now : Int) (beat : DataPlaneHeartbeat) :
    ((∃ e, heartbeat records now beat = .error e) ∧
        ∀ c, records.get? beat.dpIndex = some c → ¬(beat.generation = c.generation ∧ beat.pid = c.pid)) ∨
      ∃ r, heartbeat records now beat = .ok (records.set beat.dpIndex r) ∧
        beat.Taken (records.get? beat.dpIndex) r := by
  unfold heartbeat
  cases hc : records.get? beat.dpIndex with
  | none => exact .inl ⟨⟨_, rfl⟩, fun _ h => nomatch h⟩
  | some c =>
    dsimp only
    split
    · next hnewer =>
      refine .inl ⟨⟨_, rfl⟩, fun c' hc' hsame => ?_⟩
      obtain rfl := Option.some.inj hc'
      omega
    · next hold =>
      split
      · next hstale =>
        refine .inl ⟨⟨_, rfl⟩, fun c' hc' hsame => ?_⟩
        obtain rfl := Option.some.inj hc'
        rcases hstale with hlt | hpid
        · omega
        · exact hpid hsame.2
      · next hcurrent =>
        rw [not_or, not_not] at hcurrent
        have hgeneration : beat.generation = c.generation := by omega
        refine .inr ⟨_, rfl, c, rfl, hgeneration, hcurrent.2, hgeneration, hcurrent.2, rfl, fun hepoch => ?_⟩
        dsimp only
        rw [if_pos hepoch]
        exact Nat.le_max_left _ _

/-- **What one message does to the record of an index.** -/
theorem take_cases (cp : ControlPlane) (now : Int) (m : Message) (i : Nat) :
    (cp.take now m).records.get? i = cp.records.get? i ∨
      ∃ r, (cp.take now m).records.get? i = some r ∧
        ((∃ hello, m = .hello hello ∧ hello.dpIndex = i ∧
            (hello.Fresh (cp.records.get? i) r ∨ hello.Again (cp.records.get? i) r)) ∨
          ∃ beat, m = .beat beat ∧ beat.dpIndex = i ∧ beat.Taken (cp.records.get? i) r) := by
  cases m with
  | hello hello =>
    rcases register_cases cp.records now hello with ⟨e, herror⟩ | ⟨r, hok, hmoved⟩
    · exact .inl (by simp only [ControlPlane.take, herror])
    · simp only [ControlPlane.take, hok]
      by_cases hi : hello.dpIndex = i
      · subst hi
        exact .inr ⟨r, Dict.get?_set_self .., .inl ⟨hello, rfl, rfl, hmoved⟩⟩
      · exact .inl (Dict.get?_set_ne _ _ (Ne.symm hi))
  | beat beat =>
    rcases heartbeat_cases cp.records now beat with ⟨⟨e, herror⟩, _⟩ | ⟨r, hok, htaken⟩
    · exact .inl (by simp only [ControlPlane.take, herror])
    · simp only [ControlPlane.take, hok]
      by_cases hi : beat.dpIndex = i
      · subst hi
        exact .inr ⟨r, Dict.get?_set_self .., .inr ⟨beat, rfl, rfl, htaken⟩⟩
      · exact .inl (Dict.get?_set_ne _ _ (Ne.symm hi))

/-- A heartbeat of the data plane on record is taken. -/
theorem take_beat {cp : ControlPlane} {beat : DataPlaneHeartbeat} {c : DataPlaneRecord} (now : Int)
    (hcurrent : cp.records.get? beat.dpIndex = some c) (hgeneration : c.generation = beat.generation)
    (hpid : c.pid = beat.pid) :
    ∃ r, (cp.take now (.beat beat)).records.get? beat.dpIndex = some r ∧ beat.Taken (some c) r := by
  rcases heartbeat_cases cp.records now beat with ⟨_, hrefused⟩ | ⟨r, hok, htaken⟩
  · exact absurd ⟨hgeneration.symm, hpid.symm⟩ (hrefused c hcurrent)
  · simp only [ControlPlane.take, hok]
    exact ⟨r, Dict.get?_set_self .., hcurrent ▸ htaken⟩

/-! ### One data plane -/

/-- The record is of this data plane. -/
def DataPlaneRecord.IsOf (r : DataPlaneRecord) (me : DataPlaneHello) : Prop :=
  r.generation = me.generation ∧ r.pid = me.pid

instance (r : DataPlaneRecord) (me : DataPlaneHello) : Decidable (r.IsOf me) := inferInstanceAs (Decidable (_ ∧ _))

/-- A message arrives, at some time. -/
def deliver (cp : ControlPlane) (delivery : Int × Message) : ControlPlane := cp.take delivery.1 delivery.2

/-- A record of this data plane is of the epoch, and not behind the number. -/
def KeepsAck (me : DataPlaneHello) (epoch : Epoch) (seq : Nat) (cp : ControlPlane) : Prop :=
  ∀ r, cp.records.get? me.dpIndex = some r → r.IsOf me → r.lastAppliedEpoch = some epoch ∧ seq ≤ r.lastAppliedSeq

/-- A heartbeat of the data plane, while it is the one on record, is of the epoch. -/
def OfEpoch (me : DataPlaneHello) (epoch : Epoch) (cp : ControlPlane) (delivery : Int × Message) : Prop :=
  ∀ beat, delivery.2 = .beat beat → beat.dpIndex = me.dpIndex → beat.generation = me.generation → beat.pid = me.pid →
    (∃ r, cp.records.get? me.dpIndex = some r ∧ r.IsOf me) → beat.lastAppliedEpoch = some epoch

/-- The acknowledgement is on record, or a later generation has taken its place. -/
def Held (me : DataPlaneHello) (epoch : Epoch) (seq : Nat) (cp : ControlPlane) : Prop :=
  ∃ r, cp.records.get? me.dpIndex = some r ∧
    (me.generation < r.generation ∨ r.IsOf me ∧ r.lastAppliedEpoch = some epoch ∧ seq ≤ r.lastAppliedSeq)

variable {me : DataPlaneHello} {epoch : Epoch} {seq : Nat} {cp : ControlPlane}

theorem Held.keepsAck (h : Held me epoch seq cp) : KeepsAck me epoch seq cp := by
  obtain ⟨r, hr, hheld⟩ := h
  intro r' hr' hme
  obtain rfl : r = r' := Option.some.inj (hr.symm.trans hr')
  rcases hheld with hnewer | ⟨_, hack⟩
  · exact absurd hme.1 (Nat.ne_of_gt hnewer)
  · exact hack

theorem Held.deliver (h : Held me epoch seq cp) {delivery : Int × Message} (hepoch : OfEpoch me epoch cp delivery) :
    Held me epoch seq (deliver cp delivery) := by
  obtain ⟨c, hc, hheld⟩ := h
  unfold SglangOmni.Router.deliver
  obtain hsame | ⟨r, hr, hmoved⟩ := take_cases cp delivery.1 delivery.2 me.dpIndex
  · exact ⟨c, hsame.trans hc, hheld⟩
  refine ⟨r, hr, ?_⟩
  rw [hc] at hmoved
  rcases hmoved with ⟨hello, _, _, hfresh | hagain⟩ | ⟨beat, hbeat, hindex, hbeat'⟩
  · have hnewer := hfresh.1 c rfl
    rw [hfresh.2]
    rcases hheld with hlater | ⟨hme, _⟩
    · exact .inl (Nat.lt_trans hlater hnewer)
    · exact .inl (hme.1 ▸ hnewer)
  · obtain ⟨_, heq, _, _, hr'⟩ := hagain
    obtain rfl := Option.some.inj heq
    rw [hr']
    exact hheld
  · obtain ⟨_, heq, hgeneration, hpid, hrgen, hrpid, hrepoch, hmax⟩ := hbeat'
    obtain rfl := Option.some.inj heq
    rcases hheld with hlater | ⟨hme, hcepoch, hseq⟩
    · exact .inl (hrgen ▸ hlater)
    · have hof := hepoch beat hbeat hindex (hgeneration.trans hme.1) (hpid.trans hme.2) ⟨c, hc, hme⟩
      exact .inr ⟨⟨hrgen.trans hme.1, hrpid.trans hme.2⟩, hrepoch.trans hof,
        Nat.le_trans hseq (hmax (hof.trans hcepoch.symm))⟩

/-- Where the acknowledgement is kept throughout, no heartbeat of another epoch was taken. -/
theorem along_of_kept (deliveries : List (Int × Message))
    (h : ∀ before rest, deliveries = before ++ rest → KeepsAck me epoch seq (run deliver cp before)) :
    Along deliver (OfEpoch me epoch) cp deliveries := by
  induction deliveries generalizing cp with
  | nil => trivial
  | cons delivery rest ih =>
    refine ⟨?_, ih fun before rest' hsplit => h (delivery :: before) rest' (by rw [hsplit]; rfl)⟩
    rintro beat hbeat hindex hgeneration hpid ⟨c, hc, hme⟩
    obtain ⟨r, hr, htaken⟩ := take_beat delivery.1 (hindex ▸ hc) (hme.1.trans hgeneration.symm) (hme.2.trans hpid.symm)
    obtain ⟨_, heq, _, _, hrgen, hrpid, hrepoch, _⟩ := htaken
    obtain rfl := Option.some.inj heq
    have hkept := h [delivery] rest rfl r (by rw [← hindex, ← hr, ← hbeat]; rfl) ⟨hrgen.trans hme.1, hrpid.trans hme.2⟩
    exact hrepoch.symm.trans hkept.1

/-- **Main theorem.** An acknowledgement of the current epoch is never taken back, whatever is delivered and in whatever
order, if and only if no heartbeat that the data plane sent in another epoch comes after it. -/
theorem ack_kept_iff {r : DataPlaneRecord} (hr : cp.records.get? me.dpIndex = some r) (hme : r.IsOf me)
    (hepoch : r.lastAppliedEpoch = some cp.epoch) (deliveries : List (Int × Message)) :
    (∀ before rest, deliveries = before ++ rest →
        KeepsAck me cp.epoch r.lastAppliedSeq (run deliver cp before)) ↔
      Along deliver (OfEpoch me cp.epoch) cp deliveries := by
  refine ⟨along_of_kept deliveries, fun halong before rest hsplit => ?_⟩
  have hheld : Held me cp.epoch r.lastAppliedSeq cp := ⟨r, hr, .inr ⟨hme, hepoch, Nat.le_refl _⟩⟩
  subst hsplit
  exact (along_invariant hheld (fun _ _ h hrule => h.deliver hrule) before (along_left before halong)).keepsAck

/-- A control plane of epoch 2 which has a record of one data plane. -/
def recorded : ControlPlane where
  epoch := 2
  workers := []
  records := (∅ : Dict Nat DataPlaneRecord).set 0 ⟨1, 100, 7, some 2, true, 0⟩

/-- A re-registration, a replay of the current epoch, and a heartbeat of another data plane. -/
def replays : List (Int × Message) :=
  [(5, .hello ⟨0, 1, 100⟩), (6, .beat ⟨0, 1, 100, 3, some 2, true⟩), (7, .beat ⟨1, 1, 101, 9, some 1, true⟩)]

theorem ack_kept_iff_replays :
    Along deliver (OfEpoch ⟨0, 1, 100⟩ recorded.epoch) recorded replays ∧
      ∀ before rest, replays = before ++ rest →
        KeepsAck ⟨0, 1, 100⟩ recorded.epoch 7 (run deliver recorded before) := by
  have hrule : Along deliver (OfEpoch ⟨0, 1, 100⟩ recorded.epoch) recorded replays := by
    refine ⟨(fun _ h => nomatch h), fun beat hbeat _ _ _ _ => ?_, fun beat hbeat hindex _ _ _ => ?_, trivial⟩
    · obtain rfl := Message.beat.inj hbeat
      rfl
    · obtain rfl := Message.beat.inj hbeat
      exact nomatch hindex
  exact ⟨hrule, (@ack_kept_iff ⟨0, 1, 100⟩ recorded ⟨1, 100, 7, some 2, true, 0⟩ rfl ⟨rfl, rfl⟩ rfl _).mpr hrule⟩

/-! ### A heartbeat that comes late -/

namespace System

/-- A data plane reports in one epoch; the control plane is started again, and the data plane moves on and reports
again. Its second report comes first. -/
def movingOn : List Event :=
  [.controlPlaneStarts 1 [swapped], .publish true, .dataPlaneStarts 0 100, .poll 0, .apply 0, .sendHello 0,
   .sendBeat 0 true, .controlPlaneExits, .controlPlaneStarts 2 [swapped], .publish true, .poll 0, .apply 0,
   .sendBeat 0 true, .deliver (.hello ⟨0, 1, 100⟩), .deliver (.beat ⟨0, 1, 100, 1, some 2, true⟩)]

/-- The report of the old epoch takes the acknowledgement back. -/
theorem late_beat_takes_back :
    ∃ cp r cp', (run step {} movingOn).controlPlane = some cp ∧ cp.records.get? 0 = some r ∧ r.IsOf ⟨0, 1, 100⟩ ∧
      r.lastAppliedEpoch = some cp.epoch ∧
      (run step {} (movingOn ++ [.deliver (.beat ⟨0, 1, 100, 1, some 1, true⟩)])).controlPlane = some cp' ∧
      cp'.epoch = cp.epoch ∧ ¬KeepsAck ⟨0, 1, 100⟩ cp.epoch r.lastAppliedSeq cp' := by
  refine ⟨_, ⟨1, 100, 1, some 2, true, 0⟩, _, rfl, rfl, by decide, rfl, rfl, rfl, fun h => ?_⟩
  exact absurd (h ⟨1, 100, 1, some 1, true, 0⟩ rfl (by decide)).1 (by decide)

end System

end SglangOmni.Router
