import SglangOmni.Lib.History
import SglangOmni.Router.Snapshot
import Mathlib.Data.List.Induction

/-! The acknowledgement barrier of a weight update.

Data planes report which snapshot they applied by heartbeats that may be late, repeated or out of order; the control
plane keeps the last word of each and waits until all of them have applied the snapshot that disables the targets. The
supervisor starts a data plane again only after the one before was reaped, and a control plane with an epoch that was
never used.

What a generation of a data plane once applied stays a bound from below for everything that its slot shows from then
on (`Seen`), and no step takes it back. The barrier's safety follows from that alone. -/
namespace SglangOmni.Router
open Lib

/-! ### The internal channel -/

structure DataPlaneHello where
  dpIndex : Nat
  generation : Nat
  pid : Nat
  deriving DecidableEq

structure DataPlaneHeartbeat where
  dpIndex : Nat
  generation : Nat
  pid : Nat
  lastAppliedSeq : Nat := 0
  lastAppliedEpoch : Option Epoch := none
  serving : Bool := true
  deriving DecidableEq

structure DataPlaneRecord where
  generation : Nat
  pid : Nat
  lastAppliedSeq : Nat := 0
  lastAppliedEpoch : Option Epoch := none
  serving : Bool := true
  lastSeenAt : Int
  deriving DecidableEq

inductive ChannelError where
  | staleGeneration (got current : Nat)
  | unknownDataPlane (dpIndex : Nat)
  deriving DecidableEq

/-- `InternalChannelState.register`. -/
def register (records : Dict Nat DataPlaneRecord) (now : Int) (hello : DataPlaneHello) :
    Except ChannelError (Dict Nat DataPlaneRecord) :=
  match records.get? hello.dpIndex with
  | none => .ok (records.set hello.dpIndex { generation := hello.generation, pid := hello.pid, lastSeenAt := now })
  | some current =>
    if hello.generation < current.generation then .error (.staleGeneration hello.generation current.generation)
    else if hello.generation = current.generation ∧ hello.pid ≠ current.pid then
      .error (.staleGeneration hello.generation current.generation)
    else if hello.generation = current.generation ∧ hello.pid = current.pid then
      .ok (records.set hello.dpIndex { current with lastSeenAt := now })
    else .ok (records.set hello.dpIndex { generation := hello.generation, pid := hello.pid, lastSeenAt := now })

/-- `InternalChannelState.heartbeat`. -/
def heartbeat (records : Dict Nat DataPlaneRecord) (now : Int) (beat : DataPlaneHeartbeat) :
    Except ChannelError (Dict Nat DataPlaneRecord) :=
  match records.get? beat.dpIndex with
  | none => .error (.unknownDataPlane beat.dpIndex)
  | some current =>
    if beat.generation > current.generation then .error (.unknownDataPlane beat.dpIndex)
    else if beat.generation < current.generation ∨ beat.pid ≠ current.pid then
      .error (.staleGeneration beat.generation current.generation)
    else
      let appliedSeq :=
        if beat.lastAppliedEpoch = current.lastAppliedEpoch then max current.lastAppliedSeq beat.lastAppliedSeq
        else beat.lastAppliedSeq
      .ok (records.set beat.dpIndex
        { generation := beat.generation
          pid := beat.pid
          lastAppliedSeq := appliedSeq
          lastAppliedEpoch := beat.lastAppliedEpoch
          serving := beat.serving
          lastSeenAt := now })

/-! ### The system -/

structure DataPlane where
  generation : Nat
  pid : Nat
  reader : Option Snapshot := none
  /-- A snapshot was read and is not applied yet. -/
  reloaded : Bool := false
  view : DataPlaneWorkerView := {}

structure ControlPlane where
  epoch : Epoch
  seq : Nat := 0
  workers : List Worker
  records : Dict Nat DataPlaneRecord := ∅

inductive Message where
  | hello (hello : DataPlaneHello)
  | beat (beat : DataPlaneHeartbeat)
  deriving DecidableEq

structure System where
  controlPlane : Option ControlPlane := none
  file : Option Snapshot := none
  dataPlanes : Nat → Option DataPlane := fun _ => none
  /-- The generation that was last started in each slot. -/
  generations : Nat → Nat := fun _ => 0
  /-- Everything that was ever sent to a control plane: it may arrive at any time, and again. -/
  sent : List Message := []
  clock : Int := 0
  /-- The epochs that were ever drawn. -/
  epochs : List Epoch := []
  /-- History: the snapshots that were written, in their order. -/
  published : List Snapshot := []

inductive Event where
  /-- An admin call or a health result changes the registry. -/
  | change (workers : List Worker)
  /-- The number goes up even when the file could not be written. -/
  | publish (written : Bool)
  | poll (i : Nat)
  | apply (i : Nat)
  | sendHello (i : Nat)
  | sendBeat (i : Nat) (serving : Bool)
  | deliver (m : Message)
  | tick (now : Int)
  | dataPlaneExits (i : Nat)
  | dataPlaneStarts (i pid : Nat)
  | controlPlaneExits
  | controlPlaneStarts (epoch : Epoch) (workers : List Worker)

/-- The control plane takes a message; one that it refuses changes nothing. -/
def ControlPlane.take (cp : ControlPlane) (now : Int) (m : Message) : ControlPlane :=
  let outcome :=
    match m with
    | .hello hello => register cp.records now hello
    | .beat beat => heartbeat cp.records now beat
  match outcome with
  | .ok records => { cp with records }
  | .error _ => cp

/-- A poll of the file. -/
def DataPlane.poll (dp : DataPlane) (file : Snapshot) : DataPlane :=
  let reload := maybeReload dp.reader file
  { dp with reader := reload.1, reloaded := dp.reloaded || reload.2 }

/-- `view.apply(reader.snapshot)`, after a reload. -/
def DataPlane.apply (dp : DataPlane) : DataPlane :=
  match dp.reader with
  | some snapshot =>
    if dp.reloaded then { dp with view := dp.view.apply snapshot, reloaded := false } else dp
  | none => dp

def DataPlane.hello (dp : DataPlane) (i : Nat) : DataPlaneHello := ⟨i, dp.generation, dp.pid⟩

def DataPlane.beat (dp : DataPlane) (i : Nat) (serving : Bool) : DataPlaneHeartbeat :=
  ⟨i, dp.generation, dp.pid, dp.view.lastAppliedSeq, dp.view.lastAppliedEpoch, serving⟩

def ControlPlane.snapshot (cp : ControlPlane) : Snapshot := ⟨cp.seq + 1, cp.epoch, snapshotWorkers cp.workers⟩

/-- The data plane has applied a snapshot of the epoch, of this number or a later one. -/
def DataPlane.HasApplied (dp : DataPlane) (epoch : Epoch) (seq : Nat) : Prop :=
  dp.view.lastAppliedEpoch = some epoch ∧ seq ≤ dp.view.lastAppliedSeq

namespace System

def setDataPlane (σ : System) (i : Nat) (dp : Option DataPlane) : System :=
  { σ with dataPlanes := Function.update σ.dataPlanes i dp }

def step (σ : System) : Event → System
  | .change workers =>
    match σ.controlPlane with
    | some cp => { σ with controlPlane := some { cp with workers } }
    | none => σ
  | .publish written =>
    match σ.controlPlane with
    | some cp =>
      let numbered := some { cp with seq := cp.seq + 1 }
      if written then
        { σ with controlPlane := numbered, file := some cp.snapshot, published := σ.published ++ [cp.snapshot] }
      else { σ with controlPlane := numbered }
    | none => σ
  | .poll i =>
    match σ.dataPlanes i, σ.file with
    | some dp, some file => σ.setDataPlane i (some (dp.poll file))
    | _, _ => σ
  | .apply i =>
    match σ.dataPlanes i with
    | some dp => σ.setDataPlane i (some dp.apply)
    | none => σ
  | .sendHello i =>
    match σ.dataPlanes i with
    | some dp => { σ with sent := .hello (dp.hello i) :: σ.sent }
    | none => σ
  | .sendBeat i serving =>
    match σ.dataPlanes i with
    | some dp => { σ with sent := .beat (dp.beat i serving) :: σ.sent }
    | none => σ
  | .deliver m =>
    match σ.controlPlane with
    | some cp => if m ∈ σ.sent then { σ with controlPlane := some (cp.take σ.clock m) } else σ
    | none => σ
  | .tick now => { σ with clock := now }
  | .dataPlaneExits i => σ.setDataPlane i none
  | .dataPlaneStarts i pid =>
    match σ.dataPlanes i with
    | some _ => σ
    | none =>
      { σ.setDataPlane i (some { generation := σ.generations i + 1, pid }) with
        generations := Function.update σ.generations i (σ.generations i + 1) }
  | .controlPlaneExits => { σ with controlPlane := none }
  | .controlPlaneStarts epoch workers =>
    match σ.controlPlane with
    | some _ => σ
    | none =>
      if epoch ∈ σ.epochs then σ
      else { σ with controlPlane := some { epoch, workers }, epochs := epoch :: σ.epochs }

/-- The moves of the system, each with what has to be there for it. -/
inductive Fires (σ : System) : Event → System → Prop where
  | change (workers : List Worker) (cp : ControlPlane) (up : σ.controlPlane = some cp) :
    Fires σ (.change workers) { σ with controlPlane := some { cp with workers } }
  | publish (cp : ControlPlane) (up : σ.controlPlane = some cp) :
    Fires σ (.publish true)
      { σ with
        controlPlane := some { cp with seq := cp.seq + 1 }
        file := some cp.snapshot
        published := σ.published ++ [cp.snapshot] }
  | publishFails (cp : ControlPlane) (up : σ.controlPlane = some cp) :
    Fires σ (.publish false) { σ with controlPlane := some { cp with seq := cp.seq + 1 } }
  | poll (i : Nat) (dp : DataPlane) (file : Snapshot) (runs : σ.dataPlanes i = some dp) (there : σ.file = some file) :
    Fires σ (.poll i) (σ.setDataPlane i (some (dp.poll file)))
  | apply (i : Nat) (dp : DataPlane) (runs : σ.dataPlanes i = some dp) :
    Fires σ (.apply i) (σ.setDataPlane i (some dp.apply))
  | sendHello (i : Nat) (dp : DataPlane) (runs : σ.dataPlanes i = some dp) :
    Fires σ (.sendHello i) { σ with sent := .hello (dp.hello i) :: σ.sent }
  | sendBeat (i : Nat) (serving : Bool) (dp : DataPlane) (runs : σ.dataPlanes i = some dp) :
    Fires σ (.sendBeat i serving) { σ with sent := .beat (dp.beat i serving) :: σ.sent }
  | deliver (m : Message) (cp : ControlPlane) (up : σ.controlPlane = some cp) (sent : m ∈ σ.sent) :
    Fires σ (.deliver m) { σ with controlPlane := some (cp.take σ.clock m) }
  | tick (now : Int) : Fires σ (.tick now) { σ with clock := now }
  | dataPlaneExits (i : Nat) : Fires σ (.dataPlaneExits i) (σ.setDataPlane i none)
  | dataPlaneStarts (i pid : Nat) (reaped : σ.dataPlanes i = none) :
    Fires σ (.dataPlaneStarts i pid)
      { σ.setDataPlane i (some { generation := σ.generations i + 1, pid }) with
        generations := Function.update σ.generations i (σ.generations i + 1) }
  | controlPlaneExits : Fires σ .controlPlaneExits { σ with controlPlane := none }
  | controlPlaneStarts (epoch : Epoch) (workers : List Worker) (down : σ.controlPlane = none)
      (fresh : epoch ∉ σ.epochs) :
    Fires σ (.controlPlaneStarts epoch workers)
      { σ with controlPlane := some { epoch, workers }, epochs := epoch :: σ.epochs }

/-- An event does one of the moves, or nothing. -/
theorem step_rule {σ : System} {e : Event} {P : System → Prop} (same : P σ) (fires : ∀ τ, Fires σ e τ → P τ) :
    P (σ.step e) := by
  cases e with
  | change workers =>
    simp only [step]
    split
    · next cp hcp => exact fires _ (.change workers cp hcp)
    · exact same
  | publish written =>
    simp only [step]
    split
    · next cp hcp =>
      cases written with
      | true => exact fires _ (.publish cp hcp)
      | false => exact fires _ (.publishFails cp hcp)
    · exact same
  | poll i =>
    simp only [step]
    split
    · next dp file hdp hfile => exact fires _ (.poll i dp file hdp hfile)
    · exact same
  | apply i =>
    simp only [step]
    split
    · next dp hdp => exact fires _ (.apply i dp hdp)
    · exact same
  | sendHello i =>
    simp only [step]
    split
    · next dp hdp => exact fires _ (.sendHello i dp hdp)
    · exact same
  | sendBeat i serving =>
    simp only [step]
    split
    · next dp hdp => exact fires _ (.sendBeat i serving dp hdp)
    · exact same
  | deliver m =>
    simp only [step]
    split
    · next cp hcp =>
      split
      · next hm => exact fires _ (.deliver m cp hcp hm)
      · exact same
    · exact same
  | tick now => exact fires _ (.tick now)
  | dataPlaneExits i => exact fires _ (.dataPlaneExits i)
  | dataPlaneStarts i pid =>
    simp only [step]
    split
    · exact same
    · next hnone => exact fires _ (.dataPlaneStarts i pid hnone)
  | controlPlaneExits => exact fires _ .controlPlaneExits
  | controlPlaneStarts epoch workers =>
    simp only [step]
    split
    · exact same
    · next hnone =>
      split
      · exact same
      · next hfresh => exact fires _ (.controlPlaneStarts epoch workers hnone hfresh)

end System

/-! ### The barrier -/

/-- Whether a record counts as live. -/
def DataPlaneRecord.isLive (r : DataPlaneRecord) (liveness now : Int) : Bool := now - r.lastSeenAt ≤ liveness

/-- The data planes that one round of `dp_snapshot_ack_barrier` is still waiting for. -/
def ControlPlane.pending (cp : ControlPlane) (expected : Option Nat) (targetSeq : Nat) (liveness now : Int) :
    List Nat :=
  let live := cp.records.entries.filter fun e => e.2.isLive liveness now
  let behind := live.filter fun e => e.2.lastAppliedEpoch ≠ some cp.epoch ∨ e.2.lastAppliedSeq < targetSeq
  let expectedIndices :=
    match expected with
    | some n => List.range n
    | none => cp.records.keys
  behind.map Prod.fst ++ expectedIndices.filter fun i => live.all fun e => e.1 ≠ i

/-- A data plane that nobody waits for has acknowledged: its record is of this epoch, and not older than the target. -/
theorem ControlPlane.acknowledged {cp : ControlPlane} {n targetSeq : Nat} {liveness now : Int}
    (h : cp.pending (some n) targetSeq liveness now = []) {i : Nat} (hi : i < n) :
    ∃ r, cp.records.get? i = some r ∧ r.lastAppliedEpoch = some cp.epoch ∧ targetSeq ≤ r.lastAppliedSeq := by
  simp only [pending, List.append_eq_nil_iff, List.map_eq_nil_iff, List.filter_eq_nil_iff] at h
  obtain ⟨hbehind, hexpected⟩ := h
  have hlive := hexpected i (List.mem_range.mpr hi)
  simp only [List.all_eq_true, not_forall] at hlive
  obtain ⟨⟨j, r⟩, hmem, hji⟩ := hlive
  have hj : j = i := by simpa using hji
  subst hj
  have hacked := hbehind (j, r) hmem
  simp only [decide_eq_true_eq, not_or, not_not, Nat.not_lt] at hacked
  exact ⟨r, (Dict.mem_entries _ _ _).mp (List.mem_of_mem_filter hmem), hacked.1, hacked.2⟩

/-! ### What was written -/

namespace System

/-- The file is the snapshot that was written last. Within an epoch the numbers go up, and nothing is written in an
epoch once a later one has begun. -/
structure History (σ : System) : Prop where
  file : σ.file = σ.published.getLast?
  drawn : ∀ snapshot ∈ σ.published, snapshot.epoch ∈ σ.epochs
  increasing : ∀ (p q : Nat) (a b : Snapshot), p < q → σ.published[p]? = some a → σ.published[q]? = some b →
    a.epoch = b.epoch → a.seq < b.seq
  currentDrawn : ∀ cp, σ.controlPlane = some cp → cp.epoch ∈ σ.epochs
  currentLast : ∀ (cp : ControlPlane) (p q : Nat) (a b : Snapshot), σ.controlPlane = some cp → p ≤ q →
    σ.published[p]? = some a → σ.published[q]? = some b → a.epoch = cp.epoch → b.epoch = cp.epoch
  numbered : ∀ cp, σ.controlPlane = some cp → ∀ snapshot ∈ σ.published, snapshot.epoch = cp.epoch →
    snapshot.seq ≤ cp.seq

variable {σ : System} {p : Nat} {cp : ControlPlane} {epoch : Epoch}

/-- The same history. -/
theorem History.of_eq {τ : System} (h : History σ) (file : τ.file = σ.file) (epochs : τ.epochs = σ.epochs)
    (published : τ.published = σ.published)
    (cp : ∀ c, τ.controlPlane = some c → ∃ d, σ.controlPlane = some d ∧ d.epoch = c.epoch ∧ d.seq ≤ c.seq) :
    History τ where
  file := by rw [file, published, h.file]
  drawn := by
    rw [published, epochs]
    exact h.drawn
  increasing := by
    rw [published]
    exact h.increasing
  currentDrawn c hc := by
    obtain ⟨d, hd, hepoch, _⟩ := cp c hc
    rw [epochs, ← hepoch]
    exact h.currentDrawn d hd
  currentLast c p q a b hc := by
    obtain ⟨d, hd, hepoch, _⟩ := cp c hc
    rw [published, ← hepoch]
    exact h.currentLast d p q a b hd
  numbered c hc snapshot hs he := by
    obtain ⟨d, hd, hepoch, hseq⟩ := cp c hc
    rw [published] at hs
    exact Nat.le_trans (h.numbered d hd snapshot hs (he.trans hepoch.symm)) hseq

theorem getElem?_concat {l : List Snapshot} {x a : Snapshot} (h : (l ++ [x])[p]? = some a) :
    l[p]? = some a ∨ p = l.length ∧ a = x := by
  rw [List.getElem?_append] at h
  split at h
  · exact .inl h
  · next hlt =>
    have hp : p - l.length = 0 := by
      by_contra hne
      rw [List.getElem?_eq_none (by simp; omega)] at h
      cases h
    rw [hp] at h
    cases h
    exact .inr ⟨by omega, rfl⟩

theorem History.publish (h : History σ) (hcp : σ.controlPlane = some cp) :
    History { σ with
      controlPlane := some { cp with seq := cp.seq + 1 }
      file := some cp.snapshot
      published := σ.published ++ [cp.snapshot] } where
  file := by simp
  drawn snapshot hs := by
    cases List.mem_append.mp hs with
    | inl hs => exact h.drawn snapshot hs
    | inr hs =>
      rw [List.mem_singleton.mp hs]
      exact h.currentDrawn cp hcp
  increasing p q a b hpq ha hb he := by
    have hnew : ∀ a : Snapshot, a ∈ σ.published → a.epoch = cp.epoch → a.seq < cp.seq + 1 := fun a ha he =>
      Nat.lt_succ_of_le (h.numbered cp hcp a ha he)
    cases getElem?_concat ha with
    | inl ha =>
      cases getElem?_concat hb with
      | inl hb => exact h.increasing p q a b hpq ha hb he
      | inr hb =>
        rw [hb.2] at he ⊢
        exact hnew a (List.mem_of_getElem? ha) he
    | inr ha =>
      have hq : q < (σ.published ++ [cp.snapshot]).length := (List.getElem?_eq_some_iff.mp hb).1
      rw [List.length_append, List.length_singleton] at hq
      omega
  currentDrawn c hc := by
    cases hc
    exact h.currentDrawn cp hcp
  currentLast c p q a b hc hpq ha hb he := by
    cases hc
    cases getElem?_concat hb with
    | inr hb =>
      rw [hb.2]
      rfl
    | inl hb =>
      cases getElem?_concat ha with
      | inl ha => exact h.currentLast cp p q a b hcp hpq ha hb he
      | inr ha =>
        have hq := (List.getElem?_eq_some_iff.mp hb).1
        omega
  numbered c hc snapshot hs he := by
    cases hc
    cases List.mem_append.mp hs with
    | inl hs => exact Nat.le_succ_of_le (h.numbered cp hcp snapshot hs he)
    | inr hs =>
      rw [List.mem_singleton.mp hs]
      exact Nat.le_refl _

/-- An epoch that was never drawn has no snapshot yet. -/
theorem History.starts (h : History σ) (workers : List Worker) (fresh : epoch ∉ σ.epochs) :
    History { σ with controlPlane := some { epoch, workers }, epochs := epoch :: σ.epochs } where
  file := h.file
  drawn snapshot hs := List.mem_cons_of_mem epoch (h.drawn snapshot hs)
  increasing := h.increasing
  currentDrawn c hc := by
    cases hc
    exact List.mem_cons_self
  currentLast c p q a b hc _ ha _ he := by
    cases hc
    have hdrawn := h.drawn a (List.mem_of_getElem? ha)
    rw [he] at hdrawn
    exact absurd hdrawn fresh
  numbered c hc snapshot hs he := by
    cases hc
    have hdrawn := h.drawn snapshot hs
    rw [he] at hdrawn
    exact absurd hdrawn fresh

theorem take_eq (cp : ControlPlane) (now : Int) (m : Message) :
    (cp.take now m).epoch = cp.epoch ∧ (cp.take now m).seq = cp.seq := by
  unfold ControlPlane.take
  simp only
  split <;> exact ⟨rfl, rfl⟩

theorem history_step (h : History σ) (e : Event) : History (σ.step e) := by
  refine step_rule h fun τ hf => ?_
  cases hf with
  | change workers cp hcp =>
    refine h.of_eq rfl rfl rfl fun c hc => ?_
    cases hc
    exact ⟨cp, hcp, rfl, Nat.le_refl _⟩
  | publish cp hcp => exact h.publish hcp
  | publishFails cp hcp =>
    refine h.of_eq rfl rfl rfl fun c hc => ?_
    cases hc
    exact ⟨cp, hcp, rfl, Nat.le_succ _⟩
  | deliver m cp hcp _ =>
    refine h.of_eq rfl rfl rfl fun c hc => ?_
    cases hc
    obtain ⟨hepoch, hseq⟩ := take_eq cp σ.clock m
    exact ⟨cp, hcp, hepoch.symm, Nat.le_of_eq hseq.symm⟩
  | controlPlaneExits =>
    refine h.of_eq rfl rfl rfl fun c hc => ?_
    cases hc
  | controlPlaneStarts epoch workers _ hfresh => exact h.starts workers hfresh
  | _ => exact h.of_eq rfl rfl rfl fun c hc => ⟨c, hc, rfl, Nat.le_refl _⟩

/-! ### What is read and shown -/

/-- The reader has nothing, or a snapshot from this position on. -/
def ReadFrom (published : List Snapshot) (p : Nat) (reader : Option Snapshot) : Prop :=
  ∀ snapshot, reader = some snapshot → ∃ q, p ≤ q ∧ published[q]? = some snapshot

/-- The view is blank, or it shows a snapshot from this position on. -/
def ShownFrom (published : List Snapshot) (p : Nat) (view : DataPlaneWorkerView) : Prop :=
  view.lastAppliedEpoch = none ∧ view.workers = ∅ ∨
    ∃ (q : Nat) (snapshot : Snapshot), p ≤ q ∧ published[q]? = some snapshot ∧ Shows view snapshot

variable {published : List Snapshot} {dp : DataPlane} {generation i : Nat}

theorem getElem?_extend {more : List Snapshot} {q : Nat} {snapshot : Snapshot}
    (h : published[q]? = some snapshot) : (published ++ more)[q]? = some snapshot := by
  rw [List.getElem?_append_left (List.getElem?_eq_some_iff.mp h).1, h]

theorem ReadFrom.extend {reader : Option Snapshot}
    (h : ReadFrom published p reader) (more : List Snapshot) : ReadFrom (published ++ more) p reader := by
  intro snapshot hs
  obtain ⟨q, hpq, hq⟩ := h snapshot hs
  exact ⟨q, hpq, getElem?_extend hq⟩

theorem ShownFrom.extend {view : DataPlaneWorkerView}
    (h : ShownFrom published p view) (more : List Snapshot) : ShownFrom (published ++ more) p view := by
  cases h with
  | inl hblank => exact .inl hblank
  | inr hshown =>
    obtain ⟨q, snapshot, hpq, hq, hshows⟩ := hshown
    exact .inr ⟨q, snapshot, hpq, getElem?_extend hq, hshows⟩

theorem ShownFrom.keyed {view : DataPlaneWorkerView} (h : ShownFrom published p view) : KeyedByUrl view.workers := by
  cases h with
  | inl hblank =>
    rw [hblank.2]
    intro url w hw
    cases hw
  | inr hshown =>
    obtain ⟨_, _, _, _, hshows⟩ := hshown
    exact hshows.keyed

/-- A poll reads what was written last, or keeps what the reader has. -/
theorem readFrom_poll {file : Snapshot}
    (h : ReadFrom published p dp.reader) (hfile : published.getLast? = some file) (hp : p < published.length) :
    ReadFrom published p (dp.poll file).reader := by
  have hlast : ∃ q, p ≤ q ∧ published[q]? = some file :=
    ⟨published.length - 1, by omega, by rw [← List.getLast?_eq_getElem?, hfile]⟩
  simp only [DataPlane.poll, maybeReload]
  split
  · split
    · exact h
    · intro snapshot hs
      cases hs
      exact hlast
  · intro snapshot hs
    cases hs
    exact hlast

/-- What is applied is what the reader has. -/
theorem shownFrom_apply (read : ReadFrom published p dp.reader)
    (shown : ShownFrom published p dp.view) : ShownFrom published p dp.apply.view := by
  unfold DataPlane.apply
  split
  · next snapshot hreader =>
    split
    · obtain ⟨q, hpq, hq⟩ := read snapshot hreader
      exact .inr ⟨q, snapshot, hpq, hq, shows_apply shown.keyed snapshot⟩
    · exact shown
  · exact shown

theorem apply_reader (dp : DataPlane) : dp.apply.reader = dp.reader := by
  unfold DataPlane.apply
  split
  · split <;> rfl
  · rfl

theorem apply_generation (dp : DataPlane) : dp.apply.generation = dp.generation := by
  unfold DataPlane.apply
  split
  · split <;> rfl
  · rfl

theorem apply_nonblank (h : dp.view.lastAppliedEpoch ≠ none) :
    dp.apply.view.lastAppliedEpoch ≠ none := by
  unfold DataPlane.apply
  split
  · split
    · exact fun hn => nomatch hn
    · exact h
  · exact h

/-- Every data plane is of the generation that was started last, has read what was written, and shows nothing newer
than what it has read. -/
structure Plane (published : List Snapshot) (generation : Nat) (dp : DataPlane) : Prop where
  generation : dp.generation = generation
  read : ReadFrom published 0 dp.reader
  shown : dp.view.lastAppliedEpoch = none ∧ dp.view.workers = ∅ ∨
    ∃ (q : Nat) (snapshot : Snapshot), published[q]? = some snapshot ∧ Shows dp.view snapshot ∧
      ReadFrom published q dp.reader

theorem Plane.shownFrom (h : Plane published generation dp) : ShownFrom published 0 dp.view := by
  cases h.shown with
  | inl hblank => exact .inl hblank
  | inr hshown =>
    obtain ⟨q, snapshot, hq, hshows, _⟩ := hshown
    exact .inr ⟨q, snapshot, Nat.zero_le q, hq, hshows⟩

theorem Plane.extend (h : Plane published generation dp)
    (more : List Snapshot) : Plane (published ++ more) generation dp where
  generation := h.generation
  read := h.read.extend more
  shown := by
    cases h.shown with
    | inl hblank => exact .inl hblank
    | inr hshown =>
      obtain ⟨q, snapshot, hq, hshows, hread⟩ := hshown
      exact .inr ⟨q, snapshot, getElem?_extend hq, hshows, hread.extend more⟩

theorem Plane.poll {file : Snapshot} (h : Plane published generation dp) (hfile : published.getLast? = some file) :
    Plane published generation (dp.poll file) where
  generation := h.generation
  read := readFrom_poll h.read hfile (List.length_pos_of_mem (List.mem_of_getLast? hfile))
  shown := by
    cases h.shown with
    | inl hblank => exact .inl hblank
    | inr hshown =>
      obtain ⟨q, snapshot, hq, hshows, hread⟩ := hshown
      exact .inr ⟨q, snapshot, hq, hshows, readFrom_poll hread hfile (List.getElem?_eq_some_iff.mp hq).1⟩

theorem Plane.apply (h : Plane published generation dp) :
    Plane published generation dp.apply where
  generation := (apply_generation dp).trans h.generation
  read := by
    rw [apply_reader]
    exact h.read
  shown := by
    rw [apply_reader]
    unfold DataPlane.apply
    split
    · next snapshot hreader =>
      split
      · obtain ⟨q, _, hq⟩ := h.read snapshot hreader
        refine .inr ⟨q, snapshot, hq, shows_apply h.shownFrom.keyed snapshot, fun other hother => ?_⟩
        rw [hreader] at hother
        cases hother
        exact ⟨q, Nat.le_refl q, hq⟩
      · exact h.shown
    · exact h.shown

/-- Every running data plane is as it should be. -/
def Planes (σ : System) : Prop := ∀ i dp, σ.dataPlanes i = some dp → Plane σ.published (σ.generations i) dp

theorem planes_setDataPlane (h : Planes σ) {o : Option DataPlane}
    (own : ∀ dp, o = some dp → Plane σ.published (σ.generations i) dp) : Planes (σ.setDataPlane i o) := by
  intro j dp hj
  simp only [setDataPlane, Function.update_apply] at hj ⊢
  split at hj
  · next he =>
    rw [he]
    exact own dp hj
  · exact h j dp hj

theorem planes_step (history : History σ) (h : Planes σ) (e : Event) : Planes (σ.step e) := by
  refine step_rule h fun τ hf => ?_
  cases hf with
  | publish cp hcp => exact fun i dp hi => (h i dp hi).extend _
  | poll i dp file hdp hfile =>
    refine planes_setDataPlane h fun dp' hdp' => ?_
    cases hdp'
    exact (h i dp hdp).poll (history.file ▸ hfile)
  | apply i dp hdp =>
    refine planes_setDataPlane h fun dp' hdp' => ?_
    cases hdp'
    exact (h i dp hdp).apply
  | dataPlaneExits i =>
    refine planes_setDataPlane h fun dp hdp => ?_
    cases hdp
  | dataPlaneStarts i pid _ =>
    intro j dp hj
    simp only [setDataPlane, Function.update_apply] at hj ⊢
    split at hj
    · next he =>
      cases hj
      rw [if_pos he]
      exact ⟨rfl, (fun _ hs => by cases hs), .inl ⟨rfl, rfl⟩⟩
    · next he =>
      rw [if_neg he]
      exact h j dp hj
  | _ => exact h

/-! ### What was applied once -/

/-- What follows from a generation of a slot having applied the snapshot at a position: whatever runs in the slot has
read and shows nothing older, unless it is a later generation that has nothing yet. -/
structure Seen (σ : System) (i g p : Nat) : Prop where
  generation : g ≤ σ.generations i
  position : p < σ.published.length
  plane : ∀ dp, σ.dataPlanes i = some dp → ReadFrom σ.published p dp.reader ∧ ShownFrom σ.published p dp.view ∧
    (dp.generation = g → dp.view.lastAppliedEpoch ≠ none)

variable {g : Nat}

theorem Seen.setDataPlane {j : Nat} (h : Seen σ i g p) {o : Option DataPlane}
    (own : i = j → ∀ dp, o = some dp → ReadFrom σ.published p dp.reader ∧ ShownFrom σ.published p dp.view ∧
      (dp.generation = g → dp.view.lastAppliedEpoch ≠ none)) : Seen (σ.setDataPlane j o) i g p where
  generation := h.generation
  position := h.position
  plane dp hdp := by
    simp only [System.setDataPlane, Function.update_apply] at hdp
    split at hdp
    · next he => exact own he dp hdp
    · exact h.plane dp hdp

/-- **No step takes back what was applied.** -/
theorem seen_step (history : History σ) (h : Seen σ i g p) (e : Event) :
    Seen (σ.step e) i g p := by
  refine step_rule (P := (Seen · i g p)) h fun τ hf => ?_
  cases hf with
  | publish cp hcp =>
    refine ⟨h.generation, ?_, fun dp hdp => ?_⟩
    · rw [List.length_append]
      exact Nat.lt_add_right _ h.position
    · obtain ⟨hread, hshown, happlied⟩ := h.plane dp hdp
      exact ⟨hread.extend _, hshown.extend _, happlied⟩
  | poll j dp file hdp hfile =>
    refine h.setDataPlane fun he dp' hdp' => ?_
    cases hdp'
    obtain ⟨hread, hshown, happlied⟩ := h.plane dp (he ▸ hdp)
    exact ⟨readFrom_poll hread (history.file ▸ hfile) h.position, hshown, happlied⟩
  | apply j dp hdp =>
    refine h.setDataPlane fun he dp' hdp' => ?_
    cases hdp'
    obtain ⟨hread, hshown, happlied⟩ := h.plane dp (he ▸ hdp)
    refine ⟨by rw [apply_reader]; exact hread, shownFrom_apply hread hshown, fun hg => ?_⟩
    exact apply_nonblank (happlied ((apply_generation dp).symm.trans hg))
  | dataPlaneExits j =>
    refine h.setDataPlane fun _ dp hdp => ?_
    cases hdp
  | dataPlaneStarts j pid _ =>
    have hle := h.generation
    refine ⟨?_, h.position, fun dp hdp => ?_⟩
    · simp only [Function.update_apply]
      split
      · next he => exact Nat.le_succ_of_le (he ▸ hle)
      · exact hle
    · simp only [System.setDataPlane, Function.update_apply] at hdp
      split at hdp
      · next he =>
        cases hdp
        refine ⟨(fun _ hs => by cases hs), .inl ⟨rfl, rfl⟩, fun hg => ?_⟩
        subst he
        simp only at hg
        omega
      · exact h.plane dp hdp
  | _ => exact ⟨h.generation, h.position, h.plane⟩

/-- What was written stays. -/
theorem published_step (σ : System) (e : Event) : σ.published <+: (σ.step e).published := by
  refine step_rule (P := (σ.published <+: ·.published)) List.prefix_rfl fun τ hf => ?_
  cases hf with
  | publish cp hcp => exact List.prefix_append _ _
  | _ => exact List.prefix_rfl

/-- A generation of a slot applied the snapshot of this epoch and number. -/
def Acked (σ : System) (i g : Nat) (epoch : Epoch) (seq : Nat) : Prop :=
  ∃ (p : Nat) (snapshot : Snapshot), σ.published[p]? = some snapshot ∧ snapshot.epoch = epoch ∧ snapshot.seq = seq ∧
    Seen σ i g p

theorem getElem?_prefix {l k : List Snapshot} (h : l <+: k) {snapshot : Snapshot}
    (hp : l[p]? = some snapshot) : k[p]? = some snapshot := by
  obtain ⟨more, rfl⟩ := h
  exact getElem?_extend hp

theorem acked_step (history : History σ) {seq : Nat}
    (h : Acked σ i g epoch seq) (e : Event) : Acked (σ.step e) i g epoch seq := by
  obtain ⟨p, snapshot, hp, hepoch, hseq, hseen⟩ := h
  exact ⟨p, snapshot, getElem?_prefix (published_step σ e) hp, hepoch, hseq, seen_step history hseen e⟩

/-- A data plane that says what it applied did apply it. -/
theorem acked_beat (planes : Planes σ) (hdp : σ.dataPlanes i = some dp) (h : dp.view.lastAppliedEpoch = some epoch) :
    Acked σ i dp.generation epoch dp.view.lastAppliedSeq := by
  have hplane := planes i dp hdp
  cases hplane.shown with
  | inl hblank =>
    rw [hblank.1] at h
    cases h
  | inr hshown =>
    obtain ⟨q, snapshot, hq, hshows, hread⟩ := hshown
    have hepoch : snapshot.epoch = epoch := Option.some.inj (hshows.epoch.symm.trans h)
    refine ⟨q, snapshot, hq, hepoch, hshows.seq.symm, Nat.le_of_eq hplane.generation,
      (List.getElem?_eq_some_iff.mp hq).1, fun other hother => ?_⟩
    rw [hdp] at hother
    cases hother
    exact ⟨hread, .inr ⟨q, snapshot, Nat.le_refl q, hq, hshows⟩, fun _ hn => by rw [h] at hn; cases hn⟩

/-! ### What the control plane is told -/

/-- Every heartbeat that was sent, and every record, tells what holds of the slot's generation. -/
structure Words (holds : Nat → Nat → Epoch → Nat → Prop) (σ : System) : Prop where
  beats : ∀ b, .beat b ∈ σ.sent → ∀ epoch, b.lastAppliedEpoch = some epoch →
    holds b.dpIndex b.generation epoch b.lastAppliedSeq
  records : ∀ cp i r epoch, σ.controlPlane = some cp → cp.records.get? i = some r → r.lastAppliedEpoch = some epoch →
    holds i r.generation epoch r.lastAppliedSeq

variable {r : DataPlaneRecord} {holds holds' : Nat → Nat → Epoch → Nat → Prop}

theorem words_initial : Words holds {} where
  beats _ hb := absurd hb List.not_mem_nil
  records _ _ _ _ hc := nomatch hc

/-- A registration keeps what was told, or forgets it. -/
theorem register_record {records records' : Dict Nat DataPlaneRecord} {now : Int} {hello : DataPlaneHello}
    (h : register records now hello = .ok records')
    (hr : records'.get? i = some r) (hepoch : r.lastAppliedEpoch = some epoch) :
    ∃ r', records.get? i = some r' ∧ r'.generation = r.generation ∧ r'.lastAppliedEpoch = some epoch ∧
      r'.lastAppliedSeq = r.lastAppliedSeq := by
  have hother : ∀ {new : DataPlaneRecord}, (records.set hello.dpIndex new).get? i = some r → i ≠ hello.dpIndex →
      ∃ r', records.get? i = some r' ∧ r'.generation = r.generation ∧ r'.lastAppliedEpoch = some epoch ∧
        r'.lastAppliedSeq = r.lastAppliedSeq := fun hr hne =>
    ⟨r, (Dict.get?_set_ne _ _ hne).symm.trans hr, rfl, hepoch, rfl⟩
  unfold register at h
  split at h
  · cases h
    by_cases hi : i = hello.dpIndex
    · rw [hi, Dict.get?_set_self] at hr
      cases hr
      cases hepoch
    · exact hother hr hi
  · next current hcurrent =>
    split at h
    · cases h
    · split at h
      · cases h
      · split at h
        · cases h
          by_cases hi : i = hello.dpIndex
          · rw [hi, Dict.get?_set_self] at hr
            cases hr
            exact ⟨current, hi ▸ hcurrent, rfl, hepoch, rfl⟩
          · exact hother hr hi
        · cases h
          by_cases hi : i = hello.dpIndex
          · rw [hi, Dict.get?_set_self] at hr
            cases hr
            cases hepoch
          · exact hother hr hi

/-- What a record says after a heartbeat, the heartbeat or the record before it said. -/
theorem heartbeat_record {records records' : Dict Nat DataPlaneRecord} {now : Int} {beat : DataPlaneHeartbeat}
    (h : heartbeat records now beat = .ok records')
    (hr : records'.get? i = some r) (hepoch : r.lastAppliedEpoch = some epoch) :
    (i = beat.dpIndex ∧ r.generation = beat.generation ∧ beat.lastAppliedEpoch = some epoch ∧
        beat.lastAppliedSeq = r.lastAppliedSeq) ∨
      ∃ r', records.get? i = some r' ∧ r'.generation = r.generation ∧ r'.lastAppliedEpoch = some epoch ∧
        r'.lastAppliedSeq = r.lastAppliedSeq := by
  unfold heartbeat at h
  split at h
  · cases h
  · next current hcurrent =>
    split at h
    · cases h
    · split at h
      · cases h
      · next hnewer hsame =>
        cases h
        by_cases hi : i = beat.dpIndex
        · rw [hi, Dict.get?_set_self] at hr
          cases hr
          by_cases heq : beat.lastAppliedEpoch = current.lastAppliedEpoch
          · have hgeneration : current.generation = beat.generation := by
              simp only [not_or] at hsame
              omega
            simp only [heq, if_true] at hepoch ⊢
            by_cases hle : current.lastAppliedSeq ≤ beat.lastAppliedSeq
            · exact .inl ⟨hi, trivial, hepoch, (Nat.max_eq_right hle).symm⟩
            · exact .inr ⟨current, hi ▸ hcurrent, hgeneration, hepoch, (Nat.max_eq_left (by omega)).symm⟩
          · simp only [heq, if_false]
            exact .inl ⟨hi, trivial, hepoch, trivial⟩
        · rw [Dict.get?_set_ne _ _ hi] at hr
          exact .inr ⟨r, hr, rfl, hepoch, rfl⟩

theorem take_record (words : Words holds σ) (hcp : σ.controlPlane = some cp) {now : Int} {m : Message} (hm : m ∈ σ.sent)
    (hr : (cp.take now m).records.get? i = some r) (hepoch : r.lastAppliedEpoch = some epoch) :
    holds i r.generation epoch r.lastAppliedSeq := by
  unfold ControlPlane.take at hr
  cases m with
  | hello hello =>
    simp only at hr
    split at hr
    · next records hrecords =>
      obtain ⟨r', hr', hgeneration, hepoch', hseq⟩ := register_record hrecords hr hepoch
      rw [← hgeneration, ← hseq]
      exact words.records cp i r' epoch hcp hr' hepoch'
    · exact words.records cp i r epoch hcp hr hepoch
  | beat beat =>
    simp only at hr
    split at hr
    · next records hrecords =>
      obtain ⟨rfl, hgeneration, hepoch', hseq⟩ | ⟨r', hr', hgeneration, hepoch', hseq⟩ :=
        heartbeat_record hrecords hr hepoch
      · rw [hgeneration, ← hseq]
        exact words.beats beat hm epoch hepoch'
      · rw [← hgeneration, ← hseq]
        exact words.records cp i r' epoch hcp hr' hepoch'
    · exact words.records cp i r epoch hcp hr hepoch

/-- What was true stays true; only new heartbeats and new records are looked at. -/
theorem words_step (h : Words holds σ) (e : Event)
    (keeps : ∀ {i g epoch seq}, holds i g epoch seq → holds' i g epoch seq)
    (tells : ∀ i dp epoch, σ.dataPlanes i = some dp → dp.view.lastAppliedEpoch = some epoch →
      holds' i dp.generation epoch dp.view.lastAppliedSeq) : Words holds' (σ.step e) := by
  obtain ⟨hbeats, hrecords⟩ := step_rule (e := e)
    (P := fun τ => (∀ b, .beat b ∈ τ.sent → .beat b ∈ σ.sent ∨
        ∃ i dp serving, σ.dataPlanes i = some dp ∧ b = dp.beat i serving) ∧
      ∀ cp i r epoch, τ.controlPlane = some cp → cp.records.get? i = some r →
        r.lastAppliedEpoch = some epoch → holds i r.generation epoch r.lastAppliedSeq)
    ⟨fun b hb => .inl hb, h.records⟩ fun τ hf => by
    cases hf with
    | change workers cp hcp | publish cp hcp | publishFails cp hcp =>
      refine ⟨fun b hb => .inl hb, fun c i r epoch hc => ?_⟩
      cases hc
      exact h.records cp i r epoch hcp
    | sendHello i dp _ =>
      refine ⟨fun b hb => ?_, h.records⟩
      cases List.mem_cons.mp hb with
      | inl he => cases he
      | inr hb => exact .inl hb
    | sendBeat i serving dp hdp =>
      refine ⟨fun b hb => ?_, h.records⟩
      cases List.mem_cons.mp hb with
      | inl he =>
        cases he
        exact .inr ⟨i, dp, serving, hdp, rfl⟩
      | inr hb => exact .inl hb
    | deliver m cp hcp hm =>
      refine ⟨fun b hb => .inl hb, fun c i r epoch hc hr hepoch => ?_⟩
      cases hc
      exact take_record h hcp hm hr hepoch
    | controlPlaneExits =>
      refine ⟨fun b hb => .inl hb, fun c i r epoch hc => ?_⟩
      cases hc
    | controlPlaneStarts epoch workers _ _ =>
      refine ⟨fun b hb => .inl hb, fun c i r epoch hc hr => ?_⟩
      cases hc
      cases hr
    | _ => exact ⟨fun b hb => .inl hb, h.records⟩
  refine ⟨fun b hb epoch hepoch => ?_, fun cp i r epoch hcp hr hepoch => keeps (hrecords cp i r epoch hcp hr hepoch)⟩
  cases hbeats b hb with
  | inl hold => exact keeps (h.beats b hold epoch hepoch)
  | inr hnew =>
    obtain ⟨i, dp, serving, hdp, rfl⟩ := hnew
    exact tells i dp epoch hdp hepoch

/-! ### Runs -/

structure Inv (σ : System) : Prop where
  history : History σ
  planes : Planes σ
  words : Words (Acked σ) σ

theorem inv_initial : Inv {} where
  history :=
    { file := rfl
      drawn := fun _ hs => absurd hs List.not_mem_nil
      increasing := fun _ _ _ _ _ ha => by cases ha
      currentDrawn := fun _ hc => nomatch hc
      currentLast := fun _ _ _ _ _ hc => nomatch hc
      numbered := fun _ hc => nomatch hc }
  planes _ _ hdp := nomatch hdp
  words := words_initial

theorem inv_step (σ : System) (e : Event) (h : Inv σ) : Inv (σ.step e) where
  history := history_step h.history e
  planes := planes_step h.history h.planes e
  words := words_step h.words e (acked_step h.history · e) fun _ _ _ hdp hepoch =>
    acked_step h.history (acked_beat h.planes hdp hepoch) e

theorem inv_run (events : List Event) : Inv (run step {} events) := run_invariant inv_initial inv_step events

/-- At some time of the run the slot's generation had applied the snapshot of this epoch and number last. -/
def AppliedDuring (events : List Event) (i g : Nat) (epoch : Epoch) (seq : Nat) : Prop :=
  ∃ past dp, past <+: events ∧ (run step {} past).dataPlanes i = some dp ∧ dp.generation = g ∧
    dp.view.lastAppliedEpoch = some epoch ∧ dp.view.lastAppliedSeq = seq

/-- A heartbeat speaks of the time when it was sent. -/
theorem words_run (events : List Event) : Words (AppliedDuring events) (run step {} events) := by
  induction events using List.reverseRecOn with
  | nil => exact words_initial
  | append_singleton events e ih =>
    have hbefore : events <+: events ++ [e] := List.prefix_append ..
    rw [run_concat]
    refine words_step ih e ?_ fun i dp epoch hdp hepoch => ⟨events, dp, hbefore, hdp, rfl, hepoch, rfl⟩
    rintro i g epoch seq ⟨past, dp, hpast, hdp⟩
    exact ⟨past, dp, hpast.trans hbefore, hdp⟩

/-- What was applied once is so after every run that goes on. -/
theorem seen_run (inv : Inv σ) (h : Seen σ i g p) (events : List Event) :
    Seen (run step σ events) i g p := by
  induction events generalizing σ with
  | nil => exact h
  | cons e rest ih => exact ih (inv_step σ e inv) (seen_step inv.history h e)

theorem published_run (σ : System) (events : List Event) : σ.published <+: (run step σ events).published := by
  induction events generalizing σ with
  | nil => exact List.prefix_rfl
  | cons e rest ih => exact (published_step σ e).trans (ih _)

/-! ### The barrier is safe -/

/-- From the first snapshot of this epoch and number on, every snapshot that was written has the worker disabled. -/
def DisabledSince (url : String) (epoch : Epoch) (seq : Nat) (published : List Snapshot) : Prop :=
  ∀ (p q : Nat) (a b : Snapshot), p ≤ q → published[p]? = some a → published[q]? = some b →
    a.epoch = epoch → seq ≤ a.seq → DisabledIn url b

/-- What a record of the current epoch says of whatever runs in the slot. -/
theorem acked_applied (inv : Inv σ) (hcp : σ.controlPlane = some cp) {seq target : Nat}
    (acked : Acked σ i g cp.epoch seq) (hle : target ≤ seq) (hdp : σ.dataPlanes i = some dp) :
    dp.HasApplied cp.epoch target ∨ g < dp.generation ∧ dp.view.lastAppliedEpoch = none := by
  obtain ⟨p, snapshot, hp, hepoch, hseq, hseen⟩ := acked
  obtain ⟨_, hshown, happlied⟩ := hseen.plane dp hdp
  have hgeneration := (inv.planes i dp hdp).generation
  cases hshown with
  | inl hblank =>
    have hne : dp.generation ≠ g := fun hg => happlied hg hblank.1
    have hg := hseen.generation
    exact .inr ⟨by omega, hblank.1⟩
  | inr hshown =>
    obtain ⟨q, shown, hpq, hq, hshows⟩ := hshown
    have hshownEpoch := inv.history.currentLast cp p q snapshot shown hcp hpq hp hq hepoch
    refine .inl ⟨hshownEpoch ▸ hshows.epoch, ?_⟩
    rw [hshows.seq]
    by_cases hlt : p < q
    · have := inv.history.increasing p q snapshot shown hlt hp hq (hepoch.trans hshownEpoch.symm)
      omega
    · have hpq' : p = q := by omega
      subst hpq'
      rw [hp] at hq
      cases hq
      omega

/-- **The barrier is safe.** When a round of it finds nobody to wait for, each slot has a record of a generation that
has applied the target or a later snapshot of this control plane, and what runs in the slot has done so too, or it was
started after that generation and has applied nothing at all. Whatever happens then, no data plane routes a request to a
worker that every snapshot since the target has disabled. -/
theorem barrier_safe (events : List Event) (n target : Nat) (liveness : Int) (cp : ControlPlane)
    (running : (run step {} events).controlPlane = some cp)
    (passed : cp.pending (some n) target liveness (run step {} events).clock = []) :
    (∀ i < n, ∃ r, cp.records.get? i = some r ∧ r.generation ≤ (run step {} events).generations i ∧
      (∃ past dp, past <+: events ∧ (run step {} past).dataPlanes i = some dp ∧ dp.generation = r.generation ∧
        dp.HasApplied cp.epoch target) ∧
      ∀ dp, (run step {} events).dataPlanes i = some dp →
        dp.HasApplied cp.epoch target ∨ r.generation < dp.generation ∧ dp.view.lastAppliedEpoch = none) ∧
    ∀ later url, DisabledSince url cp.epoch target (run step {} (events ++ later)).published →
      ∀ i < n, ∀ dp, (run step {} (events ++ later)).dataPlanes i = some dp →
        ∀ required model, ∀ w ∈ eligibleWorkers dp.view.list required model, w.url ≠ url := by
  have hinv := inv_run events
  have hacked : ∀ i < n, ∃ r, cp.records.get? i = some r ∧ r.lastAppliedEpoch = some cp.epoch ∧
      target ≤ r.lastAppliedSeq ∧ Acked (run step {} events) i r.generation cp.epoch r.lastAppliedSeq := fun i hi => by
    obtain ⟨r, hr, hepoch, hseq⟩ := cp.acknowledged passed hi
    exact ⟨r, hr, hepoch, hseq, hinv.words.records cp i r cp.epoch running hr hepoch⟩
  refine ⟨fun i hi => ?_, fun later url disabled i hi dp hdp required model w hw => ?_⟩
  · obtain ⟨r, hr, hepoch, hseq, hack⟩ := hacked i hi
    obtain ⟨past, dp, hpast, hdp, hgeneration, happlied, hlast⟩ :=
      (words_run events).records cp i r cp.epoch running hr hepoch
    refine ⟨r, hr, ?_, ⟨past, dp, hpast, hdp, hgeneration, happlied, hlast ▸ hseq⟩,
      fun dp hdp => acked_applied hinv running hack hseq hdp⟩
    obtain ⟨_, _, _, _, _, hseen⟩ := hack
    exact hseen.generation
  · obtain ⟨r, _, _, hseq, p, snapshot, hp, hepoch, hsnapshot, hseen⟩ := hacked i hi
    rw [run_append] at hdp disabled
    have hlater := seen_run hinv hseen later
    obtain ⟨_, hshown, _⟩ := hlater.plane dp hdp
    cases hshown with
    | inl hblank =>
      -- A view that is blank has no workers to choose from.
      have hnone : dp.view.list = [] := by
        rw [DataPlaneWorkerView.list, hblank.2]
        rfl
      have hmem := (mem_eligibleWorkers hw).1
      rw [hnone] at hmem
      cases hmem
    | inr hshown =>
      obtain ⟨q, shown, hpq, hq, hshows⟩ := hshown
      have hp' := getElem?_prefix (published_run (run step {} events) later) hp
      have hdisabled : DisabledIn url shown := disabled p q snapshot shown hpq hp' hq hepoch (by omega)
      exact hshows.not_eligible hdisabled hw

/-! ### A data plane that is replaced while the barrier waits -/

/-- The target of an update, as the control plane has it while the weights are swapped. -/
def swapped : Worker := { url := "http://w0", state := .healthy, disabled := true }

/-- One data plane registers, applies the snapshot and says so. -/
def acknowledging : List Event :=
  [.controlPlaneStarts 1 [swapped], .publish true, .dataPlaneStarts 0 100, .sendHello 0,
   .deliver (.hello ⟨0, 1, 100⟩), .poll 0, .apply 0, .sendBeat 0 true, .deliver (.beat ⟨0, 1, 100, 1, some 1, true⟩)]

theorem barrier_safe_acknowledged :
    ∃ cp, (run step {} acknowledging).controlPlane = some cp ∧
      cp.pending (some 1) 1 10 (run step {} acknowledging).clock = [] ∧
      (∃ dp, (run step {} acknowledging).dataPlanes 0 = some dp ∧ dp.HasApplied cp.epoch 1) ∧
      ∀ later, DisabledSince swapped.url cp.epoch 1 (run step {} (acknowledging ++ later)).published →
        ∀ dp, (run step {} (acknowledging ++ later)).dataPlanes 0 = some dp →
          ∀ w ∈ eligibleWorkers dp.view.list [] none, w.url ≠ swapped.url := by
  refine ⟨_, rfl, by decide, ⟨_, rfl, ?_⟩, fun later disabled dp hdp w hw => ?_⟩
  · obtain ⟨r, hr, _, _, happlied⟩ := (barrier_safe acknowledging 1 1 10 _ rfl (by decide)).1 0 (by decide)
    cases happlied _ rfl with
    | inl h => exact h
    | inr h => exact nomatch h.2
  · exact (barrier_safe acknowledging 1 1 10 _ rfl (by decide)).2 later swapped.url disabled 0
      (by decide) dp hdp [] none w hw

/-- Then it dies and is started again. -/
def replacing : List Event := acknowledging ++ [.dataPlaneExits 0, .dataPlaneStarts 0 101]

/-- The record of the generation that died lets the barrier pass, although the generation that took its place has
applied nothing. -/
theorem passed_by_predecessor :
    ∃ cp dp, (run step {} replacing).controlPlane = some cp ∧
      cp.pending (some 1) 1 10 (run step {} replacing).clock = [] ∧ (run step {} replacing).dataPlanes 0 = some dp ∧
      dp.generation = (run step {} replacing).generations 0 ∧ ¬ dp.HasApplied cp.epoch 1 :=
  ⟨_, _, rfl, by decide, rfl, rfl, fun h => nomatch h.1⟩

end System

end SglangOmni.Router
