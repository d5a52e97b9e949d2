import Mathlib.Data.List.Basic
import Mathlib.Logic.Function.Iterate
import Mathlib.Tactic.Common

/-! A device stream that copies into host buffers.

Copies and event records are put on the stream, and the device carries them out at some later time. A buffer and its
event have one number. What a program may count on are the laws of `Device`: nothing that the device does by itself
changes what the buffers will hold in the end (`settled_tick`). A record covers every copy before it (`covered_record`),
and once the event of a covered buffer has fired no copy into the buffer is in flight (`idle_of_fired`) and the buffer
holds what it will hold in the end (`host_eq_settled`). A queue that is carried out in order obeys the laws
(`DeviceQueue`). -/
namespace SglangOmni.Lib

/-- What stands on the stream. -/
inductive StreamOp (α : Type) where
  | copy (k : Nat) (data : List α)
  | record (k : Nat)

namespace StreamOp
variable {α : Type} {op : StreamOp α} {k : Nat}

/-- The buffer of an operation. -/
def target : StreamOp α → Nat
  | .copy k _ => k
  | .record k => k

def isRecord (k : Nat) : StreamOp α → Bool
  | .copy _ _ => false
  | .record j => j == k

def isCopy (k : Nat) : StreamOp α → Bool
  | .copy j _ => j == k
  | .record _ => false

/-- The host buffers after an operation; a copy leaves what is behind its data. -/
def perform (host : Nat → List α) : StreamOp α → Nat → List α
  | .copy k data => fun j => if j = k then data ++ (host k).drop data.length else host j
  | .record _ => host

theorem isCopy_of_ne (h : op.target ≠ k) : op.isCopy k = false := by
  cases op with
  | copy j data => exact beq_eq_false_iff_ne.mpr h
  | record j => rfl

theorem perform_of_ne (h : op.target ≠ k) (host : Nat → List α) : perform host op k = host k := by
  cases op with
  | copy j data => exact if_neg (Ne.symm h)
  | record j => rfl

end StreamOp

open StreamOp

/-- A device with a stream into buffers of `α`, and what may be counted on. -/
class Device (α : Type) where
  State : Type
  empty : State
  enqueue : State → StreamOp α → State
  /-- The device goes on by itself. -/
  tick : State → State
  /-- The event has fired. -/
  fired : State → Nat → Bool
  /-- How long the device goes on until the event has fired. -/
  ahead : State → Nat → Nat
  host : State → Nat → List α
  /-- The buffers when everything on the stream is done. -/
  settled : State → Nat → List α
  /-- No copy into the buffer is in flight. -/
  Idle : State → Nat → Prop
  /-- A record of its event stands behind every copy into the buffer. -/
  Covered : State → Nat → Prop
  idle_empty : ∀ k, Idle empty k
  covered_empty : ∀ k, Covered empty k
  settled_tick : ∀ d, settled (tick d) = settled d
  idle_tick : ∀ {d k}, Idle d k → Idle (tick d) k
  covered_tick : ∀ {d k}, Covered d k → Covered (tick d) k
  fired_ahead : ∀ d k, fired (tick^[ahead d k] d) k = true
  idle_of_fired : ∀ {d k}, Covered d k → fired d k = true → Idle d k
  host_eq_settled : ∀ {d k}, Idle d k → host d k = settled d k
  settled_enqueue : ∀ d op, settled (enqueue d op) = perform (settled d) op
  idle_enqueue : ∀ {d k op}, Idle d k → op.isCopy k = false → Idle (enqueue d op) k
  covered_enqueue : ∀ {d k op}, Covered d k → op.isCopy k = false → Covered (enqueue d op) k
  covered_record : ∀ d k, Covered (enqueue d (.record k)) k

namespace Device
variable {α : Type} [Device α] {d : State α} {k : Nat}

attribute [simp] settled_tick settled_enqueue

def advance (d : State α) (n : Nat) : State α := tick^[n] d

/-- The device goes on until the event has fired. -/
def synchronize (d : State α) (k : Nat) : State α := advance d (ahead d k)

@[simp] theorem settled_advance (d : State α) (n : Nat) : settled (advance d n) = settled d := by
  induction n generalizing d with
  | zero => rfl
  | succ n ih => exact (ih (tick d)).trans (settled_tick d)

theorem Idle.advance (h : Idle d k) (n : Nat) : Idle (advance d n) k := by
  induction n generalizing d with
  | zero => exact h
  | succ n ih => exact ih (idle_tick h)

theorem Covered.advance (h : Covered d k) (n : Nat) : Covered (advance d n) k := by
  induction n generalizing d with
  | zero => exact h
  | succ n ih => exact ih (covered_tick h)

theorem fired_synchronize (d : State α) (k : Nat) : fired (synchronize d k) k = true := fired_ahead d k

theorem settled_enqueue_copy (d : State α) (k : Nat) (data : List α) :
    (settled (enqueue d (.copy k data)) k).take data.length = data := by
  simp [perform]

end Device

/-! ### The queue -/

/-- The operations that wait, in the order they are carried out. -/
structure DeviceQueue (α : Type) where
  queue : List (StreamOp α)
  host : Nat → List α

namespace DeviceQueue
variable {α : Type} {q : List (StreamOp α)} {op : StreamOp α} {k : Nat}

def enqueue (d : DeviceQueue α) (op : StreamOp α) : DeviceQueue α := { d with queue := d.queue ++ [op] }

/-- The operation at the front is carried out. -/
def tick (d : DeviceQueue α) : DeviceQueue α :=
  match d.queue with
  | [] => d
  | op :: rest => ⟨rest, perform d.host op⟩

/-- None of its records is waiting. -/
def fired (d : DeviceQueue α) (k : Nat) : Bool := !d.queue.any (isRecord k)

/-- The operations that are carried out before an event has fired. -/
def ahead (k : Nat) : List (StreamOp α) → Nat
  | [] => 0
  | op :: rest => if (op :: rest).any (isRecord k) then ahead k rest + 1 else 0

def settled (d : DeviceQueue α) : Nat → List α := d.queue.foldl perform d.host

def Idle (d : DeviceQueue α) (k : Nat) : Prop := ∀ op ∈ d.queue, isCopy k op = false

def CoveredIn (k : Nat) : List (StreamOp α) → Prop
  | [] => True
  | op :: rest => (isCopy k op = true → rest.any (isRecord k) = true) ∧ CoveredIn k rest

def Covered (d : DeviceQueue α) (k : Nat) : Prop := CoveredIn k d.queue

variable {d : DeviceQueue α}

theorem settled_tick (d : DeviceQueue α) : d.tick.settled = d.settled := by
  unfold tick
  split
  · rfl
  · next op rest hq => simp only [settled, hq, List.foldl_cons]

theorem Idle.tick (h : d.Idle k) : d.tick.Idle k := by
  unfold DeviceQueue.tick
  split
  · exact h
  · next op rest hq =>
    intro op' hop
    exact h op' (hq ▸ List.mem_cons_of_mem _ hop)

theorem Covered.tick (h : d.Covered k) : d.tick.Covered k := by
  unfold DeviceQueue.tick
  split
  · exact h
  · next op rest hq =>
    have h : CoveredIn k d.queue := h
    rw [hq] at h
    exact h.2

theorem fired_ahead (q : List (StreamOp α)) (host : Nat → List α) (k : Nat) :
    (tick^[ahead k q] ⟨q, host⟩).fired k = true := by
  induction q generalizing host with
  | nil => rfl
  | cons op rest ih =>
    unfold ahead
    split
    · exact ih _
    · next h =>
      show (!(op :: rest).any (isRecord k)) = true
      rw [Bool.eq_false_iff.mpr h]
      rfl

theorem coveredIn_of_none (h : q.any (isRecord k) = false) (hc : CoveredIn k q) :
    ∀ op ∈ q, isCopy k op = false := by
  induction q with
  | nil => simp
  | cons op rest ih =>
    obtain ⟨hop, hrest⟩ := hc
    have hnone : rest.any (isRecord k) = false := by
      rw [List.any_cons, Bool.or_eq_false_iff] at h
      exact h.2
    intro op' hmem
    rcases List.mem_cons.mp hmem with rfl | hmem
    · cases hcopy : isCopy k op' with
      | false => rfl
      | true => exact absurd (hop hcopy) (by simp [hnone])
    · exact ih hnone hrest op' hmem

theorem foldl_perform_of_idle (h : ∀ op ∈ q, isCopy k op = false) (host : Nat → List α) :
    q.foldl perform host k = host k := by
  induction q generalizing host with
  | nil => rfl
  | cons op rest ih =>
    have hsame : perform host op k = host k := by
      cases op with
      | record j => rfl
      | copy j data =>
        have hne : j ≠ k := by simpa [isCopy] using h _ List.mem_cons_self
        exact if_neg (Ne.symm hne)
    rw [List.foldl_cons, ih (fun op' hop => h op' (List.mem_cons_of_mem _ hop)), hsame]

theorem Idle.enqueue (h : d.Idle k) (hop : isCopy k op = false) : (d.enqueue op).Idle k := by
  intro op' hmem
  rcases List.mem_append.mp hmem with hmem | hmem
  · exact h op' hmem
  · rw [List.mem_singleton.mp hmem]
    exact hop

theorem coveredIn_append (h : CoveredIn k q) (hop : isCopy k op = false) : CoveredIn k (q ++ [op]) := by
  induction q with
  | nil => exact ⟨fun hcopy => by simp [hop] at hcopy, trivial⟩
  | cons first rest ih =>
    refine ⟨fun hcopy => ?_, ih h.2⟩
    show (rest ++ [op]).any (isRecord k) = true
    rw [List.any_append, h.1 hcopy]
    rfl

theorem covered_record (d : DeviceQueue α) (k : Nat) : (d.enqueue (.record k)).Covered k := by
  show CoveredIn k (d.queue ++ [.record k])
  induction d.queue with
  | nil => exact ⟨fun hcopy => by simp [isCopy] at hcopy, trivial⟩
  | cons op rest ih =>
    refine ⟨fun _ => ?_, ih⟩
    simp [isRecord]

instance : Device α where
  State := DeviceQueue α
  empty := ⟨[], fun _ => []⟩
  enqueue := enqueue
  tick := tick
  fired := fired
  ahead d k := ahead k d.queue
  host := host
  settled := settled
  Idle := Idle
  Covered := Covered
  idle_empty _ op hop := by cases hop
  covered_empty _ := trivial
  settled_tick := settled_tick
  idle_tick := Idle.tick
  covered_tick := Covered.tick
  fired_ahead d k := fired_ahead d.queue d.host k
  idle_of_fired hc h := coveredIn_of_none (by simpa [fired] using h) hc
  host_eq_settled {d _} h := (foldl_perform_of_idle h d.host).symm
  settled_enqueue d op := by
    simp only [settled, enqueue, List.foldl_append, List.foldl_cons, List.foldl_nil]
  idle_enqueue := Idle.enqueue
  covered_enqueue := coveredIn_append
  covered_record := covered_record

end DeviceQueue

end SglangOmni.Lib
