import SglangOmni.Lib.History
import Mathlib.Algebra.BigOperators.Fin
import Mathlib.Algebra.Order.BigOperators.Group.Finset

/-! The rejections that the data planes have counted, as an aggregate read sees them.

Every data plane counts in a slot of its own, under a sequence number that is odd while the slot is written; a read
takes the number before and after and believes what it copied only if both are the same. When a data plane has died,
the supervisor moves its count to the retired slot, and keeps that slot's number odd until the slot of the dead one is
reset. An aggregate read goes through all the slots, while all of this goes on, and takes the number of the retired
slot before and after: what it saw is then worth what was there at its end, and nothing twice. Only the count of
rejections is kept here; the other fields of a slot are written with it. -/
namespace SglangOmni.Router.Totals
open Lib

variable {n : Nat}

/-! ### Slots -/

structure Cell where
  seq : Nat := 0
  rejected : Nat := 0
  deriving DecidableEq

/-- `seq | 1`. -/
def marker (seq : Nat) : Nat := 2 * (seq / 2) + 1

def Cell.mark (c : Cell) : Cell := { c with seq := marker c.seq }

def Cell.fill (c : Cell) (rejected : Nat) : Cell := { c with rejected }

/-- The number is odd when a write ends; its end is the next even one. -/
def Cell.finish (c : Cell) : Cell := { c with seq := c.seq + 1 }

def Cell.stable (c : Cell) : Bool := c.seq % 2 = 0

/-! ### Data planes and the supervisor -/

/-- A write of its slot that a data plane is in. -/
structure Write where
  /-- It counts one more rejection. -/
  reject : Bool
  filled : Bool := false
  deriving DecidableEq

structure Process where
  rejected : Nat := 0
  write : Option Write := none
  deriving DecidableEq

inductive Life where
  | vacant
  | running (p : Process)
  | dead
  deriving DecidableEq

/-- Where the supervisor is in `_fold_and_reclaim_slot`. -/
inductive Fold (n : Nat) where
  | idle
  /-- Both slots were read: `accumulated.rejected_total + view.rejected_total`. -/
  | read (i : Fin n) (total : Nat)
  | begun (i : Fin n) (total : Nat)
  | filled (i : Fin n)
  /-- `dying.reclaim()`, in a fold or without one. -/
  | resetting (i : Fin n) (fold cleared : Bool)
  | reset (i : Fin n)
  deriving DecidableEq

/-- The fold writes to no other slot. -/
def Fold.Near {n : Nat} (i : Fin n) : Fold n → Prop
  | .filled j | .resetting j _ _ => j = i
  | _ => True

/-! ### Readers -/

/-- One `SlotCodec.read`: the number before, and what was copied. -/
structure Sample where
  seqBefore : Nat
  copied : Option Nat := none
  deriving DecidableEq

/-- Where an aggregate read is: at the retired slot for its version (0), at slot `k - 1` (`k`), or at the retired slot
again (`n + 1`). History: how many rejections had been counted, and how many reads were over, when it began. -/
structure Reader (n : Nat) where
  position : Nat := 0
  version : Nat := 0
  seen : Fin n → Option Nat := fun _ => none
  sample : Option Sample := none
  start : Nat
  since : Nat

/-- History of an aggregate read that returned: what it returned, what had been counted when it began and when it
returned, and how many reads were over when it began. -/
structure Answer where
  rejectedTotal : Nat
  start : Nat
  counted : Nat
  since : Nat
  deriving DecidableEq

structure State (n : Nat) where
  cells : Fin n → Cell := fun _ => {}
  retired : Cell := {}
  lives : Fin n → Life := fun _ => .vacant
  fold : Fold n := .idle
  readers : Nat → Option (Reader n) := fun _ => none
  /-- History: the rejections whose write was begun, and those whose write is over. -/
  begun : Nat := 0
  counted : Nat := 0
  /-- History: a data plane died in the middle of a write. -/
  diedMidWrite : Bool := false
  answers : List Answer := []

inductive Event (n : Nat) where
  | spawn (i : Fin n)
  | mark (i : Fin n) (reject : Bool)
  | fill (i : Fin n)
  | finish (i : Fin n)
  | die (i : Fin n)
  | reap (i : Fin n)
  | advance
  | beginRead (k : Nat)
  | sample (k : Nat)
  /-- What is copied in the middle of a write may be anything. -/
  | copy (k : Nat) (torn : Nat)
  | confirm (k : Nat)
  | giveUp (k : Nat)

/-- An aggregate read moves. -/
def Event.reads : Event n → Bool
  | .beginRead _ | .sample _ | .copy _ _ | .confirm _ | .giveUp _ => true
  | _ => false

namespace State

def setCell (s : State n) (i : Fin n) (c : Cell) : State n := { s with cells := Function.update s.cells i c }

def setLife (s : State n) (i : Fin n) (l : Life) : State n := { s with lives := Function.update s.lives i l }

def setReader (s : State n) (k : Nat) (r : Option (Reader n)) : State n :=
  { s with readers := Function.update s.readers k r }

/-- The slot that a reader is at. -/
def cellAt (s : State n) (position : Nat) : Cell :=
  if h : 0 < position ∧ position ≤ n then s.cells ⟨position - 1, by omega⟩ else s.retired

/-- One step of `_fold_and_reclaim_slot`. -/
def advance (s : State n) : State n :=
  match s.fold with
  | .idle => s
  | .read i total => { s with retired := s.retired.mark, fold := .begun i total }
  | .begun i total => { s with retired := s.retired.fill total, fold := .filled i }
  | .filled i => { s.setCell i (s.cells i).mark with fold := .resetting i true false }
  | .resetting i fold false => { s.setCell i ((s.cells i).fill 0) with fold := .resetting i fold true }
  | .resetting i true true => { s.setCell i (s.cells i).finish with fold := .reset i }
  | .resetting i false true => { (s.setCell i (s.cells i).finish).setLife i .vacant with fold := .idle }
  | .reset i => { s.setLife i .vacant with retired := s.retired.finish, fold := .idle }

/-- A read of a slot has succeeded: the reader goes on to the next one, or is at the end of its round. -/
def accept (s : State n) (k : Nat) (r : Reader n) (seq value : Nat) : State n :=
  if h0 : r.position = 0 then
    s.setReader k (some { r with position := 1, version := seq, seen := fun _ => none, sample := none })
  else if h : r.position ≤ n then
    let seen := Function.update r.seen ⟨r.position - 1, by omega⟩ (some value)
    s.setReader k (some { r with position := r.position + 1, seen, sample := none })
  else if seq = r.version then
    let rejectedTotal := (∑ j, (r.seen j).getD 0) + value
    { s.setReader k none with answers := s.answers ++ [⟨rejectedTotal, r.start, s.counted, r.since⟩] }
  else s.setReader k (some { r with position := 0, sample := none })

def step (s : State n) : Event n → State n
  | .spawn i => if s.lives i = .vacant then s.setLife i (.running {}) else s
  | .mark i reject =>
    match s.lives i with
    | .running p =>
      if p.write = none then
        { (s.setCell i (s.cells i).mark).setLife i (.running ⟨p.rejected + reject.toNat, some ⟨reject, false⟩⟩) with
          begun := s.begun + reject.toNat }
      else s
    | _ => s
  | .fill i =>
    match s.lives i with
    | .running ⟨rejected, some ⟨reject, false⟩⟩ =>
      (s.setCell i ((s.cells i).fill rejected)).setLife i (.running ⟨rejected, some ⟨reject, true⟩⟩)
    | _ => s
  | .finish i =>
    match s.lives i with
    | .running ⟨rejected, some ⟨reject, true⟩⟩ =>
      { (s.setCell i (s.cells i).finish).setLife i (.running ⟨rejected, none⟩) with
        counted := s.counted + reject.toNat }
    | _ => s
  | .die i =>
    match s.lives i with
    | .running p => { s.setLife i .dead with diedMidWrite := s.diedMidWrite || p.write.isSome }
    | _ => s
  | .reap i =>
    if s.lives i = .dead ∧ s.fold = .idle then
      if (s.cells i).stable then { s with fold := .read i (s.retired.rejected + (s.cells i).rejected) }
      else { s.setCell i (s.cells i).mark with fold := .resetting i false false }
    else s
  | .advance => s.advance
  | .beginRead k =>
    match s.readers k with
    | some _ => s
    | none => s.setReader k (some { start := s.begun, since := s.answers.length })
  | .sample k =>
    match s.readers k with
    | some r =>
      let cell := s.cellAt r.position
      if cell.stable then s.setReader k (some { r with sample := some ⟨cell.seq, none⟩ }) else s
    | none => s
  | .copy k torn =>
    match s.readers k with
    | some r =>
      match r.sample with
      | some ⟨seqBefore, none⟩ =>
        let cell := s.cellAt r.position
        let copied := if cell.stable then cell.rejected else torn
        s.setReader k (some { r with sample := some ⟨seqBefore, some copied⟩ })
      | _ => s
    | none => s
  | .confirm k =>
    match s.readers k with
    | some r =>
      match r.sample with
      | some ⟨seqBefore, some copied⟩ =>
        if (s.cellAt r.position).seq = seqBefore then s.accept k r seqBefore copied
        else s.setReader k (some { r with sample := none })
      | _ => s
    | none => s
  | .giveUp k => s.setReader k none

/-- A data plane and the supervisor do not touch the readers. -/
theorem step_frame {s : State n} (e : Event n) (he : e.reads = false) :
    (s.step e).readers = s.readers ∧ (s.step e).answers = s.answers := by
  cases e with
  | spawn i | mark i reject | fill i | finish i | die i | reap i =>
    simp only [step]
    repeat' split
    all_goals exact ⟨rfl, rfl⟩
  | advance =>
    simp only [step, advance]
    split
    all_goals exact ⟨rfl, rfl⟩
  | beginRead k | sample k | copy k torn | confirm k | giveUp k => exact nomatch he

/-! ### What a slot is worth -/

/-- What the writes of a data plane that are over have counted, as long as it is not lost and not moved to the retired
slot. -/
def worth (s : State n) (j : Fin n) : Nat :=
  match s.lives j with
  | .vacant => 0
  | .running ⟨rejected, some ⟨true, _⟩⟩ => rejected - 1
  | .running p => p.rejected
  | .dead => if s.fold = .filled j then 0 else if (s.cells j).stable then (s.cells j).rejected else 0

/-- A rejection that is being written. -/
def inflight (s : State n) (j : Fin n) : Nat :=
  match s.lives j with
  | .running ⟨_, some ⟨true, _⟩⟩ => 1
  | _ => 0

/-- How a slot, its data plane and the supervisor stand to each other. -/
def Fits (s : State n) (j : Fin n) : Prop :=
  match s.lives j with
  | .vacant => (s.cells j).stable = true ∧ (s.cells j).rejected = 0
  | .running ⟨rejected, none⟩ => (s.cells j).stable = true ∧ (s.cells j).rejected = rejected
  | .running ⟨rejected, some ⟨reject, filled⟩⟩ =>
    (s.cells j).stable = false ∧ (filled = true → (s.cells j).rejected = rejected) ∧ reject.toNat ≤ rejected
  | .dead => s.diedMidWrite = false → (∀ cleared, s.fold ≠ .resetting j true cleared) → (s.cells j).stable = true

/-- Where the supervisor is, the slots are. -/
def FoldFits (s : State n) : Prop :=
  match s.fold with
  | .idle => s.retired.stable = true
  | .read i total =>
    s.retired.stable = true ∧ s.lives i = .dead ∧ (s.cells i).stable = true ∧
      total = s.retired.rejected + (s.cells i).rejected
  | .begun i total =>
    s.retired.stable = false ∧ s.lives i = .dead ∧ (s.cells i).stable = true ∧
      total = s.retired.rejected + (s.cells i).rejected
  | .filled i => s.retired.stable = false ∧ s.lives i = .dead ∧ (s.cells i).stable = true
  | .resetting i fold cleared =>
    s.retired.stable = !fold ∧ s.lives i = .dead ∧ (s.cells i).stable = false ∧
      (cleared = true → (s.cells i).rejected = 0) ∧ (fold = false → s.diedMidWrite = true)
  | .reset i =>
    s.retired.stable = false ∧ s.lives i = .dead ∧ (s.cells i).stable = true ∧ (s.cells i).rejected = 0

/-- Nothing is invented, and nothing is lost unless a data plane died in the middle of a write. -/
structure Sound (s : State n) : Prop where
  fits : ∀ j, s.Fits j
  foldFits : s.FoldFits
  worth_le : (∑ j, s.worth j) + s.retired.rejected ≤ s.counted
  worth_eq : s.diedMidWrite = false → (∑ j, s.worth j) + s.retired.rejected = s.counted
  begun_le : s.counted + (∑ j, s.inflight j) ≤ s.begun
  begun_eq : s.diedMidWrite = false → s.counted + (∑ j, s.inflight j) = s.begun

end State

theorem sum_change {f g : Fin n → Nat} (i : Fin n) (h : ∀ j, j ≠ i → g j = f j) :
    (∑ j, g j) + f i = (∑ j, f j) + g i := by
  rw [← Finset.add_sum_erase Finset.univ g (Finset.mem_univ i),
    ← Finset.add_sum_erase Finset.univ f (Finset.mem_univ i)]
  have hrest : ∑ j ∈ Finset.univ.erase i, g j = ∑ j ∈ Finset.univ.erase i, f j :=
    Finset.sum_congr rfl fun j hj => h j (Finset.ne_of_mem_erase hj)
  omega

theorem marker_odd (seq : Nat) : marker seq % 2 = 1 := by
  unfold marker
  omega

theorem Cell.stable_mark (c : Cell) : c.mark.stable = false := by
  simp [Cell.stable, Cell.mark, marker_odd]

theorem Cell.stable_finish {c : Cell} (h : c.stable = false) : c.finish.stable = true := by
  have hodd : ¬ c.seq % 2 = 0 := of_decide_eq_false h
  have heven : (c.seq + 1) % 2 = 0 := by omega
  exact decide_eq_true heven

/-- A slot later: its number has not gone down, and what it holds is the same while an even number is. -/
structure Cell.After (c c' : Cell) : Prop where
  le : c.seq ≤ c'.seq
  same : c.stable = true → c'.seq = c.seq → c'.rejected = c.rejected

theorem Cell.After.refl (c : Cell) : c.After c := ⟨Nat.le_refl _, fun _ _ => rfl⟩

theorem Cell.after_mark (c : Cell) : c.After c.mark := by
  refine ⟨?_, fun _ _ => rfl⟩
  show c.seq ≤ marker c.seq
  unfold marker
  omega

theorem Cell.after_fill {c : Cell} (h : c.stable = false) (rejected : Nat) : c.After (c.fill rejected) :=
  ⟨Nat.le_refl _, fun hstable => absurd (h.symm.trans hstable) (by simp)⟩

theorem Cell.after_finish (c : Cell) : c.After c.finish := ⟨Nat.le_succ _, fun _ _ => rfl⟩

namespace State

variable {s s' : State n} {i j : Fin n} {r : Reader n}

/-- The supervisor minds the dead only. -/
theorem FoldFits.frame (h : s.FoldFits) (fold : s'.fold = s.fold) (retired : s'.retired = s.retired)
    (dead : ∀ i, s.lives i = .dead → s'.lives i = .dead ∧ s'.cells i = s.cells i)
    (died : s.diedMidWrite = true → s'.diedMidWrite = true) : s'.FoldFits := by
  unfold FoldFits at h ⊢
  rw [fold, retired]
  cases hfold : s.fold with
  | idle => simpa only [hfold] using h
  | read i _ | begun i _ | filled i | reset i =>
    simp only [hfold] at h ⊢
    rw [(dead i h.2.1).1, (dead i h.2.1).2]
    exact ⟨h.1, rfl, h.2.2⟩
  | resetting i fold cleared =>
    simp only [hfold] at h ⊢
    rw [(dead i h.2.1).1, (dead i h.2.1).2]
    exact ⟨h.1, rfl, h.2.2.1, h.2.2.2.1, fun hf => died (h.2.2.2.2 hf)⟩

/-- Only slot `i` and what concerns it has changed. -/
structure SameBut (i : Fin n) (s s' : State n) : Prop where
  lives : ∀ j, j ≠ i → s'.lives j = s.lives j
  cells : ∀ j, j ≠ i → s'.cells j = s.cells j
  filled : ∀ j, j ≠ i → (s'.fold = .filled j ↔ s.fold = .filled j)
  resetting : ∀ j cleared, j ≠ i → s.fold = .resetting j true cleared → s'.fold = .resetting j true cleared
  died : s'.diedMidWrite = false → s.diedMidWrite = false

/-- The fold was there, or nowhere, and is so. -/
theorem SameBut.of_fold (lives : ∀ j, j ≠ i → s'.lives j = s.lives j) (cells : ∀ j, j ≠ i → s'.cells j = s.cells j)
    (before : s.fold.Near i) (after : s'.fold.Near i) (died : s'.diedMidWrite = s.diedMidWrite) : SameBut i s s' where
  lives := lives
  cells := cells
  filled j hj := by
    constructor <;> intro hfold
    · rw [hfold] at after
      exact absurd after hj
    · rw [hfold] at before
      exact absurd before hj
  resetting j cleared hj hfold := by
    rw [hfold] at before
    exact absurd before hj
  died := by rw [died]; exact id

theorem SameBut.fits (same : SameBut i s s') (hj : j ≠ i) (h : s.Fits j) : s'.Fits j := by
  unfold Fits at h ⊢
  rw [same.lives j hj, same.cells j hj]
  cases hlife : s.lives j with
  | vacant => simpa only [hlife] using h
  | running p =>
    obtain ⟨rejected, write⟩ := p
    cases write with
    | none | some w => simpa only [hlife] using h
  | dead =>
    simp only [hlife] at h ⊢
    exact fun hdied hfold => h (same.died hdied) fun cleared hold => hfold cleared (same.resetting j cleared hj hold)

theorem SameBut.worth (same : SameBut i s s') (hj : j ≠ i) : s'.worth j = s.worth j := by
  unfold State.worth
  rw [same.lives j hj, same.cells j hj]
  simp only [same.filled j hj]

theorem SameBut.inflight (same : SameBut i s s') (hj : j ≠ i) : s'.inflight j = s.inflight j := by
  unfold State.inflight
  rw [same.lives j hj]

/-- What a step of a data plane or of the supervisor leaves to the readers. As long as the retired slot is not touched,
the slots gain at most what was counted, and lose nothing unless a data plane died in the middle of a write. -/
structure Carries (s s' : State n) : Prop where
  cells : ∀ j, (s.cells j).After (s'.cells j)
  retired : s.retired.After s'.retired
  counted : s.counted ≤ s'.counted
  begun : s.begun ≤ s'.begun
  died : s'.diedMidWrite = false → s.diedMidWrite = false
  worth : s'.retired.seq = s.retired.seq → s.retired.stable = true →
    ∃ gain : Fin n → Nat, (∑ j, gain j) ≤ s'.counted - s.counted ∧ ∀ j, s'.worth j ≤ s.worth j + gain j
  promise : s'.retired.seq = s.retired.seq → s.retired.stable = true → s'.diedMidWrite = false →
    ∀ j, s.worth j + s.inflight j ≤ s'.worth j + s'.inflight j

theorem Carries.refl (s : State n) : Carries s s where
  cells _ := Cell.After.refl _
  retired := Cell.After.refl _
  counted := Nat.le_refl _
  begun := Nat.le_refl _
  died h := h
  worth _ _ := ⟨fun _ => 0, by simp, fun _ => Nat.le_refl _⟩
  promise _ _ _ _ := Nat.le_refl _

/-- What a step owes: the books balance afterwards, and the readers are left what they need. -/
def Keeps (s s' : State n) : Prop := Sound s' ∧ Carries s s'

/-- The books balance if they do at the slot that has changed. -/
theorem Sound.change (h : Sound s) (same : SameBut i s s') (fits : s'.Fits i) (foldFits : s'.FoldFits)
    (cell : (s.cells i).After (s'.cells i)) (retired : s.retired.After s'.retired)
    (counted : s.counted ≤ s'.counted) (begun : s.begun ≤ s'.begun)
    (worth_le : s'.worth i + s'.retired.rejected + s.counted ≤ s.worth i + s.retired.rejected + s'.counted)
    (worth_eq : s'.diedMidWrite = false →
      s'.worth i + s'.retired.rejected + s.counted = s.worth i + s.retired.rejected + s'.counted)
    (begun_le : s'.counted + s'.inflight i + s.begun ≤ s.counted + s.inflight i + s'.begun)
    (begun_eq : s'.diedMidWrite = false →
      s'.counted + s'.inflight i + s.begun = s.counted + s.inflight i + s'.begun) : Keeps s s' := by
  have hworth := sum_change i fun j hj => same.worth hj
  have hinflight := sum_change i fun j hj => same.inflight hj
  refine ⟨⟨fun j => ?_, foldFits, ?_, fun hdied => ?_, ?_, fun hdied => ?_⟩,
    ⟨fun j => ?_, retired, counted, begun, same.died, fun hseq hstable => ?_, fun hseq hstable hdied j => ?_⟩⟩
  · by_cases hj : j = i
    · rw [hj]
      exact fits
    · exact same.fits hj (h.fits j)
  · have := h.worth_le
    omega
  · have := h.worth_eq (same.died hdied)
    have := worth_eq hdied
    omega
  · have := h.begun_le
    omega
  · have := h.begun_eq (same.died hdied)
    have := begun_eq hdied
    omega
  · by_cases hj : j = i
    · rw [hj]
      exact cell
    · rw [same.cells j hj]
      exact Cell.After.refl _
  · have hretired := retired.same hstable hseq
    refine ⟨Pi.single i (s'.counted - s.counted), by simp, fun j => ?_⟩
    by_cases hj : j = i
    · subst hj
      rw [Pi.single_eq_same]
      omega
    · rw [same.worth hj, Pi.single_eq_of_ne hj]
      exact Nat.le_refl _
  · by_cases hj : j = i
    · subst hj
      have hretired := retired.same hstable hseq
      have := worth_eq hdied
      have := begun_eq hdied
      omega
    · rw [same.worth hj, same.inflight hj]

theorem setLife_same (i : Fin n) (l : Life) : SameBut i s (s.setLife i l) where
  lives _ hj := Function.update_of_ne hj _ _
  cells _ _ := rfl
  filled _ _ := Iff.rfl
  resetting _ _ _ h := h
  died h := h

/-- A step of a data plane that is not dead. -/
theorem plane_same (i : Fin n) (l : Life) (c : Cell) {counted begun : Nat} :
    SameBut i s { (s.setCell i c).setLife i l with counted := counted, begun := begun } where
  lives _ hj := Function.update_of_ne hj _ _
  cells _ hj := Function.update_of_ne hj _ _
  filled _ _ := Iff.rfl
  resetting _ _ _ h := h
  died h := h

theorem foldFits_plane (h : s.FoldFits) (alive : s.lives i ≠ .dead) (l : Life) (c : Cell)
    {counted begun : Nat} : FoldFits { (s.setCell i c).setLife i l with counted := counted, begun := begun } := by
  refine h.frame rfl rfl (fun j hj => ?_) id
  have hne : j ≠ i := fun heq => alive (heq ▸ hj)
  exact ⟨(Function.update_of_ne hne _ _).trans hj, Function.update_of_ne hne _ _⟩

theorem after_update {c : Cell} (h : (s.cells i).After c) :
    (s.cells i).After (Function.update s.cells i c i) := by
  rw [Function.update_self]
  exact h

section
variable (h : Sound s) (i)
include h

theorem keeps_spawn : Keeps s (s.step (.spawn i)) := by
  simp only [step]
  split
  · next hvacant =>
    have hfits := h.fits i
    simp only [Fits, hvacant] at hfits
    have hworth : s.worth i = 0 := by simp only [worth, hvacant]
    have hinflight : s.inflight i = 0 := by simp only [inflight, hvacant]
    refine h.change (setLife_same i _) ?_ ?_ (Cell.After.refl _) (Cell.After.refl _)
      (Nat.le_refl _) (Nat.le_refl _) ?_ (fun _ => ?_) ?_ (fun _ => ?_)
    · simpa only [Fits, setLife, Function.update_self] using hfits
    · refine h.foldFits.frame rfl rfl (fun j hj => ⟨?_, rfl⟩) id
      have hne : j ≠ i := fun heq => by rw [heq, hvacant] at hj; cases hj
      exact (Function.update_of_ne hne _ _).trans hj
    all_goals simp only [worth, inflight, setLife, Function.update_self, hvacant]
    all_goals omega
  · exact ⟨h, Carries.refl s⟩

theorem keeps_mark (reject : Bool) : Keeps s (s.step (.mark i reject)) := by
  simp only [step]
  split
  · next p hrunning =>
    split
    · next hidle =>
      obtain ⟨rejected, write⟩ := p
      simp only at hidle
      subst hidle
      have hworth : s.worth i = rejected := by simp only [worth, hrunning]
      have hinflight : s.inflight i = 0 := by simp only [inflight, hrunning]
      have halive : s.lives i ≠ .dead := by simp [hrunning]
      refine h.change (plane_same i _ _) ?_ (foldFits_plane h.foldFits halive _ _) (after_update (Cell.after_mark _))
        (Cell.After.refl _)
        (Nat.le_refl _) (Nat.le_add_right _ _) ?_ (fun _ => ?_) ?_ (fun _ => ?_)
      · simp only [Fits, setLife, setCell, Function.update_self]
        exact ⟨Cell.stable_mark _, (fun h => nomatch h), Nat.le_add_left _ _⟩
      all_goals cases reject
      all_goals simp only [worth, inflight, setLife, setCell, Function.update_self, hrunning, Bool.toNat_true,
        Bool.toNat_false]
      all_goals omega
    · exact ⟨h, Carries.refl s⟩
  · exact ⟨h, Carries.refl s⟩

theorem keeps_fill : Keeps s (s.step (.fill i)) := by
  simp only [step]
  split
  · next rejected reject hrunning =>
    have hfits := h.fits i
    simp only [Fits, hrunning] at hfits
    have halive : s.lives i ≠ .dead := by simp [hrunning]
    refine h.change (plane_same i _ _) ?_ (foldFits_plane h.foldFits halive _ _)
      (after_update (Cell.after_fill hfits.1 _)) (Cell.After.refl _)
      (Nat.le_refl _) (Nat.le_refl _) ?_ (fun _ => ?_) ?_ (fun _ => ?_)
    · simp only [Fits, setLife, setCell, Function.update_self]
      exact ⟨hfits.1, (fun _ => rfl), hfits.2.2⟩
    all_goals cases reject
    all_goals simp only [worth, inflight, setLife, setCell, Function.update_self, hrunning]
    all_goals omega
  · exact ⟨h, Carries.refl s⟩

theorem keeps_finish : Keeps s (s.step (.finish i)) := by
  simp only [step]
  split
  · next rejected reject hrunning =>
    have hfits := h.fits i
    simp only [Fits, hrunning] at hfits
    obtain ⟨hwriting, hfilled, hpositive⟩ := hfits
    have halive : s.lives i ≠ .dead := by simp [hrunning]
    refine h.change (plane_same i _ _) ?_ (foldFits_plane h.foldFits halive _ _) (after_update (Cell.after_finish _))
      (Cell.After.refl _)
      (Nat.le_add_right _ _) (Nat.le_refl _) ?_ (fun _ => ?_) ?_ (fun _ => ?_)
    · simp only [Fits, setLife, setCell, Function.update_self]
      exact ⟨Cell.stable_finish hwriting, hfilled trivial⟩
    all_goals cases reject
    all_goals simp only [worth, inflight, setLife, setCell, Function.update_self, hrunning, Bool.toNat_true,
      Bool.toNat_false] at hpositive ⊢
    all_goals omega
  · exact ⟨h, Carries.refl s⟩

theorem keeps_die : Keeps s (s.step (.die i)) := by
  simp only [step]
  split
  · next p hrunning =>
    have hfits := h.fits i
    have hfold : s.fold ≠ .filled i := by
      intro hfold
      have hdead := h.foldFits
      simp only [FoldFits, hfold, hrunning] at hdead
      exact nomatch hdead.2.1
    have hfoldFits : FoldFits { s.setLife i .dead with diedMidWrite := s.diedMidWrite || p.write.isSome } := by
      refine h.foldFits.frame rfl rfl (fun j hj => ⟨?_, rfl⟩) (fun hdied => by simp [hdied])
      by_cases hne : j = i
      · rw [hne]
        exact Function.update_self ..
      · exact (Function.update_of_ne hne _ _).trans hj
    have hsame : SameBut i s { s.setLife i .dead with diedMidWrite := s.diedMidWrite || p.write.isSome } :=
      { lives := fun _ hj => Function.update_of_ne hj _ _
        cells := fun _ _ => rfl
        filled := fun _ _ => Iff.rfl
        resetting := fun _ _ _ h => h
        died := fun hdied => (Bool.or_eq_false_iff.mp hdied).1 }
    obtain ⟨rejected, write⟩ := p
    cases write with
    | none =>
      simp only [Fits, hrunning] at hfits
      refine h.change hsame ?_ hfoldFits (Cell.After.refl _) (Cell.After.refl _)
        (Nat.le_refl _) (Nat.le_refl _) ?_ (fun _ => ?_) ?_ (fun _ => ?_)
      · simp only [Fits, setLife, Function.update_self]
        exact fun _ _ => hfits.1
      all_goals simp only [worth, inflight, setLife, Function.update_self, hrunning, hfold, if_false, hfits, if_true]
      all_goals omega
    | some w =>
      obtain ⟨reject, filled⟩ := w
      simp only [Fits, hrunning] at hfits
      have hdied : (s.diedMidWrite || true) = true := Bool.or_true _
      refine h.change hsame ?_ hfoldFits (Cell.After.refl _) (Cell.After.refl _)
        (Nat.le_refl _) (Nat.le_refl _) ?_ (fun hnot => ?_) ?_ (fun hnot => ?_)
      · simp only [Fits, setLife, Function.update_self]
        exact fun hnot => absurd (hdied.symm.trans hnot) (by simp)
      · simp only [worth, setLife, Function.update_self, hrunning, hfold, if_false, hfits, Bool.false_eq_true]
        omega
      · exact absurd (hdied.symm.trans hnot) (by simp)
      · simp only [inflight, setLife, Function.update_self, hrunning]
        omega
      · exact absurd (hdied.symm.trans hnot) (by simp)
  · exact ⟨h, Carries.refl s⟩

theorem keeps_reap : Keeps s (s.step (.reap i)) := by
  simp only [step]
  split
  · next hreaped =>
    obtain ⟨hdead, hidle⟩ := hreaped
    have hfoldFits := h.foldFits
    have hfits := h.fits i
    simp only [FoldFits, hidle] at hfoldFits
    simp only [Fits, hdead, hidle] at hfits
    split
    · next hstable =>
      have hsame : SameBut i s { s with fold := .read i (s.retired.rejected + (s.cells i).rejected) } :=
        .of_fold (fun _ _ => rfl) (fun _ _ => rfl) (by simp [hidle, Fold.Near]) trivial rfl
      refine h.change hsame ?_ ⟨hfoldFits, hdead, hstable, rfl⟩ (Cell.After.refl _) (Cell.After.refl _)
        (Nat.le_refl _) (Nat.le_refl _) ?_ (fun _ => ?_) ?_ (fun _ => ?_)
      · simp only [Fits, hdead]
        exact fun _ _ => hstable
      all_goals simp only [worth, inflight, hdead, hidle, reduceCtorEq, if_false]
      all_goals omega
    · next hunstable =>
      have hsame : SameBut i s { s.setCell i (s.cells i).mark with fold := .resetting i false false } :=
        .of_fold (fun _ _ => rfl) (fun _ hj => Function.update_of_ne hj _ _) (by simp [hidle, Fold.Near]) rfl rfl
      have hdied : s.diedMidWrite = true := by
        cases hcases : s.diedMidWrite with
        | true => rfl
        | false => exact absurd (hfits hcases (fun _ hfold => nomatch hfold)) hunstable
      refine h.change hsame ?_ ?_ (after_update (Cell.after_mark _)) (Cell.After.refl _)
        (Nat.le_refl _) (Nat.le_refl _) ?_ (fun _ => ?_) ?_ (fun _ => ?_)
      · simp only [Fits, setCell, hdead]
        exact fun hnot => absurd (hdied.symm.trans hnot) (by simp)
      · simp only [FoldFits, setCell, Function.update_self]
        exact ⟨hfoldFits, hdead, Cell.stable_mark _, (fun h => nomatch h), fun _ => hdied⟩
      all_goals simp only [worth, inflight, setCell, Function.update_self, hdead, hidle, reduceCtorEq, if_false,
        hunstable, Cell.stable_mark, Bool.false_eq_true]
      all_goals omega
  · exact ⟨h, Carries.refl s⟩

end

/-- The supervisor goes on: only the slot of the dead one and the retired slot are concerned. -/
theorem keeps_advance (h : Sound s) : Keeps s (s.step .advance) := by
  have hfoldFits := h.foldFits
  simp only [step, advance]
  cases hfold : s.fold with
  | idle => exact ⟨h, Carries.refl s⟩
  | read i total =>
    simp only [FoldFits, hfold] at hfoldFits
    obtain ⟨_, hdead, hstable, htotal⟩ := hfoldFits
    have hsame : SameBut i s { s with retired := s.retired.mark, fold := .begun i total } :=
      .of_fold (fun _ _ => rfl) (fun _ _ => rfl) (by simp [hfold, Fold.Near]) trivial rfl
    refine h.change hsame ?_ ⟨Cell.stable_mark _, hdead, hstable, htotal⟩ (Cell.After.refl _) (Cell.after_mark _)
      (Nat.le_refl _) (Nat.le_refl _) ?_ (fun _ => ?_) ?_ (fun _ => ?_)
    · simp only [Fits, hdead]
      exact fun _ _ => hstable
    all_goals simp only [worth, inflight, hdead, hfold, reduceCtorEq, if_false, Cell.mark]
    all_goals omega
  | begun i total =>
    simp only [FoldFits, hfold] at hfoldFits
    obtain ⟨hretired, hdead, hstable, htotal⟩ := hfoldFits
    have hsame : SameBut i s { s with retired := s.retired.fill total, fold := .filled i } :=
      .of_fold (fun _ _ => rfl) (fun _ _ => rfl) (by simp [hfold, Fold.Near]) rfl rfl
    refine h.change hsame ?_ ⟨hretired, hdead, hstable⟩ (Cell.After.refl _) (Cell.after_fill hretired _)
      (Nat.le_refl _) (Nat.le_refl _) ?_ (fun _ => ?_) ?_ (fun _ => ?_)
    · simp only [Fits, hdead]
      exact fun _ _ => hstable
    all_goals simp only [worth, inflight, hdead, hfold, reduceCtorEq, if_false, if_true, Cell.fill, hstable]
    all_goals omega
  | filled i =>
    simp only [FoldFits, hfold] at hfoldFits
    obtain ⟨hretired, hdead, hstable⟩ := hfoldFits
    have hsame : SameBut i s { s.setCell i (s.cells i).mark with fold := .resetting i true false } :=
      .of_fold (fun _ _ => rfl) (fun _ hj => Function.update_of_ne hj _ _) (by simp [hfold, Fold.Near]) rfl rfl
    refine h.change hsame ?_ ?_ (after_update (Cell.after_mark _)) (Cell.After.refl _)
      (Nat.le_refl _) (Nat.le_refl _) ?_ (fun _ => ?_) ?_ (fun _ => ?_)
    · simp only [Fits, setCell, hdead]
      exact fun _ hnot => absurd rfl (hnot false)
    · simp only [FoldFits, setCell, Function.update_self]
      exact ⟨hretired, hdead, Cell.stable_mark _, (fun h => nomatch h), fun h => nomatch h⟩
    all_goals simp only [worth, inflight, setCell, Function.update_self, hdead, hfold, reduceCtorEq, if_false, if_true,
      Cell.stable_mark, Bool.false_eq_true]
    all_goals omega
  | resetting i fold cleared =>
    simp only [FoldFits, hfold] at hfoldFits
    obtain ⟨hretired, hdead, hunstable, hcleared, hdied⟩ := hfoldFits
    cases cleared with
    | false =>
      have hsame : SameBut i s { s.setCell i ((s.cells i).fill 0) with fold := .resetting i fold true } :=
        .of_fold (fun _ _ => rfl) (fun _ hj => Function.update_of_ne hj _ _) (by simp [hfold, Fold.Near]) rfl rfl
      have hfilled : ((s.cells i).fill 0).stable = false := hunstable
      refine h.change hsame ?_ ?_ (after_update (Cell.after_fill hunstable _)) (Cell.After.refl _)
        (Nat.le_refl _) (Nat.le_refl _) ?_ (fun _ => ?_) ?_ (fun _ => ?_)
      · simp only [Fits, setCell, hdead]
        intro hnot hfoldNot
        cases fold with
        | true => exact absurd rfl (hfoldNot true)
        | false => exact absurd ((hdied rfl).symm.trans hnot) (by simp)
      · simp only [FoldFits, setCell, Function.update_self]
        exact ⟨hretired, hdead, hfilled, (fun _ => rfl), hdied⟩
      all_goals simp only [worth, inflight, setCell, Function.update_self, hdead, hfold, hunstable, reduceCtorEq,
        if_false, hfilled, Bool.false_eq_true]
      all_goals omega
    | true =>
      have hfinished : (s.cells i).finish.stable = true := Cell.stable_finish hunstable
      have hzero : (s.cells i).finish.rejected = 0 := hcleared rfl
      cases fold with
      | true =>
        have hsame : SameBut i s { s.setCell i (s.cells i).finish with fold := .reset i } :=
          .of_fold (fun _ _ => rfl) (fun _ hj => Function.update_of_ne hj _ _)
            (by simp [hfold, Fold.Near]) trivial rfl
        refine h.change hsame ?_ ?_ (after_update (Cell.after_finish _)) (Cell.After.refl _)
          (Nat.le_refl _) (Nat.le_refl _) ?_ (fun _ => ?_) ?_ (fun _ => ?_)
        · simp only [Fits, setCell, hdead, Function.update_self]
          exact fun _ _ => hfinished
        · simp only [FoldFits, setCell, Function.update_self]
          exact ⟨hretired, hdead, hfinished, hzero⟩
        all_goals simp only [worth, inflight, setCell, Function.update_self, hdead, hfold, hunstable, reduceCtorEq,
          if_false, if_true, hfinished, hzero, Bool.false_eq_true]
        all_goals omega
      | false =>
        have hsame : SameBut i s { (s.setCell i (s.cells i).finish).setLife i .vacant with fold := .idle } :=
          .of_fold (fun _ hj => Function.update_of_ne hj _ _) (fun _ hj => Function.update_of_ne hj _ _)
            (by simp [hfold, Fold.Near]) trivial rfl
        refine h.change hsame ?_ hretired (after_update (Cell.after_finish _)) (Cell.After.refl _)
          (Nat.le_refl _) (Nat.le_refl _) ?_ (fun _ => ?_) ?_ (fun _ => ?_)
        · simp only [Fits, setCell, setLife, Function.update_self]
          exact ⟨hfinished, hzero⟩
        all_goals simp only [worth, inflight, setCell, setLife, Function.update_self, hdead, hfold, hunstable,
          reduceCtorEq, if_false, Bool.false_eq_true]
        all_goals omega
  | reset i =>
    simp only [FoldFits, hfold] at hfoldFits
    obtain ⟨hretired, hdead, hstable, hzero⟩ := hfoldFits
    have hsame : SameBut i s { s.setLife i .vacant with retired := s.retired.finish, fold := .idle } :=
      .of_fold (fun _ hj => Function.update_of_ne hj _ _) (fun _ _ => rfl) (by simp [hfold, Fold.Near]) trivial rfl
    refine h.change hsame ?_ (Cell.stable_finish hretired) (Cell.After.refl _) (Cell.after_finish _)
      (Nat.le_refl _) (Nat.le_refl _) ?_ (fun _ => ?_) ?_ (fun _ => ?_)
    · simp only [Fits, setLife, Function.update_self]
      exact ⟨hstable, hzero⟩
    all_goals simp only [worth, inflight, setLife, Function.update_self, Cell.finish, hdead, hfold, hstable, hzero,
      reduceCtorEq, if_false, if_true]
    all_goals omega

/-! ### Readers -/

/-- What a read of a slot has so far, seen from the slot now. -/
structure SampleFits (c : Cell) (x : Sample) : Prop where
  even : x.seqBefore % 2 = 0
  le : x.seqBefore ≤ c.seq
  copied : ∀ v, x.copied = some v → c.seq = x.seqBefore → v = c.rejected

theorem SampleFits.after {c c' : Cell} {x : Sample} (h : SampleFits c x) (after : c.After c') : SampleFits c' x := by
  refine ⟨h.even, Nat.le_trans h.le after.le, fun v hv hseq => ?_⟩
  have hsame : c.seq = x.seqBefore := Nat.le_antisymm (hseq ▸ after.le) h.le
  have hstable : c.stable = true := decide_eq_true (hsame ▸ h.even)
  rw [h.copied v hv hsame, after.same hstable (hseq.trans hsame.symm)]

/-- An aggregate read since it has its version. While the retired slot has kept it, what was seen, with what the slots
not yet seen are worth, is no more than what was counted, and it is no less than what had been counted at the start. -/
structure Window (s : State n) (r : Reader n) : Prop where
  even : r.version % 2 = 0
  le : r.version ≤ s.retired.seq
  seen : ∀ j, (r.seen j).isSome = true ↔ j.val + 1 < r.position
  upper : s.retired.seq = r.version → (∑ j, (r.seen j).getD (s.worth j)) + s.retired.rejected ≤ s.counted
  lower : s.retired.seq = r.version → s.diedMidWrite = false →
    r.start ≤ (∑ j, (r.seen j).getD (s.worth j + s.inflight j)) + s.retired.rejected

structure ReaderFits (s : State n) (r : Reader n) : Prop where
  start : r.start ≤ s.begun
  since : r.since ≤ s.answers.length
  earlier : ∀ (p : Nat) (a : Answer), p < r.since → s.answers[p]? = some a → a.counted ≤ r.start
  position : r.position ≤ n + 1
  sample : ∀ x, r.sample = some x → SampleFits (s.cellAt r.position) x
  window : 0 < r.position → Window s r

theorem Carries.cellAt (h : Carries s s') (position : Nat) : (s.cellAt position).After (s'.cellAt position) := by
  unfold State.cellAt
  split
  · exact h.cells _
  · exact h.retired

theorem Carries.window (h : Carries s s') (w : Window s r) : Window s' r := by
  refine ⟨w.even, Nat.le_trans w.le h.retired.le, w.seen, fun hseq => ?_, fun hseq hdied => ?_⟩
  · have hbefore : s.retired.seq = r.version := Nat.le_antisymm (hseq ▸ h.retired.le) w.le
    have hstable : s.retired.stable = true := decide_eq_true (hbefore ▸ w.even)
    have hretired := h.retired.same hstable (hseq.trans hbefore.symm)
    obtain ⟨gain, hgain, hworth⟩ := h.worth (hseq.trans hbefore.symm) hstable
    have hsum : (∑ j, (r.seen j).getD (s'.worth j)) ≤ (∑ j, (r.seen j).getD (s.worth j)) + ∑ j, gain j := by
      rw [← Finset.sum_add_distrib]
      refine Finset.sum_le_sum fun j _ => ?_
      cases r.seen j with
      | none => exact hworth j
      | some v => exact Nat.le_add_right _ _
    have hupper := w.upper hbefore
    have hcounted := h.counted
    omega
  · have hbefore : s.retired.seq = r.version := Nat.le_antisymm (hseq ▸ h.retired.le) w.le
    have hstable : s.retired.stable = true := decide_eq_true (hbefore ▸ w.even)
    have hretired := h.retired.same hstable (hseq.trans hbefore.symm)
    have hpromise := h.promise (hseq.trans hbefore.symm) hstable hdied
    have hsum : (∑ j, (r.seen j).getD (s.worth j + s.inflight j)) ≤
        ∑ j, (r.seen j).getD (s'.worth j + s'.inflight j) := by
      refine Finset.sum_le_sum fun j _ => ?_
      cases r.seen j with
      | none => exact hpromise j
      | some v => exact Nat.le_refl _
    have hlower := w.lower hbefore (h.died hdied)
    omega

theorem Carries.reader (h : Carries s s') (answers : s'.answers = s.answers) (fits : ReaderFits s r) :
    ReaderFits s' r where
  start := Nat.le_trans fits.start h.begun
  since := answers ▸ fits.since
  earlier := answers ▸ fits.earlier
  position := fits.position
  sample x hx := (fits.sample x hx).after (h.cellAt _)
  window hposition := h.window (fits.window hposition)

/-- What has been answered. -/
structure AnswersFit (s : State n) : Prop where
  since : ∀ a ∈ s.answers, a.since ≤ s.answers.length
  le : ∀ a ∈ s.answers, a.rejectedTotal ≤ a.counted ∧ a.counted ≤ s.counted
  ge : s.diedMidWrite = false → ∀ a ∈ s.answers, a.start ≤ a.rejectedTotal
  later : ∀ (p q : Nat) (a b : Answer), s.answers[p]? = some a → s.answers[q]? = some b → p < b.since →
    a.counted ≤ b.start

structure Inv (s : State n) : Prop where
  sound : Sound s
  readers : ∀ k r, s.readers k = some r → ReaderFits s r
  answers : AnswersFit s

/-- A step of a data plane or of the supervisor. -/
theorem Inv.keeps (h : Inv s) (keeps : Keeps s s') (readers : s'.readers = s.readers)
    (answers : s'.answers = s.answers) :
    Inv s' where
  sound := keeps.1
  readers k r hr := keeps.2.reader answers (h.readers k r (readers ▸ hr))
  answers :=
    { since := answers ▸ h.answers.since
      le := fun a ha => by
        obtain ⟨htotal, hcounted⟩ := h.answers.le a (answers ▸ ha)
        exact ⟨htotal, Nat.le_trans hcounted keeps.2.counted⟩
      ge := fun hdied a ha => h.answers.ge (keeps.2.died hdied) a (answers ▸ ha)
      later := answers ▸ h.answers.later }

/-- A step of a reader that has not answered. -/
theorem Inv.setReader (h : Inv s) (k : Nat) {r : Option (Reader n)} (fits : ∀ r', r = some r' → ReaderFits s r') :
    Inv (s.setReader k r) where
  sound := ⟨h.sound.fits, h.sound.foldFits, h.sound.worth_le, h.sound.worth_eq, h.sound.begun_le, h.sound.begun_eq⟩
  readers k' r' hr' := by
    have hfits : ReaderFits s r' := by
      by_cases hk : k' = k
      · have hself : (s.setReader k r).readers k = r := Function.update_self ..
        rw [hk, hself] at hr'
        exact fits r' hr'
      · have hother : (s.setReader k r).readers k' = s.readers k' := Function.update_of_ne hk _ _
        exact h.readers k' r' (hother ▸ hr')
    exact ⟨hfits.start, hfits.since, hfits.earlier, hfits.position, hfits.sample, fun hposition =>
      let w := hfits.window hposition
      ⟨w.even, w.le, w.seen, w.upper, w.lower⟩⟩
  answers := ⟨h.answers.since, h.answers.le, h.answers.ge, h.answers.later⟩

/-- A slot that can be read is worth what it holds, when the supervisor is not about to move it. -/
theorem Sound.worth_of_stable (h : Sound s) (stable : (s.cells j).stable = true)
    (still : s.fold ≠ .filled j) : s.worth j = (s.cells j).rejected ∧ s.inflight j = 0 := by
  have hfits := h.fits j
  unfold Fits at hfits
  unfold State.worth State.inflight
  cases hlife : s.lives j with
  | vacant =>
    simp only [hlife] at hfits ⊢
    exact ⟨hfits.2.symm, trivial⟩
  | running p =>
    obtain ⟨rejected, write⟩ := p
    cases write with
    | none =>
      simp only [hlife] at hfits ⊢
      exact ⟨hfits.2.symm, trivial⟩
    | some w =>
      simp only [hlife] at hfits
      exact absurd (stable.symm.trans hfits.1) (by simp)
  | dead => simp only [still, if_false, stable, if_true, and_self]

/-- The retired slot cannot be read while a fold is between its two halves. -/
theorem Sound.still (h : Sound s) (stable : s.retired.stable = true) (j : Fin n) : s.fold ≠ .filled j := by
  intro hfold
  have hfits := h.foldFits
  simp only [FoldFits, hfold] at hfits
  exact absurd (stable.symm.trans hfits.1) (by simp)

/-- The version is read: the window opens. -/
theorem ReaderFits.open (h : Sound s) (fits : ReaderFits s r) (even : s.retired.seq % 2 = 0) :
    ReaderFits s { r with position := 1, version := s.retired.seq, seen := fun _ => none, sample := none } where
  start := fits.start
  since := fits.since
  earlier := fits.earlier
  position := Nat.le_add_left _ _
  sample x hx := nomatch hx
  window _ :=
    { even := even
      le := Nat.le_refl _
      seen := fun j => by simp
      upper := fun _ => h.worth_le
      lower := fun _ hdied => by
        have hstart := fits.start
        have hworth := h.worth_eq hdied
        have hbegun := h.begun_eq hdied
        simp only [Option.getD_none, Finset.sum_add_distrib]
        omega }

/-- A slot is seen: what was seen instead of what it is worth comes to the same. -/
theorem Window.see (h : Sound s) (w : Window s r) (position : r.position = j.val + 1)
    (stable : (s.cells j).stable = true) :
    Window s { r with
      position := r.position + 1, seen := Function.update r.seen j (some (s.cells j).rejected), sample := none } := by
  have hnone : r.seen j = none := by
    have hnot : ¬ (r.seen j).isSome = true := by
      rw [w.seen j]
      omega
    simpa using hnot
  have hsum : ∀ f : Fin n → Nat, f j = (s.cells j).rejected →
      (∑ k, ((Function.update r.seen j (some (s.cells j).rejected)) k).getD (f k)) = ∑ k, (r.seen k).getD (f k) := by
    intro f hf
    refine Finset.sum_congr rfl fun k _ => ?_
    by_cases hk : k = j
    · rw [hk, Function.update_self, hnone]
      exact hf.symm
    · rw [Function.update_of_ne hk]
  have hworth : s.retired.seq = r.version → s.worth j = (s.cells j).rejected ∧ s.inflight j = 0 := fun hseq =>
    h.worth_of_stable stable (h.still (decide_eq_true (hseq ▸ w.even)) j)
  refine ⟨w.even, w.le, fun k => ?_, fun hseq => ?_, fun hseq hdied => ?_⟩
  · show (Function.update r.seen j (some (s.cells j).rejected) k).isSome = true ↔ k.val + 1 < r.position + 1
    by_cases hk : k = j
    · rw [hk, Function.update_self]
      simp [position]
    · rw [Function.update_of_ne hk, w.seen k]
      have hne : k.val ≠ j.val := fun heq => hk (Fin.ext heq)
      omega
  · rw [hsum s.worth (hworth hseq).1]
    exact w.upper hseq
  · rw [hsum (fun k => s.worth k + s.inflight k) (by rw [(hworth hseq).1, (hworth hseq).2, Nat.add_zero])]
    exact w.lower hseq hdied

theorem cellAt_slot : s.cellAt (j.val + 1) = s.cells j := by
  unfold State.cellAt
  rw [dif_pos ⟨Nat.succ_pos _, j.isLt⟩]
  rfl

theorem cellAt_zero : s.cellAt 0 = s.retired := dif_neg (fun h => absurd h.1 (Nat.lt_irrefl 0))

theorem cellAt_last : s.cellAt (n + 1) = s.retired := dif_neg (fun h => absurd h.2 (by omega))

/-- A reader at its end has seen every slot. -/
theorem Window.total (w : Window s r) (position : r.position = n + 1) (f : Fin n → Nat) :
    (∑ j, (r.seen j).getD (f j)) = ∑ j, (r.seen j).getD 0 := by
  refine Finset.sum_congr rfl fun j _ => ?_
  have hsome : (r.seen j).isSome = true := by
    rw [w.seen j, position]
    omega
  obtain ⟨v, hv⟩ := Option.isSome_iff_exists.mp hsome
  rw [hv]
  rfl

/-- **An answer is between what had been counted when the read began and what is counted now.** -/
theorem answer_fits (h : Inv s) {k : Nat} (fits : ReaderFits s r) (position : r.position = n + 1)
    {value : Nat} (hseq : s.retired.seq = r.version) (hvalue : value = s.retired.rejected) :
    Inv { s.setReader k none with
      answers := s.answers ++ [⟨(∑ j, (r.seen j).getD 0) + value, r.start, s.counted, r.since⟩] } := by
  have hgone := h.setReader k (r := none) fun r' hr' => nomatch hr'
  have hwindow := fits.window (by omega)
  have hupper := hwindow.upper hseq
  rw [hwindow.total position] at hupper
  subst hvalue
  refine ⟨⟨hgone.sound.fits, hgone.sound.foldFits, hgone.sound.worth_le, hgone.sound.worth_eq, hgone.sound.begun_le,
    hgone.sound.begun_eq⟩, fun k' r' hr' => ?_,
    ⟨fun a ha => ?_, fun a ha => ?_, fun hdied a ha => ?_, fun p q a b ha hb hp => ?_⟩⟩
  · have hfits := hgone.readers k' r' hr'
    refine ⟨hfits.start, ?_, fun p a hp ha => ?_, hfits.position, hfits.sample, fun hposition => ?_⟩
    · have hsince := hfits.since
      simp only [List.length_append]
      exact Nat.le_trans hsince (Nat.le_add_right _ _)
    · have hlt : p < s.answers.length := Nat.lt_of_lt_of_le hp hfits.since
      exact hfits.earlier p a hp ((List.getElem?_append_left hlt).symm.trans ha)
    · have w := hfits.window hposition
      exact ⟨w.even, w.le, w.seen, w.upper, w.lower⟩
  · simp only [List.length_append]
    cases List.mem_append.mp ha with
    | inl hold => exact Nat.le_trans (h.answers.since a hold) (Nat.le_add_right _ _)
    | inr hnew =>
      rw [List.mem_singleton.mp hnew]
      exact Nat.le_trans fits.since (Nat.le_add_right _ _)
  · cases List.mem_append.mp ha with
    | inl hold => exact h.answers.le a hold
    | inr hnew =>
      rw [List.mem_singleton.mp hnew]
      exact ⟨hupper, Nat.le_refl _⟩
  · cases List.mem_append.mp ha with
    | inl hold => exact h.answers.ge hdied a hold
    | inr hnew =>
      rw [List.mem_singleton.mp hnew]
      have hlower := hwindow.lower hseq hdied
      rw [hwindow.total position] at hlower
      exact hlower
  · have hsince := fits.since
    by_cases hq : q < s.answers.length
    · rw [List.getElem?_append_left hq] at hb
      have hold : b.since ≤ s.answers.length := h.answers.since b (List.mem_of_getElem? hb)
      rw [List.getElem?_append_left (by omega)] at ha
      exact h.answers.later p q a b ha hb hp
    · rw [List.getElem?_append_right (by omega)] at hb
      have hnew := List.mem_singleton.mp (List.mem_of_getElem? hb)
      rw [hnew] at hp ⊢
      have hlt : p < s.answers.length := Nat.lt_of_lt_of_le hp hsince
      rw [List.getElem?_append_left hlt] at ha
      exact fits.earlier p a hp ha

/-- A reader that has read its slot goes on. -/
theorem inv_accept (h : Inv s) {k : Nat} (fits : ReaderFits s r) {value : Nat}
    (even : (s.cellAt r.position).seq % 2 = 0) (hvalue : value = (s.cellAt r.position).rejected) :
    Inv (s.accept k r (s.cellAt r.position).seq value) := by
  unfold accept
  split
  · next hzero =>
    rw [hzero, cellAt_zero] at even ⊢
    exact h.setReader k fun r' hr' => by
      cases hr'
      exact fits.open h.sound even
  · next hzero =>
    split
    · next hslot =>
      have hposition : r.position = (⟨r.position - 1, by omega⟩ : Fin n).val + 1 := by
        show r.position = r.position - 1 + 1
        omega
      have hcell : s.cellAt r.position = s.cells ⟨r.position - 1, by omega⟩ := by
        conv_lhs => rw [hposition]
        exact cellAt_slot
      rw [hcell] at even hvalue
      exact h.setReader k fun r' hr' => by
        cases hr'
        rw [hvalue]
        have hwindow := (fits.window (by omega)).see h.sound hposition (decide_eq_true even)
        exact ⟨fits.start, fits.since, fits.earlier, Nat.succ_le_succ hslot, (fun x hx => nomatch hx), fun _ => hwindow⟩
    · next hslot =>
      have hlast : r.position = n + 1 := by
        have := fits.position
        omega
      rw [hlast, cellAt_last] at hvalue
      split
      · next hversion =>
        rw [hlast, cellAt_last] at hversion
        exact answer_fits h fits hlast hversion hvalue
      · exact h.setReader k fun r' hr' => by
          cases hr'
          exact ⟨fits.start, fits.since, fits.earlier, Nat.zero_le _, (fun x hx => nomatch hx),
            fun hlt => absurd hlt (Nat.lt_irrefl 0)⟩

theorem ReaderFits.retry (fits : ReaderFits s r) {x : Option Sample}
    (sample : ∀ x', x = some x' → SampleFits (s.cellAt r.position) x') : ReaderFits s { r with sample := x } where
  start := fits.start
  since := fits.since
  earlier := fits.earlier
  position := fits.position
  sample := sample
  window hposition :=
    let w := fits.window hposition
    ⟨w.even, w.le, w.seen, w.upper, w.lower⟩

theorem inv_beginRead (h : Inv s) (k : Nat) : Inv (s.step (.beginRead k)) := by
  simp only [step]
  split
  · exact h
  · refine h.setReader k fun r' hr' => ?_
    cases hr'
    refine ⟨Nat.le_refl _, Nat.le_refl _, fun p a _ ha => ?_, Nat.zero_le _, (fun x hx => nomatch hx),
      fun hlt => absurd hlt (Nat.lt_irrefl 0)⟩
    have hcounted := (h.answers.le a (List.mem_of_getElem? ha)).2
    have hbegun := h.sound.begun_le
    simp only
    omega

theorem inv_sample (h : Inv s) (k : Nat) : Inv (s.step (.sample k)) := by
  simp only [step]
  split
  · next r hr =>
    split
    · next hstable =>
      refine h.setReader k fun r' hr' => ?_
      cases hr'
      refine (h.readers k r hr).retry fun x hx => ?_
      cases hx
      exact ⟨of_decide_eq_true hstable, Nat.le_refl _, fun v hv => nomatch hv⟩
    · exact h
  · exact h

theorem inv_copy (h : Inv s) (k torn : Nat) : Inv (s.step (.copy k torn)) := by
  simp only [step]
  split
  · next r hr =>
    split
    · next seqBefore hsample =>
      refine h.setReader k fun r' hr' => ?_
      cases hr'
      have hfits := (h.readers k r hr).sample _ hsample
      refine (h.readers k r hr).retry fun x hx => ?_
      cases hx
      refine ⟨hfits.even, hfits.le, fun v hv hseq => ?_⟩
      have hstable : (s.cellAt r.position).stable = true := decide_eq_true (hseq ▸ hfits.even)
      simp only [hstable, if_true, Option.some.injEq] at hv
      exact hv.symm
    · exact h
  · exact h

theorem inv_confirm (h : Inv s) (k : Nat) : Inv (s.step (.confirm k)) := by
  simp only [step]
  split
  · next r hr =>
    have hfits := h.readers k r hr
    split
    · next seqBefore copied hsample =>
      have hcopied := hfits.sample _ hsample
      split
      · next hseq =>
        subst hseq
        exact inv_accept h hfits hcopied.even (hcopied.copied copied rfl rfl)
      · exact h.setReader k fun r' hr' => by
          cases hr'
          exact hfits.retry fun x hx => nomatch hx
    · exact h
  · exact h

theorem inv_step (h : Inv s) (e : Event n) : Inv (s.step e) := by
  have hkeeps : e.reads = false → Keeps s (s.step e) → Inv (s.step e) := fun he keeps =>
    h.keeps keeps (step_frame e he).1 (step_frame e he).2
  cases e with
  | spawn i => exact hkeeps rfl (keeps_spawn i h.sound)
  | mark i reject => exact hkeeps rfl (keeps_mark i h.sound reject)
  | fill i => exact hkeeps rfl (keeps_fill i h.sound)
  | finish i => exact hkeeps rfl (keeps_finish i h.sound)
  | die i => exact hkeeps rfl (keeps_die i h.sound)
  | reap i => exact hkeeps rfl (keeps_reap i h.sound)
  | advance => exact hkeeps rfl (keeps_advance h.sound)
  | beginRead k => exact inv_beginRead h k
  | sample k => exact inv_sample h k
  | copy k torn => exact inv_copy h k torn
  | confirm k => exact inv_confirm h k
  | giveUp k => exact h.setReader k fun r' hr' => nomatch hr'

theorem inv_initial : Inv ({} : State n) where
  sound :=
    { fits := fun _ => ⟨rfl, rfl⟩
      foldFits := rfl
      worth_le := by simp [worth]
      worth_eq := fun _ => by simp [worth]
      begun_le := by simp [inflight]
      begun_eq := fun _ => by simp [inflight] }
  readers _ _ hr := nomatch hr
  answers := ⟨(fun _ ha => nomatch ha), (fun _ ha => nomatch ha), (fun _ _ ha => nomatch ha),
    fun p _ _ _ ha => by simp at ha⟩

theorem inv_run (events : List (Event n)) : Inv (run step {} events) :=
  run_invariant inv_initial (fun _ e h => inv_step h e) events

/-- **Aggregate reads invent nothing, and lose nothing of those who did not die in a write.** However data planes,
folds and reads are interleaved, a read returns at most what is counted when it returns. Unless a data plane died in
the middle of a write, it returns at least what had been counted, or was being written, when it began, so that a read
that begins after another is over does not return less. -/
theorem aggregate_counts_once (events : List (Event n)) :
    (∀ a ∈ (run step ({} : State n) events).answers,
      a.rejectedTotal ≤ a.counted ∧ a.counted ≤ (run step ({} : State n) events).counted) ∧
    ((run step ({} : State n) events).diedMidWrite = false →
      (∀ a ∈ (run step ({} : State n) events).answers, a.start ≤ a.rejectedTotal) ∧
      ∀ (p q : Nat) (a b : Answer), (run step ({} : State n) events).answers[p]? = some a →
        (run step ({} : State n) events).answers[q]? = some b → p < b.since → a.rejectedTotal ≤ b.rejectedTotal) := by
  have h := (inv_run events).answers
  refine ⟨h.le, fun hdied => ⟨h.ge hdied, fun p q a b ha hb hp => ?_⟩⟩
  calc
    a.rejectedTotal ≤ a.counted := (h.le a (List.mem_of_getElem? ha)).1
    _ ≤ b.start := h.later p q a b ha hb hp
    _ ≤ b.rejectedTotal := h.ge hdied b (List.mem_of_getElem? hb)

/-- A read of the one slot and the retired one. -/
def readOnce : List (Event 1) :=
  .beginRead 0 :: (List.replicate 3 [.sample 0, .copy 0 0, .confirm 0]).flatten

/-- A rejection is counted and read, its data plane ends and is folded, and the slots are read again. -/
def readFolded : List (Event 1) :=
  [.spawn (.last 0), .mark (.last 0) true, .fill (.last 0), .finish (.last 0)] ++ readOnce ++
    [.die (.last 0), .reap (.last 0)] ++ List.replicate 7 .advance ++ readOnce

theorem aggregate_counts_once_folded :
    ∃ a b, (run step ({} : State 1) readFolded).answers = [a, b] ∧ 1 ≤ a.rejectedTotal ∧
      a.rejectedTotal ≤ b.rejectedTotal ∧ b.rejectedTotal ≤ 1 := by
  have hanswers : (run step ({} : State 1) readFolded).answers = [⟨1, 1, 1, 0⟩, ⟨1, 1, 1, 1⟩] := by decide +kernel
  obtain ⟨hle, hlive⟩ := aggregate_counts_once readFolded
  obtain ⟨hge, hlater⟩ := hlive (by decide +kernel)
  rw [hanswers] at hle hge hlater
  exact ⟨_, _, hanswers, hge _ List.mem_cons_self, hlater 0 1 _ _ rfl rfl (by decide),
    (hle _ (List.mem_cons_of_mem _ List.mem_cons_self)).1⟩

end State

end SglangOmni.Router.Totals
