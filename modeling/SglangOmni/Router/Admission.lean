import SglangOmni.Lib.History
import SglangOmni.Lib.SoftBound

/-! `SharedAdmission`: one soft bound on the requests in flight, over the data planes.

Every data plane owns a slot of a shared array and is the only one to write it; the supervisor
resets a slot after its owner was reaped. A data plane looks at all the slots, one after another,
before it takes a request, while the others go on. One read of a slot and one write of a slot are
single steps: that is what the sequence number of a slot is for. A slot whose writer died in the
middle of a write cannot be read until it is reset. -/
namespace SglangOmni.Router.Admission
open Lib

/-! ### Slots and processes -/

/-- A slot, as a reader sees it; it is stable when its sequence number is even. -/
structure Slot where
  inflight : Nat := 0
  peakSum : Nat := 0
  rejectedTotal : Nat := 0
  generation : Nat := 0
  pid : Nat := 0
  stable : Bool := true
  deriving DecidableEq

/-- Where a data plane is in `try_acquire`: what it has read of the slots, in their order. -/
inductive Phase where
  | idle
  | scanning (seen : List Nat)
  deriving DecidableEq

structure Process where
  generation : Nat
  pid : Nat
  inflight : Nat := 0
  peakSum : Nat := 0
  rejectedTotal : Nat := 0
  siblingUnstable : Bool := false
  phase : Phase := .idle
  /-- History: the acquires that succeeded, and the releases that gave something back. -/
  acquires : Nat := 0
  releases : Nat := 0
  deriving DecidableEq

/-- What `_write_own` writes. -/
def Process.view (p : Process) : Slot where
  inflight := p.inflight
  peakSum := p.peakSum
  rejectedTotal := p.rejectedTotal
  generation := p.generation
  pid := p.pid

inductive Life where
  | vacant
  | running (process : Process)
  | dead
  deriving DecidableEq

structure State (n : Nat) where
  slots : Fin n → Slot
  lives : Fin n → Life
  /-- The supervisor's number of the last process it spawned for a slot. -/
  generations : Fin n → Nat

variable {n : Nat} {q : Process}

def State.create (n : Nat) : State n where
  slots _ := {}
  lives _ := .vacant
  generations _ := 0

/-! ### Steps -/

def setProcess (s : State n) (i : Fin n) (p : Process) : State n :=
  { s with lives := Function.update s.lives i (.running p) }

/-- `_write_own`, and what the process remembers. -/
def writeOwn (s : State n) (i : Fin n) (p : Process) : State n :=
  { s with slots := Function.update s.slots i p.view, lives := Function.update s.lives i (.running p) }

/-- `_still_owner`; a slot that is not stable cannot tell. -/
def stillOwner (slot : Slot) (p : Process) : Bool :=
  slot.stable && slot.generation = p.generation && slot.pid = p.pid

/-- A request that is shed is counted. -/
def shed (s : State n) (i : Fin n) (p : Process) : State n :=
  writeOwn s i { p with rejectedTotal := p.rejectedTotal + 1, phase := .idle }

inductive Event (n : Nat) where
  /-- `recent`: the sibling slots were probed a moment ago. -/
  | tryAcquire (i : Fin n) (recent : Bool)
  /-- `settles`: the slot is not written to all the time. -/
  | readSlot (i : Fin n) (settles : Bool)
  | conclude (i : Fin n)
  | release (i : Fin n)
  | touch (i : Fin n)
  | die (i : Fin n) (midWrite : Bool)
  | reclaim (i : Fin n)
  | spawn (i : Fin n) (pid : Nat)

/-- `try_acquire`, up to its look at the slots. -/
def tryAcquire (s : State n) (i : Fin n) (p : Process) (recent : Bool) : State n :=
  if !stillOwner (s.slots i) p then s
  else if p.siblingUnstable && recent then shed s i p
  else setProcess s i { p with phase := .scanning [] }

/-- The next slot of `_total_inflight`. -/
def readSlot (s : State n) (i : Fin n) (p : Process) (seen : List Nat) (settles : Bool) : State n :=
  if h : seen.length < n then
    let slot := s.slots ⟨seen.length, h⟩
    if settles && slot.stable then setProcess s i { p with phase := .scanning (seen ++ [slot.inflight]) }
    else shed s i { p with siblingUnstable := true }
  else s

/-- The rest of `try_acquire`, once every slot was read. -/
def conclude (maxInflight : Nat) (s : State n) (i : Fin n) (p : Process) (seen : List Nat) : State n :=
  if seen.length = n then
    let p := { p with siblingUnstable := false }
    if maxInflight ≤ seen.sum then shed s i p
    else
      writeOwn s i
        { p with
          inflight := p.inflight + 1
          peakSum := max p.peakSum (seen.sum + 1)
          phase := .idle
          acquires := p.acquires + 1 }
  else s

/-- `release`; one that has nothing to give back is ignored. -/
def release (s : State n) (i : Fin n) (p : Process) : State n :=
  if !stillOwner (s.slots i) p then s
  else if p.inflight = 0 then s
  else writeOwn s i { p with inflight := p.inflight - 1, releases := p.releases + 1 }

/-- `touch`. -/
def touch (s : State n) (i : Fin n) (p : Process) : State n :=
  if stillOwner (s.slots i) p then writeOwn s i p else s

/-- One step of a data plane, or of the supervisor; an event that cannot happen leaves the state as it
is. `try_acquire` and `release` are not interrupted in their own process. -/
def step (maxInflight : Nat) (s : State n) : Event n → State n
  | .tryAcquire i recent =>
    match s.lives i with
    | .running p => if p.phase = .idle then tryAcquire s i p recent else s
    | _ => s
  | .readSlot i settles =>
    match s.lives i with
    | .running p =>
      match p.phase with
      | .scanning seen => readSlot s i p seen settles
      | .idle => s
    | _ => s
  | .conclude i =>
    match s.lives i with
    | .running p =>
      match p.phase with
      | .scanning seen => conclude maxInflight s i p seen
      | .idle => s
    | _ => s
  | .release i =>
    match s.lives i with
    | .running p => if p.phase = .idle then release s i p else s
    | _ => s
  | .touch i =>
    match s.lives i with
    | .running p => if p.phase = .idle then touch s i p else s
    | _ => s
  | .die i midWrite =>
    match s.lives i with
    | .running _ =>
      { s with
        slots := Function.update s.slots i { s.slots i with stable := (s.slots i).stable && !midWrite }
        lives := Function.update s.lives i .dead }
    | _ => s
  | .reclaim i =>
    match s.lives i with
    | .dead =>
      { s with slots := Function.update s.slots i {}, lives := Function.update s.lives i .vacant }
    | _ => s
  | .spawn i pid =>
    match s.lives i with
    | .vacant =>
      { writeOwn s i { generation := s.generations i + 1, pid } with
        generations := Function.update s.generations i (s.generations i + 1) }
    | _ => s

/-- The slots and the processes after a history. -/
def runs (n maxInflight : Nat) (es : List (Event n)) : State n := Lib.run (step maxInflight) (State.create n) es

/-! ### The slots as counters -/

variable {s s' : State n} {c c' : Counters n} {maxInflight : Nat} {i : Fin n} {p : Process}

/-- The abstract counters count what the slots do, and a scan has seen what the process has read. -/
structure Sim (s : State n) (c : Counters n) : Prop where
  count : ∀ i, c.count i = (s.slots i).inflight
  scan : ∀ i p seen, s.lives i = .running p → p.phase = .scanning seen → ∃ start, c.scan i = some ⟨start, seen⟩

/-- A live slot is what its process wrote, and the process has counted right. -/
def Own (s : State n) : Prop :=
  ∀ i p, s.lives i = .running p → s.slots i = p.view ∧ p.inflight + p.releases = p.acquires

structure Bounded (maxInflight : Nat) (s : State n) : Prop where
  own : Own s
  counters : ∃ c, Sim s c ∧ c.Inv maxInflight

theorem lives_update {j : Fin n} {life : Life}
    (h : Function.update s.lives i life j = .running q) :
    (j = i ∧ life = .running q) ∨ (j ≠ i ∧ s.lives j = .running q) := by
  rw [Function.update_apply] at h
  split at h
  · next hj => exact .inl ⟨hj, h⟩
  · next hj => exact .inr ⟨hj, h⟩

theorem own_setProcess (h : Own s) (hi : s.lives i = .running p) (hview : q.view = p.view)
    (hcount : q.inflight + q.releases = q.acquires) : Own (setProcess s i q) := by
  intro j r hj
  obtain ⟨hji, he⟩ | ⟨_, hold⟩ := lives_update hj
  · cases he
    subst hji
    exact ⟨(h j p hi).1.trans hview.symm, hcount⟩
  · exact h j r hold

theorem own_writeOwn (h : Own s) (hcount : q.inflight + q.releases = q.acquires) : Own (writeOwn s i q) := by
  intro j r hj
  obtain ⟨hji, he⟩ | ⟨hne, hold⟩ := lives_update hj
  · cases he
    subst hji
    exact ⟨Function.update_self .., hcount⟩
  · obtain ⟨hslot, hr⟩ := h j r hold
    exact ⟨(Function.update_of_ne hne ..).trans hslot, hr⟩

/-- The others count on as before. -/
theorem sim_writeOwn (h : Sim s c) (hself : c'.count i = q.inflight)
    (hcount : ∀ j, j ≠ i → c'.count j = c.count j) (hscan : ∀ j, j ≠ i → c'.scan j = c.scan j)
    (hphase : q.phase = .idle) : Sim (writeOwn s i q) c' where
  count j := by
    by_cases hj : j = i
    · subst hj
      have hslot : (writeOwn s j q).slots j = q.view := Function.update_self ..
      rw [hslot, hself]
      rfl
    · have hslot : (writeOwn s i q).slots j = s.slots j := Function.update_of_ne hj ..
      rw [hslot, hcount j hj]
      exact h.count j
  scan j r seen hj hseen := by
    obtain ⟨_, hj⟩ | ⟨hne, hj⟩ := lives_update hj
    · cases hj
      rw [hphase] at hseen
      cases hseen
    · rw [hscan j hne]
      exact h.scan j r seen hj hseen

theorem sim_setProcess (h : Sim s c) {seen : List Nat} {start : Nat} (hphase : q.phase = .scanning seen)
    (hcount : c'.count = c.count) (hself : c'.scan i = some ⟨start, seen⟩)
    (hscan : ∀ j, j ≠ i → c'.scan j = c.scan j) : Sim (setProcess s i q) c' where
  count j := by
    rw [hcount]
    exact h.count j
  scan j r seen' hj hseen := by
    obtain ⟨hji, he⟩ | ⟨hne, hold⟩ := lives_update hj
    · cases he
      subst hji
      rw [hphase] at hseen
      cases hseen
      exact ⟨start, hself⟩
    · rw [hscan j hne]
      exact h.scan j r seen' hold hseen

section
variable (h : Bounded maxInflight s) (hi : s.lives i = .running p)
include h hi

/-- Nothing changes what a process has in flight when it sheds. -/
theorem bounded_shed
    (hinflight : q.inflight = p.inflight) (hcount : q.inflight + q.releases = q.acquires) :
    Bounded maxInflight (shed s i q) := by
  obtain ⟨c, hsim, hinv⟩ := h.counters
  refine ⟨own_writeOwn h.own hcount, c, sim_writeOwn hsim ?_ (fun _ _ => rfl) (fun _ _ => rfl) rfl, hinv⟩
  rw [hsim.count i, (h.own i p hi).1]
  exact hinflight.symm

theorem bounded_tryAcquire (recent : Bool) :
    Bounded maxInflight (tryAcquire s i p recent) := by
  have hcount := (h.own i p hi).2
  unfold tryAcquire
  split
  · exact h
  · split
    · exact bounded_shed h hi rfl hcount
    · obtain ⟨c, hsim, hinv⟩ := h.counters
      refine ⟨own_setProcess h.own hi rfl hcount, c.start i, ?_, hinv.start i⟩
      exact sim_setProcess hsim rfl rfl (Function.update_self ..) fun j hj => Function.update_of_ne hj ..

theorem bounded_readSlot {seen : List Nat}
    (hphase : p.phase = .scanning seen) (settles : Bool) : Bounded maxInflight (readSlot s i p seen settles) := by
  have hcount := (h.own i p hi).2
  unfold readSlot
  split
  · next hlt =>
    dsimp only
    split
    · obtain ⟨c, hsim, hinv⟩ := h.counters
      obtain ⟨start, hscan⟩ := hsim.scan i p seen hi hphase
      refine ⟨own_setProcess h.own hi rfl hcount, c.read i ⟨start, seen⟩ ⟨seen.length, hlt⟩, ?_,
        hinv.read hscan rfl⟩
      have hself : (c.read i ⟨start, seen⟩ ⟨seen.length, hlt⟩).scan i =
          some ⟨start, seen ++ [(s.slots ⟨seen.length, hlt⟩).inflight]⟩ := by
        rw [← hsim.count ⟨seen.length, hlt⟩]
        exact Function.update_self ..
      exact sim_setProcess hsim rfl rfl hself fun j hj => Function.update_of_ne hj ..
    · exact bounded_shed h hi rfl hcount
  · exact h

theorem bounded_conclude {seen : List Nat}
    (hphase : p.phase = .scanning seen) : Bounded maxInflight (conclude maxInflight s i p seen) := by
  obtain ⟨hslot, hcount⟩ := h.own i p hi
  unfold conclude
  split
  · next hfull =>
    dsimp only
    split
    · exact bounded_shed h hi rfl hcount
    · next hless =>
      obtain ⟨c, hsim, hinv⟩ := h.counters
      obtain ⟨start, hscan⟩ := hsim.scan i p seen hi hphase
      refine ⟨own_writeOwn h.own ?_, c.acquire i ⟨start, seen⟩, ?_, hinv.acquire hscan hfull (Nat.not_le.mp hless)⟩
      · show p.inflight + 1 + p.releases = p.acquires + 1
        omega
      · refine sim_writeOwn hsim ?_ (fun j hj => Function.update_of_ne hj ..)
          (fun j hj => Function.update_of_ne hj ..) rfl
        have hself : (c.acquire i ⟨start, seen⟩).count i = c.count i + 1 := Function.update_self ..
        rw [hself, hsim.count i, hslot]
        rfl
  · exact h

theorem bounded_release (hphase : p.phase = .idle) :
    Bounded maxInflight (release s i p) := by
  obtain ⟨hslot, hcount⟩ := h.own i p hi
  unfold release
  split
  · exact h
  · split
    · exact h
    · next hpos =>
      obtain ⟨c, hsim, hinv⟩ := h.counters
      have hhave : c.count i = p.inflight := by rw [hsim.count i, hslot]; rfl
      refine ⟨own_writeOwn h.own ?_, c.lower i (p.inflight - 1), ?_, hinv.lower i (by omega)⟩
      · show p.inflight - 1 + (p.releases + 1) = p.acquires
        omega
      · exact sim_writeOwn hsim (Function.update_self ..) (fun j hj => Function.update_of_ne hj ..)
          (fun _ _ => rfl) hphase

theorem bounded_touch (hphase : p.phase = .idle) :
    Bounded maxInflight (touch s i p) := by
  obtain ⟨hslot, hcount⟩ := h.own i p hi
  unfold touch
  split
  · obtain ⟨c, hsim, hinv⟩ := h.counters
    refine ⟨own_writeOwn h.own hcount, c, sim_writeOwn hsim ?_ (fun _ _ => rfl) (fun _ _ => rfl) hphase, hinv⟩
    rw [hsim.count i, hslot]
    rfl
  · exact h

end

theorem bounded_die (h : Bounded maxInflight s) (i : Fin n) (stable : Bool) :
    Bounded maxInflight
      { s with
        slots := Function.update s.slots i { s.slots i with stable }
        lives := Function.update s.lives i .dead } := by
  have hlive : ∀ j q, Function.update s.lives i .dead j = .running q → j ≠ i ∧ s.lives j = .running q := by
    intro j q hj
    obtain ⟨_, hj⟩ | hj := lives_update hj
    · cases hj
    · exact hj
  obtain ⟨c, hsim, hinv⟩ := h.counters
  refine ⟨?_, c, ⟨?_, ?_⟩, hinv⟩
  · intro j q hj
    obtain ⟨hne, hj⟩ := hlive j q hj
    obtain ⟨hslot, hcount⟩ := h.own j q hj
    exact ⟨(Function.update_of_ne hne ..).trans hslot, hcount⟩
  · intro j
    rw [hsim.count j]
    show (s.slots j).inflight = (Function.update s.slots i { s.slots i with stable } j).inflight
    by_cases hj : j = i
    · subst hj
      rw [Function.update_self]
    · rw [Function.update_of_ne hj]
  · exact fun j q seen hj hseen => hsim.scan j q seen (hlive j q hj).2 hseen

theorem bounded_reclaim (h : Bounded maxInflight s) (i : Fin n) :
    Bounded maxInflight
      { s with slots := Function.update s.slots i {}, lives := Function.update s.lives i .vacant } := by
  have hlive : ∀ j q, Function.update s.lives i .vacant j = .running q → j ≠ i ∧ s.lives j = .running q := by
    intro j q hj
    obtain ⟨_, hj⟩ | hj := lives_update hj
    · cases hj
    · exact hj
  obtain ⟨c, hsim, hinv⟩ := h.counters
  refine ⟨?_, c.reset i, ⟨?_, ?_⟩, hinv.reset i⟩
  · intro j q hj
    obtain ⟨hne, hj⟩ := hlive j q hj
    obtain ⟨hslot, hcount⟩ := h.own j q hj
    exact ⟨(Function.update_of_ne hne ..).trans hslot, hcount⟩
  · intro j
    show Function.update c.count i 0 j = (Function.update s.slots i {} j).inflight
    by_cases hj : j = i
    · subst hj
      rw [Function.update_self, Function.update_self]
    · rw [Function.update_of_ne hj, Function.update_of_ne hj]
      exact hsim.count j
  · intro j q seen hj hseen
    obtain ⟨hne, hj⟩ := hlive j q hj
    have hscan : (c.reset i).scan j = c.scan j := Function.update_of_ne hne ..
    rw [hscan]
    exact hsim.scan j q seen hj hseen

theorem bounded_spawn (h : Bounded maxInflight s) (i : Fin n) (generation pid : Nat) (generations : Fin n → Nat) :
    Bounded maxInflight { writeOwn s i { generation, pid } with generations } := by
  obtain ⟨c, hsim, hinv⟩ := h.counters
  have hown := own_writeOwn (i := i) (q := { generation, pid }) h.own rfl
  have hsim' : Sim (writeOwn s i { generation, pid }) (c.reset i) :=
    sim_writeOwn hsim (Function.update_self ..) (fun j hj => Function.update_of_ne hj ..)
      (fun j hj => Function.update_of_ne hj ..) rfl
  exact ⟨hown, c.reset i, ⟨hsim'.count, hsim'.scan⟩, hinv.reset i⟩

/-! ### Every run -/

theorem bounded_create (n maxInflight : Nat) : Bounded maxInflight (State.create n) := by
  refine ⟨fun i p hi => ?_, Counters.create n, ⟨fun _ => rfl, fun i p seen hi => ?_⟩, Counters.inv_create maxInflight⟩
  · cases hi
  · cases hi

theorem bounded_step (h : Bounded maxInflight s) (e : Event n) : Bounded maxInflight (step maxInflight s e) := by
  cases e with
  | tryAcquire i recent =>
    simp only [step]
    split
    · next p hi =>
      split
      · exact bounded_tryAcquire h hi recent
      · exact h
    · exact h
  | readSlot i settles =>
    simp only [step]
    split
    · next p hi =>
      split
      · next seen hphase => exact bounded_readSlot h hi hphase settles
      · exact h
    · exact h
  | conclude i =>
    simp only [step]
    split
    · next p hi =>
      split
      · next seen hphase => exact bounded_conclude h hi hphase
      · exact h
    · exact h
  | release i =>
    simp only [step]
    split
    · next p hi =>
      split
      · next hphase => exact bounded_release h hi hphase
      · exact h
    · exact h
  | touch i =>
    simp only [step]
    split
    · next p hi =>
      split
      · next hphase => exact bounded_touch h hi hphase
      · exact h
    · exact h
  | die i midWrite =>
    simp only [step]
    split
    · exact bounded_die h i _
    · exact h
  | reclaim i =>
    simp only [step]
    split
    · exact bounded_reclaim h i
    · exact h
  | spawn i pid =>
    simp only [step]
    split
    · exact bounded_spawn h i _ pid _
    · exact h

/-- **The bound is soft by at most one request for every other data plane.** In every interleaving of
the reads and writes of `n` data planes, with deaths, resets and restarts at any point, the slots never
sum to more than `maxInflight + n - 1`; and the slot of a live data plane counts its acquires less its
releases. -/
theorem admission_soft_bound (n maxInflight : Nat) (es : List (Event n)) :
    ∑ i, ((runs n maxInflight es).slots i).inflight ≤ maxInflight + n - 1 ∧
      ∀ i p, (runs n maxInflight es).lives i = .running p →
        ((runs n maxInflight es).slots i).inflight + p.releases = p.acquires := by
  have h : Bounded maxInflight (runs n maxInflight es) :=
    run_invariant (bounded_create n maxInflight) (fun _ e h => bounded_step h e) es
  obtain ⟨c, hsim, hinv⟩ := h.counters
  refine ⟨?_, ?_⟩
  · have hsum : ∑ i, ((runs n maxInflight es).slots i).inflight = ∑ i, c.count i :=
      Finset.sum_congr rfl fun i _ => (hsim.count i).symm
    rw [hsum]
    exact hinv.sum_le
  · intro i p hi
    obtain ⟨hslot, hcount⟩ := h.own i p hi
    rw [hslot]
    exact hcount

end SglangOmni.Router.Admission
