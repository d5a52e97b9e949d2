import SglangOmni.Lib.History
import SglangOmni.Scheduling.Batches

/-! The lookahead decode loop against aborts from the listener thread.

A step is launched on the requests that the batch lists, its snapshot waits as
`_async_pending`, and when it is resolved the model runner hands back one row for each
request it was launched with. Aborts run beside the loop: they look a batch up, read what
it lists and write back what is left, without the loop's knowledge. The loop's and the
aborts' reads and writes of the batches are steps of their own. -/
namespace SglangOmni.Scheduling.Lookahead
open Lib

/-! ### State -/

/-- Where an `abort` call stands. `select` before it looks up the next batch, `fetch` before
it reads what the batch lists, `store` before it writes back what is left. -/
inductive At where
  | mark
  | select (slots : List Slot)
  | fetch (batch : Nat) (slots : List Slot)
  | store (batch : Nat) (remaining : List Nat) (slots : List Slot)
  | through
  deriving DecidableEq

structure Abort where
  requestId : String
  pc : At
  deriving DecidableEq

/-- Where the loop stands: at the top, with a batch to launch, with a step that is launched
and not yet kept, or somewhere in `_resolve_and_process`. -/
inductive Phase where
  | top
  | chosen (batch : Nat)
  | launched (batch : Nat) (rows : List Nat)
  | resolving (batch : Nat) (rows : List Nat)
  | resolved (batch : Nat) (preFinished : List Bool) (nextTokenIds : List Nat)
  | trimmed (batch : Nat) (nextTokenIds : List Nat)
  deriving DecidableEq

/-- A call of `process_batch_result` from `_resolve_and_process`: what the batch lists, and
for each row the request it was sampled for. -/
structure Call where
  reqs : List Nat
  nextTokenIds : List Nat
  deriving DecidableEq

structure State where
  batches : Batches
  fresh : Nat
  phase : Phase
  aborts : List Abort
  processed : List Call

def State.create (rid : Nat → String) : State where
  batches :=
    { req := fun q => { rid := rid q }
      reqs := fun _ => []
      runningBatch := 0
      curBatch := none
      lastBatch := none
      asyncPending := none }
  fresh := 1
  phase := .top
  aborts := []
  processed := []

/-! ### The loop -/

/-- What upstream and the rest of the loop do between two lookahead steps: batches are
built, filtered and merged, requests finish, are retracted or run synchronously. The
snapshot in flight is nobody else's. -/
structure Between where
  req : Nat → Req
  reqs : Nat → List Nat
  runningBatch : Nat
  curBatch : Option Nat
  lastBatch : Option Nat

def between (s : State) (u : Between) : State :=
  { s with
    batches :=
      { s.batches with
        req := u.req
        reqs := fun b => if some b = s.batches.asyncPending.map (·.batch) then s.batches.reqs b else u.reqs b
        runningBatch := u.runningBatch
        curBatch := u.curBatch
        lastBatch := u.lastBatch } }

/-- `_handle_batch_failure`: an abort for every request of the batch, with nothing deferred. -/
def handleBatchFailure (s : State) (batch : Nat) : State :=
  { s with
    phase := .top
    aborts := s.aborts ++ (s.batches.reqs batch).map fun q =>
      { requestId := (s.batches.req q).rid, pc := .select Slot.all } }

/-- `_run_batch_launch`. -/
def runBatchLaunch (s : State) (batch : Nat) (ok : Bool) : State :=
  if ok then { s with phase := .launched batch (s.batches.reqs batch) } else handleBatchFailure s batch

/-- The launched step becomes the pending one, and the one before it is next to resolve. -/
def keepPending (s : State) (batch : Nat) (rows : List Nat) : State :=
  { s with
    batches :=
      { s.batches with
        reqs := Function.update s.batches.reqs s.fresh (s.batches.reqs batch)
        asyncPending := some { batch := s.fresh, rows } }
    fresh := s.fresh + 1
    phase :=
      match s.batches.asyncPending with
      | none => .top
      | some prev => .resolving prev.batch prev.rows }

/-- `_resolve_pending_async`. -/
def resolvePendingAsync (s : State) : State :=
  match s.batches.asyncPending with
  | none => s
  | some pending =>
    { s with
      batches := { s.batches with asyncPending := none }
      phase := .resolving pending.batch pending.rows }

/-- `_resolve_and_process` up to the rows of the step; the collect may mark requests. -/
def resolve (s : State) (batch : Nat) (rows : List Nat) (ok : Bool) (req : Nat → Req) : State :=
  if ok then
    { s with
      batches := { s.batches with req }
      phase := .resolved batch
        ((s.batches.reqs batch).map fun q => (s.batches.req q).finished || (s.batches.req q).isRetracted) rows }
  else handleBatchFailure s batch

/-- `keep`. -/
def keep (preFinished : List Bool) : List Nat :=
  (List.range preFinished.length).filter fun i => preFinished[i]? = some false

/-- `[l[i] for i in keep]`, which raises when an index is out of range. -/
def select (l : List Nat) (keep : List Nat) : Option (List Nat) := keep.mapM fun i => l[i]?

/-- The trim. -/
def trim (s : State) (batch : Nat) (preFinished : List Bool) (nextTokenIds : List Nat) : State :=
  let keep := keep preFinished
  if keep.length < (s.batches.reqs batch).length then
    match select nextTokenIds keep, select (s.batches.reqs batch) keep with
    | some rows, some reqs =>
      { s with
        batches := { s.batches with reqs := Function.update s.batches.reqs batch reqs }
        phase := .trimmed batch (if keep = [] then nextTokenIds else rows) }
    | _, _ => handleBatchFailure s batch
  else { s with phase := .trimmed batch nextTokenIds }

/-- The call of `process_batch_result`. -/
def process (s : State) (batch : Nat) (nextTokenIds : List Nat) : State :=
  if s.batches.reqs batch = [] then { s with phase := .top }
  else
    { s with
      phase := .top
      processed := s.processed ++ [{ reqs := s.batches.reqs batch, nextTokenIds }] }

/-! ### Aborts -/

/-- The next step of an abort call. -/
def abortStep (s : State) (a : Abort) : State × Abort :=
  match a.pc with
  | .mark =>
    let (batches, runningAbort) := s.batches.markRunningRequestAborted a.requestId
    ({ s with batches }, { a with pc := if runningAbort then .through else .select Slot.all })
  | .select [] => (s, { a with pc := .through })
  | .select (slot :: slots) =>
    match s.batches.slot slot with
    | none => (s, { a with pc := .select slots })
    | some b => (s, { a with pc := .fetch b slots })
  | .fetch b slots =>
    ({ s with batches := s.batches.detachAll a.requestId (s.batches.reqs b) },
      { a with pc := .store b (s.batches.remaining a.requestId (s.batches.reqs b)) slots })
  | .store b remaining slots =>
    ({ s with batches := { s.batches with reqs := Function.update s.batches.reqs b remaining } },
      { a with pc := .select slots })
  | .through => (s, a)

/-! ### Events -/

inductive Event where
  | between (u : Between)
  | choose
  | launch (ok : Bool)
  | keepPending
  | flush
  | resolve (ok : Bool) (req : Nat → Req)
  | trim
  | process
  | abort (requestId : String)
  | abortStep (i : Nat)

/-- The loop's step or an abort's; an event that cannot happen leaves the state as it is. -/
def step (s : State) : Event → State
  | .between u =>
    match s.phase with
    | .top => between s u
    | _ => s
  | .choose =>
    match s.phase, s.batches.curBatch with
    | .top, some b => { s with phase := .chosen b }
    | _, _ => s
  | .launch ok =>
    match s.phase with
    | .chosen b => runBatchLaunch s b ok
    | _ => s
  | .keepPending =>
    match s.phase with
    | .launched b rows => keepPending s b rows
    | _ => s
  | .flush =>
    match s.phase with
    | .top => resolvePendingAsync s
    | _ => s
  | .resolve ok req =>
    match s.phase with
    | .resolving b rows => resolve s b rows ok req
    | _ => s
  | .trim =>
    match s.phase with
    | .resolved b preFinished nextTokenIds => trim s b preFinished nextTokenIds
    | _ => s
  | .process =>
    match s.phase with
    | .trimmed b nextTokenIds => process s b nextTokenIds
    | _ => s
  | .abort r => { s with aborts := s.aborts ++ [{ requestId := r, pc := .mark }] }
  | .abortStep i =>
    match s.aborts[i]? with
    | none => s
    | some a => { (abortStep s a).1 with aborts := s.aborts.set i (abortStep s a).2 }

/-! ### Rows and requests -/

/-- The batch of the step that the loop has launched and not yet processed. -/
def Phase.batch? : Phase → Option Nat
  | .top | .chosen _ => none
  | .launched b _ | .resolving b _ | .resolved b .. | .trimmed b _ => some b

/-- The batch lists the requests of a step that is launched and not processed. -/
def InFlight (s : State) (b : Nat) : Prop :=
  s.batches.asyncPending.map (·.batch) = some b ∨ s.phase.batch? = some b

instance (s : State) (b : Nat) : Decidable (InFlight s b) := inferInstanceAs (Decidable (_ ∨ _))

/-- The abort does not change what a batch in flight lists. -/
def Abort.spares (s : State) (a : Abort) : Prop :=
  match a.pc with
  | .store b remaining _ => InFlight s b → remaining = s.batches.reqs b
  | _ => True

instance (s : State) (a : Abort) : Decidable (a.spares s) := by
  unfold Abort.spares
  split
  · infer_instance
  · infer_instance

/-- The condition on a step. -/
def Spared (s : State) : Event → Prop
  | .abortStep i => ∀ a ∈ s.aborts[i]?, a.spares s
  | _ => True

instance (s : State) : (e : Event) → Decidable (Spared s e)
  | .abortStep i => inferInstanceAs (Decidable (∀ a ∈ s.aborts[i]?, a.spares s))
  | .between _ | .choose | .launch _ | .keepPending | .flush | .resolve .. | .trim | .process | .abort _ =>
    .isTrue trivial

/-- What the loop's own batch lists is what its step was launched with. -/
def Phase.Aligned (b : Batches) : Phase → Prop
  | .top | .chosen _ => True
  | .launched batch rows => b.reqs batch = rows
  | .resolving batch rows => b.reqs batch = rows ∧ b.asyncPending.map (·.batch) ≠ some batch
  | .resolved batch preFinished rows =>
    b.reqs batch = rows ∧ preFinished.length = rows.length ∧ b.asyncPending.map (·.batch) ≠ some batch
  | .trimmed batch rows => b.reqs batch = [] ∨ b.reqs batch = rows

structure Aligned (s : State) : Prop where
  pending : ∀ p, s.batches.asyncPending = some p → s.batches.reqs p.batch = p.rows ∧ p.batch < s.fresh
  phase : s.phase.Aligned s.batches
  calls : ∀ c ∈ s.processed, c.reqs = c.nextTokenIds

variable {s : State} {rows : List Nat}

theorem aligned_create (rid : Nat → String) : Aligned (State.create rid) where
  pending _ h := nomatch h
  phase := trivial
  calls _ h := nomatch h

section
variable (h : Aligned s)
include h

/-- Writes that spare the batches in flight keep the rest. -/
theorem Aligned.congr {b : Batches} (hpending : b.asyncPending = s.batches.asyncPending)
    (hreqs : ∀ x, InFlight s x → b.reqs x = s.batches.reqs x) (aborts : List Abort) :
    Aligned { s with batches := b, aborts } := by
  refine ⟨fun p hp => ?_, ?_, h.calls⟩
  · rw [hpending] at hp
    have hin : InFlight s p.batch := .inl (by rw [hp]; rfl)
    rw [hreqs p.batch hin]
    exact h.pending p hp
  · have hphase := h.phase
    revert hphase
    simp only
    cases hs : s.phase with
    | top => exact fun _ => trivial
    | chosen batch => exact fun _ => trivial
    | launched batch rows =>
      have hin : InFlight s batch := .inr (by rw [hs]; rfl)
      simp only [Phase.Aligned, hreqs batch hin, imp_self]
    | resolving batch rows | resolved batch preFinished rows =>
      have hin : InFlight s batch := .inr (by rw [hs]; rfl)
      simp only [Phase.Aligned, hreqs batch hin, hpending, imp_self]
    | trimmed batch rows =>
      have hin : InFlight s batch := .inr (by rw [hs]; rfl)
      simp only [Phase.Aligned, hreqs batch hin, imp_self]

/-- The loop is back at the top. -/
theorem Aligned.top (aborts : List Abort) : Aligned { s with phase := .top, aborts } :=
  ⟨h.pending, trivial, h.calls⟩

theorem Aligned.handleBatchFailure (b : Nat) : Aligned (handleBatchFailure s b) := h.top _

theorem Aligned.between (hs : s.phase = .top) (u : Between) : Aligned (between s u) := by
  have hkept := h.congr (b := (Lookahead.between s u).batches) rfl (fun x hx => ?_) s.aborts
  · exact hkept
  · rcases hx with hx | hx
    · exact if_pos hx.symm
    · rw [hs] at hx
      cases hx

theorem Aligned.keepPending {b : Nat} (hs : s.phase = .launched b rows) :
    Aligned (keepPending s b rows) := by
  have hrows : s.batches.reqs b = rows := by
    have := h.phase
    rw [hs] at this
    exact this
  refine ⟨fun p hp => ?_, ?_, h.calls⟩
  · cases hp
    exact ⟨(Function.update_self ..).trans hrows, Nat.lt_succ_self _⟩
  · simp only [Lookahead.keepPending]
    split
    · trivial
    · next prev hprev =>
      obtain ⟨hlisted, hlt⟩ := h.pending prev hprev
      refine ⟨(Function.update_of_ne (Nat.ne_of_lt hlt) ..).trans hlisted, ?_⟩
      simp only [Option.map_some, ne_eq, Option.some.injEq]
      exact Ne.symm (Nat.ne_of_lt hlt)

theorem Aligned.resolvePendingAsync : Aligned (resolvePendingAsync s) := by
  unfold Lookahead.resolvePendingAsync
  split
  · exact h
  · next p hp =>
    exact ⟨(fun _ hnone => nomatch hnone), ⟨(h.pending p hp).1, fun hsome => nomatch hsome⟩, h.calls⟩

theorem Aligned.resolve {b : Nat} (hs : s.phase = .resolving b rows) (ok : Bool)
    (req : Nat → Req) : Aligned (resolve s b rows ok req) := by
  have hphase := h.phase
  rw [hs] at hphase
  obtain ⟨hrows, hne⟩ := hphase
  unfold Lookahead.resolve
  split
  · refine ⟨h.pending, ⟨hrows, ?_, hne⟩, h.calls⟩
    rw [List.length_map, hrows]
  · exact h.handleBatchFailure b

/-- The trim takes the same positions out of both. -/
theorem Aligned.trim {b : Nat} {preFinished : List Bool}
    (hs : s.phase = .resolved b preFinished rows) : Aligned (trim s b preFinished rows) := by
  have hphase := h.phase
  rw [hs] at hphase
  obtain ⟨hrows, -, hne⟩ := hphase
  simp only [Lookahead.trim, hrows]
  split
  · split
    · next kept reqs hkept hreqs =>
      have hsame : kept = reqs := by
        rw [hkept] at hreqs
        exact Option.some.inj hreqs
      refine ⟨fun p hp => ?_, ?_, h.calls⟩
      · have hother : p.batch ≠ b := by
          intro heq
          exact hne (by rw [hp, ← heq]; rfl)
        exact ⟨(Function.update_of_ne hother ..).trans (h.pending p hp).1, (h.pending p hp).2⟩
      · simp only [Phase.Aligned, Function.update_self]
        split
        · next hnil =>
          left
          rw [hnil] at hreqs
          exact (Option.some.inj hreqs).symm
        · exact .inr hsame.symm
    · exact h.handleBatchFailure b
  · exact ⟨h.pending, .inr hrows, h.calls⟩

theorem Aligned.process {b : Nat} (hs : s.phase = .trimmed b rows) :
    Aligned (process s b rows) := by
  have hphase := h.phase
  rw [hs] at hphase
  unfold Lookahead.process
  split
  · exact h.top s.aborts
  · next hne =>
    refine ⟨h.pending, trivial, fun c hc => ?_⟩
    rcases List.mem_append.mp hc with hc | hc
    · exact h.calls c hc
    · rw [List.mem_singleton.mp hc]
      exact hphase.resolve_left hne

end

/-! ### Aborts beside the loop -/

theorem mark_reqs (b : Batches) (r : String) :
    (b.markRunningRequestAborted r).1.reqs = b.reqs ∧
      (b.markRunningRequestAborted r).1.asyncPending = b.asyncPending := by
  have hone : ∀ (acc : Batches × Bool) (q : Nat),
      (Batches.markOne r acc q).1.reqs = acc.1.reqs ∧
        (Batches.markOne r acc q).1.asyncPending = acc.1.asyncPending := by
    intro acc q
    simp only [Batches.markOne]
    split
    · exact ⟨rfl, rfl⟩
    · split
      · exact ⟨rfl, rfl⟩
      · split <;> exact ⟨rfl, rfl⟩
  have hfold : ∀ (l : List Nat) (acc : Batches × Bool),
      (l.foldl (Batches.markOne r) acc).1.reqs = acc.1.reqs ∧
        (l.foldl (Batches.markOne r) acc).1.asyncPending = acc.1.asyncPending := by
    intro l
    induction l with
    | nil => exact fun _ => ⟨rfl, rfl⟩
    | cons q rest ih =>
      intro acc
      obtain ⟨hreqs, hpending⟩ := ih (Batches.markOne r acc q)
      exact ⟨hreqs.trans (hone acc q).1, hpending.trans (hone acc q).2⟩
  exact hfold _ _

theorem Aligned.abortStep (h : Aligned s) {a : Abort} (hrule : a.spares s) (aborts : List Abort) :
    Aligned { (abortStep s a).1 with aborts } := by
  have hsame : Aligned { s with aborts } := ⟨h.pending, h.phase, h.calls⟩
  unfold Abort.spares at hrule
  unfold Lookahead.abortStep
  split
  · next hpc =>
    obtain ⟨hreqs, hpending⟩ := mark_reqs s.batches a.requestId
    exact h.congr hpending (fun x _ => congrFun hreqs x) aborts
  · exact hsame
  · split
    · exact hsame
    · exact hsame
  · exact ⟨h.pending, h.phase, h.calls⟩
  · next b remaining slots hpc =>
    rw [hpc] at hrule
    have hkept := h.congr (b := { s.batches with reqs := Function.update s.batches.reqs b remaining }) rfl
      (fun x hx => ?_) aborts
    · exact hkept
    · by_cases hxb : x = b
      · subst hxb
        exact (Function.update_self ..).trans (hrule hx)
      · exact Function.update_of_ne hxb ..
  · exact hsame

theorem Aligned.step (h : Aligned s) (e : Event) (hrule : Spared s e) : Aligned (step s e) := by
  cases e with
  | between u =>
    simp only [Lookahead.step]
    split
    · next hs => exact h.between hs u
    · exact h
  | choose =>
    simp only [Lookahead.step]
    split
    · exact ⟨h.pending, trivial, h.calls⟩
    · exact h
  | launch ok =>
    simp only [Lookahead.step]
    split
    · next b hs =>
      unfold runBatchLaunch
      split
      · exact ⟨h.pending, rfl, h.calls⟩
      · exact h.handleBatchFailure b
    · exact h
  | keepPending =>
    simp only [Lookahead.step]
    split
    · next b rows hs => exact h.keepPending hs
    · exact h
  | flush =>
    simp only [Lookahead.step]
    split
    · exact h.resolvePendingAsync
    · exact h
  | resolve ok req =>
    simp only [Lookahead.step]
    split
    · next b rows hs => exact h.resolve hs ok req
    · exact h
  | trim =>
    simp only [Lookahead.step]
    split
    · next b preFinished rows hs => exact h.trim hs
    · exact h
  | process =>
    simp only [Lookahead.step]
    split
    · next b rows hs => exact h.process hs
    · exact h
  | abort r => exact ⟨h.pending, h.phase, h.calls⟩
  | abortStep i =>
    simp only [Lookahead.step]
    split
    · exact h
    · next a ha => exact h.abortStep (hrule a ha) _

/-- **Row alignment.** In every run of the lookahead loop beside any number of aborts whose
steps all meet the condition, every call of `process_batch_result` finds one row for each
request of its batch, and row `i` is the one sampled for request `i`. -/
theorem rows_aligned (rid : Nat → String) (history : List Event)
    (hrule : Along step Spared (State.create rid) history) :
    ∀ call ∈ (run step (State.create rid) history).processed, call.nextTokenIds = call.reqs := by
  have hrun : Aligned (run step (State.create rid) history) :=
    along_invariant (aligned_create rid) (fun t e ht hr => ht.step e hr) history hrule
  exact fun call hc => (hrun.calls call hc).symm

/-! ### Three requests -/

def named : Nat → String
  | 0 => "a"
  | 1 => "b"
  | _ => "c"

/-- The running batch lists the requests, of which the first may have finished. -/
def decoding (reqs : List Nat) (finished : Bool) : Between where
  req := fun q =>
    { rid := named q, finishedReason := if finished ∧ q = 0 then some .done else none,
      omniTerminalClaimed := finished ∧ q = 0 }
  reqs := fun b => if b = 0 then reqs else []
  runningBatch := 0
  curBatch := some 0
  lastBatch := some 0

/-- Two steps are launched; then the first request has finished, and is still in the second. -/
def twoSteps : List Event :=
  [.between (decoding [0, 1, 2] false), .choose, .launch true, .keepPending, .choose, .launch true,
    .keepPending, .resolve true (decoding [] false).req, .trim, .process, .between (decoding [1, 2] true)]

def resolveSecond : List Event :=
  [.choose, .launch true, .keepPending, .resolve true (decoding [] true).req, .trim, .process]

/-- A running request is aborted. -/
def runningAborted : List Event :=
  twoSteps ++ .abort "b" :: .abortStep 0 :: resolveSecond

/-- The request is marked, and stays in the step that is in flight. -/
theorem rows_aligned_running_abort :
    Along step Spared (State.create named) runningAborted ∧
      ∀ call ∈ (run step (State.create named) runningAborted).processed, call.nextTokenIds = call.reqs := by
  have hrule : Along step Spared (State.create named) runningAborted := by decide
  exact ⟨hrule, rows_aligned named runningAborted hrule⟩

/-- The finished request is aborted: it is taken out of the snapshot, and the rows of the
others are the ones before them. -/
theorem abort_of_finished_shifts_rows :
    (run step (State.create named)
      (twoSteps ++ .abort "a" :: List.replicate 13 (.abortStep 0) ++ resolveSecond)).processed =
      [⟨[0, 1, 2], [0, 1, 2]⟩, ⟨[1, 2], [0, 1, 2]⟩] := by
  decide

end SglangOmni.Scheduling.Lookahead
