import SglangOmni.Lib.History
import SglangOmni.Router.Snapshot

/-! The health of one worker, and who has a say in it.

Probes come and go, the relay and the data planes report failed requests, WebSocket sessions fail, and an operator may
declare the worker dead or take that back. Every word of the operator raises the epoch of the worker, by which a probe
that was started before it is told from a later one. The time of the last check is left out. -/
namespace SglangOmni.Router
open Lib

/-! ### The worker -/

structure WorkerHealth where
  state : WorkerState := .unknown
  healthEpoch : Nat := 0
  consecutiveFailures : Nat := 0
  consecutiveSuccesses : Nat := 0
  lastStatusCode : Option Nat := none
  lastError : Option String := none
  deriving DecidableEq

/-- `health_failure_threshold` and `health_success_threshold`. -/
structure Thresholds where
  failure : Nat := 3
  success : Nat := 2

namespace WorkerHealth

variable (t : Thresholds)

def isDead (w : WorkerHealth) : Bool := w.state = .dead

/-- `mark_dead`. -/
def markDead (w : WorkerHealth) (error : Option String) : WorkerHealth :=
  { w with state := .dead, healthEpoch := w.healthEpoch + 1, lastError := error.or w.lastError }

/-- `clear_dead`. -/
def clearDead (w : WorkerHealth) : WorkerHealth :=
  { w with
    state := if w.isDead then .unknown else w.state
    healthEpoch := w.healthEpoch + 1
    consecutiveFailures := 0
    consecutiveSuccesses := 0 }

/-- `_record_failure`. -/
def recordFailure (w : WorkerHealth) : WorkerHealth :=
  { w with
    consecutiveFailures := w.consecutiveFailures + 1
    consecutiveSuccesses := 0
    state := if t.failure ≤ w.consecutiveFailures + 1 then .unhealthy else w.state }

/-- `record_health_result`. -/
def recordHealthResult (w : WorkerHealth) (ok : Bool) (statusCode : Option Nat) (error : Option String) :
    WorkerHealth :=
  let w := { w with lastStatusCode := statusCode, lastError := error }
  if ok then
    { w with
      consecutiveSuccesses := w.consecutiveSuccesses + 1
      consecutiveFailures := 0
      state := if t.success ≤ w.consecutiveSuccesses + 1 then .healthy else w.state }
  else w.recordFailure t

/-- `record_request_failure`. -/
def recordRequestFailure (w : WorkerHealth) (statusCode : Option Nat) (error : Option String) : WorkerHealth :=
  { w with lastStatusCode := statusCode, lastError := error }.recordFailure t

/-! ### The four components -/

/-- What a probe brings back. -/
inductive ProbeResult where
  | response (statusCode : Nat) (text : String)
  | httpError (text : String)
  deriving DecidableEq

/-- `_check_worker_health`, from where the response is there; the epoch was taken when the probe was started. -/
def finishProbe (w : WorkerHealth) (epoch : Nat) (result : ProbeResult) : WorkerHealth :=
  if w.healthEpoch ≠ epoch then w
  else
    match result with
    | .httpError text => w.recordHealthResult t false none (some text)
    | .response statusCode text =>
      if 200 ≤ statusCode ∧ statusCode < 300 then w.recordHealthResult t true (some statusCode) none
      else
        let shown := String.ofList (text.toList.take 512)
        let error := if shown = "" then "status=" ++ toString statusCode else shown
        w.recordHealthResult t false (some statusCode) (some error)

/-- `_record_worker_request_failure` of the relay, and the report of a data plane: neither touches a dead worker. -/
def relayFailure (w : WorkerHealth) (statusCode : Option Nat) (error : Option String) : WorkerHealth :=
  if w.isDead then w else w.recordRequestFailure t statusCode error

/-- `_complete_session`, for a session that failed by the worker's fault: here nobody asks whether it is dead. -/
def sessionFailure (w : WorkerHealth) (statusCode : Option Nat) (error : Option String) : WorkerHealth :=
  w.recordRequestFailure t statusCode error

end WorkerHealth

/-! ### The system -/

inductive OperatorAction where
  | markDead
  | clearDead
  deriving DecidableEq

/-- A probe in flight. History: how many operator actions there were when it was started. -/
structure Probe where
  epoch : Nat
  actions : Nat
  deriving DecidableEq

structure Watch where
  worker : WorkerHealth := {}
  probes : List Probe := []
  /-- History: what the operator said last, and how often he said something. -/
  lastAction : Option OperatorAction := none
  actions : Nat := 0
  deriving DecidableEq

inductive Watch.Event where
  | startProbe
  | finishProbe (i : Nat) (result : WorkerHealth.ProbeResult)
  | relayFailure (statusCode : Option Nat) (error : Option String)
  | failureReport (statusCode : Option Nat) (error : Option String)
  | sessionFailure (statusCode : Option Nat) (error : Option String)
  | markDead (error : Option String)
  | clearDead

namespace Watch

variable (t : Thresholds)

def step (σ : Watch) : Event → Watch
  | .startProbe =>
    if σ.worker.isDead then σ else { σ with probes := σ.probes ++ [⟨σ.worker.healthEpoch, σ.actions⟩] }
  | .finishProbe i result =>
    match σ.probes[i]? with
    | some probe =>
      { σ with probes := σ.probes.eraseIdx i, worker := σ.worker.finishProbe t probe.epoch result }
    | none => σ
  | .relayFailure statusCode error => { σ with worker := σ.worker.relayFailure t statusCode error }
  | .failureReport statusCode error => { σ with worker := σ.worker.relayFailure t statusCode error }
  | .sessionFailure statusCode error => { σ with worker := σ.worker.sessionFailure t statusCode error }
  | .markDead error =>
    { σ with worker := σ.worker.markDead error, lastAction := some .markDead, actions := σ.actions + 1 }
  | .clearDead => { σ with worker := σ.worker.clearDead, lastAction := some .clearDead, actions := σ.actions + 1 }

/-- A worker that the operator last declared dead is dead; and a probe that was started before his last word changes
neither the state nor the counters when it comes back. -/
structure DeadMarkHolds (σ : Watch) : Prop where
  dead : σ.lastAction = some .markDead → σ.worker.state = .dead
  stale : ∀ i probe result, σ.probes[i]? = some probe → probe.actions < σ.actions →
    (σ.step t (.finishProbe i result)).worker = σ.worker

/-- A session that fails on a dead worker does not use up its last failure. -/
def Spares (σ : Watch) : Event → Prop
  | .sessionFailure _ _ => σ.worker.state = .dead → σ.worker.consecutiveFailures + 1 < t.failure
  | _ => True

/-! ### One step -/

/-- The epoch counts the operator's words, only his mark makes a worker dead, and a dead worker has no probe that was
started since. -/
structure Counted (σ : Watch) : Prop where
  epoch : σ.worker.healthEpoch = σ.actions
  probes : ∀ probe ∈ σ.probes, probe.epoch = probe.actions ∧ probe.actions ≤ σ.actions
  dead : σ.worker.state = .dead → σ.lastAction = some .markDead ∧ ∀ probe ∈ σ.probes, probe.actions < σ.actions

variable {t}

theorem healthEpoch_recordHealthResult (w : WorkerHealth) (ok : Bool) (statusCode : Option Nat)
    (error : Option String) :
    (w.recordHealthResult t ok statusCode error).healthEpoch = w.healthEpoch := by
  cases ok <;> rfl

theorem recordFailure_not_dead {w : WorkerHealth} (h : (w.recordFailure t).state = .dead) : w.state = .dead := by
  unfold WorkerHealth.recordFailure at h
  simp only at h
  split at h
  · cases h
  · exact h

theorem recordHealthResult_not_dead {w : WorkerHealth} {ok : Bool} {statusCode : Option Nat} {error : Option String}
    (h : (w.recordHealthResult t ok statusCode error).state = .dead) : w.state = .dead := by
  cases ok with
  | false => exact recordFailure_not_dead h
  | true =>
    unfold WorkerHealth.recordHealthResult at h
    simp only [if_true] at h
    split at h
    · cases h
    · exact h

/-- A probe keeps the epoch, and makes nobody dead. -/
theorem finishProbe_spec (w : WorkerHealth) (epoch : Nat) (result : WorkerHealth.ProbeResult) :
    (w.finishProbe t epoch result).healthEpoch = w.healthEpoch ∧
      ((w.finishProbe t epoch result).state = .dead → w.state = .dead) := by
  unfold WorkerHealth.finishProbe
  split
  · exact ⟨rfl, id⟩
  · split
    · exact ⟨healthEpoch_recordHealthResult .., recordHealthResult_not_dead⟩
    · split <;> exact ⟨healthEpoch_recordHealthResult .., recordHealthResult_not_dead⟩

theorem relayFailure_spec (w : WorkerHealth) (statusCode : Option Nat) (error : Option String) :
    (w.relayFailure t statusCode error).healthEpoch = w.healthEpoch ∧
      ((w.relayFailure t statusCode error).state = .dead ↔ w.state = .dead) := by
  unfold WorkerHealth.relayFailure
  split
  · exact ⟨rfl, Iff.rfl⟩
  · next halive =>
    have hne : w.state ≠ .dead := by simpa [WorkerHealth.isDead] using halive
    exact ⟨rfl, fun h => recordFailure_not_dead h, fun h => absurd h hne⟩

theorem counted_step (σ : Watch) (e : Event) (h : Counted σ) : Counted (σ.step t e) := by
  -- What the worker does by himself: he is not dead unless he was.
  have hworker : ∀ {w : WorkerHealth}, w.healthEpoch = σ.worker.healthEpoch →
    (w.state = .dead → σ.worker.state = .dead) →
      Counted { σ with worker := w } :=
    fun hepoch hdead => ⟨hepoch.trans h.epoch, h.probes, fun hstate => h.dead (hdead hstate)⟩
  cases e with
  | startProbe =>
    simp only [step]
    split
    · exact h
    · next halive =>
      refine ⟨h.epoch, fun probe hprobe => ?_, fun hstate => ?_⟩
      · cases List.mem_append.mp hprobe with
        | inl hold => exact h.probes probe hold
        | inr hnew =>
          rw [List.mem_singleton.mp hnew]
          exact ⟨h.epoch, Nat.le_refl _⟩
      · exact absurd hstate (by simpa [WorkerHealth.isDead] using halive)
  | finishProbe i result =>
    simp only [step]
    split
    · next probe _ =>
      obtain ⟨hepoch, hdead⟩ := finishProbe_spec (t := t) σ.worker probe.epoch result
      have hworker' := hworker hepoch hdead
      refine ⟨hworker'.epoch, fun other hother => ?_, fun hstate => ?_⟩
      · exact h.probes other (List.mem_of_mem_eraseIdx hother)
      · obtain ⟨hlast, hstale⟩ := hworker'.dead hstate
        exact ⟨hlast, fun other hother => hstale other (List.mem_of_mem_eraseIdx hother)⟩
    · exact h
  | relayFailure statusCode error | failureReport statusCode error =>
    obtain ⟨hepoch, hdead⟩ := relayFailure_spec (t := t) σ.worker statusCode error
    exact hworker hepoch hdead.mp
  | sessionFailure statusCode error => exact hworker rfl recordFailure_not_dead
  | markDead error =>
    have hlt : ∀ probe ∈ σ.probes, probe.actions < σ.actions + 1 :=
      fun probe hprobe => Nat.lt_succ_of_le (h.probes probe hprobe).2
    exact ⟨congrArg (· + 1) h.epoch, fun probe hprobe => ⟨(h.probes probe hprobe).1, Nat.le_of_lt (hlt probe hprobe)⟩,
      fun _ => ⟨rfl, hlt⟩⟩
  | clearDead =>
    refine ⟨congrArg (· + 1) h.epoch, fun probe hprobe => ?_, fun hstate => ?_⟩
    · exact ⟨(h.probes probe hprobe).1, Nat.le_succ_of_le (h.probes probe hprobe).2⟩
    · simp only [step, WorkerHealth.clearDead, WorkerHealth.isDead, decide_eq_true_eq] at hstate
      split at hstate
      · cases hstate
      · next halive => exact absurd hstate halive

/-- A probe of an earlier epoch changes nothing at all. -/
theorem Counted.stale {σ : Watch} (h : Counted σ) {i : Nat} {probe : Probe} {result : WorkerHealth.ProbeResult}
    (hprobe : σ.probes[i]? = some probe) (before : probe.actions < σ.actions) :
    (σ.step t (.finishProbe i result)).worker = σ.worker := by
  have hepoch : σ.worker.healthEpoch ≠ probe.epoch := by
    rw [h.epoch, (h.probes probe (List.mem_of_getElem? hprobe)).1]
    omega
  simp only [step, hprobe, WorkerHealth.finishProbe, hepoch, ne_eq, not_false_eq_true, if_true]

theorem lastAction_finishProbe (σ : Watch) (i : Nat) (result : WorkerHealth.ProbeResult) :
    (σ.step t (.finishProbe i result)).lastAction = σ.lastAction := by
  simp only [step]
  split <;> rfl

/-- A session's failure leaves a dead worker dead exactly if it is not the one that makes it unhealthy. -/
theorem sessionFailure_dead {w : WorkerHealth} (dead : w.state = .dead) (statusCode : Option Nat)
    (error : Option String) :
    (w.sessionFailure t statusCode error).state = .dead ↔ w.consecutiveFailures + 1 < t.failure := by
  unfold WorkerHealth.sessionFailure WorkerHealth.recordRequestFailure WorkerHealth.recordFailure
  simp only
  split
  · next hreached => exact iff_of_false (fun h => nomatch h) (Nat.not_lt.mpr hreached)
  · next hbelow => exact iff_of_true dead (Nat.not_le.mp hbelow)

/-- Where the mark holds, it holds after a step exactly if the step spares the worker. -/
theorem dead_step {σ : Watch} (counted : Counted σ) (h : σ.lastAction = some .markDead → σ.worker.state = .dead)
    (e : Event) :
    ((σ.step t e).lastAction = some .markDead → (σ.step t e).worker.state = .dead) ↔ Spares t σ e := by
  cases e with
  | startProbe =>
    refine iff_of_true ?_ trivial
    simp only [step]
    split <;> exact h
  | finishProbe i result =>
    refine iff_of_true (fun hlast => ?_) trivial
    rw [lastAction_finishProbe] at hlast
    have hdead := h hlast
    cases hprobe : σ.probes[i]? with
    | none => simpa only [step, hprobe] using hdead
    | some probe =>
      rw [counted.stale hprobe ((counted.dead hdead).2 probe (List.mem_of_getElem? hprobe))]
      exact hdead
  | relayFailure statusCode error | failureReport statusCode error =>
    exact iff_of_true (fun hlast => (relayFailure_spec _ _ _).2.mpr (h hlast)) trivial
  | sessionFailure statusCode error =>
    show (σ.lastAction = some .markDead → (σ.worker.sessionFailure t statusCode error).state = .dead) ↔
      (σ.worker.state = .dead → σ.worker.consecutiveFailures + 1 < t.failure)
    refine ⟨fun hkeeps hdead => ?_, fun hspares hlast => ?_⟩
    · exact (sessionFailure_dead hdead statusCode error).mp (hkeeps (counted.dead hdead).1)
    · exact (sessionFailure_dead (h hlast) statusCode error).mpr (hspares (h hlast))
  | markDead error => exact iff_of_true (fun _ => rfl) trivial
  | clearDead => exact iff_of_true (fun hlast => nomatch hlast) trivial

/-! ### Runs -/

theorem counted_initial : Counted {} where
  epoch := rfl
  probes _ hprobe := absurd hprobe List.not_mem_nil
  dead h := nomatch h

/-- From a state in which the mark holds, it holds at every moment of a run exactly if every step spares the worker. -/
theorem deadMarkHolds_along (events : List Event) {σ : Watch} (counted : Counted σ)
    (h : σ.lastAction = some .markDead → σ.worker.state = .dead) :
    (∀ n, DeadMarkHolds t (run (step t) σ (events.take n))) ↔ Along (step t) (Spares t) σ events := by
  have hnow : DeadMarkHolds t σ := ⟨h, fun i probe result hprobe before => counted.stale hprobe before⟩
  induction events generalizing σ with
  | nil => exact iff_of_true (fun n => by simpa [run] using hnow) trivial
  | cons e rest ih =>
    have hcounted := counted_step (t := t) σ e counted
    refine ⟨fun hall => ?_, fun halong n => ?_⟩
    · have hafter : DeadMarkHolds t (σ.step t e) := hall 1
      refine ⟨(dead_step counted h e).mp hafter.dead, ?_⟩
      refine (ih hcounted hafter.dead ⟨hafter.dead, hafter.stale⟩).mp fun n => ?_
      exact hall (n + 1)
    · have hafter := (dead_step counted h e).mpr halong.1
      have hlater : DeadMarkHolds t (σ.step t e) :=
        ⟨hafter, fun i probe result hprobe before => hcounted.stale hprobe before⟩
      cases n with
      | zero => exact hnow
      | succ n => exact (ih hcounted hafter hlater).mpr halong.2 n

/-- **An operator's dead mark holds** throughout a run exactly if no WebSocket session fails on the dead worker with
the failure that reaches the threshold. -/
theorem dead_mark_holds_iff (t : Thresholds) (events : List Event) :
    (∀ n, DeadMarkHolds t (run (step t) {} (events.take n))) ↔ Along (step t) (Spares t) {} events :=
  deadMarkHolds_along events counted_initial fun h => nomatch h

/-- Three sessions run on the worker when it is declared dead, and fail; then a probe brings the worker back. -/
def failingSessions : List Event :=
  [.markDead none, .sessionFailure none (some "closed"), .sessionFailure none (some "closed"),
    .sessionFailure none (some "closed"), .startProbe, .finishProbe 0 (.response 200 ""), .startProbe,
    .finishProbe 0 (.response 200 "")]

theorem brought_back_by_sessions :
    (run (step {}) {} failingSessions).lastAction = some .markDead ∧
      (run (step {}) {} failingSessions).worker.state = .healthy := by
  decide

/-! ### How fast it turns -/

/-- The state agrees with the results in a row, and if the worker turned just now, they have just reached the
threshold. -/
structure Turned (t : Thresholds) (w w' : WorkerHealth) : Prop where
  healthy : w'.state = .healthy → w'.consecutiveFailures < t.failure
  unhealthy : w'.state = .unhealthy → w'.consecutiveSuccesses < t.success
  down : w.state = .healthy → w'.state = .unhealthy → w'.consecutiveFailures = t.failure
  up : w.state = .unhealthy → w'.state = .healthy → w'.consecutiveSuccesses = t.success

theorem Turned.settled {w w' : WorkerHealth} (h : Turned t w w') : Turned t w' w' :=
  ⟨h.healthy, h.unhealthy, by simp_all, by simp_all⟩

theorem Turned.result {w : WorkerHealth} (h : Turned t w w) (hfailure : 0 < t.failure)
    (hsuccess : 0 < t.success) (ok : Bool)
    (statusCode : Option Nat) (error : Option String) : Turned t w (w.recordHealthResult t ok statusCode error) := by
  obtain ⟨hhealthy, hunhealthy, -, -⟩ := h
  cases ok with
  | false => constructor <;> grind [WorkerHealth.recordHealthResult, WorkerHealth.recordFailure]
  | true => constructor <;> grind [WorkerHealth.recordHealthResult]

theorem Turned.step {σ : Watch} (h : Turned t σ.worker σ.worker) (hfailure : 0 < t.failure) (hsuccess : 0 < t.success)
    (e : Event) : Turned t σ.worker (σ.step t e).worker := by
  cases e with
  | startProbe =>
    simp only [Watch.step]
    split <;> exact h
  | finishProbe i result =>
    simp only [Watch.step]
    split
    · simp only [WorkerHealth.finishProbe]
      split
      · exact h
      · split
        · exact h.result hfailure hsuccess ..
        · split <;> exact h.result hfailure hsuccess ..
    · exact h
  | relayFailure statusCode error | failureReport statusCode error =>
    simp only [Watch.step, WorkerHealth.relayFailure]
    split
    · exact h
    · exact h.result hfailure hsuccess false ..
  | sessionFailure statusCode error => exact h.result hfailure hsuccess false ..
  | markDead error => constructor <;> simp [Watch.step, WorkerHealth.markDead]
  | clearDead => constructor <;> grind [Watch.step, WorkerHealth.clearDead, WorkerHealth.isDead]

/-- **A worker turns** from healthy to unhealthy exactly at the last failure in a row that the threshold asks for, and
from unhealthy to healthy at the last success in a row. -/
theorem turns_at_threshold (t : Thresholds) (hfailure : 0 < t.failure) (hsuccess : 0 < t.success) (events : List Event)
    (e : Event) : Turned t (run (step t) {} events).worker (run (step t) {} (events ++ [e])).worker := by
  have h : Turned t (run (step t) {} events).worker (run (step t) {} events).worker :=
    run_invariant (I := fun σ : Watch => Turned t σ.worker σ.worker) (by constructor <;> simp)
      (fun _ e h => (h.step hfailure hsuccess e).settled) events
  rw [run_concat]
  exact h.step hfailure hsuccess e

theorem turns_at_threshold_default : Turned {}
    (run (step {}) {} failingSessions).worker (run (step {}) {} (failingSessions ++
    [.relayFailure none none])).worker :=
  turns_at_threshold {} (by decide) (by decide) failingSessions (.relayFailure none none)

end Watch

end SglangOmni.Router
