import SglangOmni.Pipeline.Coordinator.Tables

/-! A submit that `submit_to_stage` refuses.

`submit` registers its request before the send and reaches the `try` that pops its future
only after it, so a send that raises, or is cancelled, leaves the future in the table
(`submitFailed`). Futures are popped by the call that owns them, and this one has ended:
the entry stays (`Abandoned.run`), and with it the id is reserved. A stream that fails
at the same place goes through its `finally` and gives up both of its entries. -/
namespace SglangOmni.Pipeline.Coordinator
open Lib

variable {ρ : Type} {g : Config} {s s' : State ρ} {r : String} {c : Nat}

/-- No table of the coordinator has anything under the id. -/
def Untracked (s : State ρ) (r : String) : Prop :=
  s.requests.get? r = none ∧ s.completionFutures.get? r = none ∧ s.streamQueues.get? r = none ∧
    s.partialResults.get? r = none

/-! ### Steps that leave a future alone -/

/-- The future under `r` and the call `c` are as they were. -/
structure Untouched (s s' : State ρ) (r : String) (c : Nat) : Prop where
  future : s'.completionFutures.get? r = s.completionFutures.get? r
  call : s'.calls c = s.calls c

namespace Untouched

theorem refl (s : State ρ) (r : String) (c : Nat) : Untouched s s r c := ⟨rfl, rfl⟩

theorem trans {t : State ρ} (h : Untouched s s' r c) (h' : Untouched s' t r c) : Untouched s t r c :=
  ⟨h'.future.trans h.future, h'.call.trans h.call⟩

theorem held (h : Held s s') : Untouched s s' r c :=
  ⟨by rw [h.completionFutures], by rw [h.calls]⟩

variable {x : Nat} {call : Call}

theorem setCall (hx : c ≠ x) (call : Call) : Untouched s (s.setCall x call) r c :=
  ⟨rfl, Function.update_of_ne hx _ _⟩

theorem abort (s : State ρ) (x : String) : Untouched s (abort s x).1 r c := by
  constructor
  · unfold Coordinator.abort
    split
    · rfl
    · split
      · rfl
      · split <;> rfl
  · rw [abort_calls]

theorem releaseStream (hx : c ≠ x) (hr : r ≠ call.requestId) :
    Untouched s (releaseStream s x call) r c := by
  unfold Coordinator.releaseStream
  simp only
  split
  · have hpop := Dict.get?_pop_ne s.completionFutures hr
    exact ⟨hpop, Function.update_of_ne hx _ _⟩
  · exact setCall hx _

theorem closeStream (hx : c ≠ x) (hr : r ≠ call.requestId) :
    Untouched s (closeStream s x call) r c := by
  unfold Coordinator.closeStream
  split
  · simp only
    split
    · exact (abort s _).trans (setCall hx _)
    · exact (abort s _).trans (releaseStream hx hr)
  · exact releaseStream hx hr

theorem submitted (hx : c ≠ x) : Untouched s (submitted g s x call) r c := by
  have hmark : Untouched s (markRunning s call.requestId) r c := ⟨rfl, rfl⟩
  unfold Coordinator.submitted
  simp only
  split
  · split
    · exact hmark.trans (setCall hx _)
    · exact hmark.trans (setCall hx _)
  · exact hmark.trans (setCall hx _)

theorem submitFailed (hx : c ≠ x) (hr : r ≠ call.requestId) :
    Untouched s (submitFailed s x call) r c := by
  unfold Coordinator.submitFailed
  split
  · exact setCall hx _
  · exact closeStream hx hr

theorem streamNext (hx : c ≠ x) (hr : r ≠ call.requestId) :
    Untouched s (streamNext g s x call) r c := by
  unfold Coordinator.streamNext
  split
  · exact refl s r c
  · exact setCall hx _
  · simp only
    split_ifs
    · exact closeStream hx hr
    · exact closeStream hx hr
    · exact setCall hx _

end Untouched

/-! ### The abandoned future -/

/-- The future under `r` is of a submit that has ended. -/
structure Abandoned (s : State ρ) (r : String) (c : Nat) : Prop where
  future : s.completionFutures.get? r = some c
  ended : ∃ call, s.calls c = some call ∧ call.phase = .done

namespace Abandoned

theorem untouched (h : Abandoned s r c) (hu : Untouched s s' r c) : Abandoned s' r c :=
  ⟨hu.future.trans h.future, by rw [hu.call]; exact h.ended⟩

section
variable (h : Abandoned s r c) (ht : Tables g s)
include h ht

/-- A call that has not ended is another one, and of another id. -/
theorem apart {x : Nat} {call : Call}
    (hc : s.calls x = some call) (hp : call.phase ≠ .done) : c ≠ x ∧ r ≠ call.requestId := by
  have hne : c ≠ x := by
    intro he
    obtain ⟨ended, hcall, hdone⟩ := h.ended
    rw [he, hc] at hcall
    cases hcall
    exact hp hdone
  refine ⟨hne, fun he => hne ?_⟩
  have hown := ht.holdsFuture x call hc hp
  rw [← he, h.future] at hown
  exact Option.some.inj hown

theorem ownerWakes {x : Nat} {call : Call}
    (hc : s.calls x = some call) : Abandoned (ownerWakes s x call) r c := by
  unfold Coordinator.ownerWakes
  split
  · next f hp =>
    split
    · obtain ⟨hx, hr⟩ := h.apart ht hc (by simp [hp])
      have hpop := Dict.get?_pop_ne s.completionFutures hr
      exact h.untouched ⟨hpop, Function.update_of_ne hx _ _⟩
    · exact h
  · exact h

/-- An admission takes a number that is not in use and an id that is free. -/
theorem admitted {kind : Kind} {x : String}
    {stages : Finset String} (ha : Admitted g s s' kind x stages) : Abandoned s' r c := by
  obtain ⟨call, hc, hdone⟩ := h.ended
  have hr : r ≠ x := by
    intro he
    have hfree := (reserved_eq_false ha.free).2.1
    rw [← he, h.future] at hfree
    cases hfree
  refine ⟨?_, call, ha.call_keeps ht hc, hdone⟩
  rw [ha.completionFutures, Dict.get?_set_ne _ _ hr]
  exact h.future

theorem step (e : Event ρ) :
    Abandoned (Coordinator.step g s e) r c := by
  refine step_rule (P := (Abandoned · r c)) h fun s' hf => ?_
  cases hf with
  | call _ _ _ _ _ _ ha => exact h.admitted ht ha
  | submitted x call hc hp => exact h.untouched (.submitted (h.apart ht hc (by simp [hp])).1)
  | submitFailed x call hc hp =>
    obtain ⟨hx, hr⟩ := h.apart ht hc (by simp [hp])
    exact h.untouched (.submitFailed hx hr)
  | ownerWakes x call hc => exact h.ownerWakes ht hc
  | ownerCancelled x call _ =>
    unfold ownerCancelled
    split
    · split
      · exact h
      · exact h.untouched ⟨rfl, rfl⟩
    · exact h
  | streamNext x call hc hp =>
    obtain ⟨hx, hr⟩ := h.apart ht hc (by simp [hp])
    exact h.untouched (.streamNext hx hr)
  | streamClosed x call hc hp =>
    obtain ⟨hx, hr⟩ := h.apart ht hc (by simp [hp])
    exact h.untouched (.closeStream hx hr)
  | streamCleanup x call hc hp =>
    obtain ⟨hx, hr⟩ := h.apart ht hc (by simp [hp])
    exact h.untouched (.releaseStream hx hr)
  | abort x => exact h.untouched (.abort s x)
  | abortResumed t task _ _ =>
    have hfinish : Untouched s (finishTask s t task) r c := ⟨rfl, rfl⟩
    exact h.untouched (hfinish.trans (.held (held_runAbort ..)))
  | abortCallback t task _ _ =>
    unfold onAbortTaskDone
    split
    · exact h.untouched ⟨rfl, rfl⟩
    · exact h
  | completed msg _ => exact h.untouched (.held (held_handleCompletion ..))
  | failPending message => exact h.untouched (.held (held_failPending s message))
  | abortFailed | failureResumed | failureFailed | streamed => exact h.untouched ⟨rfl, rfl⟩

end

/-- Once abandoned, for good. -/
theorem run (h : Abandoned s r c) (ht : Tables g s) (more : List (Event ρ)) :
    Abandoned (Lib.run (Coordinator.step g) s more) r c := by
  induction more generalizing s with
  | nil => exact h
  | cons e rest ih => exact ih (h.step ht e) (tables_step ht e)

theorem reserved (h : Abandoned s r c) : requestIdIsReserved s r = true := by
  simp [requestIdIsReserved, Dict.contains, h.future]

/-- Every later call with the id is refused. -/
theorem refused (h : Abandoned s r c) (g : Config) (kind : Kind) (answer : Resolution)
    (bind : String → Nat → Int) : ∃ e, submitRequest g s kind r answer bind = .error e := by
  cases ha : submitRequest g s kind r answer bind with
  | error e => exact ⟨e, rfl⟩
  | ok t =>
    exfalso
    unfold submitRequest at ha
    split at ha
    · cases ha
    · next stages hadm =>
      have hfree := (admission_ok hadm).2.1
      rw [h.reserved] at hfree
      cases hfree

end Abandoned

/-! ### The failing send -/

/-- The step that ends the call: it changes nothing but the call. -/
theorem step_submitFailed {call : Call} (hc : s.calls c = some call) (hk : call.kind = .submit)
    (hp : call.phase = .submitting) :
    step g s (.submitFailed c) = s.setCall c { call with phase := .done } := by
  simp only [step, onCall, hc, hp, decide_true, if_true, submitFailed, hk]

/-- **A submit whose send fails leaves its id behind for good.** After every history, the
future is in the table when the call ends and at any time later, so the id is tracked and
every call with it is refused; and the call itself removes no request. -/
theorem failed_submit_stays_reserved (g : Config) (history : List (Event ρ)) (c : Nat) (call : Call)
    (hc : (run (step g) (State.create ρ) history).calls c = some call) (hk : call.kind = .submit)
    (hp : call.phase = .submitting) :
    let before := run (step g) (State.create ρ) history
    let failed := step g before (.submitFailed c)
    failed.requests = before.requests ∧
      ∀ more : List (Event ρ),
        let s := run (step g) failed more
        ¬Untracked s call.requestId ∧
          ∀ kind answer bind, ∃ e, submitRequest g s kind call.requestId answer bind = .error e := by
  intro before failed
  have ht : Tables g before := tables_run g history
  have heq : failed = before.setCall c { call with phase := .done } := step_submitFailed hc hk hp
  have habandoned : Abandoned failed call.requestId c := by
    rw [heq]
    have hfuture : before.completionFutures.get? call.requestId = some c :=
      ht.holdsFuture c call hc (by simp [hp])
    exact ⟨hfuture, _, Function.update_self .., rfl⟩
  constructor
  · rw [heq]
    rfl
  · intro more s
    have hlater : Abandoned s call.requestId c := habandoned.run (tables_step ht _) more
    refine ⟨fun hu => ?_, hlater.refused g⟩
    have hfuture := hlater.future
    rw [hu.2.1] at hfuture
    cases hfuture

/-! ### One request whose send fails -/

def entryOnly : Config where
  entryStage := "a"
  terminalStages := {"a"}
  hasResolver := false
  topology := ⟨∅⟩
  processes := []
  maxInFlight := some 1
  stages := {"a"}
  plain := plain_a

def submitOne : Event Nat := .call .submit "r" .unspecified (fun _ _ => 0)

theorem failed_submit_stays_reserved_alone :
    let before := run (step entryOnly) (State.create Nat) [submitOne]
    let failed := step entryOnly before (.submitFailed 0)
    failed.requests = before.requests ∧
      ∀ more : List (Event Nat),
        let s := run (step entryOnly) failed more
        ¬Untracked s "r" ∧ ∀ kind answer bind, ∃ e, submitRequest entryOnly s kind "r" answer bind = .error e :=
  failed_submit_stays_reserved entryOnly [submitOne] 0 { requestId := "r", kind := .submit, resolved := {"a"} }
    rfl rfl rfl

/-- The id and the one place under `max_in_flight` are both gone. -/
theorem failed_submit_leaks :
    let s := run (step entryOnly) (State.create Nat) [submitOne, .submitFailed 0]
    ¬Untracked s "r" ∧ s.completionFutures.get? "r" = some 0 ∧ s.requests.length = 1 ∧
      submitRequest entryOnly s .submit "r" .unspecified (fun _ _ => 0) =
        .error (.alreadyExists "r") ∧
      submitRequest entryOnly s .submit "q" .unspecified (fun _ _ => 0) = .error .queueFull :=
  ⟨fun h => (nomatch h.2.1), rfl, rfl, rfl, rfl⟩

end SglangOmni.Pipeline.Coordinator
