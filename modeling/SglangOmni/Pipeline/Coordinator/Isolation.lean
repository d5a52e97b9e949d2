import SglangOmni.Pipeline.Coordinator.Tables

/-! Incarnations under one request id.

A completion handler and an abort each start for the incarnation that is tracked at
the time and go on after a broadcast, looking everything up again by id. An abort
task keeps the id reserved, so nobody else is there when it goes on. A suspended
failure handler reserves nothing: an abort that was already under way can free the
id, and what is admitted then is what the handler fails (`suspended_handler_fails_next`).
When nothing is admitted under the id of a suspended handler, both find only what
they were started for. -/
namespace SglangOmni.Pipeline.Coordinator
open Lib

variable {ρ : Type} {g : Config} {s s' : State ρ}

/-- The event goes on with, or handles, something that was started while incarnation
`n` of `r` was tracked. -/
def StartedFor (s : State ρ) (e : Event ρ) (r : String) (n : Nat) : Prop :=
  match e with
  | .completed msg =>
    s.loop = .idle ∧ msg.requestId = r ∧ ∃ info, s.requests.get? r = some info ∧ info.incarnation = n
  | .failureResumed | .failureFailed => ∃ msg, s.loop = .failing msg n ∧ msg.requestId = r
  | .abortResumed t | .abortFailed t =>
    ∃ task, s.tasks t = some task ∧ task.finished = false ∧ task.requestId = r ∧ task.incarnation = n
  | _ => False

/-- What later incarnations than `n` have under `r` is as it was. -/
structure Spares (s s' : State ρ) (r : String) (n : Nat) : Prop where
  request : ∀ info, s.requests.get? r = some info → n < info.incarnation →
    s'.requests.get? r = some info ∧ s'.partialResults.get? r = s.partialResults.get? r
  future : ∀ m, s.completionFutures.get? r = some m → n < m →
    s'.completionFutures.get? r = some m ∧ s'.futures m = s.futures m
  queue : ∀ m, s.streamQueues.get? r = some m → n < m →
    s'.streamQueues.get? r = some m ∧ s'.queues m = s.queues m

/-- No call gets past the reservation check under the id of a failure handler that is
suspended in its broadcast. -/
def NoneUnderHandler (s : State ρ) : Event ρ → Prop
  | .call _ r _ _ => s.loop.handles r = true → requestIdIsReserved s r = true
  | _ => True

instance (s : State ρ) : (e : Event ρ) → Decidable (NoneUnderHandler s e)
  | .call _ r _ _ =>
    inferInstanceAs (Decidable (s.loop.handles r = true → requestIdIsReserved s r = true))
  | .submitted _ | .submitFailed _ | .ownerWakes _ | .ownerCancelled _ | .streamNext _
  | .streamClosed _ | .streamCleanup _ | .abort _ | .abortResumed _ | .abortFailed _
  | .abortCallback _ | .completed _ | .failureResumed | .failureFailed | .streamed _
  | .failPending _ => isTrue trivial

/-- A suspended handler finds only what it was started for. -/
def HandlerOwns (s : State ρ) : Prop :=
  ∀ msg n, s.loop = .failing msg n → Owned s msg.requestId n

theorem Owned.spares {r : String} {n : Nat} (h : Owned s r n) : Spares s s' r n where
  request info hi hn := by
    rw [h.request info hi] at hn
    omega
  future m hm hn := by
    rw [h.future m hm] at hn
    omega
  queue m hm hn := by
    rw [h.queue m hm] at hn
    omega

/-- A handler is suspended by the message it handles, or it was suspended before. -/
theorem step_failing {e : Event ρ} {msg : CompleteMessage ρ} {n : Nat}
    (h : (step g s e).loop = .failing msg n) :
    s.loop = .failing msg n ∨
      ∃ info, s.requests.get? msg.requestId = some info ∧ info.incarnation = n := by
  cases howner : e.byOwner with
  | true =>
    rw [(step_byOwner g s howner).loop] at h
    exact .inl h
  | false =>
    revert h
    refine step_rule (P := fun t => t.loop = .failing msg n → _) .inl fun s' hf h => ?_
    cases hf with
    | call _ _ _ _ _ _ ha =>
      rw [ha.loop] at h
      exact .inl h
    | completed m _ =>
      simp only [handleCompletion] at h
      split at h
      · exact .inl h
      · next info hinfo =>
        split_ifs at h
        · cases h
          exact .inr ⟨info, hinfo, rfl⟩
        · exact .inl h
        · exact .inl h
        · simp only [completeMulti] at h
          split at h <;> exact .inl h
    | failureResumed | failureFailed => cases h
    | abortResumed t task _ _ =>
      unfold runAbort at h
      split at h <;> exact .inl h
    | streamed m _ => exact .inl h
    | failPending message => exact .inl ((loop_failPending s message).symm.trans h)
    | _ => cases howner

theorem handlerOwns_step (ht : Tables g s) (h : HandlerOwns s) (e : Event ρ)
    (rule : NoneUnderHandler s e) : HandlerOwns (step g s e) := by
  intro msg n hloop
  have howned : Owned s msg.requestId n := by
    rcases step_failing hloop with hbefore | ⟨info, hinfo, rfl⟩
    · exact h msg n hbefore
    · obtain ⟨m, hm⟩ := ht.owned msg.requestId
      rw [hm.request info hinfo]
      exact hm
  by_cases hcall : ∃ kind r answer bind, e = .call kind r answer bind
  · obtain ⟨kind, r, answer, bind, rfl⟩ := hcall
    rcases step_call g s kind r answer bind with heq | ⟨stages, ha⟩
    · rw [heq]
      exact howned
    · refine ha.owned_ne (fun he => ?_) howned
      rw [ha.loop] at hloop
      have hres := rule (by simp [Loop.handles, hloop, he])
      rw [ha.free] at hres
      cases hres
  · exact (step_shrinks g s e fun kind r answer bind he => hcall ⟨kind, r, answer, bind, he⟩).owned
      howned

theorem owned_of_startedFor (ht : Tables g s) (hh : HandlerOwns s) {e : Event ρ} {r : String} {n : Nat}
    (h : StartedFor s e r n) : Owned s r n := by
  cases e with
  | completed msg =>
    obtain ⟨_, _, info, hinfo, rfl⟩ := h
    obtain ⟨m, hm⟩ := ht.owned r
    rw [hm.request info hinfo]
    exact hm
  | failureResumed | failureFailed =>
    obtain ⟨msg, hloop, rfl⟩ := h
    exact hh msg n hloop
  | abortResumed t | abortFailed t =>
    obtain ⟨task, htask, hf, rfl, rfl⟩ := h
    exact (ht.task t task htask hf).2
  | _ => exact h.elim

/-- **Isolation.** As long as nothing is admitted under the id of a suspended failure
handler, whatever is handled or finished for one incarnation leaves the entries of
every later one alone. -/
theorem incarnations_isolated (g : Config) (history : List (Event ρ))
    (rule : Along (step g) NoneUnderHandler (State.create ρ) history) (e : Event ρ) (r : String)
    (n : Nat) (started : StartedFor (run (step g) (State.create ρ) history) e r n) :
    Spares (run (step g) (State.create ρ) history)
      (step g (run (step g) (State.create ρ) history) e) r n := by
  let Inv (s : State ρ) := Tables g s ∧ HandlerOwns s
  have h : Inv (run (step g) (State.create ρ) history) :=
    along_invariant ⟨tables_create g, fun _ _ h => nomatch h⟩
      (fun _ e h hr => ⟨tables_step h.1 e, handlerOwns_step h.1 h.2 e hr⟩) history rule
  exact (owned_of_startedFor h.1 h.2 started).spares

/-! ### The id that is freed under a handler -/

/-- One stage, which is entry and terminal. -/
def oneStage : Config where
  entryStage := "a"
  terminalStages := {"a"}
  hasResolver := false
  topology := ⟨∅⟩
  processes := []
  maxInFlight := none
  stages := {"a"}
  plain := plain_a

/-- An abort of `r` is under way when stage `a` reports a failure of `r`; the abort ends
first, its caller and its callback clear the tables, and `r` is admitted again. -/
def readmitted : List (Event Nat) :=
  [.call .submit "r" .unspecified (fun _ _ => 0), .submitted 0, .abort "r",
    .completed { requestId := "r", fromStage := "a", success := false, error := some "boom" },
    .abortResumed 0, .ownerWakes 0, .abortCallback 0,
    .call .submit "r" .unspecified (fun _ _ => 0)]

/-- The suspended handler of incarnation 0 removes the request of incarnation 1 and
fails its future. -/
theorem suspended_handler_fails_next :
    let s := run (step oneStage) (State.create Nat) readmitted
    let s' := step oneStage s .failureResumed
    StartedFor s .failureResumed "r" 0 ∧
      (s.requests.get? "r").map (·.incarnation) = some 1 ∧ s'.requests.get? "r" = none ∧
      s.futures 1 = .pending ∧ s'.futures 1 = .exception (.runtime "boom") ∧
      ¬Spares s s' "r" 0 := by
  intro s s'
  have hpopped : s'.requests.get? "r" = none := by decide
  have hheld : ∃ info, s.requests.get? "r" = some info ∧ info.incarnation = 1 := by
    refine ⟨_, rfl, ?_⟩
    decide
  obtain ⟨info, hinfo, hn⟩ := hheld
  refine ⟨⟨_, rfl, rfl⟩, by rw [hinfo, ← hn]; rfl, hpopped, rfl, rfl, fun h => ?_⟩
  have hkept := (h.request info hinfo (by omega)).1
  rw [hpopped] at hkept
  cases hkept

/-- Before that readmission the handler goes on alone. -/
theorem incarnations_isolated_before_readmission :
    let s := run (step oneStage) (State.create Nat) (readmitted.take 4)
    StartedFor s .failureResumed "r" 0 ∧ Spares s (step oneStage s .failureResumed) "r" 0 :=
  ⟨⟨_, rfl, rfl⟩,
    incarnations_isolated oneStage (readmitted.take 4) (by decide) .failureResumed "r" 0 ⟨_, rfl, rfl⟩⟩

end SglangOmni.Pipeline.Coordinator
