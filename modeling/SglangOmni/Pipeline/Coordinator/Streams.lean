import SglangOmni.Pipeline.Coordinator.Queues

/-! How a stream ends.

A stream looks its terminal set up when it resumes from `submit_to_stage`. If the
request has left the table by then the lookup answers with all configured terminals,
and a stream that was admitted with fewer waits for a stage that will not report
(`early_completion_waits`). When the request is still tracked, or was admitted with
all of them, the stream waits for exactly the set of its admission, and it returns
once every stage of it is in the queue. -/
namespace SglangOmni.Pipeline.Coordinator
open Lib

variable {ρ : Type} {g : Config} {s s' : State ρ} {x : Nat}

/-! ### Turns of a stream -/

/-- The stream's test for its return, after a success. -/
def Call.finished (call : Call) : Prop := call.expected = ∅ ∨ call.expected ⊆ call.completedStages

/-- One turn that does not leave the loop. -/
inductive Turn (g : Config) (q : List (QueueItem ρ)) (call : Call) : Call → Prop
  | chunk (msg : StreamMessage ρ) (here : q[call.taken]? = some (.stream msg)) :
    Turn g q call { call with taken := call.taken + 1 }
  | report (msg : CompleteMessage ρ) (here : q[call.taken]? = some (.complete msg))
    (success : msg.success = true) (call' : Call)
    (next : call' = { call with
      taken := call.taken + 1
      completedStages := insert (g.topology.logicalName msg.fromStage) call.completedStages })
    (unfinished : ¬call'.finished) : Turn g q call call'

theorem releaseStream_call {c : Nat} {call a : Call} (h : (releaseStream s c call).calls x = some a) :
    (x = c ∧ a.phase = .done) ∨ (x ≠ c ∧ s.calls x = some a) := by
  have h : (s.setCall c { call with phase := .done }).calls x = some a := by
    simp only [releaseStream] at h
    split at h <;> exact h
  obtain ⟨hx, rfl⟩ | ⟨hx, h⟩ := setCall_cases h
  · exact .inl ⟨hx, rfl⟩
  · exact .inr ⟨hx, h⟩

theorem closeStream_call {c : Nat} {call a : Call} (h : (closeStream s c call).calls x = some a) :
    (x = c ∧ (a.phase = .aborting ∨ a.phase = .done)) ∨ (x ≠ c ∧ s.calls x = some a) := by
  simp only [closeStream] at h
  split at h
  · split at h
    · obtain ⟨hx, rfl⟩ | ⟨hx, h⟩ := setCall_cases h
      · exact .inl ⟨hx, .inl rfl⟩
      · exact .inr ⟨hx, by rwa [abort_calls] at h⟩
    · obtain ⟨hx, hp⟩ | ⟨hx, h⟩ := releaseStream_call h
      · exact .inl ⟨hx, .inr hp⟩
      · exact .inr ⟨hx, by rwa [abort_calls] at h⟩
  · obtain ⟨hx, hp⟩ | ⟨hx, h⟩ := releaseStream_call h
    · exact .inl ⟨hx, .inr hp⟩
    · exact .inr ⟨hx, h⟩

/-- What a step does to a call: nothing, its admission, its entry into the stream loop,
a turn of that loop, or a phase beyond both. -/
inductive CallStep (g : Config) (s : State ρ) (e : Event ρ) (c : Nat) (call : Call) : Prop
  | same (h : s.calls c = some call)
  | fresh (phase : call.phase = .submitting) (taken : call.taken = 0)
    (completedStages : call.completedStages = ∅)
  | entered (before : Call) (event : e = .submitted c) (here : s.calls c = some before)
    (phase : before.phase = .submitting) (kind : before.kind = .stream)
    (next : call = { before with
      phase := .streaming
      expected := expectedTerminalStages g (markRunning s before.requestId) before.requestId })
  | turned (before : Call) (here : s.calls c = some before) (phase : before.phase = .streaming)
    (turn : Turn g (s.queues c) before call)
  | left (submitting : call.phase ≠ .submitting) (streaming : call.phase ≠ .streaming)

theorem callStep_set {e : Event ρ} {c : Nat} {new call : Call}
    (h : (s.setCall c new).calls x = some call) (hs : new.phase ≠ .submitting)
    (hl : new.phase ≠ .streaming) : CallStep g s e x call := by
  obtain ⟨_, rfl⟩ | ⟨_, h⟩ := setCall_cases h
  · exact .left hs hl
  · exact .same h

theorem callStep_close {e : Event ρ} {c : Nat} {new call : Call}
    (h : (closeStream s c new).calls x = some call) : CallStep g s e x call := by
  obtain ⟨_, hp | hp⟩ | ⟨_, h⟩ := closeStream_call h
  · exact .left (by simp [hp]) (by simp [hp])
  · exact .left (by simp [hp]) (by simp [hp])
  · exact .same h

theorem callStep_submitted {c : Nat} {before call : Call} (hb : s.calls c = some before)
    (hp : before.phase = .submitting) (h : (submitted g s c before).calls x = some call) :
    CallStep g s (.submitted c) x call := by
  simp only [submitted] at h
  split at h
  · split at h
    · exact callStep_set h (by simp) (by simp)
    · exact callStep_set h (by simp) (by simp)
  · next hk =>
    obtain ⟨rfl, rfl⟩ | ⟨_, h⟩ := setCall_cases h
    · exact .entered before rfl hb hp hk rfl
    · exact .same h

theorem callStep_streamNext {c : Nat} {before call : Call} (hb : s.calls c = some before)
    (hp : before.phase = .streaming) (h : (streamNext g s c before).calls x = some call) :
    CallStep g s (.streamNext c) x call := by
  unfold streamNext at h
  split at h
  · exact .same h
  · next msg hmsg =>
    obtain ⟨rfl, rfl⟩ | ⟨_, h⟩ := setCall_cases h
    · exact .turned before hb hp (.chunk msg hmsg)
    · exact .same h
  · next msg hmsg =>
    simp only at h
    split_ifs at h with hs hf
    · exact callStep_close h
    · exact callStep_close h
    · obtain ⟨rfl, rfl⟩ | ⟨_, h⟩ := setCall_cases h
      · exact .turned before hb hp (.report msg hmsg (Bool.not_eq_false _ ▸ hs) _ rfl hf)
      · exact .same h

theorem step_calls {e : Event ρ} {call : Call} (h : (step g s e).calls x = some call) :
    CallStep g s e x call := by
  revert h
  refine step_rule (P := fun t => t.calls x = some call → CallStep g s e x call) .same fun s' hf h => ?_
  cases hf with
  | call _ _ _ _ _ _ ha =>
    obtain ⟨_, rfl⟩ | ⟨_, h⟩ := ha.call_cases h
    · exact .fresh rfl rfl rfl
    · exact .same h
  | submitted c before hb hp => exact callStep_submitted hb hp h
  | submitFailed c before hb hp =>
    unfold submitFailed at h
    split at h
    · exact callStep_set h (by simp) (by simp)
    · exact callStep_close h
  | ownerWakes c before hb =>
    unfold ownerWakes at h
    split at h
    · split at h
      · exact callStep_set h (by simp) (by simp)
      · exact .same h
    · exact .same h
  | ownerCancelled c before hb =>
    unfold ownerCancelled at h
    split at h
    · split at h <;> exact .same h
    · exact .same h
  | streamNext c before hb hp => exact callStep_streamNext hb hp h
  | streamClosed c before hb hp => exact callStep_close h
  | streamCleanup c before hb hp =>
    obtain ⟨_, hp⟩ | ⟨_, h⟩ := releaseStream_call h
    · exact .left (by simp [hp]) (by simp [hp])
    · exact .same h
  | abort r =>
    rw [abort_calls] at h
    exact .same h
  | abortResumed t task _ _ =>
    rw [(held_runAbort _ _).calls] at h
    exact .same h
  | abortCallback t task _ _ =>
    unfold onAbortTaskDone at h
    split at h <;> exact .same h
  | completed msg _ =>
    rw [(held_handleCompletion g s msg).calls] at h
    exact .same h
  | failPending message =>
    rw [(held_failPending s message).calls] at h
    exact .same h
  | abortFailed | failureResumed | failureFailed | streamed => exact .same h

/-! ### What a stream has taken -/

theorem put_grows (s : State ρ) (r : String) (item : QueueItem ρ) (c : Nat) :
    s.queues c <+: (put s r item).queues c := by
  rw [put_queues]
  split
  · exact List.prefix_append _ _
  · exact List.prefix_refl _

theorem handleCompletion_grows (g : Config) (s : State ρ) (msg : CompleteMessage ρ) (c : Nat) :
    s.queues c <+: (handleCompletion g s msg).queues c := by
  simp only [handleCompletion]
  split
  · exact List.prefix_refl _
  · split_ifs
    · exact List.prefix_refl _
    · exact List.prefix_refl _
    · exact put_grows s _ _ c
    · simp only [completeMulti]
      split <;> exact put_grows s _ _ c

/-- Queues only grow, but for the one of a call that is being admitted. -/
theorem step_grows (ht : Tables g s) (e : Event ρ) {c : Nat} {call : Call} (hc : s.calls c = some call) :
    s.queues c <+: (step g s e).queues c := by
  cases howner : e.byOwner with
  | true => rw [(step_byOwner g s howner).queues]
  | false =>
    refine step_rule (P := fun t => s.queues c <+: t.queues c) (List.prefix_refl _) fun s' hf => ?_
    cases hf with
    | call _ _ _ _ _ _ ha =>
      have hne : c ≠ s.nextCall := by
        rintro rfl
        rw [ht.fresh _ le_rfl] at hc
        cases hc
      rw [ha.queues, Function.update_of_ne hne]
    | completed msg _ => exact handleCompletion_grows g s msg c
    | failureResumed msg n _ => exact put_grows s _ _ c
    | failureFailed => exact List.prefix_refl _
    | abortResumed t task _ _ =>
      unfold runAbort
      split
      · exact List.prefix_refl _
      · exact put_grows s _ _ c
    | streamed msg _ => exact put_grows s _ _ c
    | failPending message =>
      have hfold : ∀ (ids : List String) (t : State ρ),
          t.queues c <+: (ids.foldl (failOne message) t).queues c := by
        intro ids
        induction ids with
        | nil => exact fun t => List.prefix_refl _
        | cons r rest ih =>
          intro t
          have hone : t.queues c <+: (failOne message t r).queues c :=
            put_grows (rejectCompletionFuture t r (.runtime message)) r _ c
          exact hone.trans (ih (failOne message t r))
      exact hfold s.requests.keys s
    | _ => cases howner

/-- The stream has taken the first items of its queue: no failure among them, their
stages collected, and not yet all it waits for. -/
structure Consumed (g : Config) (q : List (QueueItem ρ)) (call : Call) : Prop where
  kind : call.kind = .stream
  taken : call.taken ≤ q.length
  completed : call.completedStages = (reported (q.take call.taken)).image g.topology.logicalName
  noFailure : NoFailure (q.take call.taken)
  unfinished : (reported (q.take call.taken)).Nonempty → ¬call.finished

theorem Consumed.grows {q q' : List (QueueItem ρ)} {call : Call} (h : Consumed g q call)
    (hq : q <+: q') : Consumed g q' call := by
  obtain ⟨rest, rfl⟩ := hq
  have hsame : (q ++ rest).take call.taken = q.take call.taken := List.take_append_of_le_length h.taken
  refine ⟨h.kind, ?_, ?_, ?_, ?_⟩
  · rw [List.length_append]
    exact h.taken.trans (Nat.le_add_right _ _)
  · rw [hsame]
    exact h.completed
  · rw [hsame]
    exact h.noFailure
  · rw [hsame]
    exact h.unfinished

theorem Consumed.turn {q : List (QueueItem ρ)} {call call' : Call} (h : Consumed g q call)
    (ht : Turn g q call call') : Consumed g q call' := by
  have hlt : ∀ item : QueueItem ρ, q[call.taken]? = some item → call.taken + 1 ≤ q.length ∧
      q.take (call.taken + 1) = q.take call.taken ++ [item] := by
    intro item hi
    refine ⟨(List.getElem?_eq_some_iff.mp hi).1, ?_⟩
    rw [List.take_add_one, hi]
    rfl
  cases ht with
  | chunk msg here =>
    obtain ⟨hle, htake⟩ := hlt _ here
    have hrep : reported (q.take (call.taken + 1)) = reported (q.take call.taken) := by
      rw [htake]
      exact reported_append_of_fails _ rfl
    refine ⟨h.kind, hle, ?_, ?_, ?_⟩
    · rw [hrep]
      exact h.completed
    · rw [htake]
      exact noFailure_append h.noFailure rfl
    · rw [hrep]
      exact h.unfinished
  | report msg here success _ next unfinished =>
    obtain ⟨hle, htake⟩ := hlt _ here
    subst next
    refine ⟨h.kind, hle, ?_, ?_, fun _ => unfinished⟩
    · simp only [htake, reported_append, QueueItem.reports, success, if_true, Option.elim_some,
        Finset.image_insert, h.completed]
    · rw [htake]
      exact noFailure_append h.noFailure (by simp [QueueItem.fails, success])

def Consuming (g : Config) (s : State ρ) : Prop :=
  ∀ c call, s.calls c = some call →
    (call.phase = .submitting → call.taken = 0 ∧ call.completedStages = ∅) ∧
      (call.phase = .streaming → Consumed g (s.queues c) call)

theorem consuming_step (h : Consuming g s) (ht : Tables g s) (e : Event ρ) : Consuming g (step g s e) := by
  intro c call hc
  cases step_calls hc with
  | same hs => exact ⟨(h c call hs).1, fun hp => ((h c call hs).2 hp).grows (step_grows ht e hs)⟩
  | fresh phase taken completedStages =>
    refine ⟨fun _ => ⟨taken, completedStages⟩, fun hp => ?_⟩
    rw [phase] at hp
    cases hp
  | entered before event here phase kind next =>
    obtain ⟨htaken, hcompleted⟩ := (h c before here).1 phase
    refine ⟨fun hp => ?_, fun _ => ?_⟩
    · rw [next] at hp
      cases hp
    · subst next
      refine ⟨kind, ?_, ?_, ?_, ?_⟩
      · rw [htaken]
        exact Nat.zero_le _
      · simp [htaken, hcompleted]
      · simp only [htaken, List.take_zero]
        exact fun _ hi => nomatch hi
      · simp [htaken]
  | turned before here phase turn =>
    refine ⟨fun hp => ?_, fun _ => (((h c before here).2 phase).turn turn).grows (step_grows ht e here)⟩
    cases turn with
    | chunk msg _ =>
      simp only [phase] at hp
      cases hp
    | report msg _ _ _ next _ =>
      subst next
      simp only [phase] at hp
      cases hp
  | left submitting streaming => exact ⟨fun hp => absurd hp submitting, fun hp => absurd hp streaming⟩

/-! ### Looking up the terminal set -/

/-- A stream that resumes from `submit_to_stage` finds its request still tracked, or
was admitted with all configured terminals. -/
def LooksUpInTime (g : Config) (s : State ρ) : Event ρ → Prop
  | .submitted c => ∀ call ∈ s.calls c, call.kind = .stream → call.phase = .submitting →
      s.requests.contains call.requestId = true ∨ call.resolved = g.terminalStages
  | _ => True

instance (g : Config) (s : State ρ) : (e : Event ρ) → Decidable (LooksUpInTime g s e)
  | .submitted c =>
    inferInstanceAs (Decidable (∀ call ∈ s.calls c, call.kind = .stream → call.phase = .submitting →
      s.requests.contains call.requestId = true ∨ call.resolved = g.terminalStages))
  | .call _ _ _ _ | .submitFailed _ | .ownerWakes _ | .ownerCancelled _ | .streamNext _
  | .streamClosed _ | .streamCleanup _ | .abort _ | .abortResumed _ | .abortFailed _
  | .abortCallback _ | .completed _ | .failureResumed | .failureFailed | .streamed _
  | .failPending _ => isTrue trivial

def Expecting (s : State ρ) : Prop :=
  ∀ c call, s.calls c = some call → call.phase = .streaming → call.expected = call.resolved

/-- Marking a request running does not change what is expected of it. -/
theorem expected_markRunning (g : Config) (s : State ρ) (r : String) :
    expectedTerminalStages g (markRunning s r) r = expectedTerminalStages g s r := by
  unfold expectedTerminalStages markRunning
  cases h : s.requests.get? r with
  | none => simp [h]
  | some info => simp

/-- **The lookup.** A stream that is about to enter its loop finds the terminal set of
its admission exactly when its request is tracked or that set is the configured one. -/
theorem lookup_iff (ht : Tables g s) {c : Nat} {call : Call} (hc : s.calls c = some call)
    (hk : call.kind = .stream) (hp : call.phase = .submitting) :
    expectedTerminalStages g (markRunning s call.requestId) call.requestId = call.resolved ↔
      s.requests.contains call.requestId = true ∨ call.resolved = g.terminalStages := by
  rw [expected_markRunning, expectedTerminalStages, Dict.contains_iff]
  have live : call.phase ≠ .done := by simp [hp]
  cases h : s.requests.get? call.requestId with
  | none => simp [eq_comm]
  | some info =>
    obtain ⟨_, hst⟩ := ht.stream_queue h (ht.holdsQueue c call hc live hk) hc
    simp [hst]

theorem expecting_step (h : Expecting s) (ht : Tables g s) (e : Event ρ) (rule : LooksUpInTime g s e) :
    Expecting (step g s e) := by
  intro c call hc hp
  cases step_calls hc with
  | same hs => exact h c call hs hp
  | fresh phase _ _ =>
    rw [phase] at hp
    cases hp
  | entered before event here phase kind next =>
    subst event
    subst next
    exact (lookup_iff ht here kind phase).mpr (rule before here kind phase)
  | turned before here phase turn =>
    have hb := h c before here phase
    cases turn with
    | chunk _ _ => exact hb
    | report _ _ _ _ next _ =>
      subst next
      exact hb
  | left _ streaming => exact absurd hp streaming

/-- In any run, the set that a stream waits for is the one of its admission or the
configured one. -/
def ExpectsEither (g : Config) (s : State ρ) : Prop :=
  ∀ c call, s.calls c = some call → call.phase = .streaming →
    call.expected = call.resolved ∨ call.expected = g.terminalStages

theorem expectsEither_step (h : ExpectsEither g s) (ht : Tables g s) (e : Event ρ) :
    ExpectsEither g (step g s e) := by
  intro c call hc hp
  cases step_calls hc with
  | same hs => exact h c call hs hp
  | fresh phase _ _ =>
    rw [phase] at hp
    cases hp
  | entered before event here phase kind next =>
    subst next
    have live : before.phase ≠ .done := by simp [phase]
    simp only [expected_markRunning]
    unfold expectedTerminalStages
    cases hr : s.requests.get? before.requestId with
    | none => exact .inr rfl
    | some info =>
      obtain ⟨_, hst⟩ := ht.stream_queue hr (ht.holdsQueue c before here live kind) here
      exact .inl (by simp [hst])
  | turned before here phase turn =>
    have hb := h c before here phase
    cases turn with
    | chunk _ _ => exact hb
    | report _ _ _ _ next _ =>
      subst next
      exact hb
  | left _ streaming => exact absurd hp streaming

/-! ### The return -/

theorem logicalName_plain (t : ReplicaTopology) {name : String}
    (h : (parseReplicaInstanceName name).2 = none) : t.logicalName name = name := by
  unfold ReplicaTopology.logicalName
  split
  · rfl
  · next heq =>
    rw [heq] at h
    cases h

/-- What the proofs below know about a stream in its loop. -/
structure Streaming (g : Config) (s : State ρ) (c : Nat) (call : Call) : Prop where
  tables : Tables g s
  queues : Queues s
  consuming : Consuming g s
  here : s.calls c = some call
  phase : call.phase = .streaming
  expected : call.expected = call.resolved
  covered : Covered call.resolved (s.queues c)

namespace Streaming

variable {c : Nat} {call : Call}

/-- A stream with a report of every terminal in its queue has not taken all of it. -/
theorem pending (h : Streaming g s c call) : call.taken < (s.queues c).length := by
  have hcons := (h.consuming c call h.here).2 h.phase
  rcases Nat.lt_or_ge call.taken (s.queues c).length with hlt | hge
  · exact hlt
  · have htake : (s.queues c).take call.taken = s.queues c := List.take_of_length_le hge
    refine absurd ?_ (hcons.unfinished (by rw [htake]; exact h.covered.1))
    refine .inr fun stage hstage => ?_
    rw [h.expected] at hstage
    rw [hcons.completed, htake, Finset.mem_image]
    have hplain := g.plain stage (h.tables.resolved c call h.here hstage)
    exact ⟨stage, h.covered.2 hstage, logicalName_plain g.topology hplain⟩

/-- Its request has left the table. -/
theorem untracked (h : Streaming g s c call) : s.requests.get? call.requestId = none := by
  have live : call.phase ≠ .done := by simp [h.phase]
  have hk := ((h.consuming c call h.here).2 h.phase).kind
  have hq := h.tables.holdsQueue c call h.here live hk
  cases hr : s.requests.get? call.requestId with
  | none => rfl
  | some info =>
    obtain ⟨rfl, hres⟩ := h.tables.stream_queue hr hq h.here
    exact absurd h.covered (h.queues.not_covered hr hq hres)

theorem next_eq (h : Streaming g s c call) :
    step g s (.streamNext c) = Coordinator.streamNext g s c call := by
  simp [step, onCall, h.here, h.phase]

/-- So it gives up its queue and is done as soon as it leaves the loop. -/
theorem close_call (h : Streaming g s c call) {new : Call} (hid : new.requestId = call.requestId) :
    (closeStream s c new).calls c = some { new with phase := .done } := by
  have hnone : s.requests.contains new.requestId = false := by
    simp [Dict.contains, hid, h.untracked]
  simp only [closeStream, hnone, Bool.false_eq_true, and_false, if_false, releaseStream]
  split <;> simp [State.setCall]

/-- A turn returns, or goes on with one item less to take. -/
theorem turn (h : Streaming g s c call) :
    (∃ call', (step g s (.streamNext c)).calls c = some call' ∧ call'.phase = .done ∧
      call'.exit = some .returned) ∨
    ∃ call', Streaming g (step g s (.streamNext c)) c call' ∧ call'.taken = call.taken + 1 ∧
      (step g s (.streamNext c)).queues c = s.queues c := by
  have hlt := h.pending
  have hqueues : (step g s (.streamNext c)).queues = s.queues := (step_byOwner g s rfl).queues
  have hitem : (s.queues c)[call.taken]? = some (s.queues c)[call.taken] := List.getElem?_eq_getElem hlt
  have hgo : ∀ call', (step g s (.streamNext c)).calls c = some call' → call'.phase = .streaming →
      call'.expected = call.expected → call'.resolved = call.resolved →
      Streaming g (step g s (.streamNext c)) c call' := by
    intro call' hc' hp he hr
    refine ⟨tables_step h.tables _, queues_step h.queues h.tables _,
      consuming_step h.consuming h.tables _, hc', hp, ?_, ?_⟩
    · rw [he, hr, h.expected]
    · rw [hr, hqueues]
      exact h.covered
  have hstep := h.next_eq
  unfold Coordinator.streamNext at hstep
  cases hi : (s.queues c)[call.taken] with
  | stream msg =>
    simp only [hitem, hi] at hstep
    refine .inr ⟨_, hgo { call with taken := call.taken + 1 } ?_ h.phase rfl rfl, rfl,
      by rw [hqueues]⟩
    simp [hstep, State.setCall]
  | complete msg =>
    have hok : msg.success = true := by
      have := h.queues.covered c call h.here h.covered _ (List.getElem_mem hlt)
      rw [hi] at this
      simpa [QueueItem.fails] using this
    simp only [hitem, hi, hok, Bool.true_eq_false, if_false] at hstep
    split at hstep
    · refine .inl ⟨{ call with
        taken := call.taken + 1
        completedStages := insert (g.topology.logicalName msg.fromStage) call.completedStages
        exit := some .returned
        phase := .done }, ?_, rfl, rfl⟩
      rw [hstep]
      exact h.close_call rfl
    · refine .inr ⟨_, hgo { call with
        taken := call.taken + 1
        completedStages := insert (g.topology.logicalName msg.fromStage) call.completedStages }
        ?_ h.phase rfl rfl, rfl, by rw [hqueues]⟩
      simp [hstep, State.setCall]

theorem stays {call' : Call} (hc : s.calls c = some call') (hp : call'.phase ≠ .streaming) :
    step g s (.streamNext c) = s := by
  simp [step, onCall, hc, hp]

theorem stays_run {call' : Call} (hc : s.calls c = some call') (hp : call'.phase ≠ .streaming) (k : Nat) :
    run (step g) s (List.replicate k (.streamNext c)) = s := by
  induction k with
  | zero => rfl
  | succ k ih =>
    rw [List.replicate_succ, run, stays hc hp]
    exact ih

/-- A stream that takes all its queue holds returns. -/
theorem returns (h : Streaming g s c call) :
    ∃ call', (run (step g) s
        (List.replicate ((s.queues c).length - call.taken) (.streamNext c))).calls c = some call' ∧
      call'.phase = .done ∧ call'.exit = some .returned := by
  generalize hk : (s.queues c).length - call.taken = k
  induction k generalizing s call with
  | zero =>
    have := h.pending
    omega
  | succ k ih =>
    rw [List.replicate_succ, run]
    rcases h.turn with ⟨call', hc, hp, he⟩ | ⟨call', hnext, htaken, hqueue⟩
    · rw [stays_run hc (by simp [hp])]
      exact ⟨call', hc, hp, he⟩
    · exact ih hnext (by rw [hqueue, htaken]; omega)

end Streaming

/-- **Streams wait for their own terminals.** In a run where every stream looks its
terminal set up in time, a stream in its loop waits for exactly the set of its
admission. Once every stage of it has a success in the queue there is always an item
to take, and taking what is there the stream returns. -/
theorem stream_waits_for_resolved (g : Config) (history : List (Event ρ))
    (rule : Along (step g) (LooksUpInTime g) (State.create ρ) history) :
    let s := run (step g) (State.create ρ) history
    ∀ c call, s.calls c = some call → call.phase = .streaming →
      call.expected = call.resolved ∧
        (Covered call.resolved (s.queues c) → call.taken < (s.queues c).length ∧
          ∃ call', (run (step g) s
              (List.replicate ((s.queues c).length - call.taken) (.streamNext c))).calls c = some call' ∧
            call'.phase = .done ∧ call'.exit = some .returned) := by
  intro s c call hc hp
  let Inv (s : State ρ) := Tables g s ∧ Queues s ∧ Consuming g s ∧ Expecting s
  have initial : Inv (State.create ρ) :=
    ⟨tables_create g, queues_create ρ, (fun _ _ h => nomatch h), (fun _ _ h => nomatch h)⟩
  have preserved : ∀ t e, Inv t → LooksUpInTime g t e → Inv (step g t e) :=
    fun t e h hr => ⟨tables_step h.1 e, queues_step h.2.1 h.1 e, consuming_step h.2.2.1 h.1 e,
      expecting_step h.2.2.2 h.1 e hr⟩
  have h : Inv s := along_invariant initial preserved history rule
  have hexpected := h.2.2.2 c call hc hp
  refine ⟨hexpected, fun hcov => ?_⟩
  have hstream : Streaming g s c call := ⟨h.1, h.2.1, h.2.2.1, hc, hp, hexpected, hcov⟩
  exact ⟨hstream.pending, hstream.returns⟩

/-- Two terminals, of which a resolver picks for every request. -/
def twoTerminals : Config where
  entryStage := "a"
  terminalStages := {"a", "b"}
  hasResolver := true
  topology := ⟨∅⟩
  processes := []
  maxInFlight := none
  stages := {"a", "b"}
  plain := by decide

/-- A stream for terminal `a` alone, which reports when the stream is in its loop. -/
theorem stream_waits_for_resolved_in_time :
    let s := run (step twoTerminals) (State.create Nat)
      [.call .stream "r" (.names ["a"]) (fun _ _ => 0), .submitted 0,
        .completed { requestId := "r", fromStage := "a", success := true, result := some 7 }]
    Covered {"a"} (s.queues 0) ∧
      ∃ call', (run (step twoTerminals) s [.streamNext 0]).calls 0 = some call' ∧
        call'.phase = .done ∧ call'.exit = some .returned := by
  intro s
  have hcov : Covered {"a"} (s.queues 0) := by
    unfold Covered
    decide
  exact ⟨hcov, ((stream_waits_for_resolved twoTerminals _ (by decide) 0
    { requestId := "r", kind := .stream, resolved := {"a"}, phase := .streaming, expected := {"a"} }
    rfl rfl).2 hcov).2⟩

/-- The same request, whose terminal reports before `submit_to_stage` is over. -/
def earlyCompletion : List (Event Nat) :=
  [.call .stream "r" (.names ["a"]) (fun _ _ => 0),
    .completed { requestId := "r", fromStage := "a", success := true, result := some 7 },
    .submitted 0]

/-- The stream waits for both terminals, and with its queue taken and its request gone
it waits still. -/
theorem early_completion_waits :
    let s := run (step twoTerminals) (State.create Nat) earlyCompletion
    let s' := run (step twoTerminals) s [.streamNext 0]
    Covered {"a"} (s.queues 0) ∧ s.requests.get? "r" = none ∧
      (s.calls 0).map (fun call => (call.resolved, call.expected)) = some ({"a"}, {"a", "b"}) ∧
      (s'.calls 0).map (fun call => (call.phase, call.taken)) = some (.streaming, 1) ∧
      (s'.queues 0).length = 1 := by
  unfold Covered
  decide

end SglangOmni.Pipeline.Coordinator
