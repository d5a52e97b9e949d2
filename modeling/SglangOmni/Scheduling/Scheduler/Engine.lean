import SglangOmni.Scheduling.Scheduler.Invariants

/-! What the engine's steps have in common.

Planning, running, launching and resolving batches, going through `stream_output`, aborting, and
what an administrator asks for: to the tables of admission all of these look the same. The
requests of `rs` are aborted, some others finish, and a finished one may be closed. -/
namespace SglangOmni.Scheduling.Scheduler
open Lib

variable {cfg : Config} {s s' t : State} {rs : List String}

/-- A request that was still open is finished and detached. -/
def Closed (s s' : State) (r : String) : Prop :=
  ∃ q, q < s.reqCount ∧ (s.batches.req q).rid = r ∧
    (s.claimed = some q ∨ (s.batches.req q).omniTerminalClaimed = false) ∧
    (s'.batches.req q).finished = true ∧ (s'.batches.req q).omniData = none

/-- Nothing waits for an id that is closed. -/
def Shut (s : State) : Prop := ∀ r ∈ s.completed, s.ingress.get? r = none

structure Engine (rs : List String) (s s' : State) : Prop extends Swept rs s s' where
  finished : ∀ q, (s.batches.req q).finished = true → (s'.batches.req q).finished = true
  detached : ∀ q, (s.batches.req q).omniData = none → (s'.batches.req q).omniData = none
  flag : ∀ q, (s.batches.req q).omniTerminalClaimed = true → (s'.batches.req q).omniTerminalClaimed = true
  claimed : ∀ q, s'.claimed = some q → s.claimed = some q ∨ (s.batches.req q).omniTerminalClaimed = false
  ingress : ∀ r, s'.ingress.get? r = s.ingress.get? r ∨ r ∈ rs ∨ Closed s s' r
  completed : ∀ r ∈ s'.completed, r ∈ s.completed ∨ Closed s s' r
  shut : Shut s → Shut s'
  received : s'.received = s.received

theorem Closed.later (h : Engine rs t s') {r : String} (hc : Closed s t r) : Closed s s' r := by
  obtain ⟨q, hq, hr, hopen, hf, hd⟩ := hc
  exact ⟨q, hq, hr, hopen, h.finished q hf, h.detached q hd⟩

theorem Engine.open_before (h : Engine rs s t) {q : Nat}
    (hopen : t.claimed = some q ∨ (t.batches.req q).omniTerminalClaimed = false) :
    s.claimed = some q ∨ (s.batches.req q).omniTerminalClaimed = false := by
  obtain hopen | hopen := hopen
  · exact h.claimed q hopen
  · refine .inr ?_
    cases hflag : (s.batches.req q).omniTerminalClaimed with
    | false => rfl
    | true =>
      rw [h.flag q hflag] at hopen
      cases hopen

theorem Closed.earlier (h : Engine rs s t) {r : String} (hc : Closed t s' r) : Closed s s' r := by
  obtain ⟨q, hq, hr, hopen, hover⟩ := hc
  exact ⟨q, by rwa [h.reqCount] at hq, by rwa [h.rid] at hr, h.open_before hopen, hover⟩

theorem Engine.refl (s : State) : Engine [] s s where
  toSwept := .refl s
  finished _ h := h
  detached _ h := h
  flag _ h := h
  claimed _ h := .inl h
  ingress _ := .inl rfl
  completed _ h := .inl h
  shut h := h
  received := rfl

theorem Engine.trans {rs' : List String} (h : Engine rs s t) (h' : Engine rs' t s') : Engine (rs ++ rs') s s' where
  toSwept := h.toSwept.trans h'.toSwept
  finished q hq := h'.finished q (h.finished q hq)
  detached q hq := h'.detached q (h.detached q hq)
  flag q hq := h'.flag q (h.flag q hq)
  claimed q hq := h.open_before (h'.claimed q hq)
  ingress r := by
    obtain h1 | h1 | h1 := h'.ingress r
    · obtain h2 | h2 | h2 := h.ingress r
      · exact .inl (h1.trans h2)
      · exact .inr (.inl (List.mem_append_left _ h2))
      · exact .inr (.inr (h2.later h'))
    · exact .inr (.inl (List.mem_append_right _ h1))
    · exact .inr (.inr (h1.earlier h))
  completed r hr := by
    obtain hr | hr := h'.completed r hr
    · obtain hr | hr := h.completed r hr
      · exact .inl hr
      · exact .inr (hr.later h')
    · exact .inr (hr.earlier h)
  shut hs := h'.shut (h.shut hs)
  received := h'.received.trans h.received

theorem Engine.first (h : Engine [] s t) (h' : Engine rs t s') : Engine rs s s' := h.trans h'

theorem Cut.engine (h : Cut rs s s') : Engine rs s s' where
  toSwept := h.toSwept
  finished q hq := by rwa [h.finished]
  detached q hq := by
    obtain h1 | h1 := h.omniData q
    · rwa [h1]
    · exact h1
  flag q hq := by rwa [h.claimedFlag]
  claimed q hq := .inl (by rwa [h.claimed] at hq)
  ingress r := by
    obtain h1 | ⟨hr, _⟩ := h.ingress r
    · exact .inl h1
    · exact .inr (.inl hr)
  completed r hr := .inl (by rwa [h.completed] at hr)
  shut hs r hr := by
    rw [h.completed] at hr
    obtain h1 | ⟨_, h1⟩ := h.ingress r
    · exact h1.trans (hs r hr)
    · exact h1
  received := h.received

theorem Req.finish_of_finished {q : Req} (h : q.finished = true) : Req.finish q = q := by
  simp only [Req.finish, h, if_true]

theorem engine_processBatchResult (s : State) (reqs finishing : List Nat) :
    Engine [] s (processBatchResult s reqs finishing) := by
  refine
    { Engine.refl s with
      rid := (sameTables_processBatchResult s reqs finishing).rid
      finished := fun q hq => ?_
      detached := fun q hq => ?_
      flag := fun q hq => ?_
      ingress := fun _ => .inl rfl
      completed := fun r hr => .inl hr }
  · simp only [processBatchResult]
    split
    · rw [Req.finish_of_finished hq]
      exact hq
    · exact hq
  · simp only [processBatchResult, Req.finish]
    split
    · split
      · exact hq
      · exact hq
    · exact hq
  · simp only [processBatchResult, Req.finish]
    split
    · split
      · exact hq
      · exact hq
    · exact hq

theorem engine_detach (s : State) (q : Nat) : Engine [] s { s with batches := s.batches.detachRequestData q } := by
  refine
    { Engine.refl s with
      rid := rid_detachRequestData s.batches q
      finished := fun p hp => ?_
      detached := fun p hp => ?_
      flag := fun p hp => ?_
      ingress := fun _ => .inl rfl
      completed := fun r hr => .inl hr }
  · simp only [req_detachRequestData]
    split
    · next h => exact h ▸ hp
    · exact hp
  · simp only [req_detachRequestData]
    split
    · rfl
    · exact hp
  · simp only [req_detachRequestData]
    split
    · next h => exact h ▸ hp
    · exact hp

/-- A request that is open is closed; nobody is claimed any more. -/
theorem engine_closeCompletedRequest (s : State) {q : Nat} (hq : q < s.reqCount)
    (hopen : s.claimed = some q ∨ (s.batches.req q).omniTerminalClaimed = false)
    (hf : (s.batches.req q).finished = true) :
    Engine [] s { closeCompletedRequest s q with claimed := none } := by
  have h1 := engine_detach s q
  have hclosed : Closed s { s with batches := s.batches.detachRequestData q } (s.batches.req q).rid :=
    ⟨q, hq, rfl, hopen, h1.finished q hf, by simp [req_detachRequestData]⟩
  unfold closeCompletedRequest rememberCompletedRequest
  dsimp only
  split
  · exact { h1 with claimed := fun p hp => nomatch hp }
  · refine { h1 with claimed := (fun p hp => nomatch hp), ingress := ?_, completed := ?_, shut := ?_ }
    · intro r
      by_cases hr : r = (s.batches.req q).rid
      · exact .inr (.inr (hr ▸ hclosed))
      · exact .inl (Dict.get?_pop_ne s.ingress hr)
    · intro r hr
      obtain hr | hr := List.mem_append.mp hr
      · refine .inl ?_
        split at hr
        · exact List.mem_of_mem_drop hr
        · exact hr
      · rw [List.mem_singleton.mp hr]
        exact .inr hclosed
    · intro hs r hr
      have hget : (s.ingress.pop (s.batches.req q).rid).get? r = none := by
        rw [Dict.get?_pop]
        split
        · rfl
        · next hne =>
          refine hs r ?_
          obtain hr | hr := List.mem_append.mp hr
          · split at hr
            · exact List.mem_of_mem_drop hr
            · exact hr
          · exact absurd (List.mem_singleton.mp hr) hne
      exact hget

theorem claimed_closeCompletedRequest (s : State) (q : Nat) : (closeCompletedRequest s q).claimed = s.claimed := by
  unfold closeCompletedRequest rememberCompletedRequest
  dsimp only
  split <;> rfl

theorem engine_streamOutput (hknown : Known s) (hclaimed : s.claimed = none) : Engine [] s (streamOutput s) := by
  unfold streamOutput
  split
  · exact .refl s
  · next q rest hs =>
    have hq : q < s.reqCount := hknown.streaming q (by rw [hs]; exact List.mem_cons_self)
    have hpop : Engine [] s { s with streaming := rest } := { Engine.refl s with completed := fun r hr => .inl hr }
    dsimp only
    split
    · exact hpop
    · next hf =>
      have hf : (s.batches.req q).finished = true := by simpa using hf
      split
      · exact hpop.trans (engine_detach _ q)
      · split
        · exact hpop
        · next hflag =>
          have hflag : (s.batches.req q).omniTerminalClaimed = false := by simpa using hflag
          split
          · have h1 := hpop.trans (engine_closeCompletedRequest { s with streaming := rest } hq (.inr hflag) hf)
            have hnone : (closeCompletedRequest { s with streaming := rest } q).claimed = none := by
              rw [claimed_closeCompletedRequest]
              exact hclaimed
            have hsame : { closeCompletedRequest { s with streaming := rest } q with claimed := none } =
                closeCompletedRequest { s with streaming := rest } q := by
              rw [← hnone]
            rw [hsame] at h1
            exact h1
          · refine
              { hpop with
                rid := fun p => ?_
                finished := fun p hp => ?_
                detached := fun p hp => ?_
                flag := fun p hp => ?_
                claimed := fun p hp => .inr (by cases hp; exact hflag)
                ingress := fun _ => .inl rfl
                completed := fun r hr => .inl hr } <;>
              by_cases h : p = q
            · subst h
              simp [Batches.setReq]
            · simp [Batches.setReq, h]
            · subst h
              simpa [Batches.setReq, Req.finished] using hp
            · simpa [Batches.setReq, h] using hp
            · subst h
              simpa [Batches.setReq] using hp
            · simpa [Batches.setReq, h] using hp
            · subst h
              simp [Batches.setReq]
            · simpa [Batches.setReq, h] using hp

theorem outbox_claimed_closeCompletedRequest (s : State) (q : Nat) (msgs : List OutgoingMessage) :
    closeCompletedRequest { s with claimed := none, outbox := msgs } q =
      { closeCompletedRequest s q with claimed := none, outbox := msgs } := by
  unfold closeCompletedRequest rememberCompletedRequest
  dsimp only
  split <;> rfl

theorem engine_terminalOutput (cfg : Config) (h : Sane s) (yields : Nat) (ok : Bool) :
    Engine [] s (terminalOutput cfg s yields ok) := by
  unfold terminalOutput
  split
  · exact .refl s
  · next q hclaimed =>
    have h1 := engine_closeCompletedRequest s (h.known.claimed q hclaimed) (.inl hclaimed)
      (h.requests.claimed q hclaimed).1
    have h2 : Engine [] s
        (closeCompletedRequest
          { s with claimed := none, outbox := s.outbox ++ streamMessages (s.batches.req q).rid yields } q) := by
      rw [outbox_claimed_closeCompletedRequest]
      exact { h1 with }
    dsimp only
    split
    · exact { h2 with }
    · exact h2.trans (cut_emitRequestError cfg _ _).engine

theorem engine_resolveAndProcess (cfg : Config) (s : State) (pending : Pending) (step : Step) :
    ∃ rs, Engine rs s (resolveAndProcess cfg s pending step) := by
  unfold resolveAndProcess
  dsimp only
  split
  · exact ⟨_, (cut_handleBatchFailure cfg _ _).engine⟩
  · exact ⟨_, .refl s⟩
  · refine ⟨_, Engine.first ?_ (engine_processBatchResult _ _ _)⟩
    exact { Engine.refl s with completed := fun r hr => .inl hr }

theorem engine_resolvePendingAsync (cfg : Config) (s : State) (step : Step) :
    ∃ rs, Engine rs s (resolvePendingAsync cfg s step) := by
  unfold resolvePendingAsync
  split
  · exact ⟨_, .refl s⟩
  · next pending _ =>
    obtain ⟨rs, h1⟩ := engine_resolveAndProcess cfg { s with batches := { s.batches with asyncPending := none } }
      pending step
    refine ⟨_, Engine.first ?_ h1⟩
    exact { Engine.refl s with completed := fun r hr => .inl hr }

theorem engine_dropStaleOverrun (s : State) : Engine [] s (dropStaleOverrun s) := by
  unfold dropStaleOverrun
  split
  · exact .refl s
  · dsimp only
    split
    · exact .refl s
    · exact { Engine.refl s with completed := fun r hr => .inl hr }

theorem engine_runBatch (cfg : Config) (s : State) (step : Step) : ∃ rs, Engine rs s (runBatch cfg s step) := by
  unfold runBatch
  split
  · exact ⟨_, .refl s⟩
  · split
    · refine ⟨_, Engine.first ?_ (engine_processBatchResult _ _ _)⟩
      exact { Engine.refl s with completed := fun r hr => .inl hr }
    · exact ⟨_, (cut_handleBatchFailure cfg _ _).engine⟩

theorem engine_runBatchLaunch (cfg : Config) (s : State) (b : Nat) (ok : Bool) :
    ∃ rs, Engine rs s (runBatchLaunch cfg s b ok) := by
  unfold runBatchLaunch
  split
  · have h1 := (cut_handleBatchFailure cfg s (s.batches.reqs b)).engine
    exact ⟨_, { h1 with }⟩
  · exact ⟨[], { Engine.refl s with completed := fun r hr => .inl hr }⟩

theorem engine_requeueRunningRequests (s : State) (refused : List Nat) :
    Engine [] s (requeueRunningRequests s refused) := by
  refine
    { Engine.refl s with
      rid := fun q => ?_
      finished := fun q hq => ?_
      detached := fun q hq => ?_
      flag := fun q hq => ?_
      ingress := fun _ => .inl rfl
      completed := fun r hr => .inl hr } <;>
    simp only [requeueRunningRequests] <;> split
  · rfl
  · rfl
  · exact hq
  · exact hq
  · exact hq
  · exact hq
  · exact hq
  · exact hq

/-! ### Every run -/

/-- The payloads in the hands of `process_input_requests`. -/
def Phase.payloads : Phase → List Payload
  | .received recvReqs | .taken recvReqs => recvReqs
  | .admitting rejected selected => rejected ++ selected
  | _ => []

/-- The steps that admit nothing. -/
def Event.engine : Event → Bool
  | .admitted | .pausedAgain | .upstreamAbort _ | .plan _ | .launch _ | .resolve _ | .run _ | .flush _ | .finish
  | .streamOutput | .terminalOutput _ _ | .pause _ | .abortAll | .retract _ | .stageAbort _ => true
  | _ => false

theorem engine_step (cfg : Config) {e : Event} (h : Sane s) (he : e.engine = true) :
    ∃ rs, Engine rs s (step cfg s e) := by
  have hkeep : ∀ {s'}, (∀ rs, Engine rs s s → Engine rs s s') → ∃ rs, Engine rs s s' := fun h => ⟨_, h _ (.refl s)⟩
  refine step_rule (P := fun s' => ∃ rs, Engine rs s s') ⟨[], .refl s⟩ fun s' hf => ?_
  cases hf with
  | admitted _ | pausedAgain _ => exact hkeep fun _ h => { h with }
  | upstreamAbort r => exact ⟨_, (cut_fail cfg s r false).engine⟩
  | plan u _ => exact hkeep fun _ h => { h with }
  | launch ok b _ _ _ => exact engine_runBatchLaunch cfg s _ ok
  | resolve step prev _ =>
    obtain ⟨rs, h1⟩ := engine_resolveAndProcess cfg s prev step
    exact ⟨rs, { h1 with }⟩
  | run step flushed _ _ =>
    have hdropped : Engine [] s (if flushed then dropStaleOverrun s else s) := by
      split
      · exact engine_dropStaleOverrun s
      · exact .refl s
    obtain ⟨rs, h1⟩ := engine_runBatch cfg (if flushed then dropStaleOverrun s else s) step
    have h2 := hdropped.trans h1
    exact ⟨_, { h2 with }⟩
  | flush step _ _ => exact engine_resolvePendingAsync cfg s step
  | flushPlanned step _ _ =>
    obtain ⟨rs, h1⟩ := engine_resolvePendingAsync cfg s step
    exact ⟨rs, { h1 with }⟩
  | finish _ => exact hkeep fun _ h => { h with }
  | streamOutput hclaimed => exact ⟨_, engine_streamOutput h.known hclaimed⟩
  | terminalOutput yields ok => exact ⟨_, engine_terminalOutput cfg h yields ok⟩
  | pause paused => exact hkeep fun _ h => { h with }
  | abortAll => exact ⟨_, (cut_abortAllRequests s).engine⟩
  | retract refused _ =>
    exact ⟨_, (engine_requeueRunningRequests s refused).trans (cut_retractRunningRequests cfg s refused).engine⟩
  | stageAbort r =>
    have h1 := (cut_abort s r true).engine
    exact ⟨_, { h1 with }⟩
  | _ => cases he

theorem payloads_runBatchLaunch (cfg : Config) (s : State) (b : Nat) (ok : Bool) :
    (runBatchLaunch cfg s b ok).phase.payloads = [] := by
  unfold runBatchLaunch
  split
  · rfl
  · dsimp only
    split <;> rfl

/-- Nothing is in hand beside the engine. -/
theorem payloads_step (cfg : Config) (s : State) {e : Event} (he : e.engine = true) :
    (step cfg s e).phase.payloads = s.phase.payloads := by
  refine step_rule (P := fun s' => s'.phase.payloads = s.phase.payloads) rfl fun s' hf => ?_
  cases hf with
  | admitted hphase => rw [hphase]; rfl
  | pausedAgain hphase => rw [hphase]; rfl
  | upstreamAbort r => exact congrArg Phase.payloads (cut_fail cfg s r false).phase
  | plan u hphase => rw [hphase]; rfl
  | launch ok b hphase _ _ =>
    rw [payloads_runBatchLaunch, hphase]
    rfl
  | resolve step prev hphase => rw [hphase]; rfl
  | run step flushed hphase _ => rw [hphase]; rfl
  | flush step _ _ => rw [phase_resolvePendingAsync]
  | flushPlanned step hphase _ => rw [hphase]; rfl
  | finish hphase => rw [hphase]; rfl
  | streamOutput _ => rw [phase_streamOutput]
  | terminalOutput yields ok => rw [phase_terminalOutput]
  | pause paused => rfl
  | abortAll => exact congrArg Phase.payloads (cut_abortAllRequests s).phase
  | retract refused _ => exact congrArg Phase.payloads (cut_retractRunningRequests cfg s refused).phase
  | stageAbort r => rfl
  | _ => cases he

end SglangOmni.Scheduling.Scheduler
