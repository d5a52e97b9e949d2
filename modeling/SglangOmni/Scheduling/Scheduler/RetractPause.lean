import SglangOmni.Scheduling.Scheduler.Incarnations

/-! What a pause in retract mode takes back.

`_admin_pause_generation` resolves the step in flight, and `_retract_running_requests` then puts the unfinished requests
of the running batch back into the queue. A request can be elsewhere between two iterations: in a prefill batch that is
the last batch and has not been merged into the running one yet, or as the request whose prefill is cut in chunks. That
code does not look there. -/
namespace SglangOmni.Scheduling.Scheduler
open Lib

variable {cfg : Config} {s s' : State}

/-! ### Nobody is queued twice -/

/-- Upstream queues a request once, and not beside the running batch. -/
def Plan.Once (u : Plan) : Prop := (u.waiting ++ u.reqs u.runningBatch).Nodup

instance (u : Plan) : Decidable u.Once := inferInstanceAs (Decidable (List.Nodup _))

/-- Upstream's plans are sound and queue nobody twice. -/
def UpstreamOnce (s : State) (e : Event) : Prop := Upstream s e ∧ ∀ u, e = .plan u → u.Once

/-- Nobody is queued twice, or queued and running. -/
def Single (s : State) : Prop := (s.waiting ++ s.batches.reqs s.batches.runningBatch).Nodup

/-- The queue and the running batch only lose requests. -/
structure Thinned (s s' : State) : Prop where
  waiting : s'.waiting.Sublist s.waiting
  runningBatch : s'.batches.runningBatch = s.batches.runningBatch
  reqs : ∀ x, (s'.batches.reqs x).Sublist (s.batches.reqs x)

theorem Thinned.refl (s : State) : Thinned s s := ⟨.refl _, rfl, fun _ => .refl _⟩

theorem Thinned.trans {t : State} (h : Thinned s s') (h' : Thinned s' t) : Thinned s t :=
  ⟨h'.waiting.trans h.waiting, h'.runningBatch.trans h.runningBatch, fun x => (h'.reqs x).trans (h.reqs x)⟩

theorem Single.thinned (h : Single s) (ht : Thinned s s') : Single s' := by
  unfold Single
  rw [ht.runningBatch]
  exact List.Nodup.sublist (ht.waiting.append (ht.reqs _)) h

theorem Single.same (h : Single s) (hwaiting : s'.waiting = s.waiting) (hbatches : s'.batches = s.batches) :
    Single s' := by
  unfold Single
  rw [hwaiting, hbatches]
  exact h

theorem SamePlaces.thinned (h : SamePlaces s s') : Thinned s s' where
  waiting := h.waiting ▸ .refl _
  runningBatch := h.runningBatch
  reqs _ := h.reqs ▸ .refl _

theorem thinned_abort (s : State) (r : String) (d : Bool) : Thinned s (abort s r d) where
  waiting := List.filter_sublist
  runningBatch := (trimmed_abort s r d).runningBatch
  reqs x := by
    obtain h | h := (trimmed_abort s r d).reqs x
    · rw [h]
    · rw [h]
      exact List.filter_sublist

theorem thinned_fail (cfg : Config) (s : State) (r : String) (d : Bool) : Thinned s (fail cfg s r d) := by
  have habort := thinned_abort (emitRequestError cfg s r) r d
  have hemit : Thinned s (emitRequestError cfg s r) := by
    unfold emitRequestError
    split
    · exact ⟨.refl _, rfl, fun _ => .refl _⟩
    · exact .refl s
  exact hemit.trans habort

theorem thinned_foldl {f : State → String → State} (hf : ∀ s r, Thinned s (f s r)) (rs : List String) (s : State) :
    Thinned s (rs.foldl f s) := by
  induction rs generalizing s with
  | nil => exact .refl s
  | cons r rest ih => exact (hf s r).trans (ih _)

theorem thinned_handleBatchFailure (cfg : Config) (s : State) (reqs : List Nat) :
    Thinned s (handleBatchFailure cfg s reqs) :=
  thinned_foldl (fun s r => thinned_fail cfg s r false) _ s

/-- A batch with some of its requests taken out. -/
theorem sublist_update {f : Nat → List Nat} {y : Nat} {l : List Nat} (hl : l.Sublist (f y)) (x : Nat) :
    (Function.update f y l x).Sublist (f x) := by
  by_cases hx : x = y
  · subst hx
    rwa [Function.update_self]
  · rw [Function.update_of_ne hx]

theorem thinned_resolveAndProcess (cfg : Config) (s : State) (pending : Pending) (step : Step) :
    Thinned s (resolveAndProcess cfg s pending step) := by
  unfold resolveAndProcess
  dsimp only
  split
  · exact thinned_handleBatchFailure cfg s _
  · exact .refl s
  · exact ⟨.refl _, rfl, sublist_update List.filter_sublist⟩

theorem thinned_resolvePendingAsync (cfg : Config) (s : State) (step : Step) :
    Thinned s (resolvePendingAsync cfg s step) := by
  unfold resolvePendingAsync
  split
  · exact .refl s
  · next pending _ =>
    have hflushed := thinned_resolveAndProcess cfg
      { s with batches := { s.batches with asyncPending := none } } pending step
    exact ⟨hflushed.waiting, hflushed.runningBatch, hflushed.reqs⟩

theorem thinned_dropStaleOverrun (s : State) : Thinned s (dropStaleOverrun s) := by
  unfold dropStaleOverrun
  split
  · exact .refl s
  · dsimp only
    split
    · exact .refl s
    · exact ⟨.refl _, rfl, sublist_update List.filter_sublist⟩

theorem thinned_runBatch (cfg : Config) (s : State) (step : Step) : Thinned s (runBatch cfg s step) := by
  unfold runBatch
  split
  · exact .refl s
  · split
    · exact ⟨.refl _, rfl, fun _ => .refl _⟩
    · exact thinned_handleBatchFailure cfg s _

/-- A launch makes a batch of its own. -/
theorem single_runBatchLaunch (h : Single s) (hknown : Known s) (b : Nat) (ok : Bool) :
    Single (runBatchLaunch cfg s b ok) := by
  unfold runBatchLaunch
  split
  · exact (h.thinned (thinned_handleBatchFailure cfg s _)).same rfl rfl
  · unfold Single
    dsimp only
    rw [Function.update_of_ne (Nat.ne_of_lt (hknown.slots .running _ rfl))]
    exact h

theorem single_getNextBatchToRun {u : Plan} (hu : u.Sound s) (honce : u.Once) : Single (getNextBatchToRun s u) := by
  have hnot : some u.runningBatch ≠ s.batches.asyncPending.map (·.batch) := by
    intro heq
    obtain ⟨p, hp, hbatch⟩ := Option.map_eq_some_iff.mp heq.symm
    exact (hu.snapshot p hp).1 hbatch.symm
  unfold Single getNextBatchToRun
  dsimp only
  rw [if_neg hnot]
  exact honce

theorem single_enqueue (h : Single s) (hknown : Known s) (r : String) (handed : List Handed) :
    Single (enqueue s r handed) := by
  have hnew : ∀ q ∈ s.waiting ++ s.batches.reqs s.batches.runningBatch, q ≠ s.reqCount := by
    intro q hq
    obtain hq | hq := List.mem_append.mp hq
    · exact Nat.ne_of_lt (hknown.waiting q hq)
    · exact Nat.ne_of_lt (hknown.listed q (Batches.mem_listed.mpr ⟨.running, _, rfl, hq⟩))
  show (s.waiting ++ [s.reqCount] ++ s.batches.reqs s.batches.runningBatch).Nodup
  rw [List.append_assoc, List.singleton_append, List.nodup_middle]
  exact List.nodup_cons.mpr ⟨fun hmem => hnew _ hmem rfl, h⟩

theorem admitRule_single (cfg : Config) : AdmitRule cfg fun s => Known s ∧ Single s where
  tables _ _ _ _ _ h := ⟨{ h.1 with }, h.2⟩
  fail s r d h := ⟨h.1.cut (cut_fail cfg s r d), h.2.thinned (thinned_fail cfg s r d)⟩
  enqueue _ r handed h := ⟨known_enqueue h.1 r handed, single_enqueue h.2 h.1 r handed⟩

/-- With nobody refused the running requests are put behind the queue. -/
theorem single_requeueRunningRequests (h : Single s) (refused : List Nat) :
    Single (requeueRunningRequests s refused) := by
  unfold Single requeueRunningRequests
  dsimp only
  rw [Function.update_self, List.append_nil]
  exact List.Nodup.sublist ((List.Sublist.refl _).append (List.filter_sublist.trans List.filter_sublist)) h

theorem thinned_retractRunningRequests (cfg : Config) (s : State) (refused : List Nat) :
    Thinned (requeueRunningRequests s refused) (retractRunningRequests cfg s refused) :=
  thinned_foldl (fun s r => thinned_fail cfg s r false) _ _

theorem single_step {e : Event} (h : Single s) (hknown : Known s) (hu : UpstreamOnce s e) : Single (step cfg s e) := by
  refine step_rule h fun s' hf => ?_
  cases hf with
  | recv msgs _ _ =>
    have hf := recvFrame_recvRequests cfg s msgs
    exact h.same hf.waiting hf.batches
  | drainBuild answers _ => exact ((admitRule_single cfg).drainBuild ⟨hknown, h⟩ answers).2
  | drainAdmission r answers _ => exact ((admitRule_single cfg).drainAdmission ⟨hknown, h⟩ r answers).2
  | stage recvReqs _ =>
    rw [stage_backlog]
    exact h
  | reject payload _ _ _ => exact (h.thinned (thinned_fail cfg s payload.requestId true)).same rfl rfl
  | process result answers payload _ _ =>
    exact ((admitRule_single cfg).processInputRequest ⟨hknown, h⟩ payload result answers).2
  | upstreamAbort r => exact h.thinned (thinned_fail cfg s r false)
  | plan u _ => exact single_getNextBatchToRun hu.1 (hu.2 u rfl)
  | launch ok b _ _ _ => exact single_runBatchLaunch h hknown _ ok
  | resolve step prev _ => exact (h.thinned (thinned_resolveAndProcess cfg s prev step)).same rfl rfl
  | run step flushed _ _ =>
    have hrun := thinned_runBatch cfg (if flushed then dropStaleOverrun s else s) step
    have hdropped : Thinned s (if flushed then dropStaleOverrun s else s) := by
      split
      · exact thinned_dropStaleOverrun s
      · exact .refl s
    exact (h.thinned (hdropped.trans hrun)).same rfl rfl
  | flush step _ _ => exact h.thinned (thinned_resolvePendingAsync cfg s step)
  | flushPlanned step _ _ => exact (h.thinned (thinned_resolvePendingAsync cfg s step)).same rfl rfl
  | streamOutput _ => exact h.thinned (samePlaces_streamOutput s).thinned
  | terminalOutput yields ok =>
    unfold terminalOutput
    split
    · exact h
    · next q _ =>
      have hclosed := (samePlaces_closeCompletedRequest
        { s with claimed := none, outbox := s.outbox ++ streamMessages (s.batches.req q).rid yields } q).thinned
      dsimp only
      split
      · exact h.thinned ⟨hclosed.waiting, hclosed.runningBatch, hclosed.reqs⟩
      · unfold emitRequestError
        split
        · exact h.thinned ⟨hclosed.waiting, hclosed.runningBatch, hclosed.reqs⟩
        · exact h.thinned ⟨hclosed.waiting, hclosed.runningBatch, hclosed.reqs⟩
  | abortAll => exact h.thinned (thinned_foldl (fun s r => thinned_abort s r false) _ s)
  | retract refused _ =>
    exact (single_requeueRunningRequests h refused).thinned (thinned_retractRunningRequests cfg s refused)
  | stageAbort r => exact (h.thinned (thinned_abort s r true)).same rfl rfl
  | _ => exact h

theorem single_create : Single State.create := List.nodup_nil

/-- What every run keeps whose plans are sound and queue nobody twice. -/
structure Orderly (s : State) : Prop where
  sane : Sane s
  placed : Placed s
  single : Single s

theorem orderly_runs (cfg : Config) {es : List Event} (hup : Along (step cfg) UpstreamOnce State.create es) :
    Orderly (runs cfg es) := by
  have preserved : ∀ s e, Orderly s → UpstreamOnce s e → Orderly (step cfg s e) := by
    intro s e h hu
    exact ⟨sane_step h.sane hu.1, placed_step h.sane h.placed hu.1, single_step h.single h.sane.known hu⟩
  exact along_invariant ⟨sane_create, placed_create, single_create⟩ preserved es hup

/-! ### What is taken back -/

/-- A request that was admitted and not aborted, or that the scheduler has in any case. -/
def Live (s : State) (q : Nat) : Prop :=
  q ∈ s.batches.listed ++ s.waiting ∨ s.chunkedReq = some q ∨ (q < s.reqCount ∧ (s.batches.req q).rid ∉ s.abortLog)

/-- Every unfinished admitted request of `s` waits once in `t`, and is in no batch and not the chunked one. -/
def Requeued (s t : State) : Prop :=
  ∀ q, Live s q → (s.batches.req q).finished = false →
    t.waiting.count q = 1 ∧ q ∉ t.batches.listed ∧ t.chunkedReq ≠ some q

/-- No unfinished request is in a batch other than the running one; and the one whose prefill is cut in chunks runs, or
waits while another one runs. -/
def OnlyRunning (s : State) : Prop :=
  ∀ q, (s.batches.req q).finished = false →
    (∀ i x, s.batches.slot i = some x → q ∈ s.batches.reqs x → x = s.batches.runningBatch) ∧
    (s.chunkedReq = some q →
      q ∈ s.batches.reqs s.batches.runningBatch ∨ (q ∈ s.waiting ∧ ∃ p ∈ s.batches.reqs s.batches.runningBatch,
        (s.batches.req p).finished = false))

theorem mem_retracted {q : Nat} :
    q ∈ retracted s ↔ q ∈ s.batches.reqs s.batches.runningBatch ∧ (s.batches.req q).finished = false := by
  simp only [retracted, List.mem_filter, Bool.not_eq_true']

/-- With nobody refused the running requests are put behind the queue. -/
theorem waiting_retract (cfg : Config) (s : State) :
    (retractRunningRequests cfg s []).waiting = s.waiting ++ retracted s := by
  have hnone : (retracted s).filter (· ∈ ([] : List Nat)) = [] := by simp
  have hall : (retracted s).filter (· ∉ ([] : List Nat)) = retracted s := by simp
  rw [retractRunningRequests, hnone]
  show s.waiting ++ (retracted s).filter (· ∉ ([] : List Nat)) = _
  rw [hall]

theorem batches_retract (cfg : Config) (s : State) :
    (retractRunningRequests cfg s []).batches = (requeueRunningRequests s []).batches ∧
      (retractRunningRequests cfg s []).chunkedReq = (requeueRunningRequests s []).chunkedReq := by
  have hnone : (retracted s).filter (· ∈ ([] : List Nat)) = [] := by simp
  rw [retractRunningRequests, hnone]
  exact ⟨rfl, rfl⟩

/-- The batches that are looked at afterwards are the others. -/
theorem mem_listed_retract {q : Nat} : q ∈ (retractRunningRequests cfg s []).batches.listed ↔
    ∃ i x, s.batches.slot i = some x ∧ x ≠ s.batches.runningBatch ∧ q ∈ s.batches.reqs x := by
  rw [(batches_retract cfg s).1, Batches.mem_listed]
  constructor
  · rintro ⟨i, x, hi, hq⟩
    have hslot : s.batches.slot i = some x := by
      cases i <;> exact hi
    have hne : x ≠ s.batches.runningBatch := by
      intro heq
      subst heq
      simp only [requeueRunningRequests, Function.update_self] at hq
      cases hq
    simp only [requeueRunningRequests, Function.update_of_ne hne] at hq
    exact ⟨i, x, hslot, hne, hq⟩
  · rintro ⟨i, x, hi, hne, hq⟩
    refine ⟨i, x, ?_, ?_⟩
    · cases i <;> exact hi
    · simp only [requeueRunningRequests, Function.update_of_ne hne]
      exact hq

theorem chunkedReq_retract {q : Nat} : (retractRunningRequests cfg s []).chunkedReq = some q ↔
    s.chunkedReq = some q ∧ ∀ p ∈ s.batches.reqs s.batches.runningBatch, (s.batches.req p).finished = true := by
  have hnobody : retracted s = [] ↔ ∀ p ∈ s.batches.reqs s.batches.runningBatch, (s.batches.req p).finished = true := by
    simp only [retracted, List.filter_eq_nil_iff, Bool.not_eq_true', Bool.not_eq_false]
  rw [(batches_retract cfg s).2, ← hnobody]
  simp only [requeueRunningRequests]
  split
  · next hnil => exact ⟨fun h => ⟨h, hnil⟩, fun h => h.1⟩
  · next hne => exact ⟨(fun h => by cases h), fun h => absurd h.2 hne⟩

/-- **Retract.** In every reachable state, once the step in flight has been resolved, every unfinished admitted request
ends in the queue, once and nowhere else, exactly when all of them that do not wait are in the running batch and nowhere
else. -/
theorem retract_requeues_iff (cfg : Config) (es : List Event) (hup : Along (step cfg) UpstreamOnce State.create es)
    (hadmin : atAdmin (runs cfg es) = true) :
    Requeued (runs cfg es) (step cfg (runs cfg es) (.retract [])) ↔ OnlyRunning (runs cfg es) := by
  have h := orderly_runs cfg hup
  generalize runs cfg es = s at hadmin h ⊢
  have hstep : step cfg s (.retract []) = retractRunningRequests cfg s [] := if_pos hadmin
  rw [hstep]
  constructor
  · intro hrequeued q hunfinished
    constructor
    · intro i x hi hq
      by_contra hne
      have hadmitted : Live s q := .inl (List.mem_append_left _ (Batches.mem_listed.mpr ⟨i, x, hi, hq⟩))
      exact (hrequeued q hadmitted hunfinished).2.1 (mem_listed_retract.mpr ⟨i, x, hi, hne, hq⟩)
    · intro hchunked
      obtain ⟨hcount, -, hgone⟩ := hrequeued q (.inr (.inl hchunked)) hunfinished
      have hmem : q ∈ s.waiting ++ retracted s := by
        rw [← waiting_retract cfg s, ← List.count_pos_iff, hcount]
        exact Nat.one_pos
      obtain hq | hq := List.mem_append.mp hmem
      · refine .inr ⟨hq, ?_⟩
        by_contra hnobody
        refine hgone (chunkedReq_retract.mpr ⟨hchunked, fun p hp => ?_⟩)
        by_contra hp'
        exact hnobody ⟨p, hp, by simpa using hp'⟩
      · exact .inl (mem_retracted.mp hq).1
  · intro honly q hadmitted hunfinished
    obtain ⟨hbatch, hchunked⟩ := honly q hunfinished
    have hlisted : q ∈ s.batches.listed ++ s.waiting → q ∈ s.waiting ++ retracted s := by
      intro hq
      obtain hq | hq := List.mem_append.mp hq
      · obtain ⟨i, x, hi, hq⟩ := Batches.mem_listed.mp hq
        rw [hbatch i x hi hq] at hq
        exact List.mem_append_right _ (mem_retracted.mpr ⟨hq, hunfinished⟩)
      · exact List.mem_append_left _ hq
    have hmem : q ∈ s.waiting ++ retracted s := by
      obtain hq | hq | ⟨hlt, hlive⟩ := hadmitted
      · exact hlisted hq
      · obtain hq | ⟨hq, -⟩ := hchunked hq
        · exact List.mem_append_right _ (mem_retracted.mpr ⟨hq, hunfinished⟩)
        · exact List.mem_append_left _ hq
      · exact hlisted (mem_places_of_found (h.placed.placed q hlt hunfinished hlive))
    refine ⟨?_, ?_, ?_⟩
    · rw [waiting_retract]
      have hnodup : (s.waiting ++ retracted s).Nodup :=
        List.Nodup.sublist ((List.Sublist.refl _).append List.filter_sublist) h.single
      exact List.count_eq_one_of_mem hnodup hmem
    · intro hq
      obtain ⟨i, x, hi, hne, hq⟩ := mem_listed_retract.mp hq
      exact hne (hbatch i x hi hq)
    · intro hq
      obtain ⟨hq, hnobody⟩ := chunkedReq_retract.mp hq
      obtain hrun | ⟨-, p, hp, hlive⟩ := hchunked hq
      · rw [hnobody q hrun] at hunfinished
        cases hunfinished
      · rw [hnobody p hp] at hlive
        cases hlive

/-! ### A prefill that is not merged yet -/

/-- The first request alone, in a batch of its own. -/
def prefillPlan : Plan where
  waiting := []
  reqs b := if b = 1 then [0] else []
  runningBatch := 0
  batch := some 1
  isRetracted _ := false
  chunkedReq := none

/-- It is merged into the running batch, which runs. -/
def decodePlan : Plan where
  waiting := []
  reqs b := if b = 0 then [0] else []
  runningBatch := 0
  batch := some 0
  isRetracted _ := false
  chunkedReq := none

/-- A request is admitted and prefilled. -/
def prefilled : List Event :=
  [.recv [⟨"a", .newRequest⟩], .takeDeferred [], .stage, .process (.built ⟨1, 1, false⟩) ⟨none, true, false⟩, .admitted,
    .plan prefillPlan, .run ⟨.stepped, fun _ => 0, []⟩, .streamOutput, .finish]

/-- An iteration that takes nothing in and decodes. -/
def decoded : List Event :=
  [.recv [], .takeDeferred [], .stage, .admitted, .plan decodePlan, .run ⟨.stepped, fun _ => 0, []⟩,
    .streamOutput, .finish]

/-- A pause, with the step in flight resolved. -/
def pausing : List Event := [.pause true, .flush ⟨.nothing, fun _ => 0, []⟩]

theorem upstreamOnce_plan {u : Plan} (hsound : u.Sound s) (honce : u.Once) :
    UpstreamOnce s (.plan u) := by
  refine ⟨hsound, fun v hv => ?_⟩
  cases hv
  exact honce

theorem prefilled_upstream : Along (step inline) UpstreamOnce State.create (prefilled ++ pausing) := by
  have hplan : UpstreamOnce (runs inline (prefilled.take 5)) (.plan prefillPlan) :=
    upstreamOnce_plan ⟨by decide, nofun, nofun, by decide, by decide, nofun⟩ (by decide)
  exact ⟨⟨trivial, nofun⟩, ⟨trivial, nofun⟩, ⟨trivial, nofun⟩, ⟨trivial, nofun⟩, ⟨trivial, nofun⟩, hplan,
    ⟨trivial, nofun⟩,
    ⟨trivial, nofun⟩, ⟨trivial, nofun⟩, ⟨trivial, nofun⟩, ⟨trivial, nofun⟩, trivial⟩

/-- After the prefill the request is still in the last batch and not in the queue when the engine is paused, and the
next iteration decodes it. -/
theorem retract_misses_prefill :
    let s := runs inline (prefilled ++ pausing)
    Along (step inline) UpstreamOnce State.create (prefilled ++ pausing) ∧ atAdmin s = true ∧
      s.batches.asyncPending = none ∧ ¬ Requeued s (step inline s (.retract [])) ∧
      curReqs (runs inline (prefilled ++ pausing ++ .retract [] :: .pause false :: decoded)) = [0] := by
  refine ⟨prefilled_upstream, by decide, by decide, ?_, by decide⟩
  intro hrequeued
  have hcount := (hrequeued 0 (.inl (by decide)) (by decide)).1
  exact absurd hcount (by decide)

theorem decoded_upstream : Along (step inline) UpstreamOnce State.create (prefilled ++ decoded ++ pausing) := by
  have hplan : UpstreamOnce (runs inline (prefilled.take 5)) (.plan prefillPlan) :=
    upstreamOnce_plan ⟨by decide, nofun, nofun, by decide, by decide, nofun⟩ (by decide)
  have hmerge : UpstreamOnce (runs inline (prefilled ++ decoded.take 4)) (.plan decodePlan) := by
    refine upstreamOnce_plan ⟨by decide, ?_, nofun, by decide, by decide, nofun⟩ (by decide)
    intro b hb
    cases hb
    decide
  exact ⟨⟨trivial, nofun⟩, ⟨trivial, nofun⟩, ⟨trivial, nofun⟩, ⟨trivial, nofun⟩, ⟨trivial, nofun⟩, hplan,
    ⟨trivial, nofun⟩,
    ⟨trivial, nofun⟩, ⟨trivial, nofun⟩, ⟨trivial, nofun⟩, ⟨trivial, nofun⟩, ⟨trivial, nofun⟩, ⟨trivial, nofun⟩, hmerge,
    ⟨trivial, nofun⟩, ⟨trivial, nofun⟩, ⟨trivial, nofun⟩, ⟨trivial, nofun⟩, ⟨trivial, nofun⟩, trivial⟩

/-- Once it decodes in the running batch it is taken back. -/
theorem retract_requeues_decoded :
    let s := runs inline (prefilled ++ decoded ++ pausing)
    Along (step inline) UpstreamOnce State.create (prefilled ++ decoded ++ pausing) ∧ atAdmin s = true ∧
      Requeued s (step inline s (.retract [])) := by
  refine ⟨decoded_upstream, by decide, (retract_requeues_iff inline _ decoded_upstream (by decide)).mpr ?_⟩
  intro q _
  constructor
  · intro i x hi _
    cases i with
    | running => exact (Option.some.inj hi).symm
    | cur | last => exact (Option.some.inj ((by decide : some 0 = _).trans hi)).symm
    | pending => cases hi
  · nofun

/-! ### Nobody is lost -/

end SglangOmni.Scheduling.Scheduler
