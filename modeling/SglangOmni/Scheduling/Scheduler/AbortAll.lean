import SglangOmni.Scheduling.Scheduler.StreamInput

/-! What aborting everything leaves behind.

`_abort_all_requests` aborts the ids that `_active_request_ids` collects: those with a build, an admission or a payload
in the backlog, the queued ones, and those of the requests in a batch that are not finished. An abort takes its id out
of every place, so what was collected is held nowhere afterwards. The deferred payloads are not collected. -/
namespace SglangOmni.Scheduling.Scheduler
open Lib

variable {cfg : Config} {s s' : State} {rs : List String} {r : String}

/-- The ids that the scheduler holds: pending builds and admissions, backlog, deferred payloads, waiting queue,
batches. -/
def heldIds (s : State) : List String :=
  s.builds.keys ++ s.admissions.keys ++ s.backlog.map (·.requestId) ++ s.deferred.keys ++
    s.waiting.map (fun q => (s.batches.req q).rid) ++ s.batches.listed.map fun q => (s.batches.req q).rid

/-- The ids of requests that are being admitted, queued, or in a batch and not finished. -/
def unfinishedIds (s : State) : List String :=
  s.builds.keys ++ s.admissions.keys ++ s.backlog.map (·.requestId) ++
    s.waiting.map (fun q => (s.batches.req q).rid) ++
    (s.batches.listed.filter fun q => !(s.batches.req q).finished).map fun q => (s.batches.req q).rid

/-! ### The backlog holds no aborted payload -/

def Fresh (s : State) : Prop := ∀ p ∈ s.backlog, p.requestId ∉ s.aborted

theorem Fresh.same (h : Fresh s) (hbacklog : s'.backlog = s.backlog) (haborted : s'.aborted = s.aborted) :
    Fresh s' := by
  unfold Fresh
  rw [hbacklog, haborted]
  exact h

theorem Fresh.tables (h : Fresh s) (ht : SameTables s s') : Fresh s' := h.same ht.backlog ht.aborted

theorem Fresh.cut (h : Fresh s) (hcut : Cut rs s s') : Fresh s' := by
  intro p hp haborted
  rw [hcut.backlog] at hp
  obtain ⟨hp, hnot⟩ := List.mem_filter.mp hp
  obtain haborted | hr := hcut.aborted _ haborted
  · exact h p hp haborted
  · simp only [hr, not_true_eq_false, decide_false, Bool.false_eq_true] at hnot

theorem admitRule_fresh (cfg : Config) : AdmitRule cfg Fresh where
  tables _ _ _ _ _ h := h
  fail s r d h := h.cut (cut_fail cfg s r d)
  enqueue _ _ _ h := h

/-- A payload that staging looks at is passed over when it is aborted. -/
theorem fresh_stageOne (cfg : Config) (maxPending : Nat) {acc : Staging}
    (h : ∀ p ∈ acc.backlog, p.requestId ∉ s.aborted)
    (payload : Payload) : ∀ p ∈ (stageOne cfg maxPending s acc payload).backlog, p.requestId ∉ s.aborted := by
  unfold stageOne
  dsimp only
  split
  · exact h
  · next hpassed =>
    have hfresh : payload.requestId ∉ s.aborted := by
      intro haborted
      simp [inProgress, haborted] at hpassed
    split
    · exact h
    · split
      · exact h
      · split
        · exact h
        · intro p hp
          obtain hp | hp := List.mem_append.mp hp
          · exact h p hp
          · rw [List.mem_singleton.mp hp]
            exact hfresh

theorem fresh_staged (cfg : Config) (maxPending : Nat) (recvReqs : List Payload) {acc : Staging}
    (h : ∀ p ∈ acc.backlog, p.requestId ∉ s.aborted) :
    ∀ p ∈ (recvReqs.foldl (stageOne cfg maxPending s) acc).backlog, p.requestId ∉ s.aborted := by
  induction recvReqs generalizing acc with
  | nil => exact h
  | cons payload rest ih => exact ih (fresh_stageOne cfg maxPending h payload)

theorem fresh_stage (h : Fresh s) (recvReqs : List Payload) : Fresh (stageRequestBuildPayloads cfg s recvReqs).1 := by
  unfold stageRequestBuildPayloads
  split
  · exact h
  · next maxPending _ =>
    split
    · exact fun _ hp => by cases hp
    · exact fresh_staged cfg maxPending recvReqs fun p hp => h p ((takeBacklog_suffix s _ _).subset hp)

theorem fresh_resolveAndProcess (h : Fresh s) (pending : Pending) (step : Step) :
    Fresh (resolveAndProcess cfg s pending step) := by
  by_cases hraised : step.outcome = .raised
  · unfold resolveAndProcess
    rw [hraised]
    exact h.cut (cut_handleBatchFailure cfg s _)
  · exact h.tables (sameTables_resolveAndProcess cfg s pending hraised)

theorem fresh_resolvePendingAsync (h : Fresh s) (step : Step) : Fresh (resolvePendingAsync cfg s step) := by
  unfold resolvePendingAsync
  split
  · exact h
  · exact fresh_resolveAndProcess (s := { s with batches := { s.batches with asyncPending := none } }) h _ step

theorem fresh_runBatch (h : Fresh s) (step : Step) : Fresh (runBatch cfg s step) := by
  by_cases hstepped : step.outcome = .stepped
  · exact h.tables (sameTables_runBatch cfg s hstepped)
  · unfold runBatch
    split
    · exact h
    · split
      · next hnot => exact absurd hnot hstepped
      · exact h.cut (cut_handleBatchFailure cfg s _)

theorem fresh_step {e : Event} (h : Fresh s) : Fresh (step cfg s e) := by
  refine step_rule h fun s' hf => ?_
  cases hf with
  | recv msgs _ _ =>
    have hf := recvFrame_recvRequests cfg s msgs
    exact h.same hf.backlog hf.aborted
  | drainBuild answers _ => exact (admitRule_fresh cfg).drainBuild h answers
  | drainAdmission r answers _ => exact (admitRule_fresh cfg).drainAdmission h r answers
  | stage recvReqs _ => exact fresh_stage h recvReqs
  | reject payload _ _ _ => exact (h.cut (cut_fail cfg s _ true)).same rfl rfl
  | process result answers payload _ _ => exact (admitRule_fresh cfg).processInputRequest h payload result answers
  | upstreamAbort r => exact h.cut (cut_fail cfg s r false)
  | launch ok b _ _ _ =>
    unfold runBatchLaunch
    split
    · exact (h.cut (cut_handleBatchFailure cfg s _)).same rfl rfl
    · exact h
  | resolve step prev _ => exact fresh_resolveAndProcess h prev step
  | run step flushed _ _ =>
    apply fresh_runBatch
    split
    · exact h.tables (sameTables_dropStaleOverrun s)
    · exact h
  | flush step _ _ => exact fresh_resolvePendingAsync h step
  | flushPlanned step _ _ => exact (fresh_resolvePendingAsync h step).same rfl rfl
  | streamOutput _ => exact h.tables (sameTables_streamOutput s)
  | terminalOutput yields ok => exact h.tables (sameTables_terminalOutput cfg s yields ok)
  | abortAll => exact h.cut (cut_abortAllRequests s)
  | retract refused _ =>
    exact (h.tables (sameTables_requeueRunningRequests s refused)).cut (cut_retractRunningRequests cfg s refused)
  | stageAbort r => exact (h.cut (cut_abort s r true)).same rfl rfl
  | _ => exact h

theorem fresh_create : Fresh State.create := by
  intro p hp
  cases hp

theorem fresh_runs (cfg : Config) (es : List Event) : Fresh (runs cfg es) :=
  run_invariant fresh_create (fun _ _ h => fresh_step h) es

/-! ### An abort takes its id out of every place -/

theorem Kept.keys_subset {V : Type} {d d' : Dict String V} (h : Kept rs d d') (hr : r ∈ d'.keys) : r ∈ d.keys := by
  obtain ⟨v, hv⟩ := (Dict.mem_keys d' r).mp hr
  obtain hsame | ⟨-, hnone⟩ := h r
  · exact (Dict.mem_keys d r).mpr ⟨v, hsame ▸ hv⟩
  · rw [hnone] at hv
    cases hv

theorem mem_heldIds : r ∈ heldIds s ↔ r ∈ s.builds.keys ∨ r ∈ s.admissions.keys ∨
    (∃ p ∈ s.backlog, p.requestId = r) ∨ r ∈ s.deferred.keys ∨ (∃ q ∈ s.waiting, (s.batches.req q).rid = r) ∨
      ∃ q ∈ s.batches.listed, (s.batches.req q).rid = r := by
  simp only [heldIds, List.mem_append, List.mem_map, or_assoc]

/-- Aborts and errors put no id anywhere. -/
theorem Cut.heldIds_subset (h : Cut rs s s') (hr : r ∈ heldIds s') : r ∈ heldIds s := by
  rw [mem_heldIds] at hr ⊢
  obtain hr | hr | ⟨p, hp, hr⟩ | hr | ⟨q, hq, hr⟩ | ⟨q, hq, hr⟩ := hr
  · exact .inl (h.builds.keys_subset hr)
  · exact .inr (.inl (h.admissions.keys_subset hr))
  · rw [h.backlog] at hp
    exact .inr (.inr (.inl ⟨p, (List.mem_filter.mp hp).1, hr⟩))
  · exact .inr (.inr (.inr (.inl (h.deferred.keys_subset hr))))
  · rw [h.rid] at hr
    exact .inr (.inr (.inr (.inr (.inl ⟨q, h.waiting q hq, hr⟩))))
  · rw [h.rid] at hr
    obtain ⟨i, x, hi, hx⟩ := Batches.mem_listed.mp hq
    rw [h.slot] at hi
    exact .inr (.inr (.inr (.inr (.inr ⟨q, Batches.mem_listed.mpr ⟨i, x, hi, h.reqs x q hx⟩, hr⟩))))

/-- The batch lists no request of the id. -/
def Cleared (r : String) (x : Nat) (b : Batches) : Prop := ∀ q ∈ b.reqs x, (b.req q).rid ≠ r

theorem cleared_removeFromBatch (b : Batches) (r : String) (x : Nat) : Cleared r x (b.removeFromBatch r (some x)) := by
  intro q hq
  rw [(Batches.trimmed_removeFromBatch b r (some x)).rid]
  simp only [Batches.removeFromBatch, Function.update_self] at hq
  exact (Batches.mem_remaining.mp hq).2

theorem Cleared.trim {x : Nat} {b b' : Batches} (h : Cleared r x b) (ht : Batches.Trimmed r b b') :
    Cleared r x b' := by
  intro q hq
  rw [ht.rid]
  exact h q (ht.mem_reqs hq)

/-- The four batches list the id no more. -/
theorem cleared_removeFromBatches (b : Batches) (r : String) {i : Slot} {x : Nat} (hi : b.slot i = some x) :
    Cleared r x (removeFromBatches b r) := by
  have h1 := Batches.trimmed_removeFromBatch b r (some b.runningBatch)
  generalize hb1 : b.removeFromBatch r (some b.runningBatch) = b1 at h1
  have h2 := Batches.trimmed_removeFromBatch b1 r b1.curBatch
  generalize hb2 : b1.removeFromBatch r b1.curBatch = b2 at h2
  have h3 := Batches.trimmed_removeFromBatch b2 r b2.lastBatch
  generalize hb3 : b2.removeFromBatch r b2.lastBatch = b3 at h3
  have h4 := Batches.trimmed_removeFromBatch b3 r (b3.asyncPending.map (·.batch))
  have heq : removeFromBatches b r = b3.removeFromBatch r (b3.asyncPending.map (·.batch)) := by
    unfold removeFromBatches
    dsimp only
    rw [hb1, hb2, hb3]
  rw [heq]
  cases i with
  | running =>
    cases hi
    exact (((hb1 ▸ cleared_removeFromBatch b r b.runningBatch).trim h2).trim h3).trim h4
  | cur =>
    have hcur : b1.curBatch = some x := h1.curBatch.trans hi
    rw [hcur] at hb2
    exact ((hb2 ▸ cleared_removeFromBatch b1 r x).trim h3).trim h4
  | last =>
    have hlast : b2.lastBatch = some x := h2.lastBatch.trans (h1.lastBatch.trans hi)
    rw [hlast] at hb3
    exact (hb3 ▸ cleared_removeFromBatch b2 r x).trim h4
  | pending =>
    have hpending : b3.asyncPending.map (·.batch) = some x := by
      rw [h3.asyncPending, h2.asyncPending, h1.asyncPending]
      exact hi
    rw [hpending]
    exact cleared_removeFromBatch b3 r x

theorem not_mem_keys_pop {V : Type} (d : Dict String V) (r : String) : r ∉ (d.pop r).keys := by
  rw [Dict.keys_pop]
  simp

/-- An abort that does not wait for the running batch takes its id out of every place. -/
theorem not_mem_heldIds_abort (s : State) (r : String) : r ∉ heldIds (abort s r false) := by
  have hcut := cut_abort s r false
  rw [mem_heldIds]
  intro hr
  obtain hr | hr | ⟨p, hp, hr⟩ | hr | ⟨q, hq, hr⟩ | ⟨q, hq, hr⟩ := hr
  · exact not_mem_keys_pop s.builds r hr
  · exact not_mem_keys_pop s.admissions r hr
  · rw [hcut.backlog] at hp
    simpa [hr] using (List.mem_filter.mp hp).2
  · exact not_mem_keys_pop s.deferred r hr
  · rw [hcut.rid] at hr
    simpa [hr] using (List.mem_filter.mp hq).2
  · obtain ⟨i, x, hi, hx⟩ := Batches.mem_listed.mp hq
    exact cleared_removeFromBatches (s.batches.detachAll r s.waiting) r (hcut.slot i ▸ hi) q hx hr

/-- Every id that is aborted is held nowhere in the end. -/
theorem not_mem_heldIds_aborts (hr : r ∈ rs) (s : State) :
    r ∉ heldIds (rs.foldl (fun s r => abort s r false) s) := by
  induction rs generalizing s with
  | nil => cases hr
  | cons r' rest ih =>
    obtain rfl | hr := List.mem_cons.mp hr
    · intro hheld
      exact not_mem_heldIds_abort s r ((cut_foldl (fun s r => cut_abort s r false) rest _).heldIds_subset hheld)
    · exact ih hr (abort s r' false)

/-- Where no payload of the backlog is aborted, exactly the unfinished ids are collected. -/
theorem mem_activeRequestIds (h : Fresh s) : r ∈ activeRequestIds s ↔ r ∈ unfinishedIds s := by
  have hbacklog : (s.backlog.map (·.requestId)).filter (· ∉ s.aborted) = s.backlog.map (·.requestId) := by
    rw [List.filter_eq_self]
    intro r hr
    obtain ⟨p, hp, rfl⟩ := List.mem_map.mp hr
    exact decide_eq_true (h p hp)
  rw [activeRequestIds, List.mem_dedup, List.mem_mergeSort, hbacklog]
  rfl

/-- **Abort-all.** In every reachable state no id of a request that is being admitted, queued, or in a batch and not
finished is held anywhere once everything is aborted. -/
theorem abortAll_releases (cfg : Config) (es : List Event) :
    ∀ r ∈ unfinishedIds (runs cfg es), r ∉ heldIds (abortAllRequests (runs cfg es)) := fun _ hr =>
  not_mem_heldIds_aborts ((mem_activeRequestIds (fresh_runs cfg es)).mpr hr) (runs cfg es)

/-! ### What is not collected -/

/-- With nothing unfinished there is nothing to abort. -/
theorem abortAllRequests_idle (h : Fresh s) (hidle : unfinishedIds s = []) : abortAllRequests s = s := by
  have hnobody : activeRequestIds s = [] := by
    rw [List.eq_nil_iff_forall_not_mem]
    intro r hr
    rw [mem_activeRequestIds h, hidle] at hr
    cases hr
  rw [abortAllRequests, hnobody]
  rfl

theorem runs_abortAll_idle (cfg : Config) (es later : List Event) (hidle : unfinishedIds (runs cfg es) = []) :
    runs cfg (es ++ .abortAll :: later) = runs cfg (es ++ later) := by
  have hstep : step cfg (runs cfg es) .abortAll = runs cfg es := by
    simp only [step]
    split
    · exact abortAllRequests_idle (fresh_runs cfg es) hidle
    · rfl
  unfold runs at hstep ⊢
  rw [run_append, run_append, run, hstep]

/-- A request is built once its first chunk is there. -/
def chunkFirst : Config where
  requestBuildMaxPending := none
  maxQueuedRequests := none
  maxReqLen := 100
  isEntryRank := true
  entry_of_executor h := nomatch h
  isRequestBuildReady payload _ := payload.prefetchedChunks ≠ []
  shouldRecheck _ _ := true

def built : BuildResult := .built ⟨1, 1, false⟩

def yes : Answers := ⟨none, true, false⟩

/-- The engine is paused, and a request comes in whose build is deferred. -/
def deferredRun : List Event :=
  [.pause true, .recv [⟨"a", .newRequest⟩], .takeDeferred [], .stage, .process built yes, .admitted]

/-- The engine goes on, and the first chunk comes in. -/
def resumedRun : List Event :=
  [.pausedAgain, .pause false, .recv [⟨"a", .streamChunk 0⟩], .takeDeferred ["a"], .stage,
    .process built yes, .admitted]

/-- A request finishes in its first step. -/
def finishedRun : List Event :=
  [.recv [⟨"a", .newRequest⟩, ⟨"a", .streamChunk 0⟩], .takeDeferred [], .stage, .process built yes, .admitted,
    .plan ⟨[], fun _ => [0], 0, some 0, fun _ => false, none⟩, .run ⟨.stepped, fun _ => 0, [0]⟩, .streamOutput,
    .terminalOutput 0 true, .finish]

/-- A deferred request is held before and after everything is aborted, and is built and queued when its chunk comes in;
a finished request stays in the batches that list it. -/
theorem abortAll_misses :
    (atAdmin (runs chunkFirst deferredRun) = true ∧ "a" ∈ heldIds (runs chunkFirst deferredRun) ∧
      "a" ∈ heldIds (abortAllRequests (runs chunkFirst deferredRun)) ∧
      heldIds (runs chunkFirst (deferredRun ++ .abortAll :: resumedRun)) = ["a"] ∧
      (runs chunkFirst (deferredRun ++ .abortAll :: resumedRun)).waiting = [0]) ∧
    (atAdmin (runs chunkFirst finishedRun) = true ∧ "a" ∈ heldIds (runs chunkFirst finishedRun) ∧
      "a" ∈ heldIds (abortAllRequests (runs chunkFirst finishedRun))) := by
  rw [runs_abortAll_idle _ _ _ (by decide), abortAllRequests_idle (fresh_runs _ _) (by decide),
    abortAllRequests_idle (fresh_runs _ _) (by decide)]
  decide

theorem abortAll_releases_queued :
    "a" ∈ unfinishedIds (runs chunkFirst (finishedRun.take 5)) ∧
      "a" ∉ heldIds (abortAllRequests (runs chunkFirst (finishedRun.take 5))) :=
  ⟨by decide, abortAll_releases chunkFirst (finishedRun.take 5) "a" (by decide)⟩

end SglangOmni.Scheduling.Scheduler
