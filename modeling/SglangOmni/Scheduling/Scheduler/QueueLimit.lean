import SglangOmni.Scheduling.Scheduler.Conservation

/-! Who is rejected when the queue is full.

A call of `process_input_requests` looks at the number of queued requests when it stages,
for every payload it was handed, and again for every payload it selected. A payload of the backlog is one of
the requests that are counted, a payload that was handed in or taken out of the deferred ones is
not; every rejection keeps the number with the rejected payload counted in (`Rejection.queued`). -/
namespace SglangOmni.Scheduling.Scheduler
open Lib

/-! ### A call -/

/-- What others have done when a call looks: the builds that are finished, the answers for the
requests that are admitted, and what the builder returns where it is called at once. -/
structure Others where
  future : String → Option BuildResult
  answers : String → Answers
  result : String → BuildResult

/-- The builds with other futures. -/
def withFutures (f : String → Option BuildResult → Option BuildResult) (s : State) : State :=
  { s with
    builds :=
      { entries := s.builds.entries.map fun e => (e.1, { e.2 with future := f e.1 e.2.future })
        nodup := by
          rw [List.map_map]
          exact s.builds.nodup } }

/-- A build that is finished stays finished. -/
def finishBuilds (others : Others) (s : State) : State := withFutures (fun r future => future.or (others.future r)) s

/-- Nothing of what is being built is finished yet. -/
def State.building (s : State) : State := withFutures (fun _ _ => none) s

/-- `_drain_request_admission_results`. -/
def drainRequestAdmissionResults (cfg : Config) (others : Others) (s : State) : State :=
  s.admissions.keys.foldl (fun s r => drainRequestAdmissionResult cfg s r (others.answers r)) s

/-- Some turns of `_drain_request_build_results`. -/
def drainRequestBuildTurns (cfg : Config) (others : Others) : Nat → State → State
  | 0, s => s
  | turns + 1, s =>
    match s.builds.entries with
    | [] => s
    | (r, _) :: _ => drainRequestBuildTurns cfg others turns (drainRequestBuildResult cfg s (others.answers r))

/-- `_drain_request_build_results`; every turn takes a build or is the last. -/
def drainRequestBuildResults (cfg : Config) (others : Others) (s : State) : State :=
  drainRequestBuildTurns cfg others s.builds.length (finishBuilds others s)

structure Rejection where
  payload : Payload
  queued : Nat
  inBacklog : Bool
  deriving DecidableEq

/-- The number of queued requests while payloads are staged. -/
def Staging.queued (s : State) (acc : Staging) : Nat :=
  queuedAdmissionCount { s with backlog := acc.backlog } + acc.selected.length

def stagingRejections (cfg : Config) (maxPending : Nat) (s : State) : Staging → List Payload → List Rejection
  | _, [] => []
  | acc, payload :: rest =>
    let next := stageOne cfg maxPending s acc payload
    (if next.rejected = acc.rejected then [] else [⟨payload, acc.queued s + 1, false⟩]) ++
      stagingRejections cfg maxPending s next rest

/-- The rejections of `_stage_request_build_payloads`. -/
def stageRejections (cfg : Config) (s : State) (recvReqs : List Payload) : List Rejection :=
  match cfg.requestBuildMaxPending with
  | none => []
  | some maxPending =>
    if waitingQueueIsFull cfg s then
      (s.backlog.filter fun p => p.requestId ∉ s.aborted).map (⟨·, queuedAdmissionCount s, true⟩) ++
        (recvReqs.filter fun p => p.requestId ∉ s.aborted ∧ ¬ s.builds.contains p.requestId).map
          (⟨·, queuedAdmissionCount s + 1, false⟩)
    else stagingRejections cfg maxPending s (stagingStart maxPending s) recvReqs

/-- The loop over the selected payloads. -/
def admitSelected (cfg : Config) (others : Others) : State → List Payload → State × List Rejection
  | s, [] => (s, [])
  | s, payload :: rest =>
    let next := processInputRequest cfg s payload (others.result payload.requestId) (others.answers payload.requestId)
    let done := admitSelected cfg others next rest
    (done.1,
      (if !inProgress s payload.requestId && waitingQueueIsFull cfg s then
        [⟨payload, queuedAdmissionCount s + 1, false⟩] else []) ++ done.2)

/-- `process_input_requests`, and its rejections; `later` is what others have done at its end. -/
def processInputRequests (cfg : Config) (others later : Others) (s : State) (recvReqs : List Payload) :
    State × List Rejection :=
  let s := drainRequestBuildResults cfg others (drainRequestAdmissionResults cfg others s)
  let staged := stageRequestBuildPayloads cfg s recvReqs
  let loop := admitSelected cfg others (staged.2.2.foldl (rejectQueueFull cfg) staged.1) staged.2.1
  (drainRequestAdmissionResults cfg later (drainRequestBuildResults cfg later loop.1),
    stageRejections cfg s recvReqs ++ loop.2)

variable {cfg : Config} {s : State} {others later : Others}

/-! ### Draining -/

/-- The count does not grow, and while it stays nothing is aborted and the backlog is untouched. -/
structure Drained (s s' : State) : Prop where
  count_le : queuedAdmissionCount s' ≤ queuedAdmissionCount s
  same : queuedAdmissionCount s' = queuedAdmissionCount s → s'.aborted = s.aborted ∧ s'.backlog = s.backlog

theorem Drained.refl (s : State) : Drained s s := ⟨Nat.le_refl _, fun _ => ⟨rfl, rfl⟩⟩

theorem Drained.of_lt {s' : State} (h : queuedAdmissionCount s' < queuedAdmissionCount s) : Drained s s' :=
  ⟨Nat.le_of_lt h, fun heq => absurd heq (Nat.ne_of_lt h)⟩

theorem Drained.trans {t u : State} (h : Drained s t) (h' : Drained t u) : Drained s u where
  count_le := Nat.le_trans h'.count_le h.count_le
  same := by
    intro heq
    have := h.count_le
    have := h'.count_le
    obtain ⟨ha, hb⟩ := h.same (by omega)
    obtain ⟨ha', hb'⟩ := h'.same (by omega)
    exact ⟨ha'.trans ha, hb'.trans hb⟩

/-- A request that is admitted or held takes one place; any other end takes none. -/
theorem admitOrDefer_grown (cfg : Config) (s : State) (payload : Payload) (done : Bool) (result : BuildResult)
    (answers : Answers)
    (h : queuedAdmissionCount (admitOrDeferBuiltRequest cfg s payload done result answers) =
      queuedAdmissionCount s + 1) :
    (admitOrDeferBuiltRequest cfg s payload done result answers).aborted = s.aborted ∧
      (admitOrDeferBuiltRequest cfg s payload done result answers).backlog = s.backlog := by
  have hfail := count_fail cfg s payload.requestId true
  have hbuilt : ∀ value, queuedAdmissionCount (enqueueBuiltRequest cfg s payload done value answers) =
      queuedAdmissionCount s + 1 →
      (enqueueBuiltRequest cfg s payload done value answers).aborted = s.aborted ∧
        (enqueueBuiltRequest cfg s payload done value answers).backlog = s.backlog := by
    intro value heq
    have hpop := count_pop_deferred s payload.requestId
    unfold enqueueBuiltRequest at heq ⊢
    dsimp only at heq ⊢
    split at heq
    · have := count_fail cfg { s with deferred := s.deferred.pop payload.requestId } payload.requestId true
      omega
    · next hfits =>
      rw [if_neg hfits]
      split at heq
      · simp only [queuedAdmissionCount] at hpop heq
        omega
      · next hlive =>
        rw [if_neg hlive]
        split at heq
        · have hle := count_fail cfg
            { s with deferred := s.deferred.pop payload.requestId, ingress := s.ingress.pop payload.requestId }
            payload.requestId false
          simp only [upstreamAbort, queuedAdmissionCount] at heq hle hpop
          omega
        · next hanswers =>
          rw [if_neg hanswers]
          exact ⟨rfl, rfl⟩
  unfold admitOrDeferBuiltRequest at h ⊢
  cases result with
  | failed =>
    dsimp only at h
    omega
  | built value => exact hbuilt value h
  | deferred value =>
    dsimp only at h ⊢
    split at h
    · omega
    · next hlive =>
      rw [if_neg hlive]
      cases hready : answers.ready with
      | none => exact ⟨rfl, rfl⟩
      | some ready =>
        rw [hready] at h
        cases ready with
        | false =>
          dsimp only at h
          omega
        | true => exact hbuilt value h

theorem drained_admitOrDefer {t : State} (hlt : queuedAdmissionCount t < queuedAdmissionCount s)
    (haborted : t.aborted = s.aborted) (hbacklog : t.backlog = s.backlog) (payload : Payload) (done : Bool)
    (result : BuildResult) (answers : Answers) :
    Drained s (admitOrDeferBuiltRequest cfg t payload done result answers) where
  count_le := Nat.le_trans (count_admitOrDefer cfg t payload done result answers) hlt
  same := by
    intro heq
    have hle := count_admitOrDefer cfg t payload done result answers
    obtain ⟨ha, hb⟩ := admitOrDefer_grown cfg t payload done result answers (by omega)
    exact ⟨ha.trans haborted, hb.trans hbacklog⟩

theorem drained_build (s : State) (answers : Answers) : Drained s (drainRequestBuildResult cfg s answers) := by
  unfold drainRequestBuildResult
  split
  · exact .refl s
  · next r build rest hentries =>
    split
    · exact .refl s
    · have hpop := count_pop_build (s := s) (r := r) (by simp [Dict.keys, hentries])
      dsimp only
      split
      · exact .of_lt hpop
      · exact drained_admitOrDefer hpop rfl rfl _ _ _ _

theorem drained_admission (s : State) (r : String) (answers : Answers) :
    Drained s (drainRequestAdmissionResult cfg s r answers) := by
  unfold drainRequestAdmissionResult
  split
  · exact .refl s
  · next pending hpending =>
    split
    · exact .refl s
    · have hpop := count_pop_admission ((Dict.mem_keys _ _).mpr ⟨_, hpending⟩)
      dsimp only
      split
      · exact .of_lt hpop
      · exact drained_admitOrDefer hpop rfl rfl _ _ _ _

theorem drained_admissions (s : State) : Drained s (drainRequestAdmissionResults cfg others s) := by
  unfold drainRequestAdmissionResults
  generalize s.admissions.keys = rs
  induction rs generalizing s with
  | nil => exact .refl s
  | cons r rest ih => exact (drained_admission s r _).trans (ih _)

theorem drained_buildTurns (turns : Nat) (s : State) : Drained s (drainRequestBuildTurns cfg others turns s) := by
  induction turns generalizing s with
  | zero => exact .refl s
  | succ turns ih =>
    rw [drainRequestBuildTurns]
    split
    · exact .refl s
    · exact (drained_build s _).trans (ih _)

theorem count_withFutures (f : String → Option BuildResult → Option BuildResult) (s : State) :
    queuedAdmissionCount (withFutures f s) = queuedAdmissionCount s := by
  simp [queuedAdmissionCount, withFutures, Dict.length]

theorem drained_builds (s : State) : Drained s (drainRequestBuildResults cfg others s) := by
  have hfinish : Drained s (finishBuilds others s) := ⟨Nat.le_of_eq (count_withFutures _ s), fun _ => ⟨rfl, rfl⟩⟩
  exact hfinish.trans (drained_buildTurns _ _)

/-- Both drains at the start of a call. -/
theorem drained_start (cfg : Config) (others : Others) (s : State) :
    Drained s (drainRequestBuildResults cfg others (drainRequestAdmissionResults cfg others s)) :=
  (drained_admissions s).trans (drained_builds _)

/-! ### Who is over the limit -/

variable {limit : Nat}

theorem full_iff (hlimit : cfg.maxQueuedRequests = some limit) (s : State) :
    waitingQueueIsFull cfg s = true ↔ limit ≤ queuedAdmissionCount s := by
  simp [waitingQueueIsFull, hlimit]

/-- Staging keeps track of the number of queued requests. -/
def Staging.Counts (s : State) (acc : Staging) : Prop := acc.used = acc.queued s

theorem counts_start (maxPending : Nat) : (stagingStart maxPending s).Counts s := rfl

theorem Staging.Counts.stageOne (hlimit : cfg.maxQueuedRequests = some limit) {acc : Staging} (h : acc.Counts s)
    (maxPending : Nat) (payload : Payload) : (stageOne cfg maxPending s acc payload).Counts s := by
  have hused : acc.used = (s.waiting.length + s.builds.length + s.admissions.length + s.deferred.length) +
      acc.selected.length + acc.backlog.length := by
    simp only [Counts, queued, queuedAdmissionCount] at h
    omega
  have := (used_stageOne (s := s) hlimit maxPending _ acc payload hused).1
  simp only [Counts, queued, queuedAdmissionCount]
  omega

section
variable (hlimit : cfg.maxQueuedRequests = some limit)
include hlimit

/-- A payload that staging rejects is over the limit, itself counted in. -/
theorem stageOne_over {acc : Staging} (h : acc.Counts s) (maxPending : Nat)
    (payload : Payload) (hrejected : (stageOne cfg maxPending s acc payload).rejected ≠ acc.rejected) :
    limit < acc.queued s + 1 := by
  unfold stageOne at hrejected
  dsimp only at hrejected
  split at hrejected
  · exact absurd rfl hrejected
  · split at hrejected
    · next hroom =>
      have : limit ≤ acc.used := by simpa [hlimit] using hroom
      rw [h] at this
      omega
    · next hroom =>
      split at hrejected
      · exact absurd rfl hrejected
      · split at hrejected
        · next hbacklog =>
          have hpos : 0 < limit := by
            have : acc.used < limit := by simpa [hlimit] using hroom
            omega
          have : max maxPending limit ≤ acc.backlog.length := by
            simpa [backlogLimit, hlimit, if_pos hpos] using hbacklog
          simp only [Staging.queued, queuedAdmissionCount]
          omega
        · exact absurd rfl hrejected

theorem stagingRejections_over (maxPending : Nat) {acc : Staging}
    (h : acc.Counts s) (recvReqs : List Payload) :
    ∀ rej ∈ stagingRejections cfg maxPending s acc recvReqs, limit < rej.queued := by
  induction recvReqs generalizing acc with
  | nil => exact fun _ h => (nomatch h)
  | cons payload rest ih =>
    intro rej hrej
    obtain hrej | hrej := List.mem_append.mp hrej
    · split at hrej
      · cases hrej
      · next hrejected =>
        rw [List.mem_singleton.mp hrej]
        exact stageOne_over hlimit h maxPending payload hrejected
    · exact ih (h.stageOne hlimit maxPending payload) rej hrej

theorem stageRejections_over (s : State) (recvReqs : List Payload) :
    ∀ rej ∈ stageRejections cfg s recvReqs, rej.inBacklog = false → limit < rej.queued := by
  intro rej hrej hplace
  unfold stageRejections at hrej
  split at hrej
  · cases hrej
  · split at hrej
    · next hfull =>
      have hcount := (full_iff hlimit s).mp hfull
      obtain hrej | hrej := List.mem_append.mp hrej
      · obtain ⟨_, -, rfl⟩ := List.mem_map.mp hrej
        cases hplace
      · obtain ⟨_, -, rfl⟩ := List.mem_map.mp hrej
        exact Nat.lt_succ_of_le hcount
    · exact stagingRejections_over hlimit _ (counts_start _) recvReqs rej hrej

theorem admitSelected_over (s : State) (selected : List Payload) :
    ∀ rej ∈ (admitSelected cfg others s selected).2, limit < rej.queued := by
  induction selected generalizing s with
  | nil => exact fun _ h => (nomatch h)
  | cons payload rest ih =>
    intro rej hrej
    obtain hrej | hrej := List.mem_append.mp hrej
    · split at hrej
      · next hfull =>
        rw [List.mem_singleton.mp hrej]
        exact Nat.lt_succ_of_le ((full_iff hlimit s).mp (Bool.and_eq_true_iff.mp hfull).2)
      · cases hrej
    · exact ih _ rej hrej

end

/-! ### A call that is handed nothing -/

theorem count_process_le (cfg : Config) (s : State) (payload : Payload) (result : BuildResult) (answers : Answers) :
    queuedAdmissionCount (processInputRequest cfg s payload result answers) ≤ queuedAdmissionCount s + 1 := by
  have hprefetch := count_prefetch s payload
  unfold processInputRequest
  dsimp only
  split
  · exact Nat.le_succ _
  · split
    · exact Nat.le_succ_of_le (count_fail cfg _ _ _)
    · split
      · have := Dict.length_set_le (prefetch s payload).1.deferred payload.requestId (prefetch s payload).2
        simp only [queuedAdmissionCount] at hprefetch ⊢
        omega
      · split
        · have := Dict.length_set_le (prefetch s payload).1.builds payload.requestId
            ⟨(prefetch s payload).2, (prefetch s payload).2.prefetchedStreamDone, none⟩
          simp only [queuedAdmissionCount] at hprefetch ⊢
          omega
        · have := count_admitOrDefer cfg (prefetch s payload).1 (prefetch s payload).2
            (prefetch s payload).2.prefetchedStreamDone result answers
          omega

/-- Where there is a place for every selected payload, none is rejected. -/
theorem admitSelected_room (others : Others) (hlimit : cfg.maxQueuedRequests = some limit) (s : State)
    (selected : List Payload)
    (h : queuedAdmissionCount s + selected.length ≤ limit) : (admitSelected cfg others s selected).2 = [] := by
  induction selected generalizing s with
  | nil => rfl
  | cons payload rest ih =>
    rw [List.length_cons] at h
    have hroom : waitingQueueIsFull cfg s = false := by
      cases hfull : waitingQueueIsFull cfg s with
      | false => rfl
      | true =>
        have := (full_iff hlimit s).mp hfull
        omega
    have hnext := count_process_le cfg s payload (others.result payload.requestId)
      (others.answers payload.requestId)
    simp only [admitSelected, hroom, Bool.and_false, Bool.false_eq_true, if_false, List.nil_append]
    exact ih _ (by omega)

/-- No build executor, no live payload in the backlog, or a place left. -/
def Spared (cfg : Config) (limit : Nat) (s : State) : Prop :=
  cfg.requestBuildMaxPending = none ∨ (∀ p ∈ s.backlog, p.requestId ∈ s.aborted) ∨ queuedAdmissionCount s < limit

theorem Spared.no_rejection (hlimit : cfg.maxQueuedRequests = some limit) (h : Spared cfg limit s)
    (hcount : queuedAdmissionCount s ≤ limit) : (processInputRequests cfg others later s []).2 = [] := by
  have hdrained := drained_start cfg others s
  simp only [processInputRequests]
  generalize drainRequestBuildResults cfg others (drainRequestAdmissionResults cfg others s) = d at hdrained
  cases hexecutor : cfg.requestBuildMaxPending with
  | none => simp [stageRejections, stageRequestBuildPayloads, hexecutor, admitSelected]
  | some maxPending =>
    cases hfull : waitingQueueIsFull cfg d with
    | true =>
      have hle := (full_iff hlimit d).mp hfull
      have := hdrained.count_le
      obtain ⟨haborted, hbacklog⟩ := hdrained.same (by omega)
      obtain hnone | hdead | hlt := h
      · rw [hnone] at hexecutor
        cases hexecutor
      · simpa [stageRejections, stageRequestBuildPayloads, hexecutor, hfull, admitSelected, hbacklog,
          haborted] using hdead
      · omega
    | false =>
      have hlt : queuedAdmissionCount d < limit := by
        by_contra hge
        rw [(full_iff hlimit d).mpr (Nat.le_of_not_lt hge)] at hfull
        cases hfull
      have htake := length_takeBacklog d (maxPending - d.builds.length) d.backlog
      have hroom := admitSelected_room others hlimit
        { d with backlog := (stagingStart maxPending d).backlog } (stagingStart maxPending d).selected (by
          simp only [stagingStart, queuedAdmissionCount] at hlt ⊢
          omega)
      simp only [stageRejections, stageRequestBuildPayloads, hexecutor, hfull, Bool.false_eq_true, if_false, staged,
        List.foldl_nil, stagingRejections, List.nil_append]
      exact hroom

/-- Nobody has finished anything. -/
def nobody : Others := ⟨fun _ => none, fun _ => ⟨none, true, false⟩, fun _ => .failed⟩

theorem drained_nobody (s : State) :
    drainRequestBuildResults cfg nobody (drainRequestAdmissionResults cfg nobody s.building) = s.building := by
  have hadmission : ∀ s r, drainRequestAdmissionResult cfg s r (nobody.answers r) = s := by
    intro s r
    unfold drainRequestAdmissionResult
    split
    · rfl
    · exact if_pos rfl
  have hadmissions : ∀ s, drainRequestAdmissionResults cfg nobody s = s := by
    intro s
    unfold drainRequestAdmissionResults
    generalize s.admissions.keys = rs
    induction rs with
    | nil => rfl
    | cons r rest ih => rw [List.foldl_cons, hadmission, ih]
  have hfinish : finishBuilds nobody s.building = s.building := by
    simp [finishBuilds, State.building, withFutures, nobody]
  rw [hadmissions, drainRequestBuildResults, hfinish]
  generalize s.building.builds.length = turns
  induction turns with
  | zero => rfl
  | succ turns ih =>
    rw [drainRequestBuildTurns]
    split
    · rfl
    · next r build rest hentries =>
      have hpending : build.future = none := by
        have hmem : (r, build) ∈ s.building.builds.entries := hentries ▸ List.mem_cons_self
        obtain ⟨e, _, he⟩ := List.mem_map.mp hmem
        rw [← (Prod.mk.inj he).2]
      have hfirst : drainRequestBuildResult cfg s.building (nobody.answers r) = s.building := by
        simp [drainRequestBuildResult, hentries, hpending]
      rw [hfirst, ih]

/-- At the limit a live payload of the backlog is rejected. -/
theorem spared_of_no_rejection (hlimit : cfg.maxQueuedRequests = some limit)
    (h : (processInputRequests cfg nobody later s.building []).2 = []) : Spared cfg limit s := by
  by_contra hspared
  simp only [Spared, not_or, not_forall, not_lt] at hspared
  obtain ⟨hexecutor, ⟨p, hp, hlive⟩, hcount⟩ := hspared
  obtain ⟨maxPending, hexecutor⟩ := Option.ne_none_iff_exists'.mp hexecutor
  simp only [processInputRequests, drained_nobody] at h
  have hfull : waitingQueueIsFull cfg s.building = true := by
    rw [full_iff hlimit, State.building, count_withFutures]
    exact hcount
  have hrejected := List.append_eq_nil_iff.mp h |>.1
  rw [stageRejections, hexecutor] at hrejected
  simp only [hfull, if_true] at hrejected
  have hnil := List.map_eq_nil_iff.mp (List.append_eq_nil_iff.mp hrejected).1
  have hmem : p ∈ s.building.backlog.filter fun p => p.requestId ∉ s.building.aborted :=
    List.mem_filter.mpr ⟨hp, decide_eq_true hlive⟩
  rw [hnil] at hmem
  cases hmem

end SglangOmni.Scheduling.Scheduler
