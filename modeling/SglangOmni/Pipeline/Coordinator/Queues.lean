import SglangOmni.Pipeline.Coordinator.Tables

/-! What is in a stream's queue, in every run.

A terminal failure takes the request off the table in the step that queues it, and so
does the success that completes the terminal set. So while a request is tracked its
queue has no failure and its reports are the partial results; a queue with a report
of every terminal has no failure; and no stage outside the set ever gets into it. -/
namespace SglangOmni.Pipeline.Coordinator
open Lib

variable {ρ : Type} {g : Config} {s s' : State ρ} {item : QueueItem ρ} {q : List (QueueItem ρ)}
  {stages : Finset String} {info : RequestInfo ρ} {r : String} {msg : CompleteMessage ρ}

/-! ### Reports -/

/-- The stage that an item reports the success of. -/
def QueueItem.reports : QueueItem ρ → Option String
  | .complete msg => if msg.success then some msg.fromStage else none
  | .stream _ => none

def QueueItem.fails : QueueItem ρ → Bool
  | .complete msg => !msg.success
  | .stream _ => false

def reported (q : List (QueueItem ρ)) : Finset String := (q.filterMap QueueItem.reports).toFinset

def NoFailure (q : List (QueueItem ρ)) : Prop := ∀ item ∈ q, item.fails = false

/-- Every terminal has put a success in the queue. With no terminals configured, the
first success from anywhere stands for all of them. -/
def Covered (stages : Finset String) (q : List (QueueItem ρ)) : Prop :=
  (reported q).Nonempty ∧ stages ⊆ reported q

@[simp] theorem reported_nil : reported ([] : List (QueueItem ρ)) = ∅ := rfl

theorem reported_append (q : List (QueueItem ρ)) (item : QueueItem ρ) :
    reported (q ++ [item]) = (item.reports.elim (reported q) fun stage => insert stage (reported q)) := by
  cases h : item.reports with
  | none => simp [reported, h]
  | some stage =>
    ext x
    simp [reported, h]

theorem reported_append_of_fails (q : List (QueueItem ρ)) (h : item.reports = none) :
    reported (q ++ [item]) = reported q := by
  rw [reported_append, h]
  rfl

theorem noFailure_append (h : NoFailure q) (hi : item.fails = false) : NoFailure (q ++ [item]) := by
  intro x hx
  rcases List.mem_append.mp hx with hx | hx
  · exact h x hx
  · rw [List.mem_singleton.mp hx]
    exact hi

theorem Covered.of_reported {q' : List (QueueItem ρ)}
    (he : reported q' = reported q) : Covered stages q' ↔ Covered stages q := by
  rw [Covered, Covered, he]

/-! ### The invariant -/

/-- The stages with a partial result. -/
def partialStages (s : State ρ) (r : String) : Finset String :=
  ((s.partialResults.get? r).getD ∅).keys.toFinset

structure Queues (s : State ρ) : Prop where
  partials : ∀ r d, s.partialResults.get? r = some d → d.keys.toFinset.Nonempty ∧
    ∃ info stages, s.requests.get? r = some info ∧ info.terminalStages = some stages ∧
      d.keys.toFinset ⊂ stages
  tracked : ∀ r info, s.requests.get? r = some info → s.streamQueues.get? r = some info.incarnation →
    NoFailure (s.queues info.incarnation) ∧ reported (s.queues info.incarnation) = partialStages s r
  handling : ∀ msg n, s.loop = .failing msg n → msg.success = false
  handler : ∀ msg n, s.loop = .failing msg n → ∀ q call, s.streamQueues.get? msg.requestId = some q →
    s.calls q = some call → ¬Covered call.resolved (s.queues q)
  covered : ∀ c call, s.calls c = some call → Covered call.resolved (s.queues c) → NoFailure (s.queues c)
  accepted : ∀ c call, s.calls c = some call → ∀ stage ∈ reported (s.queues c),
    call.resolved = ∅ ∨ stage ∈ call.resolved

/-- While a request is tracked some terminal is missing from its queue. -/
theorem Queues.not_covered (h : Queues s)
    (hr : s.requests.get? r = some info) (hq : s.streamQueues.get? r = some info.incarnation)
    (hs : info.terminalStages = some stages) : ¬Covered stages (s.queues info.incarnation) := by
  rintro ⟨hne, hsub⟩
  rw [(h.tracked r info hr hq).2, partialStages] at hne hsub
  cases hp : s.partialResults.get? r with
  | none =>
    rw [hp] at hne
    simp at hne
  | some d =>
    rw [hp] at hsub
    obtain ⟨_, info', stages', hr', hs', hlt⟩ := h.partials r d hp
    rw [hr] at hr'
    cases hr'
    rw [hs] at hs'
    cases hs'
    exact hlt.2 hsub

/-- The queue and the terminal set of a tracked stream. -/
theorem Tables.stream_queue (h : Tables g s) {q : Nat} {call : Call}
    (hr : s.requests.get? r = some info) (hq : s.streamQueues.get? r = some q)
    (hc : s.calls q = some call) : q = info.incarnation ∧ info.terminalStages = some call.resolved := by
  obtain ⟨n, hn⟩ := h.owned r
  have heq : q = info.incarnation := (hn.queue q hq).trans (hn.request info hr).symm
  obtain ⟨call', hc', _, hres⟩ := h.request r info hr
  rw [← heq, hc] at hc'
  cases hc'
  exact ⟨heq, hres⟩

/-- Queues of different ids are different. -/
theorem Tables.queue_inj (h : Tables g s) {x : String} {q : Nat} (hr : s.streamQueues.get? r = some q)
    (hx : s.streamQueues.get? x = some q) : x = r := by
  obtain ⟨call, hc, hid, _⟩ := h.queue r q hr
  obtain ⟨call', hc', hid', _⟩ := h.queue x q hx
  rw [hc] at hc'
  cases hc'
  exact hid'.symm.trans hid

/-! ### Owner steps -/

theorem Queues.ownerStep (h : Queues s) (ho : OwnerStep s s') (hs : Shrinks s s') : Queues s' where
  partials r d hd := by
    rw [ho.partialResults] at hd
    obtain ⟨hne, info, stages, hr, hst, hlt⟩ := h.partials r d hd
    refine ⟨hne, ?_⟩
    have hreq := ho.request r
    rw [hr] at hreq
    cases hr' : s'.requests.get? r with
    | none => simp [hr'] at hreq
    | some info' =>
      simp only [hr', Option.map_some, Option.some.injEq, Prod.mk.injEq] at hreq
      exact ⟨info', stages, rfl, hreq.2.trans hst, hlt⟩
  tracked r info' hr' hq' := by
    obtain ⟨info, hr, hinc, _⟩ := hs.request r info' hr'
    have h' := h.tracked r info hr (hinc ▸ hs.queue r _ hq')
    rw [ho.queues, partialStages, ho.partialResults, ← hinc]
    exact h'
  handling msg n hl := h.handling msg n (ho.loop ▸ hl)
  handler msg n hl q call hq hc := by
    rw [ho.loop] at hl
    rw [ho.queues]
    obtain ⟨call', hc', _, _, hres⟩ := hs.call_back hc
    rw [← hres]
    exact h.handler msg n hl q call' (hs.queue _ _ hq) hc'
  covered c call hc hcov := by
    rw [ho.queues] at hcov ⊢
    obtain ⟨call', hc', _, _, hres⟩ := hs.call_back hc
    exact h.covered c call' hc' (hres ▸ hcov)
  accepted c call hc stage hst := by
    rw [ho.queues] at hst
    obtain ⟨call', hc', _, _, hres⟩ := hs.call_back hc
    rw [← hres]
    exact h.accepted c call' hc' stage hst

/-! ### Requests that leave the table -/

theorem put_queues (c : Nat) :
    (put s r item).queues c =
      if s.streamQueues.get? r = some c then s.queues c ++ [item] else s.queues c := by
  simp only [put]
  cases h : s.streamQueues.get? r with
  | none => simp
  | some q =>
    simp only [Function.update_apply, Option.some.injEq]
    by_cases hc : c = q
    · simp [hc]
    · rw [if_neg hc, if_neg (fun he => hc he.symm)]

/-- Request `r` leaves the table, and `item` is put in its queue. -/
structure Leaves (s s' : State ρ) (r : String) (item : QueueItem ρ) : Prop where
  requests : s'.requests = s.requests.pop r
  partialResults : ∀ x, s'.partialResults.get? x = if x = r then none else s.partialResults.get? x
  streamQueues : s'.streamQueues = s.streamQueues
  queues : s'.queues = (put s r item).queues
  calls : s'.calls = s.calls

theorem Queues.leaves (h : Queues s) (ht : Tables g s) (hl : Leaves s s' r item)
    (hloop : ∀ msg n, s'.loop = .failing msg n → s.loop = .failing msg n ∧
      (msg.requestId = r → item.reports = none))
    (hitem : ∀ q call, s.streamQueues.get? r = some q → s.calls q = some call →
      (Covered call.resolved (s.queues q ++ [item]) → NoFailure (s.queues q ++ [item])) ∧
        ∀ stage, item.reports = some stage → call.resolved = ∅ ∨ stage ∈ call.resolved) :
    Queues s' where
  partials x d hd := by
    rw [hl.partialResults] at hd
    split at hd
    · cases hd
    · next hx =>
      obtain ⟨hne, info, stages, hr, hst, hlt⟩ := h.partials x d hd
      exact ⟨hne, info, stages, by rw [hl.requests, Dict.get?_pop_ne _ hx]; exact hr, hst, hlt⟩
  tracked x info hr hq := by
    rw [hl.requests, Dict.get?_pop] at hr
    split at hr
    · cases hr
    · next hx =>
      rw [hl.streamQueues] at hq
      have hne : s.streamQueues.get? r ≠ some info.incarnation := fun he => hx (ht.queue_inj he hq)
      rw [hl.queues, put_queues, if_neg hne, partialStages, hl.partialResults, if_neg hx]
      exact h.tracked x info hr hq
  handling msg n hfail := h.handling msg n (hloop msg n hfail).1
  handler msg n hfail q call hq hc := by
    obtain ⟨hbefore, hsame⟩ := hloop msg n hfail
    rw [hl.streamQueues] at hq
    rw [hl.calls] at hc
    have hnot := h.handler msg n hbefore q call hq hc
    rw [hl.queues, put_queues]
    split
    · next he =>
      rw [Covered.of_reported (reported_append_of_fails _ (hsame (ht.queue_inj he hq)))]
      exact hnot
    · exact hnot
  covered c call hc := by
    rw [hl.calls] at hc
    rw [hl.queues, put_queues]
    split
    · next he => exact (hitem c call he hc).1
    · exact h.covered c call hc
  accepted c call hc stage hst := by
    rw [hl.calls] at hc
    rw [hl.queues, put_queues] at hst
    split at hst
    · next he =>
      rw [reported_append] at hst
      cases hi : item.reports with
      | none => exact h.accepted c call hc stage (by simpa [hi] using hst)
      | some x =>
        rw [hi, Option.elim_some, Finset.mem_insert] at hst
        rcases hst with rfl | hst
        · exact (hitem c call he hc).2 stage hi
        · exact h.accepted c call hc stage hst
    · exact h.accepted c call hc stage hst

/-- A failure in the queue of a request that misses a terminal. -/
theorem failure_item (hi : item.reports = none) (hq : ¬Covered stages q) :
    (Covered stages (q ++ [item]) → NoFailure (q ++ [item])) ∧
      ∀ stage, item.reports = some stage → stages = ∅ ∨ stage ∈ stages := by
  refine ⟨fun hcov => ?_, fun stage hst => ?_⟩
  · rw [Covered.of_reported (reported_append_of_fails q hi)] at hcov
    exact absurd hcov hq
  · rw [hi] at hst
    cases hst

section
variable (h : Queues s) (ht : Tables g s)
include h ht

theorem Queues.runAbort (r : String) : Queues (runAbort s r) := by
  unfold Coordinator.runAbort
  split
  · exact h
  · next info hinfo =>
    refine h.leaves ht (show Leaves s _ r (.complete
        { requestId := r, fromStage := "coordinator", success := false, error := some "aborted" }) from
      ⟨rfl, fun x => Dict.get?_pop .., rfl, rfl, rfl⟩) (fun msg n hf => ⟨hf, fun _ => rfl⟩)
      fun q call hq hc => ?_
    obtain ⟨rfl, hres⟩ := ht.stream_queue hinfo hq hc
    exact failure_item rfl (h.not_covered hinfo hq hres)

theorem Queues.failRequest {n : Nat} (hfail : s.loop = .failing msg n) :
    Queues { failRequest s msg with loop := .idle } := by
  have hl : Leaves s { Coordinator.failRequest s msg with loop := .idle } msg.requestId (.complete msg) :=
    ⟨rfl, fun x => Dict.get?_pop .., rfl, rfl, rfl⟩
  refine h.leaves ht hl (fun _ _ hf => nomatch hf) fun q call hq hc => ?_
  exact failure_item (by simp [QueueItem.reports, h.handling msg n hfail]) (h.handler msg n hfail q call hq hc)

/-- The last success that a request waits for, put in its queue. -/
theorem success_item (hinfo : s.requests.get? r = some info) (hs : msg.success = true)
    (hin : ∀ stages, info.terminalStages = some stages → stages = ∅ ∨ msg.fromStage ∈ stages)
    {q : Nat} {call : Call} (hq : s.streamQueues.get? r = some q) (hc : s.calls q = some call) :
    (Covered call.resolved (s.queues q ++ [.complete msg]) →
        NoFailure (s.queues q ++ [.complete msg])) ∧
      ∀ stage, QueueItem.reports (.complete msg) = some stage →
        call.resolved = ∅ ∨ stage ∈ call.resolved := by
  obtain ⟨rfl, hres⟩ := ht.stream_queue hinfo hq hc
  refine ⟨fun _ => noFailure_append (h.tracked r info hinfo hq).1 (by simp [QueueItem.fails, hs]), ?_⟩
  intro stage hst
  simp only [QueueItem.reports, hs, if_true, Option.some.injEq] at hst
  exact hst ▸ hin _ hres

theorem Queues.completeSingle (hidle : s.loop = .idle)
    (hinfo : s.requests.get? msg.requestId = some info) (hst : info.terminalStages = some stages)
    (hs : msg.success = true) (hin : stages = ∅ ∨ msg.fromStage ∈ stages) (hcard : stages.card ≤ 1) :
    Queues (completeSingle s msg) := by
  -- one terminal leaves no room for a partial result
  have hnone : s.partialResults.get? msg.requestId = none := by
    cases hp : s.partialResults.get? msg.requestId with
    | none => rfl
    | some d =>
      obtain ⟨hne, info', stages', hr', hst', hlt⟩ := h.partials _ d hp
      rw [hinfo] at hr'
      cases hr'
      rw [hst] at hst'
      cases hst'
      have := Finset.card_lt_card hlt
      have := Finset.card_pos.mpr hne
      omega
  have hl : Leaves s (Coordinator.completeSingle s msg) msg.requestId (.complete msg) := by
    refine ⟨rfl, fun x => ?_, rfl, rfl, rfl⟩
    split
    · next hx => rw [hx]; exact hnone
    · rfl
  refine h.leaves ht hl (fun m n hf => ?_) fun q call hq hc =>
    success_item h ht hinfo hs (fun _ he => ?_) hq hc
  · have hf : s.loop = .failing m n := hf
    rw [hidle] at hf
    cases hf
  · rw [hst] at he
    cases he
    exact hin

/-- A success that some other terminal is still missing beside. -/
theorem Queues.reportMulti {d : Dict String (Option ρ)}
    (hidle : s.loop = .idle) (hinfo : s.requests.get? msg.requestId = some info)
    (hst : info.terminalStages = some stages) (hs : msg.success = true)
    (hin : stages = ∅ ∨ msg.fromStage ∈ stages)
    (hd : d = ((s.partialResults.get? msg.requestId).getD ∅).set msg.fromStage msg.result)
    (hlt : d.keys.toFinset ⊂ stages) :
    Queues (put { s with partialResults := s.partialResults.set msg.requestId d }
      msg.requestId (.complete msg)) := by
  have hkeys : d.keys.toFinset = insert msg.fromStage (partialStages s msg.requestId) := by
    ext x
    simp [hd, partialStages, Dict.mem_keys_set]
  have hqueues : ∀ c, (put { s with partialResults := s.partialResults.set msg.requestId d }
      msg.requestId (.complete msg)).queues c = (put s msg.requestId (.complete msg)).queues c :=
    fun _ => rfl
  have hreports : QueueItem.reports (.complete msg) = some msg.fromStage := by
    simp [QueueItem.reports, hs]
  refine ⟨?_, ?_, ?_, ?_, ?_, ?_⟩
  case refine_1 =>
    intro x d' hx
    simp only [put, Dict.get?_set] at hx
    split at hx
    · next he =>
      cases hx
      exact ⟨⟨msg.fromStage, by simp [hkeys]⟩, info, stages, he ▸ hinfo, hst, hlt⟩
    · exact h.partials x d' hx
  case refine_2 =>
    intro x info' hr hq
    have hr : s.requests.get? x = some info' := hr
    have hq : s.streamQueues.get? x = some info'.incarnation := hq
    obtain ⟨hno, hrep⟩ := h.tracked x info' hr hq
    rw [hqueues, put_queues]
    split
    · next he =>
      have hx := ht.queue_inj he hq
      refine ⟨noFailure_append hno (by simp [QueueItem.fails, hs]), ?_⟩
      rw [reported_append, hreports, Option.elim_some, hrep, hx, ← hkeys]
      simp [partialStages, put]
    · next hne =>
      have hx : x ≠ msg.requestId := by
        rintro rfl
        exact hne hq
      refine ⟨hno, hrep.trans ?_⟩
      simp only [partialStages, put, Dict.get?_set_ne _ _ hx]
  case refine_3 =>
    intro m n hf
    have hf : s.loop = .failing m n := hf
    rw [hidle] at hf
    cases hf
  case refine_4 =>
    intro m n hf
    have hf : s.loop = .failing m n := hf
    rw [hidle] at hf
    cases hf
  case refine_5 =>
    intro c call hc
    rw [hqueues, put_queues]
    split
    · next he =>
      refine (success_item h ht hinfo hs (fun _ he => ?_) he hc).1
      rw [hst] at he
      cases he
      exact hin
    · exact h.covered c call hc
  case refine_6 =>
    intro c call hc stage hstage
    rw [hqueues, put_queues] at hstage
    split at hstage
    · next he =>
      rw [reported_append, hreports, Option.elim_some, Finset.mem_insert] at hstage
      rcases hstage with rfl | hstage
      · obtain ⟨_, hres⟩ := ht.stream_queue hinfo he hc
        rw [hst] at hres
        cases hres
        exact hin
      · exact h.accepted c call hc stage hstage
    · exact h.accepted c call hc stage hstage

theorem Queues.completeMulti (hidle : s.loop = .idle)
    (hinfo : s.requests.get? msg.requestId = some info) (hst : info.terminalStages = some stages)
    (hs : msg.success = true) (hin : stages = ∅ ∨ msg.fromStage ∈ stages) :
    Queues (completeMulti s stages msg) := by
  simp only [Coordinator.completeMulti]
  split
  · next hlt => exact h.reportMulti ht hidle hinfo hst hs hin rfl hlt
  · refine h.leaves ht (show Leaves s _ msg.requestId (.complete msg) from
      ⟨rfl, fun x => ?_, rfl, rfl, rfl⟩) (fun m n hf => ?_) fun q call hq hc =>
      success_item h ht hinfo hs (fun _ he => ?_) hq hc
    · simp only [settleFuture, put, Dict.get?_pop, Dict.get?_set]
      split <;> rfl
    · have hf : s.loop = .failing m n := hf
      rw [hidle] at hf
      cases hf
    · rw [hst] at he
      cases he
      exact hin

/-- A handler that is about to suspend: the request is still tracked. -/
theorem Queues.startFailure (msg : CompleteMessage ρ) (new : RequestInfo ρ)
    (hinfo : s.requests.get? msg.requestId = some info)
    (hinc : new.incarnation = info.incarnation) (hterm : new.terminalStages = info.terminalStages)
    (hs : msg.success = false) :
    Queues { s with
      requests := s.requests.set msg.requestId new
      loop := .failing msg info.incarnation } where
  partials x d hd := by
    obtain ⟨hne, info', stages, hr, hst, hlt⟩ := h.partials x d hd
    refine ⟨hne, ?_⟩
    by_cases hx : x = msg.requestId
    · subst hx
      rw [hinfo] at hr
      cases hr
      exact ⟨new, stages, Dict.get?_set_self .., hterm.trans hst, hlt⟩
    · exact ⟨info', stages, by simp only [Dict.get?_set_ne _ _ hx]; exact hr, hst, hlt⟩
  tracked x info' hr hq := by
    simp only [Dict.get?_set] at hr
    split at hr
    · next hx =>
      cases hr
      subst hx
      rw [hinc] at hq ⊢
      exact h.tracked _ info hinfo hq
    · exact h.tracked x info' hr hq
  handling m n hf := by
    cases hf
    exact hs
  handler m n hf q call hq hc := by
    cases hf
    obtain ⟨rfl, hres⟩ := ht.stream_queue hinfo hq hc
    exact h.not_covered hinfo hq hres
  covered := h.covered
  accepted := h.accepted

theorem Queues.handleCompletion (hidle : s.loop = .idle)
    (msg : CompleteMessage ρ) : Queues (handleCompletion g s msg) := by
  simp only [Coordinator.handleCompletion]
  split
  · exact h
  · next info hinfo =>
    obtain ⟨call, _, _, hst⟩ := ht.request _ info hinfo
    have hexpected : expectedTerminalStages g s msg.requestId = call.resolved := by
      simp [expectedTerminalStages, hinfo, hst]
    rw [hexpected]
    split_ifs with hs hout hcard
    · exact h.startFailure ht { msg with fromStage := g.topology.logicalName msg.fromStage }
        { info with state := .failed, error := msg.error } hinfo rfl rfl hs
    · exact h
    · have hin : call.resolved = ∅ ∨ g.topology.logicalName msg.fromStage ∈ call.resolved := by
        simpa only [ne_eq, not_and_or, not_not] using hout
      exact h.completeSingle ht hidle hinfo hst (Bool.not_eq_false _ ▸ hs) hin hcard
    · have hin : call.resolved = ∅ ∨ g.topology.logicalName msg.fromStage ∈ call.resolved := by
        simpa only [ne_eq, not_and_or, not_not] using hout
      exact h.completeMulti ht hidle hinfo hst (Bool.not_eq_false _ ▸ hs) hin

end

/-! ### Chunks, shutdown and admission -/

/-- Something that neither reports nor fails goes to a queue. -/
theorem Queues.put (h : Queues s) (r : String) (hr : item.reports = none)
    (hf : item.fails = false) : Queues (put s r item) := by
  have hrep : ∀ c, reported ((Coordinator.put s r item).queues c) = reported (s.queues c) := by
    intro c
    rw [put_queues]
    split
    · exact reported_append_of_fails _ hr
    · rfl
  have hno : ∀ c, NoFailure (s.queues c) → NoFailure ((Coordinator.put s r item).queues c) := by
    intro c hc
    rw [put_queues]
    split
    · exact noFailure_append hc hf
    · exact hc
  refine ⟨h.partials, fun x info hx hq => ?_, h.handling, fun msg n hl q call hq hc => ?_,
    fun c call hc hcov => ?_, fun c call hc stage hst => ?_⟩
  · obtain ⟨h₁, h₂⟩ := h.tracked x info hx hq
    exact ⟨hno _ h₁, (hrep _).trans h₂⟩
  · rw [Covered.of_reported (hrep q)]
    exact h.handler msg n hl q call hq hc
  · exact hno c (h.covered c call hc ((Covered.of_reported (hrep c)).mp hcov))
  · rw [hrep] at hst
    exact h.accepted c call hc stage hst

/-- Failing requests one after another adds no report, and touches only their queues. -/
theorem failOne_queues (message : String) (ids : List String) (s : State ρ) (c : Nat) :
    reported ((ids.foldl (failOne message) s).queues c) = reported (s.queues c) ∧
      ((∀ r ∈ ids, s.streamQueues.get? r ≠ some c) →
        (ids.foldl (failOne message) s).queues c = s.queues c) := by
  induction ids generalizing s with
  | nil => exact ⟨rfl, fun _ => rfl⟩
  | cons r rest ih =>
    obtain ⟨hrep, hsame⟩ := ih (failOne message s r)
    have hone : (failOne message s r).queues c =
        if s.streamQueues.get? r = some c then s.queues c ++ [.complete
          { requestId := r, fromStage := "coordinator", success := false, error := some message }]
        else s.queues c := put_queues c
    refine ⟨hrep.trans ?_, fun hr => ?_⟩
    · rw [hone]
      split
      · exact reported_append_of_fails _ rfl
      · rfl
    · refine (hsame fun x hx => hr x (List.mem_cons_of_mem _ hx)).trans ?_
      rw [hone, if_neg (hr r List.mem_cons_self)]

theorem Queues.failPending (h : Queues s) (ht : Tables g s) (message : String) :
    Queues (failPendingRequests s message) := by
  have hheld := held_failPending s message
  have hrep := fun c => (failOne_queues message s.requests.keys s c).1
  have hloop := loop_failPending s message
  refine ⟨(fun _ _ hd => nomatch hd), (fun _ _ hr => nomatch hr), fun msg n hl => ?_,
    fun msg n hl q call hq hc => ?_, fun c call hc hcov => ?_, fun c call hc stage hst => ?_⟩
  · exact h.handling msg n (hloop ▸ hl)
  · rw [hheld.streamQueues] at hq
    rw [hheld.calls] at hc
    exact fun hcov => h.handler msg n (hloop ▸ hl) q call hq hc ((Covered.of_reported (hrep q)).mp hcov)
  · rw [hheld.calls] at hc
    have hcov := (Covered.of_reported (hrep c)).mp hcov
    -- a queue that got a failure is that of a tracked request, which misses a terminal
    have huntouched : ∀ r ∈ s.requests.keys, s.streamQueues.get? r ≠ some c := by
      intro r hr hq
      obtain ⟨info, hinfo⟩ := (Dict.mem_keys _ _).mp hr
      obtain ⟨rfl, hres⟩ := ht.stream_queue hinfo hq hc
      exact h.not_covered hinfo hq hres hcov
    have hsame := (failOne_queues message s.requests.keys s c).2 huntouched
    have hno := h.covered c call hc hcov
    rw [← hsame] at hno
    exact hno
  · rw [hheld.calls] at hc
    exact h.accepted c call hc stage (hrep c ▸ hst)

theorem Queues.admitted (h : Queues s) (ht : Tables g s) {kind : Kind} (ha : Admitted g s s' kind r stages) :
    Queues s' := by
  obtain ⟨hrequest, _, hqueue, _⟩ := reserved_eq_false ha.free
  have hnone : s.partialResults.get? r = none := by
    cases hp : s.partialResults.get? r with
    | none => rfl
    | some d =>
      obtain ⟨_, info, _, hr, _⟩ := h.partials r d hp
      rw [hrequest] at hr
      cases hr
  have hnew : s'.queues s.nextCall = [] := by rw [ha.queues, Function.update_self]
  have hold : ∀ c call, s.calls c = some call → s'.queues c = s.queues c := by
    intro c call hc
    have hne : c ≠ s.nextCall := by
      rintro rfl
      rw [ht.fresh _ le_rfl] at hc
      cases hc
    rw [ha.queues, Function.update_of_ne hne]
  refine ⟨?_, ?_, ?_, ?_, ?_, ?_⟩
  case refine_1 =>
    intro x d hd
    rw [ha.partialResults] at hd
    obtain ⟨hne, info, st, hr, hst, hlt⟩ := h.partials x d hd
    have hx : x ≠ r := by
      rintro rfl
      rw [hnone] at hd
      cases hd
    exact ⟨hne, info, st, by rw [ha.requests, Dict.get?_set_ne _ _ hx]; exact hr, hst, hlt⟩
  case refine_2 =>
    intro x info hr hq
    rw [ha.requests, Dict.get?_set] at hr
    split at hr
    · next hx =>
      cases hr
      simp only [hnew, partialStages, ha.partialResults, hx, hnone]
      exact ⟨(fun _ hi => nomatch hi), rfl⟩
    · next hx =>
      have hq' : s.streamQueues.get? x = some info.incarnation := by
        rw [ha.streamQueues] at hq
        split at hq
        · rwa [Dict.get?_set_ne _ _ hx] at hq
        · exact hq
      obtain ⟨call, hc, _⟩ := ht.request x info hr
      rw [hold _ call hc, partialStages, ha.partialResults]
      exact h.tracked x info hr hq'
  case refine_3 => exact fun msg n hl => h.handling msg n (ha.loop ▸ hl)
  case refine_4 =>
    intro msg n hl q call hq hc
    obtain ⟨rfl, rfl⟩ | ⟨hne, hc⟩ := ha.call_cases hc
    · rw [hnew]
      exact fun hcov => Finset.not_nonempty_empty hcov.1
    · have hq' : s.streamQueues.get? msg.requestId = some q := by
        rw [ha.streamQueues] at hq
        split at hq
        · rw [Dict.get?_set] at hq
          split at hq
          · exact absurd (Option.some.inj hq).symm hne
          · exact hq
        · exact hq
      rw [hold q call hc]
      exact h.handler msg n (ha.loop ▸ hl) q call hq' hc
  case refine_5 =>
    intro c call hc hcov
    obtain ⟨rfl, rfl⟩ | ⟨_, hc⟩ := ha.call_cases hc
    · rw [hnew]
      exact fun _ hi => nomatch hi
    · rw [hold c call hc] at hcov ⊢
      exact h.covered c call hc hcov
  case refine_6 =>
    intro c call hc stage hst
    obtain ⟨rfl, rfl⟩ | ⟨_, hc⟩ := ha.call_cases hc
    · rw [hnew] at hst
      exact absurd hst (Finset.notMem_empty _)
    · rw [hold c call hc] at hst
      exact h.accepted c call hc stage hst

/-! ### Every run -/

theorem queues_create (ρ : Type) : Queues (State.create ρ) where
  partials _ _ h := nomatch h
  tracked _ _ h := nomatch h
  handling _ _ h := nomatch h
  handler _ _ h := nomatch h
  covered _ _ h := nomatch h
  accepted _ _ h := nomatch h

theorem queues_step (h : Queues s) (ht : Tables g s) (e : Event ρ) : Queues (step g s e) := by
  cases howner : e.byOwner with
  | true =>
    refine h.ownerStep (step_byOwner g s howner) (step_shrinks g s e fun kind r answer bind he => ?_)
    rw [he] at howner
    cases howner
  | false =>
    refine step_rule h fun s' hf => ?_
    cases hf with
    | call _ _ _ _ _ _ ha => exact h.admitted ht ha
    | completed msg hidle => exact h.handleCompletion ht hidle msg
    | failureResumed msg n hloop => exact h.failRequest ht hloop
    | failureFailed =>
      exact ⟨h.partials, h.tracked, (fun _ _ hl => by cases hl), (fun _ _ hl => by cases hl), h.covered, h.accepted⟩
    | abortResumed t task _ _ =>
      have hq : Queues (finishTask s t task) :=
        ⟨h.partials, h.tracked, h.handling, h.handler, h.covered, h.accepted⟩
      exact hq.runAbort (ht.finishTask t task) task.requestId
    | streamed msg _ => exact h.put msg.requestId rfl rfl
    | failPending message => exact h.failPending ht message
    | _ => cases howner

end SglangOmni.Pipeline.Coordinator
