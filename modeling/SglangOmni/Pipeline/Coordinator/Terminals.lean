import SglangOmni.Pipeline.Coordinator.Isolation
import SglangOmni.Pipeline.Coordinator.Progress
import SglangOmni.Pipeline.Coordinator.Streams

/-! A request and its terminals, in the coordinator.

From its admission on, a request that nobody aborts follows `Progress` step by step:
its entries are what its messages made of them, whatever happens to other requests
and whatever its own caller or stream does short of leaving. What the future holds in
the end is then a fact about the list of messages (`completion_resolves`). -/
namespace SglangOmni.Pipeline.Coordinator
open Lib

variable {ρ : Type} {g : Config} {s s' : State ρ} {r : String} {n : Nat} {stages : Finset String}
  {kind : Kind} {p : Progress ρ} {x : String} {msg : CompleteMessage ρ}

/-! ### Messages and disturbances -/

/-- The message for `r` that the completion loop takes up with this event. -/
def handledFor (r : String) (s : State ρ) : Event ρ → List (CompleteMessage ρ)
  | .completed msg => if s.loop.isIdle = true ∧ msg.requestId = r then [msg] else []
  | _ => []

/-- The messages for `r` in a history, in the order they are handled. -/
def handled (g : Config) (r : String) : State ρ → List (Event ρ) → List (CompleteMessage ρ)
  | _, [] => []
  | s, e :: rest => handledFor r s e ++ handled g r (step g s e) rest

/-- The event does not take call `n` away from request `r`: the owner stays, the id is
not admitted anew, a failure of `r` gets through its broadcast, and the coordinator
goes on. -/
def leavesAlone (r : String) (n : Nat) (s : State ρ) : Event ρ → Bool
  | .call _ x _ _ => x ≠ r || requestIdIsReserved s r
  | .submitFailed c | .ownerCancelled c | .streamClosed c | .streamCleanup c => c ≠ n
  | .failureFailed => !s.loop.handles r
  | .failPending _ => false
  | _ => true

/-- Nobody aborts `r`, and its owner stays. -/
def Undisturbed (g : Config) (r : String) (n : Nat) (s : State ρ) (e : Event ρ) : Prop :=
  leavesAlone r n s e = true ∧ (step g s e).abortTasks.get? r = none

instance (g : Config) (r : String) (n : Nat) (s : State ρ) (e : Event ρ) :
    Decidable (Undisturbed g r n s e) :=
  inferInstanceAs (Decidable (_ ∧ _))

/-! ### Following the progress -/

/-- The request is tracked and its future waits. -/
structure Waits (s : State ρ) (r : String) (n : Nat) (stages : Finset String) : Prop where
  request : (s.requests.get? r).map (fun i => (i.incarnation, i.terminalStages)) = some (n, some stages)
  future : s.completionFutures.get? r = some n
  value : s.futures n = .pending

/-- What a failure makes of the future. -/
def rejection (kind : Kind) (error : Option String) : FutureState ρ :=
  if kind = .stream then .cancelled else .exception (fromMessage error)

def Follows (s : State ρ) (r : String) (n : Nat) (kind : Kind) (stages : Finset String) :
    Progress ρ → Prop
  | .waiting d => Waits s r n stages ∧ s.loop.handles r = false ∧ (s.partialResults.get? r).getD ∅ = d
  | .resolved o => s.requests.get? r = none ∧ s.futures n = .result o ∧ s.loop.handles r = false
  | .failed error =>
    (Waits s r n stages ∧ ∃ msg k, s.loop = .failing msg k ∧ msg.requestId = r ∧ msg.error = error) ∨
      (s.requests.get? r = none ∧ s.futures n = rejection kind error ∧ s.loop.handles r = false)

/-- The coordinator at some point of the request's way. -/
structure Sim (g : Config) (s : State ρ) (r : String) (n : Nat) (kind : Kind) (stages : Finset String)
    (p : Progress ρ) : Prop where
  tables : Tables g s
  queues : Queues s
  consuming : Consuming g s
  expects : ExpectsEither g s
  call : ∃ call, s.calls n = some call ∧ call.requestId = r ∧ call.kind = kind
  abortFree : s.abortTasks.get? r = none
  follows : Follows s r n kind stages p

/-! ### Frames -/

/-- Nothing that `r` and `n` see has changed. -/
structure Unseen (s s' : State ρ) (r : String) (n : Nat) : Prop where
  request : (s'.requests.get? r).map (fun i => (i.incarnation, i.terminalStages)) =
    (s.requests.get? r).map (fun i => (i.incarnation, i.terminalStages))
  future : s.futures n = .pending → s.completionFutures.get? r = some n →
    s'.completionFutures.get? r = some n
  value : s'.futures n = s.futures n
  partials : s'.partialResults.get? r = s.partialResults.get? r

theorem Unseen.request_none (h : Unseen s s' r n) (hr : s.requests.get? r = none) :
    s'.requests.get? r = none := by
  have := h.request
  rw [hr, Option.map_none, Option.map_eq_none_iff] at this
  exact this

theorem Unseen.waits (h : Unseen s s' r n) (hw : Waits s r n stages) :
    Waits s' r n stages :=
  ⟨h.request.trans hw.request, h.future hw.value hw.future, h.value.trans hw.value⟩

/-- A step that `r` does not see, with the loop where it was or not with `r` on both sides. -/
theorem Unseen.follows (h : Unseen s s' r n)
    (hl : s'.loop = s.loop ∨ (s.loop.handles r = false ∧ s'.loop.handles r = false))
    (hf : Follows s r n kind stages p) : Follows s' r n kind stages p := by
  have hfree : s.loop.handles r = false → s'.loop.handles r = false := by
    intro hs
    rcases hl with he | he
    · rw [he]
      exact hs
    · exact he.2
  cases p with
  | waiting d =>
    obtain ⟨hw, hloop, hd⟩ := hf
    exact ⟨h.waits hw, hfree hloop, by rw [h.partials]; exact hd⟩
  | resolved o =>
    obtain ⟨hr, hv, hloop⟩ := hf
    exact ⟨h.request_none hr, h.value.trans hv, hfree hloop⟩
  | failed error =>
    rcases hf with ⟨hw, msg, k, hloop, hid, herr⟩ | ⟨hr, hv, hloop⟩
    · refine .inl ⟨h.waits hw, msg, k, ?_, hid, herr⟩
      rcases hl with he | he
      · exact he.trans hloop
      · rw [hloop] at he
        simp [Loop.handles, hid] at he
    · exact .inr ⟨h.request_none hr, h.value.trans hv, hfree hloop⟩

/-! ### Handlers of other requests -/

theorem settleFuture_value {v : FutureState ρ} (h : s.completionFutures.get? x ≠ some n) :
    (settleFuture s x v).futures n = s.futures n := by
  simp only [settleFuture]
  cases hx : s.completionFutures.get? x with
  | none => rfl
  | some f =>
    have hne : n ≠ f := by
      rintro rfl
      exact h hx
    simp only
    split
    · rfl
    · exact Function.update_of_ne hne ..

/-- The call's future is not under another id. -/
theorem Sim.not_under
    (h : Sim g s r n kind stages p) (hx : x ≠ r) : s.completionFutures.get? x ≠ some n := by
  intro hf
  obtain ⟨call, hc, hid, _⟩ := h.call
  obtain ⟨call', hc', hid'⟩ := h.tables.future x n hf
  rw [hc] at hc'
  cases hc'
  exact hx (hid'.symm.trans hid)

/-- A step about request `x`, seen from another one. -/
theorem unseen_other {v : FutureState ρ} (hx : x ≠ r) (hfree : s.completionFutures.get? x ≠ some n)
    (hreq : ∀ y, y ≠ x → s'.requests.get? y = s.requests.get? y)
    (hfut : s'.completionFutures = s.completionFutures)
    (hval : s'.futures = s.futures ∨ s'.futures = (settleFuture s x v).futures)
    (hpart : ∀ y, y ≠ x → s'.partialResults.get? y = s.partialResults.get? y) : Unseen s s' r n where
  request := by rw [hreq r (Ne.symm hx)]
  future _ h := by rw [hfut]; exact h
  value := by
    rcases hval with h | h <;> rw [h]
    exact settleFuture_value hfree
  partials := hpart r (Ne.symm hx)

theorem unseen_runAbort (hx : x ≠ r) (hfree : s.completionFutures.get? x ≠ some n) :
    Unseen s (runAbort s x) r n := by
  unfold runAbort
  split
  · exact ⟨rfl, fun _ h => h, rfl, rfl⟩
  · exact unseen_other hx hfree (fun y hy => Dict.get?_pop_ne _ hy) rfl (.inr rfl)
      (fun y hy => Dict.get?_pop_ne _ hy)

theorem unseen_failRequest (hx : msg.requestId ≠ r)
    (hfree : s.completionFutures.get? msg.requestId ≠ some n) :
    Unseen s { failRequest s msg with loop := .idle } r n :=
  unseen_other hx hfree (fun _ hy => Dict.get?_pop_ne _ hy) rfl (.inr rfl)
    (fun _ hy => Dict.get?_pop_ne _ hy)

theorem unseen_completeMulti {expected : Finset String}
    (hx : msg.requestId ≠ r) (hfree : s.completionFutures.get? msg.requestId ≠ some n) :
    Unseen s (completeMulti s expected msg) r n := by
  simp only [completeMulti]
  split
  · exact unseen_other (v := .pending) hx hfree (fun _ _ => rfl) rfl (.inl rfl)
      (fun _ hy => Dict.get?_set_ne _ _ hy)
  · refine unseen_other hx hfree (fun _ hy => Dict.get?_pop_ne _ hy) rfl (.inr rfl) fun y hy => ?_
    simp only [settleFuture, put]
    rw [Dict.get?_pop_ne _ hy, Dict.get?_set_ne _ _ hy]

theorem unseen_handleCompletion (hx : msg.requestId ≠ r)
    (hfree : s.completionFutures.get? msg.requestId ≠ some n) :
    Unseen s (handleCompletion g s msg) r n := by
  simp only [handleCompletion]
  split
  · exact ⟨rfl, fun _ h => h, rfl, rfl⟩
  · split_ifs
    · exact unseen_other (v := .pending) hx hfree (fun _ hy => Dict.get?_set_ne _ _ hy) rfl (.inl rfl)
        (fun _ _ => rfl)
    · exact ⟨rfl, fun _ h => h, rfl, rfl⟩
    · exact unseen_other hx hfree (fun _ hy => Dict.get?_pop_ne _ hy) rfl (.inr rfl) (fun _ _ => rfl)
    · exact unseen_completeMulti hx hfree

theorem unseen_admitted
    (ha : Admitted g s s' kind x stages) (hx : x ≠ r) (hn : n ≠ s.nextCall) : Unseen s s' r n where
  request := by rw [ha.requests, Dict.get?_set_ne _ _ (Ne.symm hx)]
  future _ h := by rw [ha.completionFutures, Dict.get?_set_ne _ _ (Ne.symm hx)]; exact h
  value := by rw [ha.futures, Function.update_of_ne hn]
  partials := by rw [ha.partialResults]

/-! ### Owners -/

theorem releaseStream_future {c : Nat} {call : Call} (h : s.streamQueues.get? r ≠ some c) :
    (releaseStream s c call).completionFutures.get? r = s.completionFutures.get? r := by
  simp only [releaseStream]
  split
  · next hq =>
    have hne : r ≠ call.requestId := by
      rintro rfl
      exact h hq
    exact Dict.get?_pop_ne _ hne
  · rfl

theorem abort_kept (s : State ρ) (r : String) :
    (abort s r).1.completionFutures = s.completionFutures ∧ (abort s r).1.streamQueues = s.streamQueues ∧
      (abort s r).1.futures = s.futures := by
  unfold abort
  split
  · exact ⟨rfl, rfl, rfl⟩
  · split
    · exact ⟨rfl, rfl, rfl⟩
    · split <;> exact ⟨rfl, rfl, rfl⟩

theorem releaseStream_futures (s : State ρ) (c : Nat) (call : Call) :
    (releaseStream s c call).futures = s.futures := by
  simp only [releaseStream]
  split <;> rfl

theorem closeStream_futures (s : State ρ) (c : Nat) (call : Call) :
    (closeStream s c call).futures = s.futures := by
  simp only [closeStream]
  split
  · split
    · exact (abort_kept s _).2.2
    · rw [releaseStream_futures, (abort_kept s _).2.2]
  · exact releaseStream_futures ..

theorem closeStream_future {c : Nat} {call : Call} (h : s.streamQueues.get? r ≠ some c) :
    (closeStream s c call).completionFutures.get? r = s.completionFutures.get? r := by
  simp only [closeStream]
  split
  · obtain ⟨hf, hq, _⟩ := abort_kept s call.requestId
    split
    · rw [show ((abort s call.requestId).1.setCall c _).completionFutures = _ from hf]
    · rw [releaseStream_future (by rw [hq]; exact h), hf]
  · exact releaseStream_future h

/-- While its request is tracked, a turn of a stream does not leave the loop. -/
theorem streamNext_stays (ht : Tables g s) (hq : Queues s) (hc : Consuming g s) (he : ExpectsEither g s)
    {c : Nat} {call : Call} (here : s.calls c = some call) (hp : call.phase = .streaming)
    {info : RequestInfo ρ} (hr : s.requests.get? call.requestId = some info) :
    streamNext g s c call = s ∨ ∃ call', streamNext g s c call = s.setCall c call' := by
  have hcons := (hc c call here).2 hp
  have hqueue := ht.holdsQueue c call here (by simp [hp]) hcons.kind
  obtain ⟨rfl, hres⟩ := ht.stream_queue hr hqueue here
  have hnot := hq.not_covered hr hqueue hres
  have hno := (hq.tracked _ info hr hqueue).1
  unfold streamNext
  split
  · exact .inl rfl
  · exact .inr ⟨_, rfl⟩
  · next msg hmsg =>
    have hmem : QueueItem.complete msg ∈ s.queues info.incarnation := List.mem_of_getElem? hmsg
    have hs : msg.success = true := by simpa [QueueItem.fails] using hno _ hmem
    have hreported : msg.fromStage ∈ reported (s.queues info.incarnation) := by
      simp only [reported, List.mem_toFinset, List.mem_filterMap]
      exact ⟨_, hmem, by simp [QueueItem.reports, hs]⟩
    simp only [hs, Bool.true_eq_false, if_false]
    split
    · next hfin =>
      refine absurd ⟨⟨_, hreported⟩, fun stage hst => ?_⟩ hnot
      -- what the stream waits for covers what it was admitted with
      have hexp : stage ∈ call.expected := by
        rcases he _ call here hp with h | h
        · rw [h]
          exact hst
        · rw [h]
          exact ht.resolved _ call here hst
      rcases hfin with hempty | hsub
      · rw [hempty] at hexp
        exact absurd hexp (Finset.notMem_empty _)
      · have hplain : ∀ x ∈ reported (s.queues info.incarnation), g.topology.logicalName x = x := by
          intro x hx
          rcases hq.accepted _ call here x hx with h | h
          · rw [h] at hst
            exact absurd hst (Finset.notMem_empty _)
          · exact logicalName_plain _ (g.plain x (ht.resolved _ call here h))
        rcases Finset.mem_insert.mp (hsub hexp) with h | h
        · rw [h, hplain _ hreported]
          exact hreported
        · rw [hcons.completed, Finset.mem_image] at h
          obtain ⟨x, hx, rfl⟩ := h
          have hx' : x ∈ reported (s.queues info.incarnation) := by
            simp only [reported, List.mem_toFinset, List.mem_filterMap] at hx ⊢
            obtain ⟨item, hitem, hrep⟩ := hx
            exact ⟨item, List.mem_of_mem_take hitem, hrep⟩
          rw [hplain x hx']
          exact hx'
    · exact .inr ⟨_, rfl⟩

theorem rejection_ne_pending (kind : Kind) (error : Option String) :
    (rejection kind error : FutureState ρ) ≠ .pending := by
  unfold rejection
  split <;> simp

theorem Sim.waits (h : Sim g s r n kind stages p) (hv : s.futures n = .pending) : Waits s r n stages := by
  have hf := h.follows
  cases p with
  | waiting d => exact hf.1
  | resolved o =>
    rw [hf.2.1] at hv
    cases hv
  | failed error =>
    rcases hf with hf | hf
    · exact hf.1
    · rw [hf.2.1] at hv
      exact absurd hv (rejection_ne_pending kind error)

theorem Waits.tracked (h : Waits s r n stages) :
    ∃ info, s.requests.get? r = some info ∧ info.incarnation = n ∧ info.terminalStages = some stages := by
  have hr := h.request
  rw [Option.map_eq_some_iff] at hr
  obtain ⟨info, hinfo, heq⟩ := hr
  rw [Prod.mk.injEq] at heq
  exact ⟨info, hinfo, heq.1, heq.2⟩

/-- The queue under `r` is not that of another call. -/
theorem Sim.other_queue
    (h : Sim g s r n kind stages p) (hf : s.completionFutures.get? r = some n) {c : Nat} (hc : c ≠ n) :
    s.streamQueues.get? r ≠ some c := by
  intro hq
  obtain ⟨m, hm⟩ := h.tables.owned r
  exact hc ((hm.queue c hq).trans (hm.future n hf).symm)

/-- An owner step keeps the future in its place, and the value of every future that
its owner does not cancel. -/
theorem future_byOwner (h : Sim g s r n kind stages p) {e : Event ρ} (howner : e.byOwner = true)
    (hrule : leavesAlone r n s e = true) :
    (s.futures n = .pending → s.completionFutures.get? r = some n →
      (step g s e).completionFutures.get? r = some n) ∧ (step g s e).futures n = s.futures n := by
  have same : (s.futures n = .pending → s.completionFutures.get? r = some n →
      s.completionFutures.get? r = some n) ∧ s.futures n = s.futures n := ⟨fun _ h => h, rfl⟩
  have close : ∀ c call, c ≠ n → (s.futures n = .pending → s.completionFutures.get? r = some n →
      (closeStream s c call).completionFutures.get? r = some n) ∧ (closeStream s c call).futures n = s.futures n := by
    intro c call hc
    refine ⟨fun _ hf => ?_, by rw [closeStream_futures]⟩
    rw [closeStream_future (h.other_queue hf hc)]
    exact hf
  refine step_rule
    (P := fun t => (s.futures n = .pending → s.completionFutures.get? r = some n →
      t.completionFutures.get? r = some n) ∧ t.futures n = s.futures n) same fun s' hf => ?_
  cases hf with
  | submitted c call _ _ =>
    unfold submitted
    simp only
    split
    · split <;> exact same
    · exact same
  | submitFailed c call _ _ =>
    unfold submitFailed
    split
    · exact same
    · exact close c _ (of_decide_eq_true hrule)
  | ownerWakes c call hc =>
    unfold ownerWakes
    split
    · next f hp =>
      split
      · next hdone =>
        refine ⟨fun hv hf => ?_, rfl⟩
        obtain ⟨rfl, _⟩ := h.tables.awaits c call f hc hp
        have hne : r ≠ call.requestId := by
          rintro rfl
          have hown := h.tables.holdsFuture f call hc (by simp [hp])
          rw [hf] at hown
          cases hown
          rw [hv] at hdone
          cases hdone
        simp only
        rw [Dict.get?_pop_ne _ hne]
        exact hf
      · exact same
    · exact same
  | ownerCancelled c call hc =>
    unfold ownerCancelled
    split
    · next f hp =>
      split
      · exact same
      · obtain ⟨rfl, _⟩ := h.tables.awaits c call f hc hp
        have hne : f ≠ n := of_decide_eq_true hrule
        exact ⟨fun _ hf => hf, Function.update_of_ne hne.symm ..⟩
    · exact same
  | streamNext c call hc hp =>
    have hfut : ∀ call', (streamNext g s c call').futures = s.futures := by
      intro call'
      unfold streamNext
      split
      · rfl
      · rfl
      · simp only
        split_ifs
        · exact closeStream_futures ..
        · exact closeStream_futures ..
        · rfl
    refine ⟨fun hv hf => ?_, by rw [hfut]⟩
    by_cases hcn : c = n
    · subst hcn
      obtain ⟨info, hinfo, _⟩ := (h.waits hv).tracked
      obtain ⟨call', hc', hid, _⟩ := h.call
      rw [hc] at hc'
      cases hc'
      rcases streamNext_stays h.tables h.queues h.consuming h.expects hc hp (hid ▸ hinfo) with he | ⟨x, he⟩
      · rw [he]
        exact hf
      · rw [he]
        exact hf
    · unfold streamNext
      split
      · exact hf
      · exact hf
      · simp only
        split_ifs
        · exact (close c _ hcn).1 hv hf
        · exact (close c _ hcn).1 hv hf
        · exact hf
  | streamClosed c call _ _ => exact close c _ (of_decide_eq_true hrule)
  | streamCleanup c call _ _ =>
    refine ⟨fun _ hf => ?_, by rw [releaseStream_futures]⟩
    rw [releaseStream_future (h.other_queue hf (of_decide_eq_true hrule))]
    exact hf
  | abort x =>
    obtain ⟨hf, _, hv⟩ := abort_kept s x
    exact ⟨fun _ h => by rw [hf]; exact h, by rw [hv]⟩
  | abortFailed t task _ _ => exact same
  | abortCallback t task _ _ =>
    unfold onAbortTaskDone
    split <;> exact same
  | _ => cases howner

theorem unseen_byOwner (h : Sim g s r n kind stages p) {e : Event ρ} (howner : e.byOwner = true)
    (hrule : leavesAlone r n s e = true) : Unseen s (step g s e) r n := by
  have ho := step_byOwner g s howner
  obtain ⟨hf, hv⟩ := future_byOwner h howner hrule
  exact ⟨ho.request r, hf, hv, by rw [ho.partialResults]⟩

/-! ### Messages for the request -/

/-- The future of a waiting request takes the value it is given. -/
theorem Waits.settle (h : Waits s r n stages) (v : FutureState ρ) :
    (settleFuture s r v).futures n = v := by
  simp [settleFuture, h.future, h.value, FutureState.done]

/-- A stream's future is cancelled and a submit's gets the exception. -/
theorem Sim.reject (h : Sim g s r n kind stages p) (hw : Waits s r n stages) (error : Option String) :
    (rejectCompletionFuture s r (fromMessage error)).futures n = rejection kind error := by
  rw [rejectCompletionFuture, hw.settle, rejection]
  obtain ⟨call, hc, hid, hk⟩ := h.call
  have hiff : s.streamQueues.contains r = true ↔ kind = .stream := by
    rw [Dict.contains_iff]
    constructor
    · rintro ⟨q, hq⟩
      obtain ⟨m, hm⟩ := h.tables.owned r
      have hqn : q = n := (hm.queue q hq).trans (hm.future n hw.future).symm
      subst hqn
      obtain ⟨call', hc', _, hk'⟩ := h.tables.queue r q hq
      rw [hc] at hc'
      cases hc'
      exact hk.symm.trans hk'
    · intro hstream
      exact ⟨n, h.tables.paired r n call hw.future hc (hk.trans hstream)⟩
  by_cases hkind : kind = .stream
  · rw [if_pos (hiff.mpr hkind), if_pos hkind]
  · rw [if_neg (fun hc => hkind (hiff.mp hc)), if_neg hkind]

/-- A message for a waiting request takes it where `Progress` goes. -/
theorem follows_message {d : Dict String (Option ρ)}
    (h : Sim g s r n kind stages (.waiting d)) (hid : msg.requestId = r) :
    Follows (handleCompletion g s msg) r n kind stages ((Progress.waiting d).report g stages msg) := by
  subst hid
  obtain ⟨hw, hloop, rfl⟩ := h.follows
  obtain ⟨info, hinfo, rfl, hst⟩ := hw.tracked
  have hexpected : expectedTerminalStages g s msg.requestId = stages := by
    simp [expectedTerminalStages, hinfo, hst]
  have hfree : ∀ l : Loop ρ, l = s.loop → l.handles msg.requestId = false := by
    intro l hl
    rw [hl]
    exact hloop
  simp only [handleCompletion, hinfo, hexpected, Progress.report]
  split_ifs with hs hout hcard hlt
  · refine .inl ⟨⟨?_, hw.future, hw.value⟩, _, _, rfl, rfl, rfl⟩
    simp only [Dict.get?_set_self, Option.map_some, hst]
  · exact ⟨hw, hloop, rfl⟩
  · exact ⟨Dict.get?_pop_self .., hw.settle _, hfree _ rfl⟩
  · simp only [completeMulti, if_pos hlt]
    exact ⟨⟨hw.request, hw.future, hw.value⟩, hfree _ rfl, by simp [put]⟩
  · simp only [completeMulti, if_neg hlt]
    exact ⟨Dict.get?_pop_self .., hw.settle _, hfree _ rfl⟩

/-- The broadcast of a failure is over. -/
theorem follows_failed {error : Option String} (h : Sim g s r n kind stages (.failed error)) {k : Nat}
    (hloop : s.loop = .failing msg k) (hid : msg.requestId = r) :
    Follows { failRequest s msg with loop := .idle } r n kind stages (.failed error) := by
  rcases h.follows with ⟨hw, msg', k', hl, _, herr⟩ | ⟨_, _, hl⟩
  · rw [hloop] at hl
    cases hl
    refine .inr ⟨?_, ?_, rfl⟩
    · simp [failRequest, hid]
    · have := h.reject hw msg.error
      rw [herr] at this
      simp only [failRequest, put, hid, herr]
      exact this
  · rw [hloop] at hl
    simp [Loop.handles, hid] at hl

/-- **One step.** A step that leaves the request alone keeps it on its way. -/
theorem sim_step (h : Sim g s r n kind stages p) (e : Event ρ) (hrule : Undisturbed g r n s e) :
    Sim g (step g s e) r n kind stages ((handledFor r s e).foldl (Progress.report g stages) p) := by
  have hcall : ∃ call, (step g s e).calls n = some call ∧ call.requestId = r ∧ call.kind = kind := by
    obtain ⟨call, hc, hid, hk⟩ := h.call
    by_cases hevent : ∃ kind r answer bind, e = .call kind r answer bind
    · obtain ⟨_, _, _, _, rfl⟩ := hevent
      rcases step_call g s _ _ _ _ with heq | ⟨_, ha⟩
      · rw [heq]
        exact ⟨call, hc, hid, hk⟩
      · exact ⟨call, ha.call_keeps h.tables hc, hid, hk⟩
    · obtain ⟨call', hc', hid', hk', _⟩ := (step_shrinks g s e fun kind r answer bind he =>
        hevent ⟨kind, r, answer, bind, he⟩).call_forth hc
      exact ⟨call', hc', hid'.trans hid, hk'.trans hk⟩
  refine ⟨tables_step h.tables e, queues_step h.queues h.tables e, consuming_step h.consuming h.tables e,
    expectsEither_step h.expects h.tables e, hcall, hrule.2, ?_⟩
  cases howner : e.byOwner with
  | true =>
    have hnone : handledFor r s e = [] := by
      cases e with
      | completed msg => cases howner
      | _ => rfl
    rw [hnone]
    exact (unseen_byOwner h howner hrule.1).follows (.inl (step_byOwner g s howner).loop) h.follows
  | false =>
    cases e with
    | call kind' x answer bind =>
      rcases step_call g s kind' x answer bind with heq | ⟨stages', ha⟩
      · rw [heq]
        exact h.follows
      · have hx : x ≠ r := by
          have := hrule.1
          simp only [leavesAlone, Bool.or_eq_true, decide_eq_true_eq] at this
          rcases this with hx | hres
          · exact hx
          · rintro rfl
            rw [ha.free] at hres
            cases hres
        have hn : n ≠ s.nextCall := by
          rintro rfl
          obtain ⟨call, hc, _⟩ := h.call
          rw [h.tables.fresh _ le_rfl] at hc
          cases hc
        exact (unseen_admitted ha hx hn).follows (.inl ha.loop) h.follows
    | completed msg =>
      simp only [step, handledFor]
      by_cases hidle : s.loop.isIdle = true
      · rw [if_pos hidle]
        have hl := loop_idle hidle
        by_cases hid : msg.requestId = r
        · rw [if_pos ⟨hidle, hid⟩, List.foldl_cons, List.foldl_nil]
          cases p with
          | waiting d => exact follows_message h hid
          | resolved o =>
            obtain ⟨hr, hrest⟩ := h.follows
            simp only [handleCompletion, hid, hr]
            exact ⟨hr, hrest⟩
          | failed error =>
            rcases h.follows with ⟨_, m, k, hf, _⟩ | hdone
            · rw [hl] at hf
              cases hf
            · simp only [handleCompletion, hid, hdone.1]
              exact .inr hdone
        · rw [if_neg fun hc => hid hc.2]
          refine (unseen_handleCompletion hid (h.not_under hid)).follows (.inr ⟨by rw [hl]; rfl, ?_⟩)
            h.follows
          simp only [handleCompletion]
          split
          · rw [hl]; rfl
          · split_ifs
            · simp [Loop.handles, hid]
            · rw [hl]; rfl
            · simp [completeSingle, settleFuture, put, hl, Loop.handles]
            · simp only [completeMulti]
              split <;> simp [settleFuture, put, hl, Loop.handles]
      · rw [if_neg hidle, if_neg fun hc => hidle hc.1]
        exact h.follows
    | failureResumed =>
      simp only [step, handledFor, List.foldl_nil]
      split
      · next msg k hl =>
        by_cases hid : msg.requestId = r
        · cases p with
          | waiting d =>
            have hfree := h.follows.2.1
            rw [hl] at hfree
            simp [Loop.handles, hid] at hfree
          | resolved o =>
            have hfree := h.follows.2.2
            rw [hl] at hfree
            simp [Loop.handles, hid] at hfree
          | failed error => exact follows_failed h hl hid
        · refine (unseen_failRequest hid (h.not_under hid)).follows (.inr ⟨?_, rfl⟩) h.follows
          simp [hl, Loop.handles, hid]
      · exact h.follows
    | failureFailed =>
      simp only [step, handledFor, List.foldl_nil]
      split
      · have hfree : s.loop.handles r = false := by simpa [leavesAlone] using hrule.1
        have hsame : Unseen s { s with loop := .stopped } r n := ⟨rfl, fun _ hf => hf, rfl, rfl⟩
        exact hsame.follows (.inr ⟨hfree, rfl⟩) h.follows
      · exact h.follows
    | abortResumed t =>
      simp only [handledFor, List.foldl_nil, step, onTask]
      split
      · exact h.follows
      · next task htask =>
        split
        · next hf =>
          have hx : task.requestId ≠ r := by
            intro he
            have ha := (h.tables.task t task htask hf).1
            rw [he, h.abortFree] at ha
            cases ha
          have hfinish : Unseen s (finishTask s t task) r n := ⟨rfl, fun _ hf => hf, rfl, rfl⟩
          have hfree : (finishTask s t task).completionFutures.get? task.requestId ≠ some n :=
            h.not_under hx
          refine (unseen_runAbort hx hfree).follows (.inl ?_) (hfinish.follows (.inl rfl) h.follows)
          unfold runAbort
          split <;> rfl
        · exact h.follows
    | streamed msg =>
      simp only [handledFor, List.foldl_nil, step]
      split
      · have hsame : Unseen s (handleStream g s msg) r n := ⟨rfl, fun _ hf => hf, rfl, rfl⟩
        exact hsame.follows (.inl rfl) h.follows
      · exact h.follows
    | failPending message => cases hrule.1
    | _ => cases howner

/-! ### From admission on -/

theorem sim_run (h : Sim g s r n kind stages p)
    (es : List (Event ρ)) (rule : Along (step g) (Undisturbed g r n) s es) :
    Sim g (run (step g) s es) r n kind stages ((handled g r s es).foldl (Progress.report g stages) p) := by
  induction es generalizing s p with
  | nil => exact h
  | cons e rest ih =>
    rw [handled, List.foldl_append]
    exact ih (sim_step h e rule.1) rule.2

theorem sim_admitted (ht : Tables g s) (hq : Queues s) (hc : Consuming g s) (he : ExpectsEither g s)
    {answer : Resolution} {bind : String → Nat → Int}
    (hadm : admission g s r answer bind = .ok stages) (hquiet : s.loop.handles r = false) :
    Sim g (step g s (.call kind r answer bind)) r s.nextCall kind stages (.waiting ∅) := by
  obtain ⟨hrequest, _, _, habort⟩ := reserved_eq_false (admission_ok hadm).2.1
  have hnone : s.partialResults.get? r = none := by
    cases hp : s.partialResults.get? r with
    | none => rfl
    | some d =>
      obtain ⟨_, info, _, hr, _⟩ := hq.partials r d hp
      rw [hrequest] at hr
      cases hr
  refine ⟨tables_step ht _, queues_step hq ht _, consuming_step hc ht _, expectsEither_step he ht _, ?_, ?_,
    ⟨⟨?_, ?_, ?_⟩, ?_, ?_⟩⟩ <;> simp only [step, submitRequest, hadm]
  · exact ⟨_, Function.update_self .., rfl, rfl⟩
  · exact habort
  · simp
  · simp
  · exact Function.update_self ..
  · exact hquiet
  · simp [hnone]

/-- **Multi-terminal completion.** A request is admitted with the terminal set `stages`,
and `ms` are the messages handled for it since, in any order and among any other
events, with nobody aborting it. Its future holds a result exactly when some prefix of
`ms` is complete, and then the one that the first complete prefix describes. A failure
before that rejects it, as soon as its broadcast is over. Without either it is pending.
Once it is settled, no further message changes anything. -/
theorem completion_resolves (g : Config) (before after : List (Event ρ)) (kind : Kind) (r : String)
    (answer : Resolution) (bind : String → Nat → Int) (stages : Finset String)
    (admitted : admission g (run (step g) (State.create ρ) before) r answer bind = .ok stages)
    (quiet : (run (step g) (State.create ρ) before).loop.handles r = false)
    (rule : Along (step g) (Undisturbed g r (run (step g) (State.create ρ) before).nextCall)
      (step g (run (step g) (State.create ρ) before) (.call kind r answer bind)) after) :
    let s₀ := run (step g) (State.create ρ) before
    let s₁ := step g s₀ (.call kind r answer bind)
    let s := run (step g) s₁ after
    let ms := handled g r s₁ after
    ((∃ o, s.futures s₀.nextCall = .result o) ↔ ∃ p, p <+: ms ∧ Complete g stages p) ∧
      (∀ p, p <+: ms → Complete g stages p → (∀ q, q <+: p → q ≠ p → ¬Complete g stages q) →
        ∃ o, s.futures s₀.nextCall = .result o ∧ Describes g stages p o) ∧
      (∀ p msg, p ++ [msg] <+: ms → (∀ x ∈ p, x.success = true) → ¬AllReported g stages p →
        msg.success = false → s.loop.handles r = false →
        s.futures s₀.nextCall = rejection kind msg.error) ∧
      ((∀ x ∈ ms, x.success = true) → ¬AllReported g stages ms → s.futures s₀.nextCall = .pending) ∧
      ((s.futures s₀.nextCall).done = true → ∀ msg : CompleteMessage ρ, msg.requestId = r →
        step g s (.completed msg) = s) := by
  intro s₀ s₁ s ms
  let Inv (s : State ρ) := Tables g s ∧ Queues s ∧ Consuming g s ∧ ExpectsEither g s
  have initial : Inv (State.create ρ) :=
    ⟨tables_create g, queues_create ρ, (fun _ _ h => nomatch h), (fun _ _ h => nomatch h)⟩
  have preserved : ∀ t e, Inv t → Inv (step g t e) := fun t e h =>
    ⟨tables_step h.1 e, queues_step h.2.1 h.1 e, consuming_step h.2.2.1 h.1 e,
      expectsEither_step h.2.2.2 h.1 e⟩
  have h₀ : Inv s₀ := run_invariant initial preserved before
  have hsim : Sim g s r s₀.nextCall kind stages (progress g stages ms) :=
    sim_run (sim_admitted h₀.1 h₀.2.1 h₀.2.2.1 h₀.2.2.2 admitted quiet) after rule
  have hf := hsim.follows
  have hresult : ∀ o, progress g stages ms = .resolved o → s.futures s₀.nextCall = .result o := by
    intro o ho
    rw [ho] at hf
    exact hf.2.1
  refine ⟨⟨fun ⟨o, ho⟩ => ?_, fun hp => ?_⟩, fun p hp hc hmin => ?_, fun p msg hp hs hnot hfail hloop => ?_,
    fun hs hnot => ?_, fun hdone msg hid => ?_⟩
  · rw [← progress_resolved_iff]
    cases hp : progress g stages ms with
    | waiting d =>
      rw [hp] at hf
      rw [hf.1.value] at ho
      cases ho
    | resolved o' => exact ⟨o', rfl⟩
    | failed error =>
      rw [hp] at hf
      rcases hf with hf | hf
      · rw [hf.1.value] at ho
        cases ho
      · rw [hf.2.1, rejection] at ho
        split at ho <;> cases ho
  · obtain ⟨o, ho⟩ := progress_resolved_iff.mpr hp
    exact ⟨o, hresult o ho⟩
  · obtain ⟨o, ho, hdesc⟩ := progress_resolved hp hc hmin
    exact ⟨o, hresult o ho, hdesc⟩
  · rw [progress_failed hp hs hnot hfail] at hf
    rcases hf with ⟨_, m, k, hl, hm, _⟩ | hf
    · rw [hl] at hloop
      simp [Loop.handles, hm] at hloop
    · exact hf.2.1
  · obtain ⟨d, hd⟩ := progress_waiting hs hnot
    rw [hd] at hf
    exact hf.1.value
  · have hgone : s.requests.get? r = none := by
      cases hp : progress g stages ms with
      | waiting d =>
        rw [hp] at hf
        rw [hf.1.value] at hdone
        cases hdone
      | resolved o =>
        rw [hp] at hf
        exact hf.1
      | failed error =>
        rw [hp] at hf
        rcases hf with hf | hf
        · rw [hf.1.value] at hdone
          cases hdone
        · exact hf.1
    simp only [step, handleCompletion, hid, hgone, ite_self]

/-- Terminal `a` reports twice and `b` once. -/
def twoReports : List (Event Nat) :=
  [.submitted 0, .completed { requestId := "r", fromStage := "a", success := true, result := some 1 },
    .completed { requestId := "r", fromStage := "a", success := true, result := some 2 },
    .completed { requestId := "r", fromStage := "b", success := true, result := some 3 }]

theorem completion_resolves_two_reports :
    ∃ o, (run (step twoTerminals)
      (step twoTerminals (run (step twoTerminals) (State.create Nat) [])
        (.call .submit "r" .unspecified (fun _ _ => 0))) twoReports).futures 0 = .result o := by
  have hcomplete : Complete twoTerminals {"a", "b"} (handled twoTerminals "r"
      (step twoTerminals (run (step twoTerminals) (State.create Nat) [])
        (.call .submit "r" .unspecified (fun _ _ => 0))) twoReports) := by
    unfold Complete AllReported Accepts
    decide
  exact (completion_resolves twoTerminals [] twoReports .submit "r" .unspecified (fun _ _ => 0)
    {"a", "b"} rfl rfl (by decide)).1.mpr ⟨_, List.prefix_refl _, hcomplete⟩

/-! ### Admitted under a suspended handler -/

/-- The failure handler of the request before goes on, and both terminals of the new one succeed. -/
def bothSucceed : List (Event Nat) :=
  [.failureResumed, .submitted 1,
    .completed { requestId := "r", fromStage := "a", success := true, result := some 1 },
    .completed { requestId := "r", fromStage := "b", success := true, result := some 2 }]

/-- No message of the new request fails, and its future does. -/
theorem earlier_failure_rejects :
    let s₀ := run (step twoTerminals) (State.create Nat) readmitted.dropLast
    let s₁ := step twoTerminals s₀ (.call .submit "r" .unspecified (fun _ _ => 0))
    let ms := handled twoTerminals "r" s₁ bothSucceed
    admission twoTerminals s₀ "r" .unspecified (fun _ _ => 0) = .ok {"a", "b"} ∧
      Along (step twoTerminals) (Undisturbed twoTerminals "r" s₀.nextCall) s₁ bothSucceed ∧
      Complete twoTerminals {"a", "b"} ms ∧ (∀ m ∈ ms, m.success = true) ∧
      (run (step twoTerminals) s₁ bothSucceed).futures s₀.nextCall = .exception (.runtime "boom") := by
  intro s₀ s₁ ms
  refine ⟨rfl, by decide, ?_, by decide, rfl⟩
  unfold Complete AllReported Accepts
  decide

end SglangOmni.Pipeline.Coordinator
