import SglangOmni.Pipeline.Coordinator.Model

/-! What the coordinator's tables say about each other, in every run.

All entries under one request id belong to one incarnation, since an id is admitted
only when its tables are empty and every other step only removes entries. A call
that has not ended still holds its future, and a stream its queue. An abort task
keeps its id reserved until its callback, so what it finds under the id after the
broadcast is what it was started for. -/
namespace SglangOmni.Pipeline.Coordinator
open Lib

variable {ρ : Type} {g : Config} {s s' : State ρ} {r : String} {c : Nat} {call' : Call}
  {stages : Finset String} {kind : Kind}

/-! ### Ownership -/

/-- The failure handler is suspended with a message for `r`. -/
def Loop.handles (l : Loop ρ) (r : String) : Bool :=
  match l with
  | .failing msg _ => msg.requestId = r
  | _ => false

/-- Whatever the tables hold under `r` belongs to incarnation `n`. -/
structure Owned (s : State ρ) (r : String) (n : Nat) : Prop where
  request : ∀ info, s.requests.get? r = some info → info.incarnation = n
  future : ∀ f, s.completionFutures.get? r = some f → f = n
  queue : ∀ q, s.streamQueues.get? r = some q → q = n

/-- Requests keep their incarnation and terminal set, or are removed. -/
def RequestsShrink (s s' : State ρ) : Prop :=
  ∀ r info', s'.requests.get? r = some info' → ∃ info, s.requests.get? r = some info ∧
    info.incarnation = info'.incarnation ∧ info.terminalStages = info'.terminalStages

/-- A step that admits nothing: entries are kept or removed, and a call keeps what it
was admitted with. -/
structure Shrinks (s s' : State ρ) : Prop where
  request : RequestsShrink s s'
  future : ∀ r f, s'.completionFutures.get? r = some f → s.completionFutures.get? r = some f
  queue : ∀ r q, s'.streamQueues.get? r = some q → s.streamQueues.get? r = some q
  call : ∀ c, (s'.calls c).map (fun a => (a.requestId, a.kind, a.resolved)) =
    (s.calls c).map (fun a => (a.requestId, a.kind, a.resolved))
  nextCall : s'.nextCall = s.nextCall

namespace Shrinks

theorem refl (s : State ρ) : Shrinks s s :=
  ⟨fun _ info h => ⟨info, h, rfl, rfl⟩, fun _ _ h => h, fun _ _ h => h, fun _ => rfl, rfl⟩

theorem trans {t : State ρ} (h : Shrinks s s') (h' : Shrinks s' t) : Shrinks s t where
  request r info hr := by
    obtain ⟨info', hr', hi, ht⟩ := h'.request r info hr
    obtain ⟨info'', hr'', hi', ht'⟩ := h.request r info' hr'
    exact ⟨info'', hr'', hi'.trans hi, ht'.trans ht⟩
  future r f hf := h.future r f (h'.future r f hf)
  queue r q hq := h.queue r q (h'.queue r q hq)
  call c := (h'.call c).trans (h.call c)
  nextCall := h'.nextCall.trans h.nextCall

theorem owned (h : Shrinks s s') {r : String} {n : Nat} (ho : Owned s r n) : Owned s' r n where
  request info hr := by
    obtain ⟨info', hr', hi, _⟩ := h.request r info hr
    rw [← hi]
    exact ho.request info' hr'
  future f hf := ho.future f (h.future r f hf)
  queue q hq := ho.queue q (h.queue r q hq)

theorem call_back (h : Shrinks s s') {c : Nat} {call' : Call} (hc : s'.calls c = some call') :
    ∃ call, s.calls c = some call ∧ call.requestId = call'.requestId ∧ call.kind = call'.kind ∧
      call.resolved = call'.resolved := by
  have hcall := h.call c
  rw [hc] at hcall
  cases hs : s.calls c with
  | none => simp [hs] at hcall
  | some call =>
    simp only [hs, Option.map_some, Option.some.injEq, Prod.mk.injEq] at hcall
    exact ⟨call, rfl, hcall.1.symm, hcall.2.1.symm, hcall.2.2.symm⟩

theorem call_forth (h : Shrinks s s') {c : Nat} {call : Call} (hc : s.calls c = some call) :
    ∃ call', s'.calls c = some call' ∧ call'.requestId = call.requestId ∧ call'.kind = call.kind ∧
      call'.resolved = call.resolved := by
  have hcall := h.call c
  rw [hc] at hcall
  cases hs : s'.calls c with
  | none => simp [hs] at hcall
  | some call' =>
    simp only [hs, Option.map_some, Option.some.injEq, Prod.mk.injEq] at hcall
    exact ⟨call', rfl, hcall⟩

end Shrinks

/-! ### The invariant -/

structure Tables (g : Config) (s : State ρ) : Prop where
  owned : ∀ r, ∃ n, Owned s r n
  request : ∀ r info, s.requests.get? r = some info → ∃ call, s.calls info.incarnation = some call ∧
    call.requestId = r ∧ info.terminalStages = some call.resolved
  future : ∀ r f, s.completionFutures.get? r = some f → ∃ call, s.calls f = some call ∧ call.requestId = r
  queue : ∀ r q, s.streamQueues.get? r = some q → ∃ call, s.calls q = some call ∧
    call.requestId = r ∧ call.kind = .stream
  resolved : ∀ c call, s.calls c = some call → call.resolved ⊆ g.terminalStages
  fresh : ∀ c, s.nextCall ≤ c → s.calls c = none
  holdsFuture : ∀ c call, s.calls c = some call → call.phase ≠ .done →
    s.completionFutures.get? call.requestId = some c
  holdsQueue : ∀ c call, s.calls c = some call → call.phase ≠ .done → call.kind = .stream →
    s.streamQueues.get? call.requestId = some c
  awaits : ∀ c call f, s.calls c = some call → call.phase = .awaiting f → f = c ∧ call.kind = .submit
  paired : ∀ r f call, s.completionFutures.get? r = some f → s.calls f = some call →
    call.kind = .stream → s.streamQueues.get? r = some f
  task : ∀ t task, s.tasks t = some task → task.finished = false →
    s.abortTasks.get? task.requestId = some t ∧ Owned s task.requestId task.incarnation

theorem Tables.shrinks (h : Tables g s) (hs : Shrinks s s')
    (holdsFuture : ∀ c call, s'.calls c = some call → call.phase ≠ .done →
      s'.completionFutures.get? call.requestId = some c)
    (holdsQueue : ∀ c call, s'.calls c = some call → call.phase ≠ .done → call.kind = .stream →
      s'.streamQueues.get? call.requestId = some c)
    (awaits : ∀ c call f, s'.calls c = some call → call.phase = .awaiting f →
      f = c ∧ call.kind = .submit)
    (paired : ∀ r f, s'.completionFutures.get? r = some f → s.streamQueues.get? r = some f →
      s'.streamQueues.get? r = some f)
    (task : ∀ t task, s'.tasks t = some task → task.finished = false →
      s'.abortTasks.get? task.requestId = some t ∧ Owned s task.requestId task.incarnation) :
    Tables g s' where
  owned r := (h.owned r).imp fun _ => hs.owned
  request r info' hr := by
    obtain ⟨info, hr', hi, ht⟩ := hs.request r info' hr
    obtain ⟨call, hc, hid, hres⟩ := h.request r info hr'
    obtain ⟨call', hc', hid', _, hres'⟩ := hs.call_forth hc
    exact ⟨call', hi ▸ hc', hid'.trans hid, by rw [← ht, hres, hres']⟩
  future r f hf := by
    obtain ⟨call, hc, hid⟩ := h.future r f (hs.future r f hf)
    obtain ⟨call', hc', hid', _⟩ := hs.call_forth hc
    exact ⟨call', hc', hid'.trans hid⟩
  queue r q hq := by
    obtain ⟨call, hc, hid, hk⟩ := h.queue r q (hs.queue r q hq)
    obtain ⟨call', hc', hid', hk', _⟩ := hs.call_forth hc
    exact ⟨call', hc', hid'.trans hid, hk'.trans hk⟩
  resolved c call' hc' := by
    obtain ⟨call, hc, _, _, hres⟩ := hs.call_back hc'
    exact hres ▸ h.resolved c call hc
  fresh c hc := by
    have hcall := hs.call c
    rw [h.fresh c (hs.nextCall ▸ hc)] at hcall
    simpa using hcall
  holdsFuture := holdsFuture
  holdsQueue := holdsQueue
  awaits := awaits
  paired r f call' hf hc hk := by
    obtain ⟨call, hc', _, hk', _⟩ := hs.call_back hc
    exact paired r f hf (h.paired r f call (hs.future r f hf) hc' (hk'.trans hk))
  task t k ht hf := ⟨(task t k ht hf).1, hs.owned (task t k ht hf).2⟩

/-! ### Handlers

A handler touches requests, futures, queues and partial results, and none of what
the owners hold. -/

/-- What no handler changes. -/
structure Held (s s' : State ρ) : Prop where
  completionFutures : s'.completionFutures = s.completionFutures
  streamQueues : s'.streamQueues = s.streamQueues
  abortTasks : s'.abortTasks = s.abortTasks
  calls : s'.calls = s.calls
  nextCall : s'.nextCall = s.nextCall
  tasks : s'.tasks = s.tasks
  nextTask : s'.nextTask = s.nextTask

theorem Held.shrinks (h : Held s s') (hr : RequestsShrink s s') : Shrinks s s' where
  request := hr
  future r f hf := by rwa [← h.completionFutures]
  queue r q hq := by rwa [← h.streamQueues]
  call c := by rw [h.calls]
  nextCall := h.nextCall

theorem Tables.held (h : Tables g s) (hh : Held s s') (hr : RequestsShrink s s') : Tables g s' := by
  refine h.shrinks (hh.shrinks hr) ?_ ?_ ?_ ?_ ?_
  · rw [hh.calls, hh.completionFutures]
    exact h.holdsFuture
  · rw [hh.calls, hh.streamQueues]
    exact h.holdsQueue
  · rw [hh.calls]
    exact h.awaits
  · rw [hh.streamQueues]
    exact fun _ _ _ hq => hq
  · rw [hh.tasks, hh.abortTasks]
    exact h.task

theorem requestsShrink_pop {d : Dict String (RequestInfo ρ)} (r : String)
    (hd : s'.requests = d.pop r) (hs : d = s.requests) : RequestsShrink s s' := by
  intro x info hx
  rw [hd, hs, Dict.get?_pop] at hx
  split at hx
  · cases hx
  · exact ⟨info, hx, rfl, rfl⟩

theorem requestsShrink_set {info new : RequestInfo ρ} (hr : s.requests.get? r = some info)
    (hd : s'.requests = s.requests.set r new) (hi : info.incarnation = new.incarnation)
    (ht : info.terminalStages = new.terminalStages) : RequestsShrink s s' := by
  intro x info' hx
  rw [hd, Dict.get?_set] at hx
  split at hx
  · next he =>
    cases hx
    exact ⟨info, he ▸ hr, hi, ht⟩
  · exact ⟨info', hx, rfl, rfl⟩

theorem requestsShrink_refl (h : s'.requests = s.requests) : RequestsShrink s s' :=
  fun _ info hr => ⟨info, h ▸ hr, rfl, rfl⟩

theorem held_runAbort (s : State ρ) (r : String) : Held s (runAbort s r) := by
  unfold runAbort
  split <;> exact ⟨rfl, rfl, rfl, rfl, rfl, rfl, rfl⟩

theorem requestsShrink_runAbort (s : State ρ) (r : String) : RequestsShrink s (runAbort s r) := by
  unfold runAbort
  split
  · exact requestsShrink_refl rfl
  · exact requestsShrink_pop r rfl rfl

theorem held_completeMulti (s : State ρ) (expected : Finset String) (msg : CompleteMessage ρ) :
    Held s (completeMulti s expected msg) := by
  simp only [completeMulti]
  split <;> exact ⟨rfl, rfl, rfl, rfl, rfl, rfl, rfl⟩

theorem requestsShrink_completeMulti (s : State ρ) (expected : Finset String)
    (msg : CompleteMessage ρ) : RequestsShrink s (completeMulti s expected msg) := by
  simp only [completeMulti]
  split
  · exact requestsShrink_refl rfl
  · exact requestsShrink_pop msg.requestId rfl rfl

theorem held_handleCompletion (g : Config) (s : State ρ) (msg : CompleteMessage ρ) :
    Held s (handleCompletion g s msg) := by
  simp only [handleCompletion]
  split
  · exact ⟨rfl, rfl, rfl, rfl, rfl, rfl, rfl⟩
  · split_ifs
    · exact ⟨rfl, rfl, rfl, rfl, rfl, rfl, rfl⟩
    · exact ⟨rfl, rfl, rfl, rfl, rfl, rfl, rfl⟩
    · exact ⟨rfl, rfl, rfl, rfl, rfl, rfl, rfl⟩
    · exact held_completeMulti ..

theorem requestsShrink_handleCompletion (g : Config) (s : State ρ) (msg : CompleteMessage ρ) :
    RequestsShrink s (handleCompletion g s msg) := by
  simp only [handleCompletion]
  split
  · exact requestsShrink_refl rfl
  · next info hinfo =>
    split_ifs
    · exact requestsShrink_set hinfo rfl rfl rfl
    · exact requestsShrink_refl rfl
    · exact requestsShrink_pop msg.requestId rfl rfl
    · exact requestsShrink_completeMulti _ _ _

theorem held_failPending (s : State ρ) (message : String) : Held s (failPendingRequests s message) := by
  have hfold : ∀ ids : List String, ∀ t : State ρ, Held s t → Held s (ids.foldl (failOne message) t) := by
    intro ids
    induction ids with
    | nil => exact fun t h => h
    | cons r rest ih =>
      intro t h
      exact ih _ ⟨h.1, h.2, h.3, h.4, h.5, h.6, h.7⟩
  have h := hfold s.requests.keys s ⟨rfl, rfl, rfl, rfl, rfl, rfl, rfl⟩
  exact ⟨h.1, h.2, h.3, h.4, h.5, h.6, h.7⟩

theorem loop_failPending (s : State ρ) (message : String) : (failPendingRequests s message).loop = s.loop := by
  have hfold : ∀ (ids : List String) (t : State ρ), (ids.foldl (failOne message) t).loop = t.loop := by
    intro ids
    induction ids with
    | nil => exact fun t => rfl
    | cons r rest ih => exact fun t => (ih _).trans rfl
  exact hfold s.requests.keys s

theorem requestsShrink_failPending (s : State ρ) (message : String) :
    RequestsShrink s (failPendingRequests s message) :=
  fun _ _ h => nomatch h

/-! ### Owners -/

/-- A call moves on, keeping what it was admitted with. -/
structure Moves (s : State ρ) (c : Nat) (call call' : Call) : Prop where
  here : s.calls c = some call
  requestId : call'.requestId = call.requestId
  kind : call'.kind = call.kind
  resolved : call'.resolved = call.resolved

theorem Moves.call {call : Call} (h : Moves s c call call') (x : Nat) :
    ((s.setCall c call').calls x).map (fun a => (a.requestId, a.kind, a.resolved)) =
      (s.calls x).map (fun a => (a.requestId, a.kind, a.resolved)) := by
  simp only [State.setCall, Function.update_apply]
  split
  · next hx => simp [hx, h.here, h.requestId, h.kind, h.resolved]
  · rfl

theorem setCall_cases {x : Nat} {a : Call} (h : (s.setCall c call').calls x = some a) :
    (x = c ∧ a = call') ∨ (x ≠ c ∧ s.calls x = some a) := by
  simp only [State.setCall, Function.update_apply] at h
  split at h
  · next hx => exact .inl ⟨hx, (Option.some.inj h).symm⟩
  · next hx => exact .inr ⟨hx, h⟩

/-- A call that goes on and was not done. -/
theorem Tables.setCall (h : Tables g s) {call : Call} (hm : Moves s c call call')
    (live : call.phase ≠ .done) (hawait : ∀ f, call'.phase = .awaiting f → f = c ∧ call'.kind = .submit) :
    Tables g (s.setCall c call') := by
  refine h.shrinks ⟨requestsShrink_refl rfl, fun _ _ h => h, fun _ _ h => h, hm.call, rfl⟩
    ?_ ?_ ?_ (fun _ _ _ hq => hq) h.task
  · intro x a hx hp
    obtain ⟨rfl, rfl⟩ | ⟨_, hx⟩ := setCall_cases hx
    · rw [hm.requestId]
      exact h.holdsFuture x call hm.here live
    · exact h.holdsFuture x a hx hp
  · intro x a hx hp hk
    obtain ⟨rfl, rfl⟩ | ⟨_, hx⟩ := setCall_cases hx
    · rw [hm.requestId]
      exact h.holdsQueue x call hm.here live (hm.kind ▸ hk)
    · exact h.holdsQueue x a hx hp hk
  · intro x a f hx hp
    obtain ⟨rfl, rfl⟩ | ⟨_, hx⟩ := setCall_cases hx
    · exact hawait f hp
    · exact h.awaits x a f hx hp

/-- A call that ends. Its future goes with it, or stays in the table for good. -/
theorem Tables.endCall (h : Tables g s) {call : Call} (hm : Moves s c call call')
    (live : call.phase ≠ .done) (hdone : call'.phase = .done)
    (hr : RequestsShrink s s') (hcalls : s'.calls = (s.setCall c call').calls)
    (hfutures : s'.completionFutures = s.completionFutures ∨
      s'.completionFutures = s.completionFutures.pop call.requestId)
    (hqueues : s'.streamQueues = s.streamQueues ∨ s'.streamQueues = s.streamQueues.pop call.requestId ∧
        s'.completionFutures = s.completionFutures.pop call.requestId)
    (hnext : s'.nextCall = s.nextCall) (htasks : s'.tasks = s.tasks)
    (haborts : s'.abortTasks = s.abortTasks) : Tables g s' := by
  have hfuture : ∀ r f, s'.completionFutures.get? r = some f → s.completionFutures.get? r = some f := by
    intro r f hf
    rcases hfutures with he | he <;> rw [he] at hf
    · exact hf
    · rw [Dict.get?_pop] at hf
      split at hf
      · cases hf
      · exact hf
  have hqueue : ∀ r q, s'.streamQueues.get? r = some q → s.streamQueues.get? r = some q := by
    intro r q hq
    rcases hqueues with he | ⟨he, _⟩ <;> rw [he] at hq
    · exact hq
    · rw [Dict.get?_pop] at hq
      split at hq
      · cases hq
      · exact hq
  -- another call that goes on has an id of its own, since the ending one held this one's future
  have hother : ∀ x a, x ≠ c → s.calls x = some a → a.phase ≠ .done → a.requestId ≠ call.requestId := by
    intro x a hx ha hp he
    have hc := h.holdsFuture c call hm.here live
    rw [← he, h.holdsFuture x a ha hp] at hc
    exact hx (Option.some.inj hc)
  refine h.shrinks ⟨hr, hfuture, hqueue, fun x => by rw [hcalls]; exact hm.call x, hnext⟩
    ?_ ?_ ?_ ?_ ?_
  · intro x a hx hp
    rw [hcalls] at hx
    obtain ⟨rfl, rfl⟩ | ⟨hne, hx⟩ := setCall_cases hx
    · exact absurd hdone hp
    · have hkeep := h.holdsFuture x a hx hp
      rcases hfutures with he | he <;> rw [he]
      · exact hkeep
      · rw [Dict.get?_pop_ne _ (hother x a hne hx hp)]
        exact hkeep
  · intro x a hx hp hk
    rw [hcalls] at hx
    obtain ⟨rfl, rfl⟩ | ⟨hne, hx⟩ := setCall_cases hx
    · exact absurd hdone hp
    · have hkeep := h.holdsQueue x a hx hp hk
      rcases hqueues with he | ⟨he, _⟩ <;> rw [he]
      · exact hkeep
      · rw [Dict.get?_pop_ne _ (hother x a hne hx hp)]
        exact hkeep
  · intro x a f hx hp
    rw [hcalls] at hx
    obtain ⟨rfl, rfl⟩ | ⟨_, hx⟩ := setCall_cases hx
    · rw [hdone] at hp
      cases hp
    · exact h.awaits x a f hx hp
  · intro r f hf hq
    rcases hqueues with he | ⟨he, hpop⟩ <;> rw [he]
    · exact hq
    · rw [hpop, Dict.get?_pop] at hf
      split at hf
      · cases hf
      · next hne =>
        rw [Dict.get?_pop_ne _ hne]
        exact hq
  · rw [htasks, haborts]
    exact h.task

theorem Tables.releaseStream (h : Tables g s) {call : Call} (hm : Moves s c call call')
    (live : call.phase ≠ .done) : Tables g (releaseStream s c call') := by
  have hm' : Moves s c call { call' with phase := .done } := ⟨hm.here, hm.requestId, hm.kind, hm.resolved⟩
  unfold Coordinator.releaseStream
  simp only
  split
  · refine h.endCall hm' live rfl (requestsShrink_refl rfl) rfl (.inr ?_) (.inr ⟨?_, ?_⟩) rfl rfl rfl
    · rw [← hm.requestId]; rfl
    · rw [← hm.requestId]; rfl
    · rw [← hm.requestId]; rfl
  · exact h.endCall hm' live rfl (requestsShrink_refl rfl) rfl (.inl rfl) (.inl rfl) rfl rfl rfl

theorem Tables.abort (h : Tables g s) (r : String) : Tables g (abort s r).1 := by
  unfold Coordinator.abort
  split
  · exact h
  · next hnone =>
    split
    · exact h
    · next info hinfo =>
      split
      · exact h
      · refine h.shrinks ⟨requestsShrink_refl rfl, fun _ _ h => h, fun _ _ h => h, fun _ => rfl, rfl⟩
          h.holdsFuture h.holdsQueue h.awaits (fun _ _ _ hq => hq) ?_
        intro t task ht hf
        simp only [Function.update_apply] at ht
        split at ht
        · next he =>
          cases ht
          obtain ⟨n, hn⟩ := h.owned r
          refine ⟨by simp [he], ?_⟩
          rw [hn.request info hinfo]
          exact hn
        · obtain ⟨ha, ho⟩ := h.task t task ht hf
          refine ⟨?_, ho⟩
          have hne : task.requestId ≠ r := by
            intro he
            rw [he, hnone] at ha
            cases ha
          simp only
          rw [Dict.get?_set_ne _ _ hne]
          exact ha

theorem abort_calls (s : State ρ) (r : String) : (abort s r).1.calls = s.calls := by
  unfold abort
  split
  · rfl
  · split
    · rfl
    · split <;> rfl

theorem Tables.closeStream (h : Tables g s) {call : Call} (hm : Moves s c call call')
    (live : call.phase ≠ .done) : Tables g (closeStream s c call') := by
  unfold Coordinator.closeStream
  split
  · have hab := h.abort call'.requestId
    have hm' : Moves (Coordinator.abort s call'.requestId).1 c call call' :=
      ⟨by rw [abort_calls]; exact hm.here, hm.requestId, hm.kind, hm.resolved⟩
    simp only
    split
    · exact hab.setCall ⟨hm'.here, hm.requestId, hm.kind, hm.resolved⟩ live (fun f hf => nomatch hf)
    · exact hab.releaseStream hm' live
  · exact h.releaseStream hm live

theorem onCall_cases {P : State ρ → Prop} {ready : Phase → Bool} {act : Call → State ρ}
    (same : P s) (moved : ∀ call, s.calls c = some call → ready call.phase = true → P (act call)) :
    P (onCall s c ready act) := by
  unfold onCall
  split
  · exact same
  · next call hc =>
    split
    · next hr => exact moved call hc hr
    · exact same

theorem onTask_cases {P : State ρ → Prop} {t : Nat} {finished : Bool} {act : AbortTask → State ρ}
    (same : P s)
    (moved : ∀ task, s.tasks t = some task → task.finished = finished → P (act task)) :
    P (onTask s t finished act) := by
  unfold onTask
  split
  · exact same
  · next task ht =>
    split
    · next hf => exact moved task ht hf
    · exact same

theorem requestsShrink_markRunning (s : State ρ) (r : String) : RequestsShrink s (markRunning s r) := by
  unfold markRunning
  cases h : s.requests.get? r with
  | none => exact requestsShrink_refl rfl
  | some info => exact requestsShrink_set h rfl rfl rfl

theorem Tables.markRunning (h : Tables g s) (r : String) : Tables g (markRunning s r) :=
  h.held ⟨rfl, rfl, rfl, rfl, rfl, rfl, rfl⟩ (requestsShrink_markRunning s r)

theorem Tables.submitted (h : Tables g s) {call : Call} (hc : s.calls c = some call)
    (hp : call.phase = .submitting) : Tables g (submitted g s c call) := by
  have hm := h.markRunning call.requestId
  have live : call.phase ≠ .done := by simp [hp]
  unfold Coordinator.submitted
  simp only
  split
  · next hk =>
    split
    · exact hm.setCall ⟨hc, rfl, rfl, rfl⟩ live fun f hf => nomatch hf
    · next f hf =>
      refine hm.setCall ⟨hc, rfl, rfl, rfl⟩ live fun f' hf' => ⟨?_, hk⟩
      rw [hm.holdsFuture c call hc live] at hf
      exact (Phase.awaiting.inj hf').symm.trans (Option.some.inj hf).symm
  · exact hm.setCall ⟨hc, rfl, rfl, rfl⟩ live fun f hf => nomatch hf

theorem Tables.submitFailed (h : Tables g s) {call : Call} (hc : s.calls c = some call)
    (hp : call.phase = .submitting) : Tables g (submitFailed s c call) := by
  have live : call.phase ≠ .done := by simp [hp]
  unfold Coordinator.submitFailed
  split
  · exact h.setCall ⟨hc, rfl, rfl, rfl⟩ live fun f hf => nomatch hf
  · exact h.closeStream ⟨hc, rfl, rfl, rfl⟩ live

theorem Tables.ownerWakes (h : Tables g s) {call : Call} (hc : s.calls c = some call) :
    Tables g (ownerWakes s c call) := by
  unfold Coordinator.ownerWakes
  split
  · next f hp =>
    split
    · have hm : Moves s c call { call with phase := .done } := ⟨hc, rfl, rfl, rfl⟩
      exact h.endCall hm (by simp [hp]) rfl (requestsShrink_refl rfl) rfl (.inr rfl) (.inl rfl)
        rfl rfl rfl
    · exact h
  · exact h

theorem Tables.ownerCancelled (h : Tables g s) (call : Call) : Tables g (ownerCancelled s call) := by
  unfold Coordinator.ownerCancelled
  split
  · split
    · exact h
    · exact h.held ⟨rfl, rfl, rfl, rfl, rfl, rfl, rfl⟩ (requestsShrink_refl rfl)
  · exact h

theorem Tables.streamNext (h : Tables g s) {call : Call} (hc : s.calls c = some call)
    (hp : call.phase = .streaming) : Tables g (streamNext g s c call) := by
  have live : call.phase ≠ .done := by simp [hp]
  have hstay : ∀ call' : Call, Moves s c call call' → call'.phase = .streaming →
      Tables g (s.setCall c call') := by
    intro call' hm hp'
    exact h.setCall hm live fun f hf => by rw [hp'] at hf; cases hf
  unfold Coordinator.streamNext
  split
  · exact h
  · exact hstay _ ⟨hc, rfl, rfl, rfl⟩ hp
  · simp only
    split_ifs
    · exact h.closeStream ⟨hc, rfl, rfl, rfl⟩ live
    · exact h.closeStream ⟨hc, rfl, rfl, rfl⟩ live
    · exact hstay _ ⟨hc, rfl, rfl, rfl⟩ hp

/-! ### Abort tasks -/

theorem Tables.finishTask (h : Tables g s) (t : Nat) (task : AbortTask) :
    Tables g (finishTask s t task) := by
  refine h.shrinks ⟨requestsShrink_refl rfl, fun _ _ h => h, fun _ _ h => h, fun _ => rfl, rfl⟩
    h.holdsFuture h.holdsQueue h.awaits (fun _ _ _ hq => hq) ?_
  intro t' task' ht hf
  simp only [Coordinator.finishTask, Function.update_apply] at ht
  split at ht
  · cases ht
    cases hf
  · exact h.task t' task' ht hf

theorem Tables.onAbortTaskDone (h : Tables g s) {t : Nat} {task : AbortTask}
    (ht : s.tasks t = some task) (hf : task.finished = true) :
    Tables g (onAbortTaskDone s task.requestId t) := by
  unfold Coordinator.onAbortTaskDone
  split
  · next hhere =>
    refine h.shrinks ⟨requestsShrink_refl rfl, fun _ _ h => h, fun _ _ h => h, fun _ => rfl, rfl⟩
      h.holdsFuture h.holdsQueue h.awaits (fun _ _ _ hq => hq) ?_
    intro t' task' ht' hf'
    obtain ⟨ha, ho⟩ := h.task t' task' ht' hf'
    refine ⟨?_, ho⟩
    -- an unfinished task under this id would be the one in the table, which is finished
    have hne : task'.requestId ≠ task.requestId := by
      intro he
      rw [he, hhere] at ha
      cases ha
      rw [ht] at ht'
      cases ht'
      rw [hf] at hf'
      cases hf'
    simp only
    rw [Dict.get?_pop_ne _ hne]
    exact ha
  · exact h

/-! ### Admission -/

theorem reserved_eq_false (h : requestIdIsReserved s r = false) :
    s.requests.get? r = none ∧ s.completionFutures.get? r = none ∧ s.streamQueues.get? r = none ∧
      s.abortTasks.get? r = none := by
  simpa [requestIdIsReserved, Dict.contains, and_assoc] using h

theorem resolveTerminalStages_subset {answer : Resolution}
    (h : resolveTerminalStages g answer = .ok stages) : stages ⊆ g.terminalStages := by
  unfold resolveTerminalStages at h
  split at h
  · cases h
    exact Finset.Subset.refl _
  · cases answer with
    | unspecified =>
      cases h
      exact Finset.Subset.refl _
    | notASequence => cases h
    | notNames => cases h
    | names l =>
      simp only at h
      split_ifs at h with hempty hunknown
      cases h
      exact Finset.sdiff_eq_empty_iff_subset.mp (not_not.mp hunknown)

/-- An admitted request finds its id free and gets a set of configured terminals. -/
theorem admission_ok {answer : Resolution} {bind : String → Nat → Int} (h : admission g s r answer bind = .ok stages) :
    s.fatalError = none ∧ requestIdIsReserved s r = false ∧ stages ⊆ g.terminalStages := by
  unfold admission at h
  split at h
  · cases h
  · next hfatal =>
    split_ifs at h with hres hcap
    split at h
    · cases h
    · split at h
      · cases h
      · split_ifs at h with hentry
        exact ⟨hfatal, by simpa using hres, resolveTerminalStages_subset h⟩

/-- The state right after an admission. -/
structure Admitted (g : Config) (s s' : State ρ) (kind : Kind) (r : String) (stages : Finset String) :
    Prop where
  requests : s'.requests = s.requests.set r
    { state := .pending, currentStage := some g.entryStage, terminalStages := some stages,
      incarnation := s.nextCall }
  completionFutures : s'.completionFutures = s.completionFutures.set r s.nextCall
  streamQueues : s'.streamQueues =
    if kind = .stream then s.streamQueues.set r s.nextCall else s.streamQueues
  abortTasks : s'.abortTasks = s.abortTasks
  partialResults : s'.partialResults = s.partialResults
  futures : s'.futures = Function.update s.futures s.nextCall .pending
  queues : s'.queues = Function.update s.queues s.nextCall []
  calls : s'.calls = Function.update s.calls s.nextCall
    (some { requestId := r, kind := kind, resolved := stages })
  nextCall : s'.nextCall = s.nextCall + 1
  tasks : s'.tasks = s.tasks
  loop : s'.loop = s.loop
  free : requestIdIsReserved s r = false
  subset : stages ⊆ g.terminalStages

/-- A call is rejected and changes nothing, or it is admitted. -/
theorem step_call (g : Config) (s : State ρ) (kind : Kind) (r : String) (answer : Resolution)
    (bind : String → Nat → Int) :
    step g s (.call kind r answer bind) = s ∨
      ∃ stages, Admitted g s (step g s (.call kind r answer bind)) kind r stages := by
  simp only [step, submitRequest]
  cases h : admission g s r answer bind with
  | error e => exact .inl rfl
  | ok stages =>
    obtain ⟨_, hfree, hsub⟩ := admission_ok h
    exact .inr ⟨stages, rfl, rfl, rfl, rfl, rfl, rfl, rfl, rfl, rfl, rfl, rfl, hfree, hsub⟩

theorem Admitted.owned_ne {x : String} {n : Nat}
    (h : Admitted g s s' kind r stages) (hx : x ≠ r) (ho : Owned s x n) : Owned s' x n where
  request info hi := by
    rw [h.requests, Dict.get?_set_ne _ _ hx] at hi
    exact ho.request info hi
  future f hf := by
    rw [h.completionFutures, Dict.get?_set_ne _ _ hx] at hf
    exact ho.future f hf
  queue q hq := by
    rw [h.streamQueues] at hq
    split at hq
    · rw [Dict.get?_set_ne _ _ hx] at hq
      exact ho.queue q hq
    · exact ho.queue q hq

theorem Admitted.owned_self (h : Admitted g s s' kind r stages) : Owned s' r s.nextCall where
  request info hi := by
    rw [h.requests, Dict.get?_set_self] at hi
    cases hi
    rfl
  future f hf := by
    rw [h.completionFutures, Dict.get?_set_self] at hf
    exact (Option.some.inj hf).symm
  queue q hq := by
    rw [h.streamQueues] at hq
    split at hq
    · rw [Dict.get?_set_self] at hq
      exact (Option.some.inj hq).symm
    · rw [(reserved_eq_false h.free).2.2.1] at hq
      cases hq

/-- The calls after an admission: the new one, under a number that was not in use. -/
theorem Admitted.call_cases
    (h : Admitted g s s' kind r stages) {call : Call} (hc : s'.calls c = some call) :
    (c = s.nextCall ∧ call = { requestId := r, kind := kind, resolved := stages }) ∨
      (c ≠ s.nextCall ∧ s.calls c = some call) := by
  rw [h.calls, Function.update_apply] at hc
  split at hc
  · next he => exact .inl ⟨he, (Option.some.inj hc).symm⟩
  · next he => exact .inr ⟨he, hc⟩

theorem Admitted.call_keeps (ht : Tables g s)
    (h : Admitted g s s' kind r stages) {call : Call} (hc : s.calls c = some call) :
    s'.calls c = some call := by
  have hne : c ≠ s.nextCall := by
    intro he
    rw [ht.fresh c (by omega)] at hc
    cases hc
  rw [h.calls, Function.update_of_ne hne]
  exact hc

theorem Tables.admitted (ht : Tables g s) (h : Admitted g s s' kind r stages) : Tables g s' := by
  obtain ⟨_, hfuture, hqueue, habort⟩ := reserved_eq_false h.free
  have hself : s'.calls s.nextCall = some { requestId := r, kind := kind, resolved := stages } := by
    rw [h.calls, Function.update_self]
  -- a call that goes on holds a future, and there is none under the admitted id
  have hother : ∀ c call, s.calls c = some call → call.phase ≠ .done → call.requestId ≠ r := by
    intro c call hc hp he
    have hf := ht.holdsFuture c call hc hp
    rw [he, hfuture] at hf
    cases hf
  refine ⟨?_, ?_, ?_, ?_, ?_, ?_, ?_, ?_, ?_, ?_, ?_⟩
  case refine_1 =>
    intro x
    by_cases hx : x = r
    · exact ⟨s.nextCall, hx ▸ h.owned_self⟩
    · exact (ht.owned x).imp fun _ => h.owned_ne hx
  case refine_2 =>
    intro x info hi
    rw [h.requests, Dict.get?_set] at hi
    split at hi
    · next hx =>
      cases hi
      exact ⟨_, hself, hx.symm, rfl⟩
    · obtain ⟨call, hc, hid, hres⟩ := ht.request x info hi
      exact ⟨call, h.call_keeps ht hc, hid, hres⟩
  case refine_3 =>
    intro x f hf
    rw [h.completionFutures, Dict.get?_set] at hf
    split at hf
    · next hx =>
      cases hf
      exact ⟨_, hself, hx.symm⟩
    · obtain ⟨call, hc, hid⟩ := ht.future x f hf
      exact ⟨call, h.call_keeps ht hc, hid⟩
  case refine_4 =>
    intro x q hq
    rw [h.streamQueues] at hq
    split at hq
    · next hk =>
      rw [Dict.get?_set] at hq
      split at hq
      · next hx =>
        cases hq
        exact ⟨_, hself, hx.symm, hk⟩
      · obtain ⟨call, hc, hid, hk⟩ := ht.queue x q hq
        exact ⟨call, h.call_keeps ht hc, hid, hk⟩
    · obtain ⟨call, hc, hid, hk⟩ := ht.queue x q hq
      exact ⟨call, h.call_keeps ht hc, hid, hk⟩
  case refine_5 =>
    intro c call hc
    obtain ⟨_, rfl⟩ | ⟨_, hc⟩ := h.call_cases hc
    · exact h.subset
    · exact ht.resolved c call hc
  case refine_6 =>
    intro c hc
    rw [h.nextCall] at hc
    rw [h.calls, Function.update_of_ne (by omega)]
    exact ht.fresh c (by omega)
  case refine_7 =>
    intro c call hc hp
    rw [h.completionFutures]
    obtain ⟨rfl, rfl⟩ | ⟨_, hc⟩ := h.call_cases hc
    · exact Dict.get?_set_self ..
    · rw [Dict.get?_set_ne _ _ (hother c call hc hp)]
      exact ht.holdsFuture c call hc hp
  case refine_8 =>
    intro c call hc hp hk
    rw [h.streamQueues]
    obtain ⟨rfl, rfl⟩ | ⟨_, hc⟩ := h.call_cases hc
    · rw [if_pos hk]
      exact Dict.get?_set_self ..
    · have hkeep := ht.holdsQueue c call hc hp hk
      split
      · rw [Dict.get?_set_ne _ _ (hother c call hc hp)]
        exact hkeep
      · exact hkeep
  case refine_9 =>
    intro c call f hc hp
    obtain ⟨_, rfl⟩ | ⟨_, hc⟩ := h.call_cases hc
    · cases hp
    · exact ht.awaits c call f hc hp
  case refine_10 =>
    intro x f call hf hc hk
    rw [h.completionFutures, Dict.get?_set] at hf
    rw [h.streamQueues]
    split at hf
    · next hx =>
      cases hf
      rw [hself] at hc
      cases hc
      rw [if_pos hk, hx, Dict.get?_set_self]
    · next hx =>
      have hcall : s.calls f = some call := by
        obtain ⟨call', hc', _⟩ := ht.future x f hf
        rw [h.call_keeps ht hc'] at hc
        rw [hc', hc]
      have hq := ht.paired x f call hf hcall hk
      split
      · rw [Dict.get?_set_ne _ _ hx]
        exact hq
      · exact hq
  case refine_11 =>
    intro t task hk hf
    rw [h.tasks] at hk
    obtain ⟨ha, ho⟩ := ht.task t task hk hf
    rw [h.abortTasks]
    refine ⟨ha, h.owned_ne ?_ ho⟩
    intro he
    rw [he, habort] at ha
    cases ha

/-! ### Every run -/

theorem tables_create (g : Config) : Tables g (State.create ρ) where
  owned _ := ⟨0, (fun _ h => nomatch h), (fun _ h => nomatch h), (fun _ h => nomatch h)⟩
  request _ _ h := nomatch h
  future _ _ h := nomatch h
  queue _ _ h := nomatch h
  resolved _ _ h := nomatch h
  fresh _ _ := rfl
  holdsFuture _ _ h := nomatch h
  holdsQueue _ _ h := nomatch h
  awaits _ _ _ h := nomatch h
  paired _ _ _ h := nomatch h
  task _ _ h := nomatch h

/-! ### The steps -/

theorem loop_idle {l : Loop ρ} (h : l.isIdle = true) : l = .idle := by
  cases l with
  | idle => rfl
  | failing msg n => cases h
  | stopped => cases h

/-- The steps of the coordinator, each with what has to be there for it. -/
inductive Fires (g : Config) (s : State ρ) : Event ρ → State ρ → Prop where
  | call (kind : Kind) (r : String) (answer : Resolution) (bind : String → Nat → Int) (stages : Finset String)
      (s' : State ρ) (admitted : Admitted g s s' kind r stages) : Fires g s (.call kind r answer bind) s'
  | submitted (c : Nat) (call : Call) (here : s.calls c = some call) (phase : call.phase = .submitting) :
    Fires g s (.submitted c) (submitted g s c call)
  | submitFailed (c : Nat) (call : Call) (here : s.calls c = some call) (phase : call.phase = .submitting) :
    Fires g s (.submitFailed c) (submitFailed s c call)
  | ownerWakes (c : Nat) (call : Call) (here : s.calls c = some call) : Fires g s (.ownerWakes c) (ownerWakes s c call)
  | ownerCancelled (c : Nat) (call : Call) (here : s.calls c = some call) :
    Fires g s (.ownerCancelled c) (ownerCancelled s call)
  | streamNext (c : Nat) (call : Call) (here : s.calls c = some call) (phase : call.phase = .streaming) :
    Fires g s (.streamNext c) (streamNext g s c call)
  | streamClosed (c : Nat) (call : Call) (here : s.calls c = some call) (phase : call.phase = .streaming) :
    Fires g s (.streamClosed c) (closeStream s c { call with exit := some .closed })
  | streamCleanup (c : Nat) (call : Call) (here : s.calls c = some call) (phase : call.phase = .aborting) :
    Fires g s (.streamCleanup c) (releaseStream s c call)
  | abort (r : String) : Fires g s (.abort r) (abort s r).1
  | abortResumed (t : Nat) (task : AbortTask) (here : s.tasks t = some task) (runs : task.finished = false) :
    Fires g s (.abortResumed t) (runAbort (finishTask s t task) task.requestId)
  | abortFailed (t : Nat) (task : AbortTask) (here : s.tasks t = some task) (runs : task.finished = false) :
    Fires g s (.abortFailed t) (finishTask s t task)
  | abortCallback (t : Nat) (task : AbortTask) (here : s.tasks t = some task) (ended : task.finished = true) :
    Fires g s (.abortCallback t) (onAbortTaskDone s task.requestId t)
  | completed (msg : CompleteMessage ρ) (idle : s.loop = .idle) : Fires g s (.completed msg) (handleCompletion g s msg)
  | failureResumed (msg : CompleteMessage ρ) (n : Nat) (failing : s.loop = .failing msg n) :
    Fires g s .failureResumed { failRequest s msg with loop := .idle }
  | failureFailed (msg : CompleteMessage ρ) (n : Nat) (failing : s.loop = .failing msg n) :
    Fires g s .failureFailed { s with loop := .stopped }
  | streamed (msg : StreamMessage ρ) (idle : s.loop = .idle) : Fires g s (.streamed msg) (handleStream g s msg)
  | failPending (message : String) : Fires g s (.failPending message) (failPendingRequests s message)

/-- An event takes one of the steps, or changes nothing. -/
theorem step_rule {e : Event ρ} {P : State ρ → Prop} (same : P s) (fires : ∀ s', Fires g s e s' → P s') :
    P (step g s e) := by
  cases e with
  | call kind r answer bind =>
    rcases step_call g s kind r answer bind with heq | ⟨stages, ha⟩
    · rw [heq]
      exact same
    · exact fires _ (.call kind r answer bind stages _ ha)
  | submitted c =>
    simp only [step]
    exact onCall_cases same fun call hc hp => fires _ (.submitted c call hc (of_decide_eq_true hp))
  | submitFailed c =>
    simp only [step]
    exact onCall_cases same fun call hc hp => fires _ (.submitFailed c call hc (of_decide_eq_true hp))
  | ownerWakes c =>
    simp only [step]
    exact onCall_cases same fun call hc _ => fires _ (.ownerWakes c call hc)
  | ownerCancelled c =>
    simp only [step]
    exact onCall_cases same fun call hc _ => fires _ (.ownerCancelled c call hc)
  | streamNext c =>
    simp only [step]
    exact onCall_cases same fun call hc hp => fires _ (.streamNext c call hc (of_decide_eq_true hp))
  | streamClosed c =>
    simp only [step]
    exact onCall_cases same fun call hc hp => fires _ (.streamClosed c call hc (of_decide_eq_true hp))
  | streamCleanup c =>
    simp only [step]
    exact onCall_cases same fun call hc hp => fires _ (.streamCleanup c call hc (of_decide_eq_true hp))
  | abort r => exact fires _ (.abort r)
  | abortResumed t =>
    simp only [step]
    exact onTask_cases same fun task ht hf => fires _ (.abortResumed t task ht hf)
  | abortFailed t =>
    simp only [step]
    exact onTask_cases same fun task ht hf => fires _ (.abortFailed t task ht hf)
  | abortCallback t =>
    simp only [step]
    exact onTask_cases same fun task ht hf => fires _ (.abortCallback t task ht hf)
  | completed msg =>
    simp only [step]
    split
    · next hidle => exact fires _ (.completed msg (loop_idle hidle))
    · exact same
  | failureResumed =>
    simp only [step]
    split
    · next msg n hloop => exact fires _ (.failureResumed msg n hloop)
    · exact same
  | failureFailed =>
    simp only [step]
    split
    · next msg n hloop => exact fires _ (.failureFailed msg n hloop)
    · exact same
  | streamed msg =>
    simp only [step]
    split
    · next hidle => exact fires _ (.streamed msg (loop_idle hidle))
    · exact same
  | failPending message => exact fires _ (.failPending message)

theorem tables_step (h : Tables g s) (e : Event ρ) : Tables g (step g s e) := by
  refine step_rule h fun s' hf => ?_
  cases hf with
  | call _ _ _ _ _ _ ha => exact h.admitted ha
  | submitted c call hc hp => exact h.submitted hc hp
  | submitFailed c call hc hp => exact h.submitFailed hc hp
  | ownerWakes c call hc => exact h.ownerWakes hc
  | ownerCancelled c call _ => exact h.ownerCancelled call
  | streamNext c call hc hp => exact h.streamNext hc hp
  | streamClosed c call hc hp => exact h.closeStream ⟨hc, rfl, rfl, rfl⟩ (by simp [hp])
  | streamCleanup c call hc hp => exact h.releaseStream ⟨hc, rfl, rfl, rfl⟩ (by simp [hp])
  | abort r => exact h.abort r
  | abortResumed t task _ _ => exact (h.finishTask t task).held (held_runAbort ..) (requestsShrink_runAbort _ _)
  | abortFailed t task _ _ => exact h.finishTask t task
  | abortCallback t task ht hf => exact h.onAbortTaskDone ht hf
  | completed msg _ => exact h.held (held_handleCompletion ..) (requestsShrink_handleCompletion _ _ _)
  | failureResumed msg _ _ =>
    exact h.held ⟨rfl, rfl, rfl, rfl, rfl, rfl, rfl⟩ (requestsShrink_pop msg.requestId rfl rfl)
  | failureFailed | streamed => exact h.held ⟨rfl, rfl, rfl, rfl, rfl, rfl, rfl⟩ (requestsShrink_refl rfl)
  | failPending message => exact h.held (held_failPending s message) (requestsShrink_failPending s message)

/-! ### What a step can do -/

theorem Moves.shrinks {call : Call} (h : Moves s c call call') :
    Shrinks s (s.setCall c call') :=
  ⟨requestsShrink_refl rfl, fun _ _ h => h, fun _ _ h => h, h.call, rfl⟩

theorem shrinks_releaseStream {call : Call} (h : Moves s c call call') :
    Shrinks s (releaseStream s c call') := by
  have hmove : Shrinks s (s.setCall c { call' with phase := .done }) :=
    Moves.shrinks ⟨h.here, h.requestId, h.kind, h.resolved⟩
  have hpop : ∀ (d : Dict String Nat) (r x : String) (n : Nat), (d.pop r).get? x = some n →
      d.get? x = some n := by
    intro d r x n hx
    rw [Dict.get?_pop] at hx
    split at hx
    · cases hx
    · exact hx
  unfold releaseStream
  simp only
  split
  · exact hmove.trans ⟨requestsShrink_refl rfl, hpop _ _, hpop _ _, fun _ => rfl, rfl⟩
  · exact hmove

theorem shrinks_abort (s : State ρ) (r : String) : Shrinks s (abort s r).1 := by
  unfold abort
  split
  · exact .refl s
  · split
    · exact .refl s
    · split
      · exact .refl s
      · exact ⟨requestsShrink_refl rfl, fun _ _ h => h, fun _ _ h => h, fun _ => rfl, rfl⟩

theorem shrinks_closeStream {call : Call} (h : Moves s c call call') :
    Shrinks s (closeStream s c call') := by
  unfold closeStream
  split
  · have h' : Moves (abort s call'.requestId).1 c call call' :=
      ⟨by rw [abort_calls]; exact h.here, h.requestId, h.kind, h.resolved⟩
    simp only
    split
    · exact (shrinks_abort s _).trans (Moves.shrinks ⟨h'.here, h.requestId, h.kind, h.resolved⟩)
    · exact (shrinks_abort s _).trans (shrinks_releaseStream h')
  · exact shrinks_releaseStream h

theorem shrinks_submitted {call : Call} (hc : s.calls c = some call) :
    Shrinks s (submitted g s c call) := by
  have hmark : Shrinks s (markRunning s call.requestId) :=
    Held.shrinks ⟨rfl, rfl, rfl, rfl, rfl, rfl, rfl⟩ (requestsShrink_markRunning s _)
  have hmove : ∀ call', Moves (markRunning s call.requestId) c call call' →
      Shrinks s ((markRunning s call.requestId).setCall c call') :=
    fun _ hm => hmark.trans hm.shrinks
  unfold submitted
  simp only
  split
  · split
    · exact hmove _ ⟨hc, rfl, rfl, rfl⟩
    · exact hmove _ ⟨hc, rfl, rfl, rfl⟩
  · exact hmove _ ⟨hc, rfl, rfl, rfl⟩

theorem shrinks_ownerWakes {call : Call} (hc : s.calls c = some call) :
    Shrinks s (ownerWakes s c call) := by
  unfold ownerWakes
  split
  · split
    · have hm : Moves s c call { call with phase := .done } := ⟨hc, rfl, rfl, rfl⟩
      refine hm.shrinks.trans ⟨requestsShrink_refl rfl, ?_, fun _ _ h => h, fun _ => rfl, rfl⟩
      intro r f hf
      simp only [Dict.get?_pop] at hf
      split at hf
      · cases hf
      · exact hf
    · exact .refl s
  · exact .refl s

theorem shrinks_streamNext {call : Call} (hc : s.calls c = some call) :
    Shrinks s (streamNext g s c call) := by
  unfold streamNext
  split
  · exact .refl s
  · exact Moves.shrinks ⟨hc, rfl, rfl, rfl⟩
  · simp only
    split_ifs
    · exact shrinks_closeStream ⟨hc, rfl, rfl, rfl⟩
    · exact shrinks_closeStream ⟨hc, rfl, rfl, rfl⟩
    · exact Moves.shrinks ⟨hc, rfl, rfl, rfl⟩

/-- A step that is not a call only removes entries. -/
theorem step_shrinks (g : Config) (s : State ρ) (e : Event ρ)
    (h : ∀ kind r answer bind, e ≠ .call kind r answer bind) : Shrinks s (step g s e) := by
  refine step_rule (.refl s) fun s' hf => ?_
  cases hf with
  | call kind r answer bind => exact absurd rfl (h kind r answer bind)
  | submitted c call hc _ => exact shrinks_submitted hc
  | submitFailed c call hc _ =>
    unfold submitFailed
    split
    · exact Moves.shrinks ⟨hc, rfl, rfl, rfl⟩
    · exact shrinks_closeStream ⟨hc, rfl, rfl, rfl⟩
  | ownerWakes c call hc => exact shrinks_ownerWakes hc
  | ownerCancelled c call _ =>
    unfold ownerCancelled
    split
    · split
      · exact .refl s
      · exact Held.shrinks ⟨rfl, rfl, rfl, rfl, rfl, rfl, rfl⟩ (requestsShrink_refl rfl)
    · exact .refl s
  | streamNext c call hc _ => exact shrinks_streamNext hc
  | streamClosed c call hc _ => exact shrinks_closeStream ⟨hc, rfl, rfl, rfl⟩
  | streamCleanup c call hc _ => exact shrinks_releaseStream ⟨hc, rfl, rfl, rfl⟩
  | abort r => exact shrinks_abort s r
  | abortResumed t task _ _ =>
    have hfinish : Shrinks s (finishTask s t task) :=
      ⟨requestsShrink_refl rfl, fun _ _ h => h, fun _ _ h => h, fun _ => rfl, rfl⟩
    exact hfinish.trans ((held_runAbort _ _).shrinks (requestsShrink_runAbort _ _))
  | abortFailed t task _ _ => exact ⟨requestsShrink_refl rfl, fun _ _ h => h, fun _ _ h => h, fun _ => rfl, rfl⟩
  | abortCallback t task _ _ =>
    unfold onAbortTaskDone
    split
    · exact ⟨requestsShrink_refl rfl, fun _ _ h => h, fun _ _ h => h, fun _ => rfl, rfl⟩
    · exact .refl s
  | completed msg _ => exact (held_handleCompletion ..).shrinks (requestsShrink_handleCompletion _ _ _)
  | failureResumed msg _ _ =>
    exact Held.shrinks ⟨rfl, rfl, rfl, rfl, rfl, rfl, rfl⟩ (requestsShrink_pop msg.requestId rfl rfl)
  | failureFailed | streamed => exact Held.shrinks ⟨rfl, rfl, rfl, rfl, rfl, rfl, rfl⟩ (requestsShrink_refl rfl)
  | failPending message => exact (held_failPending s message).shrinks (requestsShrink_failPending s message)

/-! ### Owner steps

A submit, stream or abort call on its way, and an abort task that leaves without its
broadcast, change no request but its state, and neither queues nor partial results. -/

structure OwnerStep (s s' : State ρ) : Prop where
  request : ∀ r, (s'.requests.get? r).map (fun i => (i.incarnation, i.terminalStages)) =
    (s.requests.get? r).map (fun i => (i.incarnation, i.terminalStages))
  partialResults : s'.partialResults = s.partialResults
  queues : s'.queues = s.queues
  loop : s'.loop = s.loop

namespace OwnerStep

theorem of_eq (hr : s'.requests = s.requests) (hp : s'.partialResults = s.partialResults)
    (hq : s'.queues = s.queues) (hl : s'.loop = s.loop) : OwnerStep s s' :=
  ⟨fun _ => by rw [hr], hp, hq, hl⟩

theorem trans {t : State ρ} (h : OwnerStep s s') (h' : OwnerStep s' t) : OwnerStep s t :=
  ⟨fun r => (h'.request r).trans (h.request r), h'.partialResults.trans h.partialResults,
    h'.queues.trans h.queues, h'.loop.trans h.loop⟩

theorem releaseStream (s : State ρ) (c : Nat) (call : Call) : OwnerStep s (releaseStream s c call) := by
  simp only [Coordinator.releaseStream]
  split <;> exact of_eq rfl rfl rfl rfl

theorem abort (s : State ρ) (r : String) : OwnerStep s (abort s r).1 := by
  unfold Coordinator.abort
  split
  · exact of_eq rfl rfl rfl rfl
  · split
    · exact of_eq rfl rfl rfl rfl
    · split <;> exact of_eq rfl rfl rfl rfl

theorem closeStream (s : State ρ) (c : Nat) (call : Call) : OwnerStep s (closeStream s c call) := by
  simp only [Coordinator.closeStream]
  split
  · split
    · exact (abort s call.requestId).trans (of_eq rfl rfl rfl rfl)
    · exact (abort s call.requestId).trans (releaseStream _ _ _)
  · exact releaseStream s c call

theorem markRunning (s : State ρ) (r : String) : OwnerStep s (markRunning s r) := by
  refine ⟨fun x => ?_, rfl, rfl, rfl⟩
  simp only [Coordinator.markRunning]
  cases h : s.requests.get? r with
  | none => rfl
  | some info =>
    simp only [Dict.get?_set]
    split
    · next hx => simp [hx, h]
    · rfl

theorem submitted (s : State ρ) (c : Nat) (call : Call) : OwnerStep s (submitted g s c call) := by
  simp only [Coordinator.submitted]
  split
  · split <;> exact (markRunning s _).trans (of_eq rfl rfl rfl rfl)
  · exact (markRunning s _).trans (of_eq rfl rfl rfl rfl)

theorem submitFailed (s : State ρ) (c : Nat) (call : Call) : OwnerStep s (submitFailed s c call) := by
  unfold Coordinator.submitFailed
  split
  · exact of_eq rfl rfl rfl rfl
  · exact closeStream s c _

theorem streamNext (s : State ρ) (c : Nat) (call : Call) : OwnerStep s (streamNext g s c call) := by
  unfold Coordinator.streamNext
  split
  · exact of_eq rfl rfl rfl rfl
  · exact of_eq rfl rfl rfl rfl
  · simp only
    split_ifs
    · exact closeStream s c _
    · exact closeStream s c _
    · exact of_eq rfl rfl rfl rfl

theorem ownerWakes (s : State ρ) (c : Nat) (call : Call) : OwnerStep s (ownerWakes s c call) := by
  unfold Coordinator.ownerWakes
  split
  · split <;> exact of_eq rfl rfl rfl rfl
  · exact of_eq rfl rfl rfl rfl

theorem ownerCancelled (s : State ρ) (call : Call) : OwnerStep s (ownerCancelled s call) := by
  unfold Coordinator.ownerCancelled
  split
  · split <;> exact of_eq rfl rfl rfl rfl
  · exact of_eq rfl rfl rfl rfl

theorem onAbortTaskDone (s : State ρ) (r : String) (t : Nat) : OwnerStep s (onAbortTaskDone s r t) := by
  unfold Coordinator.onAbortTaskDone
  split <;> exact of_eq rfl rfl rfl rfl

end OwnerStep

def Event.byOwner : Event ρ → Bool
  | .submitted _ | .submitFailed _ | .ownerWakes _ | .ownerCancelled _ | .streamNext _
  | .streamClosed _ | .streamCleanup _ | .abort _ | .abortFailed _ | .abortCallback _ => true
  | _ => false

theorem step_byOwner (g : Config) (s : State ρ) {e : Event ρ} (h : e.byOwner = true) :
    OwnerStep s (step g s e) := by
  refine step_rule (.of_eq rfl rfl rfl rfl) fun s' hf => ?_
  cases hf with
  | submitted c call _ _ => exact .submitted s c call
  | submitFailed c call _ _ => exact .submitFailed s c call
  | ownerWakes c call _ => exact .ownerWakes s c call
  | ownerCancelled c call _ => exact .ownerCancelled s call
  | streamNext c call _ _ => exact .streamNext s c call
  | streamClosed c call _ _ => exact .closeStream s c _
  | streamCleanup c call _ _ => exact .releaseStream s c call
  | abort r => exact .abort s r
  | abortFailed t task _ _ => exact .of_eq rfl rfl rfl rfl
  | abortCallback t task _ _ => exact .onAbortTaskDone s _ t
  | _ => cases h

theorem tables_run (g : Config) (history : List (Event ρ)) :
    Tables g (run (step g) (State.create ρ) history) :=
  run_invariant (tables_create g) (fun _ e h => tables_step h e) history

/-- **One incarnation under an id.** In every state that a run reaches, whatever the tables hold under a request id
belongs to one call, and no two calls that have not ended were admitted under the same id. -/
theorem one_incarnation (g : Config) (history : List (Event ρ)) :
    let s := run (step g) (State.create ρ) history
    (∀ r, ∃ n, Owned s r n) ∧ ∀ c d a b, s.calls c = some a → s.calls d = some b → a.phase ≠ .done → b.phase ≠ .done →
      a.requestId = b.requestId → c = d := by
  have h := tables_run g history
  refine ⟨h.owned, fun c d a b hc hd ha hb hid => ?_⟩
  have hfuture := h.holdsFuture c a hc ha
  rw [hid, h.holdsFuture d b hd hb] at hfuture
  exact (Option.some.inj hfuture).symm

end SglangOmni.Pipeline.Coordinator
