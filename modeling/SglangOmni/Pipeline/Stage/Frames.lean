import SglangOmni.Pipeline.Stage.Model

/-! What a step of a stage can touch.

Whatever comes in from outside (messages, receive tasks, local calls, failure reports,
aborts) is about one request: the entries of the others stay, and so do the drain and its
sends. A tombstone keeps the request's own entry as it is, until it is cleared. A send of
the drain is about one request too, and what it records about its targets leaves the
request's bindings and its activity alone. -/
namespace SglangOmni.Pipeline.Stage
open Lib

variable {α : Type} {cfg : Config α} {s t u : State α} {r x y : String}
  {b : Option (Dict String Int)} {task : Task α} {i : Nat}

/-! ### Entries -/

@[simp] theorem modify_self (s : State α) (r : String) (f : Entry α → Entry α) :
    (s.modify r f).entries r = f (s.entries r) := Function.update_self ..

theorem modify_other (s : State α) (f : Entry α → Entry α) (h : y ≠ r) :
    (s.modify r f).entries y = s.entries y := Function.update_of_ne h ..

@[simp] theorem clear_self (s : State α) (r : String) : (clearRequestState s r).entries r = {} :=
  Function.update_self ..

theorem clear_other (s : State α) (h : y ≠ r) : (clearRequestState s r).entries y = s.entries y :=
  Function.update_of_ne h ..

/-! ### Handlers -/

/-- `t` differs from `s` in the entry of `r` and in what was delivered; the entry keeps
its counters, and its bindings are those of `s` with `b` recorded. -/
structure Acts (r : String) (b : Option (Dict String Int)) (s t : State α) : Prop where
  rest : t = { s with entries := t.entries, delivered := t.delivered }
  others : ∀ y, y ≠ r → t.entries y = s.entries y
  counters : (t.entries r).chunkCounters = (s.entries r).chunkCounters
  bindings : (t.entries r).replicaBindings = ((recordReplicaBindings s r b).entries r).replicaBindings

theorem Acts.refl (r : String) (s : State α) : Acts r none s s := ⟨rfl, fun _ _ => rfl, rfl, rfl⟩

theorem Acts.trans (h : Acts r b s t) (h' : Acts r none t u) : Acts r b s u where
  rest := by
    rw [h'.rest, h.rest]
  others y hy := (h'.others y hy).trans (h.others y hy)
  counters := h'.counters.trans h.counters
  bindings := h'.bindings.trans h.bindings

theorem Acts.modify (s : State α) (r : String) {f : Entry α → Entry α}
    (hc : (f (s.entries r)).chunkCounters = (s.entries r).chunkCounters)
    (hb : (f (s.entries r)).replicaBindings = (s.entries r).replicaBindings) : Acts r none s (s.modify r f) where
  rest := rfl
  others _ hy := modify_other s f hy
  counters := by rw [modify_self]; exact hc
  bindings := by rw [modify_self]; exact hb

theorem Acts.deliver (s : State α) (r : String) (d : Delivery α) : Acts r none s (s.deliver d) :=
  ⟨rfl, fun _ _ => rfl, rfl, rfl⟩

theorem Acts.record (s : State α) (r : String) (b : Option (Dict String Int)) :
    Acts r b s (recordReplicaBindings s r b) := by
  refine ⟨?_, fun y hy => ?_, ?_, rfl⟩
  all_goals
    unfold recordReplicaBindings
    split
    · rfl
    · split
      · rfl
      · first | rfl | exact modify_other _ _ hy | simp

theorem Acts.activate (s : State α) (r : String) : Acts r none s (activate s r) := Acts.modify s r rfl rfl

theorem Acts.openStream (cfg : Config α) (s : State α) (r : String) : Acts r none s (openStream cfg s r) := by
  unfold Stage.openStream
  split
  · exact Acts.modify s r rfl rfl
  · exact Acts.refl r s

theorem Acts.execute (s : State α) (r : String) (data : α) : Acts r none s (execute s r data) := by
  unfold Stage.execute
  split
  · exact Acts.refl r s
  · exact Acts.deliver s r _

section
variable (cfg s)

theorem Acts.onSubmit (r : String) (data : α) (hr : r ∉ s.aborted) :
    Acts r b s (onSubmit cfg s r data b) := by
  unfold Stage.onSubmit
  rw [if_neg hr]
  exact (((Acts.record s r b).trans (Acts.activate _ r)).trans (Acts.openStream cfg _ r)).trans
    (Acts.execute _ r data)

theorem Acts.openPrePayload (r : String) :
    Acts r none s (openPrePayloadStreamIfAllowed cfg s r).1 := by
  unfold openPrePayloadStreamIfAllowed
  split
  · exact Acts.refl r s
  · split
    · exact Acts.refl r s
    · split
      · exact Acts.refl r s
      · dsimp only
        apply Acts.modify <;> rfl

theorem Acts.routeStreamItem (r source : String) (body : Body α) :
    Acts r none s (routeStreamItemOrFail cfg s r source body).1 := by
  have hopen := Acts.openPrePayload cfg s r
  unfold routeStreamItemOrFail
  split
  · next t heq =>
    rw [heq] at hopen
    exact hopen.trans (Acts.deliver t r _)
  · next t heq =>
    rw [heq] at hopen
    exact hopen

theorem Acts.receiveStreamSignal (r source : String) (error : Bool) :
    Acts r none s (receiveStreamSignal cfg s r source error).1 := by
  have hopen := (Acts.activate s r).trans (Acts.openPrePayload cfg (Stage.activate s r) r)
  unfold Stage.receiveStreamSignal
  split
  · exact Acts.refl r s
  · split
    · exact Acts.activate s r
    · split
      · next t heq =>
        rw [heq] at hopen
        exact hopen.trans (Acts.deliver t r _)
      · next t heq =>
        rw [heq] at hopen
        exact hopen

theorem Acts.receivePayload (r source : String) (data : α) :
    Acts r none s (receivePayloadFromStage cfg s r source data).1 := by
  have hopen := ((Acts.activate s r).trans (Acts.openStream cfg (Stage.activate s r) r)).trans
    (Acts.deliver _ r (.item r source (.payload data)))
  unfold receivePayloadFromStage
  split
  · exact Acts.refl r s
  · simp only
    split
    · dsimp only
      refine hopen.trans (Acts.modify _ r ?_ ?_) <;> rfl
    · dsimp only
      refine hopen.trans (Acts.modify _ r ?_ ?_) <;> rfl
    · dsimp only
      refine (hopen.trans (Acts.modify _ r ?_ ?_)).trans (Acts.execute _ r _) <;> rfl

theorem Acts.handle (task : Task α) (ok : Bool) :
    Acts task.msg.requestId none s (handle cfg s task ok).1 := by
  simp only [Stage.handle]
  split
  · exact Acts.receiveStreamSignal cfg s _ _ _
  · exact Acts.receiveStreamSignal cfg s _ _ _
  · split
    · exact Acts.refl _ s
    · split
      · exact Acts.routeStreamItem cfg s _ _ _
      · exact Acts.refl _ s
  · split
    · exact Acts.receivePayload cfg s _ _ _
    · exact Acts.refl _ s

end

/-- A tombstone stops every handler. -/
theorem receiveStreamSignal_aborted (source : String) (error : Bool) (h : r ∈ s.aborted) :
    receiveStreamSignal cfg s r source error = (s, .returns) := if_pos h

theorem receivePayload_aborted (source : String) (data : α) (h : r ∈ s.aborted) :
    receivePayloadFromStage cfg s r source data = (s, .returns) := if_pos h

theorem record_aborted (b : Option (Dict String Int)) (h : r ∈ s.aborted) :
    recordReplicaBindings s r b = s := by
  unfold recordReplicaBindings
  split
  · rfl
  · exact if_pos (.inr h)

theorem handle_aborted (ok : Bool) (h : task.msg.requestId ∈ s.aborted) :
    (handle cfg s task ok).1 = s := by
  simp only [handle]
  split
  · rw [receiveStreamSignal_aborted _ _ h]
  · rw [receiveStreamSignal_aborted _ _ h]
  · rw [if_pos h]
  · split
    · rw [receivePayload_aborted _ _ h]
    · rfl

/-! ### Steps -/

/-- Everything but the drain and its sends. -/
def Event.inbound : Event α → Bool
  | .output .. | .gatherStarts _ | .publish _ | .sendReturns _ | .sendRaises _ | .drainResumes .. => false
  | _ => true

/-- The request of a message, with the bindings it brings. -/
def Event.carries : Event α → Option (String × Option (Dict String Int))
  | .submit r _ b | .localPayload r _ _ b _ | .localStreamChunk r _ _ _ b _ | .localStreamSignal r _ _ b _ =>
    some (r, b)
  | .dataReady msg => some (msg.requestId, msg.replicaBindings)
  | _ => none

def Event.bindingsFor (e : Event α) (r : String) : Option (Dict String Int) :=
  match e.carries with
  | none => none
  | some (x, b) => if x = r then b else none

/-- A receive task of the request has not ended. -/
def InFlight (r : String) (s : State α) : Prop :=
  ∃ task ∈ s.tasks, task.msg.requestId = r ∧ task.pc ≠ .done

/-- A failure of the request is being reported. -/
def Failing (r : String) (s : State α) : Prop :=
  (∃ task ∈ s.tasks, task.msg.requestId = r ∧ task.pc = .failing) ∨ r ∈ s.failures ∨
    s.drain = .busy (.failing r)

/-- The step has a message or a task of the request to work on. -/
def Sourced (e : Event α) (r : String) (s : State α) : Prop := (∃ b, e.carries = some (r, b)) ∨ InFlight r s

/-- A step about `r` that does not clear it. -/
structure Inbound (e : Event α) (r : String) (s t : State α) : Prop where
  rest : t.drain = s.drain ∧ t.flights = s.flights ∧ t.started = s.started ∧ t.sent = s.sent ∧
    t.outputs = s.outputs ∧ t.cleared = s.cleared
  others : ∀ y, y ≠ r → t.entries y = s.entries y
  counters : (t.entries r).chunkCounters = (s.entries r).chunkCounters
  bindings : (t.entries r).replicaBindings =
    ((recordReplicaBindings s r (e.bindingsFor r)).entries r).replicaBindings
  tombstoned : r ∈ s.aborted → t.entries r = s.entries r
  active : (t.entries r).active = true → (s.entries r).active = true ∨ (r ∉ s.aborted ∧ Sourced e r s)
  tasks : ∀ y, InFlight y t → InFlight y s ∨ (y = r ∧ ∃ b, e.carries = some (y, b))
  failing : ∀ y, Failing y t → Failing y s ∨ (y = r ∧ ∃ hint, t.aborted = record 10000 5000 hint s.aborted r)
  aborted : t.aborted = s.aborted ∨ ∃ hint, t.aborted = record 10000 5000 hint s.aborted r

/-- A step that clears `r`: an abort, or the end of a failure report. -/
structure Clears (e : Event α) (r : String) (s t : State α) : Prop where
  rest : t.drain = s.drain ∧ t.flights = s.flights ∧ t.started = s.started ∧ t.sent = s.sent ∧
    t.outputs = s.outputs
  cleared : t.cleared = s.cleared ++ [r]
  entries : t.entries = Function.update s.entries r {}
  tasks : ∀ y, InFlight y t → InFlight y s
  failing : ∀ y, Failing y t → Failing y s
  aborted : (Failing r s ∧ t.aborted = s.aborted) ∨
    ∃ hint, e = .abort r hint ∧ t.aborted = record 10000 5000 hint s.aborted r

theorem mem_setTask {task' : Task α} (h : task' ∈ (s.setTask i task).tasks) :
    task' = task ∨ task' ∈ s.tasks := by
  rcases List.mem_or_eq_of_mem_set h with h | h
  · exact .inr h
  · exact .inl h

theorem inFlight_setTask {task' : Task α} (hi : s.tasks[i]? = some task)
    (hpc : task.pc ≠ .done) (hmsg : task'.msg = task.msg) (h : InFlight y (s.setTask i task')) :
    InFlight y s := by
  obtain ⟨u, hu, hy, hu'⟩ := h
  rcases mem_setTask hu with rfl | hu
  · exact ⟨task, List.mem_of_getElem? hi, hmsg ▸ hy, hpc⟩
  · exact ⟨u, hu, hy, hu'⟩

theorem failing_setTask {task' : Task α} (h : Failing y (s.setTask i task')) :
    Failing y s ∨ (task'.pc = .failing ∧ task'.msg.requestId = y) := by
  rcases h with ⟨u, hu, hy, hf⟩ | h
  · rcases mem_setTask hu with rfl | hu
    · exact .inr ⟨hf, hy⟩
    · exact .inl (.inl ⟨u, hu, hy, hf⟩)
  · exact .inl (.inr h)

/-- A step of a receive task: its handler acts on the request, and the task moves on. -/
theorem Inbound.ofTask {e : Event α} (task' : Task α)
    (hi : s.tasks[i]? = some task) (hpc : task.pc ≠ .done) (hcarries : e.carries = none)
    (hacts : Acts task.msg.requestId none s u)
    (habort : task.msg.requestId ∈ s.aborted → u.entries task.msg.requestId = s.entries task.msg.requestId)
    (hmsg : task'.msg = task.msg) {aborted : List String} {laneTails : Dict (String × String) Nat} {running : Bool}
    (hrecord : (aborted = s.aborted ∧ task'.pc ≠ .failing) ∨
      ∃ hint, aborted = record 10000 5000 hint s.aborted task.msg.requestId) :
    Inbound e task.msg.requestId s
      ({ u with aborted, laneTails, running }.setTask i task') := by
  have hnone : e.bindingsFor task.msg.requestId = none := by rw [Event.bindingsFor, hcarries]
  have htasks : u.tasks = s.tasks := by rw [hacts.rest]
  have hfailures : u.failures = s.failures := by rw [hacts.rest]
  have hdrain : u.drain = s.drain := by rw [hacts.rest]
  have hflight : InFlight task.msg.requestId s := ⟨task, List.mem_of_getElem? hi, rfl, hpc⟩
  refine ⟨?_, hacts.others, hacts.counters, ?_, habort, fun hactive => ?_, fun y hy => ?_, fun y hy => ?_, ?_⟩
  · rw [hacts.rest]
    exact ⟨rfl, rfl, rfl, rfl, rfl, rfl⟩
  · rw [hnone]
    exact hacts.bindings
  · by_cases hr : task.msg.requestId ∈ s.aborted
    · left
      rw [← habort hr]
      exact hactive
    · exact .inr ⟨hr, .inr hflight⟩
  · have hu : u.tasks[i]? = some task := by rw [htasks]; exact hi
    obtain ⟨v, hv, hy, hv'⟩ := inFlight_setTask (s := { u with aborted, laneTails, running }) hu hpc hmsg hy
    exact .inl ⟨v, htasks ▸ hv, hy, hv'⟩
  · rcases failing_setTask hy with hy | ⟨hf, rfl⟩
    · left
      rcases hy with ⟨v, hv, hy⟩ | hy | hy
      · exact .inl ⟨v, htasks ▸ hv, hy⟩
      · exact .inr (.inl (hfailures ▸ hy))
      · exact .inr (.inr (hdrain ▸ hy))
    · right
      refine ⟨by rw [hmsg], ?_⟩
      rcases hrecord with ⟨_, hne⟩ | ⟨hint, h⟩
      · exact absurd hf hne
      · exact ⟨hint, h⟩
  · rcases hrecord with ⟨h, _⟩ | h
    · exact .inl h
    · exact .inr h

/-- A message or a local call: its handler acts on the request, and may go on to report a
failure. -/
theorem Inbound.ofCall {e : Event α} (hcarries : e.carries = some (r, b)) (hacts : Acts r b s u)
    (habort : r ∈ s.aborted → u.entries r = s.entries r) {aborted failures : List String}
    (hrecord : (aborted = s.aborted ∧ failures = s.failures) ∨
      ∃ hint, aborted = record 10000 5000 hint s.aborted r ∧ failures = s.failures ++ [r]) :
    Inbound e r s { u with aborted, failures } := by
  have hbindings : e.bindingsFor r = b := by rw [Event.bindingsFor, hcarries]; exact if_pos rfl
  have htasks : u.tasks = s.tasks := by rw [hacts.rest]
  have hdrain : u.drain = s.drain := by rw [hacts.rest]
  refine ⟨?_, hacts.others, hacts.counters, ?_, habort, fun hactive => ?_, fun y hy => ?_, fun y hy => ?_, ?_⟩
  · rw [hacts.rest]
    exact ⟨rfl, rfl, rfl, rfl, rfl, rfl⟩
  · rw [hbindings]
    exact hacts.bindings
  · by_cases hr : r ∈ s.aborted
    · left
      rw [← habort hr]
      exact hactive
    · exact .inr ⟨hr, .inl ⟨b, hcarries⟩⟩
  · obtain ⟨v, hv, hy⟩ := hy
    exact .inl ⟨v, htasks ▸ hv, hy⟩
  · rcases hy with ⟨v, hv, hy⟩ | hy | hy
    · exact .inl (.inl ⟨v, htasks ▸ hv, hy⟩)
    · rcases hrecord with ⟨_, hf⟩ | ⟨hint, ha, hf⟩
      · exact .inl (.inr (.inl (hf ▸ hy)))
      · have hy : y ∈ s.failures ++ [r] := hf ▸ hy
        rw [List.mem_append, List.mem_singleton] at hy
        rcases hy with hy | rfl
        · exact .inl (.inr (.inl hy))
        · exact .inr ⟨rfl, hint, ha⟩
    · exact .inl (.inr (.inr (hdrain ▸ hy)))
  · rcases hrecord with ⟨h, _⟩ | ⟨hint, h, _⟩
    · exact .inl h
    · exact .inr ⟨hint, h⟩

theorem Inbound.ofLocalCall {e : Event α} (hcarries : e.carries = some (r, b)) {p : State α × Then}
    (hacts : Acts r b s p.1) (habort : r ∈ s.aborted → p.1.entries r = s.entries r) (hint : List String) :
    Inbound e r s (localCall r hint p) := by
  have haborted : p.1.aborted = s.aborted := by rw [hacts.rest]
  have hfailures : p.1.failures = s.failures := by rw [hacts.rest]
  obtain ⟨u, next⟩ := p
  cases next with
  | returns | raises => exact Inbound.ofCall hcarries hacts habort (.inl ⟨haborted, hfailures⟩)
  | fails =>
    refine Inbound.ofCall hcarries hacts habort (.inr ⟨hint, ?_, ?_⟩)
    · exact congrArg (fun ids => Lib.record 10000 5000 hint ids r) haborted
    · exact congrArg (fun ids => ids ++ [r]) hfailures

theorem Inbound.schedule (msg : DataReady α) :
    Inbound (.dataReady msg) msg.requestId s (scheduleReceiveTask s msg) := by
  have hacts := Acts.record s msg.requestId msg.replicaBindings
  have hcarries : (Event.dataReady msg).carries = some (msg.requestId, msg.replicaBindings) := rfl
  have htasks : (recordReplicaBindings s msg.requestId msg.replicaBindings).tasks = s.tasks := by
    rw [hacts.rest]
  have habort : msg.requestId ∈ s.aborted →
      (recordReplicaBindings s msg.requestId msg.replicaBindings).entries msg.requestId =
        s.entries msg.requestId := fun h => by rw [record_aborted _ h]
  have haborted : (recordReplicaBindings s msg.requestId msg.replicaBindings).aborted = s.aborted := by
    rw [hacts.rest]
  have hfailures : (recordReplicaBindings s msg.requestId msg.replicaBindings).failures = s.failures := by
    rw [hacts.rest]
  have hcall := Inbound.ofCall hcarries hacts habort (.inl ⟨haborted, hfailures⟩)
  refine ⟨hcall.rest, hcall.others, hcall.counters, hcall.bindings, hcall.tombstoned, hcall.active,
    fun y hy => ?_, fun y hy => ?_, hcall.aborted⟩
  · obtain ⟨v, hv, hy, hpc⟩ := hy
    simp only [scheduleReceiveTask, List.mem_append, List.mem_singleton] at hv
    rcases hv with hv | rfl
    · exact .inl ⟨v, htasks ▸ hv, hy, hpc⟩
    · exact .inr ⟨hy.symm, _, by rw [← hy]; rfl⟩
  · refine hcall.failing y ?_
    rcases hy with ⟨v, hv, hy, hpc⟩ | hy
    · simp only [scheduleReceiveTask, List.mem_append, List.mem_singleton] at hv
      rcases hv with hv | rfl
      · exact .inl ⟨v, hv, hy, hpc⟩
      · cases hpc
    · exact .inr hy

theorem taskStarts_inbound (ok : Bool) (hi : s.tasks[i]? = some task) (hpc : task.pc = .created) :
    Inbound (.taskStarts i ok) task.msg.requestId s (taskStarts s i task ok) := by
  have hlive : task.pc ≠ .done := by simp [hpc]
  -- the task moves on, with or without an activation
  have hgo : ∀ task' : Task α, task'.msg = task.msg → task'.pc ≠ .failing →
      Inbound (.taskStarts i ok) task.msg.requestId s (s.setTask i task') :=
    fun task' hmsg hne =>
      Inbound.ofTask task' hi hlive rfl (Acts.refl _ s) (fun _ => rfl) hmsg (.inl ⟨rfl, hne⟩)
  have hact : task.msg.requestId ∉ s.aborted → ∀ task' : Task α, task'.msg = task.msg →
      task'.pc ≠ .failing →
      Inbound (.taskStarts i ok) task.msg.requestId s ((activate s task.msg.requestId).setTask i task') :=
    fun hr task' hmsg hne =>
      Inbound.ofTask task' hi hlive rfl (Acts.activate s _) (fun h => absurd h hr) hmsg (.inl ⟨rfl, hne⟩)
  simp only [taskStarts]
  split
  · exact hgo _ rfl (by simp)
  · exact hgo _ rfl (by simp)
  · split
    · split
      · exact hgo _ rfl (by simp)
      · split <;> exact hgo _ rfl (by simp)
      · split <;> exact hgo _ rfl (by simp)
    · next hr =>
      split
      · exact hact hr _ rfl (by simp)
      · exact hact hr _ rfl (by simp)
      · split <;> exact hact hr _ rfl (by simp)
  · split
    · split
      · split <;> exact hgo _ rfl (by simp)
      · split <;> exact hgo _ rfl (by simp)
      · split <;> exact hgo _ rfl (by simp)
    · split
      · exact hgo _ rfl (by simp)
      · split <;> exact hgo _ rfl (by simp)
      · split <;> exact hgo _ rfl (by simp)

theorem taskResumes_inbound (ok : Bool) (hi : s.tasks[i]? = some task) :
    taskResumes s i task ok = s ∨
    Inbound (.taskResumes i ok) task.msg.requestId s (taskResumes s i task ok) ∨
    Clears (.taskResumes i ok) task.msg.requestId s (taskResumes s i task ok) := by
  have hgo : task.pc ≠ .done → ∀ task' : Task α, task'.msg = task.msg → task'.pc ≠ .failing →
      Inbound (.taskResumes i ok) task.msg.requestId s (s.setTask i task') :=
    fun hlive task' hmsg hne =>
      Inbound.ofTask task' hi hlive rfl (Acts.refl _ s) (fun _ => rfl) hmsg (.inl ⟨rfl, hne⟩)
  unfold taskResumes
  split
  · next hpc => exact .inr (.inl (hgo (by simp [hpc]) _ rfl (by simp)))
  · next hpc =>
    right; left
    split
    · exact hgo (by simp [hpc]) _ rfl (by simp)
    · split <;> exact hgo (by simp [hpc]) _ rfl (by simp)
  · next hpc =>
    right
    split
    · right
      refine ⟨⟨rfl, rfl, rfl, rfl, rfl⟩, rfl, rfl, fun y hy => ?_, fun y hy => ?_, .inl ⟨?_, rfl⟩⟩
      · have hmsg : ({ task with pc := .finishing } : Task α).msg = task.msg := rfl
        exact inFlight_setTask (s := clearRequestState s task.msg.requestId) hi (by simp [hpc]) hmsg hy
      · rcases failing_setTask hy with hy | ⟨hf, _⟩
        · exact hy
        · cases hf
      · exact .inl ⟨task, List.mem_of_getElem? hi, rfl, hpc⟩
    · exact .inl (hgo (by simp [hpc]) _ rfl (by simp))
  all_goals exact .inl rfl

theorem taskProceeds_inbound (hint : List String) (hi : s.tasks[i]? = some task) :
    taskProceeds cfg s i task hint = s ∨
    Inbound (.taskProceeds i hint) task.msg.requestId s (taskProceeds cfg s i task hint) := by
  unfold taskProceeds
  split
  · next ok hpc =>
    right
    have hlive : task.pc ≠ .done := by simp [hpc]
    have hacts := Acts.handle cfg s task ok
    have habort : task.msg.requestId ∈ s.aborted →
        (handle cfg s task ok).1.entries task.msg.requestId = s.entries task.msg.requestId :=
      fun h => by rw [handle_aborted ok h]
    have haborted : (handle cfg s task ok).1.aborted = s.aborted := by rw [hacts.rest]
    split
    · next u heq =>
      rw [heq] at hacts habort haborted
      exact Inbound.ofTask { task with pc := .finishing } hi hlive rfl hacts habort rfl
        (.inl ⟨haborted, by simp⟩)
    · next u heq =>
      rw [heq] at hacts habort haborted
      exact Inbound.ofTask { task with pc := .failing } hi hlive rfl hacts habort rfl
        (.inr ⟨hint, congrArg (fun ids => Lib.record 10000 5000 hint ids _) haborted⟩)
    · next u heq =>
      rw [heq] at hacts habort haborted
      exact Inbound.ofTask { task with pc := .finishing, raised := true } hi hlive rfl hacts habort rfl
        (.inl ⟨haborted, by simp⟩)
  · next hpc =>
    right
    show Inbound _ _ s (State.setTask
      { s with aborted := s.aborted, laneTails := _, running := s.running && !task.raised } i _)
    exact Inbound.ofTask { task with pc := .done } hi (by simp [hpc]) rfl (Acts.refl _ s)
      (fun _ => rfl) rfl (.inl ⟨rfl, by simp⟩)
  all_goals exact .inl rfl

/-- A failure report of no task or drain. -/
theorem failureSent_inbound (k : Nat) (ok : Bool) : failureSent s k ok = s ∨
    (∃ r, Inbound (.failureSent k ok) r s (failureSent s k ok)) ∨
    ∃ r, Clears (.failureSent k ok) r s (failureSent s k ok) := by
  unfold failureSent
  split
  · exact .inl rfl
  · next r hk =>
    have hless : ∀ y, Failing y { s with failures := s.failures.eraseIdx k } → Failing y s := by
      intro y hy
      rcases hy with hy | hy | hy
      · exact .inl hy
      · exact .inr (.inl (List.mem_of_mem_eraseIdx hy))
      · exact .inr (.inr hy)
    right
    simp only
    split
    · exact .inr ⟨r, ⟨rfl, rfl, rfl, rfl, rfl⟩, rfl, rfl, fun _ hy => hy, hless,
        .inl ⟨.inr (.inl (List.mem_of_getElem? hk)), rfl⟩⟩
    · exact .inl ⟨r, ⟨rfl, rfl, rfl, rfl, rfl, rfl⟩, fun _ _ => rfl, rfl, rfl, fun _ => rfl, .inl,
        fun _ hy => .inl hy, fun y hy => .inl (hless y hy), .inl rfl⟩

/-- **Inbound steps.** A step that is not the drain's changes nothing, acts on one request
or clears one. -/
theorem step_inbound (cfg : Config α) (s : State α) (e : Event α) (he : e.inbound = true) : step cfg s e = s ∨
    (∃ r, Inbound e r s (step cfg s e)) ∨ ∃ r, Clears e r s (step cfg s e) := by
  cases e with
  | submit r data b =>
    simp only [step]
    split
    · by_cases hr : r ∈ s.aborted
      · left
        exact if_pos hr
      · have hacts := Acts.onSubmit (b := b) cfg s r data hr
        have haborted : (onSubmit cfg s r data b).aborted = s.aborted := by rw [hacts.rest]
        have hfailures : (onSubmit cfg s r data b).failures = s.failures := by rw [hacts.rest]
        exact .inr (.inl ⟨r, Inbound.ofCall rfl hacts (fun h => absurd h hr) (.inl ⟨haborted, hfailures⟩)⟩)
    · exact .inl rfl
  | dataReady msg =>
    simp only [step]
    split
    · exact .inr (.inl ⟨_, Inbound.schedule msg⟩)
    · exact .inl rfl
  | taskStarts i ok =>
    simp only [step, onTask]
    split
    · exact .inl rfl
    · next task hi =>
      split
      · next hpc => exact .inr (.inl ⟨_, taskStarts_inbound ok hi hpc⟩)
      · exact .inl rfl
  | taskResumes i ok =>
    simp only [step, onTask]
    split
    · exact .inl rfl
    · next task hi =>
      rcases taskResumes_inbound ok hi with h | h | h
      · exact .inl h
      · exact .inr (.inl ⟨_, h⟩)
      · exact .inr (.inr ⟨_, h⟩)
  | taskProceeds i hint =>
    simp only [step, onTask]
    split
    · exact .inl rfl
    · next task hi =>
      split
      · rcases taskProceeds_inbound hint hi with h | h
        · exact .inl h
        · exact .inr (.inl ⟨_, h⟩)
      · exact .inl rfl
  | localPayload r source data b hint =>
    refine .inr (.inl ⟨r, Inbound.ofLocalCall rfl ?_ (fun h => ?_) hint⟩)
    · exact (Acts.record s r b).trans (Acts.receivePayload cfg _ r source data)
    · rw [record_aborted b h, receivePayload_aborted _ _ h]
  | localStreamChunk r source chunkId data b hint =>
    by_cases hr : r ∈ s.aborted
    · left
      exact if_pos hr
    · refine .inr (.inl ⟨r, ?_⟩)
      rw [step, receiveLocalStreamChunk, if_neg hr]
      refine Inbound.ofLocalCall rfl ?_ (fun h => absurd h hr) hint
      exact ((Acts.record s r b).trans (Acts.activate _ r)).trans (Acts.routeStreamItem cfg _ r source _)
  | localStreamSignal r source error b hint =>
    refine .inr (.inl ⟨r, Inbound.ofLocalCall rfl ?_ (fun h => ?_) hint⟩)
    · exact (Acts.record s r b).trans (Acts.receiveStreamSignal cfg _ r source error)
    · rw [record_aborted b h, receiveStreamSignal_aborted _ _ h]
  | schedulerCrash r hint =>
    refine .inr (.inl ⟨r, ⟨rfl, rfl, rfl, rfl, rfl, rfl⟩, fun _ _ => rfl, rfl, rfl, fun _ => rfl, .inl,
      fun _ hy => .inl hy, fun y hy => ?_, .inr ⟨hint, rfl⟩⟩)
    rcases hy with hy | hy | hy
    · exact .inl (.inl hy)
    · have hy : y ∈ s.failures ++ [r] := hy
      rw [List.mem_append, List.mem_singleton] at hy
      rcases hy with hy | rfl
      · exact .inl (.inr (.inl hy))
      · exact .inr ⟨rfl, hint, rfl⟩
    · exact .inl (.inr (.inr hy))
  | failureSent k ok => exact failureSent_inbound k ok
  | abort r hint =>
    exact .inr (.inr ⟨r, ⟨rfl, rfl, rfl, rfl, rfl⟩, rfl, rfl, fun _ hy => hy, fun _ hy => hy,
      .inr ⟨hint, rfl, rfl⟩⟩)
  | output _ _ _ | gatherStarts _ | publish _ | sendReturns _ | sendRaises _ | drainResumes _ _ => cases he

/-! ### Sends -/

/-- `t` is `s` after sends of `r`. -/
structure Sends (r : String) (s t : State α) : Prop where
  rest : t = { s with entries := t.entries, flights := t.flights, started := t.started }
  others : ∀ y, y ≠ r → t.entries y = s.entries y
  bindings : (t.entries r).replicaBindings = (s.entries r).replicaBindings
  active : (t.entries r).active = (s.entries r).active

theorem Sends.refl (r : String) (s : State α) : Sends r s s := ⟨rfl, fun _ _ => rfl, rfl, rfl⟩

theorem Sends.trans (h : Sends r s t) (h' : Sends r t u) : Sends r s u where
  rest := by rw [h'.rest, h.rest]
  others y hy := (h'.others y hy).trans (h.others y hy)
  bindings := h'.bindings.trans h.bindings
  active := h'.active.trans h.active

theorem Sends.modify (s : State α) (r : String) {f : Entry α → Entry α}
    (hb : (f (s.entries r)).replicaBindings = (s.entries r).replicaBindings)
    (ha : (f (s.entries r)).active = (s.entries r).active) : Sends r s (s.modify r f) where
  rest := rfl
  others _ hy := modify_other s f hy
  bindings := by rw [modify_self]; exact hb
  active := by rw [modify_self]; exact ha

theorem Sends.fly (cfg : Config α) (s : State α) (r target : String) (control : Bool)
    (transport : Transport) (body : Body α) : Sends r s (fly cfg s r target control transport body) :=
  ⟨rfl, fun _ _ => rfl, rfl, rfl⟩

theorem Sends.countChunk (s : State α) (r target : String) : Sends r s (countChunk s r target) :=
  Sends.modify s r rfl rfl

theorem Sends.recordLocal (s : State α) (r target : String) :
    Sends r s (recordLocalStreamTarget s r target) := Sends.modify s r rfl rfl

theorem Sends.recordNonlocal (s : State α) (r target : String) :
    Sends r s (recordNonlocalStreamTarget s r target) := Sends.modify s r rfl rfl

theorem Sends.streamToTarget (cfg : Config α) (choice : Choice) (r : String) (data : α) (s : State α)
    (target : String) : Sends r s (sendStreamToTarget cfg choice r data s target).1 := by
  unfold sendStreamToTarget
  split
  · exact Sends.refl r s
  · next inst _ =>
    have hcount := Sends.countChunk s r inst
    simp only
    split
    · split
      · exact hcount
      · exact (hcount.trans (Sends.recordLocal _ r inst)).trans (Sends.fly cfg _ r inst _ _ _)
    · have hrecord := hcount.trans (Sends.recordNonlocal (Stage.countChunk s r inst) r inst)
      split
      · exact hrecord
      · exact hrecord.trans (Sends.fly cfg _ r inst _ _ _)

theorem Sends.streamSignal (cfg : Config α) (s : State α) (r target : String) :
    Sends r s (sendStreamSignalToTarget cfg s r target).1 := by
  unfold sendStreamSignalToTarget
  split
  · exact Sends.refl r s
  · next inst _ =>
    split
    · split
      · exact Sends.refl r s
      · exact (Sends.recordLocal s r inst).trans (Sends.fly cfg _ r inst _ _ _)
    · exact (Sends.recordNonlocal s r inst).trans (Sends.fly cfg _ r inst _ _ _)

theorem Sends.toStage (cfg : Config α) (choice : Choice) (s : State α) (r target : String) (data : α)
    (single : Bool) (doneTargets : List String) :
    Sends r s (sendToStage cfg choice s r target data single doneTargets).1 := by
  unfold sendToStage
  split
  · exact Sends.refl r s
  · split
    · split
      · exact Sends.refl r s
      · exact Sends.fly cfg s r _ _ _ _
    · split
      · exact Sends.refl r s
      · exact Sends.fly cfg s r _ _ _ _

/-- A signal or a hop that raises has recorded nothing. -/
theorem streamSignal_raises {target : String} {e : DrainError}
    (h : (sendStreamSignalToTarget cfg s r target).2 = some e) :
    (sendStreamSignalToTarget cfg s r target).1 = s := by
  unfold sendStreamSignalToTarget at h ⊢
  split
  · rfl
  · next heq =>
    simp only [heq] at h
    split
    · next hlocal =>
      rw [if_pos hlocal] at h
      split
      · rfl
      · next hdispatch =>
        rw [if_neg hdispatch] at h
        cases h
    · next hlocal =>
      rw [if_neg hlocal] at h
      cases h

theorem toStage_raises {choice : Choice} {target : String} {data : α} {single : Bool}
    {doneTargets : List String} {e : DrainError}
    (h : (sendToStage cfg choice s r target data single doneTargets).2 = some e) :
    (sendToStage cfg choice s r target data single doneTargets).1 = s := by
  unfold sendToStage at h ⊢
  split
  · rfl
  · next heq =>
    simp only [heq] at h
    split
    · next hlocal =>
      rw [if_pos hlocal] at h
      split
      · rfl
      · next hdispatch =>
        rw [if_neg hdispatch] at h
        cases h
    · next hlocal =>
      rw [if_neg hlocal] at h
      split
      · rfl
      · next htransport =>
        simp only [htransport] at h
        cases h

/-- The gathered sends, one after the other. -/
theorem Sends.gather (cfg : Config α) (choice : Choice) (r : String) (data : α) (targets : List String)
    (acc : State α × Option DrainError) :
    Sends r acc.1 (targets.foldl (gatherOne cfg choice r data) acc).1 := by
  induction targets generalizing acc with
  | nil => exact Sends.refl r acc.1
  | cons target rest ih =>
    exact (Sends.streamToTarget cfg choice r data acc.1 target).trans
      (ih (gatherOne cfg choice r data acc target))

end SglangOmni.Pipeline.Stage
