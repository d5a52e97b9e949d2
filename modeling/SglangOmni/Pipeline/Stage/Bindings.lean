import SglangOmni.Pipeline.Stage.Tombstones

/-! The replica bindings that the outbox drain looks up.

A request that is active has its bindings, and so has a request with a replicated target
that the drain has still to resolve. What takes the bindings away is a clear; the drain
does not notice it when it comes between two of its sends. -/
namespace SglangOmni.Pipeline.Stage
open Lib

variable {α : Type} {cfg : Config α} {s t : State α} {r x : String}
  {b : Option (Dict String Int)} {target : String} {e : Event α}

/-- The bindings name an instance of every replicated stage. -/
def Complete (cfg : Config α) (b : Option (Dict String Int)) : Prop :=
  ∀ target, cfg.topology.isReplicated target = true → ∃ id, (b.bind fun b => b.get? target) = some id

/-- What the stage has recorded for the request is complete. -/
def Covered (cfg : Config α) (s : State α) (r : String) : Prop := Complete cfg (s.entries r).replicaBindings

/-- The targets that the drain has still to resolve for the request. -/
def Drain.unresolved (r : String) : Drain α → List String
  | .busy (.gather x _ targets) => if x = r then targets else []
  | .busy (.signals x rest _ _ next) => if x = r then rest ++ next.getD [] else []
  | .busy (.hops x rest _ _ _) => if x = r then rest else []
  | _ => []

/-- The drain has a replicated target of the request to resolve. -/
def Waits (cfg : Config α) (r : String) (d : Drain α) : Prop :=
  ∃ target ∈ d.unresolved r, cfg.topology.isReplicated target = true

/-! ### Lookups -/

/-- What is recorded for a request, after a message that brings bindings. -/
theorem record_bindings (s : State α) (r : String) (b : Option (Dict String Int)) :
    ((recordReplicaBindings s r b).entries r).replicaBindings = (s.entries r).replicaBindings ∨
      ((s.entries r).replicaBindings = none ∧
        ((recordReplicaBindings s r b).entries r).replicaBindings = b) := by
  unfold recordReplicaBindings
  split
  · exact .inl rfl
  · split
    · exact .inl rfl
    · cases hold : (s.entries r).replicaBindings with
      | none => exact .inr ⟨rfl, by simp [hold]⟩
      | some old => exact .inl (by simp [hold])

/-- Bindings that are recorded at all are complete. -/
def Whole (cfg : Config α) (s : State α) (r : String) : Prop :=
  (s.entries r).replicaBindings ≠ none → Covered cfg s r

theorem Whole.record (h : Whole cfg s r) (hb : b ≠ none → Complete cfg b) :
    Whole cfg (recordReplicaBindings s r b) r := by
  intro hne
  rcases record_bindings s r b with heq | ⟨_, heq⟩
  · unfold Covered
    rw [heq] at hne ⊢
    exact h hne
  · unfold Covered
    rw [heq] at hne ⊢
    exact hb hne

theorem Covered.record (h : Covered cfg s r) (b : Option (Dict String Int)) :
    Covered cfg (recordReplicaBindings s r b) r := by
  unfold Covered
  rcases record_bindings s r b with heq | ⟨hnone, heq⟩
  · rw [heq]
    exact h
  · intro target ht
    obtain ⟨id, hid⟩ := h target ht
    rw [hnone] at hid
    cases hid

/-- A message with complete bindings leaves its request covered. -/
theorem record_covers (hr : r ∉ s.aborted) (hb : Complete cfg b) (h : Whole cfg s r) :
    Covered cfg (recordReplicaBindings s r b) r := by
  intro target ht
  obtain ⟨id, hid⟩ := hb target ht
  have hwhole := h.record fun _ => hb
  refine hwhole ?_ target ht
  cases b with
  | none => cases hid
  | some b =>
    have hne : b ≠ ∅ := by
      rintro rfl
      cases hid
    simp [recordReplicaBindings, hne, hr]

theorem Sends.covered (h : Sends r s t) (hc : Covered cfg s r) : Covered cfg t r := by
  unfold Covered
  rw [h.bindings]
  exact hc

/-! ### Sends that do not miss a binding -/

/-- Only a send of `r` itself misses a binding of it, and not when `r` is covered. -/
theorem resolve_bears (h : x = r → cfg.topology.isReplicated target = true → Covered cfg s r)
    (y : String) : resolveEndpoint cfg s x target ≠ .error (.missingBinding r y) := by
  unfold resolveEndpoint resolveTargetInstance
  split
  · next e heq =>
    split at heq
    · cases heq
    · next hrep =>
      have hrep : cfg.topology.isReplicated target = true := by simpa using hrep
      split at heq
      · next hnone =>
        cases heq
        rintro ⟨⟩
        obtain ⟨id, hid⟩ := h rfl hrep target hrep
        rw [hnone] at hid
        cases hid
      · split at heq
        · cases heq
        · cases heq
          simp
  · split <;> simp

/-- What a send raises is not a missing binding of `r`. -/
def Bears (r : String) (p : State α × Option DrainError) : Prop := ∀ y, p.2 ≠ some (.missingBinding r y)

theorem streamToTarget_bears (choice : Choice) (data : α)
    (h : x = r → cfg.topology.isReplicated target = true → Covered cfg s r) :
    Bears r (sendStreamToTarget cfg choice x data s target) := by
  intro y
  unfold sendStreamToTarget
  split
  · next e heq =>
    rintro ⟨⟩
    exact resolve_bears h y heq
  · simp only
    split
    · split <;> simp
    · split <;> simp

theorem streamSignal_bears (h : x = r → cfg.topology.isReplicated target = true → Covered cfg s r) :
    Bears r (sendStreamSignalToTarget cfg s x target) := by
  intro y
  unfold sendStreamSignalToTarget
  split
  · next e heq =>
    rintro ⟨⟩
    exact resolve_bears h y heq
  · split
    · split <;> simp
    · simp

theorem toStage_bears (choice : Choice) (data : α) (single : Bool) (doneTargets : List String)
    (h : x = r → cfg.topology.isReplicated target = true → Covered cfg s r) :
    Bears r (sendToStage cfg choice s x target data single doneTargets) := by
  intro y
  unfold sendToStage
  split
  · next e heq =>
    rintro ⟨⟩
    exact resolve_bears h y heq
  · split
    · split <;> simp
    · split <;> simp

theorem gather_bears (choice : Choice) (data : α) (targets : List String)
    {acc : State α × Option DrainError} (hacc : Bears r acc)
    (h : x = r → (∃ target ∈ targets, cfg.topology.isReplicated target = true) → Covered cfg acc.1 r) :
    Bears r (targets.foldl (gatherOne cfg choice x data) acc) := by
  induction targets generalizing acc with
  | nil => exact hacc
  | cons target rest ih =>
    have hsends := Sends.streamToTarget cfg choice x data acc.1 target
    have hone : Bears r (sendStreamToTarget cfg choice x data acc.1 target) :=
      streamToTarget_bears choice data fun hx hrep => h hx ⟨target, List.mem_cons_self, hrep⟩
    refine ih (fun y => ?_) fun hx hrep => ?_
    · simp only [gatherOne]
      cases hfirst : acc.2 with
      | none => exact hone y
      | some e =>
        have := hacc y
        rw [hfirst] at this
        exact this
    · subst hx
      obtain ⟨z, hz, hrep⟩ := hrep
      exact hsends.covered (h rfl ⟨z, List.mem_cons_of_mem _ hz, hrep⟩)

/-! ### The invariant -/

structure Bound (cfg : Config α) (r : String) (s : State α) : Prop where
  whole : Whole cfg s r
  active : (s.entries r).active = true → Covered cfg s r
  waits : Waits cfg r s.drain → Covered cfg s r
  tasks : InFlight r s → r ∈ s.aborted ∨ Covered cfg s r
  failing : Failing r s → r ∈ s.aborted
  calm : ∀ y, s.drain ≠ .crashed (.missingBinding r y)

theorem bound_create (cfg : Config α) (r : String) : Bound cfg r State.create where
  whole h := absurd rfl h
  active h := nomatch h
  waits h := by
    obtain ⟨_, hm, _⟩ := h
    cases hm
  tasks h := by
    obtain ⟨_, hm, _⟩ := h
    cases hm
  failing h := by
    rcases h with ⟨_, hm, _⟩ | hm | hm
    · cases hm
    · cases hm
    · cases hm
  calm _ h := nomatch h

/-- The condition on a step: messages of the request bring complete bindings; nobody clears
it while the drain has a replicated target of it to resolve; and while a receive task or a
failure report of it is in flight, its result does not end and its tombstone is not
dropped. -/
structure Careful (cfg : Config α) (r : String) (s : State α) (e : Event α) : Prop where
  complete : ∀ b, e.carries = some (r, b) → Complete cfg b
  clears : Clears e r s (step cfg s e) → ¬Waits cfg r s.drain
  results : e.inbound = false → (step cfg s e).cleared = s.cleared ++ [r] → InFlight r s → r ∈ s.aborted
  tombstones : InFlight r (step cfg s e) ∨ Failing r (step cfg s e) →
    (r ∈ s.aborted ∨ Failing r (step cfg s e) ∨ ∃ hint, e = .abort r hint) → r ∈ (step cfg s e).aborted

/-! ### Inbound steps -/

theorem Bound.inbound (h : Bound cfg r s) (hin : Inbound e x s (step cfg s e))
    (hrule : Careful cfg r s e) : Bound cfg r (step cfg s e) := by
  have hbindings : ((step cfg s e).entries r).replicaBindings =
      ((recordReplicaBindings s r (if r = x then e.bindingsFor r else none)).entries r).replicaBindings := by
    by_cases hr : r = x
    · subst hr
      rw [if_pos rfl]
      exact hin.bindings
    · rw [hin.others r hr, if_neg hr]
      rfl
  -- what is covered stays covered
  have hcovered : Covered cfg s r → Covered cfg (step cfg s e) r := by
    intro hc
    unfold Covered
    rw [hbindings]
    exact hc.record _
  have hcarried : r = x → ∀ b, e.carries = some (r, b) → r ∉ s.aborted → Covered cfg (step cfg s e) r := by
    intro hr b hcarries hx
    have hb : e.bindingsFor r = b := by rw [Event.bindingsFor, hcarries]; exact if_pos rfl
    unfold Covered
    rw [hbindings, if_pos hr, hb]
    exact record_covers hx (hrule.complete b hcarries) h.whole
  refine ⟨fun hne => ?_, fun hactive => ?_, fun hwaits => ?_, fun hflight => ?_, fun hfailing => ?_,
    fun y => ?_⟩
  · unfold Covered
    rw [hbindings] at hne ⊢
    refine h.whole.record (fun hsome => ?_) hne
    split at hsome
    · next hr =>
      rw [if_pos hr]
      revert hsome
      unfold Event.bindingsFor
      split
      · exact fun hne => absurd rfl hne
      · next y b hcarries =>
        split
        · next hy => exact fun _ => hrule.complete b (hy ▸ hcarries)
        · exact fun hne => absurd rfl hne
    · exact absurd rfl hsome
  · by_cases hr : r = x
    · subst hr
      rcases hin.active hactive with hold | ⟨hfree, ⟨b, hcarries⟩ | hflight⟩
      · exact hcovered (h.active hold)
      · exact hcarried rfl b hcarries hfree
      · exact hcovered ((h.tasks hflight).resolve_left hfree)
    · rw [hin.others r hr] at hactive
      exact hcovered (h.active hactive)
  · rw [hin.rest.1] at hwaits
    exact hcovered (h.waits hwaits)
  · by_cases hr : r ∈ s.aborted
    · exact .inl (hrule.tombstones (.inl hflight) (.inl hr))
    · right
      rcases hin.tasks r hflight with hold | ⟨hrx, b, hcarries⟩
      · exact hcovered ((h.tasks hold).resolve_left hr)
      · exact hcarried hrx b hcarries hr
  · exact hrule.tombstones (.inr hfailing) (.inr (.inl hfailing))
  · rw [hin.rest.1]
    exact h.calm y

theorem Bound.clears (h : Bound cfg r s) (hc : Clears e x s (step cfg s e))
    (hrule : Careful cfg r s e) : Bound cfg r (step cfg s e) := by
  by_cases hr : r = x
  · subst hr
    have hself : (step cfg s e).entries r = {} := by
      rw [hc.entries]
      exact Function.update_self ..
    refine ⟨fun hne => ?_, fun hactive => ?_, fun hwaits => ?_, fun hflight => .inl ?_, fun hfailing => ?_,
      fun y => ?_⟩
    · rw [hself] at hne
      exact absurd rfl hne
    · rw [hself] at hactive
      cases hactive
    · rw [hc.rest.1] at hwaits
      exact absurd hwaits (hrule.clears hc)
    · rcases hc.aborted with ⟨hfail, _⟩ | ⟨hint, habort, _⟩
      · exact hrule.tombstones (.inl hflight) (.inl (h.failing hfail))
      · exact hrule.tombstones (.inl hflight) (.inr (.inr ⟨hint, habort⟩))
    · exact hrule.tombstones (.inr hfailing) (.inr (.inl hfailing))
    · rw [hc.rest.1]
      exact h.calm y
  · have hother : (step cfg s e).entries r = s.entries r := by
      rw [hc.entries]
      exact Function.update_of_ne hr ..
    refine ⟨?_, ?_, fun hwaits => ?_, fun hflight => ?_, fun hfailing => ?_, fun y => ?_⟩
    · unfold Whole Covered
      rw [hother]
      exact h.whole
    · unfold Covered
      rw [hother]
      exact h.active
    · rw [hc.rest.1] at hwaits
      unfold Covered
      rw [hother]
      exact h.waits hwaits
    · rcases h.tasks (hc.tasks r hflight) with ha | hcov
      · exact .inl (hrule.tombstones (.inl hflight) (.inl ha))
      · right
        unfold Covered
        rw [hother]
        exact hcov
    · exact hrule.tombstones (.inr hfailing) (.inr (.inl hfailing))
    · rw [hc.rest.1]
      exact h.calm y

/-! ### Steps of the drain -/

/-- A step that leaves the request's bindings alone, or clears it at the end of a result. -/
theorem Bound.drive (h : Bound cfg r s)
    (hentry : ((t.entries r).replicaBindings = (s.entries r).replicaBindings ∧
      (t.entries r).active = (s.entries r).active) ∨ (t.entries r = {} ∧ (InFlight r s → r ∈ s.aborted)))
    (hwaits : Waits cfg r t.drain → Covered cfg t r) (htasks : t.tasks = s.tasks)
    (hfailing : Failing r t → r ∈ t.aborted) (haborted : InFlight r t → r ∈ s.aborted → r ∈ t.aborted)
    (hcalm : ∀ y, t.drain ≠ .crashed (.missingBinding r y)) : Bound cfg r t := by
  have hflight : InFlight r t → InFlight r s := by
    rintro ⟨task, hm, hrest⟩
    exact ⟨task, htasks ▸ hm, hrest⟩
  rcases hentry with ⟨hb, ha⟩ | ⟨hempty, hend⟩
  · have hcovered : Covered cfg s r → Covered cfg t r := by
      intro hc
      unfold Covered
      rw [hb]
      exact hc
    refine ⟨fun hne => ?_, fun hactive => ?_, hwaits, fun hf => ?_, hfailing, hcalm⟩
    · rw [hb] at hne
      exact hcovered (h.whole hne)
    · rw [ha] at hactive
      exact hcovered (h.active hactive)
    · exact (h.tasks (hflight hf)).imp (haborted hf) hcovered
  · refine ⟨fun hne => ?_, fun hactive => ?_, hwaits, fun hf => .inl ?_, hfailing, hcalm⟩
    · rw [hempty] at hne
      exact absurd rfl hne
    · rw [hempty] at hactive
      cases hactive
    · exact haborted hf (hend (hflight hf))

theorem Sends.entry (h : Sends x s t) (r : String) :
    (t.entries r).replicaBindings = (s.entries r).replicaBindings ∧
      (t.entries r).active = (s.entries r).active := by
  by_cases hr : r = x
  · subst hr
    exact ⟨h.bindings, h.active⟩
  · rw [h.others r hr]
    exact ⟨rfl, rfl⟩

/-- A step of the drain that starts or ends no failure report keeps the others. -/
theorem failing_of_drain (h : Failing r t) (htasks : t.tasks = s.tasks) (hfailures : t.failures = s.failures)
    (hdrain : t.drain ≠ .busy (.failing r)) : Failing r s := by
  rcases h with ⟨task, hm, hrest⟩ | hm | hd
  · exact .inl ⟨task, htasks ▸ hm, hrest⟩
  · exact .inr (.inl (hfailures ▸ hm))
  · exact absurd hd hdrain

theorem crash_eq (s : State α) (e : DrainError) :
    ∃ d running, crash s e = { s with drain := d, running := running } ∧
      ((∃ e', s.drain = .crashed e' ∧ d = .crashed e') ∨ d = .crashed e) := by
  unfold crash
  split
  · next e' h => exact ⟨.crashed e', s.running, by rw [← h], .inl ⟨e', h, rfl⟩⟩
  · exact ⟨_, _, rfl, .inr rfl⟩

section
variable (h : Bound cfg r s)
include h

theorem Bound.crash {e : DrainError} (he : ∀ y, e ≠ .missingBinding r y) :
    Bound cfg r (crash s e) := by
  obtain ⟨d, running, heq, hd⟩ := crash_eq s e
  have hcalm : ∀ y, d ≠ .crashed (.missingBinding r y) := by
    intro y hy
    rcases hd with ⟨e', hold, hd⟩ | hd
    · exact h.calm y (by rw [hold, ← hd, hy])
    · rw [hd] at hy
      exact he y (Drain.crashed.inj hy)
  have hcrashed : ∃ e', d = .crashed e' := by
    rcases hd with ⟨e', _, hd⟩ | hd
    · exact ⟨e', hd⟩
    · exact ⟨e, hd⟩
  obtain ⟨e', hd'⟩ := hcrashed
  rw [heq]
  refine h.drive (.inl ⟨rfl, rfl⟩) ?_ rfl (fun hf => ?_) (fun _ ha => ha) hcalm
  · rintro ⟨_, hm, _⟩
    rw [hd'] at hm
    cases hm
  · refine h.failing (failing_of_drain hf rfl rfl ?_)
    rw [hd']
    simp

theorem Bound.sends (hsends : Sends x s t) : Bound cfg r t := by
  have heq := hsends.rest
  have hdrain : t.drain = s.drain := by rw [heq]
  have htasks : t.tasks = s.tasks := by rw [heq]
  have hfailures : t.failures = s.failures := by rw [heq]
  have haborted : t.aborted = s.aborted := by rw [heq]
  have hentry := hsends.entry r
  refine h.drive (.inl hentry) (fun hw => ?_) htasks (fun hf => ?_) (fun _ ha => haborted ▸ ha) ?_
  · rw [hdrain] at hw
    unfold Covered
    rw [hentry.1]
    exact h.waits hw
  · rw [haborted]
    refine h.failing ?_
    rcases hf with ⟨task, hm, hrest⟩ | hm | hd
    · exact .inl ⟨task, htasks ▸ hm, hrest⟩
    · exact .inr (.inl (hfailures ▸ hm))
    · exact .inr (.inr (hdrain ▸ hd))
  · rw [hdrain]
    exact h.calm

/-- The drain takes up a job that is no failure report. -/
theorem Bound.busy {job : Job α} (hjob : Waits cfg r (.busy job) → Covered cfg s r)
    (hfail : job ≠ .failing r) : Bound cfg r { s with drain := .busy job } :=
  h.drive (.inl ⟨rfl, rfl⟩) hjob rfl
    (fun hf => h.failing (failing_of_drain hf rfl rfl (by simpa using hfail))) (fun _ ha => ha)
    (fun _ hd => nomatch hd)

theorem Bound.idle : Bound cfg r { s with drain := .idle } :=
  h.drive (.inl ⟨rfl, rfl⟩) (fun ⟨_, hm, _⟩ => nomatch hm) rfl
    (fun hf => h.failing (failing_of_drain hf rfl rfl (by simp))) (fun _ ha => ha) (fun _ hd => nomatch hd)

theorem Bound.await {job : Job α} {p : State α × Option DrainError}
    (hsends : Sends x s p.1) (hbears : Bears r p) (hjob : Waits cfg r (.busy job) → Covered cfg s r)
    (hfail : job ≠ .failing r) : Bound cfg r (await job p) := by
  have hsent := h.sends hsends
  obtain ⟨_, heq⟩ | ⟨e, hp, heq⟩ := await_cases job p
  · rw [heq]
    refine hsent.busy (fun hw => ?_) hfail
    unfold Covered
    rw [(hsends.entry r).1]
    exact hjob hw
  · rw [heq]
    exact hsent.crash fun y hy => hbears y (by rw [hp, hy])

/-- The end of a result. -/
theorem Bound.finish (hend : x = r → InFlight r s → r ∈ s.aborted) :
    Bound cfg r { clearRequestState s x with drain := .idle } := by
  refine h.drive ?_ (fun ⟨_, hm, _⟩ => nomatch hm) rfl
    (fun hf => h.failing (failing_of_drain hf rfl rfl (by simp))) (fun _ ha => ha) (fun _ hd => nomatch hd)
  by_cases hr : r = x
  · subst hr
    exact .inr ⟨clear_self s r, hend rfl⟩
  · exact .inl (by rw [show State.entries _ r = s.entries r from clear_other s hr]; exact ⟨rfl, rfl⟩)

theorem Bound.routeHops (choice : Choice) (rest doneTargets : List String) (single : Bool)
    (result : α)
    (hcov : x = r → (∃ target ∈ rest, cfg.topology.isReplicated target = true) → Covered cfg s r)
    (hend : (routeHops cfg choice s x rest doneTargets single result).cleared = s.cleared ++ [r] →
      InFlight r s → r ∈ s.aborted) :
    Bound cfg r (routeHops cfg choice s x rest doneTargets single result) := by
  cases rest with
  | nil =>
    refine h.finish fun hx => ?_
    subst hx
    exact hend rfl
  | cons target rest =>
    refine h.await (Sends.toStage cfg choice s x _ _ _ _)
      (toStage_bears choice _ _ _ fun hx hrep => hcov hx ⟨target, List.mem_cons_self, hrep⟩) ?_ (by simp)
    rintro ⟨y, hy, hrep⟩
    simp only [Drain.unresolved] at hy
    split at hy
    · next hx => exact hcov hx ⟨y, List.mem_cons_of_mem _ hy, hrep⟩
    · cases hy

theorem Bound.routeSignals (choice : Choice) (rest doneTargets : List String) (result : α)
    (next : Option (List String))
    (hcov : x = r → (∃ target ∈ rest ++ next.getD [], cfg.topology.isReplicated target = true) →
      Covered cfg s r)
    (hend : (routeSignals cfg choice s x rest doneTargets result next).cleared = s.cleared ++ [r] →
      InFlight r s → r ∈ s.aborted) :
    Bound cfg r (routeSignals cfg choice s x rest doneTargets result next) := by
  cases rest with
  | nil =>
    cases next with
    | none => exact h.busy (fun ⟨_, hm, _⟩ => nomatch hm) (by simp)
    | some targets => exact h.routeHops choice _ _ _ _ hcov hend
  | cons target rest =>
    refine h.await (Sends.streamSignal cfg s x _)
      (streamSignal_bears fun hx hrep => hcov hx ⟨target, List.mem_cons_self, hrep⟩) ?_ (by simp)
    rintro ⟨y, hy, hrep⟩
    simp only [Drain.unresolved] at hy
    split at hy
    · next hx => exact hcov hx ⟨y, List.mem_cons_of_mem _ hy, hrep⟩
    · cases hy

theorem Bound.drainResumes (ok : Bool) (choice : Choice)
    (hend : (drainResumes cfg choice s ok).cleared = s.cleared ++ [r] → InFlight r s → r ∈ s.aborted) :
    Bound cfg r (drainResumes cfg choice s ok) := by
  have hother : ∀ y, DrainError.other ≠ .missingBinding r y := by
    intro _ h
    cases h
  cases hd : s.drain with
  | idle | crashed e =>
    simp only [Stage.drainResumes, hd]
    exact h
  | busy job =>
    have hwaits := h.waits
    rw [hd] at hwaits
    cases job with
    | gather x data targets =>
      simp only [Stage.drainResumes, hd]
      exact h
    | stream x | gathering x =>
      simp only [Stage.drainResumes, hd]
      split
      · exact h.crash hother
      · exact h.idle
    | failing x =>
      simp only [Stage.drainResumes, hd]
      split
      · exact h.crash hother
      · refine h.finish fun hx _ => h.failing (.inr (.inr ?_))
        rw [hd, hx]
    | completing x =>
      simp only [Stage.drainResumes, hd] at hend ⊢
      split
      · exact h.crash hother
      · next hok =>
        rw [if_neg hok] at hend
        refine h.finish fun hx => ?_
        subst hx
        exact hend rfl
    | signals x rest doneTargets result next =>
      simp only [Stage.drainResumes, hd] at hend ⊢
      split
      · exact h.crash hother
      · next hok =>
        rw [if_neg hok] at hend
        refine h.routeSignals choice _ _ _ _ (fun hx hlater => ?_) hend
        obtain ⟨y, hy, hrep⟩ := hlater
        refine hwaits ⟨y, ?_, hrep⟩
        rw [Drain.unresolved, if_pos hx]
        exact hy
    | hops x rest doneTargets single result =>
      simp only [Stage.drainResumes, hd] at hend ⊢
      split
      · exact h.crash hother
      · next hok =>
        rw [if_neg hok] at hend
        refine h.routeHops choice _ _ _ _ (fun hx hlater => ?_) hend
        obtain ⟨y, hy, hrep⟩ := hlater
        refine hwaits ⟨y, ?_, hrep⟩
        rw [Drain.unresolved, if_pos hx]
        exact hy

/-- A message of the scheduler is routed only when its request is active, so covered. -/
theorem Bound.drainOutput (choice : Choice) (out : Out α) (hint : List String)
    (hend : (drainOutput cfg choice s out hint).cleared = s.cleared ++ [r] → InFlight r s → r ∈ s.aborted)
    (htomb : InFlight r (drainOutput cfg choice s out hint) ∨ Failing r (drainOutput cfg choice s out hint) →
      r ∈ s.aborted ∨ Failing r (drainOutput cfg choice s out hint) →
      r ∈ (drainOutput cfg choice s out hint).aborted) :
    Bound cfg r (drainOutput cfg choice s out hint) := by
  unfold Stage.drainOutput at hend htomb ⊢
  split
  · exact h
  · next hactive =>
    rw [if_neg hactive] at hend htomb
    have hcov : out.requestId = r → Covered cfg s r := by
      rintro rfl
      exact h.active (by simpa using hactive)
    have hlogged : Bound cfg r { s with outputs := s.outputs ++ [out] } :=
      ⟨h.whole, h.active, h.waits, h.tasks, h.failing, h.calm⟩
    cases out with
    | result x data doneTargets next =>
      exact hlogged.routeSignals choice _ _ _ _ (fun hx _ => hcov hx) hend
    | error x =>
      refine h.drive (.inl ⟨rfl, rfl⟩) (fun ⟨_, hm, _⟩ => nomatch hm) rfl (fun hf => ?_) (fun hf ha => ?_)
        (fun _ hd => nomatch hd)
      · exact htomb (.inr hf) (.inr hf)
      · exact htomb (.inl hf) (.inl ha)
    | stream x data target =>
      cases target with
      | some target =>
        exact hlogged.await (Sends.streamToTarget cfg choice x data _ target)
          (streamToTarget_bears choice data fun hx _ => hcov hx) (fun ⟨_, hm, _⟩ => nomatch hm) (by simp)
      | none =>
        simp only
        split
        · unfold sendStreamToCoordinator
          split
          · exact hlogged.crash fun _ hd => nomatch hd
          · split
            · exact hlogged
            · exact (hlogged.sends (Sends.countChunk _ x _)).busy (fun ⟨_, hm, _⟩ => nomatch hm) (by simp)
        · refine hlogged.busy (fun ⟨y, hy, _⟩ => ?_) (by simp)
          simp only [Drain.unresolved] at hy
          split at hy
          · next hx => exact hcov hx
          · cases hy

theorem Bound.drain (he : e.inbound = false) (hrule : Careful cfg r s e) :
    Bound cfg r (step cfg s e) := by
  have hend := hrule.results he
  have htomb := hrule.tombstones
  cases e with
  | output out choice hint =>
    simp only [step] at hend htomb ⊢
    split
    · next hidle =>
      rw [hidle] at hend htomb
      exact h.drainOutput choice out hint hend fun hf ha => htomb hf (ha.imp_right .inl)
    · exact h
  | gatherStarts choice =>
    simp only [step]
    split
    · next x data targets hgather =>
      have hwaits := h.waits
      rw [hgather] at hwaits
      refine h.await (Sends.gather cfg choice x data targets (s, none))
        (gather_bears choice data targets (fun _ hd => by cases hd) fun hx hlater => ?_)
        (by rintro ⟨_, ⟨⟩, _⟩) (by simp)
      obtain ⟨y, hy, hrep⟩ := hlater
      refine hwaits ⟨y, ?_, hrep⟩
      rw [Drain.unresolved, if_pos hx]
      exact hy
    · exact h
  | publish i =>
    simp only [step, publish]
    split
    · exact h
    · split
      · exact ⟨h.whole, h.active, h.waits, h.tasks, h.failing, h.calm⟩
      · exact h
  | sendReturns i =>
    simp only [step, sendReturns]
    split
    · exact h
    · split
      · exact ⟨h.whole, h.active, h.waits, h.tasks, h.failing, h.calm⟩
      · exact h
  | sendRaises i =>
    simp only [step, sendRaises]
    split
    · exact h
    · have hsame : Bound cfg r { s with flights := s.flights.eraseIdx i } :=
        ⟨h.whole, h.active, h.waits, h.tasks, h.failing, h.calm⟩
      exact hsame.crash fun _ hd => by cases hd
  | drainResumes ok choice =>
    simp only [step] at hend ⊢
    split
    · next hf =>
      rw [if_pos hf] at hend
      exact h.drainResumes ok choice hend
    · exact h
  | _ => cases he

theorem Bound.step (e : Event α) (hrule : Careful cfg r s e) :
    Bound cfg r (step cfg s e) := by
  cases he : e.inbound with
  | false => exact h.drain he hrule
  | true =>
    rcases step_inbound cfg s e he with hsame | ⟨x, hx⟩ | ⟨x, hx⟩
    · rw [hsame]
      exact h
    · exact h.inbound hx hrule
    · exact h.clears hx hrule

end

/-- **Bindings in time.** In every run whose steps all meet the condition for a request,
the outbox drain never raises for a missing binding of it. -/
theorem binding_never_missing (cfg : Config α) (r : String) (history : List (Event α))
    (hrule : Along (step cfg) (Careful cfg r) State.create history) (target : String) :
    (run (step cfg) State.create history).drain ≠ .crashed (.missingBinding r target) := by
  have hrun : Bound cfg r (run (step cfg) State.create history) :=
    along_invariant (bound_create cfg r) (fun t e ht hr => ht.step e hr) history hrule
  exact hrun.calm target

/-! ### A replicated target -/

/-- A stage that streams to the replicas of `t`. -/
def replicated : Config Nat :=
  { streaming with
    topology := ⟨(∅ : Dict String (List String)).set "t" ["t@r0", "t@r1"]⟩
    endpoints := ["t@r0", "t@r1"] }

def toSecond : Option (Dict String Int) := some ((∅ : Dict String Int).set "t" 1)

theorem toSecond_complete : Complete replicated toSecond := by
  intro target h
  have ht : target = "t" := by
    by_contra hne
    simp [replicated, ReplicaTopology.isReplicated, Dict.contains, Dict.get?_set, hne] at h
  rw [ht]
  exact ⟨1, by decide⟩

/-- A step that meets the condition, when no receive task and no failure report is there. -/
theorem Careful.of_no_tasks (hcomplete : ∀ b, e.carries = some (r, b) → Complete cfg b)
    (hclears : (step cfg s e).cleared ≠ s.cleared ++ [r] ∨ s.drain.unresolved r = []) (htasks : s.tasks = [])
    (hnext : (step cfg s e).tasks = [] ∧ (step cfg s e).failures = [] ∧
      (step cfg s e).drain ≠ .busy (.failing r)) : Careful cfg r s e := by
  have hflight : ∀ u : State α, u.tasks = [] → ¬InFlight r u := by
    intro u hu hf
    obtain ⟨task, hm, _⟩ := hf
    rw [hu] at hm
    cases hm
  refine ⟨hcomplete, fun hc hw => ?_, fun _ _ hf => absurd hf (hflight s htasks), fun hbusy _ => ?_⟩
  · obtain ⟨target, hm, _⟩ := hw
    rcases hclears with hne | hnil
    · exact hne hc.cleared
    · rw [hnil] at hm
      cases hm
  · rcases hbusy with hf | ⟨task, hm, _⟩ | hm | hd
    · exact absurd hf (hflight _ hnext.1)
    · rw [hnext.1] at hm
      cases hm
    · rw [hnext.2.1] at hm
      cases hm
    · exact absurd hd hnext.2.2

/-- The abort comes when the gathered send has its target. -/
theorem binding_never_missing_started :
    (run (step replicated) State.create
      [.submit "r" 0 toSecond, .output (.stream "r" 7 none) viaRelay [], .gatherStarts viaRelay,
        .abort "r" [], .publish 0, .sendReturns 0, .drainResumes true viaRelay]).drain ≠
      .crashed (.missingBinding "r" "t") := by
  apply binding_never_missing
  refine ⟨?_, ?_, ?_, ?_, ?_, ?_, ?_, trivial⟩
  · refine .of_no_tasks (fun b h => ?_) (by decide) (by decide) (by decide)
    cases h
    exact toSecond_complete
  all_goals exact .of_no_tasks (fun _ h => nomatch h) (by decide) (by decide) (by decide)

/-- The abort comes before: the bindings are gone when the send looks its target up, and
the stage stops. -/
theorem abort_before_gather_crashes :
    Complete replicated toSecond ∧
      (run (step replicated) State.create
        [.submit "r" 0 toSecond, .output (.stream "r" 7 none) viaRelay [], .abort "r" [],
          .gatherStarts viaRelay]).drain = .crashed (.missingBinding "r" "t") ∧
      (run (step replicated) State.create
        [.submit "r" 0 toSecond, .output (.stream "r" 7 none) viaRelay [], .abort "r" [],
          .gatherStarts viaRelay]).running = false :=
  ⟨toSecond_complete, by decide, by decide⟩

end SglangOmni.Pipeline.Stage
