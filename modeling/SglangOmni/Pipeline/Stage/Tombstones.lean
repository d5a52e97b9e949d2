import SglangOmni.Pipeline.Stage.Frames

/-! What is left of an aborted request.

As long as the tombstone is there, whatever comes in leaves the request alone. The drain
does not look at tombstones: it may be in the middle of the request's result, whose stream
targets it records until the result is through, and gathered sends that were created
before the abort and start after it record what they send. -/
namespace SglangOmni.Pipeline.Stage
open Lib

variable {α : Type} {cfg : Config α} {s s' t : State α} {r x : String}

/-- A result of the request is being routed. -/
def Drain.routing (r : String) : Drain α → Bool
  | .busy (.signals x ..) | .busy (.hops x ..) | .busy (.completing x) => x = r
  | _ => false

/-- Gathered sends of the request have not started. -/
def Drain.queued (r : String) : Drain α → Bool
  | .busy (.gather x ..) => x = r
  | _ => false

def Drain.isCrashed : Drain α → Bool
  | .crashed _ => true
  | _ => false

/-! ### The drain -/

@[simp] theorem crash_entries (s : State α) (e : DrainError) : (crash s e).entries = s.entries := by
  unfold crash
  split <;> rfl

@[simp] theorem crash_isCrashed (s : State α) (e : DrainError) : (crash s e).drain.isCrashed = true := by
  unfold crash
  split
  · next h => rw [h]; rfl
  · rfl

/-- The drain awaits its send, or raises. -/
theorem await_cases (job : Job α) (p : State α × Option DrainError) :
    (p.2 = none ∧ await job p = { p.1 with drain := .busy job }) ∨
      ∃ e, p.2 = some e ∧ await job p = crash p.1 e := by
  obtain ⟨s, e⟩ := p
  cases e with
  | none => exact .inl ⟨rfl, rfl⟩
  | some e => exact .inr ⟨e, rfl, rfl⟩

/-- The drain is not on the request `r`, whose entry is as in `s`. -/
structure Elsewhere (r : String) (s t : State α) : Prop where
  entry : t.entries r = s.entries r
  routing : t.drain.routing r = false
  queued : t.drain.queued r = false

theorem Drain.routing_crashed {d : Drain α} (h : d.isCrashed = true) : d.routing r = false := by
  cases d with
  | crashed e => rfl
  | idle | busy job => cases h

theorem Drain.queued_crashed {d : Drain α} (h : d.isCrashed = true) : d.queued r = false := by
  cases d with
  | crashed e => rfl
  | idle | busy job => cases h

theorem Elsewhere.crash (h : t.entries r = s.entries r) (e : DrainError) : Elsewhere r s (crash t e) :=
  ⟨by rw [crash_entries, h], Drain.routing_crashed (crash_isCrashed t e),
    Drain.queued_crashed (crash_isCrashed t e)⟩

theorem Elsewhere.await {job : Job α} {p : State α × Option DrainError} (h : p.1.entries r = s.entries r)
    (hr : (Drain.busy job).routing r = false) (hq : (Drain.busy job).queued r = false) :
    Elsewhere r s (await job p) := by
  obtain ⟨_, heq⟩ | ⟨e, _, heq⟩ := await_cases job p
  · rw [heq]
    exact ⟨h, hr, hq⟩
  · rw [heq]
    exact Elsewhere.crash h e

theorem routeHops_elsewhere (choice : Choice) (rest doneTargets : List String) (single : Bool)
    (result : α) (hx : r ≠ x) : Elsewhere r s (routeHops cfg choice s x rest doneTargets single result) := by
  unfold routeHops
  split
  · exact ⟨clear_other s hx, rfl, rfl⟩
  · exact Elsewhere.await ((Sends.toStage cfg choice s x _ _ _ _).others r hx)
      (decide_eq_false (Ne.symm hx)) rfl

theorem routeSignals_elsewhere (choice : Choice) (rest doneTargets : List String) (result : α)
    (next : Option (List String)) (hx : r ≠ x) :
    Elsewhere r s (routeSignals cfg choice s x rest doneTargets result next) := by
  unfold routeSignals
  split
  · exact Elsewhere.await ((Sends.streamSignal cfg s x _).others r hx) (decide_eq_false (Ne.symm hx)) rfl
  · exact ⟨rfl, decide_eq_false (Ne.symm hx), rfl⟩
  · exact routeHops_elsewhere choice _ _ _ _ hx

theorem drainOutput_elsewhere (choice : Choice) (out : Out α) (hint : List String)
    (hidle : s.drain = .idle) (hx : r ≠ out.requestId ∨ (s.entries r).active = false) :
    Elsewhere r s (drainOutput cfg choice s out hint) := by
  unfold drainOutput
  split
  · exact ⟨rfl, by rw [hidle]; rfl, by rw [hidle]; rfl⟩
  · next hactive =>
    have hx : r ≠ out.requestId := by
      rcases hx with hx | hx
      · exact hx
      · rintro rfl
        exact hactive hx
    have hkeep : ∀ t, Elsewhere r { s with outputs := s.outputs ++ [out] } t → Elsewhere r s t :=
      fun t h => ⟨h.entry, h.routing, h.queued⟩
    refine hkeep _ ?_
    cases out with
    | result x data doneTargets next => exact routeSignals_elsewhere choice _ _ _ _ hx
    | error x => exact ⟨rfl, rfl, rfl⟩
    | stream x data target =>
      cases target with
      | some target => exact Elsewhere.await ((Sends.streamToTarget cfg choice _ _ _ _).others r hx) rfl rfl
      | none =>
        simp only
        split
        · unfold sendStreamToCoordinator
          split
          · exact Elsewhere.crash rfl _
          · split
            · exact ⟨rfl, by simp only [hidle]; rfl, by simp only [hidle]; rfl⟩
            · exact ⟨(Sends.countChunk _ x _).others r hx, rfl, rfl⟩
        · exact ⟨rfl, rfl, decide_eq_false (Ne.symm hx)⟩

/-! ### After an abort -/

structure Buried (r : String) (s : State α) : Prop where
  tombstone : r ∈ s.aborted
  inactive : (s.entries r).active = false
  started : s.drain.queued r = false
  empty : s.entries r = {} ∨ s.drain.routing r = true

/-- The tombstone is kept, and no result of the request that has recorded a stream target
raises. -/
def Undisturbed (cfg : Config α) (r : String) (s : State α) (e : Event α) : Prop :=
  r ∈ (step cfg s e).aborted ∧
    (s.drain.routing r = true → (step cfg s e).drain.isCrashed = true → s.entries r = {})

instance [DecidableEq α] (cfg : Config α) (r : String) (s : State α) (e : Event α) :
    Decidable (Undisturbed cfg r s e) :=
  inferInstanceAs (Decidable (_ ∧ (_ → _ → _)))

theorem Buried.elsewhere (h : Buried r s) (ht : r ∈ t.aborted) (hidle : s.drain.routing r = false)
    (he : Elsewhere r s t) : Buried r t := by
  have hempty : s.entries r = {} := h.empty.resolve_right (by simp [hidle])
  refine ⟨ht, ?_, he.queued, .inl ?_⟩
  · rw [he.entry]
    exact h.inactive
  · rw [he.entry]
    exact hempty

/-- The drain goes on with the request's own result. -/
theorem Buried.await {job : Job α} {p : State α × Option DrainError} (h : Buried r s) (hsends : Sends r s p.1)
    (hraises : ∀ e, p.2 = some e → p.1 = s) (hjob : (Drain.busy job).routing r = true)
    (hqueue : (Drain.busy job).queued r = false) (ht : r ∈ (await job p).aborted)
    (hcrash : (await job p).drain.isCrashed = true → s.entries r = {}) : Buried r (await job p) := by
  obtain ⟨_, heq⟩ | ⟨e, hp, heq⟩ := await_cases job p
  · rw [heq] at ht ⊢
    refine ⟨ht, ?_, hqueue, .inr hjob⟩
    exact hsends.active.trans h.inactive
  · rw [heq] at ht hcrash ⊢
    have hempty := hcrash (crash_isCrashed _ e)
    rw [hraises e hp] at ht ⊢
    refine ⟨ht, ?_, Drain.queued_crashed (crash_isCrashed s e), .inl ?_⟩
    · rw [crash_entries]
      exact h.inactive
    · rw [crash_entries]
      exact hempty

theorem Buried.cleared {d : Drain α} (ht : r ∈ s.aborted) (hd : d.queued r = false) :
    Buried r { clearRequestState s r with drain := d } :=
  ⟨ht, by rw [show State.entries _ r = _ from clear_self s r], hd, .inl (clear_self s r)⟩

section
variable (h : Buried r s)
include h

theorem Buried.routeHops (choice : Choice) (rest doneTargets : List String) (single : Bool)
    (result : α) (ht : r ∈ (routeHops cfg choice s r rest doneTargets single result).aborted)
    (hcrash : (routeHops cfg choice s r rest doneTargets single result).drain.isCrashed = true →
      s.entries r = {}) : Buried r (routeHops cfg choice s r rest doneTargets single result) := by
  cases rest with
  | nil => exact Buried.cleared h.tombstone rfl
  | cons target rest =>
    exact h.await (Sends.toStage cfg choice s r _ _ _ _) (fun _ => toStage_raises) (decide_eq_true rfl) rfl ht
      hcrash

theorem Buried.routeSignals (choice : Choice) (rest doneTargets : List String) (result : α)
    (next : Option (List String))
    (ht : r ∈ (routeSignals cfg choice s r rest doneTargets result next).aborted)
    (hcrash : (routeSignals cfg choice s r rest doneTargets result next).drain.isCrashed = true →
      s.entries r = {}) : Buried r (routeSignals cfg choice s r rest doneTargets result next) := by
  cases rest with
  | nil =>
    cases next with
    | none => exact ⟨h.tombstone, h.inactive, rfl, .inr (decide_eq_true rfl)⟩
    | some targets => exact h.routeHops choice _ _ _ _ ht hcrash
  | cons target rest =>
    exact h.await (Sends.streamSignal cfg s r _) (fun _ => streamSignal_raises) (decide_eq_true rfl) rfl ht
      hcrash

theorem Buried.kept (ht : r ∈ s'.aborted) (hentry : s'.entries r = s.entries r)
    (hdrain : s'.drain = s.drain) : Buried r s' :=
  ⟨ht, by rw [hentry]; exact h.inactive, by rw [hdrain]; exact h.started,
    by rw [hentry, hdrain]; exact h.empty⟩

/-- The drain raises. -/
theorem Buried.crash (e : DrainError) (ht : r ∈ (crash s e).aborted)
    (hcrash : s.drain.routing r = true → s.entries r = {}) : Buried r (crash s e) := by
  refine ⟨ht, ?_, Drain.queued_crashed (crash_isCrashed s e), .inl ?_⟩
  · rw [crash_entries]
    exact h.inactive
  · rw [crash_entries]
    exact h.empty.elim (fun hempty => hempty) hcrash

theorem Buried.idle (hcalm : s.drain.routing r = false) : Buried r { s with drain := .idle } :=
  h.elsewhere h.tombstone hcalm ⟨rfl, rfl, rfl⟩

/-- The end of a result or of a failure report. -/
theorem Buried.clear (x : String) (hx : r = x ∨ s.drain.routing r = false) :
    Buried r { clearRequestState s x with drain := .idle } := by
  by_cases hrx : r = x
  · subst hrx
    exact Buried.cleared h.tombstone rfl
  · exact h.elsewhere h.tombstone (hx.resolve_left hrx) ⟨clear_other s hrx, rfl, rfl⟩

theorem Buried.drainResumes (ok : Bool) (choice : Choice)
    (ht : r ∈ (drainResumes cfg choice s ok).aborted)
    (hcrash : s.drain.routing r = true → (drainResumes cfg choice s ok).drain.isCrashed = true →
      s.entries r = {}) : Buried r (drainResumes cfg choice s ok) := by
  cases hd : s.drain with
  | idle | crashed e =>
    simp only [Stage.drainResumes, hd]
    exact h
  | busy job =>
    cases job with
    | gather x data targets =>
      simp only [Stage.drainResumes, hd]
      exact h
    | stream x | gathering x =>
      simp only [Stage.drainResumes, hd] at ht hcrash ⊢
      split
      · next hok =>
        rw [if_pos hok] at ht
        exact h.crash _ ht (by simp [hd, Drain.routing])
      · exact h.idle (by rw [hd]; rfl)
    | failing x =>
      simp only [Stage.drainResumes, hd] at ht hcrash ⊢
      split
      · next hok =>
        rw [if_pos hok] at ht
        exact h.crash _ ht (by simp [hd, Drain.routing])
      · exact h.clear x (.inr (by rw [hd]; rfl))
    | completing x =>
      simp only [Stage.drainResumes, hd] at ht hcrash ⊢
      split
      · next hok =>
        rw [if_pos hok] at ht hcrash
        exact h.crash _ ht fun hr => hcrash (by rw [← hd]; exact hr) (crash_isCrashed s _)
      · refine h.clear x ?_
        by_cases hx : x = r
        · exact .inl hx.symm
        · exact .inr (by rw [hd]; exact decide_eq_false hx)
    | signals x rest doneTargets result next =>
      simp only [Stage.drainResumes, hd] at ht hcrash ⊢
      split
      · next hok =>
        rw [if_pos hok] at ht hcrash
        exact h.crash _ ht fun hr => hcrash (by rw [← hd]; exact hr) (crash_isCrashed s _)
      · next hok =>
        rw [if_neg hok] at ht hcrash
        by_cases hx : x = r
        · subst hx
          exact h.routeSignals choice _ _ _ _ ht fun hc => hcrash (decide_eq_true rfl) hc
        · exact h.elsewhere ht (by rw [hd]; exact decide_eq_false hx)
            (routeSignals_elsewhere choice _ _ _ _ (Ne.symm hx))
    | hops x rest doneTargets single result =>
      simp only [Stage.drainResumes, hd] at ht hcrash ⊢
      split
      · next hok =>
        rw [if_pos hok] at ht hcrash
        exact h.crash _ ht fun hr => hcrash (by rw [← hd]; exact hr) (crash_isCrashed s _)
      · next hok =>
        rw [if_neg hok] at ht hcrash
        by_cases hx : x = r
        · subst hx
          exact h.routeHops choice _ _ _ _ ht fun hc => hcrash (decide_eq_true rfl) hc
        · exact h.elsewhere ht (by rw [hd]; exact decide_eq_false hx)
            (routeHops_elsewhere choice _ _ _ _ (Ne.symm hx))

/-- A step of the drain, or of one of its sends. -/
theorem Buried.drain {e : Event α} (he : e.inbound = false) (hrule : Undisturbed cfg r s e) :
    Buried r (step cfg s e) := by
  obtain ⟨ht, hcrash⟩ := hrule
  cases e with
  | output out choice hint =>
    simp only [step] at ht hcrash ⊢
    split
    · next hidle =>
      rw [hidle] at ht
      refine h.elsewhere ht (by rw [hidle]; rfl) (drainOutput_elsewhere choice out hint hidle (.inr h.inactive))
    · exact h
  | gatherStarts choice =>
    simp only [step] at ht hcrash ⊢
    split
    · next x data targets hgather =>
      rw [hgather] at ht
      have hx : r ≠ x := by
        have hq := h.started
        rw [hgather] at hq
        exact Ne.symm (of_decide_eq_false hq)
      refine h.elsewhere ht (by rw [hgather]; rfl) (Elsewhere.await ?_ rfl rfl)
      exact (Sends.gather cfg choice x data targets (s, none)).others r hx
    · exact h
  | publish i | sendReturns i =>
    simp only [step, publish, sendReturns]
    split
    · exact h
    · split
      · exact h.kept h.tombstone rfl rfl
      · exact h
  | sendRaises i =>
    simp only [step, sendRaises] at ht hcrash ⊢
    split
    · exact h
    · next f hf =>
      rw [hf] at ht hcrash
      have hsame : Buried r { s with flights := s.flights.eraseIdx i } :=
        ⟨h.tombstone, h.inactive, h.started, h.empty⟩
      exact hsame.crash _ ht fun hr => hcrash hr (crash_isCrashed _ _)
  | drainResumes ok choice =>
    simp only [step] at ht hcrash ⊢
    split
    · next hf =>
      rw [if_pos hf] at ht hcrash
      exact h.drainResumes ok choice ht hcrash
    · exact h
  | _ => cases he

theorem Buried.step (e : Event α) (hrule : Undisturbed cfg r s e) :
    Buried r (step cfg s e) := by
  cases he : e.inbound with
  | false => exact h.drain he hrule
  | true =>
    have ht := hrule.1
    rcases step_inbound cfg s e he with hsame | ⟨x, hx⟩ | ⟨x, hx⟩
    · rw [hsame]
      exact h
    · have hentry : (Stage.step cfg s e).entries r = s.entries r := by
        by_cases hrx : r = x
        · subst hrx
          exact hx.tombstoned h.tombstone
        · exact hx.others r hrx
      exact h.kept ht hentry hx.rest.1
    · have hdrain := hx.rest.1
      have hentry : (Stage.step cfg s e).entries r = s.entries r ∨ (Stage.step cfg s e).entries r = {} := by
        rw [hx.entries]
        by_cases hrx : r = x
        · subst hrx
          exact .inr (Function.update_self ..)
        · exact .inl (Function.update_of_ne hrx ..)
      refine ⟨ht, ?_, by rw [hdrain]; exact h.started, ?_⟩
      · rcases hentry with hentry | hentry
        · rw [hentry]
          exact h.inactive
        · rw [hentry]
      · rcases hentry with hentry | hentry
        · rw [hentry, hdrain]
          exact h.empty
        · exact .inl hentry

end

/-- **No resurrection.** In every run of a stage, take an abort of a request that finds no
gathered sends of it waiting for their first step; while its tombstone is kept and no
result of it that has recorded a stream target raises, the request has no entry in any
table whenever no result of it is being routed, whatever else comes in. -/
theorem no_resurrection (cfg : Config α) (before after : List (Event α)) (r : String) (hint : List String)
    (hstarted : (run (step cfg) State.create before).drain.queued r = false)
    (hkept : r ∈ (run (step cfg) State.create (before ++ [.abort r hint])).aborted)
    (hafter : Along (step cfg) (Undisturbed cfg r)
      (run (step cfg) State.create (before ++ [.abort r hint])) after)
    (hrouted : (run (step cfg) State.create (before ++ .abort r hint :: after)).drain.routing r = false) :
    (run (step cfg) State.create (before ++ .abort r hint :: after)).entries r = {} := by
  have habort : Buried r (run (step cfg) State.create (before ++ [.abort r hint])) := by
    rw [run_concat] at hkept ⊢
    refine ⟨hkept, ?_, hstarted, .inl (clear_self _ r)⟩
    rw [show (step cfg _ (.abort r hint)).entries r = {} from clear_self _ r]
  have hrun : Buried r (run (step cfg) State.create (before ++ .abort r hint :: after)) := by
    rw [List.append_cons, run_append]
    exact along_invariant habort (fun t e ht hr => ht.step e hr) after hafter
  exact hrun.empty.resolve_right (by rw [hrouted]; simp)

/-- A stage that streams to `t`, over the relay. -/
def streaming : Config Nat where
  name := "a"
  topology := ⟨∅⟩
  endpoints := ["t"]
  sameProcessTargets := []
  localDispatcher := false
  streamTargets := ["t"]
  isTerminal := false
  streamQueue := false
  canAcceptStreamBeforePayload := false
  inputHandler := .direct

def viaRelay : Choice where
  transport := fun _ => some .relay
  isolated := false

/-- A chunk is on its way when the abort comes, and a message of the request after it. -/
theorem no_resurrection_chunk_in_flight :
    (run (step streaming) State.create
      ([.submit "r" 0 none, .output (.stream "r" 7 none) viaRelay [], .gatherStarts viaRelay] ++
        .abort "r" [] ::
        [.publish 0, .sendReturns 0, .drainResumes true viaRelay,
          .dataReady ⟨"r", "z", .inline, .chunk 0 1, none⟩, .taskStarts 0 true, .taskProceeds 0 []])).entries
      "r" = {} :=
  no_resurrection streaming _ _ "r" [] (by decide) (by decide) (by decide) (by decide)

/-- The abort comes between the check of the outbox message and the first step of the
gathered send: the counter, the first-chunk mark and the target are recorded again. -/
theorem gathered_send_resurrects :
    let s := run (step streaming) State.create
      [.submit "r" 0 none, .output (.stream "r" 7 none) viaRelay [], .abort "r" [], .gatherStarts viaRelay,
        .publish 0, .sendReturns 0, .drainResumes true viaRelay]
    "r" ∈ s.aborted ∧ s.tasks = [] ∧ s.failures = [] ∧ s.flights = [] ∧ s.drain = .idle ∧
      s.entries "r" ≠ {} := by
  decide

end SglangOmni.Pipeline.Stage
