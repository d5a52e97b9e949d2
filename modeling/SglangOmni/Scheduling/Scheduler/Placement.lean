import SglangOmni.Scheduling.Scheduler.Invariants

/-! A request is where the scheduler looks for it.

A request that is neither finished nor aborted is queued, running, or in the batch of the
iteration. That batch is `cur_batch` from the plan to the end of the iteration, and `last_batch`
until the next plan. The snapshot of a launched step is a batch of its own, so that trimming it
takes nobody out of the others. -/
namespace SglangOmni.Scheduling.Scheduler
open Lib

variable {cfg : Config} {s s' : State}

def lastReqs (s : State) : List Nat := (s.batches.lastBatch.map s.batches.reqs).getD []

/-- The iteration has its batch. -/
def Phase.running : Phase → Bool
  | .planned _ | .resolving _ | .ended => true
  | _ => false

/-- The requests of the batch of this iteration, or of the last one. -/
def currentReqs (s : State) : List Nat := if s.phase.running then curReqs s else lastReqs s

/-- Where the scheduler can find a request. -/
def found (s : State) : List Nat := s.waiting ++ s.batches.reqs s.batches.runningBatch ++ currentReqs s

/-- A snapshot that is in flight, or being resolved. -/
def InFlight (s : State) (p : Pending) : Prop := s.batches.asyncPending = some p ∨ s.phase = .resolving p

structure Placed (s : State) : Prop where
  apart : ∀ p, InFlight s p →
    s.batches.runningBatch ≠ p.batch ∧ s.batches.curBatch ≠ some p.batch ∧ s.batches.lastBatch ≠ some p.batch
  placed : ∀ q, q < s.reqCount → (s.batches.req q).finished = false → (s.batches.req q).rid ∉ s.abortLog →
    q ∈ found s
  runnable : ∀ flushed, s.phase = .planned flushed → ∀ q ∈ curReqs s, (s.batches.req q).isRetracted = false

theorem mem_found {q : Nat} : q ∈ found s ↔
    q ∈ s.waiting ∨ q ∈ s.batches.reqs s.batches.runningBatch ∨ q ∈ currentReqs s := by
  simp only [found, List.mem_append, or_assoc]

theorem mem_curReqs {q : Nat} : q ∈ curReqs s ↔ ∃ b, s.batches.curBatch = some b ∧ q ∈ s.batches.reqs b := by
  cases hb : s.batches.curBatch with
  | none => simp [curReqs, hb]
  | some b => simp [curReqs, hb]

theorem mem_lastReqs {q : Nat} : q ∈ lastReqs s ↔ ∃ b, s.batches.lastBatch = some b ∧ q ∈ s.batches.reqs b := by
  cases hb : s.batches.lastBatch with
  | none => simp [lastReqs, hb]
  | some b => simp [lastReqs, hb]

/-- What is found is in the queue or in a batch. -/
theorem mem_places_of_found {q : Nat} (hq : q ∈ found s) : q ∈ s.batches.listed ++ s.waiting := by
  rw [List.mem_append, Batches.mem_listed]
  obtain hq | hq | hq := mem_found.mp hq
  · exact .inr hq
  · exact .inl ⟨.running, _, rfl, hq⟩
  · unfold currentReqs at hq
    split at hq
    · obtain ⟨b, hb, hq⟩ := mem_curReqs.mp hq
      exact .inl ⟨.cur, b, hb, hq⟩
    · obtain ⟨b, hb, hq⟩ := mem_lastReqs.mp hq
      exact .inl ⟨.last, b, hb, hq⟩

/-! ### Frames -/

/-- Nobody has moved, and nobody but finished requests has changed. -/
structure SamePlaces (s s' : State) : Prop where
  waiting : s'.waiting = s.waiting
  reqs : s'.batches.reqs = s.batches.reqs
  runningBatch : s'.batches.runningBatch = s.batches.runningBatch
  curBatch : s'.batches.curBatch = s.batches.curBatch
  lastBatch : s'.batches.lastBatch = s.batches.lastBatch
  asyncPending : s'.batches.asyncPending = s.batches.asyncPending
  rid : ∀ q, (s'.batches.req q).rid = (s.batches.req q).rid
  finished : ∀ q, (s'.batches.req q).finished = false → (s.batches.req q).finished = false
  isRetracted : ∀ q, (s'.batches.req q).isRetracted = (s.batches.req q).isRetracted
  reqCount : s'.reqCount = s.reqCount
  abortLog : s'.abortLog = s.abortLog
  phase : s'.phase = s.phase

theorem SamePlaces.refl (s : State) : SamePlaces s s :=
  ⟨rfl, rfl, rfl, rfl, rfl, rfl, fun _ => rfl, fun _ h => h, fun _ => rfl, rfl, rfl, rfl⟩

theorem SamePlaces.trans {t : State} (h : SamePlaces s s') (h' : SamePlaces s' t) : SamePlaces s t :=
  ⟨h'.waiting.trans h.waiting, h'.reqs.trans h.reqs, h'.runningBatch.trans h.runningBatch,
    h'.curBatch.trans h.curBatch, h'.lastBatch.trans h.lastBatch, h'.asyncPending.trans h.asyncPending,
    fun q => (h'.rid q).trans (h.rid q), fun q hq => h.finished q (h'.finished q hq),
    fun q => (h'.isRetracted q).trans (h.isRetracted q), h'.reqCount.trans h.reqCount, h'.abortLog.trans h.abortLog,
    h'.phase.trans h.phase⟩

theorem SamePlaces.curReqs (h : SamePlaces s s') : curReqs s' = curReqs s := by
  simp only [Scheduler.curReqs, h.curBatch, h.reqs]

theorem SamePlaces.found (h : SamePlaces s s') : found s' = found s := by
  simp only [Scheduler.found, currentReqs, lastReqs, h.curReqs, h.waiting, h.reqs, h.runningBatch, h.lastBatch,
    h.phase]

theorem Placed.same (h : Placed s) (hs : SamePlaces s s') : Placed s' where
  apart p hp := by
    rw [InFlight, hs.asyncPending, hs.phase] at hp
    rw [hs.runningBatch, hs.curBatch, hs.lastBatch]
    exact h.apart p hp
  placed q hq hf hr := by
    rw [hs.reqCount] at hq
    rw [hs.rid, hs.abortLog] at hr
    rw [hs.found]
    exact h.placed q hq (hs.finished q hf) hr
  runnable flushed hphase q hq := by
    rw [hs.phase] at hphase
    rw [hs.curReqs] at hq
    rw [hs.isRetracted]
    exact h.runnable flushed hphase q hq

/-- On to a phase of the same kind. -/
theorem Placed.atPhase (h : Placed s) {phase : Phase} (hrunning : phase.running = s.phase.running)
    (hresolving : ∀ p, phase ≠ .resolving p)
    (hplanned : ∀ flushed, phase = .planned flushed → ∃ f, s.phase = .planned f) :
    Placed { s with phase } where
  apart p hp := by
    obtain hp | hp := hp
    · exact h.apart p (.inl hp)
    · exact absurd hp (hresolving p)
  placed q hq hf hr := by
    have hfound : found { s with phase } = found s := by
      simp only [found, currentReqs, hrunning]
      rfl
    rw [hfound]
    exact h.placed q hq hf hr
  runnable flushed hphase q hq := by
    obtain ⟨f, hf⟩ := hplanned flushed hphase
    exact h.runnable f hf q hq

/-- Whoever is not aborted stays where it is. -/
theorem Placed.cut {rs : List String} (h : Placed s) (hcut : Cut rs s s') : Placed s' := by
  have hrunning : s'.batches.runningBatch = s.batches.runningBatch := by
    have := hcut.slot .running
    exact Option.some.inj this
  have hcur : s'.batches.curBatch = s.batches.curBatch := hcut.slot .cur
  have hlast : s'.batches.lastBatch = s.batches.lastBatch := hcut.slot .last
  refine ⟨?_, ?_, ?_⟩
  · intro p hp
    rw [InFlight, hcut.pending, hcut.phase] at hp
    rw [hrunning, hcur, hlast]
    exact h.apart p hp
  · intro q hq hf hr
    rw [hcut.reqCount] at hq
    rw [hcut.finished] at hf
    rw [hcut.rid, hcut.abortLog, List.mem_append, not_or] at hr
    rw [mem_found]
    obtain hw | hw | hw := mem_found.mp (h.placed q hq hf hr.1)
    · exact .inl (hcut.waiting_keep q hw hr.2)
    · rw [hrunning]
      exact .inr (.inl (hcut.reqs_keep _ q hw hr.2))
    · refine .inr (.inr ?_)
      simp only [currentReqs, hcut.phase] at hw ⊢
      split at hw
      · obtain ⟨b, hb, hw⟩ := mem_curReqs.mp hw
        rw [if_pos ‹_›]
        exact mem_curReqs.mpr ⟨b, hcur.trans hb, hcut.reqs_keep b q hw hr.2⟩
      · obtain ⟨b, hb, hw⟩ := mem_lastReqs.mp hw
        rw [if_neg ‹_›]
        exact mem_lastReqs.mpr ⟨b, hlast.trans hb, hcut.reqs_keep b q hw hr.2⟩
  · intro flushed hphase q hq
    rw [hcut.phase] at hphase
    obtain ⟨b, hb, hq⟩ := mem_curReqs.mp hq
    rw [hcut.isRetracted]
    exact h.runnable flushed hphase q (mem_curReqs.mpr ⟨b, hcur.symm.trans hb, hcut.reqs b q hq⟩)

theorem RecvFrame.samePlaces (h : RecvFrame s s') : SamePlaces s s' where
  waiting := h.waiting
  reqs := by rw [h.batches]
  runningBatch := by rw [h.batches]
  curBatch := by rw [h.batches]
  lastBatch := by rw [h.batches]
  asyncPending := by rw [h.batches]
  rid q := by rw [h.batches]
  finished q := by
    rw [h.batches]
    exact id
  isRetracted q := by rw [h.batches]
  reqCount := h.reqCount
  abortLog := h.abortLog
  phase := h.phase

/-! ### Admission -/

theorem placed_enqueue (h : Placed s) (hknown : Known s) (r : String) (handed : List Handed) :
    Placed (enqueue s r handed) := by
  have hold : ∀ q, q < s.reqCount → (enqueue s r handed).batches.req q = s.batches.req q := by
    intro q hq
    simp only [enqueue, Batches.setReq, Function.update_of_ne (Nat.ne_of_lt hq)]
  refine ⟨h.apart, ?_, ?_⟩
  · intro q hq hf hr
    obtain hq | rfl := Nat.lt_or_eq_of_le (Nat.le_of_lt_succ hq)
    · rw [hold q hq] at hf hr
      obtain hw | hw := mem_found.mp (h.placed q hq hf hr)
      · exact mem_found.mpr (.inl (List.mem_append_left _ hw))
      · exact mem_found.mpr (.inr hw)
    · exact mem_found.mpr (.inl (List.mem_append_right _ (List.mem_singleton.mpr rfl)))
  · intro flushed hphase q hq
    obtain ⟨b, hb, hmem⟩ := mem_curReqs.mp hq
    rw [hold q (hknown.listed q (Batches.mem_listed.mpr ⟨.cur, b, hb, hmem⟩))]
    exact h.runnable flushed hphase q hq

theorem admitRule_placed (cfg : Config) : AdmitRule cfg fun s => Known s ∧ Placed s where
  tables _ _ _ _ _ h := ⟨{ h.1 with }, h.2.same { SamePlaces.refl _ with }⟩
  fail t r d h := ⟨h.1.cut (cut_fail cfg t r d), h.2.cut (cut_fail cfg t r d)⟩
  enqueue _ r handed h := ⟨known_enqueue h.1 r handed, placed_enqueue h.2 h.1 r handed⟩

/-! ### The engine -/

theorem Req.finish_finished (q : Req) : (Req.finish q).finished = true := by
  unfold Req.finish
  split
  · assumption
  · rfl

theorem Req.finish_isRetracted (q : Req) : (Req.finish q).isRetracted = q.isRetracted := by
  unfold Req.finish
  split <;> rfl

theorem samePlaces_processBatchResult (s : State) (reqs finishing : List Nat) :
    SamePlaces s (processBatchResult s reqs finishing) := by
  refine
    { SamePlaces.refl s with
      rid := (sameTables_processBatchResult s reqs finishing).rid
      finished := fun q => ?_
      isRetracted := fun q => ?_ }
  · simp only [processBatchResult]
    split
    · rw [Req.finish_finished]
      intro h
      cases h
    · exact id
  · simp only [processBatchResult]
    split
    · exact Req.finish_isRetracted _
    · rfl

theorem samePlaces_detach (s : State) (q : Nat) :
    SamePlaces s { s with batches := s.batches.detachRequestData q } := by
  refine
    { SamePlaces.refl s with
      rid := rid_detachRequestData s.batches q
      finished := fun p => ?_
      isRetracted := fun p => ?_ }
  · simp only [req_detachRequestData]
    split
    · next hp =>
      rw [hp]
      exact id
    · exact id
  · simp only [req_detachRequestData]
    split
    · next hp => rw [hp]
    · rfl

theorem samePlaces_closeCompletedRequest (s : State) (q : Nat) : SamePlaces s (closeCompletedRequest s q) := by
  have h1 := samePlaces_detach s q
  unfold closeCompletedRequest rememberCompletedRequest
  dsimp only
  split
  · exact h1
  · exact { h1 with }

theorem samePlaces_streamOutput (s : State) : SamePlaces s (streamOutput s) := by
  unfold streamOutput
  split
  · exact .refl s
  · next q rest _ =>
    have hpop : SamePlaces s { s with streaming := rest } := { SamePlaces.refl s with }
    dsimp only
    split
    · exact hpop
    · split
      · exact hpop.trans (samePlaces_detach _ q)
      · split
        · exact hpop
        · split
          · exact hpop.trans (samePlaces_closeCompletedRequest _ q)
          · refine { hpop with rid := fun p => ?_, finished := fun p => ?_, isRetracted := fun p => ?_ }
            · by_cases hp : p = q
              · subst hp
                simp [Batches.setReq]
              · simp [Batches.setReq, hp]
            · by_cases hp : p = q
              · subst hp
                simp [Batches.setReq, Req.finished]
              · simp [Batches.setReq, hp]
            · by_cases hp : p = q
              · subst hp
                simp [Batches.setReq]
              · simp [Batches.setReq, hp]

theorem placed_terminalOutput (h : Placed s) (yields : Nat) (ok : Bool) : Placed (terminalOutput cfg s yields ok) := by
  unfold terminalOutput
  split
  · exact h
  · next q _ =>
    have h1 : Placed { s with claimed := none, outbox := s.outbox ++ streamMessages (s.batches.req q).rid yields } :=
      h.same { SamePlaces.refl s with }
    have h2 := h1.same (samePlaces_closeCompletedRequest _ q)
    dsimp only
    split
    · exact h2.same { SamePlaces.refl _ with }
    · exact h2.cut (cut_emitRequestError cfg _ _)

/-- A snapshot that is trimmed is nobody's batch. -/
theorem Placed.trim (h : Placed s) {p : Pending} (hp : InFlight s p) (l : List Nat) :
    Placed { s with batches := { s.batches with reqs := Function.update s.batches.reqs p.batch l } } := by
  obtain ⟨hrunning, hcur, hlast⟩ := h.apart p hp
  have hcurReqs : curReqs { s with batches := { s.batches with reqs := Function.update s.batches.reqs p.batch l } } =
      curReqs s := by
    cases hb : s.batches.curBatch with
    | none => simp only [curReqs, hb, Option.map_none]
    | some b =>
      have hne : b ≠ p.batch := fun he => hcur (he ▸ hb)
      simp only [curReqs, hb, Option.map_some, Function.update_of_ne hne]
  have hlastReqs : lastReqs { s with batches := { s.batches with reqs := Function.update s.batches.reqs p.batch l } } =
      lastReqs s := by
    cases hb : s.batches.lastBatch with
    | none => simp only [lastReqs, hb, Option.map_none]
    | some b =>
      have hne : b ≠ p.batch := fun he => hlast (he ▸ hb)
      simp only [lastReqs, hb, Option.map_some, Function.update_of_ne hne]
  refine ⟨h.apart, ?_, ?_⟩
  · intro q hq hf hr
    have hfound := h.placed q hq hf hr
    simp only [found, currentReqs, hcurReqs, hlastReqs, Function.update_of_ne hrunning] at hfound ⊢
    exact hfound
  · intro flushed hphase q hq
    rw [hcurReqs] at hq
    exact h.runnable flushed hphase q hq

theorem placed_resolveAndProcess (h : Placed s) {pending : Pending}
    (hapart : Placed { s with batches := { s.batches with
      reqs := Function.update s.batches.reqs pending.batch
        ((s.batches.reqs pending.batch).filter fun q => !leftOver s q) } }) (step : Step) :
    Placed (resolveAndProcess cfg s pending step) := by
  unfold resolveAndProcess
  dsimp only
  split
  · exact h.cut (cut_handleBatchFailure cfg _ _)
  · exact h
  · refine Placed.same ?_ (samePlaces_processBatchResult _ _ _)
    exact hapart.same { SamePlaces.refl _ with }

theorem placed_resolvePendingAsync (h : Placed s) (step : Step) : Placed (resolvePendingAsync cfg s step) := by
  unfold resolvePendingAsync
  split
  · exact h
  · next pending hpending =>
    have hflushed : ∀ reqs, Placed { s with batches := { s.batches with reqs } } →
        Placed { s with batches := { s.batches with reqs, asyncPending := none } } := by
      intro reqs h1
      refine ⟨?_, h1.placed, h1.runnable⟩
      intro p hp
      obtain hp | hp := hp
      · cases hp
      · exact h1.apart p (.inr hp)
    refine placed_resolveAndProcess (hflushed _ h) ?_ step
    exact hflushed _ (h.trim (.inl hpending) _)

/-- What is dropped from the batch has finished: nobody in it was taken back. -/
theorem placed_dropStaleOverrun (h : Placed s) {flushed : Bool} (hphase : s.phase = .planned flushed) :
    Placed (dropStaleOverrun s) := by
  unfold dropStaleOverrun
  split
  · exact h
  · next b hb =>
    dsimp only
    split
    · exact h
    · have hkept : ∀ q ∈ s.batches.reqs b, (s.batches.req q).finished = false →
          q ∈ (s.batches.reqs b).filter fun q => !leftOver s q := by
        intro q hq hf
        have hretracted := h.runnable flushed hphase q (mem_curReqs.mpr ⟨b, hb, hq⟩)
        exact List.mem_filter.mpr ⟨hq, by simp [leftOver, hf, hretracted]⟩
      refine ⟨?_, ?_, ?_⟩
      · intro p hp
        obtain ⟨h1, h2, h3⟩ := h.apart p hp
        refine ⟨h1, ?_, h3⟩
        dsimp only
        split
        · exact fun hn => nomatch hn
        · rw [← hb]
          exact h2
      · intro q hq hf hr
        have hplaced := h.placed q hq hf hr
        rw [mem_found] at hplaced ⊢
        obtain hw | hw | hw := hplaced
        · exact .inl hw
        · refine .inr (.inl ?_)
          by_cases hx : s.batches.runningBatch = b
          · simp only [hx, Function.update_self]
            exact hkept q (hx ▸ hw) hf
          · simp only [Function.update_of_ne hx]
            exact hw
        · simp only [currentReqs, hphase, Phase.running, if_true] at hw
          obtain ⟨x, hx, hw⟩ := mem_curReqs.mp hw
          rw [hb] at hx
          cases hx
          have hmem := hkept q hw hf
          refine .inr (.inr ?_)
          simp only [currentReqs, hphase, Phase.running, if_true]
          refine mem_curReqs.mpr ⟨b, ?_, ?_⟩
          · exact if_neg (List.ne_nil_of_mem hmem)
          · simpa only [Function.update_self] using hmem
      · intro f hf q hq
        obtain ⟨x, hx, hq⟩ := mem_curReqs.mp hq
        have hxb : x = b := by
          dsimp only at hx
          split at hx
          · cases hx
          · exact (Option.some.inj hx).symm
        subst hxb
        simp only [Function.update_self] at hq
        exact h.runnable f hf q (mem_curReqs.mpr ⟨x, hb, (List.mem_filter.mp hq).1⟩)

theorem placed_runBatch (h : Placed s) (step : Step) : Placed (runBatch cfg s step) := by
  unfold runBatch
  split
  · exact h
  · split
    · refine Placed.same ?_ (samePlaces_processBatchResult _ _ _)
      exact h.same { SamePlaces.refl s with }
    · exact h.cut (cut_handleBatchFailure cfg _ _)

theorem phase_dropStaleOverrun (s : State) : (dropStaleOverrun s).phase = s.phase := by
  unfold dropStaleOverrun
  split
  · rfl
  · dsimp only
    split <;> rfl

theorem phase_runBatch (cfg : Config) (s : State) (step : Step) : (runBatch cfg s step).phase = s.phase := by
  unfold runBatch
  split
  · rfl
  · split
    · rfl
    · exact (cut_handleBatchFailure cfg _ _).phase

/-- The new snapshot is a batch that nobody had. -/
theorem placed_runBatchLaunch (h : Placed s) (hknown : Known s) (hphase : s.phase = .planned false)
    (b : Nat) (ok : Bool) :
    Placed (runBatchLaunch cfg s b ok) := by
  unfold runBatchLaunch
  split
  · have hcut := cut_handleBatchFailure cfg s (s.batches.reqs b)
    exact (h.cut hcut).atPhase (by rw [hcut.phase, hphase]; rfl) (fun p hp => nomatch hp) (fun f hf => nomatch hf)
  · have hfresh : ∀ i x, s.batches.slot i = some x → x ≠ s.batchCount :=
      fun i x hi => Nat.ne_of_lt (hknown.slots i x hi)
    have hcur : ∀ x, s.batches.curBatch = some x → x ≠ s.batchCount := hfresh .cur
    refine ⟨?_, ?_, ?_⟩
    · intro p hp
      obtain hp | hp := hp
      · cases hp
        exact ⟨hfresh .running _ rfl, fun hc => hfresh .cur _ hc rfl, fun hl => hfresh .last _ hl rfl⟩
      · refine h.apart p (.inl ?_)
        dsimp only at hp
        split at hp
        · cases hp
        · next prev hprev =>
          cases hp
          exact hprev
    · intro q hq hf hr
      have hplaced := h.placed q hq hf hr
      rw [mem_found] at hplaced ⊢
      obtain hw | hw | hw := hplaced
      · exact .inl hw
      · refine .inr (.inl ?_)
        simp only [Function.update_of_ne (hfresh .running _ rfl)]
        exact hw
      · refine .inr (.inr ?_)
        simp only [currentReqs, hphase, Phase.running, if_true] at hw
        obtain ⟨x, hx, hw⟩ := mem_curReqs.mp hw
        unfold currentReqs
        rw [if_pos (by dsimp only; split <;> rfl)]
        refine mem_curReqs.mpr ⟨x, hx, ?_⟩
        simp only [Function.update_of_ne (hcur x hx)]
        exact hw
    · intro f hf
      dsimp only at hf
      split at hf <;> cases hf

theorem placed_getNextBatchToRun (h : Placed s) {u : Plan} (hu : u.Sound s) (hphase : s.phase = .admitted) :
    Placed (getNextBatchToRun s u) := by
  have hreqs : ∀ x, (∀ p, s.batches.asyncPending = some p → x ≠ p.batch) →
      (getNextBatchToRun s u).batches.reqs x = u.reqs x := by
    intro x hx
    simp only [getNextBatchToRun]
    rw [if_neg]
    intro hsome
    obtain ⟨p, hp, rfl⟩ := Option.map_eq_some_iff.mp hsome.symm
    exact hx p hp rfl
  have hcur : curReqs (getNextBatchToRun s u) = u.batchReqs := by
    cases hb : u.batch with
    | none => simp [curReqs, getNextBatchToRun, Plan.batchReqs, hb]
    | some b =>
      have hb' : (getNextBatchToRun s u).batches.curBatch = some b := hb
      have hsame := hreqs b fun p hp he => (hu.snapshot p hp).2 (he ▸ hb)
      simp only [curReqs, hb', Option.map_some, Option.getD_some, hsame, Plan.batchReqs, hb]
  refine ⟨?_, ?_, ?_⟩
  · intro p hp
    obtain hp | hp := hp
    · exact ⟨(hu.snapshot p hp).1, (hu.snapshot p hp).2, (h.apart p (.inl hp)).2.2⟩
    · cases hp
  · intro q hq hf hr
    have hheld : q ∈ held s := by
      simp only [held, List.mem_append]
      obtain hw | hw | hw := mem_found.mp (h.placed q hq hf hr)
      · exact .inl (.inl (.inl hw))
      · exact .inl (.inl (.inr hw))
      · simp only [currentReqs, hphase, Phase.running, Bool.false_eq_true, if_false] at hw
        exact .inl (.inr hw)
    have hplaced := hu.keeps q hheld hf
    simp only [Plan.placed, List.mem_append] at hplaced
    rw [mem_found]
    obtain (hw | hw) | hw := hplaced
    · exact .inl hw
    · refine .inr (.inl ?_)
      have hsame := hreqs u.runningBatch fun p hp => (hu.snapshot p hp).1
      exact hsame ▸ hw
    · have hcurrent : currentReqs (getNextBatchToRun s u) = curReqs (getNextBatchToRun s u) := if_pos rfl
      rw [hcurrent, hcur]
      exact .inr (.inr hw)
  · intro f _ q hq
    rw [hcur] at hq
    exact (hu.runnable q hq).2

/-- The running requests are queued again, but for those that upstream refuses, which are aborted. -/
theorem placed_retractRunningRequests (h : Placed s) (hrunning : s.phase.running = false) (refused : List Nat) :
    Placed (retractRunningRequests cfg s refused) := by
  have hcut := cut_retractRunningRequests cfg s refused
  have hrid : ∀ q, ((requeueRunningRequests s refused).batches.req q).rid = (s.batches.req q).rid :=
    (sameRequests_requeueRunningRequests s refused).rid
  have hfinished : ∀ q, ((requeueRunningRequests s refused).batches.req q).finished = (s.batches.req q).finished := by
    intro q
    simp only [Req.finished, (sameRequests_requeueRunningRequests s refused).finishedReason]
  -- up to the refused ones, everybody has a place
  have hplaced : ∀ q, q < s.reqCount → (s.batches.req q).finished = false → (s.batches.req q).rid ∉ s.abortLog →
      q ∈ found (requeueRunningRequests s refused) ∨ q ∈ (retracted s).filter (· ∈ refused) := by
    intro q hq hf hr
    have hback : q ∈ s.batches.reqs s.batches.runningBatch →
        q ∈ found (requeueRunningRequests s refused) ∨ q ∈ (retracted s).filter (· ∈ refused) := by
      intro hw
      have hmem : q ∈ retracted s := List.mem_filter.mpr ⟨hw, by simpa using hf⟩
      by_cases href : q ∈ refused
      · exact .inr (List.mem_filter.mpr ⟨hmem, by simpa using href⟩)
      · refine .inl (mem_found.mpr (.inl (List.mem_append_right _ ?_)))
        exact List.mem_filter.mpr ⟨hmem, by simpa using href⟩
    obtain hw | hw | hw := mem_found.mp (h.placed q hq hf hr)
    · exact .inl (mem_found.mpr (.inl (List.mem_append_left _ hw)))
    · exact hback hw
    · simp only [currentReqs, hrunning, Bool.false_eq_true, if_false] at hw
      obtain ⟨b, hb, hw⟩ := mem_lastReqs.mp hw
      by_cases hx : b = s.batches.runningBatch
      · exact hback (hx ▸ hw)
      · refine .inl (mem_found.mpr (.inr (.inr ?_)))
        have hphase : (requeueRunningRequests s refused).phase.running = false := hrunning
        simp only [currentReqs, hphase, Bool.false_eq_true, if_false]
        refine mem_lastReqs.mpr ⟨b, hb, ?_⟩
        simp only [requeueRunningRequests, Function.update_of_ne hx]
        exact hw
  have hcutSame : ∀ q, q ∈ found (requeueRunningRequests s refused) →
      ((requeueRunningRequests s refused).batches.req q).rid ∉
        ((retracted s).filter (· ∈ refused)).map (fun q => (s.batches.req q).rid) →
      q ∈ found (retractRunningRequests cfg s refused) := by
    intro q hw hne
    have hslots := hcut.slot
    rw [mem_found] at hw ⊢
    obtain hw | hw | hw := hw
    · exact .inl (hcut.waiting_keep q hw hne)
    · refine .inr (.inl ?_)
      have hb : (retractRunningRequests cfg s refused).batches.runningBatch =
          (requeueRunningRequests s refused).batches.runningBatch := Option.some.inj (hslots .running)
      rw [hb]
      exact hcut.reqs_keep _ q hw hne
    · refine .inr (.inr ?_)
      have hphase : (requeueRunningRequests s refused).phase.running = false := hrunning
      simp only [currentReqs, hcut.phase, hphase, Bool.false_eq_true, if_false] at hw ⊢
      obtain ⟨b, hb, hw⟩ := mem_lastReqs.mp hw
      exact mem_lastReqs.mpr ⟨b, (hslots .last).trans hb, hcut.reqs_keep b q hw hne⟩
  refine ⟨?_, ?_, ?_⟩
  · intro p hp
    rw [InFlight, hcut.pending, hcut.phase] at hp
    have hslots := hcut.slot
    have h1 : (retractRunningRequests cfg s refused).batches.runningBatch = s.batches.runningBatch :=
      Option.some.inj (hslots .running)
    have h2 : (retractRunningRequests cfg s refused).batches.curBatch = s.batches.curBatch := hslots .cur
    have h3 : (retractRunningRequests cfg s refused).batches.lastBatch = s.batches.lastBatch := hslots .last
    rw [h1, h2, h3]
    exact h.apart p hp
  · intro q hq hf hr
    rw [hcut.reqCount] at hq
    rw [hcut.finished, hfinished] at hf
    rw [hcut.rid, hrid, hcut.abortLog, List.mem_append, not_or] at hr
    obtain hw | hw := hplaced q hq hf hr.1
    · exact hcutSame q hw (by rw [hrid]; exact hr.2)
    · exact absurd (List.mem_map_of_mem hw) hr.2
  · intro f hf
    have hphase : s.phase = .planned f := hcut.phase.symm.trans hf
    rw [hphase] at hrunning
    cases hrunning

/-! ### Every run -/

theorem placed_create : Placed State.create where
  apart p hp := by
    obtain hp | hp := hp
    · cases hp
    · cases hp
  placed q hq := absurd hq (Nat.not_lt_zero q)
  runnable f hf := nomatch hf

theorem placed_finish (h : Placed s) (hphase : s.phase = .ended) :
    Placed { s with batches := { s.batches with lastBatch := s.batches.curBatch }, phase := .top } where
  apart p hp := by
    obtain hp | hp := hp
    · obtain ⟨h1, h2, _⟩ := h.apart p (.inl hp)
      exact ⟨h1, h2, h2⟩
    · cases hp
  placed q hq hf hr := by
    have hplaced := h.placed q hq hf hr
    rw [mem_found] at hplaced ⊢
    simp only [currentReqs, hphase, Phase.running, if_true] at hplaced
    exact hplaced
  runnable f hf := nomatch hf

theorem placed_step {e : Event} (hs : Sane s) (h : Placed s) (hu : Upstream s e) : Placed (step cfg s e) := by
  refine step_rule h fun s' hf => ?_
  cases hf with
  | recv msgs hphase _ =>
    have hframe := recvFrame_recvRequests cfg s msgs
    exact (h.same hframe.samePlaces).atPhase (by rw [hframe.phase, hphase]; rfl) (fun p hp => nomatch hp)
      (fun f hf => nomatch hf)
  | takeDeferred order recvReqs hphase =>
    have h1 : Placed (takeDeferredRequestPayloads s order).1 := h.same { SamePlaces.refl s with }
    have hsame : (takeDeferredRequestPayloads s order).1.phase = s.phase := rfl
    exact h1.atPhase (by rw [hsame, hphase]; rfl) (fun p hp => nomatch hp) (fun f hf => nomatch hf)
  | drainBuild answers _ => exact ((admitRule_placed cfg).drainBuild ⟨hs.known, h⟩ answers).2
  | drainAdmission r answers _ => exact ((admitRule_placed cfg).drainAdmission ⟨hs.known, h⟩ r answers).2
  | stage recvReqs hphase =>
    have h1 : SamePlaces s (stageRequestBuildPayloads cfg s recvReqs).1 := by
      rw [stage_backlog]
      exact { SamePlaces.refl s with }
    exact (h.same h1).atPhase (by rw [h1.phase, hphase]; rfl) (fun p hp => nomatch hp) (fun f hf => nomatch hf)
  | reject payload rejected selected hphase =>
    have hcut := cut_fail cfg s payload.requestId true
    exact (h.cut hcut).atPhase (by rw [hcut.phase, hphase]; rfl) (fun p hp => nomatch hp) (fun f hf => nomatch hf)
  | process result answers payload selected hphase =>
    have hframe := (admitRule_admitFrame cfg s).processInputRequest (AdmitFrame.refl s) payload result answers
    have h1 := ((admitRule_placed cfg).processInputRequest ⟨hs.known, h⟩ payload result answers).2
    exact h1.atPhase (by rw [hframe.phase, hphase]; rfl) (fun p hp => nomatch hp) (fun f hf => nomatch hf)
  | admitted hphase | pausedAgain hphase =>
    exact h.atPhase (by rw [hphase]; rfl) (fun p hp => nomatch hp) (fun f hf => nomatch hf)
  | upstreamAbort r => exact h.cut (cut_fail cfg s r false)
  | plan u hphase => exact placed_getNextBatchToRun h hu hphase
  | launch ok b hphase _ _ => exact placed_runBatchLaunch h hs.known hphase b ok
  | resolve step prev hphase =>
    have h1 : Placed (resolveAndProcess cfg s prev step) := placed_resolveAndProcess h (h.trim (.inr hphase) _) step
    exact h1.atPhase (by rw [phase_resolveAndProcess, hphase]; rfl) (fun p hp => nomatch hp) (fun f hf => nomatch hf)
  | run step flushed hphase _ =>
    cases flushed with
    | false =>
      exact (placed_runBatch h step).atPhase (by rw [phase_runBatch, hphase]; rfl) (fun p hp => nomatch hp)
        (fun f hf => nomatch hf)
    | true =>
      exact (placed_runBatch (placed_dropStaleOverrun h hphase) step).atPhase
        (by rw [phase_runBatch, phase_dropStaleOverrun, hphase]; rfl) (fun p hp => nomatch hp) (fun f hf => nomatch hf)
  | flush step _ _ => exact placed_resolvePendingAsync h step
  | flushPlanned step hphase _ =>
    have hsame := phase_resolvePendingAsync cfg s step
    exact (placed_resolvePendingAsync h step).atPhase (by rw [hsame, hphase]; rfl) (fun p hp => nomatch hp)
      (fun f _ => ⟨false, hsame.trans hphase⟩)
  | finish hphase => exact placed_finish h hphase
  | streamOutput _ => exact h.same (samePlaces_streamOutput s)
  | terminalOutput yields ok => exact placed_terminalOutput h yields ok
  | pause paused => exact h.same { SamePlaces.refl s with }
  | abortAll => exact h.cut (cut_abortAllRequests s)
  | retract refused hat =>
    refine placed_retractRunningRequests h ?_ refused
    unfold atAdmin at hat
    split at hat
    · next hphase => rw [hphase]; rfl
    · next hphase => rw [hphase]; rfl
    · cases hat
  | buildDone r result build _ => exact h.same { SamePlaces.refl s with }
  | stageAbort r => exact (h.cut (cut_abort s r true)).same { SamePlaces.refl _ with }

end SglangOmni.Scheduling.Scheduler
