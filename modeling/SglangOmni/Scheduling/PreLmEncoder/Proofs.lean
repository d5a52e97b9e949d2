import SglangOmni.Scheduling.PreLmEncoder.Model

/-! Every submitted item is answered once.

An entry whose future is pending is in the queue or with the worker, and once the worker has failed a submission returns
only with its future done, or with its entry among those that `_fail_worker` still goes through (`Sound`). The one gap
is between the done check of `_submit` and its completion: when `_fail_worker` completes the future there, `_submit`
raises `InvalidStateError`. -/
namespace SglangOmni.Scheduling.PreLmEncoder
open Lib

variable {Item M R E : Type}

/-- The entry has been put into the queue. -/
def Phase.entered : Phase E → Bool
  | .reading | .deciding _ | .setting _ | .returned | .invalid => true
  | _ => false

/-- Past a done check that found the future pending. -/
def Phase.isSetting : Phase E → Bool
  | .setting _ => true
  | _ => false

/-- The entries that the worker may ever come back to: `_fail_worker` goes through the whole batch again. -/
def Worker.entries : Worker Item M E → List (QueueEntry Item)
  | .retrying batch _ => batch
  | w => w.holds

/-- In `_fail_worker`, or past it. -/
def Worker.broken : Worker Item M E → Bool
  | .failing _ _ | .dead => true
  | _ => false

namespace State
variable (V : Service M R E) {c : Nat} {s s' : State Item M R E} {x : Submission Item R E}

/-- The hook has encoded the item to the embedding, at its place of a batch. -/
def Encoded (executed : List (List Item × Except E (List M))) (item : Item) (m : M) : Prop :=
  ∃ items embeddings, ∃ i : Nat, (items, .ok embeddings) ∈ executed ∧ embeddings.length = items.length ∧
    items[i]? = some item ∧ embeddings[i]? = some m

/-- What holds of a submission. -/
structure Sound (s : State Item M R E) (c : Nat) (x : Submission Item R E) : Prop where
  once : x.completions = x.future.isSome.toNat
  own : ∀ r, x.future = some (.ok r) → ∃ m, Encoded s.executed x.item m ∧ V.futureResult m = .ok r
  /-- A pending entry is in the queue or with the worker. -/
  waiting : x.phase.entered = true → x.future = none → ⟨x.item, c⟩ ∈ s.queue ++ s.worker.holds
  /-- After a failure, a pending future that was returned is one that the worker still completes. -/
  settled : s.workerError.isSome = true → x.phase = .returned → x.future = none → ⟨x.item, c⟩ ∈ s.worker.holds
  rejected : x.phase = .rejected → s.workerError.isSome = true
  failed : ∀ e, x.phase = .deciding e ∨ x.phase = .setting e → s.workerError.isSome = true

def WorkerSound (executed : List (List Item × Except E (List M))) : Worker Item M E → Prop
  | .completing rest => ∀ p ∈ rest, ∀ m, p.2 = .ok m → Encoded executed p.1.item m
  | .retrying batch rest => rest ⊆ batch
  | _ => True

structure Inv (s : State Item M R E) : Prop where
  broken : s.workerError.isSome = s.worker.broken
  entries : ∀ e ∈ s.queue ++ s.worker.entries, ∃ x, s.submissions e.submission = some x ∧ x.item = e.item
  worker : WorkerSound s.executed s.worker
  submissions : ∀ c x, s.submissions c = some x → Sound V s c x

variable {V}

theorem Inv.initial : Inv V ({} : State Item M R E) where
  broken := rfl
  entries := fun _ h => nomatch h
  worker := trivial
  submissions := fun _ _ h => nomatch h

theorem Encoded.mono {l l' : List (List Item × Except E (List M))} {item : Item} {m : M} (sub : l ⊆ l')
    (h : Encoded l item m) : Encoded l' item m := by
  obtain ⟨items, embeddings, i, hin, rest⟩ := h
  exact ⟨items, embeddings, i, sub hin, rest⟩

/-- The rest of the service moves on, and a pending entry is still where it can be completed. -/
theorem Sound.frame (h : Sound V s c x) (executed : s.executed ⊆ s'.executed) (error : s'.workerError = s.workerError)
    (waiting : x.future = none → ⟨x.item, c⟩ ∈ s.queue ++ s.worker.holds → ⟨x.item, c⟩ ∈ s'.queue ++ s'.worker.holds)
    (held : x.future = none → ⟨x.item, c⟩ ∈ s.worker.holds → ⟨x.item, c⟩ ∈ s'.worker.holds) : Sound V s' c x where
  once := h.once
  own := by
    intro r hr
    obtain ⟨m, hm, hres⟩ := h.own r hr
    exact ⟨m, hm.mono executed, hres⟩
  waiting := fun hp hf => waiting hf (h.waiting hp hf)
  settled := fun he hp hf => held hf (h.settled (error ▸ he) hp hf)
  rejected := fun hp => error ▸ h.rejected hp
  failed := fun e hp => error ▸ h.failed e hp

/-- A future that is completed is done with; only its value is to be shown. -/
theorem Sound.complete {t : State Item M R E} {r : Except E R}
    (h : Sound V s c x) (error : t.workerError = s.workerError) (pending : x.future = none)
    (own : ∀ v, r = .ok v → ∃ m, Encoded t.executed x.item m ∧ V.futureResult m = .ok v) :
    Sound V t c (x.complete r) where
  once := by
    show x.completions + 1 = 1
    rw [h.once, pending]
    rfl
  own := by
    intro v hv
    exact own v (Option.some.inj hv)
  waiting := fun _ hf => nomatch hf
  settled := fun _ _ hf => nomatch hf
  rejected := fun hp => error ▸ h.rejected hp
  failed := fun e hp => error ▸ h.failed e hp

/-! ### Steps of a submission -/

/-- One submission moves on. -/
theorem Inv.move {x' : Submission Item R E} (h : Inv V s)
    (hc : s.submissions c = some x) (submissions : s'.submissions = Function.update s.submissions c (some x'))
    (item : x'.item = x.item) (executed : s'.executed = s.executed) (error : s'.workerError = s.workerError)
    (worker : s'.worker = s.worker) (queue : s.queue ⊆ s'.queue)
    (entries : ∀ e ∈ s'.queue, e ∈ s.queue ∨ e = ⟨x.item, c⟩) (own : Sound V s' c x') : Inv V s' where
  broken := by rw [error, worker]; exact h.broken
  entries := by
    intro e he
    rw [worker] at he
    have hold : ∀ y, s.submissions e.submission = some y → y.item = e.item →
        ∃ z, s'.submissions e.submission = some z ∧ z.item = e.item := by
      intro y hy hi
      rw [submissions]
      by_cases hec : e.submission = c
      · rw [hec, hc] at hy
        cases hy
        exact ⟨x', by rw [hec, Function.update_self], item.trans hi⟩
      · exact ⟨y, by rw [Function.update_of_ne hec]; exact hy, hi⟩
    obtain he | he := List.mem_append.mp he
    · obtain he | rfl := entries e he
      · obtain ⟨y, hy, hi⟩ := h.entries e (List.mem_append_left _ he)
        exact hold y hy hi
      · exact hold x hc rfl
    · obtain ⟨y, hy, hi⟩ := h.entries e (List.mem_append_right _ he)
      exact hold y hy hi
  worker := by rw [executed, worker]; exact h.worker
  submissions := by
    intro d y hy
    rw [submissions] at hy
    by_cases hdc : d = c
    · rw [hdc, Function.update_self] at hy
      cases hy
      rw [hdc]
      exact own
    · rw [Function.update_of_ne hdc] at hy
      refine (h.submissions d y hy).frame (by rw [executed]; exact List.Subset.refl _) error ?_ ?_
      · intro _ hin
        rw [worker]
        exact (List.mem_append.mp hin).elim (fun hq => List.mem_append_left _ (queue hq)) (List.mem_append_right _)
      · intro _ hin
        rw [worker]
        exact hin

theorem Inv.setPhase {p : Phase E} (h : Inv V s)
    (hc : s.submissions c = some x) (own : Sound V (s.setSubmission c { x with phase := p }) c { x with phase := p }) :
    Inv V (s.setSubmission c { x with phase := p }) :=
  h.move hc rfl rfl rfl rfl rfl (List.Subset.refl _) (fun _ he => .inl he) own

theorem Inv.stepSubmit (h : Inv V s)
    (hc : s.submissions c = some x) (e : SubmitEvent) : Inv V (s.stepSubmit V c x e) := by
  have sound := h.submissions c x hc
  cases e with
  | check =>
    simp only [State.stepSubmit]
    split
    · refine h.setPhase hc ⟨sound.once, sound.own, ?_, ?_, ?_, ?_⟩
      all_goals by_cases he : s.workerError.isSome = true <;> simp [he, Phase.entered, setSubmission]
    · exact h
  | put =>
    simp only [State.stepSubmit]
    split
    · split
      · exact h
      · refine h.move hc rfl rfl rfl rfl rfl (List.subset_append_left _ _) ?_ ⟨sound.once, sound.own, ?_, ?_, ?_, ?_⟩
        · intro e he
          exact (List.mem_append.mp he).imp_right List.mem_singleton.mp
        · intro _ _
          simp [setSubmission]
        · exact fun _ hp => nomatch hp
        · exact fun hp => nomatch hp
        · exact fun _ hp => hp.elim (fun h => nomatch h) (fun h => nomatch h)
    · exact h
  | full =>
    simp only [State.stepSubmit]
    split
    · split
      · rename_i hfull
        have he : s.workerError.isSome = true := (Bool.and_eq_true_iff.mp hfull).2
        refine h.setPhase hc ⟨sound.once, sound.own, ?_, ?_, fun _ => he, fun _ _ => he⟩
        · exact fun hp => nomatch hp
        · exact fun _ hp => nomatch hp
      · exact h
    · exact h
  | read =>
    simp only [State.stepSubmit]
    split
    · rename_i hp
      refine h.setPhase hc ⟨sound.once, sound.own, fun _ hf => sound.waiting (by rw [hp]; rfl) hf, ?_, ?_, ?_⟩
      all_goals cases he : s.workerError <;> simp [he, setSubmission]
    · exact h
  | decide =>
    simp only [State.stepSubmit]
    split
    · rename_i e hp
      have he := sound.failed e (.inl hp)
      refine h.setPhase hc ⟨sound.once, sound.own, fun _ hf => sound.waiting (by rw [hp]; rfl) hf, ?_, fun _ => he,
        fun _ _ => he⟩
      intro _ hr hf
      have hf : x.future = none := hf
      simp [hf] at hr
    · exact h
  | set =>
    simp only [State.stepSubmit]
    split
    · rename_i e hp
      have he := sound.failed e (.inr hp)
      split
      · refine h.setPhase hc ⟨sound.once, sound.own, fun _ hf => sound.waiting (by rw [hp]; rfl) hf, ?_, fun _ => he,
          fun _ _ => he⟩
        exact fun _ hr => nomatch hr
      · rename_i hf
        have pending : x.future = none := by simpa using hf
        have done := sound.complete (t := s) (r := .error e) rfl pending (fun _ hv => nomatch hv)
        refine h.move hc rfl rfl rfl rfl rfl (List.Subset.refl _) (fun _ he => .inl he)
          ⟨done.once, done.own, (fun _ hf => nomatch hf), (fun _ _ hf => nomatch hf), fun _ => he, fun _ _ => he⟩
    · exact h

/-! ### Steps of the worker -/

/-- The worker goes on with entries of the queue and its own, and completes no future. -/
theorem Inv.worker_move (h : Inv V s) (submissions : s'.submissions = s.submissions)
    (executed : s.executed ⊆ s'.executed) (error : s'.workerError = s.workerError)
    (broken : s'.worker.broken = s.worker.broken)
    (entries : ∀ e ∈ s'.queue ++ s'.worker.entries, e ∈ s.queue ++ s.worker.entries)
    (waiting : ∀ e ∈ s.queue ++ s.worker.holds, e ∈ s'.queue ++ s'.worker.holds)
    (held : ∀ e ∈ s.worker.holds, e ∈ s'.worker.holds) (worker : WorkerSound s'.executed s'.worker) : Inv V s' where
  broken := by rw [error, broken]; exact h.broken
  entries := by
    intro e he
    rw [submissions]
    exact h.entries e (entries e he)
  worker := worker
  submissions := by
    intro c x hc
    rw [submissions] at hc
    exact (h.submissions c x hc).frame executed error (fun _ => waiting _) (fun _ => held _)

/-- The worker goes on with what it had. -/
theorem Inv.worker_same (h : Inv V s) (submissions : s'.submissions = s.submissions) (queue : s'.queue = s.queue)
    (executed : s.executed ⊆ s'.executed) (error : s'.workerError = s.workerError)
    (broken : s'.worker.broken = s.worker.broken) (entries : s'.worker.entries = s.worker.entries)
    (holds : s'.worker.holds = s.worker.holds) (worker : WorkerSound s'.executed s'.worker) : Inv V s' := by
  refine h.worker_move submissions executed error broken ?_ ?_ ?_ worker
  · rw [queue, entries]
    exact fun _ he => he
  · rw [queue, holds]
    exact fun _ he => he
  · rw [holds]
    exact fun _ he => he

/-- The worker completes the future of its next entry, unless it is done. -/
theorem Inv.complete_move {entry : QueueEntry Item} {r : Except E R} (h : Inv V s)
    (submissions : s'.submissions = (s.complete entry r).submissions) (queue : s'.queue = s.queue)
    (error : s'.workerError = s.workerError) (executed : s.executed ⊆ s'.executed)
    (held : s.worker.holds = entry :: s'.worker.holds) (mine : entry ∈ s.worker.entries)
    (entries : ∀ e ∈ s'.worker.entries, e ∈ s.worker.entries) (broken : s'.worker.broken = s.worker.broken)
    (worker : WorkerSound s'.executed s'.worker)
    (own : ∀ v, r = .ok v → ∃ m, Encoded s'.executed entry.item m ∧ V.futureResult m = .ok v) : Inv V s' := by
  obtain ⟨x, hx, hi⟩ := h.entries entry (List.mem_append_right _ mine)
  -- Whoever waits with another entry waits on.
  have frame : ∀ c y, s.submissions c = some y → (c = entry.submission → y.future.isSome = true) → Sound V s' c y := by
    intro c y hc hdone
    have other : y.future = none → (⟨y.item, c⟩ : QueueEntry Item) ≠ entry := by
      intro hf heq
      have hs := hdone (congrArg QueueEntry.submission heq)
      rw [hf] at hs
      cases hs
    refine (h.submissions c y hc).frame executed error ?_ ?_
    · intro hf hin
      rw [held] at hin
      rw [queue]
      obtain hq | hw := List.mem_append.mp hin
      · exact List.mem_append_left _ hq
      · exact List.mem_append_right _ ((List.mem_cons.mp hw).resolve_left (other hf))
    · intro hf hin
      rw [held] at hin
      exact (List.mem_cons.mp hin).resolve_left (other hf)
  have items : ∀ c y, s.submissions c = some y → ∃ z, s'.submissions c = some z ∧ z.item = y.item := by
    intro c y hc
    rw [submissions]
    unfold State.complete
    rw [hx]
    simp only
    split
    · exact ⟨y, hc, rfl⟩
    · by_cases hce : c = entry.submission
      · rw [hce, hx] at hc
        cases hc
        exact ⟨x.complete r, by rw [hce]; exact Function.update_self .., rfl⟩
      · exact ⟨y, (Function.update_of_ne hce ..).trans hc, rfl⟩
  refine ⟨by rw [error, broken]; exact h.broken, ?_, worker, ?_⟩
  · intro e he
    rw [queue] at he
    have hold : e ∈ s.queue ++ s.worker.entries := (List.mem_append.mp he).elim (List.mem_append_left _)
      (fun hw => List.mem_append_right _ (entries e hw))
    obtain ⟨y, hy, hyi⟩ := h.entries e hold
    obtain ⟨z, hz, hzi⟩ := items e.submission y hy
    exact ⟨z, hz, hzi.trans hyi⟩
  · intro c y hc
    rw [submissions] at hc
    unfold State.complete at hc
    rw [hx] at hc
    simp only at hc
    split at hc
    · rename_i hdone
      refine frame c y hc ?_
      intro hce
      rw [hce, hx] at hc
      cases hc
      exact hdone
    · rename_i hf
      by_cases hce : c = entry.submission
      · rw [hce] at hc
        rw [show (s.setSubmission entry.submission (x.complete r)).submissions entry.submission =
          some (x.complete r) from
          Function.update_self ..] at hc
        cases hc
        rw [hce]
        exact (h.submissions _ x hx).complete error (by simpa using hf) (fun v hv => hi ▸ own v hv)
      · rw [show (s.setSubmission entry.submission (x.complete r)).submissions c = s.submissions c from
          Function.update_of_ne hce ..] at hc
        exact frame c y hc (fun heq => absurd heq hce)

theorem complete_rest (s : State Item M R E) (entry : QueueEntry Item) (r : Except E R) :
    (s.complete entry r).queue = s.queue ∧ (s.complete entry r).workerError = s.workerError ∧
      (s.complete entry r).executed = s.executed ∧ (s.complete entry r).worker = s.worker := by
  unfold State.complete
  split
  · exact ⟨rfl, rfl, rfl, rfl⟩
  · split <;> exact ⟨rfl, rfl, rfl, rfl⟩

theorem complete_executed (s : State Item M R E) (l : List (List Item × Except E (List M))) (entry : QueueEntry Item)
    (r : Except E R) : ({ s with executed := l }.complete entry r).submissions = (s.complete entry r).submissions := by
  simp only [State.complete]
  cases s.submissions entry.submission with
  | none => rfl
  | some x =>
    simp only
    split <;> rfl

theorem checked_ok {n : Nat} {outcome : Except E (List M)} {embeddings : List M}
    (h : V.checked n outcome = .ok embeddings) : embeddings.length = n := by
  cases outcome with
  | error e => cases h
  | ok l =>
    simp only [Service.checked] at h
    split at h
    · cases h
      assumption
    · cases h

/-- Every item of a batch that was executed is encoded to the embedding at its place. -/
theorem encoded_zip {executed : List (List Item × Except E (List M))} {batch : List (QueueEntry Item)}
    {embeddings : List M}
    (hlen : embeddings.length = batch.length) :
    WorkerSound ((batch.map QueueEntry.item, .ok embeddings) :: executed)
      (.completing (batch.zip (embeddings.map (Except.ok (ε := E))))) := by
  intro p hp m hm
  obtain ⟨i, hi⟩ := List.mem_iff_getElem?.mp hp
  obtain ⟨hb, hr⟩ := List.getElem?_zip_eq_some.mp hi
  rw [hm, List.getElem?_map, Option.map_eq_some_iff] at hr
  obtain ⟨m', hm', heq⟩ := hr
  cases heq
  refine ⟨_, embeddings, i, List.mem_cons_self .., by rw [hlen, List.length_map], ?_, hm'⟩
  rw [List.getElem?_map, hb]
  rfl

theorem Inv.stepWorker (h : Inv V s) (e : WorkerEvent M E) : Inv V (s.stepWorker V e) := by
  cases e with
  | take =>
    simp only [State.stepWorker]
    split
    · rename_i entry rest hw hq
      refine h.worker_move rfl (List.Subset.refl _) rfl (by rw [hw]; rfl) ?_ ?_ ?_ trivial
      all_goals simp only [hw, hq, Worker.holds, Worker.entries]
      all_goals grind
    · rename_i batch entry rest hw hq
      refine h.worker_move rfl (List.Subset.refl _) rfl (by rw [hw]; rfl) ?_ ?_ ?_ trivial
      all_goals simp only [hw, hq, Worker.holds, Worker.entries]
      all_goals grind
    · exact h
  | nextBatch =>
    simp only [State.stepWorker]
    split
    · rename_i batch hw
      exact h.worker_same rfl rfl (List.Subset.refl _) rfl (by rw [hw]; rfl) (by rw [hw]; rfl) (by rw [hw]; rfl) trivial
    · exact h
  | nextBatchRaises e =>
    simp only [State.stepWorker]
    split
    · rename_i hw
      exact h.worker_same rfl rfl (List.Subset.refl _) rfl (by rw [hw]; rfl) (by rw [hw]; rfl) (by rw [hw]; rfl) trivial
    · exact h
  | execute outcome =>
    simp only [State.stepWorker]
    split
    · rename_i batch hw
      split
      · rename_i embeddings hok
        have hlen := checked_ok hok
        have holds : (Worker.completing (batch.zip (embeddings.map (Except.ok (ε := E))))).holds = batch :=
          List.map_fst_zip (by rw [List.length_map]; exact Nat.le_of_eq hlen.symm)
        have entries : (Worker.completing (batch.zip (embeddings.map (Except.ok (ε := E))))).entries = batch := holds
        refine h.worker_same rfl rfl (List.subset_cons_self _ _) rfl (by rw [hw]; rfl) ?_ ?_ ?_
        · rw [hw, entries]
          rfl
        · rw [hw, holds]
          rfl
        · rw [hok]
          exact encoded_zip hlen
      · exact h.worker_same rfl rfl (List.subset_cons_self _ _) rfl (by rw [hw]; rfl) (by rw [hw]; rfl)
          (by rw [hw]; rfl) trivial
    · exact h
  | handle handled retry =>
    simp only [State.stepWorker]
    split
    · rename_i batch _ hw
      split
      · exact h.worker_same rfl rfl (List.Subset.refl _) rfl (by rw [hw]; rfl) (by rw [hw]; rfl)
          (by rw [hw]; rfl) trivial
      · exact h.worker_same rfl rfl (List.Subset.refl _) rfl (by rw [hw]; rfl) (by rw [hw]; rfl)
          (by rw [hw]; rfl) trivial
      · exact h.worker_same rfl rfl (List.Subset.refl _) rfl (by rw [hw]; rfl) (by rw [hw]; rfl) (by rw [hw]; rfl)
          (List.Subset.refl _)
      · refine h.worker_move rfl (List.Subset.refl _) rfl (by rw [hw]; rfl) ?_ ?_ ?_ ?_
        · simp [hw, Worker.holds, Worker.entries]
        · simp [hw, Worker.holds]
        · simp [hw, Worker.holds]
        · intro p hp m hm
          obtain ⟨entry, -, rfl⟩ := List.mem_map.mp hp
          cases hm
    · exact h
  | retryOne outcome handled =>
    simp only [State.stepWorker]
    split
    · rename_i batch entry rest hw
      have sub : entry :: rest ⊆ batch := by
        have := h.worker
        rw [hw] at this
        exact this
      have mine : entry ∈ s.worker.entries := by
        rw [hw]
        exact sub (List.mem_cons_self ..)
      have rest' : rest ⊆ batch := fun _ hr => sub (List.mem_cons_of_mem _ hr)
      split
      · rename_i embedding more hok
        have hlen := checked_ok hok
        refine h.complete_move (complete_executed s _ entry _) (complete_rest _ entry _).1
          (complete_rest _ entry _).2.1 ?_
          (by rw [hw]; rfl) mine (by rw [hw]; exact fun _ he => he) (by rw [hw]; rfl) rest' ?_
        · show s.executed ⊆ (State.complete _ entry _).executed
          rw [(complete_rest _ entry _).2.2.1]
          exact List.subset_cons_self _ _
        · intro v hv
          refine ⟨embedding, ?_, hv⟩
          show Encoded (State.complete _ entry _).executed entry.item embedding
          rw [(complete_rest _ entry _).2.2.1]
          exact ⟨[entry.item], embedding :: more, 0, hok ▸ List.mem_cons_self .., hlen, rfl, rfl⟩
      · rename_i hok
        have hlen := checked_ok hok
        cases hlen
      · refine h.complete_move (complete_executed s _ entry _) (complete_rest _ entry _).1
          (complete_rest _ entry _).2.1 ?_
          (by rw [hw]; rfl) mine (by rw [hw]; exact fun _ he => he) (by rw [hw]; rfl) rest' (fun _ hv => nomatch hv)
        show s.executed ⊆ (State.complete _ entry _).executed
        rw [(complete_rest _ entry _).2.2.1]
        exact List.subset_cons_self _ _
      · refine h.worker_move rfl (List.subset_cons_self _ _) rfl (by rw [hw]; rfl) ?_ ?_ ?_ trivial
        · simp only [hw, Worker.holds, Worker.entries]
          exact fun _ he => he
        · simp only [hw, Worker.holds]
          intro e he
          exact (List.mem_append.mp he).elim (List.mem_append_left _) (fun hr => List.mem_append_right _ (sub hr))
        · simp only [hw, Worker.holds]
          exact fun e he => sub he
    · rename_i hw
      refine h.worker_move rfl (List.Subset.refl _) rfl (by rw [hw]; rfl) ?_ ?_ ?_ trivial
      · simp only [Worker.holds, Worker.entries, List.append_nil]
        exact fun _ he => List.mem_append_left _ he
      · simp only [hw, Worker.holds]
        exact fun _ he => he
      · simp only [hw, Worker.holds]
        exact fun _ he => he
    · exact h
  | complete =>
    simp only [State.stepWorker]
    split
    · rename_i entry outcome rest hw
      have sound := h.worker
      rw [hw] at sound
      refine h.complete_move rfl (complete_rest s entry _).1 (complete_rest s entry _).2.1 ?_ (by rw [hw]; rfl) ?_ ?_
        (by rw [hw]; rfl) ?_ ?_
      · show s.executed ⊆ (State.complete _ entry _).executed
        rw [(complete_rest s entry _).2.2.1]
        exact List.Subset.refl _
      · rw [hw]
        exact List.mem_cons_self ..
      · rw [hw]
        exact fun _ he => List.mem_cons_of_mem _ he
      · show WorkerSound (State.complete _ entry _).executed _
        rw [(complete_rest s entry _).2.2.1]
        exact fun p hp => sound p (List.mem_cons_of_mem _ hp)
      · intro v hv
        cases outcome with
        | error e => cases hv
        | ok m =>
          refine ⟨m, ?_, hv⟩
          show Encoded (State.complete _ entry _).executed entry.item m
          rw [(complete_rest s entry _).2.2.1]
          exact sound _ (List.mem_cons_self ..) m rfl
    · rename_i hw
      exact h.worker_same rfl rfl (List.Subset.refl _) rfl (by rw [hw]; rfl) (by rw [hw]; rfl) (by rw [hw]; rfl) trivial
    · rename_i e entry rest hw
      refine h.complete_move rfl (complete_rest s entry _).1 (complete_rest s entry _).2.1 ?_ (by rw [hw]; rfl) ?_ ?_
        (by rw [hw]; rfl) trivial (fun _ hv => nomatch hv)
      · show s.executed ⊆ (State.complete _ entry _).executed
        rw [(complete_rest s entry _).2.2.1]
        exact List.Subset.refl _
      · rw [hw]
        exact List.mem_cons_self ..
      · rw [hw]
        exact fun _ he => List.mem_cons_of_mem _ he
    · rename_i hw
      exact h.worker_same rfl rfl (List.Subset.refl _) rfl (by rw [hw]; rfl) (by rw [hw]; rfl) (by rw [hw]; rfl) trivial
    · exact h
  | fail =>
    simp only [State.stepWorker]
    split
    · rename_i e batch hw
      refine ⟨rfl, ?_, trivial, ?_⟩
      · intro entry he
        refine h.entries entry ?_
        rw [hw]
        simp only [Worker.entries, Worker.holds, List.nil_append, List.mem_append] at he ⊢
        exact he.symm
      · intro c x hc
        have sound := h.submissions c x hc
        have moved : ∀ entry ∈ s.queue ++ s.worker.holds, entry ∈ batch ++ s.queue := by
          intro entry he
          rw [hw] at he
          exact List.mem_append.mpr (List.mem_append.mp he).symm
        refine ⟨sound.once, sound.own, fun hp hf => moved _ (sound.waiting hp hf), ?_, fun _ => rfl, fun _ _ => rfl⟩
        exact fun _ hp hf => moved _ (sound.waiting (by rw [hp]; rfl) hf)
    · exact h

theorem Inv.submit (h : Inv V s) (hc : s.submissions c = none) (item : Item) :
    Inv V (s.setSubmission c { item }) where
  broken := h.broken
  entries := by
    intro e he
    obtain ⟨x, hx, hi⟩ := h.entries e he
    refine ⟨x, ?_, hi⟩
    refine (Function.update_of_ne ?_ ..).trans hx
    intro heq
    rw [heq, hc] at hx
    cases hx
  worker := h.worker
  submissions := by
    intro d x hd
    by_cases hdc : d = c
    · rw [hdc, show (s.setSubmission c { item }).submissions c = some { item } from Function.update_self ..] at hd
      cases hd
      exact ⟨rfl, (fun _ hr => nomatch hr), (fun hp => nomatch hp), (fun _ hp => nomatch hp), (fun hp => nomatch hp),
        fun _ hp => hp.elim (fun h => nomatch h) (fun h => nomatch h)⟩
    · rw [show (s.setSubmission c { item }).submissions d = s.submissions d from Function.update_of_ne hdc ..] at hd
      exact (h.submissions d x hd).frame (List.Subset.refl _) rfl (fun _ hin => hin) (fun _ hin => hin)

theorem Inv.step (s : State Item M R E) (e : Event Item M E) (h : Inv V s) : Inv V (s.step V e) := by
  cases e with
  | submit c item =>
    simp only [State.step]
    split
    · exact h.submit ‹_› item
    · exact h
  | onSubmit c e =>
    simp only [State.step]
    split
    · exact h
    · exact h.stepSubmit ‹_› e
  | onWorker e => exact h.stepWorker e

theorem Inv.runFrom (h : Inv V s) (es : List (Event Item M E)) : Inv V (s.runFrom V es) :=
  run_invariant h Inv.step es

/-- A worker step completes at most one future, in the loop of `_fail_worker` or before the worker has failed. -/
theorem stepWorker_submissions (s : State Item M R E) (e : WorkerEvent M E) :
    (s.stepWorker V e).submissions = s.submissions ∨ ∃ entry r,
      (s.stepWorker V e).submissions = (s.complete entry r).submissions ∧
        ((∃ err rest, s.worker = .failing err (entry :: rest) ∧ e = .complete) ∨ s.worker.broken = false) := by
  cases e with
  | retryOne outcome handled =>
    simp only [State.stepWorker]
    split
    · rename_i batch entry rest hw
      have alive : s.worker.broken = false := by rw [hw]; rfl
      split
      · exact .inr ⟨entry, _, complete_executed s _ entry _, .inr alive⟩
      · exact .inl rfl
      · exact .inr ⟨entry, _, complete_executed s _ entry _, .inr alive⟩
      · exact .inl rfl
    · exact .inl rfl
    · exact .inl rfl
  | complete =>
    simp only [State.stepWorker]
    split
    · rename_i hw
      exact .inr ⟨_, _, rfl, .inr (by rw [hw]; rfl)⟩
    · exact .inl rfl
    · rename_i hw
      exact .inr ⟨_, _, rfl, .inl ⟨_, _, hw, trivial⟩⟩
    · exact .inl rfl
    · exact .inl rfl
  | take | nextBatch | nextBatchRaises e =>
    simp only [State.stepWorker]
    split <;> exact .inl rfl
  | execute outcome | handle handled retry =>
    simp only [State.stepWorker]
    split
    · split <;> exact .inl rfl
    · exact .inl rfl
  | fail =>
    simp only [State.stepWorker]
    split <;> exact .inl rfl

/-! ### The gap between the done check and the completion -/

/-- The loop of `_fail_worker` completes a future whose `_submit` has found it pending and is about to complete it. -/
def disturbs (s : State Item M R E) : Event Item M E → Bool
  | .onWorker .complete =>
    match s.worker with
    | .failing _ (entry :: _) => (s.submissions entry.submission).any fun x => x.phase.isSetting
    | _ => false
  | _ => false

/-- No `InvalidStateError`, and none to come. -/
def Valid (s : State Item M R E) : Prop :=
  ∀ c x, s.submissions c = some x → x.phase ≠ .invalid ∧ (x.phase.isSetting = true → x.future = none)

theorem Valid.set {x' : Submission Item R E} (h : Valid s)
    (submissions : s'.submissions = Function.update s.submissions c (some x'))
    (own : x'.phase ≠ .invalid ∧ (x'.phase.isSetting = true → x'.future = none)) : Valid s' := by
  intro d y hd
  rw [submissions] at hd
  by_cases hdc : d = c
  · rw [hdc, Function.update_self] at hd
    cases hd
    exact own
  · rw [Function.update_of_ne hdc] at hd
    exact h d y hd

theorem Valid.stepSubmit (h : Valid s)
    (hc : s.submissions c = some x) (e : SubmitEvent) : Valid (s.stepSubmit V c x e) := by
  cases e with
  | check =>
    simp only [State.stepSubmit]
    split
    · refine h.set rfl ?_
      by_cases he : s.workerError.isSome = true <;> simp [he, Phase.isSetting]
    · exact h
  | put =>
    simp only [State.stepSubmit]
    split
    · split
      · exact h
      · exact h.set rfl ⟨(fun hp => by cases hp), (fun hp => by cases hp)⟩
    · exact h
  | full =>
    simp only [State.stepSubmit]
    split
    · split
      · exact h.set rfl ⟨(fun hp => by cases hp), (fun hp => by cases hp)⟩
      · exact h
    · exact h
  | read =>
    simp only [State.stepSubmit]
    split
    · refine h.set rfl ?_
      cases he : s.workerError <;> simp [Phase.isSetting]
    · exact h
  | decide =>
    simp only [State.stepSubmit]
    split
    · refine h.set rfl ?_
      cases hf : x.future <;> simp [Phase.isSetting]
    · exact h
  | set =>
    simp only [State.stepSubmit]
    split
    · rename_i e hp
      have pending : x.future = none := (h c x hc).2 (by rw [hp]; rfl)
      rw [pending]
      exact h.set rfl ⟨(fun hp => by cases hp), (fun hp => by cases hp)⟩
    · exact h

theorem Valid.complete {entry : QueueEntry Item} {r : Except E R} (h : Valid s)
    (calm : ∀ x, s.submissions entry.submission = some x → x.phase.isSetting = false) : Valid (s.complete entry r) := by
  unfold State.complete
  split
  · exact h
  · rename_i x hx
    split
    · exact h
    · refine h.set rfl ⟨(h _ x hx).1, ?_⟩
      intro hset
      rw [show (x.complete r).phase = x.phase from rfl, calm x hx] at hset
      cases hset

theorem Valid.step {e : Event Item M E} (h : Valid s) (inv : Inv V s)
    (calm : disturbs s e = false) : Valid (s.step V e) := by
  cases e with
  | submit c item =>
    simp only [State.step]
    split
    · exact h.set rfl ⟨(fun hp => nomatch hp), (fun hp => nomatch hp)⟩
    · exact h
  | onSubmit c e =>
    simp only [State.step]
    split
    · exact h
    · exact h.stepSubmit ‹_› e
  | onWorker e =>
    have same : ∀ s' : State Item M R E, s'.submissions = (s.stepWorker V e).submissions → Valid s' →
      Valid (s.stepWorker V e) := by
      intro s' hs hv
      unfold Valid
      rw [← hs]
      exact hv
    obtain hs | ⟨entry, r, hs, ⟨err, rest, hw, rfl⟩ | alive⟩ := stepWorker_submissions (V := V) s e
    · exact same s hs.symm h
    · refine same _ hs.symm (h.complete ?_)
      intro x hx
      simp only [disturbs, hw, hx, Option.any_some] at calm
      exact calm
    · refine same _ hs.symm (h.complete ?_)
      intro x hx
      -- Before the failure no submission has read an error.
      cases hp : x.phase with
      | setting err =>
        have failed := (inv.submissions _ x hx).failed err (.inr hp)
        rw [inv.broken, alive] at failed
        cases failed
      | _ => rfl

/-! ### Every future is completed -/

/-- The steps that the worker needs at most for what it has taken. -/
def remaining : Worker Item M E → Nat
  | .polling | .dead => 0
  | .gathering batch => 4 + batch.length
  | .executing batch => 3 + batch.length
  | .handling batch _ | .raised _ batch => 2 + batch.length
  | .retrying _ rest => 1 + rest.length
  | .completing rest => 1 + rest.length
  | .failing _ pending => 1 + pending.length

def backlog (s : State Item M R E) : Nat := 6 * s.queue.length + remaining s.worker

variable (V) in
theorem worker_advances (s : State Item M R E) : s.worker = .polling ∧ s.queue = [] ∨ s.worker = .dead ∨
    ∃ e : WorkerEvent M E, backlog (s.stepWorker V e) < backlog s := by
  cases hw : s.worker with
  | polling =>
    cases hq : s.queue with
    | nil => exact .inl ⟨rfl, rfl⟩
    | cons entry rest =>
      refine .inr (.inr ⟨.take, ?_⟩)
      simp only [backlog, State.stepWorker, hw, hq, remaining, List.length_cons, List.length_nil]
      omega
  | dead => exact .inr (.inl rfl)
  | gathering batch =>
    refine .inr (.inr ⟨.nextBatch, ?_⟩)
    simp only [backlog, State.stepWorker, hw, remaining]
    omega
  | executing batch =>
    refine .inr (.inr ⟨.execute (.error V.cardinalityError), ?_⟩)
    simp only [backlog, State.stepWorker, hw, Service.checked, remaining]
    omega
  | handling batch e =>
    refine .inr (.inr ⟨.handle (.ok e) (.ok false), ?_⟩)
    simp only [backlog, State.stepWorker, hw, remaining, List.length_map]
    omega
  | retrying batch rest =>
    refine .inr (.inr ⟨.retryOne (.error V.cardinalityError) (.ok V.cardinalityError), ?_⟩)
    cases rest with
    | nil =>
      simp only [backlog, State.stepWorker, hw, remaining, List.length_nil]
      omega
    | cons entry rest =>
      simp only [backlog, State.stepWorker, hw, Service.checked, remaining, (complete_rest _ entry _).1,
        List.length_cons]
      omega
  | completing rest =>
    refine .inr (.inr ⟨.complete, ?_⟩)
    cases rest with
    | nil =>
      simp only [backlog, State.stepWorker, hw, remaining, List.length_nil]
      omega
    | cons p rest =>
      simp only [backlog, State.stepWorker, hw, remaining, (complete_rest _ p.1 _).1, List.length_cons]
      omega
  | raised e batch =>
    refine .inr (.inr ⟨.fail, ?_⟩)
    simp only [backlog, State.stepWorker, hw, remaining, List.length_append, List.length_nil]
    omega
  | failing e pending =>
    refine .inr (.inr ⟨.complete, ?_⟩)
    cases pending with
    | nil =>
      simp only [backlog, State.stepWorker, hw, remaining, List.length_nil]
      omega
    | cons entry rest =>
      simp only [backlog, State.stepWorker, hw, remaining, (complete_rest _ entry _).1, List.length_cons]
      omega

variable (V) in
/-- Left to itself, the worker empties the queue or has failed. -/
theorem drained (s : State Item M R E) : ∃ es : List (WorkerEvent M E),
    (s.runFrom V (es.map .onWorker)).worker = .polling ∧ (s.runFrom V (es.map .onWorker)).queue = [] ∨
      (s.runFrom V (es.map .onWorker)).worker = .dead := by
  generalize hn : backlog s = n
  induction n using Nat.strongRecOn generalizing s with
  | ind n ih =>
    obtain hempty | hdead | ⟨e, hlt⟩ := worker_advances V s
    · exact ⟨[], .inl hempty⟩
    · exact ⟨[], .inr hdead⟩
    · obtain ⟨es, hes⟩ := ih _ (hn ▸ hlt) (s.stepWorker V e) rfl
      exact ⟨e :: es, hes⟩

theorem stepWorker_phase (e : WorkerEvent M E)
    (hc : s.submissions c = some x) : ∃ y, (s.stepWorker V e).submissions c = some y ∧ y.phase = x.phase := by
  obtain hs | ⟨entry, r, hs, -⟩ := stepWorker_submissions (V := V) s e
  · exact ⟨x, hs ▸ hc, rfl⟩
  · rw [hs]
    unfold State.complete
    split
    · exact ⟨x, hc, rfl⟩
    · rename_i y hy
      split
      · exact ⟨x, hc, rfl⟩
      · by_cases hce : c = entry.submission
        · rw [← hce, hc] at hy
          cases hy
          exact ⟨x.complete r, by rw [hce]; exact Function.update_self .., rfl⟩
        · exact ⟨x, (Function.update_of_ne hce ..).trans hc, rfl⟩

theorem runWorker_phase (es : List (WorkerEvent M E)) (hc : s.submissions c = some x) :
    ∃ y, (s.runFrom V (es.map .onWorker)).submissions c = some y ∧ y.phase = x.phase := by
  induction es generalizing s x with
  | nil => exact ⟨x, hc, rfl⟩
  | cons e rest ih =>
    obtain ⟨y, hy, hp⟩ := stepWorker_phase (V := V) e hc
    obtain ⟨z, hz, hp'⟩ := ih hy
    exact ⟨z, hz, hp'.trans hp⟩

/-- A worker that has failed has completed every future that was returned. -/
theorem Inv.dead_answered (h : Inv V s)
    (dead : s.worker = .dead) (hc : s.submissions c = some x) (hp : x.phase = .returned) : x.future.isSome = true := by
  cases hf : x.future with
  | some r => rfl
  | none =>
    have held := (h.submissions c x hc).settled (by rw [h.broken, dead]; rfl) hp hf
    rw [dead] at held
    cases held

/-- The worker alone completes a future that was returned. -/
theorem Inv.can_answer (h : Inv V s)
    (hc : s.submissions c = some x) (hp : x.phase = .returned) : ∃ (es : List (WorkerEvent M E))
    (y : Submission Item R E),
      (s.runFrom V (es.map .onWorker)).submissions c = some y ∧ y.future.isSome = true := by
  obtain ⟨es, hend⟩ := drained V s
  have inv := h.runFrom (es.map .onWorker)
  obtain ⟨y, hy, hpy⟩ := runWorker_phase (V := V) es hc
  refine ⟨es, y, hy, ?_⟩
  obtain ⟨hw, hq⟩ | hdead := hend
  · cases hf : y.future with
    | some r => rfl
    | none =>
      have waiting := (inv.submissions c y hy).waiting (by rw [hpy, hp]; rfl) hf
      rw [hw, hq] at waiting
      cases waiting
  · exact inv.dead_answered hdead hy (hpy.trans hp)

variable (V) in
/-- What the service owes every submission. -/
structure AnsweredOnce (s : State Item M R E) : Prop where
  /-- A future is completed once. -/
  once : ∀ c x, s.submissions c = some x → x.completions = x.future.isSome.toNat
  /-- A result is the result of the submission's own item. -/
  own : ∀ c x r, s.submissions c = some x → x.future = some (.ok r) →
    ∃ m, Encoded s.executed x.item m ∧ V.futureResult m = .ok r
  /-- A future that was returned is completed when the worker goes on. -/
  answered : ∀ c x, s.submissions c = some x → x.phase = .returned → ∃ (es : List (WorkerEvent M E))
    (y : Submission Item R E),
    (s.runFrom V (es.map .onWorker)).submissions c = some y ∧ y.future.isSome = true
  /-- None is pending after a worker that has failed. -/
  failed : ∀ c x, s.submissions c = some x → s.worker = .dead → x.phase = .returned → x.future.isSome = true
  /-- `_submit` raises only when the worker has failed, and never `InvalidStateError`. -/
  raises : ∀ c x, s.submissions c = some x →
    x.phase ≠ .invalid ∧ (x.phase = .rejected → s.workerError.isSome = true)

/-- **Every submitted item is answered once**, in every history in which `_fail_worker` completes no future between the
done check of its `_submit` and the completion that follows. -/
theorem answered_once (V : Service M R E) (es : List (Event Item M E))
    (calm : Along (step V) (fun s e => disturbs s e = false) {} es) : AnsweredOnce V (runs V es) := by
  have both : Inv V (runs V es) ∧ Valid (runs V es) :=
    along_invariant (I := fun s => Inv V s ∧ Valid s) ⟨Inv.initial, fun _ _ h => nomatch h⟩
      (fun s e h calm => ⟨h.1.step s e, h.2.step h.1 calm⟩) es calm
  obtain ⟨inv, valid⟩ := both
  exact
    { once := fun c x hc => (inv.submissions c x hc).once
      own := fun c x r hc hr => (inv.submissions c x hc).own r hr
      answered := fun c x hc hp => inv.can_answer hc hp
      failed := fun c x hc hdead hp => inv.dead_answered hdead hc hp
      raises := fun c x hc => ⟨(valid c x hc).1, (inv.submissions c x hc).rejected⟩ }

def exampleService : Service Nat Nat Nat where
  maxQueueSize := 0
  futureResult := .ok
  cardinalityError := 0

/-- The worker fails with the batch of one submission while another is in the queue. -/
def failure : List (Event Nat Nat Nat) :=
  [.submit 0 5, .onSubmit 0 .check, .onSubmit 0 .put, .onSubmit 0 .read, .onWorker .take, .onWorker .nextBatch,
    .onWorker (.execute (.error 1)), .onWorker (.handle (.ok 1) (.error 2)),
    .submit 1 6, .onSubmit 1 .check, .onSubmit 1 .put, .onWorker .fail, .onSubmit 1 .read]

/-- Both futures are completed by `_fail_worker`, before the second submission looks. -/
theorem answered_once_failure :
    disturbs (runs exampleService (failure ++ [.onWorker .complete])) (.onWorker .complete) = false ∧
    AnsweredOnce exampleService (runs exampleService
      (failure ++ [.onWorker .complete, .onWorker .complete, .onWorker .complete, .onSubmit 1 .decide])) :=
  ⟨by decide, answered_once exampleService _ (by decide)⟩

/-- The second submission looks before `_fail_worker` comes to its future, and completes it afterwards. -/
theorem submit_raises_invalid_state : ∃ x, (runs exampleService
    (failure ++ [.onSubmit 1 .decide, .onWorker .complete, .onWorker .complete,
      .onSubmit 1 .set])).submissions 1 = some x ∧
      x.phase = .invalid ∧ x.future = some (.error 2) :=
  ⟨_, rfl, rfl, rfl⟩

end State
end SglangOmni.Scheduling.PreLmEncoder
