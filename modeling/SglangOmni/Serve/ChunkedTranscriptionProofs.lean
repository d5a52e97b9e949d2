import SglangOmni.Serve.ChunkedTranscription

/-! No chunk is left running.

A turn of a task changes that task alone (`Moves`), and a task that has ended has no turn. What the handler reads from
`in_flight` are the requests that may still run in the engine: once the tasks are told to stop, none is added. So the
loop over them aborts all, unless it is left before its end. -/
namespace SglangOmni.Serve.ChunkedTranscription
open Lib

namespace State
variable {cfg : Config} {s s' : State} {i : Nat} {c c' : Child}

/-! ### The turn of a task -/

/-- What can become of the task of a silent span. -/
def quiet (c : Child) : Prop := c = .created ∨ c = .returned "" ∨ c = .cancelled

/-- The task `i` goes on from `c` to `c'`. -/
structure Goes (cfg : Config) (s s' : State) (i : Nat) (c c' : Child) : Prop where
  was : s.children[i]? = some c
  running : c.ended = false
  children : s'.children = s.children.set i c'
  permits : s'.sem.permits + c'.holds.toNat = s.sem.permits + c.holds.toNat
  owing : (c.owing = true → i ∈ s.inFlight) → c'.owing = true → i ∈ s'.inFlight
  owed : c'.owing = true → c.owing = true ∨ s.cancelling = false
  silent : cfg.spans[i]? = some false → quiet c → quiet c'

/-- A step of one task. -/
structure Moves (cfg : Config) (s s' : State) : Prop where
  call : s'.call = s.call
  aborted : s'.aborted = s.aborted
  cancelling : s'.cancelling = s.cancelling
  task : ∃ i c c', Goes cfg s s' i c c' ∧ ∀ j, j ≠ i → j ∈ s.inFlight → j ∈ s'.inFlight

theorem mem_discard {j : Nat} (hj : j ≠ i) (h : j ∈ s.inFlight) : j ∈ (s.discard i).inFlight :=
  List.mem_filter.mpr ⟨h, decide_eq_true hj⟩

theorem stepChild_moves (hc : s.children[i]? = some c) (e : Event) :
    s.stepChild cfg i c e = s ∨ Moves cfg s (s.stepChild cfg i c e) := by
  cases e with
  | run j =>
    simp only [stepChild]
    split
    · next hcancelling =>
      right
      split
      · exact ⟨rfl, rfl, rfl, i, .created, .returned "", ⟨hc, rfl, rfl, rfl, (fun _ h => nomatch h),
          (fun h => nomatch h),
          fun _ _ => .inr (.inl rfl)⟩, fun _ _ h => h⟩
      · next hsilent =>
        have hpermits := Semaphore.permits_acquire s.sem i
        cases htaken : (s.sem.acquire i).2 with
        | true =>
          rw [htaken] at hpermits
          exact ⟨rfl, rfl, rfl, i, .created, .encoding, ⟨hc, rfl, rfl, hpermits, (fun _ h => nomatch h),
            (fun h => nomatch h), fun h => absurd h hsilent⟩, fun _ _ h => h⟩
        | false =>
          rw [htaken] at hpermits
          exact ⟨rfl, rfl, rfl, i, .created, .waiting, ⟨hc, rfl, rfl, hpermits, (fun _ h => nomatch h),
            (fun h => nomatch h), fun h => absurd h hsilent⟩, fun _ _ h => h⟩
    · exact .inl rfl
  | resume j =>
    simp only [stepChild]
    split
    · split
      · next hhanded =>
        right
        exact ⟨rfl, rfl, rfl, i, .waiting, .encoding, ⟨hc, rfl, rfl, Semaphore.permits_resume hhanded,
          (fun _ h => nomatch h), (fun h => nomatch h), fun _ hq => by obtain h | h | h := hq <;> cases h⟩,
          fun _ _ h => h⟩
      · exact .inl rfl
    · exact .inl rfl
  | encoded j =>
    simp only [stepChild]
    split
    · next hcancelling =>
      right
      exact ⟨rfl, rfl, rfl, i, .encoding, .completing, ⟨hc, rfl, rfl, rfl,
        fun _ _ => List.mem_append_right _ (List.mem_singleton.mpr rfl), fun _ => .inr hcancelling,
        fun _ hq => by obtain h | h | h := hq <;> cases h⟩, fun _ _ h => List.mem_append_left _ h⟩
    · exact .inl rfl
  | encodeFails j =>
    simp only [stepChild]
    split
    · right
      exact ⟨rfl, rfl, rfl, i, .encoding, .failed, ⟨hc, rfl, rfl, Semaphore.permits_release s.sem,
        (fun _ h => nomatch h), (fun h => nomatch h), fun _ hq => by obtain h | h | h := hq <;> cases h⟩, fun _ _ h =>
          h⟩
    · exact .inl rfl
  | completes j text =>
    simp only [stepChild]
    split
    · right
      exact ⟨rfl, rfl, rfl, i, .completing, .returned text, ⟨hc, rfl, rfl, Semaphore.permits_release s.sem,
        (fun _ h => nomatch h), (fun h => nomatch h), fun _ hq => by obtain h | h | h := hq <;> cases h⟩,
        fun _ hj h => mem_discard hj h⟩
    · exact .inl rfl
  | fails j =>
    simp only [stepChild]
    split
    · right
      exact ⟨rfl, rfl, rfl, i, .completing, .failed, ⟨hc, rfl, rfl, Semaphore.permits_release s.sem,
        (fun _ h => nomatch h), (fun h => nomatch h), fun _ hq => by obtain h | h | h := hq <;> cases h⟩,
        fun _ hj h => mem_discard hj h⟩
    · exact .inl rfl
  | thrown j =>
    simp only [stepChild]
    split
    · right
      exact ⟨rfl, rfl, rfl, i, .created, .cancelled, ⟨hc, rfl, rfl, rfl, (fun _ h => nomatch h), (fun h => nomatch h),
        fun _ _ => .inr (.inr rfl)⟩, fun _ _ h => h⟩
    · right
      exact ⟨rfl, rfl, rfl, i, .waiting, .cancelled, ⟨hc, rfl, rfl, Semaphore.permits_withdraw s.sem i,
        (fun _ h => nomatch h), (fun h => nomatch h), fun _ _ => .inr (.inr rfl)⟩, fun _ _ h => h⟩
    · right
      exact ⟨rfl, rfl, rfl, i, .encoding, .cancelled, ⟨hc, rfl, rfl, Semaphore.permits_release s.sem,
        (fun _ h => nomatch h), (fun h => nomatch h), fun _ _ => .inr (.inr rfl)⟩, fun _ _ h => h⟩
    · right
      exact ⟨rfl, rfl, rfl, i, .completing, .abandoned, ⟨hc, rfl, rfl, Semaphore.permits_release s.sem,
        fun hin _ => hin rfl, fun _ => .inl rfl, fun _ hq => by obtain h | h | h := hq <;> cases h⟩, fun _ _ h => h⟩
    · exact .inl rfl
  | _ => exact .inl rfl

/-! ### What holds of a call -/

/-- The requests that the engine may still run are among some ids. -/
def Owed (s : State) (known : Nat → Prop) : Prop :=
  ∀ (i : Nat) (c : Child), s.children[i]? = some c → c.owing = true → known i

def AllEnded (s : State) : Prop := ∀ c ∈ s.children, c.ended = true

def Now (s : State) : Prop :=
  match s.call with
  | .gathering => True
  | .cleaning pending _ => s.cancelling = true ∧ s.Owed (· ∈ pending)
  | .aborting pending => s.AllEnded ∧ s.Owed fun i => i ∈ s.aborted ∨ i ∈ pending
  | .returned texts => s.children = texts.map .returned
  | .raised => s.AllEnded

structure Inv (cfg : Config) (s : State) : Prop where
  length : s.children.length = cfg.spans.length
  owed : s.Owed (· ∈ s.inFlight)
  silent : ∀ (i : Nat) (c : Child), s.children[i]? = some c → cfg.spans[i]? = some false → quiet c
  permits : s.sem.permits + s.children.countP Child.holds = cfg.maxConcurrent
  now : s.Now

/-- The handler was not left before its end. -/
def Cleaned (s : State) : Prop :=
  match s.call with
  | .cleaning _ interrupted => interrupted = false
  | .raised => s.Owed (· ∈ s.aborted)
  | _ => True

/-- The cancellation does not come while the handler of a failure is at work. -/
def Undisturbed (s : State) : Event → Prop
  | .cancel => s.call = .gathering ∨ s.call.finished = true
  | _ => True

theorem allEnded_iff : s.children.all Child.ended = true ↔ s.AllEnded := List.all_eq_true

theorem AllEnded.not_running (h : s.AllEnded) (hc : s.children[i]? = some c) : c.ended = true :=
  h c (List.mem_of_getElem? hc)

/-- A finished call has no task that goes on. -/
theorem Inv.allEnded (h : Inv cfg s) (hf : s.call.finished = true) : s.AllEnded := by
  have hnow := h.now
  unfold Now at hnow
  cases hcall : s.call with
  | gathering | cleaning pending interrupted | aborting pending => rw [hcall] at hf; cases hf
  | returned texts =>
    rw [hcall] at hnow
    intro c hc
    rw [hnow] at hc
    obtain ⟨text, _, rfl⟩ := List.mem_map.mp hc
    rfl
  | raised => rw [hcall] at hnow; exact hnow

theorem Goes.lt (h : Goes cfg s s' i c c') : i < s.children.length :=
  (List.getElem?_eq_some_iff.mp h.was).1

theorem Goes.getElem? {j : Nat} {d : Child} (h : Goes cfg s s' i c c') (hd : s'.children[j]? = some d) :
    j = i ∧ d = c' ∨ j ≠ i ∧ s.children[j]? = some d := by
  rw [h.children] at hd
  by_cases hj : j = i
  · subst hj
    rw [List.getElem?_set_self h.lt] at hd
    exact .inl ⟨rfl, (Option.some.inj hd).symm⟩
  · rw [List.getElem?_set_ne (Ne.symm hj)] at hd
    exact .inr ⟨hj, hd⟩

/-- What a task of a cancelled call owes, it owed before. -/
theorem Goes.owed_of_cancelling (h : Goes cfg s s' i c c') (hcancelling : s.cancelling = true)
    {known : Nat → Prop} (howed : s.Owed known) : s'.Owed known := by
  intro j d hd howing
  obtain ⟨rfl, rfl⟩ | ⟨_, hd⟩ := h.getElem? hd
  · obtain hc | hnot := h.owed howing
    · exact howed _ _ h.was hc
    · rw [hcancelling] at hnot; cases hnot
  · exact howed j d hd howing

/-- Replacing an item moves a count by what the item counts for. -/
theorem countP_set_add {α : Type} (p : α → Bool) {l : List α} {a : α} (h : l[i]? = some a) (b : α) :
    (l.set i b).countP p + (p a).toNat = l.countP p + (p b).toNat := by
  obtain ⟨hlt, hat⟩ := List.getElem?_eq_some_iff.mp h
  have hpos : p a = true → 0 < l.countP p := fun ha => List.countP_pos_iff.mpr ⟨a, List.mem_of_getElem? h, ha⟩
  rw [List.countP_set hlt, hat]
  cases ha : p a with
  | false => cases p b <;> simp
  | true =>
    have hone := hpos ha
    cases p b <;> simp <;> omega

theorem Inv.moves (h : Inv cfg s) (hm : Moves cfg s s') : Inv cfg s' := by
  obtain ⟨i, c, c', hgoes, hkept⟩ := hm.task
  constructor
  · rw [hgoes.children, List.length_set]
    exact h.length
  · intro j d hd howing
    obtain ⟨rfl, rfl⟩ | ⟨hj, hd⟩ := hgoes.getElem? hd
    · exact hgoes.owing (fun hc => h.owed _ _ hgoes.was hc) howing
    · exact hkept j hj (h.owed j d hd howing)
  · intro j d hd hsilent
    obtain ⟨rfl, rfl⟩ | ⟨_, hd⟩ := hgoes.getElem? hd
    · exact hgoes.silent hsilent (h.silent _ _ hgoes.was hsilent)
    · exact h.silent j d hd hsilent
  · have hpermits := hgoes.permits
    have hcount := countP_set_add Child.holds hgoes.was c'
    have hall := h.permits
    rw [hgoes.children]
    omega
  · have hnow := h.now
    unfold Now at hnow ⊢
    rw [hm.call]
    cases hcall : s.call with
    | gathering => trivial
    | cleaning pending interrupted =>
      rw [hcall] at hnow
      exact ⟨hm.cancelling.trans hnow.1, hgoes.owed_of_cancelling hnow.1 hnow.2⟩
    | aborting pending =>
      rw [hcall] at hnow
      have hended := hnow.1.not_running hgoes.was
      rw [hgoes.running] at hended
      cases hended
    | returned texts | raised =>
      have hended := (h.allEnded (by rw [hcall]; rfl)).not_running hgoes.was
      rw [hgoes.running] at hended
      cases hended

theorem Cleaned.moves (hinv : Inv cfg s) (h : s.Cleaned) (hm : Moves cfg s s') : s'.Cleaned := by
  obtain ⟨i, c, c', hgoes, _⟩ := hm.task
  unfold Cleaned at h ⊢
  rw [hm.call]
  cases hcall : s.call with
  | raised =>
    have hended := (hinv.allEnded (by rw [hcall]; rfl)).not_running hgoes.was
    rw [hgoes.running] at hended
    cases hended
  | cleaning pending interrupted => rw [hcall] at h; exact h
  | _ => trivial

/-! ### The steps of the call -/

/-- A step of the call, which leaves the tasks and what they owe as they are. -/
theorem Inv.call (h : Inv cfg s) (children : s'.children = s.children) (inFlight : s'.inFlight = s.inFlight)
    (permits : s'.sem.permits = s.sem.permits) (now : s'.Now) : Inv cfg s' where
  length := children ▸ h.length
  owed := by
    unfold Owed
    rw [children, inFlight]
    exact h.owed
  silent := children ▸ h.silent
  permits := by
    rw [children, permits]
    exact h.permits
  now := now

/-- The next abort, of ids that are all still to be aborted. -/
theorem nextAbort_now {pending : List Nat} (hended : s.AllEnded)
    (howed : s.Owed fun i => i ∈ s.aborted ∨ i ∈ pending) :
    (s.nextAbort pending).Now ∧ (s.nextAbort pending).Cleaned := by
  cases pending with
  | nil =>
    constructor
    · exact hended
    · intro i c hc howing
      cases howed i c hc howing with
      | inl hin => exact hin
      | inr hin => cases hin
  | cons id rest =>
    constructor
    · refine ⟨hended, ?_⟩
      intro i c hc howing
      show i ∈ s.aborted ++ [id] ∨ i ∈ rest
      rw [List.mem_append, List.mem_singleton]
      obtain hin | hin := howed i c hc howing
      · exact .inl (.inl hin)
      · cases List.mem_cons.mp hin with
        | inl hin => exact .inl (.inr hin)
        | inr hin => exact .inr hin
    · trivial

theorem nextAbort_frame (pending : List Nat) : (s.nextAbort pending).children = s.children ∧
    (s.nextAbort pending).inFlight = s.inFlight ∧ (s.nextAbort pending).sem = s.sem := by
  cases pending <;> exact ⟨rfl, rfl, rfl⟩

theorem wake_inv (h : Inv cfg s) : Inv cfg (s.step cfg .wake) ∧ (s.Cleaned → (s.step cfg .wake).Cleaned) := by
  simp only [step]
  split
  · split
    · next hall =>
      constructor
      · refine h.call rfl rfl rfl ?_
        have hreturned := List.all_eq_true.mp (Bool.and_eq_true_iff.mp hall).1
        show s.children = (s.children.map Child.text).map .returned
        rw [List.map_map]
        apply (List.map_congr_left ?_).trans (List.map_id _) |>.symm
        intro c hc
        cases c with
        | returned text => rfl
        | _ => cases hreturned _ hc
      · exact fun _ => trivial
    · split
      · constructor
        · refine h.call rfl rfl (Semaphore.permits_disband s.sem) ⟨rfl, ?_⟩
          intro i c hc howing
          exact (List.perm_insertionSort _ _).mem_iff.mpr (h.owed i c hc howing)
        · exact fun _ => rfl
      · exact ⟨h, id⟩
  · exact ⟨h, id⟩

theorem gathered_inv (h : Inv cfg s) : Inv cfg (s.step cfg .gathered) ∧
      (s.Cleaned → (s.step cfg .gathered).Cleaned) := by
  have hnow := h.now
  unfold Now at hnow
  simp only [step]
  split
  · next pending interrupted hcall =>
    rw [hcall] at hnow
    split
    · next hall =>
      have hended := allEnded_iff.mp hall
      split
      · next hinterrupted =>
        constructor
        · exact h.call rfl rfl rfl hended
        · intro hcleaned
          unfold Cleaned at hcleaned
          rw [hcall] at hcleaned
          rw [hcleaned] at hinterrupted
          cases hinterrupted
      · have hnext := nextAbort_now hended (fun i c hc howing => .inr (hnow.2 i c hc howing))
        obtain ⟨hchildren, hflight, hsem⟩ := nextAbort_frame (s := s) pending
        exact ⟨h.call hchildren hflight (congrArg Semaphore.permits hsem) hnext.1, fun _ => hnext.2⟩
    · exact ⟨h, id⟩
  · exact ⟨h, id⟩

theorem abortReturns_inv (h : Inv cfg s) :
    Inv cfg (s.step cfg .abortReturns) ∧ (s.Cleaned → (s.step cfg .abortReturns).Cleaned) := by
  have hnow := h.now
  unfold Now at hnow
  simp only [step]
  split
  · next pending hcall =>
    rw [hcall] at hnow
    have hnext := nextAbort_now hnow.1 hnow.2
    obtain ⟨hchildren, hflight, hsem⟩ := nextAbort_frame (s := s) pending
    exact ⟨h.call hchildren hflight (congrArg Semaphore.permits hsem) hnext.1, fun _ => hnext.2⟩
  · exact ⟨h, id⟩

theorem cancel_inv (h : Inv cfg s) :
    Inv cfg (s.step cfg .cancel) ∧ (Undisturbed s .cancel → s.Cleaned → (s.step cfg .cancel).Cleaned) := by
  have hnow := h.now
  unfold Now at hnow
  simp only [step]
  split
  · exact ⟨h, fun _ hc => hc⟩
  · split
    · next hcall =>
      constructor
      · split
        · refine h.call rfl rfl rfl ?_
          unfold Now
          rw [hcall]
          trivial
        · refine h.call rfl rfl (Semaphore.permits_disband s.sem) ?_
          unfold Now cancelTasks
          rw [hcall]
          trivial
      · intro _ _
        have hsame : (if s.gatherDone then s else s.cancelTasks).call = .gathering := by split <;> exact hcall
        unfold Cleaned
        rw [hsame]
        trivial
    · next pending interrupted hcall =>
      rw [hcall] at hnow
      constructor
      · exact h.call rfl rfl rfl hnow
      · intro hrule
        obtain hg | hf := hrule
        · rw [hcall] at hg; cases hg
        · rw [hcall] at hf; cases hf
    · next pending hcall =>
      rw [hcall] at hnow
      constructor
      · exact h.call rfl rfl rfl hnow.1
      · intro hrule
        obtain hg | hf := hrule
        · rw [hcall] at hg; cases hg
        · rw [hcall] at hf; cases hf
    · exact ⟨h, fun _ hc => hc⟩

theorem step_moves (cfg : Config) (s : State) (e : Event) (he : e.task.isSome = true) :
    s.step cfg e = s ∨ Moves cfg s (s.step cfg e) := by
  obtain ⟨i, hi⟩ := Option.isSome_iff_exists.mp he
  rw [step_task hi]
  cases hc : s.children[i]? with
  | none => exact .inl rfl
  | some c => exact stepChild_moves hc e

theorem step_inv (h : Inv cfg s) (e : Event) :
    Inv cfg (s.step cfg e) ∧ (Undisturbed s e → s.Cleaned → (s.step cfg e).Cleaned) := by
  by_cases he : e.task.isSome = true
  · cases step_moves cfg s e he with
    | inl hsame => rw [hsame]; exact ⟨h, fun _ hc => hc⟩
    | inr hm => exact ⟨h.moves hm, fun _ hc => hc.moves h hm⟩
  · cases e with
    | wake => exact ⟨(wake_inv h).1, fun _ => (wake_inv h).2⟩
    | gathered => exact ⟨(gathered_inv h).1, fun _ => (gathered_inv h).2⟩
    | abortReturns => exact ⟨(abortReturns_inv h).1, fun _ => (abortReturns_inv h).2⟩
    | cancel => exact cancel_inv h
    | _ => exact absurd rfl he

theorem create_inv (cfg : Config) : Inv cfg (create cfg) ∧ (create cfg).Cleaned := by
  have hcreated : ∀ (i : Nat) (c : Child), (create cfg).children[i]? = some c → c = .created := by
    intro i c hc
    obtain ⟨_, _, rfl⟩ := List.mem_map.mp (List.mem_of_getElem? hc)
    rfl
  constructor
  · constructor
    · exact List.length_map _
    · intro i c hc howing
      rw [hcreated i c hc] at howing
      cases howing
    · exact fun i c hc _ => .inl (hcreated i c hc)
    · have hnone : (create cfg).children.countP Child.holds = 0 := by
        apply List.countP_eq_zero.mpr
        intro c hc
        obtain ⟨_, _, rfl⟩ := List.mem_map.mp hc
        exact Bool.false_ne_true
      rw [hnone]
      exact Semaphore.permits_create _
    · cases hspans : cfg.spans with
      | nil | cons span rest => simp [Now, create, hspans]
  · cases hspans : cfg.spans with
    | nil | cons span rest => simp [Cleaned, create, hspans]

theorem runs_inv (cfg : Config) (es : List Event) : Inv cfg (runs cfg es) :=
  run_invariant (create_inv cfg).1 (fun _ e h => (step_inv h e).1) es

theorem runs_cleaned (cfg : Config) (es : List Event) (rule : Along (step cfg) Undisturbed (create cfg) es) :
    (runs cfg es).Cleaned := by
  have hboth := along_invariant (I := fun s => Inv cfg s ∧ s.Cleaned) (create_inv cfg)
    (fun _ e h rule => ⟨(step_inv h.1 e).1, (step_inv h.1 e).2 rule h.2⟩) es rule
  exact hboth.2

/-- A call that is over starts nothing more. -/
theorem step_finished (h : Inv cfg s) (hf : s.call.finished = true) (e : Event) :
    (s.step cfg e).children = s.children ∧ (s.step cfg e).call = s.call := by
  by_cases he : e.task.isSome = true
  · cases step_moves cfg s e he with
    | inl hsame => rw [hsame]; exact ⟨rfl, rfl⟩
    | inr hm =>
      obtain ⟨i, c, c', hgoes, _⟩ := hm.task
      have hended := (h.allEnded hf).not_running hgoes.was
      rw [hgoes.running] at hended
      cases hended
  · cases hcall : s.call with
    | gathering | cleaning pending interrupted | aborting pending => rw [hcall] at hf; cases hf
    | _ =>
      cases e with
      | cancel =>
        simp only [step, hcall]
        split <;> exact ⟨rfl, hcall⟩
      | _ => first | exact absurd rfl he | (simp only [step, hcall]; exact ⟨trivial, trivial⟩)

theorem run_finished (h : Inv cfg s) (hf : s.call.finished = true) (more : List Event) :
    (Lib.run (step cfg) s more).children = s.children := by
  have hstep : ∀ t e, Inv cfg t ∧ t.call.finished = true ∧ t.children = s.children →
      Inv cfg (t.step cfg e) ∧ (t.step cfg e).call.finished = true ∧ (t.step cfg e).children = s.children := by
    intro t e ht
    obtain ⟨hchildren, hcall⟩ := step_finished ht.1 ht.2.1 e
    exact ⟨(step_inv ht.1 e).1, hcall ▸ ht.2.1, hchildren.trans ht.2.2⟩
  exact (run_invariant ⟨h, hf, rfl⟩ hstep more).2.2

/-! ### The queue of the semaphore -/

/-- The tasks in the queue are those that wait, once each, and the queue is fair to them. -/
structure Queued (s : State) : Prop where
  fair : s.sem.Fair
  distinct : s.sem.tasks.Nodup
  waiting : ∀ i ∈ s.sem.tasks, s.children[i]? = some .waiting
  listed : s.cancelling = false → ∀ i : Nat, s.children[i]? = some .waiting → i ∈ s.sem.tasks

/-- The task `i` goes on to `c'`, and stands in the queue if that is to wait. -/
structure Queues (s s' : State) (i : Nat) (c' : Child) : Prop where
  children : s'.children = s.children.set i c'
  cancelling : s'.cancelling = s.cancelling
  fair : s'.sem.Fair
  distinct : s'.sem.tasks.Nodup
  others : ∀ j, j ≠ i → (j ∈ s'.sem.tasks ↔ j ∈ s.sem.tasks)
  own : i ∈ s'.sem.tasks ↔ c' = .waiting

theorem Queued.queues (h : s.Queued) (hc : s.children[i]? = some c) (hq : Queues s s' i c') :
    s'.Queued := by
  have hlt : i < s.children.length := (List.getElem?_eq_some_iff.mp hc).1
  constructor
  · exact hq.fair
  · exact hq.distinct
  · intro j hj
    rw [hq.children]
    by_cases hji : j = i
    · subst hji
      rw [List.getElem?_set_self hlt, hq.own.mp hj]
    · rw [List.getElem?_set_ne (Ne.symm hji)]
      exact h.waiting j ((hq.others j hji).mp hj)
  · intro hcancelling j hj
    rw [hq.children] at hj
    by_cases hji : j = i
    · subst hji
      rw [List.getElem?_set_self hlt] at hj
      exact hq.own.mpr (Option.some.inj hj)
    · rw [List.getElem?_set_ne (Ne.symm hji)] at hj
      exact (hq.others j hji).mpr (h.listed (hq.cancelling ▸ hcancelling) j hj)

/-- A task that does not wait is not in the queue. -/
theorem Queued.not_listed (h : s.Queued) (hc : s.children[i]? = some c) (hne : c ≠ .waiting) :
    i ∉ s.sem.tasks := by
  intro hin
  rw [h.waiting i hin] at hc
  cases hc
  exact hne rfl

/-- A task that neither waits nor goes to wait. -/
theorem Queued.keeps (h : s.Queued) (hc : s.children[i]? = some c) (hne : c ≠ .waiting)
    (hne' : c' ≠ .waiting) (children : s'.children = s.children.set i c') (cancelling : s'.cancelling = s.cancelling)
    (fair : s'.sem.Fair) (tasks : s'.sem.tasks = s.sem.tasks) : Queues s s' i c' where
  children := children
  cancelling := cancelling
  fair := fair
  distinct := tasks ▸ h.distinct
  others j _ := by rw [tasks]
  own := by
    rw [tasks]
    exact iff_of_false (h.not_listed hc hne) hne'

/-- A task leaves the queue. -/
theorem Queued.leaves (h : s.Queued) (hne' : c' ≠ .waiting)
    (children : s'.children = s.children.set i c') (cancelling : s'.cancelling = s.cancelling) (fair : s'.sem.Fair)
    (tasks : s'.sem.tasks = s.sem.tasks.erase i) : Queues s s' i c' where
  children := children
  cancelling := cancelling
  fair := fair
  distinct := tasks ▸ h.distinct.erase i
  others j hj := by rw [tasks, List.mem_erase_of_ne hj]
  own := by
    rw [tasks]
    exact iff_of_false (h.distinct.not_mem_erase) hne'

theorem stepChild_queues (cfg : Config) (h : s.Queued) (hc : s.children[i]? = some c) (e : Event) :
    s.stepChild cfg i c e = s ∨ ∃ c', Queues s (s.stepChild cfg i c e) i c' := by
  cases e with
  | run j =>
    simp only [stepChild]
    split
    · right
      split
      · exact ⟨_, h.keeps hc (by nofun) (by nofun) rfl rfl h.fair rfl⟩
      · have htasks := Semaphore.tasks_acquire s.sem i
        have hfair := Semaphore.fair_acquire h.fair i
        have hout : i ∉ s.sem.tasks := h.not_listed hc (fun h => nomatch h)
        cases htaken : (s.sem.acquire i).2 with
        | true =>
          rw [htaken, if_pos rfl] at htasks
          exact ⟨.encoding, h.keeps hc (by nofun) (by nofun) rfl rfl hfair htasks⟩
        | false =>
          rw [htaken, if_neg Bool.false_ne_true] at htasks
          refine ⟨.waiting, rfl, rfl, hfair, ?_, ?_, ?_⟩
          · show (s.sem.acquire i).1.tasks.Nodup
            rw [htasks]
            exact List.nodup_append_comm.mp (List.nodup_cons.mpr ⟨hout, h.distinct⟩)
          · intro j hj
            show j ∈ (s.sem.acquire i).1.tasks ↔ _
            rw [htasks, List.mem_append, List.mem_singleton]
            exact or_iff_left hj
          · show i ∈ (s.sem.acquire i).1.tasks ↔ _
            rw [htasks]
            exact iff_of_true (List.mem_append_right _ (List.mem_singleton.mpr rfl)) rfl
    · exact .inl rfl
  | resume j =>
    simp only [stepChild]
    split
    · split
      · next hhanded =>
        exact .inr ⟨_, h.leaves (by nofun) rfl rfl (Semaphore.fair_resume _ _)
          (Semaphore.tasks_resume h.distinct hhanded)⟩
      · exact .inl rfl
    · exact .inl rfl
  | encoded j =>
    simp only [stepChild]
    split
    · exact .inr ⟨_, h.keeps hc (by nofun) (by nofun) rfl rfl h.fair rfl⟩
    · exact .inl rfl
  | encodeFails j | completes j | fails j =>
    simp only [stepChild]
    split
    · exact .inr ⟨_, h.keeps hc (by nofun) (by nofun) rfl rfl (Semaphore.fair_release _)
        (Semaphore.tasks_release _)⟩
    · exact .inl rfl
  | thrown j =>
    simp only [stepChild]
    split
    · exact .inr ⟨_, h.keeps hc (by nofun) (by nofun) rfl rfl h.fair rfl⟩
    · exact .inr ⟨_, h.leaves (by nofun) rfl rfl (Semaphore.fair_withdraw h.fair _)
        (Semaphore.tasks_withdraw h.distinct _)⟩
    · exact .inr ⟨_, h.keeps hc (by nofun) (by nofun) rfl rfl (Semaphore.fair_release _)
        (Semaphore.tasks_release _)⟩
    · exact .inr ⟨_, h.keeps hc (by nofun) (by nofun) rfl rfl (Semaphore.fair_release _)
        (Semaphore.tasks_release _)⟩
    · exact .inl rfl
  | _ => exact .inl rfl

/-- After `task.cancel()` nobody has to stand in the queue any more. -/
theorem Queued.cancelTasks (h : s.Queued) : s.cancelTasks.Queued where
  fair := Semaphore.fair_disband _
  distinct := h.distinct.sublist (List.filter_sublist.map _)
  waiting i hi := h.waiting i ((List.filter_sublist.map Prod.fst).subset hi)
  listed hcancelling := nomatch hcancelling

/-- The steps of the call leave the queue as it is, or call off the tasks. -/
theorem Queued.same (h : s.Queued) (children : s'.children = s.children) (sem : s'.sem = s.sem)
    (cancelling : s'.cancelling = s.cancelling) : s'.Queued where
  fair := sem ▸ h.fair
  distinct := sem ▸ h.distinct
  waiting := by rw [sem, children]; exact h.waiting
  listed := by rw [sem, children, cancelling]; exact h.listed

theorem step_queued (h : s.Queued) (e : Event) : (s.step cfg e).Queued := by
  cases htask : e.task with
  | some i =>
    rw [step_task htask]
    cases hc : s.children[i]? with
    | none => exact h
    | some c =>
      show (s.stepChild cfg i c e).Queued
      cases stepChild_queues cfg h hc e with
      | inl hsame => rw [hsame]; exact h
      | inr hq =>
        obtain ⟨c', hq⟩ := hq
        exact h.queues hc hq
  | none =>
    cases e with
    | wake =>
      simp only [step]
      split
      · split
        · exact h.same rfl rfl rfl
        · split
          · exact h.cancelTasks.same rfl rfl rfl
          · exact h
      · exact h
    | gathered =>
      simp only [step]
      split
      · next pending interrupted hcall =>
        split
        · split
          · exact h.same rfl rfl rfl
          · cases pending <;> exact h.same rfl rfl rfl
        · exact h
      · exact h
    | abortReturns =>
      simp only [step]
      split
      · next pending hcall => cases pending <;> exact h.same rfl rfl rfl
      · exact h
    | cancel =>
      simp only [step]
      split
      · exact h
      · split
        · split
          · exact h.same rfl rfl rfl
          · exact h.cancelTasks.same rfl rfl rfl
        · exact h.same rfl rfl rfl
        · exact h.same rfl rfl rfl
        · exact h
    | _ => cases htask

theorem runs_queued (cfg : Config) (es : List Event) : (runs cfg es).Queued := by
  apply run_invariant (I := Queued) _ (fun _ e h => step_queued h e) es
  constructor
  · exact Semaphore.fair_create _
  · exact List.nodup_nil
  · exact fun _ hi => nomatch hi
  · intro _ i hi
    obtain ⟨_, _, hw⟩ := List.mem_map.mp (List.mem_of_getElem? hi)
    cases hw

/-! ### Progress -/

theorem become_ne {t : State} (hc : s.children[i]? = some c) (hne : c' ≠ c)
    (children : t.children = s.children) : t.become i c' ≠ s := by
  intro heq
  have hlt : i < t.children.length := children ▸ (List.getElem?_eq_some_iff.mp hc).1
  have hat : (t.become i c').children[i]? = some c' := List.getElem?_set_self hlt
  rw [heq, hc] at hat
  exact hne (Option.some.inj hat).symm

/-- A task that was told to stop can stop. -/
theorem thrown_ne (hcancelling : s.cancelling = true) (hc : s.children[i]? = some c)
    (hended : c.ended = false) : s.step cfg (.thrown i) ≠ s := by
  rw [step_task (i := i) rfl, hc]
  cases c with
  | created | waiting | encoding | completing =>
    simp only [stepChild, hcancelling]
    exact become_ne hc (by nofun) rfl
  | _ => cases hended

theorem nextAbort_ne {pending : List Nat} (hcall : s.call = .aborting pending ∨ ∃ b, s.call = .cleaning pending b) :
    s.nextAbort pending ≠ s := by
  intro heq
  cases pending with
  | nil =>
    have hraised : s.call = .raised := heq ▸ rfl
    rw [hraised] at hcall
    obtain h | ⟨_, h⟩ := hcall <;> cases h
  | cons i rest =>
    have hlonger := congrArg (fun t : State => t.aborted.length) heq
    simp [nextAbort] at hlonger

/-- A call that has begun can always go on: with a permit at all, the queue of the semaphore does not stop it. -/
theorem exists_step (hinv : Inv cfg s) (hq : s.Queued) (hlimit : 0 < cfg.maxConcurrent) (hf : s.call.finished = false) :
    ∃ e, s.step cfg e ≠ s := by
  by_cases hall : s.children.all Child.ended = true
  · cases hcall : s.call with
    | gathering =>
      refine ⟨.wake, ?_⟩
      simp only [step, hcall]
      split
      · intro heq
        have hreturned := congrArg State.call heq
        rw [hcall] at hreturned
        cases hreturned
      · rw [if_pos (by simp [gatherDone, hall])]
        intro heq
        have hcleaning := congrArg State.call heq
        rw [hcall] at hcleaning
        cases hcleaning
    | cleaning pending interrupted =>
      refine ⟨.gathered, ?_⟩
      simp only [step, hcall, hall, if_true]
      split
      · intro heq
        have hraised := congrArg State.call heq
        rw [hcall] at hraised
        cases hraised
      · exact nextAbort_ne (.inr ⟨_, hcall⟩)
    | aborting pending =>
      refine ⟨.abortReturns, ?_⟩
      simp only [step, hcall]
      exact nextAbort_ne (.inl hcall)
    | returned texts | raised => rw [hcall] at hf; cases hf
  · have hsome : ∃ c ∈ s.children, c.ended = false := by simpa using hall
    obtain ⟨c, hmem, hended⟩ := hsome
    obtain ⟨i, hc⟩ := List.mem_iff_getElem?.mp hmem
    cases hcancelling : s.cancelling with
    | true => exact ⟨.thrown i, thrown_ne hcancelling hc hended⟩
    | false =>
      by_cases hholds : ∃ d ∈ s.children, d.holds = true
      · obtain ⟨d, hd, hh⟩ := hholds
        obtain ⟨j, hj⟩ := List.mem_iff_getElem?.mp hd
        cases d with
        | encoding =>
          refine ⟨.encodeFails j, ?_⟩
          rw [step_task (i := j) rfl, hj]
          simp only [stepChild, hcancelling]
          exact become_ne hj (by simp) rfl
        | completing =>
          refine ⟨.fails j, ?_⟩
          rw [step_task (i := j) rfl, hj]
          simp only [stepChild]
          exact become_ne hj (by simp) rfl
        | _ => cases hh
      · cases c with
        | created =>
          refine ⟨.run i, ?_⟩
          rw [step_task (i := i) rfl, hc]
          simp only [stepChild, hcancelling]
          split
          · exact become_ne hc (by simp) rfl
          · exact become_ne hc (by split <;> simp) rfl
        | waiting =>
          have hnone : s.children.countP Child.holds = 0 :=
            List.countP_eq_zero.mpr fun d hd hh => hholds ⟨d, hd, hh⟩
          have hpermits := hinv.permits
          obtain ⟨j, hj⟩ := Semaphore.exists_handed hq.fair (by omega) (hq.listed hcancelling i hc)
          have hlisted : j ∈ s.sem.tasks := List.mem_map_of_mem (f := Prod.fst) (of_decide_eq_true hj)
          have hwaits := hq.waiting j hlisted
          refine ⟨.resume j, ?_⟩
          rw [step_task (i := j) rfl, hwaits]
          simp only [stepChild, hcancelling, hj, if_true]
          exact become_ne hwaits (by simp) rfl
        | encoding | completing => exact absurd ⟨_, hmem, rfl⟩ hholds
        | _ => cases hended

end State

namespace Ordered
variable {cfg : Config} {o : Ordered} {results : List (RequestId × String)} {texts : List String}

/-! ### The ordered mode -/

/-- The texts of the spans so far: none for a silent one, and for another what a completion of it returned. -/
structure Filled (cfg : Config) (texts : List String) (results : List (RequestId × String)) : Prop where
  le : texts.length ≤ cfg.spans.length
  silent : ∀ i, i < texts.length → cfg.spans[i]? = some false → texts[i]? = some ""
  spoken : ∀ i text, texts[i]? = some text → cfg.spans[i]? = some true → ∃ retry, ((i, retry), text) ∈ results

theorem Filled.mono {more : List (RequestId × String)} (h : Filled cfg texts results) :
    Filled cfg texts (results ++ more) where
  le := h.le
  silent := h.silent
  spoken i text hi hspan := by
    obtain ⟨retry, hin⟩ := h.spoken i text hi hspan
    exact ⟨retry, List.mem_append_left _ hin⟩

/-- One more text. -/
theorem Filled.concat (h : Filled cfg texts results)
    {text : String} {speech : Bool} (hspan : cfg.spans[texts.length]? = some speech)
    (htext : if speech then ∃ retry, ((texts.length, retry), text) ∈ results else text = "") :
    Filled cfg (texts ++ [text]) results where
  le := by
    rw [List.length_append]
    exact (List.getElem?_eq_some_iff.mp hspan).1
  silent i hi hsilent := by
    by_cases hlt : i < texts.length
    · rw [List.getElem?_append_left hlt]
      exact h.silent i hlt hsilent
    · have heq : i = texts.length := by simp at hi; omega
      subst heq
      rw [hspan] at hsilent
      cases hsilent
      rw [List.getElem?_concat_length, if_neg Bool.false_ne_true] at *
      exact congrArg some htext
  spoken i other hi hspoken := by
    by_cases hlt : i < texts.length
    · rw [List.getElem?_append_left hlt] at hi
      exact h.spoken i other hi hspoken
    · have heq : i = texts.length := by
        have hbound := (List.getElem?_eq_some_iff.mp hi).1
        simp at hbound
        omega
      subst heq
      rw [List.getElem?_concat_length] at hi
      cases hi
      rw [hspan] at hspoken
      cases hspoken
      exact htext

/-- The loop over silent spans. -/
theorem advance_filled : ∀ {spans : List Bool} {texts : List String},
    Filled cfg texts results → spans = cfg.spans.drop texts.length →
    Filled cfg (advance texts spans).1 results ∧
      (advance texts spans).2 = cfg.spans.drop (advance texts spans).1.length ∧
      ((advance texts spans).2 = [] ∨ (advance texts spans).2.head? = some true) := by
  intro spans
  induction spans with
  | nil => exact fun h hspans => ⟨h, hspans, .inl rfl⟩
  | cons span rest ih =>
    intro texts h hspans
    cases span with
    | true => exact ⟨h, hspans, .inr rfl⟩
    | false =>
      have hspan : cfg.spans[texts.length]? = some false := by
        have hhead := congrArg List.head? hspans
        rw [List.head?_drop] at hhead
        exact hhead.symm
      apply ih (h.concat hspan rfl)
      rw [List.length_append, List.length_singleton, ← List.drop_drop, ← hspans]
      rfl

structure Inv (cfg : Config) (o : Ordered) : Prop where
  filled : Filled cfg o.texts o.results
  rest : o.rest = cfg.spans.drop o.texts.length
  now : match o.phase with
    | .encoding _ => o.inFlight = [] ∧ o.abandoned = [] ∧ o.rest.head? = some true
    | .completing retry => o.inFlight = [o.current retry] ∧ o.abandoned = [] ∧ o.rest.head? = some true
    | .deciding text => o.inFlight = [] ∧ o.abandoned = [] ∧ o.rest.head? = some true ∧
        ∃ retry, (o.current retry, text) ∈ o.results
    | .aborting _ => o.cancelArrived = true ∧ ∀ id ∈ o.abandoned, id ∈ o.aborted
    | .returned => o.rest = []
    | .raised => ∀ id ∈ o.abandoned, id ∈ o.aborted

/-- The next span with speech, or the end. -/
theorem goOn_inv {spans : List Bool} (filled : Filled cfg texts o.results)
    (rest : spans = cfg.spans.drop texts.length) (inFlight : o.inFlight = []) (abandoned : o.abandoned = []) :
    Inv cfg (o.goOn texts spans) := by
  obtain ⟨hfilled, hrest, hhead⟩ := advance_filled filled rest
  constructor
  · exact hfilled
  · exact hrest
  · simp only [goOn]
    cases hadvance : (advance texts spans).2 with
    | nil => trivial
    | cons span tail =>
      rw [hadvance] at hhead
      obtain hnil | hhead := hhead
      · cases hnil
      · exact ⟨inFlight, abandoned, hhead⟩

theorem finish_inv (h : Inv cfg o) {text : String} (inFlight : o.inFlight = []) (abandoned : o.abandoned = [])
    (hhead : o.rest.head? = some true) (hresult : ∃ retry, (o.current retry, text) ∈ o.results) :
    Inv cfg (o.finish text) := by
  have hrest := h.rest
  have hspan : cfg.spans[o.texts.length]? = some true := by
    rw [hrest, List.head?_drop] at hhead
    exact hhead
  apply goOn_inv (h.filled.concat hspan hresult) _ inFlight abandoned
  rw [hrest, List.tail_drop, List.length_append, List.length_singleton]

/-- The handler with nothing in flight. -/
theorem handle_inv (h : Inv cfg o) (inFlight : o.inFlight = []) (abandoned : o.abandoned = []) : Inv cfg o.handle := by
  have hhandle : o.handle = { o with phase := .raised } := congrArg o.nextAbort inFlight
  rw [hhandle]
  refine ⟨h.filled, h.rest, ?_⟩
  show ∀ id ∈ o.abandoned, id ∈ o.aborted
  rw [abandoned]
  exact fun _ hid => nomatch hid

theorem discard_current (h : o.inFlight = [o.current retry]) : (o.discard (o.current retry)).inFlight = [] := by
  simp [discard, h]

theorem step_inv (h : Inv cfg o) (e : OrderedEvent) : Inv cfg (o.step e) := by
  have hnow := h.now
  cases e with
  | encoded =>
    cases hphase : o.phase with
    | encoding retry =>
      rw [hphase] at hnow
      simp only [step, hphase]
      refine ⟨h.filled, h.rest, ?_, hnow.2⟩
      show o.inFlight ++ [o.current retry] = _
      rw [hnow.1]
      rfl
    | _ => simpa only [step, hphase] using h
  | encodeFails =>
    cases hphase : o.phase with
    | encoding retry =>
      rw [hphase] at hnow
      simp only [step, hphase]
      exact handle_inv h hnow.1 hnow.2.1
    | _ => simpa only [step, hphase] using h
  | completes text =>
    cases hphase : o.phase with
    | completing retry =>
      rw [hphase] at hnow
      obtain ⟨hflight, habandoned, hhead⟩ := hnow
      have hempty := discard_current hflight
      have hdone : Inv cfg { { o.discard (o.current retry) with
          results := o.results ++ [(o.current retry, text)] } with phase := .deciding text } :=
        ⟨h.filled.mono, h.rest, hempty, habandoned, hhead, retry, List.mem_append_right _ (List.mem_singleton.mpr rfl)⟩
      simp only [step, hphase]
      split
      · exact finish_inv hdone hempty habandoned hhead ⟨retry, List.mem_append_right _ (List.mem_singleton.mpr rfl)⟩
      · exact hdone
    | _ => simpa only [step, hphase] using h
  | fails =>
    cases hphase : o.phase with
    | completing retry =>
      rw [hphase] at hnow
      simp only [step, hphase]
      have hempty := discard_current hnow.1
      have hraised : (o.discard (o.current retry)).handle = { o.discard (o.current retry) with phase := .raised } :=
        congrArg (o.discard (o.current retry)).nextAbort hempty
      rw [hraised]
      refine ⟨h.filled, h.rest, ?_⟩
      show ∀ id ∈ o.abandoned, id ∈ o.aborted
      rw [hnow.2.1]
      exact fun _ hid => nomatch hid
    | _ => simpa only [step, hphase] using h
  | decided retry =>
    cases hphase : o.phase with
    | deciding text =>
      rw [hphase] at hnow
      obtain ⟨hflight, habandoned, hhead, hresult⟩ := hnow
      simp only [step, hphase]
      split
      · exact ⟨h.filled, h.rest, hflight, habandoned, hhead⟩
      · exact finish_inv h hflight habandoned hhead hresult
    | _ => simpa only [step, hphase] using h
  | decisionFails =>
    cases hphase : o.phase with
    | deciding text =>
      rw [hphase] at hnow
      simp only [step, hphase]
      exact handle_inv h hnow.1 hnow.2.1
    | _ => simpa only [step, hphase] using h
  | abortReturns =>
    cases hphase : o.phase with
    | aborting pending =>
      rw [hphase] at hnow
      simp only [step, hphase]
      cases pending with
      | nil => exact ⟨h.filled, h.rest, hnow.2⟩
      | cons id rest =>
        refine ⟨h.filled, h.rest, hnow.1, ?_⟩
        intro other hother
        exact List.mem_append_left _ (hnow.2 other hother)
    | _ => simpa only [step, hphase] using h
  | cancel =>
    simp only [step]
    split
    · exact h
    · next hfirst =>
      cases hphase : o.phase with
      | encoding retry | deciding text =>
        rw [hphase] at hnow
        exact handle_inv (o := { o with cancelArrived := true })
          ⟨h.filled, h.rest, by rw [hphase]; exact hnow⟩ hnow.1 hnow.2.1
      | completing retry =>
        rw [hphase] at hnow
        obtain ⟨hflight, habandoned, _⟩ := hnow
        -- the request that was cancelled is the one in flight
        simp only [handle, hflight, nextAbort]
        refine ⟨h.filled, h.rest, rfl, ?_⟩
        intro id hid
        rw [habandoned] at hid
        exact List.mem_append_right _ hid
      | aborting pending =>
        rw [hphase] at hnow
        exact absurd hnow.1 hfirst
      | _ => exact ⟨h.filled, h.rest, h.now⟩

theorem runs_inv (cfg : Config) (es : List OrderedEvent) : Inv cfg (runs cfg es) := by
  have hstart : Inv cfg (create cfg) := by
    apply goOn_inv (o := { rest := cfg.spans }) _ rfl rfl rfl
    exact ⟨Nat.zero_le _, (fun _ hi => absurd hi (Nat.not_lt_zero _)), fun _ _ hi => nomatch hi⟩
  exact run_invariant hstart (fun _ e h => step_inv h e) es

theorem step_finished (hf : o.phase.finished = true) (e : OrderedEvent) : o.step e = o := by
  cases hphase : o.phase with
  | returned | raised => cases e <;> simp [step, hphase]
  | _ => rw [hphase] at hf; cases hf

theorem nextAbort_phase (o : Ordered) (ids : List RequestId) :
    (o.nextAbort ids).phase = .raised ∨ ∃ rest, (o.nextAbort ids).phase = .aborting rest ∧
      rest.length < ids.length := by
  cases ids with
  | nil => exact .inl rfl
  | cons id rest => exact .inr ⟨rest, rfl, Nat.lt_succ_self _⟩

/-- A call goes on with what it waits for. -/
theorem exists_step (hf : o.phase.finished = false) : ∃ e, e ≠ .cancel ∧ (o.step e).phase ≠ o.phase := by
  cases hphase : o.phase with
  | encoding retry => exact ⟨.encoded, nofun, by simp [step, hphase]⟩
  | completing retry =>
    refine ⟨.fails, nofun, ?_⟩
    obtain h | ⟨_, h, _⟩ := nextAbort_phase (o.discard (o.current retry)) (o.discard (o.current retry)).inFlight
    all_goals simp [step, hphase, handle, h]
  | deciding text =>
    refine ⟨.decisionFails, nofun, ?_⟩
    obtain h | ⟨_, h, _⟩ := nextAbort_phase o o.inFlight
    all_goals simp [step, hphase, handle, h]
  | aborting pending =>
    refine ⟨.abortReturns, nofun, ?_⟩
    obtain h | ⟨rest, h, hlt⟩ := nextAbort_phase o pending
    · simp [step, hphase, h]
    · simp only [step, hphase, h, ne_eq, Phase.aborting.injEq]
      exact fun heq => absurd hlt (by simp [heq])
  | _ =>
    rw [hphase] at hf
    cases hf

end Ordered

/-- What a call of chunks that run at once leaves behind. -/
structure State.Settled (cfg : Config) (s : State) : Prop where
  /-- One text per span, in the order of the spans. -/
  texts : ∀ texts : List String, s.call = .returned texts → s.children = texts.map .returned ∧
    texts.length = cfg.spans.length ∧
    ∀ i : Nat, cfg.spans[i]? = some false → texts[i]? = some ""
  limit : s.children.count .completing ≤ cfg.maxConcurrent
  /-- The call goes on until it is over, whatever the tasks do. -/
  progress : 0 < cfg.maxConcurrent → s.call.finished = false → ∃ e, s.step cfg e ≠ s
  /-- No completion is in progress, and none is started afterwards. -/
  quiet : s.call.finished = true → Child.completing ∉ s.children ∧
    ∀ more, (Lib.run (State.step cfg) s more).children = s.children

/-- What a call of chunks one after the other leaves behind. -/
structure Ordered.Settled (cfg : Config) (o : Ordered) : Prop where
  texts : o.phase = .returned → o.texts.length = cfg.spans.length ∧ Filled cfg o.texts o.results
  aborted : o.phase = .raised → ∀ id ∈ o.abandoned, id ∈ o.aborted
  /-- A call that is not over goes on, without its cancellation. -/
  progress : o.phase.finished = false → ∃ e, e ≠ .cancel ∧ (o.step e).phase ≠ o.phase
  quiet : o.phase.finished = true → ∀ more, Lib.run Ordered.step o more = o

theorem State.settled (cfg : Config) (es : List Event) : (State.runs cfg es).Settled cfg := by
  have h := State.runs_inv cfg es
  have hnow := h.now
  unfold State.Now at hnow
  constructor
  · intro texts hcall
    rw [hcall] at hnow
    have hlength : texts.length = cfg.spans.length := by
      rw [← h.length, hnow, List.length_map]
    refine ⟨hnow, hlength, ?_⟩
    intro i hsilent
    have hlt : i < texts.length := hlength ▸ (List.getElem?_eq_some_iff.mp hsilent).1
    have hat : (State.runs cfg es).children[i]? = some (.returned (texts.get ⟨i, hlt⟩)) := by
      rw [hnow, List.getElem?_map, List.getElem?_eq_getElem hlt]
      rfl
    obtain hq | hq | hq := h.silent i _ hat hsilent
    · cases hq
    · rw [List.getElem?_eq_getElem hlt]
      exact congrArg some (Child.returned.inj hq)
    · cases hq
  · have hcount : (State.runs cfg es).children.count .completing ≤ (State.runs cfg es).children.countP Child.holds := by
      apply List.countP_mono_left
      intro c _ hc
      rw [eq_of_beq hc]
      rfl
    have hpermits := h.permits
    omega
  · exact State.exists_step h (State.runs_queued cfg es)
  · intro hf
    constructor
    · intro hin
      exact nomatch h.allEnded hf _ hin
    · exact State.run_finished h hf

theorem Ordered.settled (cfg : Config) (es : List OrderedEvent) : (Ordered.runs cfg es).Settled cfg := by
  have h := Ordered.runs_inv cfg es
  have hnow := h.now
  constructor
  · intro hphase
    rw [hphase] at hnow
    refine ⟨?_, h.filled⟩
    have hrest := h.rest
    rw [show (Ordered.runs cfg es).rest = [] from hnow] at hrest
    exact Nat.le_antisymm h.filled.le (List.drop_eq_nil_iff.mp hrest.symm)
  · intro hphase
    rw [hphase] at hnow
    exact hnow
  · exact Ordered.exists_step
  · intro hf more
    exact run_invariant (I := fun t => t = Ordered.runs cfg es) rfl
      (fun t e ht => ht ▸ Ordered.step_finished hf e) more

/-- **Chunked transcription leaves nothing running**, when its cancellation does not come while the handler of a failed
chunk is at work. In every run a call that returns has one text per span, empty for a silent one; there are never more
completions in progress than the limit; and none is started after the call is over. A call that raises has aborted every
request whose completion was started and had not ended: always, when the chunks run one after the other, and in a run
whose cancellation leaves the handler alone, when they run at once. -/
theorem leaves_nothing_running (cfg : Config) :
    (∀ es, (Ordered.runs cfg es).Settled cfg) ∧
    (∀ es, (State.runs cfg es).Settled cfg) ∧
    ∀ es, Along (State.step cfg) State.Undisturbed (State.create cfg) es →
      (State.runs cfg es).call = .raised →
        ∀ (i : Nat) (c : Child), (State.runs cfg es).children[i]? = some c → c.owing = true →
          i ∈ (State.runs cfg es).aborted := by
  constructor
  · exact Ordered.settled cfg
  constructor
  · exact State.settled cfg
  · intro es rule hcall
    have hcleaned := State.runs_cleaned cfg es rule
    unfold State.Cleaned at hcleaned
    rw [hcall] at hcleaned
    exact hcleaned

def threeChunks : Config where
  spans := [true, true, true]
  maxConcurrent := 3
  idLe a b := a ≤ b

/-- One chunk fails while the other two are in the engine. -/
def oneFails : List Event :=
  [.run 0, .run 1, .run 2, .encoded 0, .encoded 1, .encoded 2, .fails 0, .wake]

/-- The handler aborts both. -/
theorem leaves_nothing_running_oneFails :
    let s := State.runs threeChunks (oneFails ++ [.thrown 1, .thrown 2, .gathered, .abortReturns, .abortReturns])
    s.call = .raised ∧ s.children = [.failed, .abandoned, .abandoned] ∧ 1 ∈ s.aborted ∧ 2 ∈ s.aborted := by
  intro s
  have hcall : s.call = .raised := by decide
  have haborted := (leaves_nothing_running threeChunks).2.2 _ (by simp [oneFails, Along, State.Undisturbed]) hcall
  exact ⟨hcall, by decide, haborted 1 .abandoned (by decide) rfl, haborted 2 .abandoned (by decide) rfl⟩

/-- The client goes away while the handler waits for the tasks. -/
def leftWaiting : List Event := oneFails ++ [.cancel, .thrown 1, .thrown 2, .gathered]

/-- The client goes away while the handler waits for the first abort. -/
def leftAborting : List Event := oneFails ++ [.thrown 1, .thrown 2, .gathered, .cancel]

/-- The requests that are left when the handler is interrupted are never aborted. -/
theorem cleanup_interrupted :
    ((State.runs threeChunks leftWaiting).call = .raised ∧
      (State.runs threeChunks leftWaiting).children = [.failed, .abandoned, .abandoned] ∧
      (State.runs threeChunks leftWaiting).aborted = []) ∧
    ((State.runs threeChunks leftAborting).call = .raised ∧
      (State.runs threeChunks leftAborting).children = [.failed, .abandoned, .abandoned] ∧
      (State.runs threeChunks leftAborting).aborted = [1]) := by
  decide

end SglangOmni.Serve.ChunkedTranscription
