import SglangOmni.Comm.StreamChunk
import Mathlib.Algebra.Order.BigOperators.Group.List
import Mathlib.Algebra.Order.Group.Nat

/-! When a stream chunk gets by with the credits of its relay.

The operations of a chunk are a prefix of its puts that were made (`Standing`), and every credit
is free, on its way to a writer or held by an operation (`Valid`). So a writer that waits has
fewer operations than the chunk has puts, and a chunk that has the relay to itself goes
through its puts until one raises or the credits are gone (`writeFrom_alone`). -/
namespace SglangOmni.Comm.StreamChunk
open Lib
open StageIo (Tensor Value)

variable {τ σ : Type} {credits : Nat} {w : Writer} {s : State}

/-! ### Where a writer stands -/

/-- The puts of a chunk against what its writer has done. -/
def Standing (puts : List Outcome) (pendingOps : Nat) : Phase → Prop
  | .waiting rest => rest ≠ [] ∧ puts = List.replicate pendingOps .made ++ rest
  | .raised => ∃ o rest, o ≠ .made ∧ puts = List.replicate pendingOps .made ++ o :: rest
  | .returned => puts = List.replicate pendingOps .made

theorem replicate_made_cons (n : Nat) (rest : List Outcome) :
    List.replicate n Outcome.made ++ .made :: rest = List.replicate (n + 1) .made ++ rest := by
  rw [List.replicate_succ', List.append_assoc]
  rfl

theorem writeFrom_standing (task : Nat) (rest : List Outcome) (pendingOps : Nat) (sem : Semaphore) :
    Standing (List.replicate pendingOps .made ++ rest) (writeFrom task rest pendingOps sem).pendingOps
      (writeFrom task rest pendingOps sem).phase := by
  induction rest generalizing pendingOps sem with
  | nil => exact List.append_nil _
  | cons o rest ih =>
    cases o with
    | notViewable => exact ⟨.notViewable, rest, by decide, rfl⟩
    | notCreated =>
      rcases ha : sem.acquire task with ⟨after, _ | _⟩
      · simp only [writeFrom, ha]
        exact ⟨List.cons_ne_nil _ _, rfl⟩
      · simp only [writeFrom, ha]
        exact ⟨.notCreated, rest, by decide, rfl⟩
    | made =>
      rcases ha : sem.acquire task with ⟨after, _ | _⟩
      · simp only [writeFrom, ha]
        exact ⟨List.cons_ne_nil _ _, rfl⟩
      · simp only [writeFrom, ha]
        rw [replicate_made_cons]
        exact ih (pendingOps + 1) after

theorem continueFrom_standing (task : Nat) {rest : List Outcome} (pendingOps : Nat) (sem : Semaphore)
    (h : rest ≠ []) :
    Standing (List.replicate pendingOps .made ++ rest) (continueFrom task rest pendingOps sem).pendingOps
      (continueFrom task rest pendingOps sem).phase := by
  match rest with
  | [] => exact absurd rfl h
  | .made :: rest =>
    rw [replicate_made_cons]
    exact writeFrom_standing task rest (pendingOps + 1) sem
  | .notViewable :: rest => exact ⟨.notViewable, rest, by decide, rfl⟩
  | .notCreated :: rest => exact ⟨.notCreated, rest, by decide, rfl⟩

structure Writer.Sound (w : Writer) : Prop where
  standing : Standing w.puts w.pendingOps w.phase
  completed_le : w.completed ≤ w.pendingOps
  /-- Nobody waits for an operation of a chunk that is not written. -/
  unpublished : w.phase ≠ .returned → w.completed = 0

/-! ### The relay -/

structure Valid (credits : Nat) (s : State) : Prop where
  sound : ∀ w ∈ s.writers, w.Sound
  conserved : s.sem.permits + (s.writers.map Writer.held).sum = credits

theorem sum_held_set {writers : List Writer} {task : Nat} (w' : Writer) (h : writers[task]? = some w) :
    ((writers.set task w').map Writer.held).sum + w.held = (writers.map Writer.held).sum + w'.held := by
  induction writers generalizing task with
  | nil => cases h
  | cons v rest ih =>
    cases task with
    | zero =>
      cases h
      simp only [List.set_cons_zero, List.map_cons, List.sum_cons]
      omega
    | succ task =>
      have := ih (by simpa using h)
      simp only [List.set_cons_succ, List.map_cons, List.sum_cons]
      omega

theorem Valid.create (credits : Nat) : Valid credits (State.create credits) where
  sound := by exact fun _ h => (nomatch h)
  conserved := by rfl

theorem Valid.write (h : Valid credits s) (puts : List Outcome) :
    Valid credits (write s puts) where
  sound := by
    intro w hw
    obtain hw | hw := List.mem_append.mp hw
    · exact h.sound w hw
    · rw [List.mem_singleton.mp hw]
      exact ⟨by simpa using writeFrom_standing s.writers.length puts 0 s.sem, Nat.zero_le _, fun _ => rfl⟩
  conserved := by
    have hc := writeFrom_credits s.writers.length puts 0 s.sem
    have := h.conserved
    simp only [Turn.credits] at hc
    simp only [StreamChunk.write, List.map_append, List.map_singleton, List.sum_append, List.sum_singleton,
      Writer.held, Nat.sub_zero]
    omega

theorem Valid.resume (h : Valid credits s) {task : Nat} {rest : List Outcome}
    (hw : s.writers[task]? = some w) (hp : w.phase = .waiting rest) (hh : s.sem.handed task = true) :
    Valid credits (resume s task w rest) := by
  have hsound := h.sound w (List.mem_of_getElem? hw)
  have hstanding := hsound.standing
  rw [hp] at hstanding
  have hzero : w.completed = 0 := hsound.unpublished (by simp [hp])
  constructor
  · intro v hv
    obtain hv | rfl := List.mem_or_eq_of_mem_set hv
    · exact h.sound v hv
    · refine ⟨?_, ?_, fun _ => hzero⟩
      · show Standing w.puts _ _
        rw [hstanding.2]
        exact continueFrom_standing task w.pendingOps _ hstanding.1
      · show w.completed ≤ _
        rw [hzero]
        exact Nat.zero_le _
  · have hc := continueFrom_credits task rest w.pendingOps (s.sem.resume task)
    have hr := Semaphore.permits_resume hh
    have hsum := sum_held_set
      { w with
        pendingOps := (continueFrom task rest w.pendingOps (s.sem.resume task)).pendingOps
        phase := (continueFrom task rest w.pendingOps (s.sem.resume task)).phase } hw
    have := h.conserved
    simp only [Turn.credits] at hc
    simp only [Writer.held, hzero, Nat.sub_zero] at hsum this
    simp only [StreamChunk.resume, hzero]
    omega

theorem Valid.complete (h : Valid credits s) {task : Nat}
    (hw : s.writers[task]? = some w) (hp : w.phase = .returned) (hlt : w.completed < w.pendingOps) :
    Valid credits (complete s task w) := by
  have hsound := h.sound w (List.mem_of_getElem? hw)
  constructor
  · intro v hv
    obtain hv | rfl := List.mem_or_eq_of_mem_set hv
    · exact h.sound v hv
    · exact ⟨hsound.standing, hlt, fun hne => absurd hp hne⟩
  · have hsum := sum_held_set { w with completed := w.completed + 1 } hw
    have := h.conserved
    have hrelease := s.sem.permits_release
    simp only [Writer.held] at hsum this
    simp only [StreamChunk.complete]
    omega

theorem Valid.step (h : Valid credits s) (e : Event τ σ) : Valid credits (step s e) := by
  cases e with
  | write chunk outcome => exact h.write (chunk.puts outcome)
  | resume task =>
    simp only [StreamChunk.step]
    cases hw : s.writers[task]? with
    | none => exact h
    | some w =>
      cases hp : w.phase with
      | waiting rest =>
        simp only [hp]
        split
        · next hh => exact h.resume hw hp hh
        · exact h
      | raised => simpa only [hp] using h
      | returned => simpa only [hp] using h
  | complete task =>
    simp only [StreamChunk.step]
    cases hw : s.writers[task]? with
    | none => exact h
    | some w =>
      simp only
      split
      · next hc => exact h.complete hw hc.1 hc.2
      · exact h

/-- **Credits are conserved**, whatever the writers write and however their puts end. -/
theorem Valid.run (h : Valid credits s) (events : List (Event τ σ)) :
    Valid credits (run s events) := by
  induction events generalizing s with
  | nil => exact h
  | cons e rest ih => exact ih (h.step e)

theorem valid_run (credits : Nat) (events : List (Event τ σ)) :
    Valid credits (run (State.create credits) events) := (Valid.create credits).run events

/-! ### When a chunk gets by -/

/-- A chunk that has the relay to itself: it is written, or one of its puts raises, or the
credits are gone. -/
theorem writeFrom_alone (task : Nat) (rest : List Outcome) (pendingOps value : Nat) :
    let t := writeFrom task rest pendingOps (.create value)
    t.phase = .returned ∧ (∀ o ∈ rest, o = .made) ∧ rest.length ≤ value ∨
      t.phase = .raised ∧ pendingOps ≤ t.pendingOps ∨
      (∃ left, t.phase = .waiting left) ∧ t.pendingOps = pendingOps + value := by
  induction rest generalizing pendingOps value with
  | nil => exact Or.inl ⟨rfl, (fun _ h => nomatch h), Nat.zero_le _⟩
  | cons o rest ih =>
    cases o with
    | notViewable => exact Or.inr (Or.inl ⟨rfl, Nat.le_refl _⟩)
    | notCreated =>
      cases value with
      | zero => exact Or.inr (Or.inr ⟨⟨_, rfl⟩, rfl⟩)
      | succ value => exact Or.inr (Or.inl ⟨rfl, Nat.le_refl _⟩)
    | made =>
      cases value with
      | zero => exact Or.inr (Or.inr ⟨⟨_, rfl⟩, rfl⟩)
      | succ value =>
        obtain ⟨hp, hmade, hlen⟩ | ⟨hp, hle⟩ | ⟨hp, heq⟩ := ih (pendingOps + 1) value
        · refine Or.inl ⟨hp, ?_, Nat.succ_le_succ hlen⟩
          intro o ho
          obtain rfl | ho := List.mem_cons.mp ho
          · rfl
          · exact hmade o ho
        · exact Or.inr (Or.inl ⟨hp, Nat.le_of_succ_le hle⟩)
        · exact Or.inr (Or.inr ⟨hp, heq.trans (Nat.succ_add_eq_add_succ pendingOps value)⟩)

/-- With the first put made, a raise leaves an operation behind. -/
theorem writeFrom_made_alone (task value : Nat) (rest : List Outcome) (hpos : 0 < value) :
    writeFrom task (.made :: rest) 0 (.create value) = writeFrom task rest 1 (.create (value - 1)) := by
  obtain _ | value := value
  · cases hpos
  · rfl

/-- The writer does not block itself, and a raise keeps no credit. -/
structure CreditSafe (credits : Nat) (w : Writer) : Prop where
  not_self_blocked : ¬ SelfBlocked credits w
  raise_returns : w.phase = .raised → w.held = 0

theorem creditSafe_of_all_made (h : w.Sound) (hmade : ∀ o ∈ w.puts, o = .made)
    (hlen : w.puts.length ≤ credits) : CreditSafe credits w := by
  have hs := h.standing
  constructor
  · rintro ⟨⟨rest, hp⟩, hall⟩
    rw [hp] at hs
    have hlength := congrArg List.length hs.2
    have hrest := List.length_pos_of_ne_nil hs.1
    rw [List.length_append, List.length_replicate] at hlength
    simp only [Writer.held] at hall
    omega
  · intro hp
    rw [hp] at hs
    obtain ⟨o, rest, hne, heq⟩ := hs
    exact absurd (hmade o (by simp [heq])) hne

theorem creditSafe_of_first_raises (h : w.Sound) (hpos : 0 < credits)
    (hfirst : ∀ rest, w.puts ≠ .made :: rest) : CreditSafe credits w := by
  have hzero : w.phase ≠ .returned → w.pendingOps = 0 := by
    intro hne
    have hs := h.standing
    cases hn : w.pendingOps with
    | zero => rfl
    | succ n =>
      rw [hn] at hs
      cases hp : w.phase with
      | waiting rest =>
        rw [hp] at hs
        exact absurd hs.2 (hfirst _)
      | raised =>
        rw [hp] at hs
        obtain ⟨o, rest, -, heq⟩ := hs
        exact absurd heq (hfirst _)
      | returned => exact absurd hp hne
  constructor
  · rintro ⟨⟨rest, hp⟩, hall⟩
    simp only [Writer.held, hzero (by simp [hp])] at hall
    omega
  · intro hp
    simp [Writer.held, hzero (by simp [hp])]

theorem first_write (credits : Nat) (chunk : Chunk τ σ) (outcome : Nat → Outcome) :
    let t := writeFrom 0 (chunk.puts outcome) 0 (.create credits)
    (⟨chunk.puts outcome, t.pendingOps, 0, t.phase⟩ : Writer) ∈
      (run (State.create credits) [Event.write chunk outcome]).writers := List.mem_singleton.mpr rfl

theorem Chunk.puts_eq_cons (chunk : Chunk τ σ) (outcome : Nat → Outcome) :
    chunk.puts outcome = outcome 0 :: (List.range chunk.metadataTensors.length).map (outcome ∘ Nat.succ) := by
  show (List.range (chunk.metadataTensors.length + 1)).map outcome = _
  rw [List.range_succ_eq_map, List.map_cons, List.map_map]

/-- **A stream chunk gets by with the credits of its relay** in every run of the relay's writers just when its
first put raises, or none of its puts raises and there is a credit for each. -/
theorem stream_chunk_credit_safe_iff (credits : Nat) (hpos : 0 < credits) (chunk : Chunk τ σ)
    (outcome : Nat → Outcome) :
    (∀ events : List (Event τ σ), ∀ w ∈ (run (State.create credits) events).writers,
        w.puts = chunk.puts outcome → CreditSafe credits w) ↔
      outcome 0 ≠ .made ∨
        (∀ i < 1 + chunk.metadataTensors.length, outcome i = .made) ∧ 1 + chunk.metadataTensors.length ≤ credits := by
  constructor
  · intro h
    by_cases hfirst : outcome 0 = .made
    · right
      have hsafe := h [Event.write chunk outcome] _ (first_write credits chunk outcome) rfl
      rw [chunk.puts_eq_cons, hfirst, writeFrom_made_alone _ _ _ hpos] at hsafe
      obtain ⟨-, hmade, hlen⟩ | ⟨hp, hle⟩ | ⟨hp, heq⟩ := writeFrom_alone 0
        ((List.range chunk.metadataTensors.length).map (outcome ∘ Nat.succ)) 1 (credits - 1)
      · rw [List.length_map, List.length_range] at hlen
        refine ⟨fun i hi => ?_, by omega⟩
        cases i with
        | zero => exact hfirst
        | succ i => exact hmade _ (List.mem_map.mpr ⟨i, List.mem_range.mpr (by omega), rfl⟩)
      · have hheld := hsafe.raise_returns hp
        simp only [Writer.held, Nat.sub_zero] at hheld
        omega
      · refine absurd ⟨hp, ?_⟩ hsafe.not_self_blocked
        simp only [Writer.held, Nat.sub_zero, heq]
        omega
    · exact Or.inl hfirst
  · intro h events w hw hputs
    have hsound := (valid_run credits events).sound w hw
    obtain hfirst | ⟨hmade, hlen⟩ := h
    · apply creditSafe_of_first_raises hsound hpos
      intro rest heq
      rw [hputs, chunk.puts_eq_cons] at heq
      exact hfirst (List.cons.inj heq).1
    · apply creditSafe_of_all_made hsound
      · intro o ho
        rw [hputs] at ho
        obtain ⟨i, hi, rfl⟩ := List.mem_map.mp ho
        apply hmade
        have := List.mem_range.mp hi
        simp only [Chunk.tensors, List.length_cons] at this
        omega
      · rw [hputs]
        simp only [Chunk.puts, Chunk.tensors, List.length_map, List.length_range, List.length_cons]
        omega

/-- A chunk with one tensor in its metadata. -/
def speakerChunk : Chunk Unit Unit :=
  ⟨⟨[4], "torch.float32", "cpu", false, ()⟩, some [("speaker", .tensor ⟨[2], "torch.float32", "cpu", false, ()⟩)]⟩

/-- It gets by with two credits, whatever the other writers do. -/
theorem stream_chunk_credit_safe_two :
    0 < 2 ∧ ∀ events : List (Event Unit Unit), ∀ w ∈ (run (State.create 2) events).writers,
      w.puts = speakerChunk.puts (fun _ => .made) → CreditSafe 2 w :=
  ⟨by decide, (stream_chunk_credit_safe_iff 2 (by decide) speakerChunk fun _ => .made).mpr
    (Or.inr ⟨fun _ _ => rfl, by decide +kernel⟩)⟩

/-- With one credit it waits for itself; with two, a block that is not created for its speaker
keeps the credit of its data. -/
theorem stream_chunk_waits_for_itself :
    (∃ w ∈ (run (State.create 1) [Event.write speakerChunk fun _ => .made]).writers, SelfBlocked 1 w) ∧
      ∃ w ∈ (run (State.create 2)
          [Event.write speakerChunk fun i => if i = 1 then .notCreated else .made]).writers,
        w.phase = .raised ∧ w.held = 1 := by
  constructor
  · exact ⟨⟨[.made, .made], 1, 0, .waiting [.made]⟩, by decide +kernel, ⟨_, rfl⟩, rfl⟩
  · exact ⟨⟨[.made, .notCreated], 1, 0, .raised⟩, by decide +kernel, rfl, rfl⟩

end SglangOmni.Comm.StreamChunk
