import SglangOmni.Lib.History
import Mathlib.Data.Finset.Card

/-! The prefill events of the scheduler.

Two sets say for which requests the start and the end of the prefill were told. The scheduler thread adds to them and
removes from them, and another thread may abort a request at any time; each statement on the sets is one step, and the
steps of the two threads come in any order. What ends a request removes it from the first set and then from the second,
except for the aborted branch of `stream_output`, which leaves it in the second. -/
namespace SglangOmni.Scheduling.PrefillEvents
open Lib

variable {K : Type} [DecidableEq K]

/-! ### The statements -/

inductive Statement (K : Type) where
  /-- `if rid in self._prefill_start_done: continue`. -/
  | testStart (rid : K)
  | addStart (rid : K)
  /-- `if len(self._prefill_end_done) == len(self._prefill_start_done): return`. -/
  | compare (rids : List K)
  /-- `if rid in self._prefill_end_done or rid not in self._prefill_start_done: continue`. -/
  | testEnd (rid : K)
  /-- The event of the request is emitted as well. -/
  | addEnd (rid : K)
  /-- `if request_id not in self._prefill_start_done: return`. -/
  | testPath (rid : K)
  | discardStart (rid : K)
  | discardEnd (rid : K)
  deriving DecidableEq

/-- What becomes of a finished request in `stream_output`. -/
inductive Branch where
  | aborted
  /-- `_omni_terminal_claimed`. -/
  | claimed
  /-- There is no request data: a stale alias is dropped. -/
  | stale
  | finished
  deriving DecidableEq

/-- `_emit_model_path_end_once`. -/
def emitModelPathEndOnce (rid : K) : List (Statement K) := [.testPath rid]

/-- What `abort` does to the sets. -/
def abort (rid : K) : List (Statement K) := emitModelPathEndOnce rid ++ [.discardStart rid, .discardEnd rid]

/-- `_close_completed_request`. -/
def closeCompletedRequest (rid : K) : List (Statement K) := [.discardStart rid, .discardEnd rid]

/-- One request in the loop of `stream_output`. -/
def streamOutput (rid : K) : Branch → List (Statement K)
  | .aborted => emitModelPathEndOnce rid
  | .claimed => []
  | .stale => closeCompletedRequest rid
  | .finished => emitModelPathEndOnce rid ++ closeCompletedRequest rid

/-- What the scheduler thread does. -/
inductive Operation (K : Type) where
  | emitPrefillStartForBatch (rids : List K)
  | emitPrefillEndForBatch (rids : List K)
  | streamOutput (reqs : List (K × Branch))
  | handleBatchFailure (rids : List K)
  | abort (rid : K)
  deriving DecidableEq

def Operation.statements : Operation K → List (Statement K)
  | .emitPrefillStartForBatch rids => rids.map .testStart
  | .emitPrefillEndForBatch rids => [.compare rids]
  | .streamOutput reqs => reqs.flatMap fun req => PrefillEvents.streamOutput req.1 req.2
  | .handleBatchFailure rids => rids.flatMap fun rid => emitModelPathEndOnce rid ++ PrefillEvents.abort rid
  | .abort rid => PrefillEvents.abort rid

/-! ### The two threads -/

inductive Thread where
  | scheduler
  /-- The listener of the stage. -/
  | listener
  deriving DecidableEq

structure State (K : Type) where
  startDone : Finset K := ∅
  endDone : Finset K := ∅
  /-- The prefill-end events, newest first. -/
  emitted : List K := []
  /-- What the threads are still to do. -/
  scheduler : List (Statement K) := []
  listener : List (Statement K) := []

/-- One statement, and what it goes on with. -/
def exec (s : State K) : Statement K → State K × List (Statement K)
  | .testStart rid => (s, if rid ∈ s.startDone then [] else [.addStart rid])
  | .addStart rid => ({ s with startDone := insert rid s.startDone }, [])
  | .compare rids => (s, if s.endDone.card = s.startDone.card then [] else rids.map .testEnd)
  | .testEnd rid => (s, if rid ∈ s.endDone ∨ rid ∉ s.startDone then [] else [.addEnd rid])
  | .addEnd rid => ({ s with endDone := insert rid s.endDone, emitted := rid :: s.emitted }, [])
  | .testPath rid => (s, if rid ∉ s.startDone then [] else [.discardStart rid])
  | .discardStart rid => ({ s with startDone := s.startDone.erase rid }, [])
  | .discardEnd rid => ({ s with endDone := s.endDone.erase rid }, [])

inductive Event (K : Type) where
  /-- The scheduler thread begins an operation. -/
  | call (op : Operation K)
  /-- `abort` is called from the other thread. -/
  | abort (rid : K)
  /-- A thread takes its next statement. -/
  | run (thread : Thread)
  deriving DecidableEq

def step (s : State K) : Event K → State K
  | .call op => if s.scheduler = [] then { s with scheduler := op.statements } else s
  | .abort rid => if s.listener = [] then { s with listener := PrefillEvents.abort rid } else s
  | .run .scheduler =>
    match s.scheduler with
    | [] => s
    | statement :: rest =>
      let next := exec s statement
      { next.1 with scheduler := next.2 ++ rest }
  | .run .listener =>
    match s.listener with
    | [] => s
    | statement :: rest =>
      let next := exec s statement
      { next.1 with listener := next.2 ++ rest }

/-! ### What is said of the sets -/

/-- A thread has still to remove the request from the second set. -/
def Removing (s : State K) (rid : K) : Prop := .discardEnd rid ∈ s.scheduler ++ s.listener

/-- A request whose prefill has ended has started, unless its removal is under way. -/
def Nested (s : State K) : Prop := ∀ rid ∈ s.endDone, rid ∈ s.startDone ∨ Removing s rid

/-- The statement leaves no request in the second set alone, when the others are still to come. -/
def Safe (s : State K) (others : List (Statement K)) : Statement K → Prop
  | .discardStart rid => rid ∈ s.endDone → .discardEnd rid ∈ others
  | .addEnd rid => rid ∈ s.startDone ∨ .discardEnd rid ∈ others
  | _ => True

/-- The scheduler thread leaves no request in the second set alone: neither where the aborted branch removes it from the
first, nor where an abort came between the test of a request and its addition. -/
def KeepsNested (s : State K) : Event K → Prop
  | .run .scheduler => ∀ statement rest, s.scheduler = statement :: rest → Safe s (rest ++ s.listener) statement
  | _ => True

/-- No abort of the other thread is between its two removals. -/
def Calm (s : State K) : Prop := ∀ rid, .discardEnd rid ∈ s.listener → rid ∈ s.endDone → rid ∈ s.startDone

/-! ### The programs of the threads -/

/-- What is left of an abort. -/
def Removes (rid : K) (statements : List (Statement K)) : Prop :=
  ∃ before, statements = before ++ [.discardEnd rid] ∧ ∀ x ∈ before, x = .testPath rid ∨ x = .discardStart rid

/-- What every state has, whatever is aborted. -/
structure Sound (s : State K) : Prop where
  listener : s.listener = [] ∨ ∃ rid, Removes rid s.listener
  compare : ∀ rids, .compare rids ∈ s.scheduler → s.scheduler = [.compare rids]
  emitted : ∀ rid ∈ s.endDone, rid ∈ s.emitted

variable {s : State K} {rest : List (Statement K)} {statement : Statement K}

omit [DecidableEq K] in
theorem removes_abort (rid : K) : Removes rid (abort rid) :=
  ⟨[.testPath rid, .discardStart rid], rfl, fun x hx => by simpa using hx⟩

/-- What is left after the next statement. -/
theorem Removes.next {rid : K} (h : Removes rid (statement :: rest)) :
    ((exec s statement).2 ++ rest = [] ∨ Removes rid ((exec s statement).2 ++ rest)) ∧ Safe s rest statement := by
  obtain ⟨before, heq, hbefore⟩ := h
  cases before with
  | nil =>
    obtain ⟨rfl, rfl⟩ := List.cons.inj heq
    exact ⟨.inl rfl, trivial⟩
  | cons x before =>
    obtain ⟨rfl, rfl⟩ := List.cons.inj heq
    have hrest := fun y hy => hbefore y (List.mem_cons_of_mem _ hy)
    rcases hbefore _ List.mem_cons_self with rfl | rfl
    · refine ⟨.inr ?_, trivial⟩
      by_cases hin : rid ∉ s.startDone
      · exact ⟨before, by rw [exec, if_pos hin]; rfl, hrest⟩
      · refine ⟨.discardStart rid :: before, by rw [exec, if_neg hin]; rfl, fun y hy => ?_⟩
        rcases List.mem_cons.mp hy with rfl | hy
        · exact .inr rfl
        · exact hrest y hy
    · exact ⟨.inr ⟨before, rfl, hrest⟩, fun _ => List.mem_append_right _ List.mem_cons_self⟩

theorem exec_listener (s : State K) (statement : Statement K) : (exec s statement).1.listener = s.listener := by
  cases statement <;> rfl

theorem exec_scheduler (s : State K) (statement : Statement K) : (exec s statement).1.scheduler = s.scheduler := by
  cases statement <;> rfl

theorem exec_no_compare (statement : Statement K) (rids : List K) : .compare rids ∉ (exec s statement).2 := by
  cases statement with
  | compare others | testStart | testEnd | testPath =>
    rw [exec]
    split <;> simp
  | addStart | addEnd | discardStart | discardEnd => exact List.not_mem_nil

theorem emitted_exec (h : ∀ rid ∈ s.endDone, rid ∈ s.emitted) (statement : Statement K) :
    ∀ rid ∈ (exec s statement).1.endDone, rid ∈ (exec s statement).1.emitted := by
  cases statement with
  | addEnd other =>
    intro rid hrid
    rcases Finset.mem_insert.mp hrid with rfl | hrid
    · exact List.mem_cons_self
    · exact List.mem_cons_of_mem _ (h rid hrid)
  | discardEnd other => exact fun rid hrid => h rid (Finset.mem_of_mem_erase hrid)
  | testStart | addStart | compare | testEnd | testPath | discardStart => exact h

omit [DecidableEq K] in
/-- A program of the scheduler compares the sizes at its beginning, or not at all. -/
theorem statements_compare (op : Operation K) (rids : List K) (h : .compare rids ∈ op.statements) :
    op.statements = [.compare rids] := by
  have hbranch : ∀ (rid : K) (branch : Branch), .compare rids ∉ PrefillEvents.streamOutput rid branch := by
    intro rid branch
    cases branch <;> simp [PrefillEvents.streamOutput, emitModelPathEndOnce, closeCompletedRequest]
  have habort : ∀ rid : K, .compare rids ∉ PrefillEvents.abort rid := by
    intro rid
    simp [PrefillEvents.abort, emitModelPathEndOnce]
  cases op with
  | emitPrefillStartForBatch others => simp [Operation.statements] at h
  | emitPrefillEndForBatch others => rw [Operation.statements, List.mem_singleton.mp h]
  | streamOutput reqs =>
    obtain ⟨req, _, hreq⟩ := List.mem_flatMap.mp h
    exact absurd hreq (hbranch _ _)
  | handleBatchFailure others =>
    obtain ⟨rid, _, hrid⟩ := List.mem_flatMap.mp h
    rcases List.mem_append.mp hrid with hrid | hrid
    · simp [emitModelPathEndOnce] at hrid
    · exact absurd hrid (habort rid)
  | abort rid => exact absurd h (habort rid)

theorem sound_step (h : Sound s) (e : Event K) : Sound (step s e) := by
  cases e with
  | call op =>
    rw [step]
    split
    · exact { h with compare := statements_compare op }
    · exact h
  | abort rid =>
    rw [step]
    split
    · exact { h with listener := .inr ⟨rid, removes_abort rid⟩ }
    · exact h
  | run thread =>
    cases thread with
    | scheduler =>
      cases hprog : s.scheduler with
      | nil => simpa only [step, hprog] using h
      | cons statement rest =>
        simp only [step, hprog]
        refine ⟨exec_listener s statement ▸ h.listener, fun rids hrids => ?_, emitted_exec h.emitted statement⟩
        rcases List.mem_append.mp hrids with hnext | hrest
        · exact absurd hnext (exec_no_compare statement rids)
        · have halone := h.compare rids (hprog ▸ List.mem_cons_of_mem _ hrest)
          rw [hprog] at halone
          rw [(List.cons.inj halone).2] at hrest
          exact absurd hrest List.not_mem_nil
    | listener =>
      cases hprog : s.listener with
      | nil => simpa only [step, hprog] using h
      | cons statement rest =>
        simp only [step, hprog]
        refine ⟨?_, exec_scheduler s statement ▸ h.compare, emitted_exec h.emitted statement⟩
        obtain ⟨rid, hremoves⟩ := h.listener.resolve_left (by rw [hprog]; exact List.cons_ne_nil _ _)
        rw [hprog] at hremoves
        exact hremoves.next.1.imp_right fun hnext => ⟨rid, hnext⟩

/-! ### The sets stay nested -/

omit [DecidableEq K] in
theorem Safe.mono {others more : List (Statement K)} (h : Safe s others statement)
    (hsub : ∀ x ∈ others, x ∈ more) : Safe s more statement := by
  cases statement with
  | discardStart rid => exact fun hin => hsub _ (h hin)
  | addEnd rid => exact h.imp_right (hsub _)
  | testStart | addStart | compare | testEnd | testPath | discardEnd => trivial

/-- **One statement.** -/
theorem nested_exec {others : List (Statement K)}
    (h : ∀ rid ∈ s.endDone, rid ∈ s.startDone ∨ .discardEnd rid ∈ statement :: others)
    (safe : Safe s others statement) :
    ∀ rid ∈ (exec s statement).1.endDone,
      rid ∈ (exec s statement).1.startDone ∨ .discardEnd rid ∈ (exec s statement).2 ++ others := by
  have hkept : (∀ rid : K, statement ≠ .discardEnd rid) → ∀ rid ∈ s.endDone,
      rid ∈ s.startDone ∨ .discardEnd rid ∈ (exec s statement).2 ++ others := by
    intro hne rid hrid
    refine (h rid hrid).imp_right fun hmem => ?_
    exact List.mem_append_right _ ((List.mem_cons.mp hmem).resolve_left (Ne.symm (hne rid)))
  cases statement with
  | testStart other | compare rids | testEnd other | testPath other => exact hkept fun _ h => nomatch h
  | addStart other => exact fun rid hrid => (hkept (fun _ h => nomatch h) rid hrid).imp_left Finset.mem_insert_of_mem
  | addEnd other =>
    intro rid hrid
    rcases Finset.mem_insert.mp hrid with rfl | hrid
    · exact safe
    · exact hkept (fun _ h => nomatch h) rid hrid
  | discardStart other =>
    intro rid hrid
    by_cases heq : rid = other
    · subst heq
      exact .inr (safe hrid)
    · exact (hkept (fun _ h => nomatch h) rid hrid).imp_left fun hin => Finset.mem_erase.mpr ⟨heq, hin⟩
  | discardEnd other =>
    intro rid hrid
    obtain ⟨hne, hin⟩ := Finset.mem_erase.mp hrid
    refine (h rid hin).imp_right fun hmem => (List.mem_cons.mp hmem).resolve_left fun heq => hne ?_
    exact Statement.discardEnd.inj heq

theorem nested_step (sound : Sound s) (h : Nested s) {e : Event K} (keeps : KeepsNested s e) : Nested (step s e) := by
  cases e with
  | call op =>
    rw [step]
    split
    · next hidle =>
      intro rid hrid
      refine (h rid hrid).imp_right fun hmem => ?_
      rw [Removing, hidle] at hmem
      exact List.mem_append_right _ hmem
    · exact h
  | abort rid =>
    rw [step]
    split
    · next hidle =>
      intro other hother
      refine (h other hother).imp_right fun hmem => ?_
      rw [Removing, hidle, List.append_nil] at hmem
      exact List.mem_append_left _ hmem
    · exact h
  | run thread =>
    cases thread with
    | scheduler =>
      cases hprog : s.scheduler with
      | nil => simpa only [step, hprog] using h
      | cons statement rest =>
        have hall : ∀ rid ∈ s.endDone, rid ∈ s.startDone ∨ .discardEnd rid ∈ statement :: (rest ++ s.listener) := by
          intro rid hrid
          have hmem := h rid hrid
          rwa [Removing, hprog] at hmem
        intro rid hrid
        simp only [step, hprog] at hrid ⊢
        have hnext := nested_exec hall (keeps statement rest hprog) rid hrid
        rw [Removing, exec_listener, List.append_assoc]
        exact hnext
    | listener =>
      cases hprog : s.listener with
      | nil => simpa only [step, hprog] using h
      | cons statement rest =>
        obtain ⟨own, hremoves⟩ := sound.listener.resolve_left (by rw [hprog]; exact List.cons_ne_nil _ _)
        rw [hprog] at hremoves
        have hall : ∀ rid ∈ s.endDone, rid ∈ s.startDone ∨ .discardEnd rid ∈ statement :: (rest ++ s.scheduler) := by
          intro rid hrid
          refine (h rid hrid).imp_right fun hmem => ?_
          rw [Removing, hprog] at hmem
          simp only [List.mem_append, List.mem_cons] at hmem ⊢
          tauto
        have hsafe : Safe s (rest ++ s.scheduler) statement :=
          hremoves.next.2.mono fun x hx => List.mem_append_left _ hx
        intro rid hrid
        simp only [step, hprog] at hrid ⊢
        refine (nested_exec hall hsafe rid hrid).imp_right fun hmem => ?_
        rw [Removing, exec_scheduler]
        simp only [List.mem_append] at hmem ⊢
        tauto

/-- A step against the rule leaves a request in the second set alone. -/
theorem keepsNested_of_nested {e : Event K} (h : Nested (step s e)) : KeepsNested s e := by
  cases e with
  | call op => trivial
  | abort rid => trivial
  | run thread =>
    cases thread with
    | listener => trivial
    | scheduler =>
      intro statement rest hprog
      simp only [step, hprog] at h
      cases statement with
      | discardStart rid =>
        intro hin
        exact (h rid hin).resolve_left fun hstart => (Finset.mem_erase.mp hstart).1 rfl
      | addEnd rid => exact h rid (Finset.mem_insert_self _ _)
      | testStart | addStart | compare | testEnd | testPath | discardEnd => trivial

omit [DecidableEq K] in
theorem sound_start : Sound ({} : State K) where
  listener := .inl rfl
  compare := fun _ h => absurd h List.not_mem_nil
  emitted := fun _ h => absurd h (Finset.notMem_empty _)

theorem nested_run (events : List (Event K)) (keeps : Along step KeepsNested {} events) :
    Sound (run step {} events) ∧ Nested (run step {} events) := by
  have hstart : Nested ({} : State K) := fun _ h => absurd h (Finset.notMem_empty _)
  exact along_invariant (I := fun s : State K => Sound s ∧ Nested s) ⟨sound_start, hstart⟩
    (fun _ e h hkeeps => ⟨sound_step h.1 e, nested_step h.1 h.2 hkeeps⟩) events keeps

theorem along_of_nested (events : List (Event K))
    (h : ∀ before rest, events = before ++ rest → Nested (run step s before)) :
    Along step KeepsNested s events := by
  induction events generalizing s with
  | nil => trivial
  | cons e rest ih =>
    refine ⟨keepsNested_of_nested (h [e] rest rfl), ih fun before rest' hsplit => ?_⟩
    exact h (e :: before) rest' (by rw [hsplit]; rfl)

/-! ### The shortcut -/

omit [DecidableEq K] in
/-- While the sizes are compared and no abort is between its two removals, the second set lies in the first. -/
theorem Nested.subset (h : Nested s) (sound : Sound s) {rids : List K}
    (hprog : s.scheduler = .compare rids :: rest) (calm : Calm s) : s.endDone ⊆ s.startDone := by
  intro rid hrid
  have halone : s.scheduler = [.compare rids] := sound.compare rids (by rw [hprog]; exact List.mem_cons_self)
  rcases h rid hrid with hstart | hremoving
  · exact hstart
  · rw [Removing, halone] at hremoving
    have hlistener := (List.mem_cons.mp hremoving).resolve_left fun heq => nomatch heq
    exact calm rid hlistener hrid

omit [DecidableEq K] in
/-- Sets of one size, the second within the first: every request that started has its event. -/
theorem Nested.shortcut (h : Nested s) (sound : Sound s) {rids : List K}
    (hprog : s.scheduler = .compare rids :: rest) (calm : Calm s) (hcard : s.endDone.card = s.startDone.card) :
    ∀ rid ∈ s.startDone, rid ∈ s.endDone ∧ rid ∈ s.emitted := by
  have heq : s.endDone = s.startDone := Finset.eq_of_subset_of_card_le (h.subset sound hprog calm) hcard.ge
  intro rid hrid
  rw [← heq] at hrid
  exact ⟨hrid, sound.emitted rid hrid⟩

/-- **Main theorem.** Over any interleaving, the set of the ended prefills stays within that of the started ones, up to
the removals under way, if and only if the scheduler thread keeps the rule. The early return is then right wherever no
abort of the other thread is between its two removals. -/
theorem prefill_sets_nested_iff (events : List (Event K)) :
    ((∀ before rest, events = before ++ rest → Nested (run step {} before)) ↔ Along step KeepsNested {} events) ∧
      (Along step KeepsNested {} events → ∀ before rest rids program, events = before ++ .run .scheduler :: rest →
        (run step {} before).scheduler = .compare rids :: program → Calm (run step {} before) →
        (run step {} before).endDone.card = (run step {} before).startDone.card →
        ∀ rid ∈ (run step {} before).startDone, rid ∈ (run step {} before).endDone ∧
          rid ∈ (run step {} before).emitted) := by
  refine ⟨⟨along_of_nested events, fun keeps before rest hsplit => ?_⟩, fun keeps before rest rids program hsplit => ?_⟩
  · subst hsplit
    exact (nested_run before (along_left before keeps)).2
  · subst hsplit
    obtain ⟨hsound, hnested⟩ := nested_run before (along_left before keeps)
    exact fun hprog calm hcard => hnested.shortcut hsound hprog calm hcard

/-! ### An abort before the launch -/

/-- An operation of the scheduler thread, run to its end. -/
def whole (op : Operation K) (statements : Nat) : List (Event K) :=
  .call op :: List.replicate statements (.run .scheduler)

/-- The request 1 is aborted after its batch was chosen and before it was launched. -/
def abortBeforeLaunch : List (Event Nat) :=
  [.abort 1, .run .listener, .run .listener, .run .listener] ++ whole (.emitPrefillStartForBatch [1]) 2 ++
    whole (.emitPrefillEndForBatch [1]) 3 ++ whole (.streamOutput [(1, .aborted)]) 2

/-- The next request is prefilled. -/
def lost : State Nat :=
  run step {} (abortBeforeLaunch ++ whole (.emitPrefillStartForBatch [2]) 2 ++ whole (.emitPrefillEndForBatch [2]) 1)

/-- The request 1 stays in the second set alone while both threads are idle; the sizes are then equal when the prefill
of the request 2 ends, and its event is never emitted. -/
theorem prefill_end_lost :
    (run step {} abortBeforeLaunch).endDone = {1} ∧ (run step {} abortBeforeLaunch).startDone = ∅ ∧
      (run step {} abortBeforeLaunch).scheduler = [] ∧ (run step {} abortBeforeLaunch).listener = [] ∧
      lost.scheduler = [] ∧ 2 ∈ lost.startDone ∧ 2 ∉ lost.endDone ∧ 2 ∉ lost.emitted := by
  decide

end SglangOmni.Scheduling.PrefillEvents
