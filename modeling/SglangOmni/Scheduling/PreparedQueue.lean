import Mathlib.Data.Finset.Basic
import SglangOmni.Lib.Dict
import SglangOmni.Lib.History

/-! The handoff from preprocessing to the scheduler.

The tables of `PreparedRequestQueue` are keyed by the id of the request alone. An incarnation is one `begin` of an id:
it runs until its `publish` or its `fail_inflight`, and an id may be begun again before that. What a queue hands over is
then the work of an incarnation or of another with the same id, so the histories here number the incarnations, and every
prepared payload carries the incarnation that made it. -/
namespace SglangOmni.Scheduling.PreparedQueue
open Lib

/-- The registry. Payloads are never `None`. -/
structure PreparedRequestQueue (Ctx Prep : Type) where
  context : Option Ctx := none
  prepared : Dict String Prep := ∅
  inflight : Finset String := ∅
  aborted : Finset String := ∅

namespace PreparedRequestQueue
variable {Ctx Prep : Type}

def setContext (_ : PreparedRequestQueue Ctx Prep) (context : Ctx) : PreparedRequestQueue Ctx Prep :=
  { context := some context }

def clearContext (_ : PreparedRequestQueue Ctx Prep) : PreparedRequestQueue Ctx Prep := {}

def begin (q : PreparedRequestQueue Ctx Prep) (requestId : String) : PreparedRequestQueue Ctx Prep × Option Ctx :=
  match q.context with
  | none => (q, none)
  | some context => ({ q with inflight := insert requestId q.inflight }, some context)

def failInflight (q : PreparedRequestQueue Ctx Prep) (requestId : String) : PreparedRequestQueue Ctx Prep :=
  { q with inflight := q.inflight.erase requestId, aborted := q.aborted.erase requestId }

def publish (q : PreparedRequestQueue Ctx Prep) (requestId : String) (prepared : Prep) :
    PreparedRequestQueue Ctx Prep × Bool :=
  let dropped := q.failInflight requestId
  if requestId ∈ q.inflight ∧ requestId ∉ q.aborted then
    ({ dropped with prepared := q.prepared.set requestId prepared }, true)
  else (dropped, false)

def abort (q : PreparedRequestQueue Ctx Prep) (requestId : String) : PreparedRequestQueue Ctx Prep :=
  match q.prepared.get? requestId with
  | some _ => { q with prepared := q.prepared.pop requestId }
  | none => if requestId ∈ q.inflight then { q with aborted := insert requestId q.aborted } else q

def pop (q : PreparedRequestQueue Ctx Prep) (requestId : String) : PreparedRequestQueue Ctx Prep × Option Prep :=
  ({ q with prepared := q.prepared.pop requestId }, q.prepared.get? requestId)

end PreparedRequestQueue

/-! ### Incarnations -/

/-- One `begin` of an id. -/
structure Incarnation where
  number : Nat
  requestId : String
  deriving DecidableEq

inductive Op (V : Type) where
  | begin (requestId : String)
  | publish (i : Incarnation) (value : V)
  | failInflight (i : Incarnation)
  | abort (requestId : String)
  | pop (requestId : String)

/-- The queue, with the incarnations that began, those that run and those that were aborted. -/
structure State (Ctx V : Type) where
  queue : PreparedRequestQueue Ctx (Incarnation × V)
  started : Nat := 0
  running : List Incarnation := []
  aborted : List Incarnation := []

section
variable {Ctx V : Type} {s : State Ctx V}

/-- The incarnations an abort is for: those of the id that run, and the one whose payload waits to be popped. -/
def State.abortedBy (s : State Ctx V) (requestId : String) : List Incarnation :=
  s.running.filter (·.requestId = requestId) ++ ((s.queue.prepared.get? requestId).map Prod.fst).toList

/-- An incarnation publishes or fails once. Without a context there is nothing to run. -/
def step (s : State Ctx V) : Op V → State Ctx V
  | .begin requestId =>
    match s.queue.begin requestId with
    | (_, none) => s
    | (queue, some _) =>
      { s with queue, started := s.started + 1, running := s.running ++ [⟨s.started, requestId⟩] }
  | .publish i value =>
    if i ∈ s.running then
      { s with queue := (s.queue.publish i.requestId (i, value)).1, running := s.running.filter (· ≠ i) }
    else s
  | .failInflight i =>
    if i ∈ s.running then
      { s with queue := s.queue.failInflight i.requestId, running := s.running.filter (· ≠ i) }
    else s
  | .abort requestId =>
    { s with queue := s.queue.abort requestId, aborted := s.aborted ++ s.abortedBy requestId }
  | .pop requestId => { s with queue := (s.queue.pop requestId).1 }

/-- A queue that was given a context, or none. -/
def State.initial : Option Ctx → State Ctx V
  | none => { queue := PreparedRequestQueue.clearContext {} }
  | some context => { queue := PreparedRequestQueue.setContext {} context }

/-- What `pop` returns was not published by an incarnation that was aborted. -/
def PopsUnaborted (s : State Ctx V) : Prop :=
  ∀ requestId i value, (s.queue.pop requestId).2 = some (i, value) → i ∉ s.aborted

/-- What an incarnation publishes is stored, and popped by the next `pop`, unless the incarnation was aborted. -/
def StoresUnaborted (s : State Ctx V) : Prop :=
  ∀ i ∈ s.running, i ∉ s.aborted → ∀ value,
    (s.queue.publish i.requestId (i, value)).2 = true ∧
      ((s.queue.publish i.requestId (i, value)).1.pop i.requestId).2 = some (i, value)

/-- Marks stand for running incarnations only. -/
structure Marked (s : State Ctx V) : Prop where
  aborted_subset : s.queue.aborted ⊆ s.queue.inflight
  running : ∀ requestId ∈ s.queue.inflight, ∃ i ∈ s.running, i.requestId = requestId

/-- The handoff respects incarnations. -/
structure Respects (s : State Ctx V) : Prop where
  pops : PopsUnaborted s
  stores : StoresUnaborted s
  aborted_subset : s.queue.aborted ⊆ s.queue.inflight
  clean : ∀ requestId, (∀ i ∈ s.running, i.requestId ≠ requestId) →
    requestId ∉ s.queue.inflight ∧ requestId ∉ s.queue.aborted

/-- The rule for an operation: an id is begun only when none of its incarnations runs, and it is not aborted while one
of its incarnations runs and the payload of another waits. -/
def Apart (s : State Ctx V) : Op V → Prop
  | .begin requestId => ∀ i ∈ s.running, i.requestId ≠ requestId
  | .abort requestId => s.queue.prepared.get? requestId = none ∨ ∀ i ∈ s.running, i.requestId ≠ requestId
  | _ => True

/-! ### The marks -/

theorem failInflight_marked {q : PreparedRequestQueue Ctx (Incarnation × V)} {running : List Incarnation}
    {i : Incarnation} (hsub : q.aborted ⊆ q.inflight)
    (hrunning : ∀ requestId ∈ q.inflight, ∃ j ∈ running, j.requestId = requestId) :
    (q.failInflight i.requestId).aborted ⊆ (q.failInflight i.requestId).inflight ∧
      ∀ requestId ∈ (q.failInflight i.requestId).inflight, ∃ j ∈ running.filter (· ≠ i), j.requestId = requestId := by
  constructor
  · exact Finset.erase_subset_erase _ hsub
  · intro requestId hin
    obtain ⟨hne, hin⟩ := Finset.mem_erase.mp hin
    obtain ⟨j, hj, hid⟩ := hrunning requestId hin
    have hji : j ≠ i := fun h => hne (hid ▸ h ▸ rfl)
    exact ⟨j, List.mem_filter.mpr ⟨hj, decide_eq_true hji⟩, hid⟩

/-- A publish takes the marks of its id away as a failure does. -/
theorem publish_marks (q : PreparedRequestQueue Ctx (Incarnation × V)) (requestId : String) (p : Incarnation × V) :
    (q.publish requestId p).1.inflight = (q.failInflight requestId).inflight ∧
      (q.publish requestId p).1.aborted = (q.failInflight requestId).aborted := by
  unfold PreparedRequestQueue.publish
  split <;> exact ⟨rfl, rfl⟩

theorem marked_step (h : Marked s) (op : Op V) : Marked (step s op) := by
  obtain ⟨hsub, hrunning⟩ := h
  cases op with
  | begin requestId =>
    cases hcontext : s.queue.context with
    | none => simpa [step, PreparedRequestQueue.begin, hcontext] using ⟨hsub, hrunning⟩
    | some context =>
      simp only [step, PreparedRequestQueue.begin, hcontext]
      constructor
      · exact hsub.trans (Finset.subset_insert _ _)
      · intro id hin
        cases Finset.mem_insert.mp hin with
        | inl hin => exact ⟨⟨s.started, requestId⟩, by simp, hin.symm⟩
        | inr hin =>
          obtain ⟨i, hi, hid⟩ := hrunning id hin
          exact ⟨i, List.mem_append_left _ hi, hid⟩
  | publish i value =>
    simp only [step]
    split
    · obtain ⟨hinflight, haborted⟩ := publish_marks s.queue i.requestId (i, value)
      obtain ⟨hsub, hrunning⟩ := failInflight_marked (i := i) hsub hrunning
      constructor
      · show (s.queue.publish i.requestId (i, value)).1.aborted ⊆ _
        rw [hinflight, haborted]
        exact hsub
      · show ∀ requestId ∈ (s.queue.publish i.requestId (i, value)).1.inflight, _
        rw [hinflight]
        exact hrunning
    · exact ⟨hsub, hrunning⟩
  | failInflight i =>
    simp only [step]
    split
    · obtain ⟨hsub, hrunning⟩ := failInflight_marked (i := i) hsub hrunning
      exact ⟨hsub, hrunning⟩
    · exact ⟨hsub, hrunning⟩
  | abort requestId =>
    simp only [step, PreparedRequestQueue.abort]
    split
    · exact ⟨hsub, hrunning⟩
    · split
      · next hin => exact ⟨Finset.insert_subset hin hsub, hrunning⟩
      · exact ⟨hsub, hrunning⟩
  | pop requestId => exact ⟨hsub, hrunning⟩

theorem marked_initial (context : Option Ctx) : Marked (State.initial context : State Ctx V) := by
  cases context <;> exact ⟨Finset.Subset.refl ∅, fun _ h => absurd h (Finset.notMem_empty _)⟩

/-- In every run the marks stand for running incarnations only. -/
theorem marked_run (context : Option Ctx) (ops : List (Op V)) : Marked (run step (State.initial context) ops) :=
  run_invariant (marked_initial context) (fun _ op h => marked_step h op) ops

/-! ### Runs that keep incarnations apart -/

/-- Each mark and each payload is that of one incarnation. -/
structure Owned (s : State Ctx V) : Prop where
  numbered : ∀ i ∈ s.running, i.number < s.started
  numbered_aborted : ∀ i ∈ s.aborted, i.number < s.started
  single : ∀ i ∈ s.running, ∀ j ∈ s.running, i.requestId = j.requestId → i = j
  inflight : ∀ i ∈ s.running, i.requestId ∈ s.queue.inflight
  tombstone : ∀ i ∈ s.running, i ∈ s.aborted ↔ i.requestId ∈ s.queue.aborted
  stored : ∀ requestId i value, s.queue.prepared.get? requestId = some (i, value) →
    i.requestId = requestId ∧ i ∉ s.aborted ∧ i ∉ s.running ∧ i.number < s.started

/-- The incarnations that go on when one of them ends. -/
theorem Owned.others (h : Owned s) {i j : Incarnation} (hi : i ∈ s.running)
    (hj : j ∈ s.running.filter (· ≠ i)) : j ∈ s.running ∧ j.requestId ≠ i.requestId := by
  obtain ⟨hj, hne⟩ := List.mem_filter.mp hj
  exact ⟨hj, fun hid => of_decide_eq_true hne (h.single j hj i hi hid)⟩

theorem owned_begin (h : Owned s) (hm : Marked s) {requestId : String}
    (hapart : ∀ i ∈ s.running, i.requestId ≠ requestId) : Owned (step s (.begin requestId)) := by
  cases hcontext : s.queue.context with
  | none => simpa only [step, PreparedRequestQueue.begin, hcontext] using h
  | some context =>
    simp only [step, PreparedRequestQueue.begin, hcontext]
    have hfresh : requestId ∉ s.queue.aborted := by
      intro haborted
      obtain ⟨i, hi, hid⟩ := hm.running requestId (hm.aborted_subset haborted)
      exact hapart i hi hid
    constructor
    · intro i hi
      cases List.mem_append.mp hi with
      | inl hi => exact Nat.lt_succ_of_lt (h.numbered i hi)
      | inr hi =>
        rw [List.mem_singleton.mp hi]
        exact Nat.lt_succ_self _
    · exact fun i hi => Nat.lt_succ_of_lt (h.numbered_aborted i hi)
    · intro i hi j hj hid
      simp only [List.mem_append, List.mem_singleton] at hi hj
      obtain hi | rfl := hi
      · obtain hj | rfl := hj
        · exact h.single i hi j hj hid
        · exact absurd hid (hapart i hi)
      · obtain hj | rfl := hj
        · exact absurd hid.symm (hapart j hj)
        · rfl
    · intro i hi
      cases List.mem_append.mp hi with
      | inl hi => exact Finset.mem_insert_of_mem (h.inflight i hi)
      | inr hi =>
        rw [List.mem_singleton.mp hi]
        exact Finset.mem_insert_self _ _
    · intro i hi
      cases List.mem_append.mp hi with
      | inl hi => exact h.tombstone i hi
      | inr hi =>
        rw [List.mem_singleton.mp hi]
        exact iff_of_false (fun haborted => Nat.lt_irrefl _ (h.numbered_aborted _ haborted)) hfresh
    · intro id i value hget
      obtain ⟨hid, haborted, hrunning, hlt⟩ := h.stored id i value hget
      constructor
      · exact hid
      constructor
      · exact haborted
      constructor
      · intro hi
        cases List.mem_append.mp hi with
        | inl hi => exact hrunning hi
        | inr hi =>
          rw [List.mem_singleton.mp hi] at hlt
          exact Nat.lt_irrefl _ hlt
      · exact Nat.lt_succ_of_lt hlt

/-- An incarnation ends: its marks go, and it may leave a payload. -/
theorem owned_end (h : Owned s) {i : Incarnation} (hi : i ∈ s.running)
    {queue : PreparedRequestQueue Ctx (Incarnation × V)}
    (hinflight : queue.inflight = s.queue.inflight.erase i.requestId)
    (haborted : queue.aborted = s.queue.aborted.erase i.requestId)
    (hstored : ∀ requestId j value, queue.prepared.get? requestId = some (j, value) →
      s.queue.prepared.get? requestId = some (j, value) ∨ (j = i ∧ requestId = i.requestId ∧ i ∉ s.aborted)) :
    Owned { s with queue, running := s.running.filter (· ≠ i) } := by
  constructor
  · exact fun j hj => h.numbered j (h.others hi hj).1
  · exact h.numbered_aborted
  · exact fun j hj k hk => h.single j (h.others hi hj).1 k (h.others hi hk).1
  · intro j hj
    obtain ⟨hj, hne⟩ := h.others hi hj
    rw [hinflight]
    exact Finset.mem_erase.mpr ⟨hne, h.inflight j hj⟩
  · intro j hj
    obtain ⟨hj, hne⟩ := h.others hi hj
    rw [haborted, Finset.mem_erase]
    show j ∈ s.aborted ↔ _
    rw [h.tombstone j hj]
    exact (and_iff_right hne).symm
  · intro requestId j value hget
    cases hstored requestId j value hget with
    | inl hget =>
      obtain ⟨hid, haborted, hrunning, hlt⟩ := h.stored requestId j value hget
      exact ⟨hid, haborted, fun hj => hrunning (List.mem_of_mem_filter hj), hlt⟩
    | inr hnew =>
      obtain ⟨rfl, rfl, hfree⟩ := hnew
      exact ⟨rfl, hfree, fun hj => (h.others hi hj).2 rfl, h.numbered _ hi⟩

theorem owned_publish (h : Owned s) (i : Incarnation) (value : V) :
    Owned (step s (.publish i value)) := by
  simp only [step]
  split
  · next hi =>
    obtain ⟨hinflight, haborted⟩ := publish_marks s.queue i.requestId (i, value)
    apply owned_end h hi hinflight haborted
    intro requestId j w hget
    unfold PreparedRequestQueue.publish at hget
    split at hget
    · next hcond =>
      simp only [Dict.get?_set] at hget
      split at hget
      · next hid =>
        cases hget
        exact .inr ⟨rfl, hid, fun hin => hcond.2 ((h.tombstone i hi).mp hin)⟩
      · exact .inl hget
    · exact .inl hget
  · exact h

theorem owned_failInflight (h : Owned s) (i : Incarnation) : Owned (step s (.failInflight i)) := by
  simp only [step]
  split
  · next hi => exact owned_end h hi rfl rfl (fun _ _ _ hget => .inl hget)
  · exact h

/-- An abort is for the payload that waits or for the incarnation that runs, not for both. -/
theorem owned_abort (h : Owned s) {requestId : String}
    (hapart : s.queue.prepared.get? requestId = none ∨ ∀ i ∈ s.running, i.requestId ≠ requestId) :
    Owned (step s (.abort requestId)) := by
  cases hget : s.queue.prepared.get? requestId with
  | some p =>
    obtain ⟨i, value⟩ := p
    have hnone : ∀ j ∈ s.running, j.requestId ≠ requestId := by
      cases hapart with
      | inl hempty => rw [hget] at hempty; cases hempty
      | inr hapart => exact hapart
    obtain ⟨hid, _, hrunning, hlt⟩ := h.stored requestId i value hget
    have hfor : s.abortedBy requestId = [i] := by
      have hfilter : s.running.filter (·.requestId = requestId) = [] :=
        List.filter_eq_nil_iff.mpr fun j hj => by simpa using hnone j hj
      simp [State.abortedBy, hget, hfilter]
    simp only [step, PreparedRequestQueue.abort, hget, hfor]
    have hother : ∀ j, j ≠ i → (j ∈ s.aborted ++ [i] ↔ j ∈ s.aborted) := fun j hj => by simp [hj]
    constructor
    · exact h.numbered
    · intro j hj
      cases List.mem_append.mp hj with
      | inl hj => exact h.numbered_aborted j hj
      | inr hj => exact List.mem_singleton.mp hj ▸ hlt
    · exact h.single
    · exact h.inflight
    · intro j hj
      have hji : j ≠ i := fun hji => hrunning (hji ▸ hj)
      exact (hother j hji).trans (h.tombstone j hj)
    · intro id j w hget'
      simp only [Dict.get?_pop] at hget'
      split at hget'
      · cases hget'
      · next hne =>
        obtain ⟨hj, haborted, hfree, hltj⟩ := h.stored id j w hget'
        have hji : j ≠ i := fun hji => hne (hj.symm.trans (hji ▸ hid))
        exact ⟨hj, fun hin => haborted ((hother j hji).mp hin), hfree, hltj⟩
  | none =>
    have hfor : s.abortedBy requestId = s.running.filter (·.requestId = requestId) := by
      simp [State.abortedBy, hget]
    have hmem : ∀ j, j ∈ s.aborted ++ s.running.filter (·.requestId = requestId) ↔
        j ∈ s.aborted ∨ (j ∈ s.running ∧ j.requestId = requestId) := by simp
    have hnumbered : ∀ j ∈ s.aborted ++ s.running.filter (·.requestId = requestId), j.number < s.started := by
      intro j hj
      cases (hmem j).mp hj with
      | inl hj => exact h.numbered_aborted j hj
      | inr hj => exact h.numbered j hj.1
    have hstored : ∀ id j w, s.queue.prepared.get? id = some (j, w) → j.requestId = id ∧
        j ∉ s.aborted ++ s.running.filter (·.requestId = requestId) ∧ j ∉ s.running ∧ j.number < s.started := by
      intro id j w hget'
      obtain ⟨hj, haborted, hfree, hltj⟩ := h.stored id j w hget'
      have hout : ¬ (j ∈ s.aborted ∨ (j ∈ s.running ∧ j.requestId = requestId)) :=
        not_or.mpr ⟨haborted, fun hin => hfree hin.1⟩
      exact ⟨hj, fun hin => hout ((hmem j).mp hin), hfree, hltj⟩
    simp only [step, PreparedRequestQueue.abort, hget, hfor]
    split
    · exact {
        numbered := h.numbered
        numbered_aborted := hnumbered
        single := h.single
        inflight := h.inflight
        tombstone := by
          intro j hj
          show j ∈ s.aborted ++ _ ↔ j.requestId ∈ insert requestId s.queue.aborted
          rw [hmem, Finset.mem_insert, h.tombstone j hj, and_iff_right hj]
          exact or_comm
        stored := hstored
      }
    · next hout =>
      exact {
        numbered := h.numbered
        numbered_aborted := hnumbered
        single := h.single
        inflight := h.inflight
        tombstone := by
          intro j hj
          show j ∈ s.aborted ++ _ ↔ j.requestId ∈ s.queue.aborted
          have hid : j.requestId ≠ requestId := fun hid => hout (hid ▸ h.inflight j hj)
          rw [hmem, h.tombstone j hj]
          exact or_iff_left fun hin => hid hin.2
        stored := hstored
      }

theorem owned_pop (h : Owned s) (requestId : String) : Owned (step s (.pop requestId)) where
  numbered := h.numbered
  numbered_aborted := h.numbered_aborted
  single := h.single
  inflight := h.inflight
  tombstone := h.tombstone
  stored id i value hget := by
    simp only [step, PreparedRequestQueue.pop, Dict.get?_pop] at hget
    split at hget
    · cases hget
    · exact h.stored id i value hget

theorem owned_step (hm : Marked s) (h : Owned s) {op : Op V} (rule : Apart s op) :
    Owned (step s op) := by
  cases op with
  | begin requestId => exact owned_begin h hm rule
  | publish i value => exact owned_publish h i value
  | failInflight i => exact owned_failInflight h i
  | abort requestId => exact owned_abort h rule
  | pop requestId => exact owned_pop h requestId

theorem owned_initial (context : Option Ctx) : Owned (State.initial context : State Ctx V) := by
  cases context <;> exact {
    numbered := fun _ hi => nomatch hi
    numbered_aborted := fun _ hi => nomatch hi
    single := fun _ hi => nomatch hi
    inflight := fun _ hi => nomatch hi
    tombstone := fun _ hi => nomatch hi
    stored := fun _ _ _ hget => nomatch hget
  }

theorem respects_of_owned (hm : Marked s) (h : Owned s) : Respects s where
  pops requestId i value hpop := (h.stored requestId i value hpop).2.1
  stores i hi hfree value := by
    have hcond : i.requestId ∈ s.queue.inflight ∧ i.requestId ∉ s.queue.aborted :=
      ⟨h.inflight i hi, fun hin => hfree ((h.tombstone i hi).mpr hin)⟩
    simp only [PreparedRequestQueue.publish, if_pos hcond]
    exact ⟨trivial, Dict.get?_set_self _ _ _⟩
  aborted_subset := hm.aborted_subset
  clean requestId hnone := by
    have hout : requestId ∉ s.queue.inflight := by
      intro hin
      obtain ⟨i, hi, hid⟩ := hm.running requestId hin
      exact hnone i hi hid
    exact ⟨hout, fun hin => hout (hm.aborted_subset hin)⟩

/-- **The handoff respects incarnations that are kept apart.** In every run the marks stand for running incarnations
only. In a run in which no id is begun while one of its incarnations runs, nor aborted while one runs and the payload
of another waits, no aborted incarnation's payload is popped and every other incarnation that publishes is stored. -/
theorem respects_incarnations (context : Option Ctx) (ops : List (Op V)) :
    Marked (run step (State.initial context) ops) ∧
    (Along step Apart (State.initial context) ops → Respects (run step (State.initial context) ops)) := by
  constructor
  · exact marked_run context ops
  · intro rule
    have howned : Marked (run step (State.initial context) ops) ∧ Owned (run step (State.initial context) ops) :=
      along_invariant (I := fun s => Marked s ∧ Owned s) ⟨marked_initial context, owned_initial context⟩
        (fun _ op h rule => ⟨marked_step h.1 op, owned_step h.1 h.2 rule⟩) ops rule
    exact respects_of_owned howned.1 howned.2

end

/-- An aborted incarnation ends before the next one under its id begins. -/
def begunAfter : List (Op Nat) := [.begin "a", .abort "a", .publish ⟨0, "a"⟩ 7, .begin "a", .publish ⟨1, "a"⟩ 8]

theorem respects_incarnations_begunAfter :
    Respects (run step (State.initial (some ())) begunAfter) ∧
      (run step (State.initial (some ())) begunAfter).queue.prepared.get? "a" = some (⟨1, "a"⟩, 8) :=
  ⟨(respects_incarnations (some ()) begunAfter).2 (by simp [begunAfter, Along, Apart]; decide), by decide⟩

/-- An id is begun, aborted and begun again before the first incarnation ends. -/
def begunAgain : List (Op Nat) := [.begin "a", .abort "a", .begin "a"]

/-- The second incarnation fails, and the first publishes for a third. -/
def publishedLate : List (Op Nat) :=
  begunAgain ++ [.failInflight ⟨1, "a"⟩, .begin "a", .publish ⟨0, "a"⟩ 7]

/-- The publish of an incarnation that was not aborted is dropped, and the payload of one that was is popped. -/
theorem incarnations_confused :
    ¬ (∀ ops : List (Op Nat), StoresUnaborted (run step (State.initial (some ())) ops)) ∧
    ¬ (∀ ops : List (Op Nat), PopsUnaborted (run step (State.initial (some ())) ops)) := by
  constructor
  · intro h
    have hstored := h begunAgain ⟨1, "a"⟩ (by decide) (by decide) 7
    exact absurd hstored.1 (by decide)
  · intro h
    have hpopped := h publishedLate "a" ⟨0, "a"⟩ 7 (by decide)
    exact hpopped (by decide)

end SglangOmni.Scheduling.PreparedQueue
