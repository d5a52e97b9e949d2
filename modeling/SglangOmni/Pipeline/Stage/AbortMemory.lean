import SglangOmni.Comm.KvReceive
import SglangOmni.Pipeline.Stage.Model

/-! How long an abort is remembered.

A stage and its comm engine remember aborted requests in a set that is cut down to 5000
when it has outgrown 10000. What the cut removes is the front of the set's iteration order,
so it may remove the id that has just been recorded. An id outlasts 4999 more in every order
exactly when the set holds at most 5001 with it (`remembered_iff`). -/
namespace SglangOmni.Comm.KvReceive
open Lib

/-! ### Who writes the engine's set -/

/-- The set is left alone, records one id, or is emptied. -/
def Remembers (s s' : State) : Prop :=
  s'.abortedKvRequests = s.abortedKvRequests ∨
    (∃ requestId hint, s'.abortedKvRequests = record 10000 5000 hint s.abortedKvRequests requestId) ∨
    s'.abortedKvRequests = []

theorem cleanupOne_remembers (requestId : String) (s : State) (e : String × Nat) :
    (cleanupOne requestId s e).abortedKvRequests = s.abortedKvRequests := by
  unfold cleanupOne
  split
  · rfl
  · split_ifs <;> rfl

/-- `cleanup` records its request. -/
theorem cleanup_remembers (s : State) (requestId : String) (hint : List String) :
    (cleanup s requestId hint).abortedKvRequests =
      record 10000 5000 hint s.abortedKvRequests requestId := by
  have hfold : ∀ (entries : List (String × Nat)) (t : State),
      (entries.foldl (cleanupOne requestId) t).abortedKvRequests = t.abortedKvRequests := by
    intro entries
    induction entries with
    | nil => exact fun _ => rfl
    | cons e rest ih =>
      intro t
      rw [List.foldl_cons, ih, cleanupOne_remembers]
  rw [cleanup, hfold]
  rfl

theorem readRaises_remembers (s : State) (c : Nat) (read : Read) (cancelled : Bool) (hint : List String) :
    Remembers s (readRaises s c read cancelled hint) := by
  unfold readRaises
  simp only
  split
  · exact .inr (.inl ⟨read.requestId, hint, cleanup_remembers ..⟩)
  · exact .inl rfl

theorem readFails_remembers (s : State) (c n : Nat) (read : Read) (cancelled : Bool) (hint : List String) :
    Remembers s (readFails s c n read cancelled hint) := by
  unfold readFails
  split
  · exact .inl rfl
  · exact readRaises_remembers ..

theorem readStarts_remembers (s : State) (c : Nat) (read : Read) (valid : Bool) (hint : List String) :
    Remembers s (readStarts s c read valid hint) := by
  unfold readStarts
  split
  · exact .inl rfl
  · split
    · exact readRaises_remembers ..
    · split
      · exact readRaises_remembers ..
      · split <;> exact .inl rfl

theorem readCompletes_remembers (s : State) (c n : Nat) (read : Read) (hint : List String) :
    Remembers s (readCompletes s c n read hint) := by
  unfold readCompletes
  split
  · exact .inl rfl
  · split
    · exact readFails_remembers ..
    · exact .inl rfl

theorem prepare_remembers (s : State) (requestId transferId : String) (outcome : Outcome) :
    Remembers s (prepareKvReceive s requestId transferId outcome) := by
  unfold prepareKvReceive
  split_ifs
  · exact .inl rfl
  · exact .inl rfl
  · cases outcome with
    | rejected => exact .inl rfl
    | reserveFails => exact .inl rfl
    | checkFails => exact .inl rfl
    | accepted => exact .inl rfl

theorem step_remembers (s : State) (e : Event) : Remembers s (step s e) := by
  have onRead : ∀ (c : Nat) (act : Read → State), (∀ read, Remembers s (act read)) →
      Remembers s (onRead s c act) := by
    intro c act hact
    unfold KvReceive.onRead
    split
    · exact .inl rfl
    · exact hact _
  cases e with
  | prepare requestId transferId outcome =>
    simp only [step]
    split
    · exact prepare_remembers ..
    · exact .inl rfl
  | dataReady requestId transferId rank =>
    simp only [step]
    split <;> exact .inl rfl
  | readStarts c valid hint =>
    apply onRead
    intro read
    split
    · exact readStarts_remembers ..
    · exact .inl rfl
  | readResumes c hint =>
    apply onRead
    intro read
    split
    · exact .inl rfl
    · exact readCompletes_remembers ..
    · exact .inl rfl
    · exact .inl rfl
  | readRaises c cancelled hint =>
    apply onRead
    intro read
    split
    · split <;> exact .inl rfl
    · exact readFails_remembers ..
    · exact readFails_remembers ..
    · exact .inl rfl
  | cleanup requestId hint => exact .inr (.inl ⟨requestId, hint, cleanup_remembers ..⟩)
  | close =>
    simp only [step]
    split <;> exact .inl rfl
  | closeFinishes =>
    simp only [step]
    split
    · exact .inr (.inr rfl)
    · exact .inl rfl

theorem remembered_nodup (history : List Event) :
    (run step State.create history).abortedKvRequests.Nodup := by
  apply run_invariant (I := fun s : State => s.abortedKvRequests.Nodup) List.nodup_nil
  intro s e h
  rcases step_remembers s e with heq | ⟨requestId, hint, heq⟩ | heq
  · rw [heq]
    exact h
  · rw [heq]
    exact nodup_record h ..
  · rw [heq]
    exact List.nodup_nil

/-- Cleanups of more requests, each with its hint. -/
def cleanups (s : State) (more : List (List String × String)) : State :=
  more.foldl (fun s e => cleanup s e.2 e.1) s

theorem cleanups_remember (s : State) (more : List (List String × String)) :
    (cleanups s more).abortedKvRequests = recordAll 10000 5000 s.abortedKvRequests more := by
  induction more generalizing s with
  | nil => rfl
  | cons e rest ih =>
    show (cleanups (cleanup s e.2 e.1) rest).abortedKvRequests = _
    rw [ih, cleanup_remembers]
    rfl

end SglangOmni.Comm.KvReceive

namespace SglangOmni.Pipeline.Stage
open Lib

/-! ### How long an id stays -/

/-- `_record_bounded_request_id`; `hint` for the iteration order of the set. -/
def recordBoundedRequestId (ids : List String) (requestId : String) (hint : List String) : List String :=
  record 10000 5000 hint ids requestId

/-- Ids recorded one after the other. -/
def recordBoundedRequestIds (ids : List String) (more : List (List String × String)) : List String :=
  more.foldl (fun ids e => recordBoundedRequestId ids e.2 e.1) ids

/-- `r` is in the set when it has been recorded, and stays until 5000 further distinct ids
have been, whatever the iteration orders. -/
def Remembered (after : List String → List (List String × String) → List String) (r : String) : Prop :=
  ∀ hint more, (otherIds r more).card < 5000 → r ∈ after hint more

/-- **An abort is remembered for 5000 more exactly when the set has room for them.** This
holds of the stage's set after any ids recorded in it, and of the engine's set in any of
its runs. -/
theorem remembered_iff (ids : List (List String × String)) (history : List Comm.KvReceive.Event)
    (r : String) :
    let aborted := recordBoundedRequestIds [] ids
    let engine := run Comm.KvReceive.step Comm.KvReceive.State.create history
    (Remembered (fun hint more => recordBoundedRequestIds (recordBoundedRequestId aborted r hint) more) r ↔
        (addId aborted r).length ≤ 5001) ∧
      (Remembered
          (fun hint more =>
            (Comm.KvReceive.cleanups (Comm.KvReceive.cleanup engine r hint) more).abortedKvRequests) r ↔
        (addId engine.abortedKvRequests r).length ≤ 5001) := by
  intro aborted engine
  have exact : ∀ ids : List String, ids.Nodup →
      (Remembered (fun hint more => recordAll 10000 5000 (record 10000 5000 hint ids r) more) r ↔
        (addId ids r).length ≤ 5001) := by
    intro ids h
    have hroom : (∀ hint more, (otherIds r more).card ≤ 4999 →
        r ∈ recordAll 10000 5000 (record 10000 5000 hint ids r) more) ↔ (addId ids r).length + 4999 ≤ 10000 :=
      outlives_iff (by omega) h r
    constructor
    · intro hr
      have hfits := hroom.mp fun hint more hfew => hr hint more (by omega)
      omega
    · intro hlength hint more hfew
      exact hroom.mpr (by omega) hint more (by omega)
  constructor
  · exact exact aborted (nodup_recordAll List.nodup_nil ids)
  · have heq : ∀ hint more,
        (Comm.KvReceive.cleanups (Comm.KvReceive.cleanup engine r hint) more).abortedKvRequests =
          recordAll 10000 5000 (record 10000 5000 hint engine.abortedKvRequests r) more := by
      intro hint more
      rw [Comm.KvReceive.cleanups_remember, Comm.KvReceive.cleanup_remembers]
    simp only [heq]
    exact exact engine.abortedKvRequests (Comm.KvReceive.remembered_nodup history)

/-! ### A full set -/

theorem recordBoundedRequestIds_fresh {ids : List String} (h : ids.Nodup) (hfits : ids.length ≤ 10000) :
    recordBoundedRequestIds [] (ids.map fun x => ([], x)) = ids := by
  have hall : recordAll 10000 5000 [] (ids.map fun x => ([], x)) = [] ++ ids :=
    recordAll_fresh (by simpa using h) (by simpa using hfits)
  exact hall.trans (List.nil_append ids)

/-- Ten thousand ids. -/
def manyIds : List String := (List.range 10000).map fun i => String.ofList (List.replicate i 'a')

theorem manyIds_nodup : manyIds.Nodup := by
  apply List.Nodup.map _ List.nodup_range
  intro i j hij
  have hlength := congrArg (fun x => x.toList.length) hij
  simpa using hlength

/-- The id that is recorded next is removed by its own record. -/
theorem forgotten_at_once :
    "b" ∉ recordBoundedRequestId (recordBoundedRequestIds [] (manyIds.map fun x => ([], x))) "b" ["b"] := by
  have hlength : manyIds.length = 10000 := by rw [manyIds, List.length_map, List.length_range]
  have hfull : recordBoundedRequestIds [] (manyIds.map fun x => ([], x)) = manyIds :=
    recordBoundedRequestIds_fresh manyIds_nodup (by omega)
  have hnew : "b" ∉ manyIds := by
    intro hmem
    obtain ⟨i, _, hi⟩ := List.mem_map.mp hmem
    have hlist := congrArg String.toList hi
    cases i with
    | zero => simp at hlist
    | succ i => simp [List.replicate_succ] at hlist
  rw [hfull]
  intro hmem
  apply ((mem_record manyIds_nodup).mp hmem).2
  apply mem_dropped_of_hint manyIds_nodup (.inl rfl) _ (by omega)
  rw [addId, if_neg hnew, List.length_append, hlength]
  simp

end SglangOmni.Pipeline.Stage
