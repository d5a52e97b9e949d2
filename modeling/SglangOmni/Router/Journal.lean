import Mathlib.Data.List.Sort

/-! The journal of weight updates: one small file that outlives the router.

A write or an unlink that returns is durable. One that raises is not, and it may have changed the file all the same,
because the directory is synced last; until the next one returns, a crash of the host may then leave any of the
contents since the last durable one (`Disk.possible`). What keeps a worker disabled across crashes is that all of them
name it (`Disk.Covers`). -/
namespace SglangOmni.Router

structure JournalDocument where
  /-- The admin path of the update that left the document behind. -/
  path : Option String
  workerIds : List String
  deriving DecidableEq

/-- How a write or an unlink ends; one that raises may have changed the file. -/
inductive Io where
  | done
  | failed (changed : Bool)
  deriving DecidableEq

structure Disk where
  /-- What a read sees; none if there is no file. -/
  journal : Option JournalDocument := none
  /-- What a crash of the host may leave. -/
  possible : List (Option JournalDocument) := [none]
  deriving DecidableEq

inductive JournalError where
  | unreadable
  deriving DecidableEq

/-- The journal of the endpoint, or the stand-in for a state directory that cannot be used: it reports no transaction
and refuses to begin one. -/
inductive Journal where
  | update
  | unavailable
  deriving DecidableEq

/-- `worker_ids` of the file. -/
def Disk.journaled (d : Disk) : List String :=
  match d.journal with
  | some document => document.workerIds
  | none => []

/-- The file is replaced, or unlinked; with whether the call returned. -/
def Disk.put (d : Disk) (content : Option JournalDocument) : Io → Disk × Bool
  | .done => (⟨content, [content]⟩, true)
  | .failed true => (⟨content, content :: d.possible⟩, false)
  | .failed false => (d, false)

namespace Journal

/-- `pending`. -/
def pending (journal : Journal) (d : Disk) (readable : Bool) : Except JournalError (List String) :=
  match journal with
  | .unavailable => .ok []
  | .update => if readable then .ok d.journaled else .error .unreadable

/-- `has_pending`: a journal that cannot be read may name anybody. -/
def hasPending (journal : Journal) (d : Disk) (readable : Bool) : Bool :=
  match journal.pending d readable with
  | .ok ids => !ids.isEmpty
  | .error _ => true

/-- `worker_id in journal.pending()`, and the same for one that cannot be read. -/
def names (journal : Journal) (d : Disk) (readable : Bool) (workerId : String) : Bool :=
  match journal.pending d readable with
  | .ok ids => workerId ∈ ids
  | .error _ => true

def sorted (workerIds : List String) : List String := workerIds.insertionSort (· ≤ ·)

/-- `begin`, with whether it returned. -/
def begin (journal : Journal) (d : Disk) (io : Io) (path : String) (workerIds : List String) : Disk × Bool :=
  match journal with
  | .unavailable => (d, false)
  | .update => d.put (some ⟨some path, sorted workerIds⟩) io

/-- `clear`. -/
def clear (journal : Journal) (d : Disk) (io : Io) : Disk × Bool :=
  match journal with
  | .unavailable => (d, true)
  | .update => d.put none io

/-- `keep`: the path of the document stays if it can be read. -/
def keep (journal : Journal) (d : Disk) (readable : Bool) (io : Io) (workerIds : List String) : Disk × Bool :=
  match journal with
  | .unavailable => (d, false)
  | .update =>
    if workerIds = [] then d.put none io
    else
      let path := if readable then d.journal.bind JournalDocument.path else none
      d.put (some ⟨path, sorted workerIds⟩) io

/-- `discard`: one id is taken out. The journal is read twice, for its ids and for its path. -/
def discard (journal : Journal) (d : Disk) (readable pathReadable : Bool) (io : Io) (workerId : String) : Disk × Bool :=
  match journal with
  | .unavailable => (d, true)
  | .update =>
    match journal.pending d readable with
    | .error _ => (d, false)
    | .ok ids => journal.keep d pathReadable io (ids.filter (· ≠ workerId))

end Journal

/-! ### What every crash leaves -/

/-- What a crash may leave is at least what is there, and whatever it leaves names all the ids. -/
structure Disk.Covers (d : Disk) (ids : List String) : Prop where
  visible : d.journal ∈ d.possible
  named : ∀ id ∈ ids, ∀ content ∈ d.possible, ∃ document, content = some document ∧ id ∈ document.workerIds

namespace Disk.Covers

variable {d : Disk} {ids : List String}

theorem mono (h : d.Covers ids) {fewer : List String} (sub : ∀ id ∈ fewer, id ∈ ids) : d.Covers fewer :=
  ⟨h.visible, fun id hid => h.named id (sub id hid)⟩

/-- What is covered is journaled now. -/
theorem journaled (h : d.Covers ids) {id : String} (hid : id ∈ ids) : id ∈ d.journaled := by
  obtain ⟨document, hdocument, hnamed⟩ := h.named id hid d.journal h.visible
  rw [Disk.journaled, hdocument]
  exact hnamed

/-- A journal that names nobody covers nobody. -/
theorem eq_nil (h : d.Covers ids) (empty : d.journaled = []) : ids = [] := by
  apply List.eq_nil_iff_forall_not_mem.mpr
  intro id hid
  have hnamed := h.journaled hid
  rw [empty] at hnamed
  cases hnamed

/-- A crash settles what is there. -/
theorem left (h : d.Covers ids) {content : Option JournalDocument} (hcontent : content ∈ d.possible) :
    Covers ⟨content, [content]⟩ ids := by
  refine ⟨List.mem_singleton_self content, fun id hid other hother => ?_⟩
  rw [List.mem_singleton.mp hother]
  exact h.named id hid content hcontent

/-- A put of a document that names the ids, however it ends. -/
theorem put (h : d.Covers ids) {document : JournalDocument} (named : ∀ id ∈ ids, id ∈ document.workerIds) (io : Io) :
    (d.put (some document) io).1.Covers ids := by
  have hnew : ∀ id ∈ ids, ∃ other, some document = some other ∧ id ∈ other.workerIds :=
    fun id hid => ⟨document, rfl, named id hid⟩
  cases io with
  | done =>
    refine ⟨List.mem_singleton_self _, fun id hid content hcontent => ?_⟩
    rw [List.mem_singleton.mp hcontent]
    exact hnew id hid
  | failed changed =>
    cases changed with
    | false => exact h
    | true =>
      refine ⟨List.mem_cons_self, fun id hid content hcontent => ?_⟩
      cases List.mem_cons.mp hcontent with
      | inl heq =>
        rw [heq]
        exact hnew id hid
      | inr hold => exact h.named id hid content hold

/-- Any put leaves what it left visible possible. -/
theorem put_nil (h : d.Covers []) (content : Option JournalDocument) (io : Io) : (d.put content io).1.Covers [] := by
  have hvisible : (d.put content io).1.journal ∈ (d.put content io).1.possible := by
    cases io with
    | done => exact List.mem_singleton_self _
    | failed changed =>
      cases changed with
      | false => exact h.visible
      | true => exact List.mem_cons_self
  exact ⟨hvisible, fun id hid => absurd hid List.not_mem_nil⟩

end Disk.Covers

theorem Journal.mem_sorted {ids : List String} {id : String} : id ∈ Journal.sorted ids ↔ id ∈ ids :=
  List.mem_insertionSort _

variable {io : Io} {journal : Journal}

/-- A transaction that began is recorded for good. -/
theorem Journal.begin_covers {d : Disk} {path : String} {ids : List String}
    (returned : (journal.begin d io path ids).2 = true) : (journal.begin d io path ids).1.Covers ids := by
  cases journal with
  | unavailable => cases returned
  | update =>
    cases io with
    | failed changed => cases changed <;> cases returned
    | done =>
      refine ⟨List.mem_singleton_self _, fun id hid content hcontent => ?_⟩
      rw [List.mem_singleton.mp hcontent]
      exact ⟨_, rfl, Journal.mem_sorted.mpr hid⟩

theorem Journal.begin_nil {d : Disk} (h : d.Covers []) (io : Io) (path : String) (ids : List String) :
    (journal.begin d io path ids).1.Covers [] := by
  cases journal with
  | unavailable => exact h
  | update => exact h.put_nil _ io

theorem Journal.clear_nil {d : Disk} (h : d.Covers []) (io : Io) :
    (journal.clear d io).1.Covers [] := by
  cases journal with
  | unavailable => exact h
  | update => exact h.put_nil _ io

/-- Keeping at least the ids that are covered keeps them covered, however it ends. -/
theorem Journal.keep_covers {d : Disk} {ids : List String} (h : d.Covers ids) (readable : Bool)
    (io : Io) {kept : List String} (sub : ∀ id ∈ ids, id ∈ kept) : (journal.keep d readable io kept).1.Covers ids := by
  unfold Journal.keep
  split
  · exact h
  · split
    · next hnil =>
      have hids : ids = [] := by
        apply List.eq_nil_iff_forall_not_mem.mpr
        intro id hid
        have hkept := sub id hid
        rw [hnil] at hkept
        cases hkept
      subst hids
      exact h.put_nil none io
    · exact h.put (fun id hid => Journal.mem_sorted.mpr (sub id hid)) io

/-- A discard takes out no other id, however it ends. -/
theorem Journal.discard_covers {d : Disk} {ids : List String} (h : d.Covers ids)
    (readable pathReadable : Bool) (io : Io) (workerId : String) :
    (journal.discard d readable pathReadable io workerId).1.Covers (ids.filter (· ≠ workerId)) := by
  have hother : d.Covers (ids.filter (· ≠ workerId)) := h.mono fun id hid => List.mem_of_mem_filter hid
  unfold Journal.discard
  split
  · exact hother
  · split
    · exact hother
    · next pending hpending =>
      refine Journal.keep_covers hother pathReadable io fun id hid => ?_
      obtain ⟨hmem, hne⟩ := List.mem_filter.mp hid
      have hjournaled : pending = d.journaled := by
        cases readable with
        | false => cases hpending
        | true =>
          cases hpending
          rfl
      rw [hjournaled]
      exact List.mem_filter.mpr ⟨h.journaled hmem, hne⟩

/-- A put that failed without a change has changed nothing. -/
theorem Disk.put_refused {d : Disk} {content : Option JournalDocument} (refused : (d.put content io).2 = false)
    (unchanged : io ≠ .failed true) : (d.put content io).1 = d := by
  cases io with
  | done => cases refused
  | failed changed =>
    cases changed with
    | false => rfl
    | true => exact absurd rfl unchanged

theorem Journal.keep_refused {d : Disk} {readable : Bool} {kept : List String}
    (refused : (journal.keep d readable io kept).2 = false) (unchanged : io ≠ .failed true) :
    (journal.keep d readable io kept).1 = d := by
  unfold Journal.keep at refused ⊢
  split
  · rfl
  · simp only at refused
    split
    · next hnil =>
      rw [if_pos hnil] at refused
      exact Disk.put_refused refused unchanged
    · next hnil =>
      rw [if_neg hnil] at refused
      exact Disk.put_refused refused unchanged

/-- A discard that was refused has changed nothing, unless it failed with the file changed. -/
theorem Journal.discard_refused {d : Disk} {readable pathReadable : Bool} {workerId : String}
    (refused : (journal.discard d readable pathReadable io workerId).2 = false)
    (unchanged : readable = true → io ≠ .failed true) :
    (journal.discard d readable pathReadable io workerId).1 = d := by
  cases journal with
  | unavailable => cases refused
  | update =>
    cases readable with
    | false => rfl
    | true => exact Journal.keep_refused refused (unchanged rfl)

theorem Disk.put_made {d : Disk} {content : Option JournalDocument} (made : (d.put content io).2 = true) :
    io = .done := by
  cases io with
  | done => rfl
  | failed changed => cases changed <;> cases made

/-- A discard that was made has read the journal and has written it for good. -/
theorem Journal.discard_made {d : Disk} {readable pathReadable : Bool} {workerId : String}
    (made : (Journal.update.discard d readable pathReadable io workerId).2 = true) : readable = true ∧ io = .done := by
  cases readable with
  | false => cases made
  | true =>
    have hkept : (Journal.update.keep d pathReadable io (d.journaled.filter (· ≠ workerId))).2 = true := made
    unfold Journal.keep at hkept
    simp only at hkept
    split at hkept
    · exact ⟨rfl, Disk.put_made hkept⟩
    · exact ⟨rfl, Disk.put_made hkept⟩

end SglangOmni.Router
