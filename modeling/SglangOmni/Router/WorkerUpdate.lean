import SglangOmni.Router.WeightUpdate

/-! `PUT /workers`: a rejected request changes nothing, or should not.

The handler looks at the body, then at the update lock; under the lock the worker is found, the request authenticated
and the configuration validated. Enabling a worker then takes its entry out of the journal, and only after that the
voice owner is asked for. The entry is on disk: whatever comes after it, and a failure of the write itself, comes too
late (`App.LosesEntry`). -/
namespace SglangOmni.Router

/-! ### The request -/

/-- A field of the body; its value may not be of the right type. -/
inductive BodyField (α : Type) where
  | absent
  | malformed
  | given (value : α)
  deriving DecidableEq

def BodyField.value {α : Type} : BodyField α → Option α
  | .given value => some value
  | _ => none

/-- The body of a `PUT`, when it is a JSON object. -/
structure PutBody where
  unsupported : List String := []
  isDead : BodyField Bool := .absent
  disabled : BodyField Bool := .absent
  model : BodyField (Option String) := .absent
  capabilities : BodyField (List Capability) := .absent
  deriving DecidableEq

namespace PutBody

/-- What `update_worker` refuses by the body alone. -/
def malformed (body : PutBody) : Bool :=
  body.unsupported ≠ [] || body = {} || body.isDead = .malformed || body.disabled = .malformed

/-- What `_apply_worker_update` is called with. `WorkerConfig` refuses a malformed model, or malformed capabilities, as
it refuses an empty set of capabilities; that set stands for all of them. -/
def request (body : PutBody) : WorkerUpdate where
  isDead := body.isDead.value
  disabled := body.disabled.value
  model := body.model.value
  capabilities :=
    if body.model = .malformed || body.capabilities = .malformed then some [] else body.capabilities.value

end PutBody

namespace App

/-- `update_worker`, up to the probe that may follow it; none is a body that is not a JSON object. -/
def updateWorker (mode : Mode) (app : App) (d : Disk) (url : String) (body : Option PutBody) (env : PutIo) :
    Disk × App × Response :=
  match body with
  | none => (d, app, .error 400)
  | some body =>
    if body.malformed then (d, app, .error 400)
    else if app.update.isSome then (d, app, .error 409)
    else app.applyWorkerUpdate mode d url body.request env

/-- The workers are as they were, and so is the set of journaled ids. -/
def Unchanged (app : App) (d : Disk) (after : Disk × App × Response) : Prop :=
  after.2.1.workers = app.workers ∧ ∀ id, id ∈ after.1.journaled ↔ id ∈ d.journaled

/-- The entry of a journaled worker is dropped for a request that the voice owner then refuses, or by a write that
changes the file and fails. -/
def LosesEntry (mode : Mode) (app : App) (d : Disk) (url : String) (request : WorkerUpdate) (env : PutIo) : Prop :=
  app.update = none ∧ request.disabled = some false ∧ app.journal = .update ∧ env.discardRead = true ∧
    url ∈ d.journaled ∧
    ∃ w, app.checkWorkerUpdate d url request env = .ok w ∧
      (env.io = .done ∧ app.ownerRefuses mode w request = true ∨ env.io = .failed true)

end App

/-! ### The journal -/

/-- What a put leaves, unless it failed without a change. -/
theorem Disk.journal_put {d : Disk} {content : Option JournalDocument} {io : Io} (h : io ≠ .failed false) :
    (d.put content io).1.journal = content := by
  cases io with
  | done => rfl
  | failed changed =>
    cases changed with
    | true => rfl
    | false => exact absurd rfl h

theorem Journal.mem_journaled_keep {d : Disk} {readable : Bool} {io : Io} {kept : List String} (h : io ≠ .failed false)
    (id : String) : id ∈ (Journal.update.keep d readable io kept).1.journaled ↔ id ∈ kept := by
  unfold Journal.keep
  simp only
  split
  · next hnil =>
    rw [Disk.journaled, Disk.journal_put h, hnil]
  · rw [Disk.journaled, Disk.journal_put h]
    exact Journal.mem_sorted

/-- A discard takes out the one id, and may do so although it fails. -/
theorem Journal.mem_journaled_discard {d : Disk} {pathReadable : Bool} {io : Io} {workerId : String}
    (h : io ≠ .failed false) (id : String) :
    id ∈ (Journal.update.discard d true pathReadable io workerId).1.journaled ↔ id ∈ d.journaled ∧ id ≠ workerId := by
  show id ∈ (Journal.update.keep d pathReadable io (d.journaled.filter (· ≠ workerId))).1.journaled ↔ _
  rw [Journal.mem_journaled_keep h, List.mem_filter, decide_eq_true_eq]

theorem Journal.discard_unavailable (d : Disk) (readable pathReadable : Bool) (io : Io) (workerId : String) :
    Journal.unavailable.discard d readable pathReadable io workerId = (d, true) := rfl

/-- A discard that could not read the journal, or failed without a change, has changed nothing. -/
theorem Journal.discard_same {journal : Journal} {d : Disk} {readable pathReadable : Bool} {io : Io} {workerId : String}
    (h : readable = false ∨ io = .failed false) : (journal.discard d readable pathReadable io workerId).1 = d := by
  cases journal with
  | unavailable => rfl
  | update =>
    cases h with
    | inl hread => rw [hread]; rfl
    | inr hio =>
      cases readable with
      | false => rfl
      | true =>
        rw [hio]
        show (Journal.update.keep d pathReadable (.failed false) _).1 = d
        unfold Journal.keep
        simp only
        split <;> rfl

namespace App

variable {mode : Mode} {app : App} {d : Disk} {url : String} {env : PutIo} {request : WorkerUpdate} {w : Worker}

theorem workers_ensureOwner (mode : Mode) (app : App) : (app.ensureOwner mode).2.workers = app.workers := by
  unfold ensureOwner
  split
  · rfl
  · split
    · rfl
    · split <;> rfl

theorem unchanged_of_disk {after : Disk × App × Response} (workers : after.2.1.workers = app.workers)
    (disk : after.1 = d) : app.Unchanged d after := ⟨workers, fun id => by rw [disk]⟩

/-- Nothing but the entry of the worker itself can change, and that one only by a discard. -/
theorem mem_dropEntry (hdisabled : request.disabled = some false) (hjournal : app.journal = .update)
    (hread : env.discardRead = true) (hio : env.io ≠ .failed false) (id : String) :
    id ∈ (app.dropEntry d url request env).1.journaled ↔ id ∈ d.journaled ∧ id ≠ url := by
  unfold dropEntry
  rw [if_pos hdisabled, hjournal, hread]
  exact Journal.mem_journaled_discard hio id

/-- What is journaled has changed exactly if the entry was there, could be read, and the write was not without
effect. -/
theorem dropEntry_changes_iff :
    ¬ (∀ id, id ∈ (app.dropEntry d url request env).1.journaled ↔ id ∈ d.journaled) ↔
      request.disabled = some false ∧ app.journal = .update ∧ env.discardRead = true ∧ url ∈ d.journaled ∧
        env.io ≠ .failed false := by
  constructor
  · intro h
    by_cases hdisabled : request.disabled = some false
    · cases hjournal : app.journal with
      | unavailable =>
        refine absurd (fun id => ?_) h
        rw [dropEntry, if_pos hdisabled, hjournal, Journal.discard_unavailable]
      | update =>
        by_cases hsame : env.discardRead = false ∨ env.io = .failed false
        · refine absurd (fun id => ?_) h
          rw [dropEntry, if_pos hdisabled, Journal.discard_same hsame]
        · obtain ⟨hread, hio⟩ := not_or.mp hsame
          have hread : env.discardRead = true := Bool.eq_true_of_not_eq_false hread
          refine ⟨hdisabled, rfl, hread, ?_, hio⟩
          by_contra hmem
          refine h fun id => ?_
          rw [mem_dropEntry hdisabled hjournal hread hio]
          exact and_iff_left_of_imp fun hid heq => hmem (heq ▸ hid)
    · refine absurd (fun id => ?_) h
      rw [dropEntry, if_neg hdisabled]
  · intro ⟨hdisabled, hjournal, hread, hmem, hio⟩ h
    exact ((mem_dropEntry hdisabled hjournal hread hio url).mp ((h url).mpr hmem)).2 rfl

/-- Whether the discard reports success. -/
theorem dropEntry_reported (hdisabled : request.disabled = some false) (hjournal : app.journal = .update)
    (hread : env.discardRead = true) : (app.dropEntry d url request env).2 = true ↔ env.io = .done := by
  unfold dropEntry
  rw [if_pos hdisabled, hjournal, hread]
  constructor
  · exact fun h => (Journal.discard_made h).2
  · intro hio
    rw [hio]
    show (Journal.update.keep d env.keepRead .done _).2 = true
    unfold Journal.keep
    simp only
    split <;> rfl

theorem applyWorkerUpdate_of_error {status : Nat} (h : app.checkWorkerUpdate d url request env = .error status) :
    app.applyWorkerUpdate mode d url request env = (d, app, .error status) := by
  simp only [applyWorkerUpdate, h]

/-- The update, when everything before the journal was in order. -/
theorem applyWorkerUpdate_of_ok (h : app.checkWorkerUpdate d url request env = .ok w) :
    ((app.applyWorkerUpdate mode d url request env).2.2 ≠ .ok →
        app.Unchanged d (app.applyWorkerUpdate mode d url request env)) ↔
      ((app.dropEntry d url request env).2 = false ∨ app.ownerRefuses mode w request = true →
        ∀ id, id ∈ (app.dropEntry d url request env).1.journaled ↔ id ∈ d.journaled) := by
  simp only [applyWorkerUpdate, h]
  by_cases hdropped : (app.dropEntry d url request env).2 = false
  · rw [if_pos hdropped]
    simp only [Unchanged, ne_eq, reduceCtorEq, not_false_eq_true, true_imp_iff, hdropped, true_or, true_and]
  · rw [if_neg hdropped]
    by_cases hrefuses : app.ownerRefuses mode w request = true
    · rw [if_pos hrefuses]
      simp only [Unchanged, workers_ensureOwner, ne_eq, reduceCtorEq, not_false_eq_true, true_imp_iff,
        hrefuses, or_true,
        true_and]
    · rw [if_neg hrefuses]
      have hneither : ¬ ((app.dropEntry d url request env).2 = false ∨ app.ownerRefuses mode w request = true) :=
        not_or.mpr ⟨hdropped, hrefuses⟩
      exact ⟨fun _ h => absurd h hneither, fun _ h => absurd rfl h⟩

/-- **Main theorem.** A rejected update leaves every worker's configuration, health and disabled flag and the set of
journaled ids as they were, exactly unless the entry of the worker is lost on the way. -/
theorem rejected_update_iff (mode : Mode) (app : App) (d : Disk) (url : String) (body : Option PutBody) (env : PutIo) :
    ((app.updateWorker mode d url body env).2.2 ≠ .ok → app.Unchanged d (app.updateWorker mode d url body env)) ↔
      ¬ ∃ b, body = some b ∧ b.malformed = false ∧ app.LosesEntry mode d url b.request env := by
  cases body with
  | none =>
    simp only [updateWorker, reduceCtorEq, false_and, exists_false, not_false_eq_true, iff_true]
    exact fun _ => unchanged_of_disk rfl rfl
  | some b =>
    simp only [Option.some.injEq, exists_eq_left', updateWorker]
    by_cases hmalformed : b.malformed = true
    · simp only [hmalformed, if_true, Bool.true_eq_false, false_and, not_false_eq_true, iff_true]
      exact fun _ => unchanged_of_disk rfl rfl
    · have hmalformed : b.malformed = false := Bool.eq_false_of_not_eq_true hmalformed
      by_cases hlocked : app.update.isSome = true
      · have hlock : app.update ≠ none := Option.isSome_iff_ne_none.mp hlocked
        simp only [hmalformed, hlocked, if_true, LosesEntry, hlock, false_and, and_false, not_false_eq_true, iff_true,
          Bool.false_eq_true, if_false]
        exact fun _ => unchanged_of_disk rfl rfl
      · have hlock : app.update = none := Option.not_isSome_iff_eq_none.mp hlocked
        simp only [hmalformed, hlocked, Bool.false_eq_true, if_false, true_and]
        cases hcheck : app.checkWorkerUpdate d url b.request env with
        | error status =>
          simp only [applyWorkerUpdate_of_error hcheck, LosesEntry, hcheck, reduceCtorEq, false_and, exists_false,
            and_false, not_false_eq_true, iff_true]
          exact fun _ => unchanged_of_disk rfl rfl
        | ok w =>
          rw [applyWorkerUpdate_of_ok hcheck, ← not_iff_not, not_not, Classical.not_imp,
            dropEntry_changes_iff, LosesEntry]
          simp only [hlock, hcheck, true_and, Except.ok.injEq, exists_eq_left']
          constructor
          · intro ⟨hrejected, hdisabled, hjournal, hread, hmem, hio⟩
            refine ⟨hdisabled, hjournal, hread, hmem, ?_⟩
            have hreported : (app.dropEntry d url _ env).2 = true ↔ _ := dropEntry_reported hdisabled hjournal hread
            cases hdone : env.io with
            | done =>
              rw [hreported.mpr hdone] at hrejected
              exact .inl ⟨rfl, hrejected.resolve_left nofun⟩
            | failed changed =>
              cases changed with
              | true => exact .inr rfl
              | false => exact absurd hdone hio
          · intro ⟨hdisabled, hjournal, hread, hmem, hlost⟩
            have hreported : (app.dropEntry d url _ env).2 = true ↔ _ := dropEntry_reported hdisabled hjournal hread
            cases hlost with
            | inl hrefused =>
              refine ⟨.inr hrefused.2, hdisabled, hjournal, hread, hmem, ?_⟩
              rw [hrefused.1]
              exact nofun
            | inr hfailed =>
              refine ⟨.inl ?_, hdisabled, hjournal, hread, hmem, ?_⟩
              · refine Bool.eq_false_of_not_eq_true fun htrue => ?_
                cases hfailed.symm.trans (hreported.mp htrue)
              · rw [hfailed]
                exact nofun

end App

/-- The voice owner is disabled and journaled after an update that went wrong. -/
def updatedOwner : App where
  workers := [{ url := "http://w", state := .healthy, disabled := true }]
  journal := .update
  voiceOwner := some "http://w"

def updatedOwnerDisk : Disk := ⟨some ⟨some "/pause_generation", ["http://w"]⟩,
      [some ⟨some "/pause_generation", ["http://w"]⟩]⟩

/-- Enabling it together with capabilities that cannot own voices is refused, and its entry is gone. -/
theorem rejected_update_loses_entry :
    (updatedOwner.updateWorker .single updatedOwnerDisk "http://w"
        (some { disabled := .given false, capabilities := .given [.chat] }) {}).2.2 = .error 409 ∧
      ¬ updatedOwner.Unchanged updatedOwnerDisk
        (updatedOwner.updateWorker .single updatedOwnerDisk "http://w"
          (some { disabled := .given false, capabilities := .given [.chat] }) {}) := by
  refine ⟨by decide +kernel, fun h => ?_⟩
  have hgone := (h.2 "http://w").mpr (by decide +kernel)
  exact absurd hgone (by decide +kernel)

end SglangOmni.Router
