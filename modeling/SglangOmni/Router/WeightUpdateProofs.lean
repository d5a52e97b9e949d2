import SglangOmni.Router.WeightUpdate

/-! What a weight update leaves uncertain stays disabled.

Everything that a crash may leave of the journal names it, and wherever it is listed it is disabled (`Closed`); an
update begins only when nothing is pending, and from then on its own targets are kept the same way. Each event keeps
this by a lemma of its own. What does not is a `PUT` or a resolution that is refused after it has changed the journal,
and a start without the state directory (`Clean`). -/
namespace SglangOmni.Router
open Lib

namespace Node

/-! ### What keeps the targets disabled -/

/-- Whoever of the workers has one of these URLs is disabled. -/
def Disables (workers : List Worker) (urls : List String) : Prop := ∀ w ∈ workers, w.url ∈ urls → w.disabled = true

/-- The snapshot, if there is one, has them disabled. -/
def FileDisables (file : Option (List SnapshotWorker)) (urls : List String) : Prop :=
  ∀ entries, file = some entries → ∀ e ∈ entries, e.url ∈ urls → e.disabled = true

/-- What is uncertain is named by everything that a crash may leave, and disabled wherever it is listed. An update in
progress has begun with nothing uncertain, and its targets are as safe as if they were. -/
structure Closed (mode : Mode) (σ : Node) : Prop where
  covers : σ.disk.Covers σ.uncertain
  file : FileDisables σ.file σ.uncertain
  noFile : mode = .single → σ.file = none
  registry : ∀ app, σ.app = some app → Disables app.workers σ.uncertain
  unavailable : ∀ app, σ.app = some app → app.journal = .unavailable → σ.uncertain = [] ∧ app.update = none
  updating : ∀ app u, σ.app = some app → app.update = some u →
    σ.uncertain = [] ∧ σ.disk.Covers u.targets ∧ Disables app.workers u.targets ∧
      (u.phase ≠ .begun → FileDisables σ.file u.targets)

variable {urls uncertain : List String} {workers : List Worker} {file : Option (List SnapshotWorker)} {σ : Node}
  {mode : Mode}

theorem Disables.mono {fewer : List String} (h : Disables workers urls)
    (sub : ∀ url ∈ fewer, url ∈ urls) : Disables workers fewer :=
  fun w hw hurl => h w hw (sub w.url hurl)

theorem FileDisables.mono {fewer : List String} (h : FileDisables file urls)
    (sub : ∀ url ∈ fewer, url ∈ urls) : FileDisables file fewer :=
  fun entries hfile e he hurl => h entries hfile e he (sub e.url hurl)

/-- A change of each worker that neither renames nor enables it. -/
theorem Disables.map (h : Disables workers urls) {f : Worker → Worker}
    (url : ∀ w, (f w).url = w.url) (kept : ∀ w, w.disabled = true → (f w).disabled = true) :
    Disables (workers.map f) urls := by
  intro w hw hurl
  obtain ⟨v, hv, rfl⟩ := List.mem_map.mp hw
  rw [url] at hurl
  exact kept v (h v hv hurl)

theorem disables_disable (workers : List Worker) (urls : List String) : Disables (disable urls workers) urls := by
  intro w hw hurl
  obtain ⟨v, _, rfl⟩ := List.mem_map.mp hw
  by_cases hv : v.url ∈ urls
  · simp only [hv, if_true, Worker.setDisabled]
  · simp only [hv, if_false] at hurl

theorem disables_all (workers : List Worker) (urls : List String) :
    Disables (workers.map fun w => w.setDisabled true) urls := by
  intro w hw _
  obtain ⟨v, _, rfl⟩ := List.mem_map.mp hw
  rfl

/-- What is published lists the workers as they are. -/
theorem Disables.published (h : Disables workers urls) :
    FileDisables (some (snapshotWorkers workers)) urls := by
  intro entries hentries e he hurl
  cases hentries
  obtain ⟨w, hw, rfl⟩ := List.mem_map.mp he
  exact h w hw hurl

theorem ensureOwner_workers (mode : Mode) (app : App) :
    (app.ensureOwner mode).2.workers = app.workers ∧ (app.ensureOwner mode).2.journal = app.journal ∧
      (app.ensureOwner mode).2.update = app.update := by
  unfold App.ensureOwner
  split
  · exact ⟨rfl, rfl, rfl⟩
  · split
    · exact ⟨rfl, rfl, rfl⟩
    · split <;> exact ⟨rfl, rfl, rfl⟩

theorem unlocked_eq {app : App} (h : σ.unlocked = some app) : σ.app = some app ∧ app.update = none := by
  obtain ⟨happ, hupdate⟩ := Option.filter_eq_some_iff.mp h
  exact ⟨happ, Option.isNone_iff_eq_none.mp hupdate⟩

/-- The registry changes, and nobody of it is enabled. -/
theorem Closed.withWorkers (h : Closed mode σ) {app app' : App} (happ : σ.app = some app)
    (journal : app'.journal = app.journal) (update : app'.update = app.update)
    (disables : ∀ urls, Disables app.workers urls → Disables app'.workers urls) :
    Closed mode { σ with app := some app' } where
  covers := h.covers
  file := h.file
  noFile := h.noFile
  registry other hother := by
    cases hother
    exact disables _ (h.registry app happ)
  unavailable other hother hjournal := by
    cases hother
    rw [update]
    exact h.unavailable app happ (journal ▸ hjournal)
  updating other u hother hu := by
    cases hother
    obtain ⟨hnil, hcovers, hdisables, hfile⟩ := h.updating app u happ (update ▸ hu)
    exact ⟨hnil, hcovers, disables _ hdisables, hfile⟩

/-- The lock is free afterwards: only what is uncertain is to be disabled. -/
theorem Closed.unlocked (h : Closed mode σ) {app' : App} {disk : Disk}
    (update : app'.update = none) (covers : disk.Covers uncertain) (file : FileDisables σ.file uncertain)
    (disables : Disables app'.workers uncertain) (unavailable : app'.journal = .unavailable → uncertain = []) :
    Closed mode { σ with app := some app', disk := disk, uncertain := uncertain } where
  covers := covers
  file := file
  noFile := h.noFile
  registry other hother := by
    cases hother
    exact disables
  unavailable other hother hjournal := by
    cases hother
    exact ⟨unavailable hjournal, update⟩
  updating other u hother hu := by
    cases hother
    rw [update] at hu
    cases hu

/-- The process is gone. -/
theorem closed_gone {disk : Disk} (covers : disk.Covers uncertain) (hfile : FileDisables file uncertain)
    (noFile : mode = .single → file = none) :
    Closed mode { app := none, disk := disk, file := file, uncertain := uncertain } where
  covers := covers
  file := hfile
  noFile := noFile
  registry _ happ := nomatch happ
  unavailable _ happ := nomatch happ
  updating _ _ happ := nomatch happ

/-! ### One step -/

/-- What an operator's request may not meet. A `PUT` that takes an entry out of the journal is not refused after that,
by the voice owner or because the directory could not be synced; a resolution does not fail with the file gone; and no
router starts without its state directory while there is an entry. -/
def Clean (mode : Mode) (σ : Node) : Event → Prop
  | .put url request env _ =>
    ∀ app w, σ.unlocked = some app → app.journal = .update → app.checkWorkerUpdate σ.disk url request env = .ok w →
      request.disabled = some false → env.discardRead = true → url ∈ σ.disk.journaled →
        match env.io with
        | .done => app.ownerRefuses mode w request = false
        | .failed changed => changed = false
  | .resolve acknowledged authorized io =>
    ∀ app, σ.unlocked = some app → app.journal = .update → acknowledged = true → (app.adminKey → authorized) →
      io = .failed true → σ.disk.journaled = []
  | .start _ _ _ usable _ => usable = false → σ.disk.journaled = []
  | _ => True

/-- What the started update had, the crash makes uncertain. -/
theorem closed_crash (h : Closed mode σ) (left : Option JournalDocument) :
    Closed mode (σ.step mode (.crash left)) := by
  simp only [step]
  split
  · next hleft =>
    have hstarted : σ.disk.Covers (σ.started ++ σ.uncertain) ∧ FileDisables σ.file (σ.started ++ σ.uncertain) := by
      unfold started
      cases happ : σ.app with
      | none => exact ⟨h.covers, h.file⟩
      | some app =>
        cases hu : app.update with
        | none =>
          simp only [Option.bind_some, hu]
          exact ⟨h.covers, h.file⟩
        | some u =>
          obtain ⟨hnil, hcovers, _, hfile⟩ := h.updating app u happ hu
          simp only [Option.bind_some, hu, hnil, List.append_nil]
          split
          · next hsent => exact ⟨hcovers, hfile (by rw [hsent]; decide)⟩
          · exact ⟨hnil ▸ h.covers, hnil ▸ h.file⟩
    exact closed_gone (hstarted.1.left hleft) hstarted.2 h.noFile
  · exact h

theorem closed_start (h : Closed mode σ) {configs : List WorkerConfig} {voiceOwner : Option String}
    {adminKey usable readable : Bool} (clean : Clean mode σ (.start configs voiceOwner adminKey usable readable)) :
    Closed mode (σ.step mode (.start configs voiceOwner adminKey usable readable)) := by
  simp only [step]
  split
  · exact h
  · split
    · have hdisables : Disables (recoverWorkerPool
          ((if usable then Journal.update else .unavailable).pending σ.disk readable) (restoreWorkers σ.file configs))
          σ.uncertain := by
        cases usable with
        | false =>
          rw [h.covers.eq_nil (clean rfl)]
          exact fun w _ hurl => absurd hurl List.not_mem_nil
        | true =>
          cases readable with
          | false => exact disables_all _ _
          | true => exact (disables_disable _ _).mono fun url hurl => h.covers.journaled hurl
      refine h.unlocked rfl h.covers h.file hdisables fun hjournal => ?_
      cases usable with
      | false => exact h.covers.eq_nil (clean rfl)
      | true => cases hjournal
    · exact h

theorem closed_create (h : Closed mode σ) (config : WorkerConfig) (probed : WorkerState)
    (readable : Bool) : Closed mode (σ.step mode (.create config probed readable)) := by
  simp only [step]
  split
  · next app hunlocked =>
    obtain ⟨happ, hupdate⟩ := unlocked_eq hunlocked
    split
    · exact h
    · refine h.unlocked hupdate h.covers h.file ?_ fun hjournal => (h.unavailable app happ hjournal).1
      intro w hw hurl
      cases List.mem_append.mp hw with
      | inl hold => exact h.registry app happ w hold hurl
      | inr hnew =>
        rw [List.mem_singleton.mp hnew] at hurl ⊢
        simp only at hurl ⊢
        unfold Journal.names Journal.pending
        cases hjournal : app.journal with
        | unavailable =>
          rw [(h.unavailable app happ hjournal).1] at hurl
          cases hurl
        | update =>
          cases readable with
          | false => rfl
          | true => simpa using h.covers.journaled hurl
  · exact h

/-- What a `PUT` does to the journal: an id that it releases may be taken out, all others stay. -/
theorem put_covers (mode : Mode) (app : App) {d : Disk} (covers : d.Covers uncertain)
    {url : String} {request : WorkerUpdate} {env : PutIo}
    (clean : ∀ w, app.journal = .update → app.checkWorkerUpdate d url request env = .ok w →
      request.disabled = some false → env.discardRead = true → url ∈ d.journaled → match env.io with
        | .done => app.ownerRefuses mode w request = false | .failed changed => changed = false) :
    (app.applyWorkerUpdate mode d url request env).1.Covers
      (if (app.applyWorkerUpdate mode d url request env).2.2 = .ok ∧ request.disabled = some false then
        uncertain.filter (· ≠ url) else uncertain) := by
  unfold App.applyWorkerUpdate
  cases hcheck : app.checkWorkerUpdate d url request env with
  | error status => simpa using covers
  | ok w =>
    simp only
    by_cases henable : request.disabled = some false
    · simp only [App.dropEntry, henable, if_true, and_true]
      have hdiscarded := app.journal.discard_covers covers env.discardRead env.keepRead env.io url
      -- Whoever is not journaled is not uncertain either, so that nothing is lost with him.
      have hother : url ∉ d.journaled →
          (app.journal.discard d env.discardRead env.keepRead env.io url).1.Covers uncertain := by
        intro hjournaled
        refine hdiscarded.mono fun id hid => List.mem_filter.mpr ⟨hid, ?_⟩
        simp only [ne_eq, decide_eq_true_eq]
        intro hurl
        exact hjournaled (covers.journaled (hurl ▸ hid))
      split
      · next hrefused =>
        simp only [reduceCtorEq, if_false]
        by_cases hjournaled : url ∈ d.journaled
        · rw [Journal.discard_refused hrefused]
          · exact covers
          · intro hread hio
            have hjournal : app.journal = .update := by
              cases hjournal : app.journal with
              | update => rfl
              | unavailable =>
                rw [hjournal] at hrefused
                cases hrefused
            have hclean := clean w hjournal hcheck henable hread hjournaled
            rw [hio] at hclean
            cases hclean
        · exact hother hjournaled
      · next hmade =>
        split
        · next howner =>
          simp only [reduceCtorEq, if_false]
          by_cases hjournaled : url ∈ d.journaled
          · cases hjournal : app.journal with
            | unavailable => exact covers
            | update =>
              rw [hjournal, Bool.not_eq_false] at hmade
              obtain ⟨hread, hio⟩ := Journal.discard_made hmade
              have hclean := clean w hjournal hcheck henable hread hjournaled
              rw [hio] at hclean
              rw [hclean] at howner
              cases howner
          · exact hother hjournaled
        · exact hdiscarded
    · simp only [App.dropEntry, henable, if_false, and_false, Bool.true_eq_false]
      split <;> exact covers

/-- What a `PUT` does to the registry: nobody but the one that it releases is enabled. -/
theorem put_disables (mode : Mode) (app : App) (d : Disk) (url : String) (request : WorkerUpdate) (env : PutIo)
    (h : Disables app.workers urls) :
    Disables (app.applyWorkerUpdate mode d url request env).2.1.workers
      (if (app.applyWorkerUpdate mode d url request env).2.2 = .ok ∧ request.disabled = some false then
        urls.filter (· ≠ url) else urls) := by
  obtain ⟨hworkers, _, _⟩ := ensureOwner_workers mode app
  unfold App.applyWorkerUpdate
  cases hcheck : app.checkWorkerUpdate d url request env with
  | error status => simpa using h
  | ok w =>
    simp only
    split
    · simpa using h
    · split
      · simpa [hworkers] using h
      · simp only [hworkers, true_and]
        intro v hv hurl
        obtain ⟨old, hold, rfl⟩ := List.mem_map.mp hv
        by_cases hold' : old.url = url
        · simp only [hold', if_true] at hurl ⊢
          split at hurl
          · obtain ⟨_, hne⟩ := List.mem_filter.mp hurl
            exact absurd hold' (of_decide_eq_true hne)
          · next henable =>
            have hdisabled := h old hold (by simpa [WorkerUpdate.apply] using hurl)
            simp only [WorkerUpdate.apply]
            cases hrequest : request.disabled with
            | none => exact hdisabled
            | some disabled =>
              cases disabled with
              | true => rfl
              | false => exact absurd hrequest henable
        · simp only [hold', if_false] at hurl ⊢
          refine h old hold ?_
          split at hurl
          · exact List.mem_of_mem_filter hurl
          · exact hurl

theorem put_same (mode : Mode) (app : App) (d : Disk) (url : String) (request : WorkerUpdate) (env : PutIo) :
    (app.applyWorkerUpdate mode d url request env).2.1.journal = app.journal ∧
      (app.applyWorkerUpdate mode d url request env).2.1.update = app.update := by
  obtain ⟨_, hjournal, hupdate⟩ := ensureOwner_workers mode app
  unfold App.applyWorkerUpdate
  cases app.checkWorkerUpdate d url request env with
  | error status => exact ⟨rfl, rfl⟩
  | ok w =>
    simp only
    split
    · exact ⟨rfl, rfl⟩
    · split <;> exact ⟨hjournal, hupdate⟩

section
variable (h : Closed mode σ)
include h

theorem closed_put {url : String} {request : WorkerUpdate} {env : PutIo}
    {dies : Bool} (clean : Clean mode σ (.put url request env dies)) :
    Closed mode (σ.step mode (.put url request env dies)) := by
  simp only [step]
  split
  · next app hunlocked =>
    obtain ⟨happ, hupdate⟩ := unlocked_eq hunlocked
    split
    · exact h
    · have hcovers := put_covers mode app h.covers (clean app · hunlocked)
      have hdisables := put_disables mode app σ.disk url request env (h.registry app happ)
      have hsub : ∀ id ∈ (if (app.applyWorkerUpdate mode σ.disk url request env).2.2 = .ok ∧
          request.disabled = some false then σ.uncertain.filter (· ≠ url) else σ.uncertain), id ∈ σ.uncertain := by
        intro id hid
        split at hid
        · exact List.mem_of_mem_filter hid
        · exact hid
      cases dies with
      | true => exact closed_gone hcovers (h.file.mono hsub) h.noFile
      | false =>
        obtain ⟨hjournal, hsame⟩ := put_same mode app σ.disk url request env
        refine h.unlocked (hsame.trans hupdate) hcovers (h.file.mono hsub) hdisables fun hunavailable => ?_
        have hnil := (h.unavailable app happ (hjournal ▸ hunavailable)).1
        apply List.eq_nil_iff_forall_not_mem.mpr
        intro id hid
        have hmem := hsub id hid
        rw [hnil] at hmem
        cases hmem
  · exact h

theorem closed_resolve {acknowledged authorized : Bool} {io : Io}
    (clean : Clean mode σ (.resolve acknowledged authorized io)) :
    Closed mode (σ.step mode (.resolve acknowledged authorized io)) := by
  simp only [step]
  split
  · next app hunlocked =>
    obtain ⟨happ, hupdate⟩ := unlocked_eq hunlocked
    split
    · next hallowed =>
      have hnil : σ.disk.Covers [] := h.covers.mono fun id hid => absurd hid List.not_mem_nil
      have hcovers : (app.journal.clear σ.disk io).1.Covers
          (if (app.journal.clear σ.disk io).2 then [] else σ.uncertain) := by
        split
        · exact Journal.clear_nil hnil io
        · next hrefused =>
          cases hjournal : app.journal with
          | unavailable =>
            rw [hjournal] at hrefused
            exact absurd rfl hrefused
          | update =>
            rw [hjournal] at hrefused
            by_cases hio : io = .failed true
            · rw [h.covers.eq_nil (clean app hunlocked hjournal hallowed.1 hallowed.2 hio)]
              exact Journal.clear_nil hnil io
            · have hsame : (Journal.update.clear σ.disk io).1 = σ.disk :=
                Disk.put_refused (Bool.eq_false_iff.mpr hrefused) hio
              rw [hsame]
              exact h.covers
      have hsub : ∀ id ∈ (if (app.journal.clear σ.disk io).2 then [] else σ.uncertain), id ∈ σ.uncertain := by
        intro id hid
        split at hid
        · cases hid
        · exact hid
      have hresolved := h.unlocked hupdate hcovers (h.file.mono hsub) ((h.registry app happ).mono hsub)
        fun hjournal => by
        rw [(h.unavailable app happ hjournal).1, ite_self]
      rw [← happ] at hresolved
      exact hresolved
    · exact h
  · exact h

theorem closed_begin (path : String) (readable : Bool) (io : Io) :
    Closed mode (σ.step mode (.begin path readable io)) := by
  simp only [step]
  split
  · next app hunlocked =>
    obtain ⟨happ, hupdate⟩ := unlocked_eq hunlocked
    unfold beginUpdate
    simp only
    split
    · exact h
    · next hpending =>
      -- Nothing is pending, so that nothing is uncertain.
      have huncertain : σ.uncertain = [] := by
        cases hjournal : app.journal with
        | unavailable => exact (h.unavailable app happ hjournal).1
        | update =>
          rw [hjournal] at hpending
          cases readable with
          | false => exact absurd rfl hpending
          | true => exact h.covers.eq_nil (by simpa [Journal.hasPending, Journal.pending] using hpending)
      have hcovers : σ.disk.Covers [] := huncertain ▸ h.covers
      split
      · exact h
      · split
        · exact h
        · split
          · next hbegun =>
            have htargets := Journal.begin_covers hbegun
            refine ⟨?_, h.file, h.noFile, ?_, ?_, ?_⟩
            · rw [huncertain]
              exact htargets.mono fun id hid => absurd hid List.not_mem_nil
            · intro other _ w _ hurl
              rw [huncertain] at hurl
              cases hurl
            · intro other hother hjournal
              cases hother
              simp only at hjournal
              rw [hjournal] at hbegun
              cases hbegun
            · intro other u hother hu
              cases hother
              cases hu
              exact ⟨huncertain, htargets, disables_disable _ _, fun hphase => absurd rfl hphase⟩
          · have hwritten : (app.journal.begin σ.disk io path (app.targetWorkers.map Worker.url)).1.Covers
              σ.uncertain :=
              huncertain ▸ Journal.begin_nil hcovers io path _
            have hrefused := h.unlocked hupdate hwritten h.file (h.registry app happ)
              fun hjournal => (h.unavailable app happ hjournal).1
            rw [← happ] at hrefused
            exact hrefused
  · exact h

/-- An update in progress gets on to its next phase. -/
theorem Closed.inPhase {app : App} {u : Update} (happ : σ.app = some app)
    (hu : app.update = some u) {phase : Phase} (hfile : FileDisables file u.targets)
    (noFile : mode = .single → file = none) :
    Closed mode { σ with file := file, app := some { app with update := some { u with phase := phase } } } := by
  obtain ⟨huncertain, hcovers, hdisables, _⟩ := h.updating app u happ hu
  refine ⟨h.covers, ?_, noFile, ?_, ?_, ?_⟩
  · intro entries _ e _ hurl
    rw [huncertain] at hurl
    cases hurl
  · intro other hother
    cases hother
    exact h.registry app happ
  · intro other hother hjournal
    cases hother
    exact absurd (hu.symm.trans (h.unavailable app happ hjournal).2) (by simp)
  · intro other u' hother hu'
    cases hother
    cases hu'
    exact ⟨huncertain, hcovers, hdisables, fun _ => hfile⟩

theorem closed_announce (written : Bool) :
    Closed mode (σ.step mode (.announce written)) := by
  simp only [step]
  split
  · next app happ =>
    split
    · next u hu =>
      obtain ⟨_, _, hdisables, _⟩ := h.updating app u happ hu
      split
      · split
        · have hnone : FileDisables σ.file u.targets := by
            rw [h.noFile rfl]
            exact fun entries hentries => nomatch hentries
          exact h.inPhase happ hu hnone h.noFile
        · exact h.inPhase happ hu hdisables.published (fun hmode => nomatch hmode)
        · exact h.unlocked rfl h.covers h.file (h.registry app happ) fun hjournal => (h.unavailable app happ hjournal).1
      · exact h
    · exact h
  · exact h

theorem closed_acknowledged : Closed mode (σ.step mode .acknowledged) := by
  simp only [step]
  split
  · next app happ =>
    split
    · next u hu =>
      obtain ⟨_, _, _, hfile⟩ := h.updating app u happ hu
      split
      · next hphase => exact h.inPhase happ hu (hfile (by rw [hphase]; decide)) h.noFile
      · exact h
    · exact h
  · exact h

/-- However the update ends, what it leaves uncertain it has journaled and disabled. -/
theorem closed_finish (results : Option (List Bool)) (keepRead : Bool)
    (io : Io) : Closed mode (σ.step mode (.finish results keepRead io)) := by
  simp only [step]
  split
  · next app happ =>
    split
    · next u hu =>
      obtain ⟨huncertain, hcovers, _, hfile⟩ := h.updating app u happ hu
      have hnil : σ.disk.Covers [] := huncertain ▸ h.covers
      split
      · unfold finishUpdate
        cases outcomeSafe results with
        | true =>
          simp only [if_true, Bool.true_eq_false, and_false, if_false, huncertain]
          refine h.unlocked rfl (Journal.clear_nil hnil io) ?_ ?_ fun _ => rfl
          · exact fun entries _ e _ hurl => absurd hurl List.not_mem_nil
          · exact fun w _ hurl => absurd hurl List.not_mem_nil
        | false =>
          have hkept := app.journal.keep_covers hcovers keepRead io fun id hid => hid
          simp only [Bool.false_eq_true, if_false, and_true, huncertain, List.append_nil]
          have hjournal : app.journal ≠ .unavailable := fun hjournal =>
            absurd (hu.symm.trans (h.unavailable app happ hjournal).2) (by simp)
          split
          · next hsent =>
            exact h.unlocked rfl hkept (hfile (by rw [hsent]; decide)) (disables_disable _ _)
              fun hunavailable => absurd hunavailable hjournal
          · refine h.unlocked rfl (hkept.mono fun id hid => absurd hid List.not_mem_nil) ?_ ?_ fun _ => rfl
            · exact fun entries _ e _ hurl => absurd hurl List.not_mem_nil
            · exact fun w _ hurl => absurd hurl List.not_mem_nil
      · exact h
    · exact h
  · exact h

theorem closed_publish (written : Bool) :
    Closed mode (σ.step mode (.publish written)) := by
  simp only [step]
  split
  · next app happ =>
    split
    · refine ⟨h.covers, (h.registry app happ).published, (fun hmode => nomatch hmode), h.registry, h.unavailable, ?_⟩
      intro other u hother hu
      obtain ⟨huncertain, hcovers, hdisables, _⟩ := h.updating other u hother hu
      rw [happ] at hother
      cases hother
      exact ⟨huncertain, hcovers, hdisables, fun _ => hdisables.published⟩
    · exact h
  · exact h

theorem closed_delete (url : String) :
    Closed mode (σ.step mode (.delete url)) := by
  simp only [step]
  split
  · next app hunlocked =>
    obtain ⟨happ, _⟩ := unlocked_eq hunlocked
    obtain ⟨hworkers, hjournal, hupdate⟩ := ensureOwner_workers mode app
    split
    · exact h
    · split
      · exact h.withWorkers happ hjournal hupdate fun urls hurls => hworkers ▸ hurls
      · refine h.withWorkers happ hjournal hupdate fun urls hurls w hw => ?_
        exact hurls w (hworkers ▸ List.mem_of_mem_filter hw)
  · exact h

end

/-- **No clean step opens what is closed.** -/
theorem closed_step (e : Event) (h : Closed mode σ) (clean : Clean mode σ e) :
    Closed mode (σ.step mode e) := by
  cases e with
  | start configs voiceOwner adminKey usable readable => exact closed_start h clean
  | crash left => exact closed_crash h left
  | newWorkdir =>
    simp only [step]
    split
    · exact h
    · next happ =>
      refine ⟨h.covers, fun entries hentries => (nomatch hentries), fun _ => rfl, h.registry, h.unavailable, ?_⟩
      intro app u happ'
      exact absurd (happ.symm.trans happ') (by simp)
  | publish written => exact closed_publish h written
  | observe url state =>
    simp only [step]
    split
    · next app happ =>
      refine h.withWorkers happ rfl rfl fun urls hurls => hurls.map ?_ ?_
      · intro w
        split <;> rfl
      · intro w hw
        split <;> exact hw
    · exact h
  | assignOwner =>
    simp only [step]
    split
    · next app happ =>
      obtain ⟨hworkers, hjournal, hupdate⟩ := ensureOwner_workers mode app
      exact h.withWorkers happ hjournal hupdate fun urls hurls => hworkers ▸ hurls
    · exact h
  | create config probed readable => exact closed_create h config probed readable
  | put url request env dies => exact closed_put h clean
  | delete url => exact closed_delete h url
  | resolve acknowledged authorized io => exact closed_resolve h clean
  | begin path readable io => exact closed_begin h path readable io
  | announce written => exact closed_announce h written
  | acknowledged => exact closed_acknowledged h
  | finish results keepRead io => exact closed_finish h results keepRead io

theorem closed_initial (mode : Mode) : Closed mode {} where
  covers := ⟨List.mem_singleton_self _, fun _ hid => absurd hid List.not_mem_nil⟩
  file _ hentries := nomatch hentries
  noFile _ := rfl
  registry _ happ := nomatch happ
  unavailable _ happ := nomatch happ
  updating _ _ happ := nomatch happ

/-! ### Runs -/

/-- Whoever was the target of an update that was sent, and that has not ended with success from all of them, is neither
routable nor published as such, and no other update is in progress. -/
structure FailsClosed (σ : Node) : Prop where
  registry : ∀ app, σ.app = some app → ∀ w ∈ app.workers, w.url ∈ σ.started ++ σ.uncertain → w.isRoutable = false
  snapshot : ∀ entries, σ.file = some entries → ∀ e ∈ entries, e.url ∈ σ.started ++ σ.uncertain → e.disabled = true
  exclusive : ∀ app u, σ.app = some app → app.update = some u → σ.uncertain = []

theorem Closed.failsClosed (h : Closed mode σ) : FailsClosed σ := by
  have hstarted : ∀ url ∈ σ.started, ∃ app u, σ.app = some app ∧ app.update = some u ∧ u.phase = .sent ∧
    url ∈ u.targets := by
    intro url hurl
    unfold started at hurl
    cases happ : σ.app with
    | none =>
      rw [happ] at hurl
      cases hurl
    | some app =>
      rw [happ] at hurl
      cases hu : app.update with
      | none =>
        simp only [Option.bind_some, hu] at hurl
        cases hurl
      | some u =>
        simp only [Option.bind_some, hu] at hurl
        split at hurl
        · next hsent => exact ⟨app, u, rfl, hu, hsent, hurl⟩
        · cases hurl
  refine ⟨fun app happ w hw hurl => ?_, fun entries hfile e he hurl => ?_,
    fun app u happ hu => (h.updating app u happ hu).1⟩
  · have hdisabled : w.disabled = true := by
      cases List.mem_append.mp hurl with
      | inr huncertain => exact h.registry app happ w hw huncertain
      | inl hsent =>
        obtain ⟨other, u, hother, hu, _, htarget⟩ := hstarted w.url hsent
        rw [happ] at hother
        cases hother
        exact (h.updating app u happ hu).2.2.1 w hw htarget
    rw [Worker.isRoutable, hdisabled]
    exact Bool.and_false _
  · cases List.mem_append.mp hurl with
    | inr huncertain => exact h.file entries hfile e he huncertain
    | inl hsent =>
      obtain ⟨app, u, happ, hu, hphase, htarget⟩ := hstarted e.url hsent
      exact (h.updating app u happ hu).2.2.2 (by rw [hphase]; decide) entries hfile e he htarget

/-- **Weight updates fail closed**, in every run whose requests are not refused after their entry was taken out of the
journal. -/
theorem fails_closed (mode : Mode) (events : List Event) (clean : Along (step mode) (Clean mode) {} events) :
    FailsClosed (run (step mode) {} events) := by
  have hclosed : Closed mode (run (step mode) {} events) :=
    along_invariant (closed_initial mode) (fun σ e h hclean => closed_step e h hclean) events clean
  exact hclosed.failsClosed

/-- The only worker of the examples below. -/
def lone : WorkerConfig := { url := "http://w0" }

/-- An update of it that fails. -/
def failing : List Event :=
  [.start [lone] (some lone.url) false true true, .observe lone.url .healthy,
    .begin "/update_weights_from_disk" true .done,
   .announce true, .acknowledged, .finish (some [false]) true .done]

theorem fails_closed_failing :
    lone.url ∈ (run (step .controlPlane) {} failing).uncertain ∧ FailsClosed (run (step .controlPlane) {} failing) := by
  refine ⟨by decide, fails_closed .controlPlane failing ?_⟩
  exact ⟨(fun h => nomatch h), trivial, trivial, trivial, trivial, trivial, trivial⟩

/-- The voice owner may not lose its capabilities, and the request is refused; but its entry is gone. After a crash the
worker is enabled. -/
def refusedByOwner : List Event :=
  failing ++ [.put lone.url { disabled := some false, capabilities := some [.chat] } {} false, .crash none,
    .start [lone] (some lone.url) false true true, .observe lone.url .healthy]

/-- The directory could not be synced, and the request is refused; but the file is gone. The next update begins. -/
def refusedUnsynced : List Event :=
  failing ++ [.put lone.url { disabled := some false } { io := .failed true } false,
    .begin "/update_weights_from_disk" true .done, .announce true, .acknowledged]

theorem opened_by_refusal :
    (∃ app, (run (step .single) {} refusedByOwner).app = some app ∧
      lone.url ∈ (run (step .single) {} refusedByOwner).uncertain ∧
      ∃ w ∈ app.workers, w.url = lone.url ∧ w.isRoutable = true) ∧
    ∃ app u, (run (step .controlPlane) {} refusedUnsynced).app = some app ∧ app.update = some u ∧ u.phase = .sent ∧
      lone.url ∈ (run (step .controlPlane) {} refusedUnsynced).uncertain :=
  ⟨⟨_, rfl, by decide, _, List.mem_singleton_self _, by decide, by decide⟩, ⟨_, _, rfl, rfl, rfl, by decide⟩⟩

end Node

end SglangOmni.Router
