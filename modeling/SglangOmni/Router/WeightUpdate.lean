import SglangOmni.Router.Journal
import SglangOmni.Router.VoiceRouting

/-! Weight updates fail closed.

An update disables its targets, waits until the data planes know it, sends the request to every target and enables
them again if all went well. Where it does not end well the weights of the targets are unknown: they stay disabled, and
no other update begins, until an operator says that the weights were verified. A crash loses the registry; the pool is
then built again, from the snapshot file or from the configuration, and the journal says who is to be disabled.

The registry, the journal and the snapshot file change in separate steps, so that a crash may fall between any two. A
worker is named by its URL here: its id is the quoted URL, and quoting is undone by unquoting. -/
namespace SglangOmni.Router
open Lib

/-! ### The pool -/

structure WorkerConfig where
  url : String
  model : Option String := none
  capabilities : List Capability := defaultCapabilities
  deriving DecidableEq

/-- `WorkerConfig._normalize_model`. -/
def normalizeModel (value : Option String) : Option String := (value.map Voices.strip).filter (· ≠ "")

/-- `build_workers`. -/
def buildWorkers (configs : List WorkerConfig) : List Worker :=
  configs.map fun c => { url := c.url, model := normalizeModel c.model, capabilities := c.capabilities }

/-- `restore_workers`: from the snapshot file, or from the configuration if there is none. -/
def restoreWorkers (file : Option (List SnapshotWorker)) (configs : List WorkerConfig) : List Worker :=
  match file with
  | none => buildWorkers configs
  | some entries => entries.map fun e => ⟨e.url, e.incarnation, e.model, e.capabilities, e.state, e.disabled⟩

def Worker.setDisabled (w : Worker) (disabled : Bool) : Worker := { w with disabled }

/-- The workers with these URLs are disabled. -/
def disable (urls : List String) (workers : List Worker) : List Worker :=
  workers.map fun w => if w.url ∈ urls then w.setDisabled true else w

/-- `recover_worker_pool_from_journal`: a journal that cannot be read disables everybody. -/
def recoverWorkerPool (pending : Except JournalError (List String)) (workers : List Worker) : List Worker :=
  match pending with
  | .ok unresolved => disable unresolved workers
  | .error _ => workers.map fun w => w.setDisabled true

/-- `can_own_uploaded_voices`. -/
def canOwnUploadedVoices (capabilities : List Capability) : Bool :=
  .speech ∈ capabilities && .audioInput ∈ capabilities

/-- What `RouterConfig` accepts. -/
def validConfig (configs : List WorkerConfig) (voiceOwner : Option String) : Bool :=
  !configs.isEmpty && decide (configs.map WorkerConfig.url).Nodup && configs.all (fun c => !c.capabilities.isEmpty) &&
    voiceOwner.all fun url => configs.any fun c => c.url = url && canOwnUploadedVoices c.capabilities

/-! ### The router -/

/-- The router in one process serves the data itself and has an owner of the uploaded voices; a control plane has data
planes, which it reaches by the snapshot file. -/
inductive Mode where
  | single
  | controlPlane
  deriving DecidableEq

inductive Phase where
  /-- The journal names the targets and the registry has them disabled. -/
  | begun
  /-- So does the snapshot, and the data planes are waited for. -/
  | announced
  /-- The request is on its way. -/
  | sent
  deriving DecidableEq

/-- An update in progress: it has the admin update lock. -/
structure Update where
  targets : List String
  /-- `previous_disabled`. -/
  previous : List (String × Bool)
  phase : Phase

/-- The state of the running process. -/
structure App where
  workers : List Worker
  journal : Journal
  /-- The endpoint has an admin key. -/
  adminKey : Bool := false
  /-- `_owner_url` of the voice routing. -/
  voiceOwner : Option String := none
  update : Option Update := none

namespace App

/-- `_find_worker`. -/
def findWorker (app : App) (url : String) : Option Worker := app.workers.find? fun w => w.url = url

/-- `VoiceRoutingState.owner`. -/
def owner (app : App) : Option Worker := app.voiceOwner.bind app.findWorker

/-- `ensure_owner`: the first worker that can is made the owner, if there never was one. -/
def ensureOwner (mode : Mode) (app : App) : Option Worker × App :=
  match mode with
  | .controlPlane => (none, app)
  | .single =>
    if app.voiceOwner.isSome then (app.owner, app)
    else
      match app.workers.find? fun w => w.isRoutable && canOwnUploadedVoices w.capabilities with
      | some w => (some w, { app with voiceOwner := some w.url })
      | none => (none, app)

/-- The workers that are not dead. -/
def targetWorkers (app : App) : List Worker := app.workers.filter fun w => w.state ≠ .dead

/-- `_restore_admin_disabled_state`. -/
def restoreAdminDisabledState (app : App) (u : Update) (outcomeSafe : Bool) : App :=
  if outcomeSafe then
    { app with workers := app.workers.map fun w =>
        match u.previous.lookup w.url with
        | some disabled => w.setDisabled disabled
        | none => w }
  else { app with workers := disable u.targets app.workers }

end App

inductive Response where
  | ok
  | error (status : Nat)
  deriving DecidableEq

/-! ### PUT /workers -/

/-- The body of a `PUT`. A `model` of none, or of blanks, clears the model. -/
structure WorkerUpdate where
  isDead : Option Bool := none
  disabled : Option Bool := none
  model : Option (Option String) := none
  capabilities : Option (List Capability) := none
  deriving DecidableEq

/-- What a `PUT` meets: the status that the admin authentication would refuse it with, whether each read of the journal
works, and how the write ends. -/
structure PutIo where
  unauthorized : Option Nat := none
  authRead : Bool := true
  discardRead : Bool := true
  keepRead : Bool := true
  io : Io := .done
  deriving DecidableEq

/-- The worker as the request has it. -/
def WorkerUpdate.apply (request : WorkerUpdate) (w : Worker) : Worker :=
  { w with
    model := (request.model.map normalizeModel).getD w.model
    capabilities := request.capabilities.getD w.capabilities
    disabled := request.disabled.getD w.disabled
    state :=
      match request.isDead with
      | some true => .dead
      | some false => if w.state = .dead then .unknown else w.state
      | none => w.state }

namespace App

/-- What `_apply_worker_update` checks before the journal is touched. -/
def checkWorkerUpdate (app : App) (d : Disk) (url : String) (request : WorkerUpdate) (env : PutIo) :
    Except Nat Worker :=
  match app.findWorker url with
  | none => .error 404
  | some w =>
    let needsAuth := request.disabled = some false ∧ app.adminKey ∧ app.journal.names d env.authRead url
    match env.unauthorized, decide needsAuth with
    | some status, true => .error status
    | _, _ => if request.capabilities = some [] then .error 400 else .ok w

/-- The owner of the uploaded voices must remain able to own them. -/
def ownerRefuses (mode : Mode) (app : App) (w : Worker) (request : WorkerUpdate) : Bool :=
  (app.ensureOwner mode).1.any (fun owner => owner.url = w.url) &&
    !canOwnUploadedVoices (request.capabilities.getD w.capabilities)

/-- Enabling a worker takes its entry out of the journal. -/
def dropEntry (app : App) (d : Disk) (url : String) (request : WorkerUpdate) (env : PutIo) : Disk × Bool :=
  if request.disabled = some false then app.journal.discard d env.discardRead env.keepRead env.io url else (d, true)

/-- `_apply_worker_update`. The entry of the journal goes before the voice owner is asked for. -/
def applyWorkerUpdate (mode : Mode) (app : App) (d : Disk) (url : String) (request : WorkerUpdate) (env : PutIo) :
    Disk × App × Response :=
  match app.checkWorkerUpdate d url request env with
  | .error status => (d, app, .error status)
  | .ok w =>
    let discarded := app.dropEntry d url request env
    if discarded.2 = false then (discarded.1, app, .error 503)
    else if app.ownerRefuses mode w request then (discarded.1, (app.ensureOwner mode).2, .error 409)
    else
      let app' := (app.ensureOwner mode).2
      let workers := app'.workers.map fun other => if other.url = url then request.apply other else other
      (discarded.1, { app' with workers }, .ok)

end App

/-! ### The node -/

/-- The process, if it runs, and what outlives it. -/
structure Node where
  app : Option App := none
  disk : Disk := {}
  file : Option (List SnapshotWorker) := none
  /-- History: the targets of every update that was sent and did not end with success from all of them, until an
  operator says that their weights were verified. -/
  uncertain : List String := []

inductive Node.Event where
  /-- The journal may be out of reach: its directory cannot be used, or it cannot be read. -/
  | start (configs : List WorkerConfig) (voiceOwner : Option String) (adminKey usable readable : Bool)
  /-- The process or the host dies; the journal is then one of what a crash may leave. -/
  | crash (left : Option JournalDocument)
  /-- A new run of the router has a new working directory. -/
  | newWorkdir
  | publish (written : Bool)
  /-- A health result or a failure report. -/
  | observe (url : String) (state : WorkerState)
  /-- Routing a voice asks for the owner. -/
  | assignOwner
  | create (config : WorkerConfig) (probed : WorkerState) (readable : Bool)
  /-- The process may die once the journal was written. -/
  | put (url : String) (request : WorkerUpdate) (env : PutIo) (dies : Bool)
  | delete (url : String)
  | resolve (acknowledged authorized : Bool) (io : Io)
  | begin (path : String) (readable : Bool) (io : Io)
  | announce (written : Bool)
  | acknowledged
  /-- None if the update was cancelled or raised, else the success of each target; nobody's if nothing was sent. -/
  | finish (results : Option (List Bool)) (keepRead : Bool) (io : Io)

/-- What `results` may be. -/
def Update.allows (u : Update) : Option (List Bool) → Bool
  | none => u.phase ≠ .begun
  | some results =>
    match u.phase with
    | .begun => false
    | .announced => results.isEmpty
    | .sent => results.length = u.targets.length

/-- `outcome_safe`. -/
def outcomeSafe : Option (List Bool) → Bool
  | none => false
  | some results => results.all id

namespace Node

/-- The targets of the update whose request is on its way. -/
def started (σ : Node) : List String :=
  match σ.app.bind App.update with
  | some u => if u.phase = .sent then u.targets else []
  | none => []

/-- The registry, when no update has the lock. -/
def unlocked (σ : Node) : Option App := σ.app.filter fun app => app.update.isNone

/-- The lock is taken, and nothing is pending: the targets are journaled, then disabled. -/
def beginUpdate (σ : Node) (app : App) (path : String) (readable : Bool) (io : Io) : Node :=
  let targets := app.targetWorkers.map Worker.url
  if app.journal.hasPending σ.disk readable then σ
  else if targets.isEmpty then σ
  else if path = "/init_weights_update_group" ∧ 1 < targets.length then σ
  else
    let begun := app.journal.begin σ.disk io path targets
    if begun.2 then
      let previous := app.targetWorkers.map fun w => (w.url, w.disabled)
      { σ with
        disk := begun.1
        app := some { app with workers := disable targets app.workers, update := some ⟨targets, previous, .begun⟩ } }
    else { σ with disk := begun.1 }

/-- The `finally` of `_broadcast_admin_request_locked`; the lock is released. -/
def finishUpdate (σ : Node) (app : App) (u : Update) (results : Option (List Bool)) (keepRead : Bool) (io : Io) :
    Node :=
  let safe := outcomeSafe results
  let written := if safe then app.journal.clear σ.disk io else app.journal.keep σ.disk keepRead io u.targets
  { σ with
    disk := written.1
    app := some { app.restoreAdminDisabledState u safe with update := none }
    uncertain := if u.phase = .sent ∧ safe = false then u.targets ++ σ.uncertain else σ.uncertain }

def step (mode : Mode) (σ : Node) : Event → Node
  | .start configs voiceOwner adminKey usable readable =>
    match σ.app with
    | some _ => σ
    | none =>
      if validConfig configs voiceOwner then
        let journal := if usable then Journal.update else .unavailable
        let workers := recoverWorkerPool (journal.pending σ.disk readable) (restoreWorkers σ.file configs)
        { σ with app := some { workers, journal, adminKey, voiceOwner } }
      else σ
  | .crash left =>
    if left ∈ σ.disk.possible then
      { σ with app := none, disk := ⟨left, [left]⟩, uncertain := σ.started ++ σ.uncertain }
    else σ
  | .newWorkdir =>
    match σ.app with
    | some _ => σ
    | none => { σ with file := none }
  | .publish written =>
    match mode, σ.app with
    | .controlPlane, some app => if written then { σ with file := some (snapshotWorkers app.workers) } else σ
    | _, _ => σ
  | .observe url state =>
    match σ.app with
    | some app =>
      let workers := app.workers.map fun w => if w.url = url then { w with state } else w
      { σ with app := some { app with workers } }
    | none => σ
  | .assignOwner =>
    match σ.app with
    | some app => { σ with app := some (app.ensureOwner mode).2 }
    | none => σ
  | .create config probed readable =>
    match σ.unlocked with
    | some app =>
      if config.capabilities = [] ∨ app.workers.any (fun w => w.url = config.url) then σ
      else
        let worker : Worker :=
          { url := config.url, model := normalizeModel config.model, capabilities := config.capabilities,
            state := probed
            disabled := app.journal.names σ.disk readable config.url }
        { σ with app := some { app with workers := app.workers ++ [worker] } }
    | none => σ
  | .put url request env dies =>
    match σ.unlocked with
    | some app =>
      if request = {} then σ
      else
        let (disk, app', response) := app.applyWorkerUpdate mode σ.disk url request env
        let released := response = .ok ∧ request.disabled = some false
        { σ with
          disk
          app := if dies then none else some app'
          uncertain := if released then σ.uncertain.filter (· ≠ url) else σ.uncertain }
    | none => σ
  | .delete url =>
    match σ.unlocked with
    | some app =>
      if app.findWorker url = none then σ
      else
        let (owner, app') := app.ensureOwner mode
        if owner.any (fun w => w.url = url) then { σ with app := some app' }
        else { σ with app := some { app' with workers := app'.workers.filter fun w => w.url ≠ url } }
    | none => σ
  | .resolve acknowledged authorized io =>
    match σ.unlocked with
    | some app =>
      if acknowledged ∧ (app.adminKey → authorized) then
        let cleared := app.journal.clear σ.disk io
        { σ with disk := cleared.1, uncertain := if cleared.2 then [] else σ.uncertain }
      else σ
    | none => σ
  | .begin path readable io =>
    match σ.unlocked with
    | some app => σ.beginUpdate app path readable io
    | none => σ
  | .announce written =>
    match σ.app with
    | some app =>
      match app.update with
      | some u =>
        if u.phase = .begun then
          match mode, written with
          | .single, _ => { σ with app := some { app with update := some { u with phase := .announced } } }
          | .controlPlane, true =>
            { σ with
              file := some (snapshotWorkers app.workers)
              app := some { app with update := some { u with phase := .announced } } }
          -- The snapshot could not be written: the update ends here, with its targets disabled and journaled.
          | .controlPlane, false => { σ with app := some { app with update := none } }
        else σ
      | none => σ
    | none => σ
  | .acknowledged =>
    match σ.app with
    | some app =>
      match app.update with
      | some u =>
        if u.phase = .announced then { σ with app := some { app with update := some { u with phase := .sent } } } else σ
      | none => σ
    | none => σ
  | .finish results keepRead io =>
    match σ.app with
    | some app =>
      match app.update with
      | some u => if u.allows results then σ.finishUpdate app u results keepRead io else σ
      | none => σ
    | none => σ

end Node

end SglangOmni.Router
