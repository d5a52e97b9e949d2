import SglangOmni.Lib.Dict

/-! The snapshot of the workers: how the control plane hands its registry to the data planes.

The control plane writes the whole registry to one file, numbered within its own epoch; a data plane reads the file
when it likes, keeps the newest snapshot it saw, and routes by the workers that the snapshot lists. -/
namespace SglangOmni.Router
open Lib

/-! ### Workers -/

inductive WorkerState where
  | dead
  | healthy
  | unknown
  | unhealthy
  deriving DecidableEq

inductive Capability where
  | chat
  | speech
  | streaming
  | imageInput
  | audioInput
  | videoInput
  | audioOutput
  deriving DecidableEq

def defaultCapabilities : List Capability :=
  [.chat, .speech, .streaming, .imageInput, .audioInput, .videoInput, .audioOutput]

/-- A worker, as far as it is dumped and routed by. Its id is the quoted URL. -/
structure Worker where
  url : String
  incarnation : String := ""
  model : Option String := none
  capabilities : List Capability := defaultCapabilities
  state : WorkerState := .unknown
  disabled : Bool := false
  deriving DecidableEq

def Worker.isRoutable (w : Worker) : Bool := w.state = .healthy && !w.disabled

/-- `eligible_workers`. -/
def eligibleWorkers (workers : List Worker) (required : List Capability) (requestedModel : Option String) :
    List Worker :=
  let candidates := workers.filter fun w => w.isRoutable && required.all (· ∈ w.capabilities)
  match requestedModel with
  | none => candidates
  | some model =>
    if candidates.any (fun w => w.model.any (· ≠ "")) then candidates.filter (fun w => w.model = some model)
    else candidates

/-- Only routable workers are eligible. -/
theorem mem_eligibleWorkers {workers : List Worker} {required : List Capability} {requestedModel : Option String}
    {w : Worker} (h : w ∈ eligibleWorkers workers required requestedModel) : w ∈ workers ∧ w.disabled = false := by
  have hcandidate : w ∈ workers.filter (fun w => w.isRoutable && required.all (· ∈ w.capabilities)) := by
    unfold eligibleWorkers at h
    simp only at h
    split at h
    · exact h
    · split at h
      · exact List.mem_of_mem_filter h
      · exact h
  obtain ⟨hmem, hroutable⟩ := List.mem_filter.mp hcandidate
  simp only [Worker.isRoutable, Bool.and_eq_true, Bool.not_eq_true'] at hroutable
  exact ⟨hmem, hroutable.1.2⟩

/-! ### Snapshots -/

/-- What tells one control plane from another: drawn anew for each. -/
abbrev Epoch := Nat

/-- An entry of a snapshot. No entry has an empty list of capabilities in a file that the control plane wrote; a reader
takes the defaults for it. -/
structure SnapshotWorker where
  url : String
  incarnation : String := ""
  model : Option String := none
  capabilities : List Capability := []
  state : WorkerState := .healthy
  disabled : Bool := false
  deriving DecidableEq

structure Snapshot where
  seq : Nat
  epoch : Epoch
  workers : List SnapshotWorker
  deriving DecidableEq

/-- `snapshot_workers`. -/
def snapshotWorkers (workers : List Worker) : List SnapshotWorker :=
  workers.map fun w => ⟨w.url, w.incarnation, w.model, w.capabilities, w.state, w.disabled⟩

/-- `SnapshotReader.maybe_reload`, once the file could be read: what the reader has afterwards, and whether it is
new. -/
def maybeReload (current : Option Snapshot) (file : Snapshot) : Option Snapshot × Bool :=
  match current with
  | some have_ =>
    if file.epoch = have_.epoch ∧ file.seq ≤ have_.seq then (current, false) else (some file, true)
  | none => (some file, true)

/-! ### The view of a data plane -/

structure DataPlaneWorkerView where
  workers : Dict String Worker := ∅
  lastAppliedSeq : Nat := 0
  /-- Blank until a snapshot was applied. -/
  lastAppliedEpoch : Option Epoch := none

/-- One entry of a snapshot. A new incarnation gets a fresh worker where a known one is updated; what the two differ in
(the counters of the data plane) is left out. -/
def applyEntry (workers : Dict String Worker) (entry : SnapshotWorker) : Dict String Worker :=
  workers.set entry.url
    { url := entry.url
      incarnation :=
        if entry.incarnation = "" then ((workers.get? entry.url).map Worker.incarnation).getD "" else entry.incarnation
      model := entry.model
      capabilities := if entry.capabilities = [] then defaultCapabilities else entry.capabilities
      state := entry.state
      disabled := entry.disabled }

/-- `DataPlaneWorkerView.apply`. -/
def DataPlaneWorkerView.apply (view : DataPlaneWorkerView) (snapshot : Snapshot) : DataPlaneWorkerView :=
  let updated := snapshot.workers.foldl applyEntry view.workers
  let gone := updated.keys.filter fun url => snapshot.workers.all fun e => e.url ≠ url
  { workers := gone.foldl Dict.pop updated
    lastAppliedSeq := snapshot.seq
    lastAppliedEpoch := some snapshot.epoch }

/-- `workers()`. -/
def DataPlaneWorkerView.list (view : DataPlaneWorkerView) : List Worker := view.workers.entries.map Prod.snd

/-- The view is what the snapshot says: every worker is listed, and is disabled if its entry is. -/
structure Shows (view : DataPlaneWorkerView) (snapshot : Snapshot) : Prop where
  epoch : view.lastAppliedEpoch = some snapshot.epoch
  seq : view.lastAppliedSeq = snapshot.seq
  listed : ∀ url w, view.workers.get? url = some w → w.url = url ∧
    ∃ e ∈ snapshot.workers, e.url = url ∧ w.disabled = e.disabled ∧ w.state = e.state

/-- The keys of a view are the URLs of its workers. -/
def KeyedByUrl (workers : Dict String Worker) : Prop := ∀ url w, workers.get? url = some w → w.url = url

variable {workers : Dict String Worker} {view : DataPlaneWorkerView}

theorem get?_applyEntry_ne {entry : SnapshotWorker} {url : String} (h : url ≠ entry.url) :
    (applyEntry workers entry).get? url = workers.get? url :=
  Dict.get?_set_ne _ _ h

/-- The entry's own worker takes its flags. -/
theorem applyEntry_self (workers : Dict String Worker) (entry : SnapshotWorker) :
    ∃ w, (applyEntry workers entry).get? entry.url = some w ∧ w.url = entry.url ∧ w.disabled = entry.disabled ∧
      w.state = entry.state :=
  ⟨_, Dict.get?_set_self _ _ _, rfl, rfl, rfl⟩

theorem KeyedByUrl.applyEntry (keyed : KeyedByUrl workers) (entry : SnapshotWorker) :
    KeyedByUrl (applyEntry workers entry) := by
  intro url w h
  by_cases hurl : url = entry.url
  · obtain ⟨w', hw', hself, _⟩ := applyEntry_self workers entry
    rw [hurl, hw'] at h
    cases h
    rw [hself, hurl]
  · rw [get?_applyEntry_ne hurl] at h
    exact keyed url w h

/-- What the entries leave: a worker that is not listed is as it was, and one that is listed has the flags of an entry
of its. -/
theorem foldl_applyEntry (entries : List SnapshotWorker) (keyed : KeyedByUrl workers) :
    KeyedByUrl (entries.foldl applyEntry workers) ∧
      ∀ url w, (entries.foldl applyEntry workers).get? url = some w → (∀ e ∈ entries, e.url ≠ url) ∨
        ∃ e ∈ entries, e.url = url ∧ w.disabled = e.disabled ∧ w.state = e.state := by
  induction entries generalizing workers with
  | nil => exact ⟨keyed, fun _ _ _ => .inl fun _ he => absurd he List.not_mem_nil⟩
  | cons entry rest ih =>
    obtain ⟨hkeyed, hrest⟩ := ih (keyed.applyEntry entry)
    refine ⟨hkeyed, fun url w h => ?_⟩
    cases hrest url w h with
    | inr hlisted =>
      obtain ⟨e, he, hflags⟩ := hlisted
      exact .inr ⟨e, List.mem_cons_of_mem entry he, hflags⟩
    | inl hnone =>
      by_cases hurl : entry.url = url
      · -- No later entry is of this URL, so that the worker is as this one left it.
        have hget : ((rest.foldl applyEntry (applyEntry workers entry)).get? url) =
            (applyEntry workers entry).get? url := by
          apply Dict.get?_foldl_of_none
          exact fun e he d => get?_applyEntry_ne (Ne.symm (hnone e he))
        obtain ⟨w', hw', _, hflags⟩ := applyEntry_self workers entry
        rw [List.foldl_cons, hget, ← hurl, hw'] at h
        cases h
        exact .inr ⟨entry, List.mem_cons_self, hurl, hflags⟩
      · refine .inl fun e he => ?_
        cases List.mem_cons.mp he with
        | inl heq => exact heq ▸ hurl
        | inr hmem => exact hnone e hmem

/-- **A view that applied a snapshot shows it.** -/
theorem shows_apply (keyed : KeyedByUrl view.workers) (snapshot : Snapshot) :
    Shows (view.apply snapshot) snapshot := by
  obtain ⟨hkeyed, hflags⟩ := foldl_applyEntry snapshot.workers keyed
  refine ⟨rfl, rfl, fun url w h => ?_⟩
  simp only [DataPlaneWorkerView.apply, Dict.get?_foldl_pop] at h
  split at h
  · cases h
  · next hgone =>
    refine ⟨hkeyed url w h, ?_⟩
    cases hflags url w h with
    | inr hlisted => exact hlisted
    | inl hnone =>
      refine absurd (List.mem_filter.mpr ⟨?_, ?_⟩) hgone
      · exact (Dict.mem_keys _ url).mpr ⟨w, h⟩
      · simpa using hnone

theorem Shows.keyed {snapshot : Snapshot} (h : Shows view snapshot) :
    KeyedByUrl view.workers := fun url w hw => (h.listed url w hw).1

/-- The snapshot has the worker disabled, if it lists it. -/
def DisabledIn (url : String) (snapshot : Snapshot) : Prop := ∀ e ∈ snapshot.workers, e.url = url → e.disabled = true

/-- Nobody routes to a worker that the shown snapshot has disabled. -/
theorem Shows.not_eligible {snapshot : Snapshot} (h : Shows view snapshot) {url : String}
    (disabled : DisabledIn url snapshot) {required : List Capability} {requestedModel : Option String} {w : Worker}
    (eligible : w ∈ eligibleWorkers view.list required requestedModel) : w.url ≠ url := by
  obtain ⟨hmem, henabled⟩ := mem_eligibleWorkers eligible
  obtain ⟨⟨key, _⟩, hentry, rfl⟩ := List.mem_map.mp hmem
  obtain ⟨hkey, e, he, heurl, hflag, _⟩ := h.listed key _ ((Dict.mem_entries _ _ _).mp hentry)
  intro hurl
  rw [disabled e he (heurl.trans (hkey.symm.trans hurl))] at hflag
  rw [hflag] at henabled
  cases henabled

end SglangOmni.Router
