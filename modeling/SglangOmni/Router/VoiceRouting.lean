import SglangOmni.Lib.History
import SglangOmni.Router.Snapshot
import Mathlib.Data.List.DropRight

/-! Where uploaded voices are routed.

One worker owns the uploaded voices. The router knows their names from a list that it fetches, in a task of its own,
whenever it has reason to doubt what it knows; while it doubts, it sends every request that names a voice to the owner.
Uploads and deletions go through the router too, and a fetch that overlaps one of them is thrown away. -/
namespace SglangOmni.Router.Voices
open Lib

/-! ### Names -/

/-- `str.lower`: of it, only that no text becomes empty matters here. -/
structure Casing where
  lower : String → String
  ne_empty : ∀ s, s ≠ "" → lower s ≠ ""

/-- `str.isspace`, for one character. -/
def isSpace (c : Char) : Bool :=
  let n := c.toNat
  (9 ≤ n && n ≤ 13) || (28 ≤ n && n ≤ 32) || n = 0x85 || n = 0xA0 || n = 0x1680 || (0x2000 ≤ n && n ≤ 0x200A) ||
    n = 0x2028 || n = 0x2029 || n = 0x202F || n = 0x205F || n = 0x3000

/-- `str.strip`. -/
def strip (s : String) : String := String.ofList ((s.toList.dropWhile isSpace).rdropWhile isSpace)

def defaultVoiceName : String := "default"

variable (casing : Casing)

/-- `_normalize_voice_name`. -/
def normalizeVoiceName (value : String) : Option String :=
  let normalized := casing.lower (strip value)
  if normalized = "" then none else some normalized

theorem strip_strip (s : String) : strip (strip s) = strip s := by
  unfold strip
  rw [String.toList_ofList]
  have hdrop : ((s.toList.dropWhile isSpace).rdropWhile isSpace).dropWhile isSpace =
      (s.toList.dropWhile isSpace).rdropWhile isSpace := by
    rw [List.dropWhile_eq_self_iff]
    intro hlength
    have hprefix := List.rdropWhile_prefix isSpace (s.toList.dropWhile isSpace)
    have hhead := hprefix.getElem hlength
    have hrest : 0 < (s.toList.dropWhile isSpace).length := Nat.lt_of_lt_of_le hlength hprefix.length_le
    have hfirst := List.dropWhile_eq_self_iff.mp (List.dropWhile_idempotent isSpace s.toList) hrest
    rw [hhead]
    exact hfirst
  rw [hdrop, List.rdropWhile_idempotent]

/-! ### The owner -/

/-- `VOICE_NAME_PATTERN`. -/
def isVoiceName (value : String) : Bool :=
  value.toList.any (·.isAlphanum) && value.toList.all fun c => c.isAlphanum || c = '_' || c = '.' || c = '-'

/-- The voices that the owner stores: the name of each as it was given, under its normal form. -/
structure Registry where
  voices : Dict String String
  named : ∀ key display, voices.get? key = some display →
    normalizeVoiceName casing display = some key ∧ key ≠ defaultVoiceName

variable {casing}

theorem normalizeVoiceName_strip {name : String} (h : strip name ≠ "") :
    normalizeVoiceName casing (strip name) = some (casing.lower (strip name)) := by
  unfold normalizeVoiceName
  rw [strip_strip]
  exact if_neg (casing.ne_empty _ h)

namespace Registry

/-- `upload`, when it is not refused for another reason than the name. -/
def upload (r : Registry casing) (name : String) : Registry casing :=
  if h : strip name ≠ "" ∧ isVoiceName (strip name) = true ∧ casing.lower (strip name) ≠ defaultVoiceName then
    { voices := r.voices.set (casing.lower (strip name)) (strip name)
      named := fun key display hget => by
        rw [Dict.get?_set] at hget
        split at hget
        · next hkey =>
          cases hget
          exact ⟨hkey ▸ normalizeVoiceName_strip h.1, hkey ▸ h.2.2⟩
        · exact r.named key display hget }
  else r

/-- `delete`. -/
def delete (r : Registry casing) (name : String) : Registry casing :=
  { voices := r.voices.pop (casing.lower (strip name))
    named := fun key display hget => by
      rw [Dict.get?_pop] at hget
      split at hget
      · cases hget
      · exact r.named key display hget }

/-- `uploaded_voice_names`. -/
def uploadedVoiceNames (r : Registry casing) : List String := r.voices.entries.map Prod.snd

/-- The owner stores a voice. -/
def Stores (r : Registry casing) (name : String) : Prop :=
  ∃ key, normalizeVoiceName casing name = some key ∧ r.voices.contains key = true

end Registry

/-! ### The router's state -/

def voiceOwnerCapabilities : List Capability := [.speech, .audioInput]

/-- `can_own_uploaded_voices`. -/
def canOwnUploadedVoices (capabilities : List Capability) : Bool := voiceOwnerCapabilities.all (· ∈ capabilities)

structure VoiceRoutingState where
  workers : List Worker
  ownerUrl : Option String
  uploadedNames : List String := []
  isActive : Bool := false
  isHydrated : Bool := false
  isRegistryDirty : Bool := false
  isReconciling : Bool := false
  mutationsInflight : Nat := 0
  registryGeneration : Nat := 0
  refreshRequested : Bool := false

inductive VoiceMutation where
  | upload (name : String)
  | delete (name : String)
  deriving DecidableEq

namespace VoiceRoutingState

def owner (s : VoiceRoutingState) : Option Worker :=
  s.ownerUrl.bind fun url => s.workers.find? fun w => w.url = url

def ensureOwner (s : VoiceRoutingState) : VoiceRoutingState :=
  match s.ownerUrl with
  | some _ => s
  | none =>
    match s.workers.find? fun w => w.isRoutable && canOwnUploadedVoices w.capabilities with
    | some w => { s with ownerUrl := some w.url }
    | none => s

def requestRefresh (s : VoiceRoutingState) : VoiceRoutingState :=
  if s.isActive && !s.isReconciling then { s with refreshRequested := true } else s

def activate (s : VoiceRoutingState) : VoiceRoutingState :=
  if s.isActive then s else { s with isActive := true }.requestRefresh

def markUncertain (s : VoiceRoutingState) : VoiceRoutingState :=
  { s with isActive := true, isRegistryDirty := true, refreshRequested := true }

def beginMutation (s : VoiceRoutingState) : VoiceRoutingState :=
  { s with
    isActive := true, mutationsInflight := s.mutationsInflight + 1, registryGeneration := s.registryGeneration + 1 }

def markMutationDispatched (s : VoiceRoutingState) : VoiceRoutingState := { s with isRegistryDirty := true }

def endMutation (s : VoiceRoutingState) : VoiceRoutingState :=
  { s with
    mutationsInflight := s.mutationsInflight - 1
    refreshRequested := s.refreshRequested || s.mutationsInflight - 1 = 0 }

/-- `apply`. -/
def apply (s : VoiceRoutingState) : VoiceMutation → VoiceRoutingState
  | .upload name => { s with uploadedNames := s.uploadedNames.insert name }
  | .delete name => { s with uploadedNames := s.uploadedNames.filter (· ≠ name) }

/-- `requires_owner`: the answer, and the state after. -/
def requiresOwner (casing : Casing) (s : VoiceRoutingState) (voiceNames : List String)
    (isBodyOverMetadataLimit : Bool) :
    Bool × VoiceRoutingState :=
  let s := s.ensureOwner
  if s.owner.isNone then (false, s)
  else if isBodyOverMetadataLimit then (true, s)
  else
    let names := (voiceNames.filterMap (normalizeVoiceName casing)).filter (· ≠ defaultVoiceName)
    if names = [] then (false, s)
    else
      let s := s.activate
      if !s.isHydrated || s.isRegistryDirty || 0 < s.mutationsInflight then (true, s.requestRefresh)
      else (names.any (· ∈ s.uploadedNames), s)

end VoiceRoutingState

/-! ### The router, its requests and the owner -/

/-- Where the task of `_run_reconciliation` is. -/
inductive Task where
  | waiting
  /-- In `_fetch_uploaded_voice_names`: the generation at its start, and the list that the owner has answered with. -/
  | fetching (generation : Nat) (answer : Option (List String))
  /-- Waiting again, with a timer or after it has fired. -/
  | retrying (timer : Bool)

/-- Where a request is that changes the registry. -/
inductive Phase where
  | sent
  | reading
  | closing
  deriving DecidableEq

/-- A request that changes the registry, and whether it has done so. -/
structure Mutation where
  change : VoiceMutation
  phase : Phase := .sent
  effected : Bool := false
  deriving DecidableEq

structure System (casing : Casing) where
  routing : VoiceRoutingState
  registry : Registry casing
  task : Task := .waiting
  mutations : List Mutation := []

inductive Event where
  | setWorkers (workers : List Worker)
  | requestRefresh
  | ensureOwner
  /-- A speech request. -/
  | speech (voiceNames : List String) (isBodyOverMetadataLimit : Bool)
  /-- A request about voices that changes nothing. -/
  | voiceControl
  | mutate (change : VoiceMutation) (required : List Capability) (model : Option String)
  | takeEffect (k : Nat)
  /-- `httpx.PoolTimeout`: the request was never sent. -/
  | poolTimeout (k : Nat)
  | sendFailed (k : Nat)
  | responded (k : Nat)
  /-- The body is there: whether the status is a success, and the name that it has. -/
  | bodyRead (k : Nat) (isSuccess : Bool) (name : Option String)
  | readFailed (k : Nat)
  | close (k : Nat)
  | wake
  | answer
  | fetched
  | fetchFailed
  | timer

namespace System

/-- The registry is asked to change. -/
def effect (r : Registry casing) : VoiceMutation → Registry casing
  | .upload name => r.upload name
  | .delete name => r.delete name

/-- `_uploaded_voice_names`. -/
def namesOf (casing : Casing) (names : List String) : Option (List String) :=
  names.mapM (normalizeVoiceName casing)

/-- `_committed_voice_mutation`. -/
def committedVoiceMutation (casing : Casing) (change : VoiceMutation) (name : Option String) : Option VoiceMutation :=
  match change with
  | .delete deleted => (normalizeVoiceName casing deleted).map .delete
  | .upload _ => (name.bind (normalizeVoiceName casing)).map .upload

/-- `_voice_mutation_request`: a deletion of no name is not taken for one. -/
def isMutation (casing : Casing) : VoiceMutation → Bool
  | .upload _ => true
  | .delete name => (normalizeVoiceName casing name).isSome

/-- `_reconcile_once`, up to the fetch. -/
def reconcile (s : System casing) : System casing :=
  let routing := { s.routing with refreshRequested := false }
  if 0 < routing.mutationsInflight then { s with routing, task := .waiting }
  else if routing.owner.any (·.isRoutable) then
    { s with
      routing := { routing with isReconciling := true }
      task := .fetching routing.registryGeneration none }
  else if !routing.isHydrated || routing.isRegistryDirty then { s with routing, task := .retrying true }
  else { s with routing, task := .waiting }

/-- The rest of `_reconcile_once`, with what was fetched. -/
def finishFetch (s : System casing) (generation : Nat) (names : Option (List String)) : System casing :=
  let routing := { s.routing with isReconciling := false }
  match names with
  | none => { s with routing, task := .retrying true }
  | some names =>
    if routing.registryGeneration ≠ generation ∨ 0 < routing.mutationsInflight then
      { s with routing, task := .retrying true }
    else
      { s with
        routing := { routing with uploadedNames := names, isHydrated := true, isRegistryDirty := false }
        task := .waiting }

/-- A request that changes the registry is sent to the owner, if it may be. -/
def mutate (s : System casing) (change : VoiceMutation) (required : List Capability) (model : Option String) :
    System casing :=
  let routing := s.routing.beginMutation.activate.ensureOwner
  if eligibleWorkers routing.owner.toList required model = [] then { s with routing := routing.endMutation }
  else { s with routing, mutations := s.mutations ++ [{ change }] }

def step (s : System casing) : Event → System casing
  | .setWorkers workers => { s with routing := { s.routing with workers } }
  | .requestRefresh => { s with routing := s.routing.requestRefresh }
  | .ensureOwner => { s with routing := s.routing.ensureOwner }
  | .speech voiceNames isBodyOverMetadataLimit =>
    { s with routing := (s.routing.requiresOwner casing voiceNames isBodyOverMetadataLimit).2 }
  | .voiceControl => { s with routing := s.routing.activate.ensureOwner }
  | .mutate change required model =>
    if isMutation casing change then s.mutate change required model
    else { s with routing := s.routing.activate.ensureOwner }
  | .takeEffect k =>
    match s.mutations[k]? with
    | some m =>
      if m.phase ≠ .closing ∧ m.effected = false then
        { s with registry := effect s.registry m.change, mutations := s.mutations.set k { m with effected := true } }
      else s
    | none => s
  | .poolTimeout k =>
    match s.mutations[k]? with
    | some m =>
      if m.phase = .sent ∧ m.effected = false then
        { s with routing := s.routing.endMutation, mutations := s.mutations.eraseIdx k }
      else s
    | none => s
  | .sendFailed k =>
    match s.mutations[k]? with
    | some m =>
      if m.phase = .sent then
        { s with routing := s.routing.markUncertain.endMutation, mutations := s.mutations.eraseIdx k }
      else s
    | none => s
  | .responded k =>
    match s.mutations[k]? with
    | some m =>
      if m.phase = .sent then
        { s with
          routing := s.routing.markMutationDispatched, mutations := s.mutations.set k { m with phase := .reading } }
      else s
    | none => s
  | .bodyRead k isSuccess name =>
    match s.mutations[k]? with
    | some m =>
      if m.phase = .reading then
        let routing :=
          if isSuccess then
            match committedVoiceMutation casing m.change name with
            | some mutation => s.routing.apply mutation
            | none => s.routing.markUncertain
          else s.routing
        { s with routing, mutations := s.mutations.set k { m with phase := .closing } }
      else s
    | none => s
  | .readFailed k =>
    match s.mutations[k]? with
    | some m =>
      if m.phase = .reading then
        { s with routing := s.routing.markUncertain, mutations := s.mutations.set k { m with phase := .closing } }
      else s
    | none => s
  | .close k =>
    match s.mutations[k]? with
    | some m =>
      if m.phase ≠ .sent then { s with routing := s.routing.endMutation, mutations := s.mutations.eraseIdx k } else s
    | none => s
  | .wake =>
    match s.task with
    | .fetching _ _ => s
    | _ => if s.routing.refreshRequested then s.reconcile else s
  | .answer =>
    match s.task with
    | .fetching generation _ => { s with task := .fetching generation (some s.registry.uploadedVoiceNames) }
    | _ => s
  | .fetched =>
    match s.task with
    | .fetching generation (some names) => s.finishFetch generation (namesOf casing names)
    | _ => s
  | .fetchFailed =>
    match s.task with
    | .fetching generation _ => s.finishFetch generation none
    | _ => s
  | .timer =>
    match s.task with
    | .retrying true => { s with routing := { s.routing with refreshRequested := true }, task := .retrying false }
    | _ => s

end System

/-! ### What the router knows -/

/-- A step of the router that leaves what it knows of the registry as it is, and forgets no refresh. -/
structure Quiet (a b : VoiceRoutingState) : Prop where
  names : b.uploadedNames = a.uploadedNames
  hydrated : b.isHydrated = a.isHydrated
  dirty : b.isRegistryDirty = a.isRegistryDirty
  reconciling : b.isReconciling = a.isReconciling
  inflight : b.mutationsInflight = a.mutationsInflight
  generation : b.registryGeneration = a.registryGeneration
  requested : a.refreshRequested = true → b.refreshRequested = true
  active : b.isActive = true → a.isActive = true ∨ b.refreshRequested = true ∨ a.isReconciling = true

namespace Quiet

variable {a b c : VoiceRoutingState}

theorem refl (a : VoiceRoutingState) : Quiet a a := ⟨rfl, rfl, rfl, rfl, rfl, rfl, id, .inl⟩

theorem trans (h : Quiet a b) (h' : Quiet b c) : Quiet a c where
  names := h'.names.trans h.names
  hydrated := h'.hydrated.trans h.hydrated
  dirty := h'.dirty.trans h.dirty
  reconciling := h'.reconciling.trans h.reconciling
  inflight := h'.inflight.trans h.inflight
  generation := h'.generation.trans h.generation
  requested hr := h'.requested (h.requested hr)
  active hactive := by
    cases h'.active hactive with
    | inl hb =>
      cases h.active hb with
      | inl ha => exact .inl ha
      | inr hrest =>
        cases hrest with
        | inl hrequested => exact .inr (.inl (h'.requested hrequested))
        | inr hreconciling => exact .inr (.inr hreconciling)
    | inr hrest =>
      cases hrest with
      | inl hrequested => exact .inr (.inl hrequested)
      | inr hreconciling => exact .inr (.inr (h.reconciling ▸ hreconciling))

theorem requestRefresh (a : VoiceRoutingState) : Quiet a a.requestRefresh := by
  unfold VoiceRoutingState.requestRefresh
  split
  · exact ⟨rfl, rfl, rfl, rfl, rfl, rfl, fun _ => rfl, fun _ => .inr (.inl rfl)⟩
  · exact refl a

theorem activate (a : VoiceRoutingState) : Quiet a a.activate := by
  unfold VoiceRoutingState.activate
  split
  · exact refl a
  · unfold VoiceRoutingState.requestRefresh
    cases hreconciling : a.isReconciling with
    | true => exact ⟨rfl, rfl, rfl, hreconciling.symm, rfl, rfl, id, fun _ => .inr (.inr hreconciling)⟩
    | false => exact ⟨rfl, rfl, rfl, hreconciling.symm, rfl, rfl, fun _ => rfl, fun _ => .inr (.inl rfl)⟩

theorem ensureOwner (a : VoiceRoutingState) : Quiet a a.ensureOwner := by
  unfold VoiceRoutingState.ensureOwner
  split
  · exact refl a
  · split
    · exact ⟨rfl, rfl, rfl, rfl, rfl, rfl, id, .inl⟩
    · exact refl a

theorem requiresOwner (casing : Casing) (a : VoiceRoutingState) (names : List String) (overLimit : Bool) :
    Quiet a (a.requiresOwner casing names overLimit).2 := by
  have howner := ensureOwner a
  unfold VoiceRoutingState.requiresOwner
  simp only
  split
  · exact howner
  · split
    · exact howner
    · split
      · exact howner
      · split
        · exact (howner.trans (activate _)).trans (requestRefresh _)
        · exact howner.trans (activate _)

end Quiet

/-- What the router has that every voice of the owner is in. -/
def Covers (names : List String) (r : Registry casing) : Prop := ∀ key, r.voices.contains key = true → key ∈ names

theorem mem_of_mapM {f : String → Option String} {names result : List String} (h : names.mapM f = some result)
    {name key : String} (hname : name ∈ names) (hkey : f name = some key) : key ∈ result := by
  induction names generalizing result with
  | nil => cases hname
  | cons x rest ih =>
    rw [List.mapM_cons] at h
    obtain ⟨y, hy, h⟩ := Option.bind_eq_some_iff.mp h
    obtain ⟨ys, hys, h⟩ := Option.bind_eq_some_iff.mp h
    cases h
    cases List.mem_cons.mp hname with
    | inl heq =>
      rw [heq, hy] at hkey
      cases hkey
      exact List.mem_cons_self
    | inr hmem => exact List.mem_cons_of_mem y (ih hys hmem)

/-- The list that the owner answers with names all its voices. -/
theorem covers_namesOf {r : Registry casing} {names : List String}
    (h : System.namesOf casing r.uploadedVoiceNames = some names) : Covers names r := by
  intro key hkey
  obtain ⟨display, hdisplay⟩ := (Dict.contains_iff _ _).mp hkey
  have hmem : display ∈ r.uploadedVoiceNames := List.mem_map_of_mem ((Dict.mem_entries _ _ _).mpr hdisplay)
  exact mem_of_mapM h hmem (r.named key display hdisplay).1

theorem mem_eraseIdx_of_ne {α : Type} {l : List α} {k : Nat} {x y : α} (hk : l[k]? = some x) (hy : y ∈ l)
    (hne : y ≠ x) : y ∈ l.eraseIdx k := by
  obtain ⟨i, hi⟩ := List.mem_iff_getElem?.mp hy
  have hik : i ≠ k := fun heq => hne (Option.some.inj (hi.symm.trans (heq ▸ hk)))
  refine List.mem_eraseIdx_iff_getElem?.mpr ⟨i, hik, hi⟩

namespace System

variable {s : System casing} {routing : VoiceRoutingState} {m : Mutation}

/-- The router has a list that it does not doubt. -/
def Trusts (s : System casing) : Prop := s.routing.isHydrated = true ∧ s.routing.isRegistryDirty = false

/-- What the reconciliation task owes. -/
def TaskFits (s : System casing) : Prop :=
  match s.task with
  | .waiting =>
    s.routing.isReconciling = false ∧ (s.routing.isActive = true → ¬ s.Trusts →
      0 < s.routing.mutationsInflight ∨ s.routing.refreshRequested = true)
  | .fetching generation answer =>
    s.routing.isReconciling = true ∧ generation ≤ s.routing.registryGeneration ∧
      (s.routing.registryGeneration = generation →
        s.mutations = [] ∧ ∀ names, answer = some names → names = s.registry.uploadedVoiceNames)
  | .retrying timer => s.routing.isReconciling = false ∧ (timer = true ∨ s.routing.refreshRequested = true)

structure Inv (s : System casing) : Prop where
  inflight : s.routing.mutationsInflight = s.mutations.length
  sent : s.Trusts → ∀ m ∈ s.mutations, m.phase = .sent
  covers : s.Trusts → (∀ m ∈ s.mutations, m.effected = false) → Covers s.routing.uploadedNames s.registry
  task : s.TaskFits

theorem Inv.quiet (h : Inv s) (quiet : Quiet s.routing routing) :
    Inv { s with routing := routing } := by
  have htrusts : Trusts { s with routing := routing } ↔ s.Trusts := by
    unfold Trusts
    rw [quiet.hydrated, quiet.dirty]
  refine ⟨quiet.inflight.trans h.inflight, fun ht => h.sent (htrusts.mp ht), fun ht heffected => ?_, ?_⟩
  · simp only [quiet.names]
    exact h.covers (htrusts.mp ht) heffected
  · have htask := h.task
    unfold TaskFits at htask ⊢
    cases hs : s.task with
    | waiting =>
      simp only [hs] at htask ⊢
      refine ⟨quiet.reconciling.trans htask.1, fun hactive hnot => ?_⟩
      rw [quiet.inflight]
      have hdoubt : ¬ s.Trusts := fun ht => hnot (htrusts.mpr ht)
      cases quiet.active hactive with
      | inl hbefore =>
        cases htask.2 hbefore hdoubt with
        | inl hinflight => exact .inl hinflight
        | inr hrequested => exact .inr (quiet.requested hrequested)
      | inr hrest =>
        cases hrest with
        | inl hrequested => exact .inr hrequested
        | inr hreconciling => exact absurd (htask.1.symm.trans hreconciling) (by simp)
    | fetching generation answer =>
      simp only [hs] at htask ⊢
      rw [quiet.reconciling, quiet.generation]
      exact htask
    | retrying timer =>
      simp only [hs] at htask ⊢
      rw [quiet.reconciling]
      exact ⟨htask.1, htask.2.imp id quiet.requested⟩

/-- A step of a request that changes the registry: the router asks for a refresh when the last of them is over, and an
overlapping fetch will not count. -/
theorem TaskFits.mutating {s' : System casing} (h : s.TaskFits) (task : s'.task = s.task)
    (reconciling : s'.routing.isReconciling = s.routing.isReconciling)
    (generation : s.routing.registryGeneration ≤ s'.routing.registryGeneration)
    (overlap : s.routing.registryGeneration < s'.routing.registryGeneration ∨ s.mutations ≠ [])
    (requested : s.routing.refreshRequested = true → s'.routing.refreshRequested = true)
    (owed : s'.routing.isReconciling = false → 0 < s'.routing.mutationsInflight ∨ s'.routing.refreshRequested = true) :
    s'.TaskFits := by
  unfold TaskFits at h ⊢
  rw [task]
  cases hs : s.task with
  | waiting =>
    simp only [hs] at h ⊢
    have hidle : s'.routing.isReconciling = false := reconciling.trans h.1
    exact ⟨hidle, fun _ _ => owed hidle⟩
  | fetching g answer =>
    simp only [hs] at h ⊢
    refine ⟨reconciling.trans h.1, Nat.le_trans h.2.1 generation, fun hsame => ?_⟩
    cases overlap with
    | inl hnewer => omega
    | inr hmutations =>
      have hbefore : s.routing.registryGeneration = g := Nat.le_antisymm (hsame ▸ generation) h.2.1
      exact absurd (h.2.2 hbefore).1 hmutations
  | retrying timer =>
    simp only [hs] at h ⊢
    exact ⟨reconciling.trans h.1, h.2.imp id requested⟩

theorem ne_nil_of_getElem? {k : Nat} (h : s.mutations[k]? = some m) : s.mutations ≠ [] :=
  List.ne_nil_of_mem (List.mem_of_getElem? h)

theorem inv_mutate (h : Inv s) (change : VoiceMutation) (required : List Capability) (model : Option String) :
    Inv (s.mutate change required model) := by
  have hquiet : Quiet s.routing.beginMutation s.routing.beginMutation.activate.ensureOwner :=
    (Quiet.activate _).trans (Quiet.ensureOwner _)
  generalize hrouting : s.routing.beginMutation.activate.ensureOwner = routing at hquiet
  have hinflight : routing.mutationsInflight = s.mutations.length + 1 := by
    rw [hquiet.inflight, ← h.inflight]
    rfl
  have hgeneration : routing.registryGeneration = s.routing.registryGeneration + 1 := hquiet.generation
  have hreconciling : routing.isReconciling = s.routing.isReconciling := hquiet.reconciling
  have hhydrated : routing.isHydrated = s.routing.isHydrated := hquiet.hydrated
  have hdirty : routing.isRegistryDirty = s.routing.isRegistryDirty := hquiet.dirty
  have hnames : routing.uploadedNames = s.routing.uploadedNames := hquiet.names
  have hrequested : s.routing.refreshRequested = true → routing.refreshRequested = true := hquiet.requested
  unfold mutate
  simp only [hrouting]
  split
  · refine ⟨?_, fun ht => ?_, fun ht heffected => ?_, ?_⟩
    · simp only [VoiceRoutingState.endMutation, hinflight, Nat.add_sub_cancel]
    · exact h.sent ⟨hhydrated ▸ ht.1, hdirty ▸ ht.2⟩
    · simp only [VoiceRoutingState.endMutation, hnames]
      exact h.covers ⟨hhydrated ▸ ht.1, hdirty ▸ ht.2⟩ heffected
    · refine h.task.mutating rfl hreconciling ?_ (.inl ?_) (fun hr => ?_) (fun _ => ?_)
      · simp only [VoiceRoutingState.endMutation, hgeneration]
        omega
      · simp only [VoiceRoutingState.endMutation, hgeneration]
        omega
      · simp [VoiceRoutingState.endMutation, hrequested hr]
      · simp only [VoiceRoutingState.endMutation, hinflight, Nat.add_sub_cancel]
        by_cases hzero : s.mutations.length = 0
        · exact .inr (by simp [hzero])
        · exact .inl (Nat.pos_of_ne_zero hzero)
  · refine ⟨?_, fun ht m hm => ?_, fun ht heffected => ?_, ?_⟩
    · rw [hinflight, List.length_append]
      rfl
    · cases List.mem_append.mp hm with
      | inl hold => exact h.sent ⟨hhydrated ▸ ht.1, hdirty ▸ ht.2⟩ m hold
      | inr hnew => rw [List.mem_singleton.mp hnew]
    · simp only [hnames]
      exact h.covers ⟨hhydrated ▸ ht.1, hdirty ▸ ht.2⟩ fun m hm => heffected m (List.mem_append_left _ hm)
    · refine h.task.mutating rfl hreconciling ?_ (.inl ?_) hrequested (fun _ => .inl ?_)
      · rw [hgeneration]
        exact Nat.le_succ _
      · rw [hgeneration]
        exact Nat.lt_succ_self _
      · rw [hinflight]
        exact Nat.succ_pos _

theorem inv_takeEffect (h : Inv s) (k : Nat) : Inv (s.step (.takeEffect k)) := by
  simp only [step]
  split
  · next m hm =>
    split
    · next hphase =>
      have hmem : ({ m with effected := true } : Mutation) ∈ s.mutations.set k { m with effected := true } :=
        List.mem_set (List.getElem?_eq_some_iff.mp hm).1 _
      refine ⟨?_, fun ht m' hm' => ?_, fun ht heffected => ?_, ?_⟩
      · rw [List.length_set]
        exact h.inflight
      · cases List.mem_or_eq_of_mem_set hm' with
        | inl hold => exact h.sent ht m' hold
        | inr hnew => exact hnew ▸ h.sent ht m (List.mem_of_getElem? hm)
      · exact absurd (heffected _ hmem) (by simp)
      · refine h.task.mutating rfl rfl (Nat.le_refl _) (.inr (ne_nil_of_getElem? hm)) id fun _ => .inl ?_
        have hpos := List.length_pos_of_ne_nil (ne_nil_of_getElem? hm)
        exact h.inflight ▸ hpos
    · exact h
  · exact h

/-- A request that has reached the owner, or has come to its end, leaves the list in doubt. -/
theorem inv_doubt (h : Inv s) {k : Nat} {m' : Mutation} (hm : s.mutations[k]? = some m)
    (doubt : ¬ (routing.isHydrated = true ∧ routing.isRegistryDirty = false))
    (inflight : routing.mutationsInflight = s.routing.mutationsInflight)
    (reconciling : routing.isReconciling = s.routing.isReconciling)
    (generation : routing.registryGeneration = s.routing.registryGeneration)
    (requested : s.routing.refreshRequested = true → routing.refreshRequested = true) :
    Inv { s with routing := routing, mutations := s.mutations.set k m' } := by
  refine ⟨?_, fun ht => absurd ht doubt, fun ht => absurd ht doubt, ?_⟩
  · rw [inflight, List.length_set]
    exact h.inflight
  · refine h.task.mutating rfl reconciling (Nat.le_of_eq generation.symm) (.inr (ne_nil_of_getElem? hm)) requested
      fun _ => .inl ?_
    have hpos := List.length_pos_of_ne_nil (ne_nil_of_getElem? hm)
    rw [inflight, h.inflight]
    exact hpos

/-- A request is over. -/
theorem inv_end (h : Inv s) {k : Nat} (hm : s.mutations[k]? = some m)
    (trusts : routing.isHydrated = true ∧ routing.isRegistryDirty = false →
      s.Trusts ∧ m.effected = false ∧ routing.uploadedNames = s.routing.uploadedNames)
    (inflight : routing.mutationsInflight = s.routing.mutationsInflight)
    (reconciling : routing.isReconciling = s.routing.isReconciling)
    (generation : routing.registryGeneration = s.routing.registryGeneration)
    (requested : s.routing.refreshRequested = true → routing.refreshRequested = true) :
    Inv { s with routing := routing.endMutation, mutations := s.mutations.eraseIdx k } := by
  have hlt : k < s.mutations.length := (List.getElem?_eq_some_iff.mp hm).1
  refine ⟨?_, fun ht m' hm' => ?_, fun ht heffected => ?_, ?_⟩
  · simp only [VoiceRoutingState.endMutation, inflight, h.inflight, List.length_eraseIdx_of_lt hlt]
  · exact h.sent (trusts ht).1 m' (List.mem_of_mem_eraseIdx hm')
  · obtain ⟨htrusts, hunaffected, hnames⟩ := trusts ht
    simp only [VoiceRoutingState.endMutation, hnames]
    refine h.covers htrusts fun m' hm' => ?_
    by_cases heq : m' = m
    · exact heq ▸ hunaffected
    · exact heffected m' (mem_eraseIdx_of_ne hm hm' heq)
  · refine h.task.mutating rfl reconciling (Nat.le_of_eq generation.symm) (.inr (ne_nil_of_getElem? hm))
      (fun hr => by simp [VoiceRoutingState.endMutation, requested hr]) fun _ => ?_
    simp only [VoiceRoutingState.endMutation]
    by_cases hzero : routing.mutationsInflight - 1 = 0
    · exact .inr (by simp [hzero])
    · exact .inl (Nat.pos_of_ne_zero hzero)

/-- A request that is past its sending has left the list in doubt. -/
theorem Inv.doubted (h : Inv s) {k : Nat} (hm : s.mutations[k]? = some m) (hphase : m.phase ≠ .sent) :
    ¬ (s.routing.isHydrated = true ∧ s.routing.isRegistryDirty = false) :=
  fun ht => hphase (h.sent ht m (List.mem_of_getElem? hm))

theorem inv_bodyRead (h : Inv s) (k : Nat) (isSuccess : Bool) (name : Option String) :
    Inv (s.step (.bodyRead k isSuccess name)) := by
  simp only [step]
  split
  · next m hm =>
    split
    · next hphase =>
      have hdoubt := h.doubted hm (by rw [hphase]; exact Phase.noConfusion)
      cases isSuccess with
      | false => exact inv_doubt h hm hdoubt rfl rfl rfl id
      | true =>
        simp only [if_true]
        cases committedVoiceMutation casing m.change name with
        | none => exact inv_doubt h hm (fun ht => Bool.noConfusion ht.2) rfl rfl rfl (fun _ => rfl)
        | some mutation =>
          cases mutation with
          | upload uploaded | delete deleted => exact inv_doubt h hm hdoubt rfl rfl rfl id
    · exact h
  · exact h

theorem inv_reconcile (h : Inv s) (idle : s.routing.isReconciling = false) : Inv s.reconcile := by
  unfold reconcile
  simp only
  split
  · next hinflight => exact ⟨h.inflight, h.sent, h.covers, idle, fun _ _ => .inl hinflight⟩
  · next hnone =>
    have hmutations : s.mutations = [] := by
      have hlength := h.inflight
      exact List.length_eq_zero_iff.mp (by omega)
    split
    · exact ⟨h.inflight, h.sent, h.covers, rfl, Nat.le_refl _, fun _ => ⟨hmutations, fun _ hanswer => nomatch hanswer⟩⟩
    · split
      · exact ⟨h.inflight, h.sent, h.covers, idle, .inl rfl⟩
      · next hclean =>
        refine ⟨h.inflight, h.sent, h.covers, idle, fun _ hdoubt => absurd ?_ hdoubt⟩
        simpa [Trusts, and_comm] using hclean

theorem inv_finishFetch (h : Inv s) {generation : Nat} {answer : Option (List String)}
    (task : s.task = .fetching generation answer) {names : Option (List String)}
    (fetched : ∀ result, names = some result → ∃ list, answer = some list ∧ namesOf casing list = some result) :
    Inv (s.finishFetch generation names) := by
  have htask := h.task
  simp only [TaskFits, task] at htask
  unfold finishFetch
  simp only
  split
  · exact ⟨h.inflight, h.sent, h.covers, rfl, .inl rfl⟩
  · next result =>
    split
    · exact ⟨h.inflight, h.sent, h.covers, rfl, .inl rfl⟩
    · next hsame =>
      rw [not_or, Decidable.not_not] at hsame
      obtain ⟨hmutations, hanswer⟩ := htask.2.2 hsame.1
      obtain ⟨list, hlist, hresult⟩ := fetched result rfl
      rw [hanswer list hlist] at hresult
      refine ⟨h.inflight, fun _ m hm => ?_, fun _ _ => covers_namesOf hresult, rfl,
        fun _ hdoubt => absurd ⟨rfl, rfl⟩ hdoubt⟩
      rw [hmutations] at hm
      cases hm

theorem inv_wake (h : Inv s) : Inv (s.step .wake) := by
  have htask := h.task
  simp only [step]
  split
  · exact h
  · next hother =>
    split
    · refine inv_reconcile h ?_
      cases hs : s.task with
      | waiting =>
        simp only [TaskFits, hs] at htask
        exact htask.1
      | fetching generation answer => exact absurd hs (hother generation answer)
      | retrying timer =>
        simp only [TaskFits, hs] at htask
        exact htask.1
    · exact h

theorem inv_step (h : Inv s) (e : Event) : Inv (s.step e) := by
  cases e with
  | setWorkers workers => exact h.quiet ⟨rfl, rfl, rfl, rfl, rfl, rfl, id, .inl⟩
  | requestRefresh => exact h.quiet (Quiet.requestRefresh _)
  | ensureOwner => exact h.quiet (Quiet.ensureOwner _)
  | speech voiceNames overLimit => exact h.quiet (Quiet.requiresOwner casing _ voiceNames overLimit)
  | voiceControl => exact h.quiet ((Quiet.activate _).trans (Quiet.ensureOwner _))
  | mutate change required model =>
    simp only [step]
    split
    · exact inv_mutate h change required model
    · exact h.quiet ((Quiet.activate _).trans (Quiet.ensureOwner _))
  | takeEffect k => exact inv_takeEffect h k
  | poolTimeout k =>
    simp only [step]
    split
    · next m hm =>
      split
      · next hsent => exact inv_end h hm (fun ht => ⟨ht, hsent.2, rfl⟩) rfl rfl rfl id
      · exact h
    · exact h
  | sendFailed k =>
    simp only [step]
    split
    · next m hm =>
      split
      · exact inv_end h hm (fun ht => Bool.noConfusion ht.2) rfl rfl rfl (fun _ => rfl)
      · exact h
    · exact h
  | responded k =>
    simp only [step]
    split
    · next m hm =>
      split
      · exact inv_doubt h hm (fun ht => Bool.noConfusion ht.2) rfl rfl rfl id
      · exact h
    · exact h
  | bodyRead k isSuccess name => exact inv_bodyRead h k isSuccess name
  | readFailed k =>
    simp only [step]
    split
    · next m hm =>
      split
      · exact inv_doubt h hm (fun ht => Bool.noConfusion ht.2) rfl rfl rfl (fun _ => rfl)
      · exact h
    · exact h
  | close k =>
    simp only [step]
    split
    · next m hm =>
      split
      · next hphase => exact inv_end h hm (fun ht => absurd ht (h.doubted hm hphase)) rfl rfl rfl id
      · exact h
    · exact h
  | wake => exact inv_wake h
  | answer =>
    have htask := h.task
    simp only [step]
    split
    · next generation answer hs =>
      simp only [TaskFits, hs] at htask
      refine ⟨h.inflight, h.sent, h.covers, htask.1, htask.2.1,
        fun hsame => ⟨(htask.2.2 hsame).1, fun names hnames => ?_⟩⟩
      exact (Option.some.inj hnames).symm
    · exact h
  | fetched =>
    simp only [step]
    split
    · next generation names hs => exact inv_finishFetch h hs fun result hresult => ⟨names, rfl, hresult⟩
    · exact h
  | fetchFailed =>
    simp only [step]
    split
    · next generation answer hs => exact inv_finishFetch h hs fun result hresult => nomatch hresult
    · exact h
  | timer =>
    have htask := h.task
    simp only [step]
    split
    · next hs =>
      simp only [TaskFits, hs] at htask
      exact ⟨h.inflight, h.sent, h.covers, htask.1, .inr rfl⟩
    · exact h

/-- The router when it starts: it knows nothing of the voices that the owner may have. -/
def start (workers : List Worker) (ownerUrl : Option String) (registry : Registry casing) : System casing :=
  { routing := { workers, ownerUrl }, registry }

theorem inv_start (workers : List Worker) (ownerUrl : Option String) (registry : Registry casing) :
    Inv (start workers ownerUrl registry) :=
  ⟨rfl, (fun ht => Bool.noConfusion ht.1), (fun ht => Bool.noConfusion ht.1), rfl,
    fun hactive => Bool.noConfusion hactive⟩

/-- A list that is not in doubt names what the owner stores. -/
theorem Inv.requires (h : Inv s) {names : List String} {v : String} (overLimit : Bool)
    (owner : s.routing.owner.isSome = true) (stored : s.registry.Stores v) (mem : v ∈ names) :
    (s.routing.requiresOwner casing names overLimit).1 = true := by
  obtain ⟨key, hkey, hcontains⟩ := stored
  have hensured : s.routing.ensureOwner = s.routing := by
    unfold VoiceRoutingState.ensureOwner
    cases hurl : s.routing.ownerUrl with
    | some url => rfl
    | none => simp [VoiceRoutingState.owner, hurl] at owner
  have hquiet := Quiet.activate s.routing
  obtain ⟨display, hdisplay⟩ := (Dict.contains_iff _ _).mp hcontains
  have hname : key ∈ (names.filterMap (normalizeVoiceName casing)).filter (· ≠ defaultVoiceName) := by
    refine List.mem_filter.mpr ⟨List.mem_filterMap.mpr ⟨v, mem, hkey⟩, ?_⟩
    exact decide_eq_true (s.registry.named key display hdisplay).2
  have hsome : s.routing.owner.isNone = false := by simpa using owner
  unfold VoiceRoutingState.requiresOwner
  simp only [hensured, hsome, Bool.false_eq_true, if_false]
  split
  · rfl
  · rw [if_neg (List.ne_nil_of_mem hname)]
    split
    · rfl
    · next htrusted =>
      simp only [Bool.or_eq_true, Bool.not_eq_true', decide_eq_true_eq, not_or, Bool.not_eq_false] at htrusted
      rw [hquiet.hydrated, hquiet.dirty, hquiet.inflight, h.inflight, Bool.not_eq_true] at htrusted
      have hnone : s.mutations = [] := List.length_eq_zero_iff.mp (Nat.eq_zero_of_not_pos htrusted.2)
      have hcovers := h.covers ⟨htrusted.1.1, htrusted.1.2⟩ (fun m hm => by rw [hnone] at hm; cases hm)
      refine List.any_eq_true.mpr ⟨key, hname, decide_eq_true ?_⟩
      rw [hquiet.names]
      exact hcovers key hcontains

/-- **Uploaded voices are routed to their owner, and no refresh is lost.** In every state that a run reaches: while an
owner is assigned, a request that names a voice which the owner stores requires the owner; and a router that uses the
registry without a list that it trusts has a change or a fetch in progress, a refresh requested or a timer set, or no
owner. -/
theorem voices_reach_owner (workers : List Worker) (ownerUrl : Option String) (registry : Registry casing)
    (events : List Event) :
    (∀ names v overLimit, (run step (start workers ownerUrl registry) events).routing.owner.isSome = true →
      (run step (start workers ownerUrl registry) events).registry.Stores v → v ∈ names →
      ((run step (start workers ownerUrl registry) events).routing.requiresOwner casing names overLimit).1 = true) ∧
    ((run step (start workers ownerUrl registry) events).routing.isActive = true →
      ((run step (start workers ownerUrl registry) events).routing.isHydrated = false ∨
        (run step (start workers ownerUrl registry) events).routing.isRegistryDirty = true) →
      0 < (run step (start workers ownerUrl registry) events).routing.mutationsInflight ∨
      (run step (start workers ownerUrl registry) events).routing.isReconciling = true ∨
      (run step (start workers ownerUrl registry) events).routing.refreshRequested = true ∨
      (run step (start workers ownerUrl registry) events).task = .retrying true ∨
      (run step (start workers ownerUrl registry) events).routing.owner = none) := by
  have h : Inv (run step (start workers ownerUrl registry) events) :=
    run_invariant (inv_start workers ownerUrl registry) (fun _ e h => inv_step h e) events
  generalize run step (start workers ownerUrl registry) events = s at h
  refine ⟨fun names v overLimit howner hstored hmem => h.requires overLimit howner hstored hmem,
    fun hactive hdoubt => ?_⟩
  have htask := h.task
  unfold TaskFits at htask
  cases hs : s.task with
  | waiting =>
    simp only [hs] at htask
    have hnot : ¬ s.Trusts := fun ht => by
      cases hdoubt with
      | inl hhydrated => exact absurd (ht.1.symm.trans hhydrated) (by simp)
      | inr hdirty => exact absurd (ht.2.symm.trans hdirty) (by simp)
    cases htask.2 hactive hnot with
    | inl hinflight => exact .inl hinflight
    | inr hrequested => exact .inr (.inr (.inl hrequested))
  | fetching generation answer =>
    simp only [hs] at htask
    exact .inr (.inl htask.1)
  | retrying timer =>
    simp only [hs] at htask
    cases htask.2 with
    | inl htimer => exact .inr (.inr (.inr (.inl (by rw [htimer]))))
    | inr hrequested => exact .inr (.inr (.inl hrequested))

end System

end SglangOmni.Router.Voices
