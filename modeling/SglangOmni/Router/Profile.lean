import Mathlib.Data.Finset.Basic
import SglangOmni.Lib.Raising

/-! The profiles of the workers, and the cohorts whose members are alike.

A profile row lists what a worker takes, dimension by dimension. Rows and lists are compared by their lengths and by
containment in one direction; that is equality of sets because the validation of the workers leaves no duplicates, in a
list or among the rows of a worker. Parsing a base URL is a parameter. -/
namespace SglangOmni.Router.Profile
open Lib

inductive MessageContentForm where
  | string
  | typedParts
  deriving DecidableEq

inductive MediaPlacement where
  | topLevel
  | typedParts
  deriving DecidableEq

inductive ChatAudioFormat where
  | wav
  | mp3
  | flac
  | pcm
  | aac
  | opus
  deriving DecidableEq

inductive InputModality where
  | text
  | image
  | audio
  | video
  deriving DecidableEq

inductive OutputModality where
  | text
  | audio
  deriving DecidableEq

inductive StreamMode where
  | nonStreaming
  | streaming
  deriving DecidableEq

/-- `ServiceProfile::GenerationHttp`, the only kind. -/
structure ServiceProfile where
  modelIds : List String
  messageContentForms : List MessageContentForm
  mediaPlacements : List MediaPlacement
  inputModalities : List InputModality
  outputModalities : List OutputModality
  chatAudioFormats : List ChatAudioFormat
  streamModes : List StreamMode
  deriving DecidableEq

structure WorkerConfig where
  workerId : String
  baseUrl : String
  trustDomain : String
  defaultModelId : String
  healthPath : String := "/health"
  serviceProfiles : List ServiceProfile

/-- `ConfigError::InvalidField`. -/
structure ConfigError where
  field : String
  reason : String
  deriving DecidableEq

def maxWorkers : Nat := 256

def maxProfilesPerWorker : Nat := 64

def maxSetItems : Nat := 64

def maxIdBytes : Nat := 128

def maxModelIdBytes : Nat := 256

def maxBaseUrlBytes : Nat := 2048

def maxHealthPathBytes : Nat := 128

/-- An early return with `ConfigError::invalid`. -/
def reject (bad : Bool) (field reason : String) : Except ConfigError Unit :=
  if bad then .error ⟨field, reason⟩ else .ok ()

/-- `char::is_control`. -/
def isControl (c : Char) : Bool := c.toNat < 0x20 || (0x7f ≤ c.toNat && c.toNat < 0xa0)

def isIdentifierByte (c : Char) : Bool := c.isAlphanum || c = '-' || c = '_' || c = '.'

/-- `validate_identifier`. -/
def validateIdentifier (value field : String) : Except ConfigError Unit :=
  reject (value = "" || maxIdBytes < value.utf8ByteSize || ! value.toList.all isIdentifierByte) field
    "must be 1 to 128 ASCII identifier bytes"

/-- `valid_model_id`. -/
def validModelId (value : String) : Bool :=
  value ≠ "" && value.utf8ByteSize ≤ maxModelIdBytes && ! value.toList.any isControl

/-- `unique.len() != values.len()`. -/
def hasDuplicates {α : Type} [DecidableEq α] (values : List α) : Bool := values.dedup.length ≠ values.length

/-- `validate_models`. -/
def validateModels (values : List String) : Except ConfigError Unit := do
  reject (values.isEmpty || maxSetItems < values.length || values.any (! validModelId ·))
    "workers.service_profiles.model_ids" "must contain 1 to 64 unique model IDs"
  reject (hasDuplicates values) "workers.service_profiles.model_ids" "must not contain duplicates"

/-- `validate_set`. -/
def validateSet {α : Type} [DecidableEq α] (values : List α) (field : String) (allowEmpty : Bool) :
    Except ConfigError Unit := do
  reject (maxSetItems < values.length || (! allowEmpty && values.isEmpty)) field "has an invalid item count"
  reject (hasDuplicates values) field "must not contain duplicates"

/-- `set_eq`. -/
def setEq {α : Type} [DecidableEq α] (left right : List α) : Bool :=
  left.length = right.length && left.all (right.contains ·)

namespace ServiceProfile

/-- `ServiceProfile::validate`. -/
def validate (p : ServiceProfile) : Except ConfigError Unit := do
  validateModels p.modelIds
  validateSet p.messageContentForms "workers.service_profiles.message_content_forms" false
  validateSet p.mediaPlacements "workers.service_profiles.media_placements" true
  validateSet p.inputModalities "workers.service_profiles.input_modalities" false
  validateSet p.outputModalities "workers.service_profiles.output_modalities" false
  validateSet p.chatAudioFormats "workers.service_profiles.chat_audio_formats" true
  validateSet p.streamModes "workers.service_profiles.stream_modes" false
  reject (p.outputModalities.contains .audio ≠ ! p.chatAudioFormats.isEmpty)
    "workers.service_profiles.chat_audio_formats" "must be nonempty exactly when audio output is supported"

/-- `semantically_eq`. -/
def semanticallyEq (a b : ServiceProfile) : Bool :=
  setEq a.modelIds b.modelIds && setEq a.messageContentForms b.messageContentForms &&
    setEq a.mediaPlacements b.mediaPlacements && setEq a.inputModalities b.inputModalities &&
    setEq a.outputModalities b.outputModalities && setEq a.chatAudioFormats b.chatAudioFormats &&
    setEq a.streamModes b.streamModes

/-- `contains_model`. -/
def containsModel (p : ServiceProfile) (model : String) : Bool := p.modelIds.contains model

end ServiceProfile

/-- The loop over the rows of a worker, with the rows before. -/
def validateRows (earlier : List ServiceProfile) : List ServiceProfile → Except ConfigError Unit
  | [] => .ok ()
  | profile :: rest => do
    profile.validate
    reject (earlier.any profile.semanticallyEq) "workers.service_profiles" "contains a duplicate correlated row"
    validateRows (earlier ++ [profile]) rest

/-- The loop of `validate_workers`, with the ids and the targets before. `target` is the base URL of
`ResolvedTarget::from_worker`. -/
def validateEach (target : WorkerConfig → Option String) (ids targets : List String) :
    List WorkerConfig → Except ConfigError Unit
  | [] => .ok ()
  | worker :: rest => do
    validateIdentifier worker.workerId "workers.worker_id"
    reject (ids.contains worker.workerId) "workers.worker_id" "must be unique"
    validateIdentifier worker.trustDomain "workers.trust_domain"
    reject (! validModelId worker.defaultModelId) "workers.default_model_id" "must be 1 to 256 bytes"
    reject (worker.baseUrl = "" || maxBaseUrlBytes < worker.baseUrl.utf8ByteSize) "workers.base_url"
      "must contain between 1 and 2048 bytes"
    reject (worker.healthPath = "" || maxHealthPathBytes < worker.healthPath.utf8ByteSize ||
        worker.healthPath.toList.head? ≠ some '/' || worker.healthPath.toList.contains '?' ||
        worker.healthPath.toList.contains '#')
      "workers.health_path" "must be an absolute path without query or fragment"
    match target worker with
    | none => .error ⟨"workers.base_url", "must be a canonical HTTP or HTTPS origin"⟩
    | some url =>
      reject (targets.contains url) "workers.base_url" "worker origins must be unique"
      reject (worker.serviceProfiles.isEmpty || maxProfilesPerWorker < worker.serviceProfiles.length)
        "workers.service_profiles" "must contain between 1 and 64 rows"
      validateRows [] worker.serviceProfiles
      reject (! worker.serviceProfiles.any (·.containsModel worker.defaultModelId)) "workers.default_model_id"
        "must belong to a generation profile row"
      validateEach target (worker.workerId :: ids) (url :: targets) rest

/-- `validate_workers`. -/
def validateWorkers (target : WorkerConfig → Option String)
    (workers : List WorkerConfig) : Except ConfigError Unit := do
  reject (workers.isEmpty || maxWorkers < workers.length) "workers" "must contain between 1 and 256 workers"
  validateEach target [] [] workers

/-- `generation_rows_equal`. -/
def generationRowsEqual (left right : List ServiceProfile) : Bool :=
  left.length = right.length && left.all fun profile => right.any profile.semanticallyEq

/-- `generation_cohort_is_homogeneous`. -/
def generationCohortIsHomogeneous : List WorkerConfig → Bool
  | [] => false
  | first :: members => members.all fun candidate =>
    candidate.defaultModelId = first.defaultModelId &&
      generationRowsEqual candidate.serviceProfiles first.serviceProfiles

/-- The members of a trust domain. -/
def membersOf (workers : List WorkerConfig) (domain : String) : List WorkerConfig :=
  workers.filter (·.trustDomain = domain)

/-- `build_content_blind_generation_cohorts`, with the domains that are cohorts. -/
def buildContentBlindGenerationCohorts (records : List WorkerConfig) : List String :=
  records.foldl (fun result record =>
    if result.contains record.trustDomain then result
    else if generationCohortIsHomogeneous (membersOf records record.trustDomain) then result ++ [record.trustDomain]
    else result) []

/-! ### Rows as tuples of sets -/

/-- What a row says: a set for each of its dimensions. -/
structure RowSets where
  modelIds : Finset String
  messageContentForms : Finset MessageContentForm
  mediaPlacements : Finset MediaPlacement
  inputModalities : Finset InputModality
  outputModalities : Finset OutputModality
  chatAudioFormats : Finset ChatAudioFormat
  streamModes : Finset StreamMode
  deriving DecidableEq

def ServiceProfile.sets (p : ServiceProfile) : RowSets where
  modelIds := p.modelIds.toFinset
  messageContentForms := p.messageContentForms.toFinset
  mediaPlacements := p.mediaPlacements.toFinset
  inputModalities := p.inputModalities.toFinset
  outputModalities := p.outputModalities.toFinset
  chatAudioFormats := p.chatAudioFormats.toFinset
  streamModes := p.streamModes.toFinset

/-- The set of the rows of a worker. -/
def WorkerConfig.rows (w : WorkerConfig) : Finset RowSets := (w.serviceProfiles.map ServiceProfile.sets).toFinset

/-- No list of the row has duplicates. -/
structure Proper (p : ServiceProfile) : Prop where
  modelIds : p.modelIds.Nodup
  messageContentForms : p.messageContentForms.Nodup
  mediaPlacements : p.mediaPlacements.Nodup
  inputModalities : p.inputModalities.Nodup
  outputModalities : p.outputModalities.Nodup
  chatAudioFormats : p.chatAudioFormats.Nodup
  streamModes : p.streamModes.Nodup

/-- There are no duplicates in the rows of a worker, nor among them. -/
structure Distinct (w : WorkerConfig) : Prop where
  proper : ∀ p ∈ w.serviceProfiles, Proper p
  rows : (w.serviceProfiles.map ServiceProfile.sets).Nodup

/-! ### Lists without duplicates -/

section
variable {α : Type} [DecidableEq α]

/-- Equal lengths and containment in one direction are enough for lists without duplicates. -/
theorem contained_iff {a b : List α} (ha : a.Nodup) (hb : b.Nodup) :
    (a.length = b.length ∧ ∀ x ∈ a, x ∈ b) ↔ a.toFinset = b.toFinset := by
  rw [List.toFinset_eq_iff_perm_dedup, ha.dedup, hb.dedup]
  constructor
  · intro ⟨hlength, hsub⟩
    exact (List.subperm_of_subset ha hsub).perm_of_length_le (Nat.le_of_eq hlength.symm)
  · intro hperm
    exact ⟨hperm.length_eq, fun x hx => hperm.mem_iff.mp hx⟩

theorem setEq_iff {a b : List α} (ha : a.Nodup) (hb : b.Nodup) : setEq a b = true ↔ a.toFinset = b.toFinset := by
  rw [← contained_iff ha hb]
  simp [setEq]

theorem hasDuplicates_iff {values : List α} : hasDuplicates values = false ↔ values.Nodup := by
  unfold hasDuplicates
  rw [decide_eq_false_iff_not, not_not]
  constructor
  · intro h
    rw [← (List.dedup_sublist values).eq_of_length h]
    exact List.nodup_dedup values
  · intro h
    rw [h.dedup]

end

/-! ### What validation rules out -/

theorem reject_ok {bad : Bool} {field reason : String} {u : Unit} : reject bad field reason = .ok u ↔ bad = false := by
  cases bad <;> simp [reject]

theorem validateModels_ok {values : List String} (h : validateModels values = .ok ()) : values.Nodup := by
  simp only [validateModels, bind_eq_ok, reject_ok] at h
  obtain ⟨_, _, hduplicates⟩ := h
  exact hasDuplicates_iff.mp hduplicates

theorem validateSet_ok {α : Type} [DecidableEq α] {values : List α} {field : String} {allowEmpty : Bool}
    (h : validateSet values field allowEmpty = .ok ()) : values.Nodup := by
  simp only [validateSet, bind_eq_ok, reject_ok] at h
  obtain ⟨_, _, hduplicates⟩ := h
  exact hasDuplicates_iff.mp hduplicates

variable {p : ServiceProfile}

theorem validate_ok (h : p.validate = .ok ()) : Proper p := by
  simp only [ServiceProfile.validate, bind_eq_ok] at h
  obtain ⟨_, hmodels, _, hforms, _, hplacements, _, hinputs, _, houtputs, _, haudio, _, hstreams, _⟩ := h
  exact {
    modelIds := validateModels_ok hmodels
    messageContentForms := validateSet_ok hforms
    mediaPlacements := validateSet_ok hplacements
    inputModalities := validateSet_ok hinputs
    outputModalities := validateSet_ok houtputs
    chatAudioFormats := validateSet_ok haudio
    streamModes := validateSet_ok hstreams
  }

/-- Rows without duplicates are semantically equal when they are the same tuple of sets. -/
theorem semanticallyEq_iff {a b : ServiceProfile} (ha : Proper a) (hb : Proper b) :
    a.semanticallyEq b = true ↔ a.sets = b.sets := by
  simp only [ServiceProfile.semanticallyEq, ServiceProfile.sets, Bool.and_eq_true, RowSets.mk.injEq, and_assoc,
    setEq_iff ha.modelIds hb.modelIds, setEq_iff ha.messageContentForms hb.messageContentForms,
    setEq_iff ha.mediaPlacements hb.mediaPlacements, setEq_iff ha.inputModalities hb.inputModalities,
    setEq_iff ha.outputModalities hb.outputModalities, setEq_iff ha.chatAudioFormats hb.chatAudioFormats,
    setEq_iff ha.streamModes hb.streamModes]

/-- The loop over the rows lets a row pass when it is proper and its sets are not those of a row before. -/
theorem validateRows_ok : ∀ {rows earlier : List ServiceProfile}, (∀ p ∈ earlier, Proper p) →
    validateRows earlier rows = .ok () →
    (∀ p ∈ rows, Proper p) ∧ (rows.map ServiceProfile.sets).Nodup ∧
      ∀ p ∈ rows, ∀ e ∈ earlier, p.sets ≠ e.sets := by
  intro rows
  induction rows with
  | nil => intro earlier _ _; simp
  | cons profile rest ih =>
    intro earlier hearlier h
    simp only [validateRows, bind_eq_ok, reject_ok] at h
    obtain ⟨_, hvalid, _, hfresh, hrest⟩ := h
    have hproper : Proper profile := validate_ok hvalid
    have hnew : ∀ e ∈ earlier, profile.sets ≠ e.sets := by
      intro e he hsame
      have hequal := (semanticallyEq_iff hproper (hearlier e he)).mpr hsame
      simp only [List.any_eq_false] at hfresh
      exact hfresh e he hequal
    have hbefore : ∀ p ∈ earlier ++ [profile], Proper p := by
      intro p hp
      cases List.mem_append.mp hp with
      | inl hp => exact hearlier p hp
      | inr hp => exact List.mem_singleton.mp hp ▸ hproper
    obtain ⟨hall, hnodup, hapart⟩ := ih hbefore hrest
    have hhead : ∀ p ∈ rest, p.sets ≠ profile.sets :=
      fun p hp => hapart p hp profile (List.mem_append_right _ (List.mem_singleton.mpr rfl))
    constructor
    · exact List.forall_mem_cons.mpr ⟨hproper, hall⟩
    constructor
    · rw [List.map_cons, List.nodup_cons]
      constructor
      · intro hmem
        obtain ⟨p, hp, hsame⟩ := List.mem_map.mp hmem
        exact hhead p hp hsame
      · exact hnodup
    · exact List.forall_mem_cons.mpr ⟨hnew, fun p hp e he => hapart p hp e (List.mem_append_left _ he)⟩

theorem validateEach_ok {target : WorkerConfig → Option String} {workers : List WorkerConfig} :
    ∀ {ids targets : List String}, validateEach target ids targets workers = .ok () → ∀ w ∈ workers, Distinct w := by
  induction workers with
  | nil => intro _ _ _ w hw; cases hw
  | cons worker rest ih =>
    intro ids targets h
    simp only [validateEach, bind_eq_ok] at h
    obtain ⟨_, _, _, _, _, _, _, _, _, _, _, _, h⟩ := h
    cases htarget : target worker with
    | none => rw [htarget] at h; cases h
    | some url =>
      rw [htarget] at h
      simp only [bind_eq_ok] at h
      obtain ⟨_, _, _, _, _, hrows, _, _, hrest⟩ := h
      obtain ⟨hproper, hnodup, _⟩ := validateRows_ok (List.forall_mem_nil _) hrows
      exact List.forall_mem_cons.mpr ⟨⟨hproper, hnodup⟩, ih hrest⟩

theorem validateWorkers_ok {target : WorkerConfig → Option String} {workers : List WorkerConfig}
    (h : validateWorkers target workers = .ok ()) : ∀ w ∈ workers, Distinct w := by
  simp only [validateWorkers, bind_eq_ok] at h
  obtain ⟨_, _, heach⟩ := h
  exact validateEach_ok heach

/-! ### The verdict on a cohort -/

variable {a b : WorkerConfig}

/-- Containment of rows and equal numbers of rows are equality of the sets of rows. -/
theorem generationRowsEqual_iff (ha : Distinct a) (hb : Distinct b) :
    generationRowsEqual a.serviceProfiles b.serviceProfiles = true ↔ a.rows = b.rows := by
  unfold WorkerConfig.rows
  rw [← contained_iff ha.rows hb.rows]
  simp only [generationRowsEqual, Bool.and_eq_true, decide_eq_true_eq, List.all_eq_true, List.any_eq_true,
    List.length_map, List.mem_map, forall_exists_index, and_imp, forall_apply_eq_imp_iff₂]
  apply and_congr_right
  intro _
  apply forall₂_congr
  intro p hp
  apply exists_congr
  intro q
  apply and_congr_right
  intro hq
  rw [semanticallyEq_iff (ha.proper p hp) (hb.proper q hq)]
  exact eq_comm

/-- The members agree on the default model and on the set of rows. -/
def Alike (members : List WorkerConfig) : Prop :=
  ∀ a ∈ members, ∀ b ∈ members, a.defaultModelId = b.defaultModelId ∧ a.rows = b.rows

/-- Comparison with the first member is comparison of all members with each other. -/
theorem homogeneous_iff {members : List WorkerConfig} (hd : ∀ w ∈ members, Distinct w) :
    generationCohortIsHomogeneous members = true ↔ members ≠ [] ∧ Alike members := by
  cases members with
  | nil => simp [generationCohortIsHomogeneous]
  | cons first members =>
    have hfirst : Distinct first := hd first List.mem_cons_self
    have hmembers : ∀ w ∈ members, Distinct w := fun w hw => hd w (List.mem_cons_of_mem _ hw)
    have hall : generationCohortIsHomogeneous (first :: members) = true ↔
        ∀ w ∈ members, w.defaultModelId = first.defaultModelId ∧ w.rows = first.rows := by
      simp only [generationCohortIsHomogeneous, List.all_eq_true, Bool.and_eq_true, decide_eq_true_eq]
      apply forall₂_congr
      intro w hw
      rw [generationRowsEqual_iff (hmembers w hw) hfirst]
    rw [hall]
    constructor
    · intro h
      have hsame : ∀ w ∈ first :: members, w.defaultModelId = first.defaultModelId ∧ w.rows = first.rows :=
        List.forall_mem_cons.mpr ⟨⟨rfl, rfl⟩, h⟩
      exact ⟨List.cons_ne_nil _ _, fun a ha b hb =>
        ⟨(hsame a ha).1.trans (hsame b hb).1.symm, (hsame a ha).2.trans (hsame b hb).2.symm⟩⟩
    · intro ⟨_, h⟩ w hw
      exact h w (List.mem_cons_of_mem _ hw) first List.mem_cons_self

/-! ### Reordering -/

/-- The items of the lists of a row in another order. -/
structure ServiceProfile.Reordered (p q : ServiceProfile) : Prop where
  modelIds : p.modelIds.Perm q.modelIds
  messageContentForms : p.messageContentForms.Perm q.messageContentForms
  mediaPlacements : p.mediaPlacements.Perm q.mediaPlacements
  inputModalities : p.inputModalities.Perm q.inputModalities
  outputModalities : p.outputModalities.Perm q.outputModalities
  chatAudioFormats : p.chatAudioFormats.Perm q.chatAudioFormats
  streamModes : p.streamModes.Perm q.streamModes

/-- The rows of a worker in another order, and the items in each. -/
structure WorkerConfig.Reordered (a b : WorkerConfig) : Prop where
  workerId : a.workerId = b.workerId
  baseUrl : a.baseUrl = b.baseUrl
  trustDomain : a.trustDomain = b.trustDomain
  defaultModelId : a.defaultModelId = b.defaultModelId
  healthPath : a.healthPath = b.healthPath
  serviceProfiles : ∃ rows, a.serviceProfiles.Perm rows ∧ rows.Forall₂ ServiceProfile.Reordered b.serviceProfiles

/-- The workers in another order, and the rows and the items in each. -/
def Reordered (workers workers' : List WorkerConfig) : Prop :=
  ∃ moved, workers.Perm moved ∧ moved.Forall₂ WorkerConfig.Reordered workers'

variable {q : ServiceProfile}

theorem ServiceProfile.Reordered.sets (h : p.Reordered q) : p.sets = q.sets := by
  unfold ServiceProfile.sets
  rw [List.toFinset_eq_of_perm _ _ h.modelIds, List.toFinset_eq_of_perm _ _ h.messageContentForms,
    List.toFinset_eq_of_perm _ _ h.mediaPlacements, List.toFinset_eq_of_perm _ _ h.inputModalities,
    List.toFinset_eq_of_perm _ _ h.outputModalities, List.toFinset_eq_of_perm _ _ h.chatAudioFormats,
    List.toFinset_eq_of_perm _ _ h.streamModes]

theorem ServiceProfile.Reordered.proper (h : p.Reordered q) (hp : Proper p) : Proper q where
  modelIds := h.modelIds.nodup_iff.mp hp.modelIds
  messageContentForms := h.messageContentForms.nodup_iff.mp hp.messageContentForms
  mediaPlacements := h.mediaPlacements.nodup_iff.mp hp.mediaPlacements
  inputModalities := h.inputModalities.nodup_iff.mp hp.inputModalities
  outputModalities := h.outputModalities.nodup_iff.mp hp.outputModalities
  chatAudioFormats := h.chatAudioFormats.nodup_iff.mp hp.chatAudioFormats
  streamModes := h.streamModes.nodup_iff.mp hp.streamModes

/-- A relation between lists that holds place by place relates each item of one to an item of the other. -/
theorem exists_related {α β : Type} {R : α → β → Prop} {l : List α} {m : List β} (h : l.Forall₂ R m) :
    (∀ a ∈ l, ∃ b ∈ m, R a b) ∧ ∀ b ∈ m, ∃ a ∈ l, R a b := by
  induction h with
  | nil => exact ⟨(fun _ ha => (nomatch ha)), (fun _ hb => (nomatch hb))⟩
  | @cons a b l m hab _ ih =>
    constructor
    · intro x hx
      cases List.mem_cons.mp hx with
      | inl hx => exact ⟨b, List.mem_cons_self, hx ▸ hab⟩
      | inr hx =>
        obtain ⟨y, hy, hxy⟩ := ih.1 x hx
        exact ⟨y, List.mem_cons_of_mem _ hy, hxy⟩
    · intro y hy
      cases List.mem_cons.mp hy with
      | inl hy => exact ⟨a, List.mem_cons_self, hy ▸ hab⟩
      | inr hy =>
        obtain ⟨x, hx, hxy⟩ := ih.2 y hy
        exact ⟨x, List.mem_cons_of_mem _ hx, hxy⟩

theorem map_sets_eq {rows rows' : List ServiceProfile} (h : rows.Forall₂ ServiceProfile.Reordered rows') :
    rows.map ServiceProfile.sets = rows'.map ServiceProfile.sets := by
  induction h with
  | nil => rfl
  | cons hpq _ ih => rw [List.map_cons, List.map_cons, hpq.sets, ih]

/-- The sets of the rows move with the rows. -/
theorem WorkerConfig.Reordered.map_sets (h : a.Reordered b) :
    (a.serviceProfiles.map ServiceProfile.sets).Perm (b.serviceProfiles.map ServiceProfile.sets) := by
  obtain ⟨rows, hperm, hrows⟩ := h.serviceProfiles
  rw [← map_sets_eq hrows]
  exact hperm.map _

theorem WorkerConfig.Reordered.rows (h : a.Reordered b) : a.rows = b.rows :=
  List.toFinset_eq_of_perm _ _ h.map_sets

theorem WorkerConfig.Reordered.distinct (h : a.Reordered b) (ha : Distinct a) : Distinct b where
  proper q hq := by
    obtain ⟨rows, hperm, hrows⟩ := h.serviceProfiles
    obtain ⟨p, hp, hpq⟩ := (exists_related hrows).2 q hq
    exact hpq.proper (ha.proper p (hperm.mem_iff.mpr hp))
  rows := h.map_sets.nodup_iff.mp ha.rows

section
variable {workers workers' : List WorkerConfig} {domain : String}

theorem Reordered.exists_after (h : Reordered workers workers') : ∀ w ∈ workers, ∃ w' ∈ workers', w.Reordered w' := by
  obtain ⟨moved, hperm, hmoved⟩ := h
  intro w hw
  exact (exists_related hmoved).1 w (hperm.mem_iff.mp hw)

theorem Reordered.exists_before (h : Reordered workers workers') : ∀ w' ∈ workers', ∃ w ∈ workers, w.Reordered w' := by
  obtain ⟨moved, hperm, hmoved⟩ := h
  intro w' hw'
  obtain ⟨w, hw, hsame⟩ := (exists_related hmoved).2 w' hw'
  exact ⟨w, hperm.mem_iff.mpr hw, hsame⟩

theorem mem_membersOf {w : WorkerConfig} :
    w ∈ membersOf workers domain ↔ w ∈ workers ∧ w.trustDomain = domain := by
  simp [membersOf]

theorem Reordered.member_after (h : Reordered workers workers') {w : WorkerConfig}
    (hw : w ∈ membersOf workers domain) : ∃ w' ∈ membersOf workers' domain, w.Reordered w' := by
  obtain ⟨hw, hdomain⟩ := mem_membersOf.mp hw
  obtain ⟨w', hw', hsame⟩ := h.exists_after w hw
  exact ⟨w', mem_membersOf.mpr ⟨hw', hsame.trustDomain ▸ hdomain⟩, hsame⟩

theorem Reordered.member_before (h : Reordered workers workers') {w' : WorkerConfig}
    (hw' : w' ∈ membersOf workers' domain) : ∃ w ∈ membersOf workers domain, w.Reordered w' := by
  obtain ⟨hw', hdomain⟩ := mem_membersOf.mp hw'
  obtain ⟨w, hw, hsame⟩ := h.exists_before w' hw'
  exact ⟨w, mem_membersOf.mpr ⟨hw, hsame.trustDomain.trans hdomain⟩, hsame⟩

theorem Reordered.alike (h : Reordered workers workers') :
    membersOf workers domain ≠ [] ∧ Alike (membersOf workers domain) ↔
      membersOf workers' domain ≠ [] ∧ Alike (membersOf workers' domain) := by
  constructor
  · intro ⟨hmembers, halike⟩
    obtain ⟨w, hw⟩ := List.exists_mem_of_ne_nil _ hmembers
    obtain ⟨w', hw', _⟩ := h.member_after hw
    constructor
    · exact List.ne_nil_of_mem hw'
    · intro a' ha' b' hb'
      obtain ⟨a, ha, haa⟩ := h.member_before ha'
      obtain ⟨b, hb, hbb⟩ := h.member_before hb'
      obtain ⟨hmodel, hrows⟩ := halike a ha b hb
      exact ⟨haa.defaultModelId.symm.trans (hmodel.trans hbb.defaultModelId),
        haa.rows.symm.trans (hrows.trans hbb.rows)⟩
  · intro ⟨hmembers, halike⟩
    obtain ⟨w', hw'⟩ := List.exists_mem_of_ne_nil _ hmembers
    obtain ⟨w, hw, _⟩ := h.member_before hw'
    constructor
    · exact List.ne_nil_of_mem hw
    · intro a ha b hb
      obtain ⟨a', ha', haa⟩ := h.member_after ha
      obtain ⟨b', hb', hbb⟩ := h.member_after hb
      obtain ⟨hmodel, hrows⟩ := halike a' ha' b' hb'
      exact ⟨haa.defaultModelId.trans (hmodel.trans hbb.defaultModelId.symm),
        haa.rows.trans (hrows.trans hbb.rows.symm)⟩

/-- No reordering changes the verdict. -/
theorem Reordered.homogeneous (h : Reordered workers workers') (hd : ∀ w ∈ workers, Distinct w) (domain : String) :
    generationCohortIsHomogeneous (membersOf workers' domain) =
      generationCohortIsHomogeneous (membersOf workers domain) := by
  rw [Bool.eq_iff_iff]
  have hd' : ∀ w ∈ workers', Distinct w := by
    intro w' hw'
    obtain ⟨w, hw, hsame⟩ := h.exists_before w' hw'
    exact hsame.distinct (hd w hw)
  rw [homogeneous_iff (fun w hw => hd' w (mem_membersOf.mp hw).1),
    homogeneous_iff (fun w hw => hd w (mem_membersOf.mp hw).1)]
  exact h.alike.symm

/-! ### The cohorts -/

/-- The domains that are cohorts, at each point of the loop. -/
theorem mem_cohorts_aux {records rest : List WorkerConfig} {result : List String} :
    domain ∈ rest.foldl (fun result record =>
        if result.contains record.trustDomain then result
        else if generationCohortIsHomogeneous (membersOf records record.trustDomain) then
          result ++ [record.trustDomain]
        else result) result ↔
      domain ∈ result ∨ (∃ record ∈ rest, record.trustDomain = domain) ∧
        generationCohortIsHomogeneous (membersOf records domain) = true := by
  induction rest generalizing result with
  | nil => simp
  | cons record rest ih =>
    rw [List.foldl_cons, ih]
    by_cases hdomain : record.trustDomain = domain
    · subst hdomain
      by_cases hin : record.trustDomain ∈ result
      · simp [hin]
      · by_cases hhom : generationCohortIsHomogeneous (membersOf records record.trustDomain) = true
        · simp [hin, hhom]
        · simp [hin, hhom]
    · have hstep : domain ∈ (if result.contains record.trustDomain then result
          else if generationCohortIsHomogeneous (membersOf records record.trustDomain) then
            result ++ [record.trustDomain]
          else result) ↔ domain ∈ result := by
        split
        · rfl
        · split
          · rw [List.mem_append, List.mem_singleton]
            exact or_iff_left (fun h => hdomain h.symm)
          · rfl
      rw [hstep]
      simp [hdomain]

/-- The cohorts are the domains of the workers whose members are alike. -/
theorem mem_cohorts :
    domain ∈ buildContentBlindGenerationCohorts workers ↔
      generationCohortIsHomogeneous (membersOf workers domain) = true := by
  unfold buildContentBlindGenerationCohorts
  rw [mem_cohorts_aux]
  constructor
  · intro h
    cases h with
    | inl h => cases h
    | inr h => exact h.2
  · intro h
    right
    constructor
    · cases hmembers : membersOf workers domain with
      | nil => rw [hmembers] at h; cases h
      | cons w rest =>
        have hw : w ∈ membersOf workers domain := hmembers ▸ List.mem_cons_self
        exact ⟨w, (mem_membersOf.mp hw).1, (mem_membersOf.mp hw).2⟩
    · exact h

end

/-! ### Requests -/

/-- What a request needs of the worker that serves it. -/
structure Request where
  model : String
  messageContentForms : List MessageContentForm
  mediaPlacements : List MediaPlacement
  inputModalities : List InputModality
  outputModalities : List OutputModality
  chatAudioFormats : List ChatAudioFormat
  streamMode : StreamMode

/-- The row has everything the request needs. -/
def ServiceProfile.accepts (p : ServiceProfile) (r : Request) : Bool :=
  p.containsModel r.model && r.messageContentForms.all (p.messageContentForms.contains ·) &&
    r.mediaPlacements.all (p.mediaPlacements.contains ·) && r.inputModalities.all (p.inputModalities.contains ·) &&
    r.outputModalities.all (p.outputModalities.contains ·) && r.chatAudioFormats.all (p.chatAudioFormats.contains ·) &&
    p.streamModes.contains r.streamMode

/-- Lists with the same items answer alike. -/
theorem contains_congr {α : Type} [DecidableEq α] {a b : List α} (h : a.toFinset = b.toFinset) (x : α) :
    a.contains x = b.contains x := by
  rw [Bool.eq_iff_iff, List.contains_iff_mem, List.contains_iff_mem, ← List.mem_toFinset, h, List.mem_toFinset]

/-- Whether a row accepts a request depends on its sets. -/
theorem accepts_congr (h : p.sets = q.sets) (r : Request) : p.accepts r = q.accepts r := by
  simp only [ServiceProfile.sets, RowSets.mk.injEq] at h
  obtain ⟨hmodels, hforms, hplacements, hinputs, houtputs, haudio, hstreams⟩ := h
  simp only [ServiceProfile.accepts, ServiceProfile.containsModel, contains_congr hmodels, contains_congr hforms,
    contains_congr hplacements, contains_congr hinputs, contains_congr houtputs, contains_congr haudio,
    contains_congr hstreams]

/-- A row of one worker is, as a tuple of sets, a row of another with the same rows. -/
theorem exists_row (h : a.rows = b.rows) (hp : p ∈ a.serviceProfiles) :
    ∃ q ∈ b.serviceProfiles, q.sets = p.sets := by
  have hmem : p.sets ∈ b.rows := by
    rw [← h]
    exact List.mem_toFinset.mpr (List.mem_map_of_mem hp)
  exact List.mem_map.mp (List.mem_toFinset.mp hmem)

/-- **Homogeneous cohorts are what they claim.** Of workers that were accepted, a trust domain is homogeneous when it
has a member and its members have the same default model and the same set of rows, each row a tuple of sets. No
reordering of workers, rows or items changes that, and a request that a row of one member accepts is accepted by a row
of every other. -/
theorem cohorts_are_homogeneous (target : WorkerConfig → Option String) (workers : List WorkerConfig)
    (accepted : validateWorkers target workers = .ok ()) (domain : String) :
    (generationCohortIsHomogeneous (membersOf workers domain) = true ↔
      membersOf workers domain ≠ [] ∧ Alike (membersOf workers domain)) ∧
    (domain ∈ buildContentBlindGenerationCohorts workers ↔
      generationCohortIsHomogeneous (membersOf workers domain) = true) ∧
    (∀ workers', Reordered workers workers' →
      generationCohortIsHomogeneous (membersOf workers' domain) =
        generationCohortIsHomogeneous (membersOf workers domain)) ∧
    (generationCohortIsHomogeneous (membersOf workers domain) = true →
      ∀ a ∈ membersOf workers domain, ∀ b ∈ membersOf workers domain, ∀ p ∈ a.serviceProfiles, ∀ r,
        p.accepts r = true → ∃ q ∈ b.serviceProfiles, q.accepts r = true) := by
  have hd : ∀ w ∈ workers, Distinct w := validateWorkers_ok accepted
  have hmembers : ∀ w ∈ membersOf workers domain, Distinct w := fun w hw => hd w (mem_membersOf.mp hw).1
  have hiff := homogeneous_iff hmembers
  constructor
  · exact hiff
  constructor
  · exact mem_cohorts
  constructor
  · exact fun workers' h => h.homogeneous hd domain
  · intro hhom a ha b hb p hp r haccepts
    obtain ⟨q, hq, hsets⟩ := exists_row ((hiff.mp hhom).2 a ha b hb).2 hp
    exact ⟨q, hq, by rw [accepts_congr hsets, haccepts]⟩

def omniRow (forms : List MessageContentForm) (modes : List StreamMode) : ServiceProfile where
  modelIds := ["omni"]
  messageContentForms := forms
  mediaPlacements := []
  inputModalities := [.text]
  outputModalities := [.text]
  chatAudioFormats := []
  streamModes := modes

/-- Two workers of a domain: the rows of one are those of the other in another order, and so are the items. -/
def omniWorkers : List WorkerConfig :=
  [{ workerId := "worker-a", baseUrl := "http://127.0.0.1:8000/", trustDomain := "local", defaultModelId := "omni",
     serviceProfiles :=
       [omniRow [.string] [.nonStreaming], omniRow [.string, .typedParts] [.nonStreaming, .streaming]] },
   { workerId := "worker-b", baseUrl := "http://127.0.0.1:8001/", trustDomain := "local", defaultModelId := "omni",
     serviceProfiles := [omniRow [.typedParts, .string] [.streaming, .nonStreaming],
       omniRow [.string] [.nonStreaming]] }]

theorem omniWorkers_alike : membersOf omniWorkers "local" ≠ [] ∧ Alike (membersOf omniWorkers "local") :=
  (cohorts_are_homogeneous (fun w => some w.baseUrl) omniWorkers (by decide +kernel) "local").1.mp (by decide +kernel)

end SglangOmni.Router.Profile
