import SglangOmni.Config.Tree

/-! Dotted paths, compiled against the schema of a pipeline class.

A path is read segment by segment along the declared types: a field of a model, the name of a list entry, a key of a
mapping, or a key where the schema says nothing more. Stages are addressed by their name, and what follows the name is
read against the type that the pipeline class declares for this stage. The type that is read here is what the source
sees of an annotation once it has been stripped of `None` and of its constraints. -/
namespace SglangOmni.Config
open Lib

/-! ### Declared types -/

/-- What is special about a class of models. -/
inductive ModelRole where
  | pipeline (allowAudioChunking : Bool)
  | stage (engineStage : Bool)
  | plain
  deriving DecidableEq

inductive Annotation where
  | model (cls : String) (role : ModelRole) (fields : List (String × Annotation)) (extraAllow : Bool)
  /-- A list of models that have a `name`. -/
  | named (cls : String) (role : ModelRole) (fields : List (String × Annotation)) (extraAllow : Bool)
  | mapping (value : Annotation)
  | any
  | sequence
  | leaf (typeName : String)

/-- `_is_traversable`. -/
def Annotation.isTraversable : Annotation → Bool
  | .model .. => true
  | .named .. => true
  | .mapping _ => true
  | .any => true
  | .sequence => false
  | .leaf _ => false

/-- `_is_non_engine_stage`. -/
def ModelRole.isNonEngineStage : ModelRole → Bool
  | .stage engine => !engine
  | _ => false

/-- `_is_chunkless_pipeline`. -/
def ModelRole.isChunkless : ModelRole → Bool
  | .pipeline allow => !allow
  | _ => false

/-- A class of stages: its name, whether it drives an engine, and its fields besides `name`. No other key is allowed. -/
structure StageType where
  cls : String
  engineStage : Bool
  fields : List (String × Annotation)

def StageType.allFields (t : StageType) : List (String × Annotation) := ("name", .leaf "str") :: t.fields

def StageType.annotation (t : StageType) : Annotation := .model t.cls (.stage t.engineStage) t.allFields false

/-- A class of pipelines: its fields besides the stages, and the type that it declares for each stage. -/
structure Root where
  cls : String
  allowAudioChunking : Bool
  fields : List (String × Annotation)
  stageConfig : StageType
  stageConfigCls : String → StageType

def Root.annotation (root : Root) : Annotation :=
  .model root.cls (.pipeline root.allowAudioChunking)
    (("stages", .named root.stageConfig.cls (.stage root.stageConfig.engineStage) root.stageConfig.allFields false) ::
      root.fields) false

/-! ### Segments -/

inductive SegmentKind where
  | field
  | namedItem
  | mappingKey
  | freeform
  deriving DecidableEq

structure Segment where
  raw : String
  kind : SegmentKind
  annotation : Annotation

/-- What reading and writing look at. -/
def Segment.step (s : Segment) : Step := ⟨s.raw, s.kind = .namedItem⟩

inductive PathError where
  | emptyPath
  | emptySegment (raw : String)
  | notEngineStage (under : String)
  | noAudioChunking (cls : String)
  | noField (cls part under : String)
  | addressedByName (under part : String)
  | listValue (under part : String)
  | leafType (under typeName part : String)
  | notWritable (raw : String)
  | refusedValue (raw : String)
  deriving DecidableEq

/-- `part.isdigit()`, of the digits 0 to 9. -/
def isDigits (part : String) : Bool := !part.toList.isEmpty && part.toList.all Char.isDigit

/-- `_descend`. -/
def descend (container : Annotation) (part under : String) : Except PathError Segment :=
  match container with
  | .model cls role fields extraAllow =>
    if part = "engine" ∧ role.isNonEngineStage then .error (.notEngineStage under)
    else if part = "audio_chunking" ∧ role.isChunkless then .error (.noAudioChunking cls)
    else
      match fields.lookup part with
      | some annotation => .ok ⟨part, .field, annotation⟩
      | none => if extraAllow then .ok ⟨part, .freeform, .any⟩ else .error (.noField cls part under)
  | .named cls role fields extraAllow =>
    if isDigits part then .error (.addressedByName under part)
    else .ok ⟨part, .namedItem, .model cls role fields extraAllow⟩
  | .mapping value => .ok ⟨part, .mappingKey, value⟩
  | .any => .ok ⟨part, .freeform, .any⟩
  | .sequence => .error (.listValue under part)
  | .leaf typeName => .error (.leafType under typeName part)

/-- The stage's own type in place of the common one: the second segment, below `stages`. -/
def ownType (root : Root) (before : List String) (s : Segment) : Segment :=
  if s.kind = .namedItem ∧ before = ["stages"] then
    { s with annotation := StageType.annotation (root.stageConfigCls s.raw) }
  else s

/-- What the next part is looked up in. -/
abbrev typeBelow (root : Root) (before : List String) (s : Segment) : Annotation :=
  Segment.annotation (ownType root before s)

/-- The loop of `parse`; `before` holds the parts that were read. -/
def descendAll (root : Root) : Annotation → List String → List String → Except PathError (List Segment)
  | _, _, [] => .ok []
  | current, before, part :: rest => do
    let s ← descend current part (".".intercalate before)
    let tail ← descendAll root (typeBelow root before s) (before ++ [part]) rest
    return ownType root before s :: tail

/-- `raw.split(".")`. -/
def splitDots (raw : String) : List String := (raw.toList.splitOn '.').map String.ofList

/-- The blanks that `strip` takes away. -/
def isBlank (c : Char) : Bool :=
  c.isWhitespace || [0x0b, 0x0c, 0x1c, 0x1d, 0x1e, 0x1f, 0x85, 0xa0, 0x1680, 0x2028, 0x2029, 0x202f, 0x205f,
    0x3000].contains c.toNat || (0x2000 ≤ c.toNat && c.toNat ≤ 0x200a)

/-- `ConfigPath.parse`. -/
def parse (root : Root) (raw : String) : Except PathError (List Segment) :=
  if raw.toList.all isBlank then .error .emptyPath
  else if (splitDots raw).any (· = "") then .error (.emptySegment raw)
  else descendAll root root.annotation [] (splitDots raw)

/-- A path that was compiled against the schema. -/
structure ConfigPath (root : Root) where
  raw : String
  segments : List Segment
  parsed : parse root raw = .ok segments

namespace ConfigPath
variable {root : Root} {p q : ConfigPath root}

def compile (root : Root) (raw : String) : Except PathError (ConfigPath root) :=
  match h : parse root raw with
  | .ok segments => .ok ⟨raw, segments, h⟩
  | .error e => .error e

/-- The path of a spelling that is known to compile. -/
def ofRaw (root : Root) (raw : String) (h : (parse root raw).isOk = true) : ConfigPath root :=
  match hp : parse root raw with
  | .ok segments => ⟨raw, segments, hp⟩
  | .error e => absurd h (by rw [hp]; exact Bool.false_ne_true)

@[simp] theorem ofRaw_raw (root : Root) (raw : String) (h : (parse root raw).isOk = true) :
    (ofRaw root raw h).raw = raw := by
  unfold ofRaw
  split
  · rfl
  · next e hp =>
    rw [hp] at h
    cases h

def steps (p : ConfigPath root) : List Step := p.segments.map Segment.step

/-- Nothing can be addressed below. -/
def isLeaf (p : ConfigPath root) : Bool :=
  match p.segments.getLast? with
  | some s => ! s.annotation.isTraversable
  | none => false

def read (p : ConfigPath root) (data : Value) : Option Value := readAt p.steps data

def write (p : ConfigPath root) (data v : Value) : Option Value := writeAt p.steps v data

/-- One spelling, one path. -/
theorem segments_eq (h : p.raw = q.raw) : p.segments = q.segments := by
  have hp := p.parsed
  rw [h, q.parsed] at hp
  exact (Except.ok.inj hp).symm

theorem steps_eq (h : p.raw = q.raw) : p.steps = q.steps := by
  rw [steps, steps, segments_eq h]

theorem isLeaf_eq (h : p.raw = q.raw) : p.isLeaf = q.isLeaf := by
  rw [isLeaf, isLeaf, segments_eq h]

end ConfigPath

/-! ### Leaves -/

variable {before : List String} {part : String} {s : Segment} {current : Annotation} {segments : List Segment}

/-- A list entry is a model, so that more can be addressed below it. -/
theorem ownType_named {root : Root} {container : Annotation} {under : String}
    (h : descend container part under = .ok s) (named : s.kind = .namedItem) :
    Annotation.isTraversable (typeBelow root before s) = true := by
  unfold typeBelow ownType
  split
  · rfl
  · cases container with
    | model cls role fields extraAllow =>
      simp only [descend] at h
      split at h
      · cases h
      · split at h
        · cases h
        · split at h
          · cases h
            cases named
          · split at h
            · cases h
              cases named
            · cases h
    | named cls role fields extraAllow =>
      simp only [descend] at h
      split at h
      · cases h
      · cases h
        rfl
    | mapping value | any =>
      cases h
      cases named
    | sequence => cases h
    | leaf typeName => cases h

theorem ownType_of_field (root : Root) (before : List String) (h : s.kind = .field) :
    ownType root before s = s := by
  rw [ownType, if_neg fun hs => SegmentKind.noConfusion (h.symm.trans hs.1)]

theorem ownType_kind (root : Root) (before : List String) (s : Segment) : (ownType root before s).kind = s.kind := by
  unfold ownType
  split <;> rfl

theorem descendAll_cons {root : Root} {rest : List String}
    (h : descendAll root current before (part :: rest) = .ok segments) :
    ∃ s tail, descend current part (".".intercalate before) = .ok s ∧
      descendAll root (typeBelow root before s) (before ++ [part]) rest = .ok tail ∧
      segments = ownType root before s :: tail := by
  unfold descendAll at h
  cases hs : descend current part (".".intercalate before) with
  | error e =>
    rw [hs] at h
    cases h
  | ok s =>
    rw [hs] at h
    cases ht : descendAll root (typeBelow root before s) (before ++ [part]) rest with
    | error e =>
      simp only [ht, bind, Except.bind] at h
      cases h
    | ok tail =>
      simp only [ht, bind, Except.bind] at h
      cases h
      exact ⟨s, tail, rfl, ht, rfl⟩

/-- Every segment that is the name of a list entry has a model below it. -/
theorem descendAll_named {root : Root} {parts : List String}
    (h : descendAll root current before parts = .ok segments) (hs : s ∈ segments)
    (named : s.kind = .namedItem) : s.annotation.isTraversable = true := by
  induction parts generalizing current before segments with
  | nil =>
    cases h
    cases hs
  | cons part rest ih =>
    obtain ⟨first, tail, hfirst, htail, rfl⟩ := descendAll_cons h
    cases List.mem_cons.mp hs with
    | inl he =>
      subst he
      exact ownType_named hfirst ((ownType_kind root before first).symm.trans named)
    | inr hmem => exact ih htail hmem

theorem parse_ok {root : Root} {raw : String} (h : parse root raw = .ok segments) :
    (splitDots raw).any (· = "") = false ∧ descendAll root root.annotation [] (splitDots raw) = .ok segments := by
  unfold parse at h
  split at h
  · cases h
  · split at h
    · cases h
    · next hempty => exact ⟨Bool.eq_false_iff.mpr hempty, h⟩

/-- A leaf is not the name of a list entry. -/
theorem ConfigPath.endsWithKey {root : Root} {p : ConfigPath root} (leaf : p.isLeaf = true) : EndsWithKey p.steps := by
  unfold ConfigPath.isLeaf at leaf
  split at leaf
  · next s hlast =>
    refine ⟨s.step, by rw [ConfigPath.steps, List.getLast?_map, hlast, Option.map_some], ?_⟩
    by_contra hnamed
    have hkind : s.kind = .namedItem := by simpa [Segment.step] using hnamed
    have hmem : s ∈ p.segments := List.mem_of_getLast? hlast
    rw [descendAll_named (parse_ok p.parsed).2 hmem hkind] at leaf
    cases leaf
  · cases leaf

/-! ### Paths and their spelling -/

theorem descend_raw {container : Annotation} {under : String}
    (h : descend container part under = .ok s) : s.raw = part := by
  cases container with
  | model cls role fields extraAllow =>
    simp only [descend] at h
    split at h
    · cases h
    · split at h
      · cases h
      · split at h
        · cases h
          rfl
        · split at h
          · cases h
            rfl
          · cases h
  | named cls role fields extraAllow =>
    simp only [descend] at h
    split at h
    · cases h
    · cases h
      rfl
  | mapping value =>
    cases h
    rfl
  | any =>
    cases h
    rfl
  | sequence => cases h
  | leaf typeName => cases h

theorem ownType_raw (root : Root) (before : List String) (s : Segment) : (ownType root before s).raw = s.raw := by
  unfold ownType
  split <;> rfl

/-- The segments are the parts of the spelling. -/
theorem descendAll_raw {root : Root} {parts : List String}
    (h : descendAll root current before parts = .ok segments) : segments.map Segment.raw = parts := by
  induction parts generalizing current before segments with
  | nil =>
    cases h
    rfl
  | cons part rest ih =>
    obtain ⟨first, tail, hfirst, htail, rfl⟩ := descendAll_cons h
    rw [List.map_cons, ih htail, ownType_raw, descend_raw hfirst]

theorem splitDots_inj {a b : String} (h : splitDots a = splitDots b) : a = b := by
  have hsplit : a.toList.splitOn '.' = b.toList.splitOn '.' :=
    List.map_injective_iff.mpr (fun x y hxy => String.ofList_injective hxy) h
  have hlist : a.toList = b.toList := by
    rw [← @List.intercalate_splitOn _ a.toList _ _ '.', hsplit, List.intercalate_splitOn]
  exact String.toList_inj.mp hlist

theorem ConfigPath.steps_raw {root : Root} (p : ConfigPath root) : p.steps.map Step.raw = splitDots p.raw := by
  rw [← descendAll_raw (parse_ok p.parsed).2, ConfigPath.steps, List.map_map]
  rfl

theorem splitDots_append (a b : String) : splitDots (a ++ "." ++ b) = splitDots a ++ splitDots b := by
  have hlist : (a ++ "." ++ b).toList = a.toList ++ '.' :: b.toList := by
    simp [String.toList_append]
  rw [splitDots, hlist, List.splitOn_append_cons_self, List.map_append]
  rfl

theorem splitDots_ne_nil (a : String) : splitDots a ≠ [] := by
  simp [splitDots]

theorem splitDots_of_plain {a : String} (h : '.' ∉ a.toList) : splitDots a = [a] := by
  rw [splitDots, List.splitOn_eq_singleton h, List.map_singleton, String.ofList_toList]

/-- No part has a dot in it. -/
theorem notMem_splitOn (l : List Char) {part : List Char} (h : part ∈ l.splitOn '.') : '.' ∉ part := by
  induction l generalizing part with
  | nil =>
    rw [List.splitOn_nil, List.mem_singleton] at h
    rw [h]
    exact List.not_mem_nil
  | cons c rest ih =>
    rw [List.splitOn_cons_eq_if_modifyHead] at h
    split at h
    · cases List.mem_cons.mp h with
      | inl he =>
        rw [he]
        exact List.not_mem_nil
      | inr hmem => exact ih hmem
    · next hc =>
      cases hsplit : rest.splitOn '.' with
      | nil => exact absurd hsplit (List.splitOn_ne_nil _ _)
      | cons first others =>
        rw [hsplit] at h ih
        cases List.mem_cons.mp h with
        | inl he =>
          subst he
          intro hdot
          cases List.mem_cons.mp hdot with
          | inl he => exact hc (by simp [← he])
          | inr hmem => exact ih List.mem_cons_self hmem
        | inr hmem => exact ih (List.mem_cons_of_mem first hmem)

theorem splitDots_part {a : String} (h : part ∈ splitDots a) : splitDots part = [part] := by
  obtain ⟨chars, hchars, rfl⟩ := List.mem_map.mp h
  apply splitDots_of_plain
  rw [String.toList_ofList]
  exact notMem_splitOn _ hchars

/-- Paths that go the same way are spelt the same way. -/
theorem ConfigPath.raw_eq {root : Root} {p q : ConfigPath root} (h : p.steps = q.steps) : p.raw = q.raw := by
  apply splitDots_inj
  rw [← p.steps_raw, ← q.steps_raw, h]

/-! ### What may be written -/

/-- The paths of `_VISIBILITY_RULES`; all of them are internal. -/
def internalPatterns : List (List String) :=
  [["config_cls"],
   ["stages"],
   ["entry_stage"],
   ["stages", "*", "name"],
   ["stages", "*", "factory_path"],
   ["stages", "*", "next"],
   ["stages", "*", "terminal"],
   ["stages", "*", "route_fn"],
   ["stages", "*", "stream_to"],
   ["stages", "*", "stream_done_to_fn"],
   ["stages", "*", "wait_for"],
   ["stages", "*", "wait_for_fn"],
   ["stages", "*", "merge_fn"],
   ["stages", "*", "project_payload"]]

/-- `_generic_form`. -/
def genericForm (segments : List Segment) : List String :=
  segments.map fun s => if s.kind = .namedItem then "*" else s.raw

/-- `_pattern_matches`; no pattern ends with `**`. -/
def patternMatches : List String → List String → Bool
  | [], [] => true
  | p :: ps, q :: qs => (p = "*" || p = q) && patternMatches ps qs
  | _, _ => false

def ConfigPath.isPublic {root : Root} (p : ConfigPath root) : Bool :=
  !internalPatterns.any (patternMatches · (genericForm p.segments))

def ConfigPath.requireWritable {root : Root} (p : ConfigPath root) : Except PathError Unit :=
  if p.isPublic then .ok () else .error (.notWritable p.raw)

/-! ### Paths below a stage -/

theorem descend_stages (root : Root) (under : String) :
    descend root.annotation "stages" under =
      .ok ⟨"stages", .field, .named root.stageConfig.cls (.stage root.stageConfig.engineStage)
        root.stageConfig.allFields false⟩ := by
  simp [descend, Root.annotation]

/-- A field of a stage is never a list entry, and its name has nothing below it. -/
theorem descend_stage {t : StageType} {under : String} (h : descend t.annotation part under = .ok s) :
    s.kind = .field ∧ (part = "name" → s.annotation = .leaf "str") := by
  simp only [descend, StageType.annotation] at h
  split at h
  · cases h
  · split at h
    · cases h
    · split at h
      · next annotation hlookup =>
        cases h
        refine ⟨rfl, fun hname => ?_⟩
        simp only [hname, StageType.allFields, List.lookup_cons_self, Option.some.injEq] at hlookup
        exact hlookup.symm
      · cases h

/-- A path below a stage goes through the list of the stages, to the stage of the name, and to one of its fields;
nothing is below the field `name`. -/
theorem ConfigPath.below_stage {root : Root} (p : ConfigPath root) {x k : String} {more : List String}
    (h : splitDots p.raw = "stages" :: x :: k :: more) :
    ∃ steps, p.steps = ⟨"stages", false⟩ :: ⟨x, true⟩ :: ⟨k, false⟩ :: steps ∧
      ∃ generic, genericForm p.segments = "stages" :: "*" :: k :: generic ∧ generic.length = more.length ∧
      (k = "name" → more = []) := by
  have hparsed := (parse_ok p.parsed).2
  rw [h] at hparsed
  obtain ⟨first, afterFirst, hfirst, hafterFirst, hsegments⟩ := descendAll_cons hparsed
  rw [descend_stages] at hfirst
  cases hfirst
  obtain ⟨second, afterSecond, hsecond, hafterSecond, rfl⟩ := descendAll_cons hafterFirst
  have hnamed : second = ⟨x, .namedItem, .model root.stageConfig.cls (.stage root.stageConfig.engineStage)
      root.stageConfig.allFields false⟩ := by
    rw [typeBelow, ownType_of_field root [] rfl] at hsecond
    simp only [descend] at hsecond
    split at hsecond
    · cases hsecond
    · exact (Except.ok.inj hsecond).symm
  subst hnamed
  obtain ⟨third, tail, hthird, htail, rfl⟩ := descendAll_cons hafterSecond
  have hfield := descend_stage hthird
  have hraw := descend_raw hthird
  have hlength : tail.length = more.length := by
    rw [← List.length_map (f := Segment.raw), descendAll_raw htail]
  refine ⟨tail.map Segment.step, ?_, tail.map (fun s => if s.kind = .namedItem then "*" else s.raw), ?_, ?_, ?_⟩
  · rw [ConfigPath.steps, hsegments]
    simp [ownType, Segment.step, hfield.1, hraw]
  · rw [hsegments]
    simp [genericForm, ownType, hfield.1, hraw]
  · rw [List.length_map, hlength]
  · intro hname
    rw [typeBelow, ownType_of_field root _ hfield.1, hfield.2 hname] at htail
    cases more with
    | nil => rfl
    | cons next more =>
      obtain ⟨_, _, hnext, _, _⟩ := descendAll_cons htail
      cases hnext

/-- What a file may write of a stage is not its name, and is below its factory. -/
theorem ConfigPath.public_below_stage {root : Root} (p : ConfigPath root) {x k : String} {more : List String}
    (h : splitDots p.raw = "stages" :: x :: k :: more) (isPublic : p.isPublic = true) :
    k ≠ "name" ∧ (k = "factory_path" → more ≠ []) := by
  obtain ⟨steps, _, generic, hgeneric, hlength, hname⟩ := p.below_stage h
  refine ⟨fun hk => ?_, fun hk hmore => ?_⟩
  · have hnil : generic = [] := List.length_eq_zero_iff.mp (by rw [hlength, hname hk]; rfl)
    simp [ConfigPath.isPublic, hgeneric, hnil, hk, internalPatterns, patternMatches] at isPublic
  · have hnil : generic = [] := List.length_eq_zero_iff.mp (by rw [hlength, hmore]; rfl)
    simp [ConfigPath.isPublic, hgeneric, hnil, hk, internalPatterns, patternMatches] at isPublic

end SglangOmni.Config
