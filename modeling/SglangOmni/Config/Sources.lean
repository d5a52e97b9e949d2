import SglangOmni.Config.Resolver
import SglangOmni.Lib.Raising

/-! A config file, from the dump of a config to the patches that are read from it.

The file is taken as the mapping that it holds. Building a config, dumping one and reading a value against its declared
type are parameters. The main result is that the dump of a config cannot be loaded: every stage that it lists has a
`factory_path`, which no file may set. -/
namespace SglangOmni.Config
open Lib

/-! ### Loops that stop at the first error -/

section
variable {α β ε : Type}

def collect (f : α → Except ε (List β)) : List α → Except ε (List β)
  | [] => .ok []
  | a :: rest => do
    let here ← f a
    let others ← collect f rest
    return here ++ others

/-- Every turn of the loop succeeds, and what it gives is part of the whole. -/
theorem collect_ok {f : α → Except ε (List β)} {l : List α} {out : List β} (h : collect f l = .ok out) {a : α}
    (ha : a ∈ l) : ∃ here, f a = .ok here ∧ ∀ b ∈ here, b ∈ out := by
  induction l generalizing out with
  | nil => cases ha
  | cons x rest ih =>
    obtain ⟨here, hhere, h⟩ := bind_eq_ok.mp h
    obtain ⟨others, hothers, h⟩ := bind_eq_ok.mp h
    cases h
    cases List.mem_cons.mp ha with
    | inl he => exact ⟨here, he ▸ hhere, fun b hb => List.mem_append_left _ hb⟩
    | inr hmem =>
      obtain ⟨found, hfound, hsub⟩ := ih hothers hmem
      exact ⟨found, hfound, fun b hb => List.mem_append_right _ (hsub b hb)⟩

/-- Everything comes from some turn of the loop. -/
theorem mem_collect {f : α → Except ε (List β)} {l : List α} {out : List β} (h : collect f l = .ok out) {b : β}
    (hb : b ∈ out) : ∃ a ∈ l, ∃ here, f a = .ok here ∧ b ∈ here := by
  induction l generalizing out with
  | nil =>
    cases h
    cases hb
  | cons x rest ih =>
    obtain ⟨here, hhere, h⟩ := bind_eq_ok.mp h
    obtain ⟨others, hothers, h⟩ := bind_eq_ok.mp h
    cases h
    cases List.mem_append.mp hb with
    | inl hb => exact ⟨x, List.mem_cons_self, here, hhere, hb⟩
    | inr hb =>
      obtain ⟨a, ha, found, hfound, hmem⟩ := ih hothers hb
      exact ⟨a, List.mem_cons_of_mem x ha, found, hfound, hmem⟩

end

/-! ### What is outside: configs and their classes -/

/-- The `name` of a list entry. -/
def entryName : Value → Option String
  | .dict entries =>
    match entries.lookup "name" with
    | some (.str s) => some s
    | _ => none
  | _ => none

/-- The names of the stages of a document. -/
def stageNames (data : Value) : List (Option String) :=
  match readAt [⟨"stages", false⟩] data with
  | some (.list items) => items.map entryName
  | _ => []

/-- An entry of the stages in a dump: it has a name, and the path of its factory. -/
def IsStageDump (item : Value) : Prop :=
  ∃ body name factory, item = .dict body ∧ body.lookup "name" = some (.str name) ∧
    body.lookup "factory_path" = some (.str factory)

/-- Configs, as far as they are dumped. A config has a stage at least, and what it dumps are its declared fields. -/
structure Configs (C : Type) where
  dump : C → Value
  /-- `model_dump(mode="json")`. -/
  dumpJson : C → Entries
  modelPath : C → String
  stages : C → List Value
  stages_dumped (c : C) : (dumpJson c).lookup "stages" = some (.list (stages c))
  stages_ne_nil (c : C) : stages c ≠ []
  isStageDump (c : C) (item : Value) (h : item ∈ stages c) : IsStageDump item
  fields_plain (c : C) (e : String × Value) (h : e ∈ dumpJson c) : '.' ∉ e.1.toList
  /-- Both dumps list the same stages. -/
  names_dumped (c : C) : stageNames (dump c) = (stages c).map entryName

/-- A class of pipelines, as the registry gives it. -/
structure ConfigClass {C : Type} (configs : Configs C) (ε : Type) where
  root : Root
  /-- `config_cls(**data)`. -/
  build : Value → Except ε C
  /-- The fields that were reported missing. -/
  missing : ε → List String
  /-- A config that is built from a list of stages, each a dictionary, has these stages. -/
  build_names (data : Value) (items : List Value) (c : C) (h : build data = .ok c)
    (list : readAt [⟨"stages", false⟩] data = some (.list items))
    (dicts : ∀ item ∈ items, ∃ entries, item = .dict entries) :
    (configs.stages c).map entryName = items.map entryName

/-! ### Dumping -/

def eraseKey (k : String) (entries : Entries) : Entries := entries.filter fun e => e.1 ≠ k

/-- What is left of a stage below its name. -/
def stageBody (entries : Entries) : Entries :=
  let body := eraseKey "name" entries
  match body.lookup "engine" with
  | some .null => eraseKey "engine" body
  | _ => body

/-- One turn of the loop over the stages. -/
def addStage (stages : Entries) (item : Value) : Entries :=
  match item with
  | .dict entries =>
    match entries.lookup "name" with
    | some (.str name) => insertKey name (.dict (stageBody entries)) stages
    | _ => stages
  | _ => stages

/-- The `stages:` mapping of a list of stages. -/
def stagesMapping (items : List Value) : Entries := items.foldl addStage []

/-- `dump_user_config`. -/
def dumpUserConfig {C : Type} (configs : Configs C) (c : C) : Entries :=
  let data := eraseKey "entry_stage" (configs.dumpJson c)
  match data.lookup "stages" with
  | some (.list items) => insertKey "stages" (.dict (stagesMapping items)) data
  | _ => insertKey "stages" (.dict []) data

/-! ### Loading -/

/-- What can be wrong with an entry of the `shared:` block. -/
inductive SharedError where
  | noSelect
  | writesNothing
  | selectNotMapping
  | unknownSelector
  | stagesNotNames
  | unknownStages
  | engineNotBool
  | excludeNotNames
  | unknownExcluded
  | noMatch
  deriving DecidableEq

inductive LoadError (ε : Type) where
  | removedBlock (block : String)
  | noConfigCls
  | unknownConfigCls
  | validation (e : ε)
  | path (e : PathError)
  | stagesList
  | stagesNotMapping
  | stageKey (name : String)
  | stageNotMapping (name : String)
  | stageSetsName (name : String)
  | unknownStage (name : String)
  | sharedNotList
  | shared (index : Nat) (e : SharedError)

section
variable {ε : Type} (root : Root)

mutual

/-- `_flatten`, of one value below its path. -/
def flattenValue (path : String) : Value → Except PathError (List (String × Value))
  | .dict entries => do
    let compiled ← ConfigPath.compile root path
    if compiled.isLeaf then return [(path, .dict entries)] else flatten path entries
  | v => return [(path, v)]

/-- `_flatten`. -/
def flatten (under : String) : Entries → Except PathError (List (String × Value))
  | [] => return []
  | (key, child) :: rest => do
    let here ← flattenValue (under ++ "." ++ key) child
    let others ← flatten under rest
    return here ++ others

end

end

section
variable {ε : Type} {root : Root} (coerce : ConfigPath root → Value → Except PathError Value)

/-- A patch for every path and value. -/
def createAll (source : ConfigSource) (specificity : Specificity) (pairs : List (String × Value)) :
    Except (LoadError ε) (List (ConfigPatch root)) :=
  collect (fun e => ((ConfigPatch.create coerce e.1 e.2 source specificity).map fun p => [p]).mapError .path) pairs

/-- The patches of one stage in the `stages:` mapping. -/
def patchesFromStage (known : List String) (origin : String) (entry : String × Value) :
    Except (LoadError ε) (List (ConfigPatch root)) :=
  if entry.1 = "" then .error (.stageKey entry.1)
  else
    match entry.2 with
    | .dict body =>
      if (body.lookup "name").isSome then .error (.stageSetsName entry.1)
      else if entry.1 ∉ known then .error (.unknownStage entry.1)
      else do
        let pairs ← (flatten root ("stages." ++ entry.1) body).mapError .path
        createAll coerce ⟨.yamlFile, origin, ""⟩ .explicit pairs
    | _ => .error (.stageNotMapping entry.1)

/-- `patches_from_stages_mapping`. -/
def patchesFromStagesMapping (block : Value) (known : List String) (origin : String) :
    Except (LoadError ε) (List (ConfigPatch root)) :=
  match block with
  | .list _ => .error .stagesList
  | .dict entries => collect (patchesFromStage coerce known origin) entries
  | _ => .error .stagesNotMapping

/-- The patches of one key at the top of the file. -/
def patchesFromOverride (origin : String) (entry : String × Value) :
    Except (LoadError ε) (List (ConfigPatch root)) :=
  match entry.2 with
  | .dict entries => do
    let compiled ← (ConfigPath.compile root entry.1).mapError .path
    if compiled.isLeaf then createAll coerce ⟨.yamlFile, origin, ""⟩ .explicit [entry]
    else do
      let pairs ← (flatten root entry.1 entries).mapError .path
      createAll coerce ⟨.yamlFile, origin, ""⟩ .explicit pairs
  | _ => createAll coerce ⟨.yamlFile, origin, ""⟩ .explicit [entry]

/-! ### The `shared:` block -/

def Value.asStr? : Value → Option String
  | .str s => some s
  | _ => none

/-- A list of names. -/
def Value.asNames? : Value → Option (List String)
  | .list items => items.mapM Value.asStr?
  | _ => none

/-- What Python takes as true. -/
def Value.truthy : Value → Bool
  | .null => false
  | .bool b => b
  | .int n => n ≠ 0
  | .float (.finite x) => x ≠ 0
  | .float .negativeZero => false
  | .float _ => true
  | .str s => s ≠ ""
  | .list items => !items.isEmpty
  | .dict entries => !entries.isEmpty
  | .model .. => true

/-- `_select_stages`. -/
def selectStages (root : Root) (select : Value) (names : List String) : Except SharedError (List String) :=
  match select with
  | .dict (e :: rest) => do
    let select := e :: rest
    if select.any (fun e => e.1 ∉ ["stages", "engine", "exclude"]) then throw .unknownSelector
    let matched ←
      match select.lookup "stages" with
      | none => pure names
      | some block =>
        match block.asNames? with
        | none => throw .stagesNotNames
        | some wanted => if wanted.all (· ∈ names) then pure (names.filter (· ∈ wanted)) else throw .unknownStages
    let matched ←
      match select.lookup "engine" with
      | none => pure matched
      | some (.bool true) => pure (matched.filter fun name => (root.stageConfigCls name).engineStage)
      | some (.bool false) => pure matched
      | some _ => throw .engineNotBool
    let excluded ←
      match select.lookup "exclude" with
      | none => pure []
      | some block =>
        if block.truthy then
          match block.asNames? with
          | none => throw .excludeNotNames
          | some excluded => pure excluded
        else pure []
    if excluded.any (· ∉ names) then throw .unknownExcluded
    let matched := matched.filter (· ∉ excluded)
    if matched.isEmpty then throw .noMatch
    return matched
  | _ => .error .selectNotMapping

/-- The patches of one entry of the `shared:` block. -/
def patchesFromSharedEntry (names : List String) (origin : String) (entry : Value × Nat) :
    Except (LoadError ε) (List (ConfigPatch root)) :=
  match entry.1 with
  | .dict fields =>
    match fields.lookup "select" with
    | none => .error (.shared entry.2 .noSelect)
    | some select =>
      let body := eraseKey "select" fields
      if body.isEmpty then .error (.shared entry.2 .writesNothing)
      else do
        let matched ← (selectStages root select names).mapError (.shared entry.2)
        collect (fun name => do
          let pairs ← (flatten root ("stages." ++ name) body).mapError .path
          createAll coerce ⟨.yamlFile, origin, "shared[" ++ toString entry.2 ++ "]"⟩ .role pairs) matched
  | _ => .error (.shared entry.2 .noSelect)

/-- `patches_from_shared_block`. -/
def patchesFromSharedBlock (block : Value) (names : List String) (origin : String) :
    Except (LoadError ε) (List (ConfigPatch root)) :=
  match block with
  | .list entries => collect (patchesFromSharedEntry coerce names origin) entries.zipIdx
  | _ => .error .sharedNotList

end

/-! ### The file -/

section
variable {C ε : Type} {configs : Configs C}

/-- The loop that builds the baseline, from the keys that the class insists on. A key that was given is not missing
again, so that one round for every key of the file is enough. -/
def construct (cls : ConfigClass configs ε) (overrides : Entries) : Nat → Entries → Except (LoadError ε) C
  | 0, construction => (cls.build (.dict construction)).mapError .validation
  | rounds + 1, construction =>
    match cls.build (.dict construction) with
    | .ok config => .ok config
    | .error e =>
      let missing := overrides.filter fun o => o.1 ∈ cls.missing e
      if missing.isEmpty then .error (.validation e)
      else construct cls overrides rounds (missing.foldl (fun data o => insertKey o.1 o.2 data) construction)

/-- What a file holds: the config that it declares, and its overrides. -/
structure Sources (configs : Configs C) (ε : Type) where
  cls : ConfigClass configs ε
  config : C
  patches : List (ConfigPatch cls.root)

def removedBlocks : List String := ["stage_overrides", "runtime_overrides", "entry_stage"]

/-- `if block is not None`. -/
def whenGiven {α : Type} (block : Option Value) (read : Value → Except (LoadError ε) (List α)) :
    Except (LoadError ε) (List α) :=
  match block with
  | none => .ok []
  | some .null => .ok []
  | some v => read v

/-- `sources_from_config_file`, of the mapping that the file holds. -/
def sourcesFromConfigFile (registry : Value → Option (ConfigClass configs ε))
    (coerce : ∀ root : Root, ConfigPath root → Value → Except PathError Value) (origin : String) (data : Entries) :
    Except (LoadError ε) (Sources configs ε) :=
  match removedBlocks.find? fun block => (data.lookup block).isSome with
  | some block => .error (.removedBlock block)
  | none =>
    match data.lookup "config_cls" with
    | none => .error .noConfigCls
    | some clsName =>
      match registry clsName with
      | none => .error .unknownConfigCls
      | some cls => do
        let overrides := data.filter fun e => e.1 ∉ ["stages", "shared", "config_cls"]
        let config ← construct cls overrides overrides.length []
        let known := (stageNames (configs.dump config)).filterMap id
        let top ← collect (patchesFromOverride (coerce cls.root) origin) overrides
        let stages ← whenGiven (data.lookup "stages") fun block =>
          patchesFromStagesMapping (coerce cls.root) block known origin
        let shared ← whenGiven (data.lookup "shared") fun block =>
          patchesFromSharedBlock (coerce cls.root) block known origin
        return ⟨cls, config, top ++ stages ++ shared⟩

/-- The config that a file declares, with its overrides applied. -/
def Sources.resolve (s : Sources configs ε) : Except (ResolveError s.cls.root ε) (Resolved C) :=
  Config.resolve s.cls.build ⟨configs.dump s.config, configs.modelPath s.config⟩ s.patches

end

/-! ### Where patches come from -/

section
variable {ε : Type} {root : Root} {coerce : ConfigPath root → Value → Except PathError Value} {p : ConfigPatch root}
  {source : ConfigSource} {specificity : Specificity} {out : List (ConfigPatch root)} {names : List (Option String)}
  {origin : String}

theorem compile_ok {raw : String} {p : ConfigPath root} (h : ConfigPath.compile root raw = .ok p) : p.raw = raw := by
  unfold ConfigPath.compile at h
  split at h
  · cases h
    rfl
  · cases h

theorem create_ok {raw : String} {v : Value}
    (h : ConfigPatch.create coerce raw v source specificity = .ok p) : p.path.raw = raw ∧ p.path.isPublic = true := by
  obtain ⟨path, hpath, h⟩ := bind_eq_ok.mp h
  obtain ⟨_, hwritable, h⟩ := bind_eq_ok.mp h
  obtain ⟨value, _, h⟩ := bind_eq_ok.mp h
  cases h
  refine ⟨compile_ok hpath, ?_⟩
  unfold ConfigPath.requireWritable at hwritable
  split at hwritable
  · assumption
  · cases hwritable

theorem mapError_eq_ok {α ε' : Type} {f : ε → ε'} {x : Except ε α} {a : α} (h : x.mapError f = .ok a) : x = .ok a := by
  cases x with
  | error e => cases h
  | ok b =>
    cases h
    rfl

theorem createOne_ok {e : String × Value} {here : List (ConfigPatch root)}
    (h : (((ConfigPatch.create coerce e.1 e.2 source specificity).map fun p => [p]).mapError
      (LoadError.path (ε := ε))) = .ok here) : ∃ p, here = [p] ∧ p.path.raw = e.1 ∧ p.path.isPublic = true := by
  have hmap := mapError_eq_ok h
  cases hp : ConfigPatch.create coerce e.1 e.2 source specificity with
  | error err =>
    rw [hp] at hmap
    cases hmap
  | ok p =>
    rw [hp] at hmap
    cases hmap
    exact ⟨p, rfl, create_ok hp⟩

/-- A patch is of one of the paths, and may be written. -/
theorem mem_createAll {pairs : List (String × Value)} (h : createAll (ε := ε) coerce source specificity pairs = .ok out)
    (hp : p ∈ out) : ∃ e ∈ pairs, p.path.raw = e.1 ∧ p.path.isPublic = true := by
  obtain ⟨e, he, here, hhere, hmem⟩ := mem_collect h hp
  obtain ⟨q, rfl, hq⟩ := createOne_ok hhere
  rw [List.mem_singleton] at hmem
  exact ⟨e, he, hmem ▸ hq⟩

/-- Every path has its patch. -/
theorem createAll_ok {pairs : List (String × Value)} (h : createAll (ε := ε) coerce source specificity pairs = .ok out)
    {e : String × Value} (he : e ∈ pairs) : ∃ p ∈ out, p.path.raw = e.1 ∧ p.path.isPublic = true := by
  obtain ⟨here, hhere, hsub⟩ := collect_ok h he
  obtain ⟨q, rfl, hq⟩ := createOne_ok hhere
  exact ⟨q, hsub q (List.mem_singleton_self q), hq⟩

mutual

theorem flattenValue_below {path : String} (v : Value) {out : List (String × Value)}
    (h : flattenValue root path v = .ok out) {e : String × Value} (he : e ∈ out) :
    e.1 = path ∨ ∃ rest, e.1 = path ++ "." ++ rest := by
  cases v with
  | dict entries =>
    simp only [flattenValue] at h
    obtain ⟨compiled, _, h⟩ := bind_eq_ok.mp h
    split at h
    · cases h
      exact .inl (by rw [List.mem_singleton.mp he])
    · exact .inr (flatten_below entries h he)
  | _ =>
    cases h
    exact .inl (by rw [List.mem_singleton.mp he])

/-- What is flattened stays below the path that it was found at. -/
theorem flatten_below {under : String} (entries : Entries) {out : List (String × Value)}
    (h : flatten root under entries = .ok out) {e : String × Value} (he : e ∈ out) :
    ∃ rest, e.1 = under ++ "." ++ rest := by
  cases entries with
  | nil =>
    cases h
    cases he
  | cons entry rest =>
    obtain ⟨key, child⟩ := entry
    simp only [flatten] at h
    obtain ⟨here, hhere, h⟩ := bind_eq_ok.mp h
    obtain ⟨others, hothers, h⟩ := bind_eq_ok.mp h
    cases h
    cases List.mem_append.mp he with
    | inl hmem =>
      cases flattenValue_below child hhere hmem with
      | inl heq => exact ⟨key, heq⟩
      | inr hbelow =>
        obtain ⟨deeper, hdeeper⟩ := hbelow
        exact ⟨key ++ "." ++ deeper, by rw [hdeeper]; simp only [String.append_assoc]⟩
    | inr hmem => exact flatten_below rest hothers hmem

end

/-- A text stays what it is. -/
theorem flatten_str {under key text : String} {entries : Entries} {out : List (String × Value)}
    (h : flatten root under entries = .ok out) (mem : (key, .str text) ∈ entries) :
    (under ++ "." ++ key, .str text) ∈ out := by
  induction entries generalizing out with
  | nil => cases mem
  | cons entry rest ih =>
    obtain ⟨k, child⟩ := entry
    simp only [flatten] at h
    obtain ⟨here, hhere, h⟩ := bind_eq_ok.mp h
    obtain ⟨others, hothers, h⟩ := bind_eq_ok.mp h
    cases h
    cases List.mem_cons.mp mem with
    | inl he =>
      cases he
      cases hhere
      exact List.mem_append_left _ (List.mem_singleton_self _)
    | inr hmem => exact List.mem_append_right _ (ih hothers hmem)

/-! ### Patches that spare the names of the stages -/

/-- The patch is not about the stages, or it is below a field of a stage that is not its name. -/
def ConfigPatch.SparesNames (p : ConfigPatch root) : Prop :=
  (∃ step rest, p.path.steps = step :: rest ∧ step.raw ≠ "stages") ∨
    ∃ x k rest, p.path.steps = ⟨"stages", false⟩ :: ⟨x, true⟩ :: ⟨k, false⟩ :: rest ∧ k ≠ "name"

/-- A path that begins with a stage's name and goes on. -/
theorem below_stage_parts (name rest : String) :
    ∃ x k more, splitDots ("stages." ++ name ++ "." ++ rest) = "stages" :: x :: k :: more ∧ x ∈ splitDots name ∧
      (splitDots name = [name] → k :: more = splitDots rest) := by
  have hraw : "stages." ++ name ++ "." ++ rest = "stages" ++ "." ++ (name ++ "." ++ rest) := by
    simp only [← String.append_assoc]
    rfl
  have hstages : splitDots "stages" = ["stages"] := by decide
  rw [hraw, splitDots_append, splitDots_append, hstages]
  obtain ⟨x, names, hname⟩ := List.exists_cons_of_ne_nil (splitDots_ne_nil name)
  obtain ⟨r, others, hrest⟩ := List.exists_cons_of_ne_nil (splitDots_ne_nil rest)
  rw [hname, hrest]
  cases names with
  | nil => exact ⟨x, r, others, rfl, List.mem_cons_self, fun _ => rfl⟩
  | cons y names =>
    refine ⟨x, y, names ++ r :: others, rfl, List.mem_cons_self, fun h => ?_⟩
    cases (List.cons.inj h).2

theorem sparesNames_of_stage {name rest : String}
    (raw : p.path.raw = "stages." ++ name ++ "." ++ rest) (isPublic : p.path.isPublic = true) : p.SparesNames := by
  obtain ⟨x, k, more, hparts, _, _⟩ := below_stage_parts name rest
  rw [← raw] at hparts
  obtain ⟨steps, hsteps, _⟩ := p.path.below_stage hparts
  exact .inr ⟨x, k, steps, hsteps, (p.path.public_below_stage hparts isPublic).1⟩

theorem sparesNames_of_field {key : String} (plain : '.' ∉ key.toList) (hne : key ≠ "stages")
    (raw : p.path.raw = key ∨ ∃ rest, p.path.raw = key ++ "." ++ rest) : p.SparesNames := by
  have hkey := splitDots_of_plain plain
  have hparts : ∃ more, splitDots p.path.raw = key :: more := by
    cases raw with
    | inl h => exact ⟨[], by rw [h, hkey]⟩
    | inr h =>
      obtain ⟨rest, hrest⟩ := h
      exact ⟨splitDots rest, by rw [hrest, splitDots_append, hkey]; rfl⟩
  obtain ⟨more, hparts⟩ := hparts
  have hsteps := p.path.steps_raw
  rw [hparts] at hsteps
  cases h : p.path.steps with
  | nil =>
    rw [h] at hsteps
    cases hsteps
  | cons step rest =>
    rw [h] at hsteps
    exact .inl ⟨step, rest, h, (List.cons.inj hsteps).1 ▸ hne⟩

/-- The document lists stages of these names. -/
def ListsStages (names : List (Option String)) (data : Value) : Prop :=
  ∃ entries items, data = .dict entries ∧ entries.lookup "stages" = some (.list items) ∧ items.map entryName = names

theorem entryName_of_isNamed {x : String} {v : Value} (h : isNamed x v = true) : entryName v = some x := by
  cases v with
  | dict entries =>
    unfold isNamed at h
    unfold entryName
    cases hname : entries.lookup "name" with
    | none => simp [hname] at h
    | some w =>
      cases w with
      | str s => simpa [hname] using h
      | _ => simp [hname] at h
  | _ => simp [isNamed] at h

/-- An update below a field that is not the name keeps the name. -/
theorem entryName_updateAt {k : String} {rest : List Step} {f : Option Value → Value} {x : String} {v u : Value}
    (named : isNamed x v = true) (hk : k ≠ "name") (h : updateAt (⟨k, false⟩ :: rest) f (some v) = some u) :
    entryName u = entryName v := by
  cases v with
  | dict entries =>
    rw [updateAt_dict rfl] at h
    obtain ⟨w, _, rfl⟩ := Option.map_eq_some_iff.mp h
    simp only [entryName, lookup_insertKey, if_neg (Ne.symm hk)]
  | _ => simp [isNamed] at named

/-- A patch that spares the names leaves the stages their names; one that is below a stage needs the stage. -/
theorem applyPatch_listsStages (spares : p.SparesNames)
    {data after : Value} (lists : ListsStages names data) (h : applyPatch data p = some after) :
    ListsStages names after ∧ ∀ x rest, p.path.steps = ⟨"stages", false⟩ :: ⟨x, true⟩ :: rest → some x ∈ names := by
  obtain ⟨entries, items, rfl, hlookup, hnames⟩ := lists
  rw [applyPatch_eq_update] at h
  obtain ⟨step, rest, hsteps, hne⟩ | ⟨x, k, rest, hsteps, hk⟩ := spares
  · rw [hsteps] at h
    refine ⟨?_, fun x rest' hx => ?_⟩
    · obtain ⟨_, _, _, _, hc, _⟩ | ⟨entries', u, hc, _, _, rfl⟩ := updateAt_cons_some h
      · cases hc
      · cases hc
        exact ⟨_, items, rfl, by rw [lookup_insertKey, if_neg (Ne.symm hne), hlookup], hnames⟩
    · rw [hsteps] at hx
      exact absurd (congrArg Step.raw (List.cons.inj hx).1) hne
  · rw [hsteps, updateAt_dict rfl, hlookup] at h
    obtain ⟨list, hlist, rfl⟩ := Option.map_eq_some_iff.mp h
    obtain ⟨items', i, v, u, hc, _, hfind, hi, hnamed, hu, rfl⟩ | ⟨_, _, hc, _⟩ := updateAt_cons_some hlist
    · cases hc
      have hentry : (items.set i u).map entryName = names := by
        obtain ⟨hlt, hv⟩ := List.getElem?_eq_some_iff.mp hi
        have hself : (items.map entryName).set i (entryName v) = items.map entryName := by
          rw [← List.map_set, ← hv, List.set_getElem_self hlt]
        rw [List.map_set, entryName_updateAt hnamed hk hu, hself, hnames]
      refine ⟨⟨_, _, rfl, by rw [lookup_insertKey, if_pos rfl], hentry⟩, fun y rest' hy => ?_⟩
      rw [hsteps] at hy
      have hxy : x = y := congrArg Step.raw (List.cons.inj (List.cons.inj hy).2).1
      rw [← hnames, ← hxy, ← entryName_of_isNamed hnamed]
      exact List.mem_map_of_mem (List.mem_of_getElem? hi)
    · cases hc

/-- Over a whole set of patches. -/
theorem applyAll_listsStages {patches : List (ConfigPatch root)}
    (spares : ∀ p ∈ patches, p.SparesNames) {data after : Value} (lists : ListsStages names data)
    (h : (ordered patches).foldlM applyPatch data = some after) :
    ListsStages names after ∧
      ∀ p ∈ patches, ∀ x rest, p.path.steps = ⟨"stages", false⟩ :: ⟨x, true⟩ :: rest → some x ∈ names := by
  have hkeep : ∀ l : List (ConfigPatch root), (∀ p ∈ l, p ∈ patches) → ∀ s t, ListsStages names s →
      l.foldlM applyPatch s = some t → ListsStages names t := fun l hl s t hs ht =>
    foldlM_preserves (fun p hp s t hs ht => (applyPatch_listsStages (spares p (hl p hp)) hs ht).1) hs ht
  refine ⟨hkeep _ (fun p hp => mem_ordered.mp hp) data after lists h, fun p hp => ?_⟩
  obtain ⟨front, back, hsplit⟩ := List.append_of_mem (mem_ordered.mpr hp)
  rw [hsplit, List.foldlM_append] at h
  obtain ⟨before, hbefore, hrest⟩ := Option.bind_eq_some_iff.mp h
  rw [foldlM_cons] at hrest
  obtain ⟨next, hnext, _⟩ := Option.bind_eq_some_iff.mp hrest
  have hfront : ∀ q ∈ front, q ∈ patches := fun q hq => mem_ordered.mp (hsplit ▸ List.mem_append_left _ hq)
  exact (applyPatch_listsStages (spares p hp) (hkeep front hfront data before lists hbefore) hnext).2

theorem ListsStages.clearName {data : Value} (h : ListsStages names data) :
    ListsStages names (clearName data) := by
  obtain ⟨entries, items, rfl, hlookup, hnames⟩ := h
  refine ⟨_, items, rfl, ?_, hnames⟩
  rw [lookup_insertKey, if_neg (by decide), hlookup]

/-! ### The patches of a file -/

theorem mem_flatten_patches {under : String} {entries : Entries} (h : (do
      let pairs ← (flatten root under entries).mapError (LoadError.path (ε := ε))
      createAll coerce source specificity pairs) = .ok out) (hp : p ∈ out) :
    (∃ rest, p.path.raw = under ++ "." ++ rest) ∧ p.path.isPublic = true := by
  obtain ⟨pairs, hpairs, h⟩ := bind_eq_ok.mp h
  obtain ⟨e, he, hraw, hpublic⟩ := mem_createAll h hp
  rw [hraw]
  exact ⟨flatten_below entries (mapError_eq_ok hpairs) he, hpublic⟩

theorem patchesFromStage_ok {known : List String} {entry : String × Value}
    (h : patchesFromStage (ε := ε) coerce known origin entry = .ok out) :
    ∃ body, entry.2 = .dict body ∧ (do
      let pairs ← (flatten root ("stages." ++ entry.1) body).mapError (LoadError.path (ε := ε))
      createAll coerce ⟨.yamlFile, origin, ""⟩ .explicit pairs) = .ok out := by
  unfold patchesFromStage at h
  split at h
  · cases h
  · split at h
    · next body hbody =>
      split at h
      · cases h
      · split at h
        · cases h
        · exact ⟨body, hbody, h⟩
    · cases h

theorem spares_stages {known : List String} {block : Value}
    (h : patchesFromStagesMapping (ε := ε) coerce block known origin = .ok out) (hp : p ∈ out) :
    p.SparesNames := by
  unfold patchesFromStagesMapping at h
  split at h
  · cases h
  · obtain ⟨entry, _, here, hhere, hmem⟩ := mem_collect h hp
    obtain ⟨body, _, hhere⟩ := patchesFromStage_ok hhere
    obtain ⟨⟨rest, hraw⟩, hpublic⟩ := mem_flatten_patches hhere hmem
    exact sparesNames_of_stage hraw hpublic
  · cases h

theorem spares_shared {names : List String} {block : Value}
    (h : patchesFromSharedBlock (ε := ε) coerce block names origin = .ok out) (hp : p ∈ out) :
    p.SparesNames := by
  unfold patchesFromSharedBlock at h
  split at h
  · obtain ⟨entry, _, here, hhere, hmem⟩ := mem_collect h hp
    unfold patchesFromSharedEntry at hhere
    split at hhere
    · split at hhere
      · cases hhere
      · simp only at hhere
        split at hhere
        · cases hhere
        · obtain ⟨matched, _, hhere⟩ := bind_eq_ok.mp hhere
          obtain ⟨name, _, found, hfound, hmem⟩ := mem_collect hhere hmem
          obtain ⟨⟨rest, hraw⟩, hpublic⟩ := mem_flatten_patches hfound hmem
          exact sparesNames_of_stage hraw hpublic
    · cases hhere
  · cases h

theorem spares_override {entry : String × Value} (plain : '.' ∉ entry.1.toList) (hne : entry.1 ≠ "stages")
    (h : patchesFromOverride (ε := ε) coerce origin entry = .ok out) (hp : p ∈ out) :
    p.SparesNames := by
  have hone : ∀ {source : ConfigSource} {specificity : Specificity},
      createAll (ε := ε) coerce source specificity [entry] = .ok out → p.SparesNames := fun hone => by
    obtain ⟨e, he, hraw, _⟩ := mem_createAll hone hp
    rw [List.mem_singleton.mp he] at hraw
    exact sparesNames_of_field plain hne (.inl hraw)
  unfold patchesFromOverride at h
  split at h
  · obtain ⟨compiled, _, h⟩ := bind_eq_ok.mp h
    split at h
    · exact hone h
    · exact sparesNames_of_field plain hne (.inr (mem_flatten_patches h hp).1)
  · exact hone h

end

/-! ### The dump of a config -/

theorem lookup_eraseKey (k : String) (entries : Entries) (x : String) :
    (eraseKey k entries).lookup x = if x = k then none else entries.lookup x :=
  Dict.lookup_filter_ne k entries x

theorem mem_of_lookup {entries : Entries} {k : String} {v : Value} (h : entries.lookup k = some v) :
    (k, v) ∈ entries := by
  obtain ⟨before, after, rfl, _⟩ := List.lookup_eq_some_iff.mp h
  exact List.mem_append_right _ List.mem_cons_self

theorem stageBody_factory {entries : Entries} {factory : String}
    (h : entries.lookup "factory_path" = some (.str factory)) :
    (stageBody entries).lookup "factory_path" = some (.str factory) := by
  have hname : (eraseKey "name" entries).lookup "factory_path" = some (.str factory) := by
    rw [lookup_eraseKey, if_neg (by decide), h]
  unfold stageBody
  simp only
  split
  · rw [lookup_eraseKey, if_neg (by decide), hname]
  · exact hname

/-- The entry of a stage in the mapping has the path of a factory. -/
def HasFactory (stages : Entries) (name : String) : Prop :=
  ∃ body factory, stages.lookup name = some (.dict body) ∧ body.lookup "factory_path" = some (.str factory)

theorem addStage_factory {stages : Entries} {item : Value} (dump : IsStageDump item) (name : String)
    (h : some name = entryName item ∨ HasFactory stages name) : HasFactory (addStage stages item) name := by
  obtain ⟨body, own, factory, rfl, hname, hfactory⟩ := dump
  have hadd : addStage stages (.dict body) = insertKey own (.dict (stageBody body)) stages := by
    simp only [addStage, hname]
  have hentry : entryName (.dict body) = some own := by simp only [entryName, hname]
  rw [hadd]
  by_cases hown : name = own
  · exact ⟨stageBody body, factory, by rw [lookup_insertKey, if_pos hown], stageBody_factory hfactory⟩
  · cases h with
    | inl h =>
      rw [hentry] at h
      exact absurd (Option.some.inj h) hown
    | inr h =>
      obtain ⟨body', factory', hlookup, hbody⟩ := h
      exact ⟨body', factory', by rw [lookup_insertKey, if_neg hown, hlookup], hbody⟩

/-- Every stage has its entry in the mapping, with the path of a factory. -/
theorem stagesMapping_factory {items : List Value} (dumps : ∀ item ∈ items, IsStageDump item) {name : String}
    (mem : some name ∈ items.map entryName) : HasFactory (stagesMapping items) name := by
  have hfold : ∀ (l : List Value) (stages : Entries), (∀ item ∈ l, IsStageDump item) →
      some name ∈ l.map entryName ∨ HasFactory stages name → HasFactory (l.foldl addStage stages) name := by
    intro l
    induction l with
    | nil =>
      intro stages _ h
      cases h with
      | inl h => cases h
      | inr h => exact h
    | cons item rest ih =>
      intro stages hdumps h
      apply ih _ fun x hx => hdumps x (List.mem_cons_of_mem item hx)
      have hitem := hdumps item List.mem_cons_self
      cases h with
      | inl h =>
        cases List.mem_cons.mp h with
        | inl he => exact .inr (addStage_factory hitem name (.inl he))
        | inr hmem => exact .inl hmem
      | inr h => exact .inr (addStage_factory hitem name (.inr h))
  exact hfold items [] dumps (.inl mem)

section
variable {C ε : Type} {configs : Configs C}

theorem dumpUserConfig_stages (c : C) :
    (dumpUserConfig configs c).lookup "stages" = some (.dict (stagesMapping (configs.stages c))) := by
  have hstages : (eraseKey "entry_stage" (configs.dumpJson c)).lookup "stages" = some (.list (configs.stages c)) := by
    rw [lookup_eraseKey, if_neg (by decide), configs.stages_dumped]
  unfold dumpUserConfig
  simp only [hstages]
  rw [lookup_insertKey, if_pos rfl]

/-- The keys of the dump are fields of the pipeline. -/
theorem dumpUserConfig_plain (c : C) {e : String × Value} (he : e ∈ dumpUserConfig configs c)
    (hne : e.1 ≠ "stages") : '.' ∉ e.1.toList := by
  have hinsert : ∀ (v : Value) (l : Entries), e ∈ insertKey "stages" v l → e ∈ l := by
    intro v l
    induction l with
    | nil =>
      intro h
      rw [insertKey, List.mem_singleton] at h
      exact absurd (h ▸ rfl) hne
    | cons x rest ih =>
      intro h
      unfold insertKey at h
      split at h
      · cases List.mem_cons.mp h with
        | inl he => exact absurd (he ▸ rfl) hne
        | inr hmem => exact List.mem_cons_of_mem x hmem
      · split at h
        · cases List.mem_cons.mp h with
          | inl he => exact absurd (he ▸ rfl) hne
          | inr hmem => exact hmem
        · cases List.mem_cons.mp h with
          | inl he => exact he ▸ List.mem_cons_self
          | inr hmem => exact List.mem_cons_of_mem x (ih hmem)
  have hdump : e ∈ configs.dumpJson c := by
    unfold dumpUserConfig at he
    simp only at he
    split at he
    · exact List.mem_of_mem_filter (hinsert _ _ he)
    · exact List.mem_of_mem_filter (hinsert _ _ he)
  exact configs.fields_plain c e hdump

/-! ### The dump cannot be loaded -/

/-- What a file that could be loaded holds: its patches spare the names of the stages, and every stage of the file has
a patch for the path of its factory. -/
theorem sources_ok {registry : Value → Option (ConfigClass configs ε)}
    {coerce : ∀ root : Root, ConfigPath root → Value → Except PathError Value} {origin : String} {data : Entries}
    {s : Sources configs ε} {stages : Entries} (h : sourcesFromConfigFile registry coerce origin data = .ok s)
    (hstages : data.lookup "stages" = some (.dict stages))
    (plain : ∀ e ∈ data, e.1 ≠ "stages" → '.' ∉ e.1.toList) :
    (∀ p ∈ s.patches, p.SparesNames) ∧ ∀ name, HasFactory stages name →
      ∃ p ∈ s.patches, p.path.raw = "stages." ++ name ++ ".factory_path" ∧ p.path.isPublic = true := by
  unfold sourcesFromConfigFile at h
  split at h
  · cases h
  · split at h
    · cases h
    · split at h
      · cases h
      · obtain ⟨config, _, h⟩ := bind_eq_ok.mp h
        obtain ⟨top, htop, h⟩ := bind_eq_ok.mp h
        obtain ⟨below, hbelow, h⟩ := bind_eq_ok.mp h
        obtain ⟨shared, hshared, h⟩ := bind_eq_ok.mp h
        cases h
        simp only [hstages, whenGiven] at hbelow
        have hmapping := hbelow
        simp only [patchesFromStagesMapping] at hbelow
        refine ⟨fun p hp => ?_, fun name hfactory => ?_⟩
        · cases List.mem_append.mp hp with
          | inl hp =>
            cases List.mem_append.mp hp with
            | inl hp =>
              obtain ⟨entry, hentry, here, hhere, hmem⟩ := mem_collect htop hp
              obtain ⟨hin, hout⟩ := List.mem_filter.mp hentry
              have hne : entry.1 ≠ "stages" := fun he => by simp [he] at hout
              exact spares_override (plain entry hin hne) hne hhere hmem
            | inr hp => exact spares_stages hmapping hp
          | inr hp =>
            unfold whenGiven at hshared
            split at hshared
            · cases hshared
              cases hp
            · cases hshared
              cases hp
            · exact spares_shared hshared hp
        · obtain ⟨body, factory, hlookup, hbody⟩ := hfactory
          have hmem : (name, Value.dict body) ∈ stages := mem_of_lookup hlookup
          obtain ⟨here, hhere, hsub⟩ := collect_ok hbelow hmem
          obtain ⟨body', hbody', hhere⟩ := patchesFromStage_ok hhere
          cases hbody'
          obtain ⟨pairs, hpairs, hcreate⟩ := bind_eq_ok.mp hhere
          have hpair := flatten_str (mapError_eq_ok hpairs) (mem_of_lookup hbody)
          obtain ⟨p, hp, hraw, hpublic⟩ := createAll_ok hcreate hpair
          refine ⟨p, ?_, hraw.trans ?_, hpublic⟩
          · exact List.mem_append_left _ (List.mem_append_right _ (hsub p hp))
          · simp only [String.append_assoc]
            rfl

theorem listsStages_dump (c : C) : ListsStages ((configs.stages c).map entryName) (configs.dump c) := by
  have hnames := configs.names_dumped c
  have hne : (configs.stages c).map entryName ≠ [] := fun h => configs.stages_ne_nil c (List.map_eq_nil_iff.mp h)
  unfold stageNames at hnames
  split at hnames
  · next items hread =>
    cases hdump : configs.dump c with
    | dict entries =>
      rw [hdump, readAt_dict rfl] at hread
      obtain ⟨v, hv, hitems⟩ := Option.bind_eq_some_iff.mp hread
      cases hitems
      exact ⟨entries, items, rfl, hv, hnames⟩
    | _ =>
      rw [hdump] at hread
      cases hread
  · exact absurd hnames.symm hne

/-- **No dump can be loaded.** Whatever the config, loading its dump and resolving it over the model's own config fails,
or gives another config. -/
theorem dump_never_reloads (registry : Value → Option (ConfigClass configs ε))
    (coerce : ∀ root : Root, ConfigPath root → Value → Except PathError Value) (origin : String) (c : C) :
    ¬ ∃ s r, sourcesFromConfigFile registry coerce origin (dumpUserConfig configs c) = .ok s ∧
      s.resolve = .ok r ∧ r.config = c := by
  intro ⟨s, r, hload, hresolve, hc⟩
  subst hc
  obtain ⟨hspares, hfactory⟩ := sources_ok hload (dumpUserConfig_stages r.config)
    fun e he => dumpUserConfig_plain r.config he
  obtain ⟨_, data, hdata, hdocument, hbuild⟩ := resolve_ok hresolve
  obtain ⟨hlists, hneeds⟩ := applyAll_listsStages hspares (listsStages_dump s.config) hdata
  have hfinal : ListsStages ((configs.stages s.config).map entryName) r.document := by
    rw [hdocument]
    split
    · exact hlists.clearName
    · exact hlists
  -- The config that was built has the stages of the baseline.
  have hnames : (configs.stages r.config).map entryName = (configs.stages s.config).map entryName := by
    obtain ⟨entries, items, hdoc, hlookup, hitems⟩ := hfinal
    have hdicts : ∀ item ∈ items, ∃ entries, item = .dict entries := by
      intro item hitem
      obtain ⟨stage, hstage, hsame⟩ := List.mem_map.mp (hitems ▸ List.mem_map_of_mem hitem)
      obtain ⟨body, name, _, rfl, hname, _⟩ := configs.isStageDump _ stage hstage
      cases item with
      | dict entries => exact ⟨entries, rfl⟩
      | _ => simp [entryName, hname] at hsame
    rw [← hitems]
    apply s.cls.build_names r.document items r.config hbuild _ hdicts
    rw [hdoc, readAt_dict rfl, hlookup]
    rfl
  -- The path of a factory goes below another stage, one that has no dot in its name.
  have hstage : ∀ name, some name ∈ (configs.stages r.config).map entryName →
      splitDots name ≠ [name] ∧ ∃ x ∈ splitDots name, some x ∈ (configs.stages r.config).map entryName := by
    intro name hname
    obtain ⟨p, hp, hraw, hpublic⟩ := hfactory name (stagesMapping_factory (configs.isStageDump r.config) hname)
    obtain ⟨x, k, more, hparts, hx, hlast⟩ := below_stage_parts name "factory_path"
    have hraw' : p.path.raw = "stages." ++ name ++ "." ++ "factory_path" := by
      rw [hraw]
      simp only [String.append_assoc]
      rfl
    rw [← hraw'] at hparts
    refine ⟨fun hplain => ?_, x, hx, ?_⟩
    · have hk : k :: more = ["factory_path"] := (hlast hplain).trans (by decide)
      exact (p.path.public_below_stage hparts hpublic).2 (List.cons.inj hk).1 (List.cons.inj hk).2
    · obtain ⟨steps, hsteps, _⟩ := p.path.below_stage hparts
      rw [hnames]
      exact hneeds p hp x _ hsteps
  obtain ⟨item, rest, hitems⟩ := List.exists_cons_of_ne_nil (configs.stages_ne_nil r.config)
  have hitem : item ∈ configs.stages r.config := hitems ▸ List.mem_cons_self
  obtain ⟨body, name, _, rfl, hbody, _⟩ := configs.isStageDump r.config item hitem
  have hentry : entryName (.dict body) = some name := by simp only [entryName, hbody]
  have hmem : some name ∈ (configs.stages r.config).map entryName := hentry ▸ List.mem_map_of_mem hitem
  obtain ⟨_, x, hx, hxmem⟩ := hstage name hmem
  exact (hstage x hxmem).1 (splitDots_part hx)

end

/-! ### A dump of one stage -/

/-- A pipeline of one stage and nothing else to configure. -/
def thinkerConfigs : Configs Unit where
  dump _ := thinkerDump []
  dumpJson _ := [("config_cls", .str "OmniPipelineConfig"), ("model_path", .str "m"), ("name", .str "m"),
    ("stages", .list [thinkerEntry []])]
  modelPath _ := "m"
  stages _ := [thinkerEntry []]
  stages_dumped _ := rfl
  stages_ne_nil _ := List.cons_ne_nil _ _
  isStageDump _ item h := by
    rw [List.mem_singleton.mp h]
    exact ⟨_, "thinker", "f", rfl, rfl, rfl⟩
  fields_plain _ e h := by
    simp only [List.mem_cons, List.not_mem_nil, or_false] at h
    obtain rfl | rfl | rfl | rfl := h <;> simp
  names_dumped _ := rfl

/-- Its class takes its own stage only. -/
def thinkerClass : ConfigClass thinkerConfigs Unit where
  root := engineRoot
  build data :=
    match readAt [⟨"stages", false⟩] data with
    | some (.list items) => if items.map entryName = [some "thinker"] then .ok () else .error ()
    | _ => .ok ()
  missing _ := []
  build_names data items c h list _ := by
    simp only [list] at h
    split at h
    · next hnames =>
      rw [hnames]
      rfl
    · cases h

/-- The dump of the pipeline is refused: a file may not set the path of a factory. -/
theorem dump_refused :
    sourcesFromConfigFile (fun _ => some thinkerClass) (fun _ _ v => .ok v) "dump.yaml"
      (dumpUserConfig thinkerConfigs ()) = .error (.path (.notWritable "stages.thinker.factory_path")) := by
  rfl

end SglangOmni.Config
