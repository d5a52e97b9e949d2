import SglangOmni.Pipeline.Replicas

/-! What a pipeline config declares, and what is checked of it when it is built.

The checks run in the order of the source and the first that fails is reported. The fields no check and
no process plan reads (engine and factory arguments, memory budgets, chunking, endpoints) are left out. -/
namespace SglangOmni.Config
open Lib Pipeline

/-! ### Stages -/

inductive Gpu where
  | one (id : Int)
  | many (ids : List Int)
  deriving DecidableEq

/-- `next`: one name or several. -/
inductive Next where
  | one (name : String)
  | many (names : List String)
  deriving DecidableEq

def Next.targets : Next → List String
  | .one name => [name]
  | .many names => names

structure StageConfig where
  name : String
  factoryPath : String
  next : Option Next := none
  terminal : Bool := false
  routeFn : Option String := none
  gpu : Option Gpu := none
  tpSize : Nat := 1
  /-- Stripped of blanks when the stage is built. -/
  process : Option String := none
  waitFor : Option (List String) := none
  waitForFn : Option String := none
  mergeFn : Option String := none
  streamTo : List String := []
  streamDoneToFn : Option String := none
  /-- The stages that have a projection. -/
  projectPayload : List String := []
  deriving DecidableEq

structure ProcessConfig where
  numReplicas : Int := 1
  replicaDevices : Option (List Int) := none
  deriving DecidableEq

structure PipelineConfig where
  modelPath : String
  stages : List StageConfig
  entryStage : Option String := none
  processes : Dict String ProcessConfig := ∅
  /-- `process_local_edges`, declared by the pipeline's class. -/
  processLocalEdges : List (String × String) := []

inductive ConfigError where
  | tpSize (stage : String)
  | scalarGpu (stage : String) (tpSize : Nat) (gpu : Int)
  | gpuEntries (stage : String) (entries tpSize : Nat)
  | gpuUnique (stage : String)
  | gpuNegative (stage : String)
  | gpuRequired (stage : String) (tpSize : Nat)
  | processEmpty (stage : String)
  | numReplicas
  | devicesEmpty
  | devicesNegative
  | modelPath
  | noStage
  | duplicateNames
  | entryStage (entry : String)
  | missingFactory (stage : String)
  | nextOrTerminal (stage : String)
  | routeOnTerminal (stage : String)
  | streamDoneToFn (stage : String)
  | mergeFn (stage : String)
  | waitForUnknown (stage : String) (unknown : List String)
  | waitForFn (stage : String)
  | nextUnknown (stage : String) (unknown : List String)
  | streamToUnknown (stage target : String)
  | projectUnknown (stage target : String)
  | stageSuffix (stage : String)
  | missingProcess (stages : List String)
  | processSuffix (process : String)
  | manyTp (process : String) (stages : List String)
  | sharedTp (process : String) (stage : String) (others : List String)
  | unknownProcesses (names : List String)
  | devicesRequired (process : String) (numReplicas devices : Int)
  | devicesOnHost (process : String)
  | devicesCount (process : String) (devices : Nat) (numReplicas : Int) (tpSize : Nat)
  | devicesUnique (process : String) (replicaId : Nat) (devices : List Int)
  | crossProcess (edges : List (String × String))
  deriving DecidableEq

/-- A check: nothing, or the error it reports. -/
def check (ok : Prop) [Decidable ok] (error : ConfigError) : Option ConfigError :=
  if ok then none else some error

@[simp] theorem check_eq_none {ok : Prop} [Decidable ok] {error : ConfigError} :
    check ok error = none ↔ ok := by
  unfold check
  split <;> simp [*]

/-! ### Checks of one object -/

def Gpu.ids : Gpu → List Int
  | .one id => [id]
  | .many ids => ids

/-- `StageConfig.model_post_init`, after the bound declared on `tp_size`. -/
def StageConfig.validate (s : StageConfig) : Option ConfigError :=
  check (1 ≤ s.tpSize) (.tpSize s.name) <|>
  (match s.gpu with
  | none => none
  | some (.one id) => check (s.tpSize ≤ 1) (.scalarGpu s.name s.tpSize id)
  | some (.many ids) =>
    check (ids.length = s.tpSize) (.gpuEntries s.name ids.length s.tpSize) <|>
    check ids.Nodup (.gpuUnique s.name)) <|>
  check (s.process ≠ some "") (.processEmpty s.name) <|>
  match s.gpu with
  | none => check (s.tpSize ≤ 1) (.gpuRequired s.name s.tpSize)
  | some gpu =>
    check (gpu.ids.length = s.tpSize) (.gpuEntries s.name gpu.ids.length s.tpSize) <|>
    check (∀ id ∈ gpu.ids, 0 ≤ id) (.gpuNegative s.name) <|>
    check gpu.ids.Nodup (.gpuUnique s.name)

/-- `ProcessConfig.model_post_init`, and the validator of `replica_devices`. -/
def ProcessConfig.validate (p : ProcessConfig) : Option ConfigError :=
  check (p.replicaDevices ≠ some []) .devicesEmpty <|>
  check (∀ id ∈ p.replicaDevices.getD [], 0 ≤ id) .devicesNegative <|>
  check (1 ≤ p.numReplicas) .numReplicas

/-! ### Checks of the pipeline -/

/-- A text that is set and not empty. -/
def given (text : Option String) : Bool := text.getD "" ≠ ""

/-- `sorted` of a set of names. -/
def sorted (names : List String) : List String := names.dedup.mergeSort fun a b => ¬ b < a

/-- `_validate_general`, what it asks of one stage. -/
def validateStage (names : List String) (s : StageConfig) : Option ConfigError :=
  let waitFor := s.waitFor.getD []
  let targets := (s.next.map Next.targets).getD []
  check (s.factoryPath ≠ "") (.missingFactory s.name) <|>
  check (s.next.isSome ≠ s.terminal) (.nextOrTerminal s.name) <|>
  check (¬ (s.terminal ∧ s.routeFn.isSome)) (.routeOnTerminal s.name) <|>
  check (¬ (s.streamDoneToFn.isSome ∧ s.streamTo = [])) (.streamDoneToFn s.name) <|>
  (if waitFor ≠ [] then
    check (given s.mergeFn) (.mergeFn s.name) <|>
    check (∀ t ∈ waitFor, t ∈ names) (.waitForUnknown s.name (sorted (waitFor.filter (· ∉ names))))
  else check (s.waitForFn = none) (.waitForFn s.name)) <|>
  check (∀ t ∈ targets, t ∈ names) (.nextUnknown s.name (sorted (targets.filter (· ∉ names)))) <|>
  s.streamTo.findSome? (fun t => check (t ∈ names) (.streamToUnknown s.name t)) <|>
  s.projectPayload.findSome? (fun t => check (t ∈ names) (.projectUnknown s.name t))

/-- `resolved_entry_stage`. -/
def PipelineConfig.resolvedEntryStage (c : PipelineConfig) : String :=
  c.entryStage.getD ((c.stages.head?.map StageConfig.name).getD "")

/-- The name is not one of a replica instance. -/
def Plain (name : String) : Prop := (parseReplicaInstanceName name).2 = none

instance (name : String) : Decidable (Plain name) := inferInstanceAs (Decidable (_ = _))

/-- `_validate_general`. -/
def PipelineConfig.validateGeneral (c : PipelineConfig) : Option ConfigError :=
  let names := c.stages.map StageConfig.name
  let processless := c.stages.filter fun s => s.tpSize = 1 ∧ given s.process = false
  check (c.modelPath ≠ "") .modelPath <|>
  check (names ≠ []) .noStage <|>
  check names.Nodup .duplicateNames <|>
  check (c.resolvedEntryStage ∈ names) (.entryStage c.resolvedEntryStage) <|>
  c.stages.findSome? (validateStage names) <|>
  c.stages.findSome? (fun s => check (Plain s.name) (.stageSuffix s.name)) <|>
  check (processless = []) (.missingProcess (processless.map StageConfig.name))

/-- `stage_process_name`. A stage without tensor parallelism that declares no process is refused before
anybody asks for its process, so that no name is made up for it. -/
def stageProcessName (s : StageConfig) : String :=
  if given s.process then s.process.getD "" else s.name

/-- The stages of each process, in the order of the config. -/
def groupStagesByProcess (stages : List StageConfig) : Dict String (List StageConfig) :=
  stages.foldl (fun members s =>
    members.set (stageProcessName s) ((members.get? (stageProcessName s)).getD [] ++ [s])) ∅

/-- What `_validate_processes` asks of one process. -/
def validateProcess (processName : String) (stages : List StageConfig) : Option ConfigError :=
  let tpStages := (stages.filter fun s => 1 < s.tpSize).map StageConfig.name
  let others := (stages.map StageConfig.name).filter (· ∉ tpStages)
  check (Plain processName) (.processSuffix processName) <|>
  check (tpStages.length ≤ 1) (.manyTp processName tpStages) <|>
  check (tpStages = [] ∨ stages.length ≤ 1) (.sharedTp processName (tpStages.headD "") others)

/-- `_validate_processes`. -/
def PipelineConfig.validateProcesses (c : PipelineConfig) : Option ConfigError :=
  let members := groupStagesByProcess c.stages
  let unknown := c.processes.keys.filter (· ∉ members.keys)
  members.entries.findSome? (fun e => validateProcess e.1 e.2) <|>
  check (unknown = []) (.unknownProcesses (sorted unknown))

/-- The config can be built: every stage, every process policy, and the whole. -/
def PipelineConfig.validate (c : PipelineConfig) : Option ConfigError :=
  c.stages.findSome? StageConfig.validate <|>
  c.processes.entries.findSome? (fun e => e.2.validate) <|>
  c.validateGeneral <|>
  c.validateProcesses

end SglangOmni.Config
