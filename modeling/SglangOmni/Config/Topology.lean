import SglangOmni.Config.Schema

/-! The logical processes of a pipeline: which stages share one, and how often it is copied.

`compile_logical_processes` groups the stages by process, attaches the replica policy and checks the devices
and the edges that may not leave a process. Its plan lists every process once, with its members in the order of the
config (`compileLogicalProcesses_ok`), and every stage is a member of exactly one. -/
namespace SglangOmni.Config
open Lib Pipeline

/-! ### The plan -/

/-- `LogicalProcess`, with what its replicas need: the devices of each. -/
structure ProcessPlan extends LogicalProcess where
  tpSize : Nat
  replicaDevices : Option (List (List Int))

/-- The devices of each replica, in order. -/
def splitDevices (deviceIds : List Int) (numReplicas tpSize : Nat) : List (List Int) :=
  (List.range numReplicas).map fun index => (deviceIds.drop (index * tpSize)).take tpSize

/-- `_resolve_replica_devices`. -/
def resolveReplicaDevices (processName : String) (stages : List StageConfig) (policy : ProcessConfig) (tpSize : Nat) :
    Except ConfigError (Option (List (List Int))) :=
  let hasGpuStage := stages.any fun s => s.gpu.isSome
  match policy.replicaDevices with
  | none =>
    if 1 < policy.numReplicas ∧ hasGpuStage then
      .error (.devicesRequired processName policy.numReplicas (policy.numReplicas * tpSize))
    else .ok none
  | some deviceIds =>
    if !hasGpuStage then .error (.devicesOnHost processName)
    else if (deviceIds.length : Int) ≠ policy.numReplicas * tpSize then
      .error (.devicesCount processName deviceIds.length policy.numReplicas tpSize)
    else
      let replicaDevices := splitDevices deviceIds policy.numReplicas.toNat tpSize
      match replicaDevices.zipIdx.find? (fun d => ¬ d.1.Nodup) with
      | some (devices, replicaId) => .error (.devicesUnique processName replicaId devices)
      | none => .ok (some replicaDevices)

/-- `_build_logical_process`. -/
def buildLogicalProcess (name : String) (stages : List StageConfig) (processCfg : Option ProcessConfig) :
    Except ConfigError ProcessPlan :=
  let policy := processCfg.getD {}
  let tpSize := (stages.map StageConfig.tpSize).foldl max 0
  match resolveReplicaDevices name stages policy tpSize with
  | .error e => .error e
  | .ok replicaDevices =>
    .ok { name, stageNames := stages.map StageConfig.name, numReplicas := policy.numReplicas.toNat, tpSize,
          replicaDevices }

/-- `_pipeline_edges`. -/
def pipelineEdges (stages : List StageConfig) : List (String × String) :=
  stages.flatMap fun s =>
    (((s.next.map Next.targets).getD [] ++ s.streamTo).map fun target => (s.name, target)) ++
      (s.waitFor.getD []).map fun source => (source, s.name)

/-- `stage_to_process`. -/
def stageToProcess (processes : List ProcessPlan) : Dict String String :=
  processes.foldl (fun d p => p.stageNames.foldl (fun d stage => d.set stage p.name) d) ∅

/-- `_cross_process_edges`. -/
def crossProcessEdges (stages : List StageConfig) (processes : List ProcessPlan) : List (String × String) :=
  let process := (stageToProcess processes).get?
  (pipelineEdges stages).filter fun e => process e.1 ≠ process e.2

/-- `compile_logical_processes`; the stages it returns are copies of the config's. -/
def compileLogicalProcesses (c : PipelineConfig) : Except ConfigError (List ProcessPlan) :=
  match (groupStagesByProcess c.stages).entries.mapM fun e => buildLogicalProcess e.1 e.2 (c.processes.get? e.1) with
  | .error e => .error e
  | .ok processes =>
    match (crossProcessEdges c.stages processes).filter (· ∈ c.processLocalEdges) with
    | [] => .ok processes
    | invalid => .error (.crossProcess invalid)

/-! ### Grouping -/

theorem get?_group (stages : List StageConfig) (members : Dict String (List StageConfig)) (p : String) :
    (stages.foldl (fun members s =>
        members.set (stageProcessName s) ((members.get? (stageProcessName s)).getD [] ++ [s])) members).get? p =
      if (stages.filter fun s => stageProcessName s = p) = [] then members.get? p
      else some ((members.get? p).getD [] ++ stages.filter fun s => stageProcessName s = p) := by
  induction stages generalizing members with
  | nil => rfl
  | cons s rest ih =>
    rw [List.foldl_cons, ih, Dict.get?_set]
    by_cases hs : stageProcessName s = p
    · subst hs
      have hcons : ((s :: rest).filter fun s' => stageProcessName s' = stageProcessName s) =
          s :: rest.filter fun s' => stageProcessName s' = stageProcessName s := by simp
      rw [hcons, if_pos rfl, if_neg (List.cons_ne_nil _ _)]
      split
      · next hnil => simp [hnil]
      · simp
    · have hskip : ((s :: rest).filter fun s' => stageProcessName s' = p) =
          rest.filter fun s' => stageProcessName s' = p := by simp [hs]
      rw [hskip, if_neg (Ne.symm hs)]

/-- A process has the stages that name it, in the order of the config. -/
theorem mem_members {stages : List StageConfig} {p : String} {members : List StageConfig} :
    (p, members) ∈ (groupStagesByProcess stages).entries ↔
      members = (stages.filter fun s => stageProcessName s = p) ∧ members ≠ [] := by
  rw [Dict.mem_entries, groupStagesByProcess, get?_group, Dict.get?_empty]
  split
  · next hnil =>
    rw [hnil]
    constructor
    · intro h
      cases h
    · intro h
      exact absurd h.1 h.2
  · next hne =>
    rw [Option.getD_none, List.nil_append, Option.some.injEq]
    constructor
    · intro h
      exact ⟨h.symm, h ▸ hne⟩
    · intro h
      exact h.1.symm

/-! ### Compilation -/

theorem forall₂_of_mapM {α β ε : Type} {f : α → Except ε β} {l : List α} {r : List β} (h : l.mapM f = .ok r) :
    List.Forall₂ (fun a b => f a = .ok b) l r := by
  induction l generalizing r with
  | nil =>
    cases h
    exact .nil
  | cons a rest ih =>
    rw [List.mapM_cons] at h
    cases ha : f a with
    | error e => simp [ha, bind, Except.bind] at h
    | ok b =>
      cases hrest : rest.mapM f with
      | error e => simp [ha, hrest, bind, Except.bind] at h
      | ok bs =>
        simp only [ha, hrest, bind, Except.bind, pure, Except.pure, Except.ok.injEq] at h
        subst h
        exact .cons ha (ih hrest)

theorem exists_of_forall₂ {α β : Type} {R : α → β → Prop} {l : List α} {r : List β} (h : List.Forall₂ R l r) {b : β}
    (hb : b ∈ r) : ∃ a ∈ l, R a b := by
  induction h with
  | nil => cases hb
  | cons hab _ ih =>
    rcases List.mem_cons.mp hb with rfl | hb
    · exact ⟨_, List.mem_cons_self .., hab⟩
    · obtain ⟨a, ha, hR⟩ := ih hb
      exact ⟨a, List.mem_cons_of_mem _ ha, hR⟩

theorem buildLogicalProcess_ok {name : String} {stages : List StageConfig} {processCfg : Option ProcessConfig}
    {p : ProcessPlan} (h : buildLogicalProcess name stages processCfg = .ok p) :
    p.name = name ∧ p.stageNames = stages.map StageConfig.name ∧
      p.numReplicas = (processCfg.getD {}).numReplicas.toNat := by
  unfold buildLogicalProcess at h
  cases hd : resolveReplicaDevices name stages (processCfg.getD {}) ((stages.map StageConfig.tpSize).foldl max 0) with
  | error e => simp [hd] at h
  | ok devices =>
    simp only [hd, Except.ok.injEq] at h
    subst h
    exact ⟨rfl, rfl, rfl⟩

/-- What a plan says: every process once, its members the stages that name it, and a positive number of replicas. -/
structure Compiled (c : PipelineConfig) (processes : List ProcessPlan) : Prop where
  distinct : (processes.map fun p => p.name).Nodup
  members : ∀ p ∈ processes, p.stageNames =
    (c.stages.filter fun s => stageProcessName s = p.name).map StageConfig.name
  plain : ∀ p ∈ processes, Plain p.name
  replicas : ∀ p ∈ processes, 1 ≤ p.numReplicas
  covered : ∀ s ∈ c.stages, ∃ p ∈ processes, p.name = stageProcessName s

variable {c : PipelineConfig}

theorem PipelineConfig.validate_parts (h : c.validate = none) :
    (∀ s ∈ c.stages, s.validate = none) ∧ (∀ e ∈ c.processes.entries, e.2.validate = none) ∧
      c.validateGeneral = none ∧ c.validateProcesses = none := by
  simpa only [PipelineConfig.validate, Option.orElse_eq_orElse, Option.orElse_eq_or, Option.or_eq_none_iff,
    List.findSome?_eq_none_iff] using h

theorem PipelineConfig.names_of_validate (h : c.validate = none) :
    (c.stages.map StageConfig.name).Nodup ∧ ∀ s ∈ c.stages, Plain s.name := by
  have hgeneral := (validate_parts h).2.2.1
  simp only [PipelineConfig.validateGeneral, Option.orElse_eq_orElse, Option.orElse_eq_or, Option.or_eq_none_iff,
    List.findSome?_eq_none_iff, check_eq_none] at hgeneral
  obtain ⟨_, _, hnames, _, _, hplain, _⟩ := hgeneral
  exact ⟨hnames, hplain⟩

theorem PipelineConfig.process_plain (h : c.validate = none) {e : String × List StageConfig}
    (he : e ∈ (groupStagesByProcess c.stages).entries) : Plain e.1 := by
  have hprocesses := (validate_parts h).2.2.2
  simp only [PipelineConfig.validateProcesses, Option.orElse_eq_orElse, Option.orElse_eq_or, Option.or_eq_none_iff,
    List.findSome?_eq_none_iff] at hprocesses
  have hprocess := hprocesses.1 e he
  simp only [validateProcess, Option.orElse_eq_orElse, Option.orElse_eq_or, Option.or_eq_none_iff,
    check_eq_none] at hprocess
  exact hprocess.1

/-- A policy that is not declared stands for one replica, and a declared one has at least one. -/
theorem PipelineConfig.numReplicas_pos (h : c.validate = none) (name : String) :
    1 ≤ ((c.processes.get? name).getD {}).numReplicas.toNat := by
  cases hp : c.processes.get? name with
  | none => exact Nat.le_refl 1
  | some p =>
    have hp' := (validate_parts h).2.1 (name, p) ((Dict.mem_entries ..).mpr hp)
    simp only [ProcessConfig.validate, Option.orElse_eq_orElse, Option.orElse_eq_or, Option.or_eq_none_iff,
      check_eq_none] at hp'
    have hpos := hp'.2.2
    simp only [Option.getD_some]
    omega

theorem compileLogicalProcesses_ok {processes : List ProcessPlan} (valid : c.validate = none)
    (h : compileLogicalProcesses c = .ok processes) : Compiled c processes := by
  have hbuilt : List.Forall₂ (fun e p => buildLogicalProcess e.1 e.2 (c.processes.get? e.1) = .ok p)
      (groupStagesByProcess c.stages).entries processes := by
    unfold compileLogicalProcesses at h
    split at h
    · cases h
    · next built hbuilt =>
      split at h
      · cases h
        exact forall₂_of_mapM hbuilt
      · cases h
  have hnames : processes.map (fun p => p.name) = (groupStagesByProcess c.stages).entries.map Prod.fst := by
    have hfst : List.Forall₂ (· = ·) ((groupStagesByProcess c.stages).entries.map Prod.fst)
        (processes.map fun p => p.name) :=
      List.forall₂_map_left_iff.mpr <| List.forall₂_map_right_iff.mpr <|
        hbuilt.imp fun _ _ hp => (buildLogicalProcess_ok hp).1.symm
    rw [List.forall₂_eq_eq_eq] at hfst
    exact hfst.symm
  have hmember : ∀ p ∈ processes, ∃ e ∈ (groupStagesByProcess c.stages).entries,
      buildLogicalProcess e.1 e.2 (c.processes.get? e.1) = .ok p := fun p hp => exists_of_forall₂ hbuilt hp
  refine ⟨?_, fun p hp => ?_, fun p hp => ?_, fun p hp => ?_, fun s hs => ?_⟩
  · rw [hnames]
    exact (groupStagesByProcess c.stages).nodup
  · obtain ⟨e, he, hbuild⟩ := hmember p hp
    obtain ⟨hname, hstages, _⟩ := buildLogicalProcess_ok hbuild
    rw [hstages, hname, (mem_members.mp he).1]
  · obtain ⟨e, he, hbuild⟩ := hmember p hp
    rw [(buildLogicalProcess_ok hbuild).1]
    exact c.process_plain valid he
  · obtain ⟨e, _, hbuild⟩ := hmember p hp
    rw [(buildLogicalProcess_ok hbuild).2.2]
    exact c.numReplicas_pos valid e.1
  · have hentry : (stageProcessName s, c.stages.filter fun s' => stageProcessName s' = stageProcessName s) ∈
        (groupStagesByProcess c.stages).entries := by
      refine mem_members.mpr ⟨rfl, List.ne_nil_of_mem (a := s) ?_⟩
      simpa using hs
    have hkey : stageProcessName s ∈ processes.map fun p => p.name := by
      rw [hnames]
      exact List.mem_map_of_mem hentry
    obtain ⟨p, hp, hname⟩ := List.mem_map.mp hkey
    exact ⟨p, hp, hname⟩

end SglangOmni.Config
