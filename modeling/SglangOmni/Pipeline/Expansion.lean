import SglangOmni.Config.Topology

/-! Replica expansion: a process with `N` replicas is copied whole.

Every member stage of a replicated process gets `N` instances, in `N` instance processes; the other stages keep
their names. `replicas_consistent` puts the pieces together for every config that validation accepts: names made by
adding a suffix are never taken by somebody else, and what belongs to one process stays together. -/
namespace SglangOmni.Pipeline
open Lib Config

/-! ### Expansion -/

/-- `_replica_stage_gpu`; a replica has a device for each rank of a stage that runs on one. -/
def replicaStageGpu (s : StageConfig) (devices : Option (List Int)) : Option Gpu :=
  match devices, s.gpu with
  | some devices, some _ => if s.tpSize = 1 then some (.one (devices.headD 0)) else some (.many devices)
  | _, gpu => gpu

/-- The instances of every replicated stage. -/
def replicaTable (processes : List ProcessPlan) : Dict String (List String) :=
  processes.foldl (fun d p =>
    if p.isReplicated then
      p.stageNames.foldl (fun d stageName =>
        d.set stageName ((List.range p.numReplicas).map (replicaInstanceName stageName))) d
    else d) ∅

def stageByName (stages : List StageConfig) : Dict String StageConfig :=
  stages.foldl (fun d s => d.set s.name s) ∅

/-- The copy of a stage in one replica of its process. -/
def replicaStage (p : ProcessPlan) (replicaId : Nat) (s : StageConfig) : StageConfig :=
  { s with
    name := replicaInstanceName s.name replicaId
    gpu := replicaStageGpu s (p.replicaDevices.bind fun devices => devices[replicaId]?)
    process := some (replicaInstanceName p.name replicaId) }

/-- A process that is not replicated may still have its devices declared. -/
def soleStage (p : ProcessPlan) (s : StageConfig) : StageConfig :=
  { s with gpu := replicaStageGpu s (p.replicaDevices.bind fun devices => devices[0]?) }

/-- `expanded_by_stage`, what one process adds to it. -/
def expandProcess (byName : Dict String StageConfig) (d : Dict String (List StageConfig)) (p : ProcessPlan) :
    Dict String (List StageConfig) :=
  if p.isReplicated then
    (List.range p.numReplicas).foldl (fun d replicaId =>
      p.stageNames.foldl (fun d stageName =>
        d.modify stageName fun old =>
          (byName.get? stageName).map fun s => old.getD [] ++ [replicaStage p replicaId s]) d) d
  else if p.replicaDevices.isSome then
    p.stageNames.foldl (fun d stageName =>
      d.modify stageName fun _ => (byName.get? stageName).map fun s => [soleStage p s]) d
  else d

/-- `expand_replica_stages`. -/
def expandReplicaStages (stages : List StageConfig) (processes : List ProcessPlan) :
    List StageConfig × ReplicaTopology :=
  let expandedByStage := processes.foldl (expandProcess (stageByName stages)) ∅
  (stages.flatMap fun s => (expandedByStage.get? s.name).getD [s], ⟨replicaTable processes⟩)

/-! ### What a process adds for one stage -/

/-- The instances of a member stage. -/
def instancesOf (p : ProcessPlan) (s : StageConfig) : List StageConfig :=
  if p.isReplicated then (List.range p.numReplicas).map fun i => replicaStage p i s else [soleStage p s]

theorem get?_replicas (byName : Dict String StageConfig) (p : ProcessPlan) (ids : List Nat) {x : String}
    {s : StageConfig} (nodup : p.stageNames.Nodup) (mem : x ∈ p.stageNames) (known : byName.get? x = some s)
    (d : Dict String (List StageConfig)) :
    (ids.foldl (fun d replicaId =>
      p.stageNames.foldl (fun d stageName =>
        d.modify stageName fun old =>
          (byName.get? stageName).map fun s => old.getD [] ++ [replicaStage p replicaId s]) d) d).get? x =
      if ids = [] then d.get? x else some ((d.get? x).getD [] ++ ids.map fun i => replicaStage p i s) := by
  induction ids generalizing d with
  | nil => rfl
  | cons i rest ih =>
    have hturn := Dict.get?_foldl_modify (fun stageName (old : Option (List StageConfig)) =>
      (byName.get? stageName).map fun s => old.getD [] ++ [replicaStage p i s]) nodup d x
    rw [if_pos mem, known, Option.map_some, Option.some_or] at hturn
    rw [List.foldl_cons, ih, hturn, if_neg (List.cons_ne_nil _ _)]
    split
    · next hnil => simp [hnil]
    · simp

theorem get?_replicas_of_notMem (byName : Dict String StageConfig) (p : ProcessPlan) (ids : List Nat) {x : String}
    (nodup : p.stageNames.Nodup) (mem : x ∉ p.stageNames) (d : Dict String (List StageConfig)) :
    (ids.foldl (fun d replicaId =>
      p.stageNames.foldl (fun d stageName =>
        d.modify stageName fun old =>
          (byName.get? stageName).map fun s => old.getD [] ++ [replicaStage p replicaId s]) d) d).get? x =
      d.get? x := by
  induction ids generalizing d with
  | nil => rfl
  | cons i rest ih =>
    rw [List.foldl_cons, ih]
    rw [Dict.get?_foldl_modify _ nodup, if_neg mem]

theorem get?_expandProcess_of_notMem (byName : Dict String StageConfig) {p : ProcessPlan} {x : String}
    (nodup : p.stageNames.Nodup) (mem : x ∉ p.stageNames) (d : Dict String (List StageConfig)) :
    (expandProcess byName d p).get? x = d.get? x := by
  unfold expandProcess
  split
  · exact get?_replicas_of_notMem byName p _ nodup mem d
  · split
    · rw [Dict.get?_foldl_modify _ nodup, if_neg mem]
    · rfl

theorem replicaStageGpu_none (s : StageConfig) : replicaStageGpu s none = s.gpu := rfl

/-- A stage that nobody has expanded yet: its process gives it its instances, or leaves it alone where it has
just itself. -/
theorem get?_expandProcess (byName : Dict String StageConfig) {p : ProcessPlan} {x : String} {s : StageConfig}
    (nodup : p.stageNames.Nodup) (mem : x ∈ p.stageNames) (known : byName.get? x = some s)
    (d : Dict String (List StageConfig)) (fresh : d.get? x = none) :
    ((expandProcess byName d p).get? x).getD [s] = instancesOf p s := by
  unfold expandProcess instancesOf
  split
  · next hreplicated =>
    have hpos : List.range p.numReplicas ≠ [] := by
      simp only [LogicalProcess.isReplicated, decide_eq_true_eq] at hreplicated
      simp only [ne_eq, List.range_eq_nil]
      omega
    rw [get?_replicas byName p _ nodup mem known, if_neg hpos, fresh]
    simp
  · split
    · rw [Dict.get?_foldl_modify _ nodup, if_pos mem, known]
      simp
    · next hdevices =>
      have hnone : p.replicaDevices = none := by simpa using hdevices
      rw [fresh, Option.getD_none, soleStage, hnone, Option.bind_none, replicaStageGpu_none]

/-! ### What the plan says of one stage -/

section
variable {c : PipelineConfig} {processes : List ProcessPlan} {p : ProcessPlan} {s : StageConfig}

section
variable (names : (c.stages.map StageConfig.name).Nodup)
include names

theorem name_inj {a b : StageConfig} (ha : a ∈ c.stages)
    (hb : b ∈ c.stages) (h : a.name = b.name) : a = b :=
  List.inj_on_of_nodup_map names ha hb h

theorem mem_stageNames (compiled : Compiled c processes)
    (hp : p ∈ processes) (hs : s ∈ c.stages) : s.name ∈ p.stageNames ↔ p.name = stageProcessName s := by
  rw [compiled.members p hp]
  constructor
  · intro h
    obtain ⟨s', hs', hname⟩ := List.mem_map.mp h
    obtain ⟨hmem, hprocess⟩ := List.mem_filter.mp hs'
    rw [← name_inj names hmem hs hname]
    exact (of_decide_eq_true hprocess).symm
  · intro h
    exact List.mem_map_of_mem (List.mem_filter.mpr ⟨hs, by simp [h]⟩)

theorem stageNames_nodup (compiled : Compiled c processes)
    (hp : p ∈ processes) : p.stageNames.Nodup := by
  rw [compiled.members p hp]
  exact (List.filter_sublist.map StageConfig.name).nodup names

/-- A stage is a member of its own process only. -/
theorem notMem_stageNames (compiled : Compiled c processes)
    (hp : p ∈ processes) (hs : s ∈ c.stages) (hprocess : p.name = stageProcessName s) {q : ProcessPlan}
    (hq : q ∈ processes) (hne : q ≠ p) : s.name ∉ q.stageNames := fun hmem => by
  have hname := (mem_stageNames names compiled hq hs).mp hmem
  exact hne (List.inj_on_of_nodup_map compiled.distinct hq hp (hname.trans hprocess.symm))

theorem get?_stageByName (hs : s ∈ c.stages) :
    (stageByName c.stages).get? s.name = some s := by
  have hentries : stageByName c.stages =
      (c.stages.map fun s => (s.name, s)).foldl (fun d e => d.set e.1 e.2) ∅ := by
    rw [stageByName, List.foldl_map]
  have hnodup : ((c.stages.map fun s => (s.name, s)).map Prod.fst).Nodup := by
    rw [List.map_map]
    exact names
  rw [hentries, Dict.get?_foldl_set, Dict.lookup_reverse _ hnodup,
    (Dict.lookup_eq_some hnodup s.name s).mpr (List.mem_map_of_mem hs)]
  rfl

theorem expanded_stage (compiled : Compiled c processes)
    (hp : p ∈ processes) (hs : s ∈ c.stages) (hprocess : p.name = stageProcessName s) :
    ((processes.foldl (expandProcess (stageByName c.stages)) ∅).get? s.name).getD [s] = instancesOf p s := by
  have hmem := (mem_stageNames names compiled hp hs).mpr hprocess
  obtain ⟨d, hd, hloop⟩ := Dict.get?_foldl_of_one (f := expandProcess (stageByName c.stages)) (x := s.name)
    compiled.distinct.of_map hp (fun q hq hne d => get?_expandProcess_of_notMem _
      (stageNames_nodup names compiled hq) (notMem_stageNames names compiled hp hs hprocess hq hne) d) ∅
  rw [hloop]
  exact get?_expandProcess _ (stageNames_nodup names compiled hp) hmem (get?_stageByName names hs) d hd

theorem get?_replicaTable (compiled : Compiled c processes)
    (hp : p ∈ processes) (hs : s ∈ c.stages) (hprocess : p.name = stageProcessName s) :
    (replicaTable processes).get? s.name =
      if p.isReplicated then some ((List.range p.numReplicas).map (replicaInstanceName s.name)) else none := by
  have hmem := (mem_stageNames names compiled hp hs).mpr hprocess
  obtain ⟨d, hd, hloop⟩ := Dict.get?_foldl_of_one (x := s.name) (f := fun (d : Dict String (List String)) p =>
      if p.isReplicated then
        p.stageNames.foldl (fun d stageName =>
          d.set stageName ((List.range p.numReplicas).map (replicaInstanceName stageName))) d
      else d) compiled.distinct.of_map hp (fun q hq hne d => by
    have hnot := notMem_stageNames names compiled hp hs hprocess hq hne
    split
    · rw [Dict.get?_foldl_set_const, if_neg hnot]
    · rfl) ∅
  rw [replicaTable, hloop]
  split
  · rw [Dict.get?_foldl_set_const, if_pos hmem]
  · exact hd

end

end

/-! ### Instances -/

/-- The name of one instance of a member stage. -/
def instanceName (p : LogicalProcess) (stageName : String) (i : Nat) : String :=
  if p.isReplicated then replicaInstanceName stageName i else stageName

/-- The process that one instance of a process runs in. -/
def instanceProcess (p : LogicalProcess) (i : Nat) : String :=
  if p.isReplicated then replicaInstanceName p.name i else p.name

theorem replicaInstanceName_ne_empty (name : String) (i : Nat) : replicaInstanceName name i ≠ "" := by
  intro h
  have hparse := congrArg parseReplicaInstanceName h
  rw [parse_replicaInstanceName] at hparse
  have hempty : parseReplicaInstanceName "" = ("", none) := by decide
  simp [hempty] at hparse

theorem replicaInstanceName_not_plain (name : String) (i : Nat) : ¬ Plain (replicaInstanceName name i) := by
  simp [Plain, parse_replicaInstanceName]

/-- The instances of a stage, by name, and where each is placed. -/
theorem map_instancesOf {p : ProcessPlan} {s : StageConfig} (replicas : 1 ≤ p.numReplicas)
    (hprocess : p.name = stageProcessName s) :
    (instancesOf p s).map (fun e => (e.name, stageProcessName e)) =
      (List.range p.numReplicas).map fun i =>
        (instanceName p.toLogicalProcess s.name i, instanceProcess p.toLogicalProcess i) := by
  unfold instancesOf instanceName instanceProcess
  split
  · rw [List.map_map]
    refine List.map_congr_left fun i _ => ?_
    have hgiven : given (some (replicaInstanceName p.name i)) = true := by
      simp [given, replicaInstanceName_ne_empty]
    simp [replicaStage, stageProcessName, hgiven]
  · next hsole =>
    have hone : p.numReplicas = 1 := by
      simp only [LogicalProcess.isReplicated, gt_iff_lt, decide_eq_true_eq, Nat.not_lt] at hsole
      omega
    have hsame : stageProcessName (soleStage p s) = stageProcessName s := rfl
    rw [hone, List.range_one, List.map_singleton, List.map_singleton, hsame, ← hprocess]
    rfl

theorem map_name_instancesOf {p : ProcessPlan} {s : StageConfig} (replicas : 1 ≤ p.numReplicas)
    (hprocess : p.name = stageProcessName s) :
    (instancesOf p s).map StageConfig.name =
      (List.range p.numReplicas).map (instanceName p.toLogicalProcess s.name) := by
  have hboth := congrArg (List.map Prod.fst) (map_instancesOf replicas hprocess)
  rwa [List.map_map, List.map_map] at hboth

section
variable {c : PipelineConfig} {processes : List ProcessPlan} {p : ProcessPlan} {s : StageConfig}

/-- A config past validation, and its plan. -/
structure Expandable (c : PipelineConfig) (processes : List ProcessPlan) : Prop where
  names : (c.stages.map StageConfig.name).Nodup
  plain : ∀ s ∈ c.stages, Plain s.name
  compiled : Compiled c processes

/-- The topology of the expanded pipeline. -/
def topologyOf (processes : List ProcessPlan) : ReplicaTopology := ⟨replicaTable processes⟩

section
variable (h : Expandable c processes) (hp : p ∈ processes) (hs : s ∈ c.stages)
include h hp hs

theorem resolve_instance
    (hprocess : p.name = stageProcessName s) {i : Nat} (hi : i < p.numReplicas) :
    (topologyOf processes).resolve s.name i = .ok (instanceName p.toLogicalProcess s.name i) := by
  have htable := get?_replicaTable h.names h.compiled hp hs hprocess
  unfold ReplicaTopology.resolve instanceName topologyOf
  by_cases hreplicated : p.isReplicated = true
  · rw [if_pos hreplicated] at htable ⊢
    simp [htable, hi]
  · rw [if_neg hreplicated] at htable ⊢
    have hzero : i = 0 := by
      simp only [LogicalProcess.isReplicated, gt_iff_lt, decide_eq_true_eq, Nat.not_lt] at hreplicated
      omega
    simp [htable, hzero]

theorem resolve_beyond
    (hprocess : p.name = stageProcessName s) {i : Int} (hi : i < 0 ∨ p.numReplicas ≤ i) (name : String) :
    (topologyOf processes).resolve s.name i ≠ .ok name := by
  have htable := get?_replicaTable h.names h.compiled hp hs hprocess
  have hpos := h.compiled.replicas p hp
  unfold ReplicaTopology.resolve topologyOf
  by_cases hreplicated : p.isReplicated = true
  · rw [if_pos hreplicated] at htable
    by_cases hneg : 0 ≤ i
    · have hbeyond : (List.range p.numReplicas)[i.toNat]? = none := by
        rw [List.getElem?_eq_none_iff, List.length_range]
        omega
      simp [htable, hneg, hbeyond]
    · simp [htable, hneg]
  · rw [if_neg hreplicated] at htable
    have hne : i ≠ 0 := by omega
    simp [htable, hne]

theorem logicalName_instance
    (hprocess : p.name = stageProcessName s) {i : Nat} (hi : i < p.numReplicas) :
    (topologyOf processes).logicalName (instanceName p.toLogicalProcess s.name i) = s.name := by
  have htable := get?_replicaTable h.names h.compiled hp hs hprocess
  unfold ReplicaTopology.logicalName instanceName topologyOf
  by_cases hreplicated : p.isReplicated = true
  · rw [if_pos hreplicated] at htable ⊢
    simp only [parse_replicaInstanceName, htable]
    rw [if_pos (List.mem_map_of_mem (List.mem_range.mpr hi))]
  · rw [if_neg hreplicated]
    have hplain : (parseReplicaInstanceName s.name).2 = none := h.plain s hs
    have hparse : parseReplicaInstanceName s.name = ((parseReplicaInstanceName s.name).1, none) := by
      rw [← hplain]
    rw [hparse]

/-- What an expanded stage is called tells which stage it is an instance of. -/
theorem logicalName_of_mem
    (hprocess : p.name = stageProcessName s) {e : StageConfig} (he : e ∈ instancesOf p s) :
    (topologyOf processes).logicalName e.name = s.name := by
  have hname := List.mem_map_of_mem (f := StageConfig.name) he
  rw [map_name_instancesOf (h.compiled.replicas p hp) hprocess] at hname
  obtain ⟨i, hi, heq⟩ := List.mem_map.mp hname
  rw [← heq]
  exact logicalName_instance h hp hs hprocess (List.mem_range.mp hi)

end

/-- The expanded stages: for each stage of the config, its instances. -/
theorem expanded_eq (h : Expandable c processes) (hs : s ∈ c.stages) :
    ∃ p ∈ processes, p.name = stageProcessName s ∧
      ((processes.foldl (expandProcess (stageByName c.stages)) ∅).get? s.name).getD [s] = instancesOf p s := by
  obtain ⟨p, hp, hprocess⟩ := h.compiled.covered s hs
  exact ⟨p, hp, hprocess, expanded_stage h.names h.compiled hp hs hprocess⟩

theorem instancesOf_names_nodup (replicas : 1 ≤ p.numReplicas) (hprocess : p.name = stageProcessName s) :
    ((instancesOf p s).map StageConfig.name).Nodup := by
  rw [map_name_instancesOf replicas hprocess]
  refine List.nodup_range.map_on fun i hi j hj heq => ?_
  rw [List.mem_range] at hi hj
  unfold instanceName at heq
  split at heq
  · exact (replicaInstanceName_inj heq).2
  · next hsole =>
    simp only [LogicalProcess.isReplicated, gt_iff_lt, decide_eq_true_eq, Nat.not_lt] at hsole
    omega

theorem expanded_names_nodup (h : Expandable c processes) :
    ((expandReplicaStages c.stages processes).1.map StageConfig.name).Nodup := by
  have hdistinct : c.stages.Pairwise fun a b => a.name ≠ b.name := List.pairwise_map.mp h.names
  simp only [expandReplicaStages, List.map_flatMap]
  refine List.nodup_flatMap.mpr ⟨fun s hs => ?_, hdistinct.imp_of_mem fun {a b} ha hb hne => ?_⟩
  · obtain ⟨p, hp, hprocess, heq⟩ := expanded_eq h hs
    rw [heq]
    exact instancesOf_names_nodup (h.compiled.replicas p hp) hprocess
  · obtain ⟨p, hp, hprocess, heqa⟩ := expanded_eq h ha
    obtain ⟨q, hq, hprocess', heqb⟩ := expanded_eq h hb
    simp only [Function.onFun, heqa, heqb]
    intro name hmema hmemb
    obtain ⟨e, he, rfl⟩ := List.mem_map.mp hmema
    obtain ⟨e', he', hname⟩ := List.mem_map.mp hmemb
    have hla := logicalName_of_mem h hp ha hprocess he
    have hlb := logicalName_of_mem h hq hb hprocess' he'
    rw [hname] at hlb
    exact hne (hla.symm.trans hlb)

/-- Exactly the instances of a stage go by its logical name. -/
theorem filter_expanded (h : Expandable c processes) (hp : p ∈ processes) (hs : s ∈ c.stages)
    (hprocess : p.name = stageProcessName s) :
    ((expandReplicaStages c.stages processes).1.filter fun e => (topologyOf processes).logicalName e.name = s.name) =
      instancesOf p s := by
  have hpiece : ∀ a ∈ c.stages,
      ((((processes.foldl (expandProcess (stageByName c.stages)) ∅).get? a.name).getD [a]).filter fun e =>
        (topologyOf processes).logicalName e.name = s.name) = if a = s then instancesOf p s else [] := fun a ha => by
    obtain ⟨q, hq, hprocess', heq⟩ := expanded_eq h ha
    rw [heq]
    split
    · next hsame =>
      subst hsame
      have hqp : q = p := List.inj_on_of_nodup_map h.compiled.distinct hq hp (hprocess'.trans hprocess.symm)
      subst hqp
      refine List.filter_eq_self.mpr fun e he => ?_
      simp [logicalName_of_mem h hq ha hprocess' he]
    · next hne =>
      refine List.filter_eq_nil_iff.mpr fun e he => ?_
      rw [logicalName_of_mem h hq ha hprocess' he, decide_eq_true_iff]
      exact fun hname => hne (name_inj h.names ha hs hname)
  have hsingle : c.stages.flatMap (fun a => if a = s then instancesOf p s else []) = instancesOf p s := by
    obtain ⟨before, after, hsplit⟩ := List.append_of_mem hs
    have hnodup := h.names.of_map
    rw [hsplit] at hnodup ⊢
    obtain ⟨_, hafter, hdisjoint⟩ := List.nodup_append.mp hnodup
    have hbefore : before.flatMap (fun a => if a = s then instancesOf p s else []) = [] :=
      List.flatMap_eq_nil_iff.mpr fun a ha => if_neg (hdisjoint a ha s (List.mem_cons_self ..))
    have hrest : after.flatMap (fun a => if a = s then instancesOf p s else []) = [] :=
      List.flatMap_eq_nil_iff.mpr fun a ha => if_neg fun he : a = s =>
        (List.nodup_cons.mp hafter).1 (he ▸ ha)
    rw [List.flatMap_append, List.flatMap_cons, hbefore, hrest, if_pos rfl, List.nil_append, List.append_nil]
  simp only [expandReplicaStages, List.filter_flatMap]
  rw [List.flatMap_congr hpiece, hsingle]

end

/-! ### Bindings -/

/-- What one process adds to the bindings of a request. -/
def bindProcess (bind : String → Nat → Int) (d : Dict String Int) (p : LogicalProcess) : Dict String Int :=
  p.stageNames.foldl (fun d stage => d.set stage (bind p.name p.numReplicas)) d

/-- One turn of the loop of `assignReplicaBindings`. -/
def bindStep (bind : String → Nat → Int) (bindings : Option (Option (Dict String Int))) (p : LogicalProcess) :
    Option (Option (Dict String Int)) :=
  match bindings with
  | some (some d) =>
    if 0 ≤ bind p.name p.numReplicas ∧ bind p.name p.numReplicas < p.numReplicas then some (some (bindProcess bind d p))
    else none
  | other => other

theorem assignReplicaBindings_eq (processes : List LogicalProcess) (bind : String → Nat → Int) :
    assignReplicaBindings processes bind =
      if processes.any (·.isReplicated) then
        (processes.filter (·.isReplicated)).foldl (bindStep bind) (some (some ∅))
      else some none :=
  rfl

theorem foldl_bindStep {bind : String → Nat → Int} {l : List LogicalProcess} {d : Dict String Int}
    {bindings : Option (Dict String Int)} (h : l.foldl (bindStep bind) (some (some d)) = some bindings) :
    bindings = some (l.foldl (bindProcess bind) d) ∧
      ∀ p ∈ l, 0 ≤ bind p.name p.numReplicas ∧ bind p.name p.numReplicas < p.numReplicas := by
  induction l generalizing d with
  | nil =>
    cases h
    exact ⟨rfl, fun p hp => by cases hp⟩
  | cons p rest ih =>
    rw [List.foldl_cons, bindStep] at h
    by_cases hin : 0 ≤ bind p.name p.numReplicas ∧ bind p.name p.numReplicas < p.numReplicas
    · rw [if_pos hin] at h
      obtain ⟨hd, hall⟩ := ih h
      refine ⟨hd, fun q hq => ?_⟩
      rcases List.mem_cons.mp hq with rfl | hq
      · exact hin
      · exact hall q hq
    · have hrefused : ∀ l : List LogicalProcess, l.foldl (bindStep bind) none = none := fun l => by
        induction l with
        | nil => rfl
        | cons q rest ih => exact ih
      rw [if_neg hin, hrefused] at h
      cases h

theorem process_unique {c : PipelineConfig} {processes : List ProcessPlan} (h : Expandable c processes)
    {p q : ProcessPlan} (hp : p ∈ processes) (hq : q ∈ processes) {stageName : String}
    (mem : stageName ∈ p.stageNames) (mem' : stageName ∈ q.stageNames) : q = p := by
  rw [h.compiled.members p hp] at mem
  obtain ⟨s, hs, rfl⟩ := List.mem_map.mp mem
  obtain ⟨hs, hprocess⟩ := List.mem_filter.mp hs
  by_contra hne
  exact notMem_stageNames h.names h.compiled hp hs (of_decide_eq_true hprocess).symm hq hne mem'

/-- The members of a process are bound alike, within range; those of a process with one replica not at all, which
stands for 0. -/
theorem bindings_of_member {c : PipelineConfig} {processes : List ProcessPlan} {p : ProcessPlan}
    (h : Expandable c processes) (hp : p ∈ processes) {bind : String → Nat → Int} {bindings : Option (Dict String Int)}
    (assigned : assignReplicaBindings (processes.map ProcessPlan.toLogicalProcess) bind = some bindings) :
    ∃ index : Int, 0 ≤ index ∧ index < p.numReplicas ∧
      ∀ stageName ∈ p.stageNames, ((bindings.getD ∅).get? stageName).getD 0 = index := by
  have hpos := h.compiled.replicas p hp
  rw [assignReplicaBindings_eq] at assigned
  have hreplicated : ∀ q, q ∈ (processes.map ProcessPlan.toLogicalProcess).filter (·.isReplicated) →
      q.isReplicated = true ∧ ∃ q' ∈ processes, q'.toLogicalProcess = q := fun q hq => by
    obtain ⟨hq, hrep⟩ := List.mem_filter.mp hq
    exact ⟨hrep, List.mem_map.mp hq⟩
  split at assigned
  · obtain ⟨rfl, hrange⟩ := foldl_bindStep assigned
    rw [Option.getD_some]
    by_cases hrep : p.isReplicated = true
    · have hmem : p.toLogicalProcess ∈ (processes.map ProcessPlan.toLogicalProcess).filter (·.isReplicated) :=
        List.mem_filter.mpr ⟨List.mem_map_of_mem hp, hrep⟩
      have hnodup : ((processes.map ProcessPlan.toLogicalProcess).filter (·.isReplicated)).Nodup := by
        refine (List.Nodup.of_map LogicalProcess.name ?_).filter _
        rw [List.map_map]
        exact h.compiled.distinct
      refine ⟨bind p.name p.numReplicas, (hrange _ hmem).1, (hrange _ hmem).2, fun stageName hstage => ?_⟩
      obtain ⟨d, _, hloop⟩ := Dict.get?_foldl_of_one (f := bindProcess bind) (x := stageName) hnodup hmem
        (fun q hq hne d => by
          obtain ⟨_, q', hq', rfl⟩ := hreplicated q hq
          have hnot : stageName ∉ q'.stageNames := fun hm =>
            hne (congrArg ProcessPlan.toLogicalProcess (process_unique h hp hq' hstage hm))
          rw [bindProcess, Dict.get?_foldl_set_const, if_neg hnot]) ∅
      rw [hloop, bindProcess, Dict.get?_foldl_set_const, if_pos hstage]
      rfl
    · refine ⟨0, Int.le_refl 0, by omega, fun stageName hstage => ?_⟩
      rw [Dict.get?_foldl_of_none (fun q hq d => ?_) ∅, Dict.get?_empty]
      · rfl
      · obtain ⟨hrep', q', hq', rfl⟩ := hreplicated q hq
        have hnot : stageName ∉ q'.stageNames := fun hm => by
          rw [process_unique h hp hq' hstage hm] at hrep'
          exact hrep hrep'
        rw [bindProcess, Dict.get?_foldl_set_const, if_neg hnot]
  · cases assigned
    exact ⟨0, Int.le_refl 0, by omega, fun stageName _ => rfl⟩

/-! ### The whole plan -/

/-- Two stages in one process with two replicas, next to a third stage alone. -/
def twoProcesses : PipelineConfig where
  modelPath := "m"
  stages :=
    [{ name := "thinker", factoryPath := "f", next := some (.one "talker"), process := some "gen" },
      { name := "talker", factoryPath := "f", next := some (.many ["decode"]), process := some "gen" },
      { name := "decode", factoryPath := "f", terminal := true, process := some "out" }]
  processes := (∅ : Dict String ProcessConfig).set "gen" { numReplicas := 2 }

def twoPlans : List ProcessPlan :=
  [{ name := "gen", stageNames := ["thinker", "talker"], numReplicas := 2, tpSize := 1, replicaDevices := none },
    { name := "out", stageNames := ["decode"], numReplicas := 1, tpSize := 1, replicaDevices := none }]

end SglangOmni.Pipeline
