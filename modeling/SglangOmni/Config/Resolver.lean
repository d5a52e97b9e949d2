import SglangOmni.Config.Patch
import Mathlib.Data.List.Pairwise

/-! The resolver: patches over a baseline.

The patches are applied to the baseline's dump, weakest first, and the config is built from what comes out; building
is the parameter. The main result says when the insertion order of the patches is not seen. -/
namespace SglangOmni.Config
open Lib

/-! ### Application -/

mutual

/-- `_deep_merge`, of one value. -/
def mergeValue (existing : Option Value) : Value → Value
  | .dict overlay =>
    match existing with
    | some (.dict base) => .dict (mergeEntries base overlay)
    | _ => .dict overlay
  | v => v

def mergeEntries (base : Entries) : Entries → Entries
  | [] => base
  | (k, v) :: rest => mergeEntries (insertKey k (mergeValue (base.lookup k) v) base) rest

end

section
variable {root : Root} {ε C : Type} {a b p : ConfigPatch root} {patches others : List (ConfigPatch root)}
  {build : Value → Except ε C} {data : Value}

/-- What is written where the patch goes: a leaf is assigned, a mapping is merged into the one that is there. -/
def ConfigPatch.merge (p : ConfigPatch root) (existing : Option Value) : Value :=
  if p.path.isLeaf then p.value else mergeValue existing p.value

/-- `_apply`. -/
def applyPatch (data : Value) (p : ConfigPatch root) : Option Value :=
  p.path.write data (p.merge (p.path.read data))

/-- The baseline: its dump, and the model path that its name was derived from. -/
structure Baseline where
  dump : Value
  modelPath : String

inductive ResolveError (root : Root) (ε : Type) where
  | duplicate (pairs : List (ConfigPatch root × ConfigPatch root))
  | path
  | validation (e : ε)

structure Resolved (C : Type) where
  config : C
  /-- What the config was built from. -/
  document : Value

/-- The name is the one that was derived from the baseline's model path, and only the path was set. -/
def hasStaleName (base : Baseline) (patches : List (ConfigPatch root)) (data : Value) : Bool :=
  patches.any (fun p => p.key = "model_path") && patches.all (fun p => p.key ≠ "name") &&
    match readAt [⟨"name", false⟩] data with
    | some v => v.pyEq (.str base.modelPath)
    | none => false

def clearName : Value → Value
  | .dict entries => .dict (insertKey "name" .null entries)
  | v => v

/-- `ConfigResolver.resolve`. -/
def resolve (build : Value → Except ε C) (base : Baseline) (patches : List (ConfigPatch root)) :
    Except (ResolveError root ε) (Resolved C) :=
  if conflicts patches ≠ [] then .error (.duplicate (conflicts patches))
  else
    match (ordered patches).foldlM applyPatch base.dump with
    | none => .error .path
    | some data =>
      let document := if hasStaleName base patches data then clearName data else data
      match build document with
      | .error e => .error (.validation e)
      | .ok config => .ok ⟨config, document⟩

/-! ### One order of the patches for another -/

theorem applyPatch_eq_update (data : Value) (p : ConfigPatch root) :
    applyPatch data p = updateAt p.path.steps p.merge (some data) :=
  (updateAt_eq_write p.path.steps p.merge data).symm

/-- The patch gives no stage another name. -/
def ConfigPatch.KeepsNames (p : ConfigPatch root) : Prop := Config.KeepsNames p.path.steps p.merge

/-- Values that compare equal at one path and rank are the same. -/
def SameValues (patches : List (ConfigPatch root)) : Prop :=
  ∀ a ∈ patches, ∀ b ∈ patches, SameSlot a b → a.value.pyEq b.value = true → a.value = b.value

/-- Patches of one path and value do the same. -/
theorem applyPatch_congr (key : a.key = b.key) (value : a.value = b.value) (data : Value) :
    applyPatch data a = applyPatch data b := by
  have hmerge : a.merge = b.merge := by
    funext existing
    rw [ConfigPatch.merge, ConfigPatch.merge, ConfigPath.isLeaf_eq key, value]
  rw [applyPatch_eq_update, applyPatch_eq_update, ConfigPath.steps_eq key, hmerge]

theorem length_steps_of_rank (h : a.rank = b.rank) :
    a.path.steps.length = b.path.steps.length := by
  have hpair := congrArg (fun r : Rank => (ofLex (ofLex r).2).2) h
  rw [ConfigPath.steps, ConfigPath.steps, List.length_map, List.length_map]
  exact hpair

/-- Patches of one path and rank have one value, when there is no conflict. -/
theorem value_eq_of_agree (agree : Agree patches) (same : SameValues patches) (ha : a ∈ patches) (hb : b ∈ patches)
    (slot : SameSlot a b) : a.value = b.value := by
  by_cases hab : a = b
  · rw [hab]
  · have hsymm : Std.Symm fun x y : ConfigPatch root => SameSlot x y → x.value.pyEq y.value = true :=
      ⟨fun x y h hyx => Value.pyEq_symm (h hyx.symm)⟩
    exact same a ha b hb slot (List.Pairwise.forall agree ha hb hab slot)

theorem applyPatch_comm (keeps : ∀ p ∈ patches, p.KeepsNames)
    (agree : Agree patches) (same : SameValues patches) (ha : a ∈ patches) (hb : b ∈ patches)
    (rank : a.rank = b.rank) : StepsCommute applyPatch a b := by
  intro data
  by_cases hkey : a.key = b.key
  · have hvalue := value_eq_of_agree agree same ha hb ⟨hkey, rank⟩
    simp only [applyPatch_congr hkey hvalue]
  · have hne : a.path.steps ≠ b.path.steps := fun h => hkey (ConfigPath.raw_eq h)
    simp only [applyPatch_eq_update]
    exact updateAt_comm (length_steps_of_rank rank) hne (keeps a ha) (keeps b hb) (some data)

theorem applyAll_eq (perm : patches.Perm others)
    (keeps : ∀ p ∈ patches, p.KeepsNames) (agree : Agree patches) (same : SameValues patches) (data : Value) :
    (ordered patches).foldlM applyPatch data = (ordered others).foldlM applyPatch data := by
  apply foldlM_eq_of_ranked applyPatch ConfigPatch.rank
  · exact (ordered_perm patches).trans (perm.trans (ordered_perm others).symm)
  · exact ordered_ranked patches
  · exact ordered_ranked others
  · exact fun a ha b hb rank => applyPatch_comm keeps agree same (mem_ordered.mp ha) (mem_ordered.mp hb) rank

theorem hasStaleName_eq (perm : patches.Perm others) (base : Baseline)
    (data : Value) : hasStaleName base patches data = hasStaleName base others data := by
  rw [hasStaleName, hasStaleName, perm.any_eq, perm.all_eq]

variable {base : Baseline}

theorem resolve_ok {r : Resolved C} (h : resolve build base patches = .ok r) :
    conflicts patches = [] ∧ ∃ data, (ordered patches).foldlM applyPatch base.dump = some data ∧
      r.document = (if hasStaleName base patches data then clearName data else data) ∧
      build r.document = .ok r.config := by
  unfold resolve at h
  split at h
  · cases h
  · next hnone =>
    split at h
    · cases h
    · next data hdata =>
      refine ⟨by simpa using hnone, data, hdata, ?_⟩
      simp only at h
      split at h
      · cases h
      · next config hbuild =>
        cases h
        exact ⟨rfl, hbuild⟩

theorem resolve_eq_ok
    {r : Resolved C} (none : conflicts patches = []) (hdata : (ordered patches).foldlM applyPatch base.dump = some data)
    (document : r.document = if hasStaleName base patches data then clearName data else data)
    (config : build r.document = .ok r.config) : resolve build base patches = .ok r := by
  unfold resolve
  rw [if_neg (by simpa using none), hdata]
  simp only [← document, config]

/-- What one order gives, every order gives. -/
theorem resolve_perm
    {r : Resolved C} (perm : patches.Perm others) (keeps : ∀ p ∈ patches, p.KeepsNames) (same : SameValues patches)
    (h : resolve build base patches = .ok r) : resolve build base others = .ok r := by
  obtain ⟨hnone, data, hdata, hdocument, hconfig⟩ := resolve_ok h
  have hagree := conflicts_eq_nil.mp hnone
  rw [applyAll_eq perm keeps hagree same] at hdata
  rw [hasStaleName_eq perm] at hdocument
  exact resolve_eq_ok (conflicts_eq_nil_of_perm perm hnone) hdata hdocument hconfig

/-! ### The patch that wins -/

/-- The last patch of a path has its value, and none of the path ranks above it. -/
theorem winners_ranked {l : List (ConfigPatch root)} (ranked : l.Pairwise fun a b => a.rank ≤ b.rank) (hp : p ∈ l)
    (d : Dict String (ConfigPatch root)) :
    ∃ w ∈ l, w.key = p.key ∧ (l.foldl (fun out q => out.set q.key q) d).get? p.key = some w ∧
      ∀ q ∈ l, q.key = p.key → q.rank ≤ w.rank := by
  induction l generalizing p d with
  | nil => cases hp
  | cons a l ih =>
    obtain ⟨hfirst, hrest⟩ := List.pairwise_cons.mp ranked
    by_cases hlater : ∃ q ∈ l, q.key = p.key
    · obtain ⟨q, hq, hqp⟩ := hlater
      obtain ⟨w, hw, hkey, hget, hbound⟩ := ih hrest hq (d.set a.key a)
      rw [hqp] at hkey hget hbound
      refine ⟨w, List.mem_cons_of_mem a hw, hkey, hget, fun b hb hbk => ?_⟩
      cases List.mem_cons.mp hb with
      | inl he => exact he ▸ hfirst w hw
      | inr hb => exact hbound b hb hbk
    · have hnone : ∀ q ∈ l, q.key ≠ p.key := fun q hq hqp => hlater ⟨q, hq, hqp⟩
      have hpa : p = a := by
        cases List.mem_cons.mp hp with
        | inl he => exact he
        | inr hmem => exact absurd rfl (hnone p hmem)
      subst hpa
      refine ⟨p, List.mem_cons_self, rfl, ?_, fun b hb hbk => ?_⟩
      · rw [List.foldl_cons, Dict.get?_foldl_of_none, Dict.get?_set_self]
        exact fun q hq d => Dict.get?_set_ne d q (Ne.symm (hnone q hq))
      · cases List.mem_cons.mp hb with
        | inl he => rw [he]
        | inr hb => exact absurd hbk (hnone b hb)

/-- No patch of its path ranks above it. -/
def Highest (patches : List (ConfigPatch root)) (p : ConfigPatch root) : Prop :=
  ∀ q ∈ patches, q.key = p.key → q.rank ≤ p.rank

theorem winners_highest (agree : Agree patches) (same : SameValues patches) (hp : p ∈ patches)
    (highest : Highest patches p) :
    ∃ w, (winners patches).get? p.key = some w ∧ w.rank = p.rank ∧ w.value = p.value := by
  obtain ⟨w, hw, hkey, hget, hbound⟩ := winners_ranked (ordered_ranked patches) (mem_ordered.mpr hp) ∅
  have hrank : w.rank = p.rank :=
    le_antisymm (highest w (mem_ordered.mp hw) hkey) (hbound p (mem_ordered.mpr hp) rfl)
  exact ⟨w, hget, hrank, value_eq_of_agree agree same (mem_ordered.mp hw) hp ⟨hkey, hrank⟩⟩

/-- Every other patch at, above or below its path ranks below it, or is of its path and rank. -/
def Topmost (patches : List (ConfigPatch root)) (p : ConfigPatch root) : Prop :=
  ∀ q ∈ patches, Apart p.path.steps q.path.steps ∨ q.rank < p.rank ∨ SameSlot q p

theorem merge_leaf (leaf : p.path.isLeaf = true) (existing : Option Value) :
    p.merge existing = p.value := by
  rw [ConfigPatch.merge, if_pos leaf]

theorem read_applyPatch (leaf : p.path.isLeaf = true) (keeps : p.KeepsNames) {after : Value}
    (h : applyPatch data p = some after) : readAt p.path.steps after = some p.value := by
  rw [applyPatch_eq_update] at h
  rw [readAt_updateAt_self (ConfigPath.endsWithKey leaf) keeps h, merge_leaf leaf]

/-- The document has the value of the topmost patch at its path. -/
theorem read_topmost (keeps : ∀ p ∈ patches, p.KeepsNames) (agree : Agree patches)
    (same : SameValues patches) (hp : p ∈ patches) (leaf : p.path.isLeaf = true)
    (topmost : Topmost patches p) {base : Value} (h : (ordered patches).foldlM applyPatch base = some data) :
    readAt p.path.steps data = some p.value := by
  obtain ⟨front, back, hsplit⟩ := List.append_of_mem (mem_ordered.mpr hp)
  have hranked := ordered_ranked patches
  rw [hsplit] at h hranked
  rw [List.foldlM_append] at h
  obtain ⟨before, _, hrest⟩ := Option.bind_eq_some_iff.mp h
  rw [foldlM_cons] at hrest
  obtain ⟨after, hafter, hback⟩ := Option.bind_eq_some_iff.mp hrest
  have hlater := (List.pairwise_cons.mp (List.pairwise_append.mp hranked).2.1).1
  apply foldlM_preserves (P := fun d => readAt p.path.steps d = some p.value) ?_
    (read_applyPatch leaf (keeps p hp) hafter) hback
  intro q hq s t hs ht
  have hmem : q ∈ patches := mem_ordered.mp (hsplit ▸ List.mem_append_right _ (List.mem_cons_of_mem p hq))
  cases topmost q hmem with
  | inl hapart =>
    rw [applyPatch_eq_update] at ht
    rw [readAt_updateAt_apart hapart (keeps q hmem) ht, Option.bind_some, hs]
  | inr hbelow =>
    cases hbelow with
    | inl hlt => exact absurd hlt (not_lt_of_ge (hlater q hq))
    | inr hslot =>
      have hleaf : q.path.isLeaf = true := (ConfigPath.isLeaf_eq hslot.1).trans leaf
      rw [← ConfigPath.steps_eq hslot.1, ← value_eq_of_agree agree same hmem hp hslot]
      exact read_applyPatch hleaf (keeps q hmem) ht

/-- Only a text compares equal to a text. -/
theorem Value.eq_str_of_pyEq {v : Value} {s : String} (h : v.pyEq (.str s) = true) : v = .str s := by
  cases v with
  | str t => simpa [Value.pyEq] using h
  | float x => cases x <;> simp [Value.pyEq, Value.number] at h
  | _ => simp [Value.pyEq, Value.number] at h

theorem hasStaleName_true (h : hasStaleName base patches data = true) :
    (∀ p ∈ patches, p.key ≠ "name") ∧ readAt [⟨"name", false⟩] data = some (.str base.modelPath) := by
  simp only [hasStaleName, Bool.and_eq_true, List.all_eq_true, decide_eq_true_eq] at h
  obtain ⟨⟨_, hnone⟩, hname⟩ := h
  refine ⟨hnone, ?_⟩
  cases hread : readAt [⟨"name", false⟩] data with
  | none =>
    rw [hread] at hname
    cases hname
  | some v =>
    rw [hread] at hname
    rw [Value.eq_str_of_pyEq hname]

/-- Clearing a stale name is not seen at the path of a patch. -/
theorem read_clearName (hp : p ∈ patches)
    {v : Value} (stale : hasStaleName base patches data = true) (h : readAt p.path.steps data = some v)
    (key : EndsWithKey p.path.steps) : readAt p.path.steps (clearName data) = some v := by
  obtain ⟨hnone, hname⟩ := hasStaleName_true stale
  cases data with
  | dict entries =>
    cases hsteps : p.path.steps with
    | nil =>
      obtain ⟨step, hlast, _⟩ := key
      rw [hsteps] at hlast
      cases hlast
    | cons step rest =>
      rw [hsteps] at h
      cases hn : step.named with
      | true =>
        rw [readAt_named_dict hn] at h
        cases h
      | false =>
        rw [readAt_dict hn] at h
        rw [readAt_dict rfl] at hname
        show readAt (step :: rest) (.dict (insertKey "name" .null entries)) = some v
        rw [readAt_dict hn, lookup_insertKey]
        split
        · next hraw =>
          -- The path goes on below a name that is a text, or it is the path of the name itself.
          cases rest with
          | nil =>
            have hkey : p.key = "name" := by
              apply splitDots_inj
              rw [ConfigPatch.key, ← p.path.steps_raw, hsteps, List.map_singleton, hraw]
              rfl
            exact absurd hkey (hnone p hp)
          | cons next rest =>
            have hlookup : entries.lookup step.raw = some (.str base.modelPath) := by
              rw [hraw]
              cases hl : entries.lookup "name" with
              | none =>
                rw [hl] at hname
                cases hname
              | some w =>
                rw [hl] at hname
                exact hname
            rw [hlookup] at h
            cases h
        · exact h
  | _ => exact h

/-! ### Whether the order is seen -/

/-- The insertion order of the patches is not seen: one order that is accepted makes every order accepted, with the
same config and document; the winner of a path has the value of every patch that ranks highest there, and the document
has it too, as far as no patch around the path ranks above; and patches of one rank that disagree at one path, or at
nested ones, are reported in every order. -/
structure OrderIndependent (build : Value → Except ε C) (base : Baseline) (patches : List (ConfigPatch root)) :
    Prop where
  accepted : ∀ l k, l.Perm patches → k.Perm patches → ∀ r, resolve build base l = .ok r → resolve build base k = .ok r
  winner : ∀ l r, l.Perm patches → resolve build base l = .ok r → ∀ p ∈ patches, Highest patches p →
    ∃ w, (winners l).get? p.key = some w ∧ w.rank = p.rank ∧ w.value = p.value
  document : ∀ l r, l.Perm patches → resolve build base l = .ok r → ∀ p ∈ patches, p.path.isLeaf = true →
    Topmost patches p → readAt p.path.steps r.document = some p.value
  reported : ∀ a ∈ patches, ∀ b ∈ patches, a.rank = b.rank →
    a.path.steps <+: b.path.steps ∨ b.path.steps <+: a.path.steps → a.value ≠ b.value →
    ∀ l, l.Perm patches → ∃ pairs, resolve build base l = .error (.duplicate pairs)

theorem SameValues.of_perm (same : SameValues patches) (perm : patches.Perm others) : SameValues others :=
  fun a ha b hb => same a (perm.symm.subset ha) b (perm.symm.subset hb)

theorem resolve_ne_duplicate {pairs : List (ConfigPatch root × ConfigPatch root)} (none : conflicts patches = []) :
    resolve build base patches ≠ .error (.duplicate pairs) := by
  intro h
  unfold resolve at h
  rw [if_neg (by simpa using none)] at h
  split at h
  · cases h
  · simp only at h
    split at h
    · cases h
    · cases h

/-- A value that is reported only when it differs has to be the same otherwise. -/
theorem OrderIndependent.sameValues
    (h : OrderIndependent build base patches) (none : conflicts patches = []) : SameValues patches := by
  intro a ha b hb slot _
  by_contra hne
  have hsteps : a.path.steps <+: b.path.steps := (ConfigPath.steps_eq slot.1) ▸ List.prefix_rfl
  obtain ⟨pairs, hpairs⟩ := h.reported a ha b hb slot.2 (.inl hsteps) hne patches (List.Perm.refl _)
  exact resolve_ne_duplicate none hpairs

/-- **When the insertion order is not seen.** Of patches that give no stage another name, the order is not seen exactly
when values that Python compares equal at one path and rank are the same, or a conflict is reported. -/
theorem order_independent_iff (build : Value → Except ε C) (base : Baseline) (patches : List (ConfigPatch root))
    (keeps : ∀ p ∈ patches, p.KeepsNames) :
    OrderIndependent build base patches ↔ (conflicts patches = [] → SameValues patches) := by
  refine ⟨OrderIndependent.sameValues, fun same => ⟨?_, ?_, ?_, ?_⟩⟩
  · intro l k hl hk r hr
    have hsame : SameValues patches := same (conflicts_eq_nil_of_perm hl (resolve_ok hr).1)
    exact resolve_perm (hl.trans hk.symm) (fun p hp => keeps p (hl.subset hp)) (hsame.of_perm hl.symm) hr
  · intro l r hl hr p hp highest
    have hnone := (resolve_ok hr).1
    have hsame : SameValues l := (same (conflicts_eq_nil_of_perm hl hnone)).of_perm hl.symm
    exact winners_highest (conflicts_eq_nil.mp hnone) hsame (hl.symm.subset hp) fun q hq => highest q (hl.subset hq)
  · intro l r hl hr p hp leaf topmost
    obtain ⟨hnone, data, hdata, hdocument, _⟩ := resolve_ok hr
    have hsame : SameValues l := (same (conflicts_eq_nil_of_perm hl hnone)).of_perm hl.symm
    have hread := read_topmost (fun p hp => keeps p (hl.subset hp)) (conflicts_eq_nil.mp hnone) hsame
      (hl.symm.subset hp) leaf (fun q hq => topmost q (hl.subset hq)) hdata
    rw [hdocument]
    split
    · next hstale => exact read_clearName (hl.symm.subset hp) hstale hread (ConfigPath.endsWithKey leaf)
    · exact hread
  · intro a ha b hb rank nested hne l hl
    have hlength := length_steps_of_rank rank
    have hsteps : a.path.steps = b.path.steps := by
      cases nested with
      | inl h => exact h.eq_of_length hlength
      | inr h => exact (h.eq_of_length hlength.symm).symm
    have hconflict : conflicts l ≠ [] := fun hnone => by
      have hsame : SameValues l := (same (conflicts_eq_nil_of_perm hl hnone)).of_perm hl.symm
      exact hne (value_eq_of_agree (conflicts_eq_nil.mp hnone) hsame (hl.symm.subset ha) (hl.symm.subset hb)
        ⟨ConfigPath.raw_eq hsteps, rank⟩)
    exact ⟨conflicts l, by rw [resolve, if_pos hconflict]⟩

end

/-! ### A flag that is given as a number and as a truth value -/

/-- A pipeline of engine stages, whose engine block takes any key. -/
def engineRoot : Root :=
  let engine : Annotation := .model "EngineArgs" .plain [] true
  let stage : StageType :=
    ⟨"EngineStageConfig", true, [("factory_path", .leaf "str"), ("engine", engine)]⟩
  ⟨"OmniPipelineConfig", false, [("model_path", .leaf "str"), ("name", .leaf "str")], stage, fun _ => stage⟩

def metricsPath : ConfigPath engineRoot :=
  .ofRaw engineRoot "stages.thinker.engine.enable_metrics" (by decide +kernel)

theorem metricsPath_steps : metricsPath.steps =
    [⟨"stages", false⟩, ⟨"thinker", true⟩, ⟨"engine", false⟩, ⟨"enable_metrics", false⟩] := by
  decide +kernel

/-- `--thinker.engine.enable_metrics`. -/
def metricsFlag (v : Value) : ConfigPatch engineRoot :=
  ⟨metricsPath, v, ⟨.cliDotted, "extra CLI args", ""⟩, .cli, .explicit⟩

def thinkerEntry (engine : Entries) : Value :=
  .dict [("engine", .dict engine), ("factory_path", .str "f"), ("name", .str "thinker")]

def thinkerDump (engine : Entries) : Value :=
  .dict [("model_path", .str "m"), ("name", .str "m"), ("stages", .list [thinkerEntry engine])]

theorem metricsFlag_keepsNames (v : Value) : (metricsFlag v).KeepsNames := by
  show KeepsNames metricsPath.steps _
  rw [metricsPath_steps]
  simp [KeepsNames]

theorem metricsFlag_ordered (v w : Value) :
    ordered [metricsFlag v, metricsFlag w] = [metricsFlag v, metricsFlag w] := by
  have hrank : (metricsFlag v).rank ≤ (metricsFlag w).rank := le_refl _
  simp [ordered, hrank]

theorem metricsFlag_merge {v : Value} (scalar : ∀ entries, v ≠ .dict entries) (existing : Option Value) :
    (metricsFlag v).merge existing = v := by
  unfold ConfigPatch.merge
  split
  · rfl
  · show mergeValue existing v = v
    cases v with
    | dict entries => exact absurd rfl (scalar entries)
    | _ => rfl

/-- The flag ends up in the engine block. -/
theorem metricsFlag_apply {v : Value} (scalar : ∀ entries, v ≠ .dict entries) (engine : Entries) :
    applyPatch (thinkerDump engine) (metricsFlag v) = some (thinkerDump (insertKey "enable_metrics" v engine)) := by
  have hfind : [thinkerEntry engine].findIdx? (isNamed "thinker") = some 0 := rfl
  rw [applyPatch_eq_update]
  show updateAt metricsPath.steps _ _ = _
  rw [metricsPath_steps, thinkerDump, updateAt_dict rfl]
  show Option.map _ (updateAt _ _ (some (.list [thinkerEntry engine]))) = _
  rw [updateAt_list rfl hfind]
  show Option.map _ (Option.map _ (updateAt _ _ (some (thinkerEntry engine)))) = _
  rw [thinkerEntry, updateAt_dict rfl]
  show Option.map _ (Option.map _ (Option.map _ (updateAt _ _ (some (.dict engine))))) = _
  rw [updateAt_dict rfl]
  simp only [updateAt, metricsFlag_merge scalar, Option.map_some]
  rfl

/-- The two spellings of the flag, in the one order and in the other. -/
theorem metricsFlag_resolve {v w : Value} (hv : ∀ entries, v ≠ .dict entries) (hw : ∀ entries, w ≠ .dict entries)
    (equal : v.pyEq w = true) :
    resolve (ε := Empty) .ok ⟨thinkerDump [], "m"⟩ [metricsFlag v, metricsFlag w] =
      .ok ⟨thinkerDump [("enable_metrics", w)], thinkerDump [("enable_metrics", w)]⟩ := by
  have hdata : (ordered [metricsFlag v, metricsFlag w]).foldlM applyPatch (thinkerDump []) =
      some (thinkerDump [("enable_metrics", w)]) := by
    rw [metricsFlag_ordered, foldlM_cons, metricsFlag_apply hv, Option.bind_some, foldlM_cons, metricsFlag_apply hw,
      Option.bind_some, insertKey_insertKey]
    rfl
  have hkey : ∀ u, (metricsFlag u).key ≠ "model_path" := fun u => by
    rw [show (metricsFlag u).key = _ from ConfigPath.ofRaw_raw ..]
    decide
  have hname : hasStaleName ⟨thinkerDump [], "m"⟩ [metricsFlag v, metricsFlag w]
      (thinkerDump [("enable_metrics", w)]) = false := by
    simp [hasStaleName, hkey]
  apply resolve_eq_ok ?_ hdata
  · rw [hname]
    rfl
  · rfl
  · rw [conflicts_eq_nil, Agree, List.pairwise_pair]
    exact fun _ => equal

/-- The same key in a file. -/
def metricsInFile (v : Value) : ConfigPatch engineRoot :=
  ⟨metricsPath, v, ⟨.yamlFile, "omni.yaml", ""⟩, .userFile, .explicit⟩

/-- A file has 1 where the flag is true: the flag is above the file, in either order. -/
theorem order_independent_fileAndFlag :
    (∀ p ∈ [metricsInFile (.int 1), metricsFlag (.bool true)], p.KeepsNames) ∧
      OrderIndependent (ε := Empty) .ok ⟨thinkerDump [], "m"⟩ [metricsInFile (.int 1), metricsFlag (.bool true)] := by
  have hkeeps : ∀ p ∈ [metricsInFile (.int 1), metricsFlag (.bool true)], p.KeepsNames := fun p hp => by
    simp only [List.mem_cons, List.not_mem_nil, or_false] at hp
    obtain rfl | rfl := hp <;> exact metricsFlag_keepsNames _
  have hrank : (metricsInFile (.int 1)).rank ≠ (metricsFlag (.bool true)).rank := fun h =>
    absurd (congrArg (fun r => (ofLex r).1) h) (by decide)
  refine ⟨hkeeps, (order_independent_iff _ _ _ hkeeps).mpr fun _ a ha b hb slot _ => ?_⟩
  simp only [List.mem_cons, List.not_mem_nil, or_false] at ha hb
  obtain rfl | rfl := ha <;> obtain rfl | rfl := hb
  · rfl
  · exact absurd slot.2 hrank
  · exact absurd slot.2.symm hrank
  · rfl

/-- Python has `True == 1`, so that no conflict is reported and the flag that was given last decides. -/
theorem equal_values_by_order :
    ¬ OrderIndependent (ε := Empty) .ok ⟨thinkerDump [], "m"⟩ [metricsFlag (.int 1), metricsFlag (.bool true)] ∧
      resolve (ε := Empty) .ok ⟨thinkerDump [], "m"⟩ [metricsFlag (.int 1), metricsFlag (.bool true)] =
        .ok ⟨thinkerDump [("enable_metrics", .bool true)], thinkerDump [("enable_metrics", .bool true)]⟩ ∧
      resolve (ε := Empty) .ok ⟨thinkerDump [], "m"⟩ [metricsFlag (.bool true), metricsFlag (.int 1)] =
        .ok ⟨thinkerDump [("enable_metrics", .int 1)], thinkerDump [("enable_metrics", .int 1)]⟩ := by
  have hfirst := metricsFlag_resolve (v := .int 1) (w := .bool true) (fun _ h => nomatch h) (fun _ h => nomatch h) rfl
  have hsecond := metricsFlag_resolve (v := .bool true) (w := .int 1) (fun _ h => nomatch h) (fun _ h => nomatch h) rfl
  refine ⟨fun h => ?_, hfirst, hsecond⟩
  have hsame := h.sameValues (resolve_ok hfirst).1 (metricsFlag (.int 1)) List.mem_cons_self (metricsFlag (.bool true))
    (List.mem_cons_of_mem _ List.mem_cons_self) ⟨rfl, rfl⟩ rfl
  exact nomatch (hsame : Value.int 1 = .bool true)

end SglangOmni.Config
