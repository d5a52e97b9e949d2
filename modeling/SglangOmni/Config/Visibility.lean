import SglangOmni.Config.Sources

/-! What the patches of a user leave alone.

The rules go by whole paths: a path is internal when its segments match a rule from the first to the last. An accepted
patch that does not name a whole stage goes to a setting, which is a field of the pipeline or a field of one stage
below the field's path. An update there is an update of the setting, and is not seen from any other; so every internal
value stays what it was, and what a user sees depends on nothing internal. -/
namespace SglangOmni.Config
open Lib

/-! ### Updates below a path -/

/-- An update below a path is an update at the path. -/
theorem updateAt_append {a b : List Step} {f : Option Value → Value} {o : Option Value} {w : Value}
    (h : updateAt (a ++ b) f o = some w) :
    ∃ u, updateAt b f (o.bind (readAt a)) = some u ∧ updateAt a (fun _ => u) o = some w := by
  induction a generalizing o w with
  | nil =>
    have hread : o.bind (readAt []) = o := by
      cases o with
      | none => rfl
      | some v => simp only [Option.bind_some, readAt]
    refine ⟨w, ?_, rfl⟩
    rw [hread]
    exact h
  | cons step rest ih =>
    rw [← readAt_container]
    obtain ⟨items, i, v, u, hc, hn, hi, hv, _, hu, rfl⟩ | ⟨entries, u, hc, hn, hu, rfl⟩ := updateAt_cons_some h
    · obtain ⟨below, hbelow, hrest⟩ := ih hu
      refine ⟨below, ?_, ?_⟩
      · rw [hc, readAt_list hn hi, hv]
        exact hbelow
      · rw [updateAt_container, hc, updateAt_list hn hi, hv, hrest]
        rfl
    · obtain ⟨below, hbelow, hrest⟩ := ih hu
      refine ⟨below, ?_, ?_⟩
      · rw [hc, readAt_dict hn]
        exact hbelow
      · rw [updateAt_container, hc, updateAt_dict hn, hrest]
        rfl

theorem readAt_append (a b : List Step) (v : Value) : readAt (a ++ b) v = (readAt a v).bind (readAt b) := by
  induction a generalizing v with
  | nil => simp only [List.nil_append, readAt, Option.bind_some]
  | cons step rest ih =>
    have hrest : readAt (rest ++ b) = fun v => (readAt rest v).bind (readAt b) := funext ih
    cases v with
    | list items =>
      cases hn : step.named with
      | false =>
        rw [List.cons_append, readAt_key_list hn, readAt_key_list hn]
        rfl
      | true =>
        cases hi : items.findIdx? (isNamed step.raw) with
        | none =>
          rw [List.cons_append, readAt_list_none hn hi, readAt_list_none hn hi]
          rfl
        | some i => rw [List.cons_append, readAt_list hn hi, readAt_list hn hi, hrest, Option.bind_assoc]
    | dict entries =>
      cases hn : step.named with
      | true =>
        rw [List.cons_append, readAt_named_dict hn, readAt_named_dict hn]
        rfl
      | false => rw [List.cons_append, readAt_dict hn, readAt_dict hn, hrest, Option.bind_assoc]
    | _ => rfl

theorem container_list {o : Option Value} {items : List Value} (h : container o = .list items) :
    o = some (.list items) := by
  cases o with
  | none => cases h
  | some v =>
    cases v with
    | null => cases h
    | _ => exact congrArg some h

theorem container_dict {v w : Value} {entries : Entries} {k : String} (h : container (some v) = .dict entries)
    (hk : entries.lookup k = some w) : v = .dict entries := by
  cases v with
  | null =>
    cases h
    cases hk
  | dict own => exact h
  | _ => cases h

/-! ### Settings -/

/-- The path of a setting: a field of the pipeline besides the stages, or a field of a stage besides its name. -/
inductive Setting : List Step → Prop where
  | pipeline (k : String) (ne : k ≠ "stages") : Setting [⟨k, false⟩]
  | stage (s k : String) (ne : k ≠ "name") : Setting [⟨"stages", false⟩, ⟨s, true⟩, ⟨k, false⟩]

theorem Setting.keepsNames {path : List Step} (h : Setting path) (f : Option Value → Value) : KeepsNames path f := by
  cases h with
  | pipeline k ne => exact fun named => nomatch named
  | stage s k ne => exact ⟨fun named => (nomatch named), fun _ => ne, fun named => (nomatch named)⟩

theorem Setting.endsWithKey {path : List Step} (h : Setting path) : EndsWithKey path := by
  cases h with
  | pipeline k ne => exact ⟨_, rfl, rfl⟩
  | stage s k ne => exact ⟨_, rfl, rfl⟩

/-- What an update at a setting or below does: it is computed from what is at the setting, it is read there, and no
path apart from the setting sees it. -/
structure SettingUpdate (path rest : List Step) (f : Option Value → Value) (data after : Value) : Prop where
  at_setting : updateAt rest f (readAt path data) = readAt path after
  frame : ∀ p, Apart p path → readAt p after = readAt p data

theorem Setting.update {path rest : List Step} (h : Setting path) {f : Option Value → Value} {data after : Value}
    (update : updateAt (path ++ rest) f (some data) = some after) : SettingUpdate path rest f data after := by
  obtain ⟨u, hu, hpath⟩ := updateAt_append update
  have hread : readAt path after = some u := readAt_updateAt_self h.endsWithKey (h.keepsNames _) hpath
  refine ⟨hu.trans hread.symm, fun p hp => ?_⟩
  exact readAt_updateAt_apart hp (h.keepsNames _) hpath

/-! ### Internal paths -/

/-- A step as the rules see it. -/
def Step.generic (s : Step) : String := if s.named then "*" else s.raw

/-- The rules mark the path internal. -/
def Internal (path : List Step) : Prop := internalPatterns.any (patternMatches · (path.map Step.generic)) = true

theorem internal_steps {root : Root} (p : ConfigPath root) : Internal p.steps ↔ p.isPublic = false := by
  have hgeneric : p.steps.map Step.generic = genericForm p.segments := by
    rw [ConfigPath.steps, List.map_map, genericForm]
    apply List.map_congr_left
    intro s _
    simp [Step.generic, Segment.step]
  rw [Internal, hgeneric, ConfigPath.isPublic, Bool.not_eq_false']

theorem Step.generic_eq {s : Step} {k : String} (h : k = s.generic) (ne : k ≠ "*") : s = ⟨k, false⟩ := by
  obtain ⟨raw, named⟩ := s
  cases named with
  | true => exact absurd h ne
  | false => rw [h]; rfl

/-- A rule is a field of the pipeline or a field of every stage. -/
theorem internalPatterns_cases {rule : List String} (h : rule ∈ internalPatterns) :
    ∃ k, k ≠ "*" ∧ (k ≠ "name" ∧ rule = [k] ∨ rule = ["stages", "*", k]) := by
  simp only [internalPatterns, List.mem_cons, List.not_mem_nil, or_false] at h
  obtain rfl | rfl | rfl | h := h
  · exact ⟨_, by decide, .inl ⟨by decide, rfl⟩⟩
  · exact ⟨_, by decide, .inl ⟨by decide, rfl⟩⟩
  · exact ⟨_, by decide, .inl ⟨by decide, rfl⟩⟩
  · obtain rfl | rfl | rfl | rfl | rfl | rfl | rfl | rfl | rfl | rfl | rfl := h <;>
      exact ⟨_, by decide, .inr rfl⟩

theorem patternMatches_cons {k : String} {rule : List String} {path : List Step}
    (h : patternMatches (k :: rule) (path.map Step.generic) = true) :
    ∃ s rest, path = s :: rest ∧ (k = "*" ∨ k = s.generic) ∧ patternMatches rule (rest.map Step.generic) = true := by
  cases path with
  | nil => cases h
  | cons s rest =>
    rw [List.map_cons, patternMatches, Bool.and_eq_true, Bool.or_eq_true, decide_eq_true_iff, decide_eq_true_iff] at h
    exact ⟨s, rest, rfl, h⟩

theorem patternMatches_nil {path : List Step} (h : patternMatches [] (path.map Step.generic) = true) : path = [] := by
  cases path with
  | nil => rfl
  | cons s rest => cases h

/-- An internal path is a field of the pipeline or a field of a stage. -/
theorem Internal.cases {p : List Step} (h : Internal p) :
    (∃ k, k ≠ "name" ∧ p = [⟨k, false⟩]) ∨ ∃ s k, p = [⟨"stages", false⟩, s, ⟨k, false⟩] := by
  obtain ⟨rule, hrule, hmatch⟩ := List.any_eq_true.mp h
  obtain ⟨k, hk, ⟨hname, rfl⟩ | rfl⟩ := internalPatterns_cases hrule
  · obtain ⟨a, rest, rfl, ha, hrest⟩ := patternMatches_cons hmatch
    rw [patternMatches_nil hrest, Step.generic_eq (ha.resolve_left hk) hk]
    exact .inl ⟨k, hname, rfl⟩
  · obtain ⟨a, rest, rfl, ha, hrest⟩ := patternMatches_cons hmatch
    obtain ⟨b, rest, rfl, _, hrest⟩ := patternMatches_cons hrest
    obtain ⟨c, rest, rfl, hc, hrest⟩ := patternMatches_cons hrest
    rw [patternMatches_nil hrest, Step.generic_eq (ha.resolve_left (by decide)) (by decide),
      Step.generic_eq (hc.resolve_left hk) hk]
    exact .inr ⟨b, k, rfl⟩

theorem internal_name (s : Step) : Internal [⟨"stages", false⟩, s, ⟨"name", false⟩] := by
  simp [Internal, internalPatterns, patternMatches, Step.generic]

/-- The path neither leads to an internal one, besides the stages as a whole, nor goes on from one. -/
def Visible (path : List Step) : Prop := ∀ p, Internal p → p ≠ [⟨"stages", false⟩] → Apart p path

section
variable {path rest : List Step}

/-- A setting at the start of an internal path is this path. -/
theorem Setting.eq_of_prefix (setting : Setting path) {p : List Step} (internal : Internal p) (h : path <+: p) :
    path = p := by
  obtain ⟨k, _, rfl⟩ | ⟨s, k, rfl⟩ := internal.cases
  · apply h.eq_of_length_le
    cases setting <;> simp
  · cases setting with
    | pipeline j ne => exact absurd (congrArg Step.raw (List.cons_prefix_cons.mp h).1) ne
    | stage => exact h.eq_of_length rfl

theorem Setting.apart_internal (setting : Setting path) {p : List Step} (internal : Internal p)
    (apart : Apart p (path ++ rest)) (below : List Step) : Apart (p ++ below) path := by
  have hp : ¬ p <+: path := fun h => apart.1 (h.trans (List.prefix_append path rest))
  refine ⟨fun h => hp ((List.prefix_append p below).trans h), fun h => ?_⟩
  cases List.prefix_or_prefix_of_prefix h (List.prefix_append p below) with
  | inl h => exact hp (setting.eq_of_prefix internal h ▸ List.prefix_rfl)
  | inr h => exact hp h

theorem Setting.visible (setting : Setting path) (visible : Visible (path ++ rest)) : Visible path := by
  intro p internal ne
  have hp := setting.apart_internal internal (visible p internal ne) []
  rw [List.append_nil] at hp
  exact hp

/-- What can be seen is below the setting or apart from it. -/
theorem Setting.apart_visible (setting : Setting path) {t : List Step} (visible : Visible t) (h : ¬ path <+: t) :
    Apart t path := by
  refine ⟨fun ht => ?_, h⟩
  cases setting with
  | pipeline k ne =>
    cases t with
    | nil => exact (visible _ (internal_name ⟨"", true⟩) (by decide)).2 List.nil_prefix
    | cons a rest =>
      obtain ⟨rfl, hrest⟩ := List.cons_prefix_cons.mp ht
      exact h (List.cons_prefix_cons.mpr ⟨rfl, List.nil_prefix⟩)
  | stage s k ne =>
    have hname := (visible _ (internal_name ⟨s, true⟩) (by simp)).2
    match t with
    | [] => exact hname List.nil_prefix
    | [a] =>
      obtain ⟨rfl, _⟩ := List.cons_prefix_cons.mp ht
      exact hname (by simp)
    | [a, b] =>
      simp only [List.cons_prefix_cons, List.nil_prefix, and_true] at ht hname
      exact hname ht
    | a :: b :: c :: rest =>
      simp only [List.cons_prefix_cons, List.prefix_nil] at ht
      obtain ⟨rfl, rfl, rfl, rfl⟩ := ht
      exact h List.prefix_rfl

end

theorem Internal.apart_name {p : List Step} (internal : Internal p) : Apart p [⟨"name", false⟩] := by
  obtain ⟨k, ne, rfl⟩ | ⟨s, k, rfl⟩ := internal.cases
  · simp [Apart, ne, Ne.symm ne]
  · simp [Apart]

theorem visible_name : Visible [⟨"name", false⟩] := fun _ internal _ => internal.apart_name

/-! ### One update -/

/-- The documents are the same as far as can be seen. -/
def AgreeVisible (a b : Value) : Prop := ∀ t, Visible t → readAt t a = readAt t b

section
variable {path rest : List Step} {f : Option Value → Value} {data after : Value}

theorem Setting.readAt_internal (setting : Setting path) (update : updateAt (path ++ rest) f (some data) = some after)
    {p : List Step} (internal : Internal p) (apart : Apart p (path ++ rest)) (below : List Step) :
    readAt (p ++ below) after = readAt (p ++ below) data :=
  (setting.update update).frame _ (setting.apart_internal internal apart below)

/-- The same update of documents that look the same leaves them so. -/
theorem Setting.agreeVisible (setting : Setting path) {other otherAfter : Value} (agree : AgreeVisible data other)
    (update : updateAt (path ++ rest) f (some data) = some after)
    (otherUpdate : updateAt (path ++ rest) f (some other) = some otherAfter) : AgreeVisible after otherAfter := by
  have hone := setting.update update
  have htwo := setting.update otherUpdate
  intro t visible
  by_cases hbelow : path <+: t
  · obtain ⟨below, rfl⟩ := hbelow
    have hread : readAt path after = readAt path otherAfter := by
      rw [← hone.at_setting, ← htwo.at_setting, agree path (setting.visible visible)]
    rw [readAt_append, readAt_append, hread]
  · have hapart := setting.apart_visible visible hbelow
    rw [hone.frame t hapart, htwo.frame t hapart, agree t visible]

/-- The stages stay, under their names and in their order. -/
theorem Setting.stageNames_eq (setting : Setting path)
    (update : updateAt (path ++ rest) f (some data) = some after) : stageNames after = stageNames data := by
  cases setting with
  | pipeline k ne =>
    have happart : Apart [⟨"stages", false⟩] [⟨k, false⟩] := by simp [Apart, ne, Ne.symm ne]
    rw [stageNames, stageNames, ((Setting.pipeline k ne).update update).frame _ happart]
  | stage s k ne =>
    obtain ⟨_, _, _, _, _, hkey, _⟩ | ⟨entries, list, hdata, _, hlist, rfl⟩ := updateAt_cons_some update
    · cases hkey
    · obtain ⟨items, i, v, u, hitems, _, _, hi, hnamed, hu, rfl⟩ | ⟨_, _, _, hnamed, _⟩ := updateAt_cons_some hlist
      · obtain ⟨hlt, hv⟩ := List.getElem?_eq_some_iff.mp hi
        have hentry : (items.set i u).map entryName = items.map entryName := by
          have hself : (items.map entryName).set i (entryName v) = items.map entryName := by
            rw [← List.map_set, ← hv, List.set_getElem_self hlt]
          rw [List.map_set, entryName_updateAt hnamed ne hu, hself]
        have hstages : entries.lookup "stages" = some (.list items) := container_list hitems
        have hdict : data = .dict entries := container_dict hdata hstages
        rw [stageNames, stageNames, hdict, readAt_dict rfl, readAt_dict rfl, lookup_insertKey, if_pos rfl, hstages]
        exact hentry
      · cases hnamed

end

/-! ### What a user may patch -/

section
variable {root : Root} {data : Value} {patches : List (ConfigPatch root)}

/-- The first step of a path is a key. -/
theorem ConfigPath.head_key (p : ConfigPath root) {s : Step} {rest : List Step} (h : p.steps = s :: rest) :
    s.named = false := by
  have hparsed := (parse_ok p.parsed).2
  cases hparts : splitDots p.raw with
  | nil => exact absurd hparts (splitDots_ne_nil _)
  | cons part more =>
    rw [hparts] at hparsed
    obtain ⟨first, tail, hfirst, _, hsegments⟩ := descendAll_cons hparsed
    have hkind : first.kind ≠ .namedItem := by
      simp only [descend, Root.annotation] at hfirst
      split at hfirst
      · cases hfirst
      · split at hfirst
        · cases hfirst
        · split at hfirst
          · cases hfirst
            intro hitem
            cases hitem
          · cases hfirst
    rw [ConfigPath.steps, hsegments, List.map_cons] at h
    rw [← (List.cons.inj h).1]
    simp [Segment.step, ownType_kind, hkind]

/-- The patch is for a stage as a whole: `stages.<s>`. -/
def ConfigPatch.NamesStage (p : ConfigPatch root) : Prop := ∃ s, splitDots p.path.raw = ["stages", s]

/-- An accepted patch is at a setting or below one, unless it is for a stage as a whole. -/
theorem ConfigPatch.setting {p : ConfigPatch root} (accepted : p.path.isPublic = true) (field : ¬ p.NamesStage) :
    ∃ path rest, p.path.steps = path ++ rest ∧ Setting path := by
  have hraw := p.path.steps_raw
  cases hsteps : p.path.steps with
  | nil =>
    rw [hsteps] at hraw
    exact absurd hraw.symm (splitDots_ne_nil _)
  | cons first rest =>
    have hfirst : first = ⟨first.raw, false⟩ := by rw [← p.path.head_key hsteps]
    by_cases hstages : first.raw = "stages"
    · rw [hstages] at hfirst
      rw [hsteps, hfirst] at hraw
      cases rest with
      | nil =>
        have hinternal : Internal p.path.steps := by
          rw [hsteps, hfirst]
          rfl
        rw [(internal_steps p.path).mp hinternal] at accepted
        cases accepted
      | cons s rest =>
        cases rest with
        | nil => exact absurd ⟨s.raw, hraw.symm⟩ field
        | cons k more =>
          obtain ⟨steps, hbelow, _⟩ := p.path.below_stage hraw.symm
          have hname := (p.path.public_below_stage hraw.symm accepted).1
          exact ⟨_, steps, hsteps ▸ hbelow, .stage s.raw k.raw hname⟩
    · refine ⟨[first], rest, rfl, ?_⟩
      rw [hfirst]
      exact .pipeline _ hstages

/-- A patch that is accepted and does not name a stage as a whole. -/
def ConfigPatch.Accepted (p : ConfigPatch root) : Prop := p.path.isPublic = true ∧ ¬ p.NamesStage

theorem ConfigPatch.Accepted.update {p : ConfigPatch root} (h : p.Accepted) :
    ∃ path rest, p.path.steps = path ++ rest ∧ Setting path ∧
      ∀ data, applyPatch data p = updateAt (path ++ rest) p.merge (some data) := by
  obtain ⟨path, rest, hsteps, setting⟩ := p.setting h.1 h.2
  exact ⟨path, rest, hsteps, setting, fun data => by rw [applyPatch_eq_update, hsteps]⟩

/-! ### A set of patches -/

/-- What applying a set of patches makes of a document. -/
theorem applyAll_internal (accepted : ∀ q ∈ patches, q.Accepted) {p : List Step}
    (internal : Internal p) (apart : ∀ q ∈ patches, Apart p q.path.steps) (below : List Step) {after : Value}
    (h : patches.foldlM applyPatch data = some after) : readAt (p ++ below) after = readAt (p ++ below) data := by
  apply foldlM_preserves (P := fun d => readAt (p ++ below) d = readAt (p ++ below) data) ?_ rfl h
  intro q hq s t hs ht
  obtain ⟨path, rest, hsteps, setting, happly⟩ := (accepted q hq).update
  rw [happly] at ht
  rw [setting.readAt_internal ht internal (hsteps ▸ apart q hq), hs]

theorem applyAll_stageNames (accepted : ∀ q ∈ patches, q.Accepted)
    {after : Value} (h : patches.foldlM applyPatch data = some after) : stageNames after = stageNames data := by
  apply foldlM_preserves (P := fun d => stageNames d = stageNames data) ?_ rfl h
  intro q hq s t hs ht
  obtain ⟨path, rest, _, setting, happly⟩ := (accepted q hq).update
  rw [happly] at ht
  rw [setting.stageNames_eq ht, hs]

/-- Documents that look the same go on to look the same. -/
theorem applyAll_agree (accepted : ∀ q ∈ patches, q.Accepted)
    {other after otherAfter : Value} (agree : AgreeVisible data other)
    (h : patches.foldlM applyPatch data = some after) (ho : patches.foldlM applyPatch other = some otherAfter) :
    AgreeVisible after otherAfter := by
  induction patches generalizing data other with
  | nil =>
    cases h
    cases ho
    exact agree
  | cons q patches ih =>
    rw [foldlM_cons] at h ho
    obtain ⟨next, hnext, h⟩ := Option.bind_eq_some_iff.mp h
    obtain ⟨otherNext, hother, ho⟩ := Option.bind_eq_some_iff.mp ho
    obtain ⟨path, rest, _, setting, happly⟩ := (accepted q List.mem_cons_self).update
    rw [happly] at hnext hother
    exact ih (fun q hq => accepted q (List.mem_cons_of_mem _ hq)) (setting.agreeVisible agree hnext hother) h ho

/-! ### The config that is built -/

/-- A stale name is cleared by an update of the setting `name`. -/
theorem clearName_update {base : Baseline} (h : hasStaleName base patches data = true) :
    updateAt ([⟨"name", false⟩] ++ []) (fun _ => .null) (some data) = some (clearName data) := by
  have hread := (hasStaleName_true h).2
  cases data with
  | dict entries => rfl
  | _ => cases hread

theorem settingName : Setting [⟨"name", false⟩] := .pipeline "name" (by decide)

theorem hasStaleName_agree {base other : Baseline} {otherData : Value}
    (model : base.modelPath = other.modelPath) (agree : AgreeVisible data otherData) :
    hasStaleName base patches data = hasStaleName other patches otherData := by
  rw [hasStaleName, hasStaleName, agree _ visible_name, model]

variable {ε C : Type}

/-- **What a user leaves alone.** A set of accepted patches, none of them for a stage as a whole, changes nothing at or
below an internal path that no patch leads to or goes on from; the stages stay, under their names and in their order;
and configs that look the same to the user still do when they are patched alike. -/
theorem resolve_spares_internal {build : Value → Except ε C} {base : Baseline} {patches : List (ConfigPatch root)}
    (accepted : ∀ q ∈ patches, q.path.isPublic = true) (fields : ∀ q ∈ patches, ¬ q.NamesStage) {r : Resolved C}
    (h : resolve build base patches = .ok r) :
    (∀ p : ConfigPath root, p.isPublic = false → (∀ q ∈ patches, Apart p.steps q.path.steps) →
      ∀ below, readAt (p.steps ++ below) r.document = readAt (p.steps ++ below) base.dump) ∧
    stageNames r.document = stageNames base.dump ∧
    ∀ other s, other.modelPath = base.modelPath → resolve build other patches = .ok s →
      AgreeVisible base.dump other.dump → AgreeVisible r.document s.document := by
  have haccepted : ∀ q ∈ ordered patches, q.Accepted := fun q hq =>
    ⟨accepted q (mem_ordered.mp hq), fields q (mem_ordered.mp hq)⟩
  obtain ⟨_, data, hdata, hdocument, _⟩ := resolve_ok h
  refine ⟨fun p hinternal apart below => ?_, ?_, ?_⟩
  · have internal := (internal_steps p).mpr hinternal
    have hread := applyAll_internal haccepted internal (fun q hq => apart q (mem_ordered.mp hq)) below hdata
    rw [hdocument, ← hread]
    split
    · next hstale => exact settingName.readAt_internal (clearName_update hstale) internal internal.apart_name below
    · rfl
  · rw [hdocument, ← applyAll_stageNames haccepted hdata]
    split
    · next hstale => exact settingName.stageNames_eq (clearName_update hstale)
    · rfl
  · intro other s model hs agree
    obtain ⟨_, otherData, hotherData, hotherDocument, _⟩ := resolve_ok hs
    have hagree := applyAll_agree haccepted agree hdata hotherData
    have hstale : hasStaleName base patches _ = hasStaleName other patches _ := hasStaleName_agree model.symm hagree
    rw [hdocument, hotherDocument, ← hstale]
    split
    · next h => exact settingName.agreeVisible hagree (clearName_update h) (clearName_update (hstale ▸ h))
    · exact hagree

end

/-! ### What is accepted above and below internal paths -/

theorem compile_raw {root : Root} (p : ConfigPath root) : ConfigPath.compile root p.raw = .ok p := by
  unfold ConfigPath.compile
  split
  · next segments h =>
    have hsegments : segments = p.segments := Except.ok.inj (h.symm.trans p.parsed)
    subst hsegments
    rfl
  · next e h =>
    rw [p.parsed] at h
    cases h

theorem create_eq {root : Root} {p : ConfigPath root} (isPublic : p.isPublic = true) (v : Value)
    (source : ConfigSource) : ConfigPatch.create (fun _ v => .ok v) p.raw v source =
      .ok ⟨p, v, source, source.layer, .explicit⟩ := by
  rw [ConfigPatch.create, compile_raw]
  simp [bind, Except.bind, ConfigPath.requireWritable, isPublic, pure, Except.pure]

/-- A pipeline whose stages send what a projection makes of their payload. -/
def payloadRoot : Root :=
  let stage : StageType := ⟨"StageConfig", false,
    [("gpu", .leaf "int"), ("next", .leaf "str"), ("project_payload", .mapping (.leaf "str"))]⟩
  ⟨"OmniPipelineConfig", false, [("model_path", .leaf "str"), ("name", .leaf "str")], stage, fun _ => stage⟩

def payloadDump (gpu : Int) (next projection : String) : Value :=
  .dict [("model_path", .str "m"), ("name", .str "m"), ("stages", .list [.dict [("gpu", .int gpu),
    ("name", .str "thinker"), ("next", .str next), ("project_payload", .dict [("talker", .str projection)])]])]

/-- `--<raw> <value>`. -/
def payloadFlag (raw : String) (v : Value) (h : (parse payloadRoot raw).isOk = true) : ConfigPatch payloadRoot :=
  ⟨.ofRaw payloadRoot raw h, v, ⟨.cliDotted, "extra CLI args", ""⟩, .cli, .explicit⟩

/-- The flag is accepted and changes what is at an internal path, or below. -/
def ChangesInternal (q : ConfigPatch payloadRoot) (p : ConfigPath payloadRoot) (below : List Step) : Prop :=
  ConfigPatch.create (fun _ v => .ok v) q.path.raw q.value q.source = .ok q ∧ p.isPublic = false ∧
    ∃ after, applyPatch (payloadDump 0 "talker" "all") q = some after ∧
      readAt (p.steps ++ below) after ≠ readAt (p.steps ++ below) (payloadDump 0 "talker" "all")

theorem changesInternal_of {q : ConfigPatch payloadRoot} {p : ConfigPath payloadRoot} {below : List Step}
    (accepted : q.path.isPublic = true ∧ p.isPublic = false)
    (source : q = ⟨q.path, q.value, ⟨.cliDotted, "extra CLI args", ""⟩, .cli, .explicit⟩)
    (steps seen : List Step) (hsteps : q.path.steps = steps ∧ p.steps ++ below = seen) (leaf : Bool)
    (hleaf : q.path.isLeaf = leaf) (after : Value)
    (apply : updateAt steps (fun old => if leaf then q.value else mergeValue old q.value)
      (some (payloadDump 0 "talker" "all")) = some after)
    (ne : readAt seen after ≠ readAt seen (payloadDump 0 "talker" "all")) : ChangesInternal q p below := by
  obtain ⟨rfl, rfl⟩ := hsteps
  subst hleaf
  rw [source]
  refine ⟨create_eq accepted.1 q.value _, accepted.2, after, ?_, ne⟩
  rw [applyPatch_eq_update]
  exact apply

/-- `--stages.thinker.gpu 1`. -/
def gpuFlag : ConfigPatch payloadRoot := payloadFlag "stages.thinker.gpu" (.int 1) (by decide +kernel)

def nextPath : ConfigPath payloadRoot := .ofRaw payloadRoot "stages.thinker.next" (by decide +kernel)

theorem gpuFlag_steps : gpuFlag.path.steps = [⟨"stages", false⟩, ⟨"thinker", true⟩, ⟨"gpu", false⟩] := by
  decide +kernel

theorem nextPath_steps : nextPath.steps = [⟨"stages", false⟩, ⟨"thinker", true⟩, ⟨"next", false⟩] := by
  decide +kernel

theorem gpuFlag_apply :
    applyPatch (payloadDump 0 "talker" "all") gpuFlag = some (payloadDump 1 "talker" "all") := by
  rw [applyPatch_eq_update, gpuFlag_steps, show gpuFlag.merge = fun _ => .int 1 from by
    funext old
    rw [ConfigPatch.merge, if_pos (by decide +kernel)]
    rfl]
  rfl

theorem gpuFlag_resolve :
    resolve (ε := Empty) .ok ⟨payloadDump 0 "talker" "all", "m"⟩ [gpuFlag] =
      .ok ⟨payloadDump 1 "talker" "all", payloadDump 1 "talker" "all"⟩ := by
  have hkey : gpuFlag.key ≠ "model_path" := by
    rw [show gpuFlag.key = _ from ConfigPath.ofRaw_raw ..]
    decide
  have hdata : (ordered [gpuFlag]).foldlM applyPatch (payloadDump 0 "talker" "all") =
      some (payloadDump 1 "talker" "all") := by
    rw [show ordered [gpuFlag] = [gpuFlag] from rfl, foldlM_cons, gpuFlag_apply]
    rfl
  apply resolve_eq_ok ?_ hdata
  · simp [hasStaleName, hkey]
  · rfl
  · rw [conflicts_eq_nil]
    exact List.pairwise_singleton _ _

/-- The flag for the device of a stage leaves its successor alone. -/
theorem resolve_spares_internal_gpu :
    gpuFlag.path.isPublic = true ∧ nextPath.isPublic = false ∧
      readAt nextPath.steps (payloadDump 1 "talker" "all") = readAt nextPath.steps (payloadDump 0 "talker" "all") := by
  have haccepted : ∀ q ∈ [gpuFlag], q.path.isPublic = true := fun q hq => by
    rw [List.mem_singleton.mp hq]
    decide +kernel
  have hfields : ∀ q ∈ [gpuFlag], ¬ q.NamesStage := fun q hq ⟨s, hs⟩ => by
    rw [List.mem_singleton.mp hq, ← ConfigPath.steps_raw, gpuFlag_steps] at hs
    cases hs
  have hkept := (resolve_spares_internal haccepted hfields gpuFlag_resolve).1 nextPath (by decide +kernel)
    (fun q hq => by
    rw [List.mem_singleton.mp hq, gpuFlag_steps, nextPath_steps]
    simp [Apart]) []
  rw [List.append_nil] at hkept
  exact ⟨haccepted gpuFlag (List.mem_singleton_self _), by decide +kernel, hkept⟩

/-- The stages are internal, and their settings below are not; a patch may be for a stage as a whole; and the keys of
an internal mapping may be written. -/
theorem internal_patched :
    ChangesInternal (payloadFlag "stages.thinker.gpu" (.int 1) (by decide +kernel))
      (.ofRaw _ "stages" (by decide +kernel)) [⟨"thinker", true⟩, ⟨"gpu", false⟩] ∧
    ChangesInternal (payloadFlag "stages.thinker" (.dict [("next", .str "decode")]) (by decide +kernel))
      (.ofRaw _ "stages.thinker.next" (by decide +kernel)) [] ∧
    ChangesInternal (payloadFlag "stages.thinker.project_payload.talker" (.str "none") (by decide +kernel))
      (.ofRaw _ "stages.thinker.project_payload" (by decide +kernel)) [⟨"talker", false⟩] := by
  refine ⟨?_, ?_, ?_⟩
  · apply changesInternal_of (by decide +kernel) rfl [⟨"stages", false⟩, ⟨"thinker", true⟩, ⟨"gpu", false⟩]
      [⟨"stages", false⟩, ⟨"thinker", true⟩, ⟨"gpu", false⟩] (by decide +kernel) true (by decide +kernel)
      (payloadDump 1 "talker" "all") rfl
    intro h
    cases h
  · apply changesInternal_of (by decide +kernel) rfl [⟨"stages", false⟩, ⟨"thinker", true⟩]
      [⟨"stages", false⟩, ⟨"thinker", true⟩, ⟨"next", false⟩] (by decide +kernel) false (by decide +kernel)
      (payloadDump 0 "decode" "all") rfl
    intro h
    exact absurd (Value.str.inj (Option.some.inj h)) (by decide)
  · apply changesInternal_of (by decide +kernel) rfl
      [⟨"stages", false⟩, ⟨"thinker", true⟩, ⟨"project_payload", false⟩, ⟨"talker", false⟩]
      [⟨"stages", false⟩, ⟨"thinker", true⟩, ⟨"project_payload", false⟩, ⟨"talker", false⟩] (by decide +kernel) true
      (by decide +kernel) (payloadDump 0 "talker" "none") rfl
    intro h
    exact absurd (Value.str.inj (Option.some.inj h)) (by decide)

end SglangOmni.Config
