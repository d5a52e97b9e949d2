import SglangOmni.Config.Path
import SglangOmni.Lib.RankedFold
import Mathlib.Data.Prod.Lex

/-! Patches: what every source of configuration is reduced to.

A patch is a value for a path, with the source it came from. Which value wins goes by the rank: the layer of the
source, how explicitly the path was written, and the depth of the path. Two patches of one path and rank must agree;
whether they do is asked of Python's `==`. -/
namespace SglangOmni.Config
open Lib

/-! ### Precedence -/

inductive Layer where
  | modelDefault
  | userFile
  | cli
  deriving DecidableEq

def Layer.toNat : Layer → Nat
  | .modelDefault => 0
  | .userFile => 10
  | .cli => 20

inductive Specificity where
  | broadcast
  | role
  | explicit
  deriving DecidableEq

def Specificity.toNat : Specificity → Nat
  | .broadcast => 0
  | .role => 10
  | .explicit => 20

inductive SourceKind where
  | modelDefault
  | yamlFile
  | cliFlag
  | cliDotted
  deriving DecidableEq

structure ConfigSource where
  kind : SourceKind
  origin : String := ""
  detail : String := ""
  deriving DecidableEq

/-- `_DEFAULT_LAYER`. -/
def ConfigSource.layer (source : ConfigSource) : Layer :=
  match source.kind with
  | .modelDefault => .modelDefault
  | .yamlFile => .userFile
  | .cliFlag => .cli
  | .cliDotted => .cli

/-- Tuples of numbers are compared entry by entry. -/
abbrev Rank := Nat ×ₗ Nat ×ₗ Nat

/-! ### Patches -/

structure ConfigPatch (root : Root) where
  path : ConfigPath root
  value : Value
  source : ConfigSource
  layer : Layer
  specificity : Specificity := .explicit

namespace ConfigPatch
variable {root : Root}

def key (p : ConfigPatch root) : String := p.path.raw

def rank (p : ConfigPatch root) : Rank :=
  toLex (p.layer.toNat, toLex (p.specificity.toNat, p.path.segments.length))

/-- `ConfigPatch.create`. What `coerce` makes of a value is left to the parameter. -/
def create (coerce : ConfigPath root → Value → Except PathError Value) (raw : String) (value : Value)
    (source : ConfigSource) (specificity : Specificity := .explicit) : Except PathError (ConfigPatch root) := do
  let path ← ConfigPath.compile root raw
  path.requireWritable
  let value ← coerce path value
  return ⟨path, value, source, source.layer, specificity⟩

end ConfigPatch

/-! ### Sets of patches -/

section
variable {root : Root} {patches : List (ConfigPatch root)}

/-- `ConfigPatchSet.ordered`: the order of Python's sort, by rank and then by insertion. -/
def ordered (patches : List (ConfigPatch root)) : List (ConfigPatch root) :=
  patches.insertionSort fun a b => a.rank ≤ b.rank

/-- `ConfigPatchSet.winners`. -/
def winners (patches : List (ConfigPatch root)) : Dict String (ConfigPatch root) :=
  (ordered patches).foldl (fun out p => out.set p.key p) ∅

/-- Of one path and one rank. -/
def SameSlot (a b : ConfigPatch root) : Prop := a.key = b.key ∧ a.rank = b.rank

instance (a b : ConfigPatch root) : Decidable (SameSlot a b) := inferInstanceAs (Decidable (_ ∧ _))

/-- The loop of `conflicts`; `seen` holds the first patch of every path and rank. -/
def conflictsFrom (seen : List (ConfigPatch root)) :
    List (ConfigPatch root) → List (ConfigPatch root × ConfigPatch root)
  | [] => []
  | p :: rest =>
    match seen.find? fun q => SameSlot q p with
    | none => conflictsFrom (seen ++ [p]) rest
    | some previous =>
      if previous.value.pyEq p.value then conflictsFrom seen rest else (previous, p) :: conflictsFrom seen rest

/-- `ConfigPatchSet.conflicts`. -/
def conflicts (patches : List (ConfigPatch root)) : List (ConfigPatch root × ConfigPatch root) :=
  conflictsFrom [] patches

/-! ### Orders -/

theorem SameSlot.symm {a b : ConfigPatch root} (h : SameSlot a b) : SameSlot b a := ⟨h.1.symm, h.2.symm⟩

theorem SameSlot.trans {a b c : ConfigPatch root} (h : SameSlot a b) (h' : SameSlot b c) : SameSlot a c :=
  ⟨h.1.trans h'.1, h.2.trans h'.2⟩

theorem ordered_perm (patches : List (ConfigPatch root)) : (ordered patches).Perm patches :=
  List.perm_insertionSort _ _

theorem mem_ordered {p : ConfigPatch root} : p ∈ ordered patches ↔ p ∈ patches :=
  (ordered_perm patches).mem_iff

theorem ordered_ranked (patches : List (ConfigPatch root)) :
    (ordered patches).Pairwise fun a b => a.rank ≤ b.rank := by
  have htotal : Std.Total fun a b : ConfigPatch root => a.rank ≤ b.rank := ⟨fun a b => le_total a.rank b.rank⟩
  have htrans : IsTrans (ConfigPatch root) fun a b => a.rank ≤ b.rank := ⟨fun _ _ _ => le_trans⟩
  exact List.pairwise_insertionSort _ _

/-! ### Conflicts -/

/-- The patches that agree in Python, wherever they are of one path and rank. -/
def Agree (patches : List (ConfigPatch root)) : Prop :=
  patches.Pairwise fun a b => SameSlot a b → a.value.pyEq b.value = true

/-- No conflict is found when every patch agrees with those after it of its path and rank: the first one stands for
them all. -/
theorem conflictsFrom_eq_nil {seen : List (ConfigPatch root)}
    (first : ∀ a ∈ seen, ∀ b ∈ seen, SameSlot a b → a = b) :
    conflictsFrom seen patches = [] ↔
      Agree patches ∧ ∀ a ∈ seen, ∀ b ∈ patches, SameSlot a b → a.value.pyEq b.value = true := by
  induction patches generalizing seen with
  | nil =>
    refine ⟨fun _ => ⟨List.Pairwise.nil, fun _ _ b hb => nomatch hb⟩, fun _ => rfl⟩
  | cons p rest ih =>
    unfold conflictsFrom
    cases hfind : seen.find? fun q => SameSlot q p with
    | none =>
      have hnone : ∀ a ∈ seen, ¬ SameSlot a p := fun a ha => by
        simpa using List.find?_eq_none.mp hfind a ha
      have hfirst : ∀ a ∈ seen ++ [p], ∀ b ∈ seen ++ [p], SameSlot a b → a = b := by
        intro a ha b hb hab
        cases List.mem_append.mp ha with
        | inl ha =>
          cases List.mem_append.mp hb with
          | inl hb => exact first a ha b hb hab
          | inr hb =>
            cases List.mem_singleton.mp hb
            exact absurd hab (hnone a ha)
        | inr ha =>
          cases List.mem_singleton.mp ha
          cases List.mem_append.mp hb with
          | inl hb => exact absurd hab.symm (hnone b hb)
          | inr hb => exact (List.mem_singleton.mp hb).symm
      show conflictsFrom (seen ++ [p]) rest = [] ↔ _
      rw [ih hfirst, Agree, Agree, List.pairwise_cons]
      refine ⟨fun h => ⟨⟨fun b hb => h.2 p (List.mem_append_right _ (List.mem_singleton_self p)) b hb, h.1⟩, ?_⟩,
        fun h => ⟨h.1.2, ?_⟩⟩
      · intro a ha b hb hab
        cases List.mem_cons.mp hb with
        | inl he => exact absurd (he ▸ hab) (hnone a ha)
        | inr hb => exact h.2 a (List.mem_append_left _ ha) b hb hab
      · intro a ha b hb
        cases List.mem_append.mp ha with
        | inl ha => exact h.2 a ha b (List.mem_cons_of_mem p hb)
        | inr ha =>
          cases List.mem_singleton.mp ha
          exact h.1.1 b hb
    | some previous =>
      have hmem : previous ∈ seen := List.mem_of_find?_eq_some hfind
      have hslot : SameSlot previous p := by simpa using List.find?_some hfind
      rw [Agree, List.pairwise_cons]
      by_cases heq : previous.value.pyEq p.value = true
      · simp only [heq, if_true]
        rw [ih first, Agree]
        refine ⟨fun h => ⟨⟨fun b hb hpb => ?_, h.1⟩, ?_⟩, fun h => ⟨h.1.2, fun a ha b hb => h.2 a ha b
          (List.mem_cons_of_mem p hb)⟩⟩
        · exact Value.pyEq_trans (Value.pyEq_symm heq) (h.2 previous hmem b hb (hslot.trans hpb))
        · intro a ha b hb hab
          cases List.mem_cons.mp hb with
          | inl he =>
            subst he
            rw [first a ha previous hmem (hab.trans hslot.symm)]
            exact heq
          | inr hb => exact h.2 a ha b hb hab
      · simp only [heq]
        refine ⟨fun h => (by cases h), fun h => absurd ?_ heq⟩
        exact h.2 previous hmem p List.mem_cons_self hslot

theorem conflicts_eq_nil : conflicts patches = [] ↔ Agree patches := by
  have hnone : ∀ a : ConfigPatch root, a ∉ ([] : List (ConfigPatch root)) := fun a => List.not_mem_nil
  rw [conflicts, conflictsFrom_eq_nil fun a ha => absurd ha (hnone a)]
  exact ⟨And.left, fun h => ⟨h, fun a ha => absurd ha (hnone a)⟩⟩

/-- Whether there is a conflict does not depend on the order. -/
theorem conflicts_eq_nil_of_perm {others : List (ConfigPatch root)} (perm : patches.Perm others)
    (h : conflicts patches = []) : conflicts others = [] := by
  rw [conflicts_eq_nil] at h ⊢
  exact (perm.pairwise_iff fun hab hba => Value.pyEq_symm (hab hba.symm)).mp h

end

end SglangOmni.Config
