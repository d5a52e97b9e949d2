import Mathlib.Data.List.Basic

/-! Histories of a component that takes one event at a time.

A component is a total `step`: an event that cannot happen in a state leaves the
state as it is. Whatever holds at the start and survives every step holds after
every history (`run_invariant`). When a step is only known to behave under a rule
on the event and the state it meets, the rule is asked of every step of the
history (`Along`), and the invariant follows the same way (`along_invariant`). -/
namespace SglangOmni.Lib

variable {σ ε : Type} (step : σ → ε → σ) {s : σ} {Rule : σ → ε → Prop}

/-- The state after a history. -/
def run (s : σ) : List ε → σ
  | [] => s
  | e :: rest => run (step s e) rest

theorem run_append (s : σ) (a b : List ε) : run step s (a ++ b) = run step (run step s a) b := by
  induction a generalizing s with
  | nil => rfl
  | cons e rest ih => exact ih _

theorem run_concat (s : σ) (a : List ε) (e : ε) :
    run step s (a ++ [e]) = step (run step s a) e := by
  rw [run_append]
  rfl

theorem run_eq_foldl (s : σ) (es : List ε) : run step s es = es.foldl step s := by
  induction es generalizing s with
  | nil => rfl
  | cons e rest ih => exact ih _

/-- Every step of the history meets the rule in the state it is taken from. -/
def Along (Rule : σ → ε → Prop) (s : σ) : List ε → Prop
  | [] => True
  | e :: rest => Rule s e ∧ Along Rule (step s e) rest

instance decidableAlong (Rule : σ → ε → Prop) [∀ s e, Decidable (Rule s e)] (s : σ) :
    (es : List ε) → Decidable (Along step Rule s es)
  | [] => isTrue trivial
  | e :: rest =>
    have := decidableAlong Rule (step s e) rest
    inferInstanceAs (Decidable (Rule s e ∧ Along step Rule (step s e) rest))

variable {step}

/-- What holds at the start and survives every step holds after every history. -/
theorem run_invariant {I : σ → Prop} (initial : I s)
    (preserved : ∀ t e, I t → I (step t e)) (es : List ε) : I (run step s es) := by
  induction es generalizing s with
  | nil => exact initial
  | cons e rest ih => exact ih (preserved s e initial)

/-- The same, for steps that need the rule. -/
theorem along_invariant {I : σ → Prop} (initial : I s)
    (preserved : ∀ t e, I t → Rule t e → I (step t e)) (es : List ε)
    (rule : Along step Rule s es) : I (run step s es) := by
  induction es generalizing s with
  | nil => exact initial
  | cons e rest ih => exact ih (preserved s e initial rule.1) rule.2

theorem along_mono {P Q : σ → ε → Prop} (h : ∀ s e, P s e → Q s e) {es : List ε}
    (hp : Along step P s es) : Along step Q s es := by
  induction es generalizing s with
  | nil => trivial
  | cons e rest ih => exact ⟨h s e hp.1, ih hp.2⟩

theorem along_append (a : List ε) {b : List ε} (ha : Along step Rule s a)
    (hb : Along step Rule (a.foldl step s) b) : Along step Rule s (a ++ b) := by
  induction a generalizing s with
  | nil => exact hb
  | cons e rest ih => exact ⟨ha.1, ih ha.2 hb⟩

theorem along_left (a : List ε) {b : List ε} (h : Along step Rule s (a ++ b)) :
    Along step Rule s a := by
  induction a generalizing s with
  | nil => trivial
  | cons e rest ih => exact ⟨h.1, ih h.2⟩

/-- What one component does, another does as well, when each step of the first has its step of the second. -/
theorem along_simulates {σ' ε' : Type} {step' : σ' → ε' → σ'} {Rule' : σ' → ε' → Prop}
    {R : σ → σ' → Prop} {f : ε → ε'}
    (next : ∀ s t e, R s t → Rule s e → Rule' t (f e) ∧ R (step s e) (step' t (f e))) {t : σ'} (h : R s t)
    (es : List ε) (rule : Along step Rule s es) :
    Along step' Rule' t (es.map f) ∧ R (run step s es) (run step' t (es.map f)) := by
  induction es generalizing s t with
  | nil => exact ⟨trivial, h⟩
  | cons e rest ih =>
    obtain ⟨hrule, hnext⟩ := next s t e h rule.1
    obtain ⟨halong, hrun⟩ := ih hnext rule.2
    exact ⟨⟨hrule, halong⟩, hrun⟩

/-! ### Logs -/

/-- Every entry of a log, newest first, is allowed after the entries before it. -/
def Every (ok : ε → List ε → Prop) : List ε → Prop
  | [] => True
  | e :: earlier => ok e earlier ∧ Every ok earlier

end SglangOmni.Lib
