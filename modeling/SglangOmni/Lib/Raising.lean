import Mathlib.Tactic.Common

/-! Programs that change a state and may raise.

They are `EStateM` programs: what a program did to the state before it raised stays done. An invariant is kept by a
program (`Keeps`) when it holds again wherever the program stops, with a value or with an exception. More generally a
program goes from a precondition to one condition on its value and another after an exception (`Meets`), and there is a
rule for each way in which programs are put together. -/
namespace SglangOmni.Lib

variable {σ ε α β : Type}

/-- Where a program stopped. -/
def stateOf : EStateM.Result ε σ α → σ
  | .ok _ s => s
  | .error _ s => s

@[simp] theorem stateOf_ok (a : α) (s : σ) : stateOf (EStateM.Result.ok a s : EStateM.Result ε σ α) = s := rfl

/-! ### What the combinators do -/

theorem bind_apply (x : EStateM ε σ α) (f : α → EStateM ε σ β) (s : σ) :
    (x >>= f) s = match x s with
      | .ok a s' => f a s'
      | .error e s' => .error e s' := by
  show EStateM.bind x f s = _
  unfold EStateM.bind
  cases x s <;> rfl

theorem pure_apply (a : α) (s : σ) : (pure a : EStateM ε σ α) s = .ok a s := rfl

theorem get_apply (s : σ) : (get : EStateM ε σ σ) s = .ok s s := rfl

theorem read_apply (f : σ → EStateM ε σ α) (s : σ) : (get >>= f) s = f s s := rfl

theorem set_apply (t s : σ) : (set t : EStateM ε σ PUnit) s = .ok ⟨⟩ t := rfl

theorem modify_apply (f : σ → σ) (s : σ) : (modify f : EStateM ε σ PUnit) s = .ok ⟨⟩ (f s) := rfl

theorem throw_apply (e : ε) (s : σ) : (throw e : EStateM ε σ α) s = .error e s := rfl

theorem bind_eq_ok {ε α γ : Type} {x : Except ε α} {f : α → Except ε γ} {c : γ} :
    (x >>= f) = .ok c ↔ ∃ a, x = .ok a ∧ f a = .ok c := by
  cases x with
  | error e => exact ⟨(fun h => nomatch h), (fun ⟨_, h, _⟩ => nomatch h)⟩
  | ok a => exact ⟨fun h => ⟨a, rfl, h⟩, fun ⟨b, hb, h⟩ => by cases hb; exact h⟩

/-- A computation that does not touch the state. -/
def fromExcept {ε' : Type} (raise : ε → ε') : Except ε α → EStateM ε' σ α
  | .ok a => pure a
  | .error e => throw (raise e)

/-- `try: x; except exc: handler(exc)`. -/
def catching (x : EStateM ε σ α) (handler : ε → EStateM ε σ α) : EStateM ε σ α := fun s =>
  match x s with
  | .ok a s' => .ok a s'
  | .error e s' => handler e s'

/-- `try: x; finally: final()`. What `final` raises takes the place of what `x` raised. -/
def ensuring (x : EStateM ε σ α) (final : EStateM ε σ PUnit) : EStateM ε σ α := fun s =>
  match x s with
  | .ok a s' =>
    match final s' with
    | .ok _ t => .ok a t
    | .error e t => .error e t
  | .error e s' =>
    match final s' with
    | .ok _ t => .error e t
    | .error e' t => .error e' t

/-! ### What holds after a program -/

/-- From a state with `P` the program stops with a value and `Q`, or with an exception and `R`. -/
def Meets (P : σ → Prop) (x : EStateM ε σ α) (Q : α → σ → Prop) (R : σ → Prop) : Prop :=
  ∀ s, P s → match x s with
    | .ok a s' => Q a s'
    | .error _ s' => R s'

/-- Wherever the program stops, the invariant holds again. -/
def Keeps (I : σ → Prop) (x : EStateM ε σ α) : Prop := Meets I x (fun _ => I) I

section
variable {P I R : σ → Prop} {Q : α → σ → Prop} {x : EStateM ε σ α}

theorem Meets.pure {a : α} (h : ∀ s, P s → Q a s) : Meets P (pure a : EStateM ε σ α) Q R := h

theorem Meets.throw {e : ε} (h : ∀ s, P s → R s) : Meets P (throw e : EStateM ε σ α) Q R := h

theorem Meets.modify {f : σ → σ} {Q : PUnit → σ → Prop} (h : ∀ s, P s → Q ⟨⟩ (f s)) :
    Meets P (modify f : EStateM ε σ PUnit) Q R := h

theorem Meets.set {t : σ} {Q : PUnit → σ → Prop} (h : ∀ s, P s → Q ⟨⟩ t) :
    Meets P (set t : EStateM ε σ PUnit) Q R := h

theorem Meets.bind {f : α → EStateM ε σ β} {Q' : β → σ → Prop} (hx : Meets P x Q R)
    (hf : ∀ a, Meets (Q a) (f a) Q' R) : Meets P (x >>= f) Q' R := by
  intro s hs
  have h := hx s hs
  rw [bind_apply]
  cases hr : x s with
  | ok a s' =>
    rw [hr] at h
    exact hf a s' h
  | error e s' =>
    rw [hr] at h
    exact h

/-- A program that goes on with the state it reads. -/
theorem Meets.read {f : σ → EStateM ε σ α} (h : ∀ s, P s → Meets (fun t => t = s) (f s) Q R) :
    Meets P (get >>= f) Q R := fun s hs => h s hs s rfl

theorem Meets.ite {c : Prop} [Decidable c] {y : EStateM ε σ α} (ht : c → Meets P x Q R) (hf : ¬c → Meets P y Q R) :
    Meets P (if c then x else y) Q R := by
  by_cases h : c
  · rw [if_pos h]
    exact ht h
  · rw [if_neg h]
    exact hf h

/-- From a state that is known. -/
theorem Meets.known {s : σ} (hx : Meets P x Q R) (hs : P s) : Meets (fun t => t = s) x Q R :=
  fun _ ht => ht ▸ hx s hs

theorem Meets.weaken {P' : σ → Prop} {Q' : α → σ → Prop} {R' : σ → Prop} (hx : Meets P x Q R)
    (hp : ∀ s, P' s → P s) (hq : ∀ a s, Q a s → Q' a s) (hr : ∀ s, R s → R' s) : Meets P' x Q' R' := by
  intro s hs
  have h := hx s (hp s hs)
  cases hx' : x s with
  | ok a s' =>
    rw [hx'] at h
    exact hq a s' h
  | error e s' =>
    rw [hx'] at h
    exact hr s' h

theorem Meets.catching {handler : ε → EStateM ε σ α} {S : σ → Prop} (hx : Meets P x Q S)
    (hh : ∀ e, Meets S (handler e) Q R) : Meets P (catching x handler) Q R := by
  intro s hs
  have h := hx s hs
  unfold Lib.catching
  cases hr : x s with
  | ok a s' =>
    rw [hr] at h
    exact h
  | error e s' =>
    rw [hr] at h
    exact hh e s' h

theorem Meets.fromExcept {ε' : Type} (raise : ε → ε') {x : Except ε α} (hok : ∀ a s, x = .ok a → P s → Q a s)
    (herror : ∀ s, P s → R s) : Meets P (fromExcept (σ := σ) raise x) Q R := by
  intro s hs
  cases x with
  | ok a => exact hok a s rfl hs
  | error e => exact herror s hs

theorem Meets.stateOf (hx : Meets P x (fun _ => R) R) {s : σ} (h : P s) : R (stateOf (x s)) := by
  have h' := hx s h
  cases hr : x s with
  | ok a s' | error e s' =>
    rw [hr] at h'
    exact h'

theorem Keeps.stateOf (hx : Keeps I x) {s : σ} (h : I s) : I (stateOf (x s)) := Meets.stateOf hx h

theorem Keeps.pure (a : α) : Keeps I (pure a : EStateM ε σ α) := Meets.pure fun _ h => h

theorem Keeps.modify {f : σ → σ} (h : ∀ s, I s → I (f s)) : Keeps I (modify f : EStateM ε σ PUnit) := Meets.modify h

theorem Keeps.bind {f : α → EStateM ε σ β} (hx : Keeps I x) (hf : ∀ a, Keeps I (f a)) :
    Keeps I (x >>= f) := Meets.bind hx hf

theorem Keeps.read {f : σ → EStateM ε σ α} (h : ∀ s, Keeps I (f s)) : Keeps I (get >>= f) :=
  Meets.read fun s hs => (h s).known hs

theorem Keeps.catching {handler : ε → EStateM ε σ α} (hx : Keeps I x)
    (hh : ∀ e, Keeps I (handler e)) : Keeps I (catching x handler) := Meets.catching hx hh

theorem Keeps.fromExcept {ε' : Type} (raise : ε → ε') (x : Except ε α) : Keeps I (fromExcept (σ := σ) raise x) :=
  Meets.fromExcept raise (fun _ _ _ h => h) fun _ h => h

end

end SglangOmni.Lib
