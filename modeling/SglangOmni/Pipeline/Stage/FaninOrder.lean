import SglangOmni.Pipeline.Stage.Input
import Mathlib.Data.Finset.Basic

/-! Fan-in in any order.

`gathered` is what `AggregatedInput` holds of a request that has not merged: the payloads so
far, and the resolver's first answer. One `receive` then depends only on the payloads seen
(`receive_gathered`), and the order of the arrivals falls out: a payload from each expected
source merges at the last of them. A payload from a static source that is not expected is
found out when the expected set is known, which may be at a later payload; one from any
other source is ignored. -/
namespace SglangOmni.Pipeline.Stage.AggregatedInput
open Lib

variable {α : Type} {h : AggregatedInput α} {r x : String} {E : Finset String}
  {payloads seen a b : List (String × α)} {p : String × α}

/-- The payloads of one request one after the other, with what each `receive` gives. -/
def receiveAll (h : AggregatedInput α) (r : String) (f : Fanin α) :
    List (String × α) → Fanin α × List (Except InputError (Option α))
  | [] => (f, [])
  | p :: rest =>
    let now := h.receive f r p.1 p.2
    let later := receiveAll h r now.1 rest
    (later.1, now.2 :: later.2)

theorem receiveAll_append (f : Fanin α) (a b : List (String × α)) :
    receiveAll h r f (a ++ b) =
      ((receiveAll h r (receiveAll h r f a).1 b).1,
        (receiveAll h r f a).2 ++ (receiveAll h r (receiveAll h r f a).1 b).2) := by
  induction a generalizing f with
  | nil => rfl
  | cons p rest ih =>
    simp only [List.cons_append, receiveAll]
    rw [ih]

/-! ### What is expected -/

/-- The sources known to be expected after the payloads: the resolver's first answer, and
without a resolver all of them. -/
def expectedAfter (h : AggregatedInput α) (r : String) (seen : List (String × α)) : Option (List String) :=
  match h.expectedSourcesFn with
  | none => some h.sources
  | some resolver => seen.findSome? fun p => resolver r p.1 p.2

/-- `E` is expected: it is the resolver's answer on every payload on which there is one. -/
structure Expects (h : AggregatedInput α) (r : String) (E : Finset String) (payloads : List (String × α)) :
    Prop where
  nonempty : E.Nonempty
  within : E ⊆ h.sources.toFinset
  unresolved : h.expectedSourcesFn = none → E = h.sources.toFinset
  resolved : ∀ resolver, h.expectedSourcesFn = some resolver → ∀ p ∈ payloads, ∀ answer,
    resolver r p.1 p.2 = some answer → answer.toFinset = E

/-- One payload from each source of `E`. -/
structure Covers (E : Finset String) (arrivals : List (String × α)) : Prop where
  nodup : (arrivals.map Prod.fst).Nodup
  sources : (arrivals.map Prod.fst).toFinset = E

theorem Expects.answer (he : Expects h r E payloads)
    (hsub : ∀ p ∈ seen, p ∈ payloads) {expected : List String} (hk : expectedAfter h r seen = some expected) :
    expected.toFinset = E := by
  unfold expectedAfter at hk
  split at hk
  · next hnone =>
    cases hk
    exact (he.unresolved hnone).symm
  · next resolver hsome =>
    obtain ⟨p, hp, hanswer⟩ := List.exists_of_findSome?_eq_some hk
    exact he.resolved resolver hsome p (hsub p hp) expected hanswer

theorem Expects.normalize (he : Expects h r E payloads) {expected : List String}
    (hE : expected.toFinset = E) : h.normalizeExpectedSources expected = .ok expected := by
  have hne : expected ≠ [] := by
    intro hnil
    rw [hnil, List.toFinset_nil] at hE
    exact he.nonempty.ne_empty hE.symm
  have hunknown : (expected.filter fun source => source ∉ h.sources) = [] := by
    apply List.filter_eq_nil_iff.mpr
    intro source hs
    have hin := he.within (hE ▸ List.mem_toFinset.mpr hs)
    simpa using hin
  simp only [normalizeExpectedSources, hne, hunknown, if_false, ne_eq, not_true_eq_false]

/-! ### One payload -/

/-- What the handler holds of a request that has not merged. -/
def gathered (h : AggregatedInput α) (r : String) (seen : List (String × α)) : Fanin α where
  pending := Dict.ofList seen
  expectedSources := h.expectedSourcesFn.bind fun resolver => seen.findSome? fun p => resolver r p.1 p.2

/-- A payload from a static source: kept while not everything expected is there, refused
when something else is, and merged when it is the last. -/
theorem receive_gathered
    (he : Expects h r E payloads) (hsub : ∀ q ∈ seen ++ [p], q ∈ payloads) (hp : p.1 ∈ h.sources) :
    h.receive (gathered h r seen) r p.1 p.2 =
      let f := gathered h r (seen ++ [p])
      match expectedAfter h r (seen ++ [p]) with
      | none => (f, .ok none)
      | some expected =>
        let unexpected := f.pending.keys.filter fun source => source ∉ expected
        if unexpected ≠ [] then (f, .error (.outsideExpected unexpected expected))
        else if expected.all fun source => f.pending.contains source then
          ({}, (h.merge f.pending).mapError .merge |>.map some)
        else (f, .ok none) := by
  have hset : (Dict.ofList seen).set p.1 p.2 = Dict.ofList (seen ++ [p]) := by
    simp [Dict.ofList, List.foldl_append]
  have hanswer : ∀ expected, expectedAfter h r (seen ++ [p]) = some expected → expected.toFinset = E :=
    fun _ => he.answer hsub
  simp only [receive, hp, not_true_eq_false, if_false, expect, gathered, hset, expectedAfter] at hanswer ⊢
  cases hfn : h.expectedSourcesFn with
  | none =>
    simp only [Option.bind_none]
    rfl
  | some resolver =>
    simp only [hfn, Option.bind_some] at hanswer ⊢
    rw [List.findSome?_append] at hanswer ⊢
    cases hseen : seen.findSome? fun q => resolver r q.1 q.2 with
    | some expected =>
      simp only [Option.some_or]
      rfl
    | none =>
      simp only [hseen, Option.none_or, List.findSome?_cons, List.findSome?_nil] at hanswer ⊢
      cases hnow : resolver r p.1 p.2 with
      | none => rfl
      | some expected =>
        have hE := hanswer expected (by rw [hnow])
        simp only [he.normalize hE]
        rfl

/-! ### The sources that are there -/

theorem gathered_keys (hn : (seen.map Prod.fst).Nodup) :
    (gathered h r seen).pending.keys = seen.map Prod.fst := by
  rw [gathered, Dict.keys, Dict.entries_ofList hn]

theorem gathered_complete (hn : (seen.map Prod.fst).Nodup) (expected : List String) :
    (expected.all fun source => (gathered h r seen).pending.contains source) = true ↔
      expected.toFinset ⊆ (seen.map Prod.fst).toFinset := by
  have hcontains : ∀ source, (gathered h r seen).pending.contains source = true ↔ source ∈ seen.map Prod.fst := by
    intro source
    rw [← gathered_keys (h := h) (r := r) hn, Dict.contains_iff, Dict.mem_keys]
  simp only [List.all_eq_true, hcontains]
  constructor
  · intro hall source hs
    exact List.mem_toFinset.mpr (hall source (List.mem_toFinset.mp hs))
  · intro hsub source hs
    exact List.mem_toFinset.mp (hsub (List.mem_toFinset.mpr hs))

theorem gathered_expected (hn : (seen.map Prod.fst).Nodup) (expected : List String)
    (hin : ∀ p ∈ seen, p.1 ∈ expected) :
    ((gathered h r seen).pending.keys.filter fun source => source ∉ expected) = [] := by
  rw [gathered_keys hn]
  apply List.filter_eq_nil_iff.mpr
  intro source hs
  obtain ⟨p, hp, rfl⟩ := List.mem_map.mp hs
  simpa using hin p hp

/-- One source that is not expected is found. -/
theorem gathered_unexpected (hn : (seen.map Prod.fst).Nodup) (expected : List String)
    (hx : x ∈ seen.map Prod.fst) (hout : x ∉ expected) (hin : ∀ p ∈ seen, p.1 ≠ x → p.1 ∈ expected) :
    ((gathered h r seen).pending.keys.filter fun source => source ∉ expected) = [x] := by
  rw [gathered_keys hn]
  have hsame : ((seen.map Prod.fst).filter fun source => source ∉ expected) =
      (seen.map Prod.fst).filter fun source => source = x := by
    apply List.filter_congr
    intro source hs
    obtain ⟨p, hp, rfl⟩ := List.mem_map.mp hs
    rw [decide_eq_decide]
    constructor
    · intro hnot
      by_contra hne
      exact hnot (hin p hp hne)
    · intro heq
      rw [heq]
      exact hout
  rw [hsame, List.filter_eq, List.count_eq_one_of_mem hn hx]
  rfl

/-! ### Arrivals -/

/-- As long as one expected source is missing, payloads of expected sources are kept. -/
theorem receiveAll_waits {rest : List (String × α)} (he : Expects h r E payloads)
    (hsub : ∀ p ∈ seen ++ rest, p ∈ payloads) (hn : ((seen ++ rest).map Prod.fst).Nodup)
    (hin : ∀ p ∈ seen ++ rest, p.1 ∈ E) (hmissing : ¬E ⊆ ((seen ++ rest).map Prod.fst).toFinset) :
    receiveAll h r (gathered h r seen) rest =
      (gathered h r (seen ++ rest), List.replicate rest.length (.ok none)) := by
  induction rest generalizing seen with
  | nil => simp [receiveAll]
  | cons p rest ih =>
    have hassoc : seen ++ p :: rest = (seen ++ [p]) ++ rest := by simp
    rw [hassoc] at hsub hn hin hmissing
    have hnow : ∀ q ∈ seen ++ [p], q ∈ (seen ++ [p]) ++ rest := fun q hq => List.mem_append_left _ hq
    have hn' : ((seen ++ [p]).map Prod.fst).Nodup := by
      rw [List.map_append] at hn
      exact hn.of_append_left
    have hp : p.1 ∈ h.sources := by
      have hpE := hin p (hnow p (List.mem_append_right _ (List.mem_singleton_self p)))
      exact List.mem_toFinset.mp (he.within hpE)
    have hstep : h.receive (gathered h r seen) r p.1 p.2 = (gathered h r (seen ++ [p]), .ok none) := by
      rw [receive_gathered he (fun q hq => hsub q (hnow q hq)) hp]
      cases hk : expectedAfter h r (seen ++ [p]) with
      | none => rfl
      | some expected =>
        have hE := he.answer (fun q hq => hsub q (hnow q hq)) hk
        have hkeys := gathered_expected (h := h) (r := r) hn' expected fun q hq => by
          rw [← List.mem_toFinset, hE]
          exact hin q (hnow q hq)
        have hnot : ¬(expected.all fun source => (gathered h r (seen ++ [p])).pending.contains source) = true := by
          rw [gathered_complete hn', hE]
          intro hall
          apply hmissing
          intro source hs
          rw [List.mem_toFinset, List.map_append]
          exact List.mem_append_left _ (List.mem_toFinset.mp (hall hs))
        simp only [hkeys, ne_eq, not_true_eq_false, if_false]
        rw [if_neg hnot]
    rw [receiveAll, hstep]
    simp only
    rw [ih hsub hn hin hmissing, ← hassoc]
    rfl

/-- What a payload is answered when `x` is there and not expected. -/
def refusal (h : AggregatedInput α) (r x : String) (seen : List (String × α)) : Except InputError (Option α) :=
  match expectedAfter h r seen with
  | none => .ok none
  | some expected => .error (.outsideExpected [x] expected)

theorem receive_refused (he : Expects h r E payloads)
    (hsub : ∀ q ∈ seen ++ [p], q ∈ payloads) (hn : ((seen ++ [p]).map Prod.fst).Nodup) (hp : p.1 ∈ h.sources)
    (hin : ∀ q ∈ seen ++ [p], q.1 ≠ x → q.1 ∈ E) (hx : x ∈ (seen ++ [p]).map Prod.fst) (hout : x ∉ E) :
    h.receive (gathered h r seen) r p.1 p.2 = (gathered h r (seen ++ [p]), refusal h r x (seen ++ [p])) := by
  rw [receive_gathered he hsub hp, refusal]
  cases hk : expectedAfter h r (seen ++ [p]) with
  | none => rfl
  | some expected =>
    have hE := he.answer hsub hk
    have hkeys := gathered_unexpected (h := h) (r := r) hn expected hx
      (by rwa [← List.mem_toFinset, hE])
      (fun q hq hne => by rw [← List.mem_toFinset, hE]; exact hin q hq hne)
    simp only [hkeys]
    rfl

/-- From the payload of `x` on, each is refused once the expected set is known. -/
theorem receiveAll_refuses {rest : List (String × α)}
    (he : Expects h r E payloads) (hsub : ∀ q ∈ seen ++ p :: rest, q ∈ payloads)
    (hn : ((seen ++ p :: rest).map Prod.fst).Nodup) (hstatic : ∀ q ∈ p :: rest, q.1 ∈ h.sources)
    (hin : ∀ q ∈ seen ++ p :: rest, q.1 ≠ x → q.1 ∈ E) (hx : x ∈ (seen ++ [p]).map Prod.fst) (hout : x ∉ E) :
    (receiveAll h r (gathered h r seen) (p :: rest)).2 =
      rest.inits.map fun more => refusal h r x (seen ++ p :: more) := by
  induction rest generalizing seen p with
  | nil =>
    rw [receiveAll, receive_refused he hsub hn (hstatic p (List.mem_cons_self ..)) hin hx hout]
    rfl
  | cons q rest ih =>
    have hassoc : ∀ more : List (String × α), seen ++ p :: more = (seen ++ [p]) ++ more := by simp
    rw [hassoc] at hsub hn hin
    have hnow : ∀ y ∈ seen ++ [p], y ∈ (seen ++ [p]) ++ q :: rest := fun y hy => List.mem_append_left _ hy
    have hn' : ((seen ++ [p]).map Prod.fst).Nodup := by
      rw [List.map_append] at hn
      exact hn.of_append_left
    have hx' : x ∈ (seen ++ [p] ++ [q]).map Prod.fst := by
      rw [List.map_append]
      exact List.mem_append_left _ hx
    rw [receiveAll, receive_refused he (fun y hy => hsub y (hnow y hy)) hn' (hstatic p (List.mem_cons_self ..))
      (fun y hy => hin y (hnow y hy)) hx hout]
    simp only
    rw [ih hsub hn (fun y hy => hstatic y (List.mem_cons_of_mem p hy)) hin hx', List.inits_cons, List.map_cons,
      List.map_map]
    simp only [List.append_assoc, List.singleton_append, Function.comp_def]

/-! ### Every order -/

/-- The last expected payload merges. -/
theorem receive_last (he : Expects h r E payloads)
    (hsub : ∀ q ∈ seen ++ [p], q ∈ payloads) (hcover : Covers E (seen ++ [p]))
    (hknown : (expectedAfter h r (seen ++ [p])).isSome = true) :
    h.receive (gathered h r seen) r p.1 p.2 =
      ({}, (h.merge (Dict.ofList (seen ++ [p]))).mapError .merge |>.map some) := by
  have hin : ∀ q ∈ seen ++ [p], q.1 ∈ E := by
    intro q hq
    rw [← hcover.sources]
    exact List.mem_toFinset.mpr (List.mem_map_of_mem hq)
  have hp : p.1 ∈ h.sources :=
    List.mem_toFinset.mp (he.within (hin p (List.mem_append_right _ (List.mem_singleton_self p))))
  obtain ⟨expected, hk⟩ := Option.isSome_iff_exists.mp hknown
  have hE := he.answer hsub hk
  have hkeys := gathered_expected (h := h) (r := r) hcover.nodup expected fun q hq => by
    rw [← List.mem_toFinset, hE]
    exact hin q hq
  have hall : (expected.all fun source => (gathered h r (seen ++ [p])).pending.contains source) = true := by
    rw [gathered_complete hcover.nodup, hE, hcover.sources]
  rw [receive_gathered he hsub hp, hk]
  simp only [hkeys, ne_eq, not_true_eq_false, if_false]
  rw [if_pos hall]
  rfl

/-- A part of the arrivals that leaves one out is not complete. -/
theorem Covers.missing (hcover : Covers E (a ++ b)) (hb : b ≠ []) :
    ¬E ⊆ (a.map Prod.fst).toFinset := by
  obtain ⟨p, rest, rfl⟩ := List.exists_cons_of_ne_nil hb
  intro hsub
  have hp : p.1 ∈ E := by
    rw [← hcover.sources]
    simp
  have hn := hcover.nodup
  rw [List.map_append] at hn
  exact (List.nodup_append.mp hn).2.2 p.1 (List.mem_toFinset.mp (hsub hp)) p.1 (by simp) rfl

theorem Covers.mem {arrivals : List (String × α)} (hcover : Covers E arrivals) (hp : p ∈ arrivals) : p.1 ∈ E := by
  rw [← hcover.sources]
  exact List.mem_toFinset.mpr (List.mem_map_of_mem hp)

/-- A part of the arrivals is kept. -/
theorem receiveAll_part (he : Expects h r E payloads)
    (hsub : ∀ p ∈ a, p ∈ payloads) (hcover : Covers E (a ++ b)) (hb : b ≠ []) :
    receiveAll h r {} a = (gathered h r a, List.replicate a.length (.ok none)) := by
  have hn : (a.map Prod.fst).Nodup := by
    have hall := hcover.nodup
    rw [List.map_append] at hall
    exact hall.of_append_left
  have hempty : gathered h r [] = ({} : Fanin α) := by
    unfold gathered
    cases h.expectedSourcesFn <;> rfl
  rw [← hempty]
  have hwaits : receiveAll h r (gathered h r []) a =
      (gathered h r ([] ++ a), List.replicate a.length (.ok none)) :=
    receiveAll_waits he hsub hn (fun p hp => hcover.mem (List.mem_append_left b hp)) (hcover.missing hb)
  exact hwaits

/-- More payloads only make more known. -/
theorem expectedAfter_mono (hsub : ∀ p ∈ a, p ∈ b)
    (hk : (expectedAfter h r a).isSome = true) : (expectedAfter h r b).isSome = true := by
  unfold expectedAfter at hk ⊢
  split
  · rfl
  · next resolver hsome =>
    simp only [hsome] at hk
    obtain ⟨p, hp, hanswer⟩ := List.findSome?_isSome_iff.mp hk
    exact List.findSome?_isSome_iff.mpr ⟨p, hsub p hp, hanswer⟩

/-- **Fan-in does not depend on the order.** With one payload from each expected source, in
any order, every `receive` but the last keeps its payload, the last calls `merge` once, on
the payloads by their sources, and nothing is left of the request. A payload from outside
the static sources is ignored whenever it comes. One from a static source that is not
expected, before the last of the others, stops the request: from it on, every `receive`
raises once the expected set is known, which it is in the end, and `merge` is not called. -/
theorem fanin_order_independent (h : AggregatedInput α) (r : String) (E : Finset String)
    (arrivals : List (String × α)) (hcover : Covers E arrivals) (he : Expects h r E arrivals)
    (hknown : (expectedAfter h r arrivals).isSome = true) :
    (∃ inputs : Dict String α, (∀ source data, inputs.get? source = some data ↔ (source, data) ∈ arrivals) ∧
      receiveAll h r {} arrivals =
        ({}, List.replicate (arrivals.length - 1) (.ok none) ++
          [(h.merge inputs).mapError .merge |>.map some])) ∧
    (∀ f x data, x ∉ h.sources → h.receive f r x data = (f, .ok none)) ∧
    ∀ a b x data, arrivals = a ++ b → b ≠ [] → x ∈ h.sources → x ∉ E → Expects h r E [(x, data)] →
      (receiveAll h r {} (a ++ (x, data) :: b)).2 =
        List.replicate a.length (.ok none) ++ b.inits.map (fun more => refusal h r x (a ++ (x, data) :: more)) ∧
      ∃ expected, refusal h r x (a ++ (x, data) :: b) = .error (.outsideExpected [x] expected) := by
  constructor
  · obtain ⟨init, p, rfl⟩ : ∃ init p, arrivals = init ++ [p] := by
      rcases List.eq_nil_or_concat arrivals with hnil | ⟨init, p, heq⟩
      · exfalso
        have hE := hcover.sources
        rw [hnil] at hE
        exact he.nonempty.ne_empty hE.symm
      · exact ⟨init, p, heq.trans List.concat_eq_append⟩
    refine ⟨Dict.ofList (init ++ [p]), ?_, ?_⟩
    · intro source data
      rw [Dict.get?_ofList hcover.nodup, Dict.lookup_eq_some hcover.nodup]
    · rw [receiveAll_append, receiveAll_part he (fun q hq => List.mem_append_left _ hq) hcover (by simp)]
      simp only [receiveAll]
      rw [receive_last he (fun q hq => hq) hcover hknown]
      simp
  constructor
  · intro f x data hx
    simp only [receive, hx, not_false_eq_true, if_true]
  · intro a b x data heq hb hx hout hanswer
    rw [heq] at hcover he hknown
    have hmem : ∀ q ∈ a ++ (x, data) :: b, q = (x, data) ∨ q ∈ a ++ b := by
      intro q hq
      simpa [or_left_comm] using hq
    have he' : Expects h r E (a ++ (x, data) :: b) := by
      refine ⟨he.nonempty, he.within, he.unresolved, fun resolver hsome q hq answer hans => ?_⟩
      rcases hmem q hq with rfl | hq
      · exact hanswer.resolved resolver hsome _ (List.mem_singleton_self _) answer hans
      · exact he.resolved resolver hsome q hq answer hans
    have hfresh : x ∉ (a ++ b).map Prod.fst := by
      intro hin
      obtain ⟨q, hq, rfl⟩ := List.mem_map.mp hin
      exact hout (hcover.mem hq)
    have hn : ((a ++ (x, data) :: b).map Prod.fst).Nodup := by
      rw [List.map_append, List.map_cons, List.nodup_middle, ← List.map_append]
      exact List.nodup_cons.mpr ⟨hfresh, hcover.nodup⟩
    constructor
    · rw [receiveAll_append, receiveAll_part he (fun q hq => List.mem_append_left b hq) hcover hb]
      simp only
      rw [receiveAll_refuses he' (fun q hq => hq) hn _ _ _ hout]
      · intro q hq
        rcases List.mem_cons.mp hq with rfl | hq
        · exact hx
        · exact List.mem_toFinset.mp (he.within (hcover.mem (List.mem_append_right a hq)))
      · intro q hq hne
        rcases hmem q hq with rfl | hq
        · exact absurd rfl hne
        · exact hcover.mem hq
      · simp
    · obtain ⟨expected, hk⟩ := Option.isSome_iff_exists.mp
        (expectedAfter_mono (h := h) (r := r) (b := a ++ (x, data) :: b) (fun q hq => by
          rcases List.mem_append.mp hq with hq | hq
          · exact List.mem_append_left _ hq
          · exact List.mem_append_right _ (List.mem_cons_of_mem _ hq)) hknown)
      exact ⟨expected, by rw [refusal, hk]⟩

/-! ### Two of three sources -/

/-- Of three sources a request waits for two, which the payload of the second tells. -/
def twoOfThree : AggregatedInput Nat where
  sources := ["a", "b", "c"]
  merge := fun inputs => .ok ((inputs.get? "a").getD 0 + (inputs.get? "b").getD 0)
  expectedSourcesFn := some fun _ source _ => if source = "b" then some ["a", "b"] else none

theorem twoOfThree_expects (payloads : List (String × Nat)) : Expects twoOfThree "r" {"a", "b"} payloads where
  nonempty := by decide
  within := by decide
  unresolved hnone := nomatch hnone
  resolved resolver hsome p _ answer hanswer := by
    cases hsome
    simp only [ite_eq_iff, reduceCtorEq, and_false, or_false, Option.some.injEq] at hanswer
    rw [← hanswer.2]
    decide

theorem fanin_order_independent_twoOfThree :
    ((∃ inputs : Dict String Nat, (∀ source data, inputs.get? source = some data ↔
          (source, data) ∈ [("b", 2), ("a", 1)]) ∧
        receiveAll twoOfThree "r" {} [("b", 2), ("a", 1)] =
          ({}, List.replicate 1 (.ok none) ++
            [(twoOfThree.merge inputs).mapError .merge |>.map some])) ∧
      (∀ f x data, x ∉ twoOfThree.sources → twoOfThree.receive f "r" x data = (f, .ok none))) ∧
    (receiveAll twoOfThree "r" {} [("c", 3), ("b", 2), ("a", 1)]).2 =
      [.ok none, .error (.outsideExpected ["c"] ["a", "b"]), .error (.outsideExpected ["c"] ["a", "b"])] := by
  have hcover : Covers {"a", "b"} [("b", 2), ("a", 1)] := ⟨by decide, by decide⟩
  obtain ⟨hmerge, hignored, hrefused⟩ := fanin_order_independent twoOfThree "r" {"a", "b"} [("b", 2), ("a", 1)]
    hcover (twoOfThree_expects _) rfl
  refine ⟨⟨hmerge, hignored⟩, ?_⟩
  exact (hrefused [] _ "c" 3 rfl (by decide) (by decide) (by decide) (twoOfThree_expects _)).1

/-- A payload that is not expected, in four places: from another source, before the expected
set is known, after it is known, and after the merge, where it is the first of a new set. -/
theorem unexpected_accepted :
    (receiveAll twoOfThree "r" {} [("z", 0), ("a", 1), ("b", 2)]).2 = [.ok none, .ok none, .ok (some 3)] ∧
    (receiveAll twoOfThree "r" {} [("c", 3), ("a", 1)]).2 = [.ok none, .ok none] ∧
    (receiveAll twoOfThree "r" {} [("b", 2), ("c", 3)]).2 =
      [.ok none, .error (.outsideExpected ["c"] ["a", "b"])] ∧
    receiveAll twoOfThree "r" {} [("a", 1), ("b", 2), ("c", 3)] =
      ({ pending := Dict.ofList [("c", 3)], expectedSources := none }, [.ok none, .ok (some 3), .ok none]) := by
  decide +kernel

end SglangOmni.Pipeline.Stage.AggregatedInput
