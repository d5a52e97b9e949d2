import SglangOmni.Scheduling.Reference.Flight

/-! Where artifacts and exceptions come from: what is stored, cached and returned goes back to answers of the hook. -/
namespace SglangOmni.Scheduling.ReferenceEncoder
open Lib StageCache

variable {Item K A St E : Type} [DecidableEq K] {V : Service A St E}

namespace State

/-- The hook has encoded the item to the artifact, alone or at its place of a batch. -/
def Encoded (answers : List (Answer Item A E)) (item : Item) (a : A) : Prop :=
  .one item (.ok a) ∈ answers ∨ ∃ items artifacts, ∃ i : Nat, .batch items (.ok artifacts) ∈ answers ∧
    artifacts.length = items.length ∧ items[i]? = some item ∧ artifacts[i]? = some a

variable (V) in
/-- The hook has raised the exception for the item; or it is none that a batch is encoded again for, and came out of the
item's batch or of one of its items. -/
def Raised (answers : List (Answer Item A E)) (item : Item) (e : E) : Prop :=
  .one item (.error e) ∈ answers ∨ V.isException e = false ∧ ∃ items outcome, .batch items outcome ∈ answers ∧
    item ∈ items ∧ (outcome = .error e ∨ ∃ other ∈ items, .one other (.error e) ∈ answers)

variable (V) in
def Own (answers : List (Answer Item A E)) (item : Item) : Except E A → Prop
  | .ok a => Encoded answers item a
  | .error e => Raised V answers item e

variable (V) in
/-- The stored form of an artifact that was encoded for a call with the key. -/
def Made (s : State Item K A St E) (k : K) (st : St) : Prop :=
  ∃ c call a, s.calls c = some call ∧ call.key = some k ∧ Encoded s.answers call.item a ∧ st = V.storeArtifact a

variable (V) in
def PhaseSound (s : State Item K A St E) (item : Item) (key : Option K) : Phase A St E → Prop
  | .storing a => key ≠ none ∧ Encoded s.answers item a
  | .validating st | .resolving st => key ≠ none ∧ ∃ a, Encoded s.answers item a ∧ st = V.storeArtifact a
  | .publishing st shouldCache => key ≠ none ∧ (∃ a, Encoded s.answers item a ∧ st = V.storeArtifact a) ∧
      (shouldCache = true → ∀ k, key = some k → (item, k, st) ∈ s.validated)
  | .done (.ok a) => match key with
    | none => Encoded s.answers item a
    | some k => ∃ st, Made V s k st ∧ a = V.loadArtifact st
  | _ => True

variable (V) in
structure CallSound (s : State Item K A St E) (call : Call Item K A St E) : Prop where
  phase : PhaseSound V s call.item call.key call.phase
  queued : ∀ r, call.batchFuture = some r → ∃ o, Own V s.answers call.item o ∧ r = V.delivered o
  led : ∀ st, call.leaderFuture = some (.ok st) → ∃ k, call.key = some k ∧ Made V s k st

variable (V) in
def WorkerSound (answers : List (Answer Item A E)) : Worker Item A E → Prop
  | .retrying batch results => results.length ≤ batch.length ∧
      (∃ outcome, .batch (batch.map Prod.fst) outcome ∈ answers) ∧
      ∀ (i : Nat) entry r, batch[i]? = some entry → results[i]? = some r → Own V answers entry.1 r
  | .delivering pairs => ∀ p ∈ pairs, Own V answers p.1.1 p.2
  | _ => True

variable (V) in
structure Origin (s : State Item K A St E) : Prop where
  entries : ∀ e ∈ s.batchQueue ++ s.worker.holds, ∃ call, s.calls e.2 = some call ∧ call.item = e.1
  worker : WorkerSound V s.answers s.worker
  calls : ∀ c call, s.calls c = some call → CallSound V s call
  cache : ∀ k e, s.cache.cache.get? k = some e → Made V s k e.data ∧ ∃ item, (item, k, e.data) ∈ s.validated

/-- Answers, validations and calls are only added. -/
structure Grows (s s' : State Item K A St E) : Prop where
  answers : s.answers ⊆ s'.answers
  validated : s.validated ⊆ s'.validated
  calls : ∀ c call, s.calls c = some call → ∃ call', s'.calls c = some call' ∧ call'.item = call.item ∧
    call'.key = call.key

variable {item : Item} {l l' answers : List (Answer Item A E)} {s s' : State Item K A St E} {call : Call Item K A St E}
  {c : Nat} {batch : List (Item × Nat)}

omit [DecidableEq K] in
theorem Encoded.mono {a : A} (sub : l ⊆ l') (h : Encoded l item a) :
    Encoded l' item a := by
  obtain h | ⟨items, artifacts, i, h, rest⟩ := h
  · exact .inl (sub h)
  · exact .inr ⟨items, artifacts, i, sub h, rest⟩

omit [DecidableEq K] in
theorem Own.mono {r : Except E A} (sub : l ⊆ l') (h : Own V l item r) :
    Own V l' item r := by
  cases r with
  | ok a => exact Encoded.mono sub h
  | error e =>
    obtain h | ⟨he, items, outcome, h, hi, hor⟩ := h
    · exact .inl (sub h)
    · refine .inr ⟨he, items, outcome, sub h, hi, ?_⟩
      obtain ho | ⟨other, ho, hoa⟩ := hor
      · exact .inl ho
      · exact .inr ⟨other, ho, sub hoa⟩

omit [DecidableEq K] in
theorem Made.mono {k : K} {st : St} (grows : Grows s s') (h : Made V s k st) :
    Made V s' k st := by
  obtain ⟨c, call, a, hc, hk, ha, hst⟩ := h
  obtain ⟨call', hc', hi, hk'⟩ := grows.calls c call hc
  exact ⟨c, call', a, hc', hk'.trans hk, hi ▸ ha.mono grows.answers, hst⟩

omit [DecidableEq K] in
theorem PhaseSound.mono {key : Option K} {p : Phase A St E}
    (grows : Grows s s') (h : PhaseSound V s item key p) : PhaseSound V s' item key p := by
  have stored : ∀ {st : St}, (∃ a, Encoded s.answers item a ∧ st = V.storeArtifact a) →
      ∃ a, Encoded s'.answers item a ∧ st = V.storeArtifact a :=
    fun ⟨a, ha, hst⟩ => ⟨a, ha.mono grows.answers, hst⟩
  cases p with
  | storing a => exact ⟨h.1, h.2.mono grows.answers⟩
  | validating st => exact ⟨h.1, stored h.2⟩
  | resolving st => exact ⟨h.1, stored h.2⟩
  | publishing st b => exact ⟨h.1, stored h.2.1, fun hb k hk => grows.validated (h.2.2 hb k hk)⟩
  | done r =>
    cases r with
    | error e => trivial
    | ok a =>
      cases key with
      | none => exact Encoded.mono grows.answers h
      | some k =>
        obtain ⟨st, hm, ha⟩ := h
        exact ⟨st, hm.mono grows, ha⟩
  | encoding => trivial
  | queued => trivial
  | failing e => trivial
  | rejecting e => trivial
  | following l => trivial

omit [DecidableEq K] in
theorem CallSound.mono (grows : Grows s s') (h : CallSound V s call) : CallSound V s' call where
  phase := h.phase.mono grows
  queued := by
    intro r hr
    obtain ⟨o, ho, hro⟩ := h.queued r hr
    exact ⟨o, ho.mono grows.answers, hro⟩
  led := by
    intro st hst
    obtain ⟨k, hk, hm⟩ := h.led st hst
    exact ⟨k, hk, hm.mono grows⟩

omit [DecidableEq K] in
theorem WorkerSound.mono {w : Worker Item A E} (sub : l ⊆ l') (h : WorkerSound V l w) : WorkerSound V l' w := by
  cases w with
  | retrying batch results =>
    obtain ⟨hlen, ⟨outcome, ho⟩, own⟩ := h
    exact ⟨hlen, ⟨outcome, sub ho⟩, fun i entry r hb hr => (own i entry r hb hr).mono sub⟩
  | delivering pairs => exact fun p hp => (h p hp).mono sub
  | idle => trivial
  | collecting batch => trivial
  | encoding batch => trivial

theorem Origin.initial : Origin V ({} : State Item K A St E) where
  entries := fun _ h => nomatch h
  worker := trivial
  calls := fun _ _ h => nomatch h
  cache := fun _ _ h => nomatch h

omit [DecidableEq K] in
theorem encoded_sound (key : Option K) {outcome : Except E A}
    (h : ∀ a, outcome = .ok a → Encoded s.answers item a) : PhaseSound V s item key (Service.encoded key outcome) := by
  cases key with
  | none => cases outcome with
    | ok a => exact h a rfl
    | error e => trivial
  | some k => cases outcome with
    | ok a => exact ⟨Option.some_ne_none k, h a rfl⟩
    | error e => trivial

omit [DecidableEq K] in
theorem PhaseSound.returned {key : Option K} {k : K} {st : St}
    (keyed : key = some k) (made : Made V s k st) : PhaseSound V s item key (.done (.ok (V.loadArtifact st))) := by
  rw [keyed]
  exact ⟨st, made, rfl⟩

/-- One call moves on: what it and the cache hold is to be shown in the grown state. -/
theorem Origin.move {call' : Call Item K A St E} (h : Origin V s)
    (hc : s.calls c = some call) (calls : s'.calls = Function.update s.calls c (some call'))
    (item : call'.item = call.item) (key : call'.key = call.key) (answers : s.answers ⊆ s'.answers)
    (validated : s.validated ⊆ s'.validated)
    (entries : ∀ e ∈ s'.batchQueue ++ s'.worker.holds, e ∈ s.batchQueue ++ s.worker.holds ∨ e = (call.item, c))
    (worker : WorkerSound V s'.answers s'.worker) (sound : Grows s s' → CallSound V s' call')
    (cache : Grows s s' → ∀ k e, s'.cache.cache.get? k = some e →
      Made V s' k e.data ∧ ∃ item, (item, k, e.data) ∈ s'.validated) : Origin V s' := by
  have grows : Grows s s' := by
    refine ⟨answers, validated, ?_⟩
    intro x xcall hx
    by_cases hxc : x = c
    · rw [hxc, hc] at hx
      cases hx
      exact ⟨call', by rw [calls, hxc, Function.update_self], item, key⟩
    · exact ⟨xcall, by rw [calls, Function.update_of_ne hxc, hx], rfl, rfl⟩
  refine ⟨?_, worker, ?_, cache grows⟩
  · intro e he
    obtain he | rfl := entries e he
    · obtain ⟨xcall, hx, hi⟩ := h.entries e he
      obtain ⟨xcall', hx', hi', -⟩ := grows.calls e.2 xcall hx
      exact ⟨xcall', hx', hi'.trans hi⟩
    · exact ⟨call', by rw [calls, Function.update_self], item⟩
  · intro x xcall hx
    rw [calls] at hx
    by_cases hxc : x = c
    · rw [hxc, Function.update_self] at hx
      cases hx
      exact sound grows
    · rw [Function.update_of_ne hxc] at hx
      exact (h.calls x xcall hx).mono grows

/-- The same, for a step that only changes the phase. -/
theorem Origin.phase_move {p : Phase A St E} (h : Origin V s) (hc : s.calls c = some call)
    (calls : s'.calls = Function.update s.calls c (some { call with phase := p })) (answers : s.answers ⊆ s'.answers)
    (validated : s.validated ⊆ s'.validated)
    (entries : ∀ e ∈ s'.batchQueue ++ s'.worker.holds, e ∈ s.batchQueue ++ s.worker.holds ∨ e = (call.item, c))
    (worker : s'.worker = s.worker) (sound : Grows s s' → PhaseSound V s' call.item call.key p)
    (cache : s'.cache = s.cache) : Origin V s' := by
  refine h.move hc calls rfl rfl answers validated entries (worker ▸ h.worker.mono answers) ?_ ?_
  · intro grows
    have kept := (h.calls c call hc).mono grows
    exact ⟨sound grows, kept.queued, kept.led⟩
  · intro grows k e hk
    rw [cache] at hk
    obtain ⟨made, item, hv⟩ := h.cache k e hk
    exact ⟨made.mono grows, item, validated hv⟩

theorem Origin.setPhase {p : Phase A St E} (h : Origin V s) (hc : s.calls c = some call)
    (sound : Grows s (s.setCall c { call with phase := p }) →
      PhaseSound V (s.setCall c { call with phase := p }) call.item call.key p) :
    Origin V (s.setCall c { call with phase := p }) :=
  h.phase_move hc rfl (List.Subset.refl _) (List.Subset.refl _) (fun _ he => .inl he) rfl sound rfl

theorem Origin.callStep (h : Origin V s)
    (flight : Flight V s) (hc : s.calls c = some call) (step : CallStep V s c call s') : Origin V s' := by
  have sound := h.calls c call hc
  cases step with
  | encodeOne outcome hp =>
    refine h.phase_move hc rfl (List.subset_cons_self _ _) (List.Subset.refl _) (fun _ he => .inl he) rfl ?_ rfl
    intro _
    refine encoded_sound call.key ?_
    intro a ha
    rw [ha]
    exact .inl (List.mem_cons_self ..)
  | enqueue hp =>
    refine h.phase_move hc rfl (List.Subset.refl _) (List.Subset.refl _) ?_ rfl (fun _ => trivial) rfl
    intro e he
    simp only [setCall, List.append_assoc, List.mem_append, List.mem_singleton] at he ⊢
    grind
  | receive outcome hp arrived =>
    refine h.setPhase hc (fun _ => encoded_sound call.key ?_)
    intro a ha
    obtain ⟨o, own, ho⟩ := sound.queued outcome arrived
    rw [ha] at ho
    cases o with
    | error e => cases ho
    | ok a' =>
      cases ho
      exact own
  | giveUp hp => exact h.setPhase hc (fun _ => encoded_sound call.key (fun _ ha => by cases ha))
  | expire l hp =>
    refine h.move hc rfl rfl rfl (List.Subset.refl _) (List.Subset.refl _) (fun _ he => .inl he) h.worker ?_ ?_
    · intro grows
      have kept := sound.mono grows
      exact ⟨trivial, kept.queued, kept.led⟩
    · intro grows k e hk
      obtain ⟨made, hv⟩ := h.cache k e hk
      exact ⟨made.mono grows, hv⟩
  | store a hp =>
    have hs := sound.phase
    rw [hp] at hs
    exact h.setPhase hc (fun _ => ⟨hs.1, a, hs.2, rfl⟩)
  | storeRaises a e hp => exact h.setPhase hc (fun _ => trivial)
  | accept st k hp keyed =>
    have hs := sound.phase
    rw [hp] at hs
    refine h.phase_move hc rfl (List.Subset.refl _) (List.subset_cons_self _ _) (fun _ he => .inl he) rfl ?_ rfl
    intro _
    refine ⟨hs.1, hs.2, fun _ k' hk' => ?_⟩
    rw [keyed] at hk'
    cases hk'
    exact List.mem_cons_self ..
  | refuse st hp =>
    have hs := sound.phase
    rw [hp] at hs
    exact h.setPhase hc (fun _ => ⟨hs.1, hs.2, (fun hb => by cases hb)⟩)
  | revalidateRaises st e hp => exact h.setPhase hc (fun _ => trivial)
  | publish st k hp keyed =>
    have hs := sound.phase
    rw [hp] at hs
    obtain ⟨hk, ⟨a, ha, hst⟩, hv⟩ := hs
    refine h.move hc rfl rfl rfl (List.Subset.refl _) (List.Subset.refl _) (fun _ he => .inl he) h.worker ?_ ?_
    · intro grows
      have kept := sound.mono grows
      exact ⟨⟨hk, a, ha, hst⟩, kept.queued, kept.led⟩
    · intro grows k' e hk'
      obtain ⟨rfl, he⟩ | hold := Cache.put_within V.limits V.sizeFn s.cache k st hk'
      · rw [he]
        exact ⟨⟨c, _, a, Function.update_self .., keyed, ha, hst⟩, call.item, hv rfl k' keyed⟩
      · obtain ⟨made, hv⟩ := h.cache k' e hold
        exact ⟨made.mono grows, hv⟩
  | publishRaises st e hp => exact h.setPhase hc (fun _ => trivial)
  | skip st k hp keyed =>
    have hs := sound.phase
    rw [hp] at hs
    exact h.phase_move hc rfl (List.Subset.refl _) (List.Subset.refl _) (fun _ he => .inl he) rfl
      (fun _ => ⟨hs.1, hs.2.1⟩) rfl
  | fail e hp =>
    rw [popInflight_eq]
    exact h.phase_move hc rfl (List.Subset.refl _) (List.Subset.refl _) (fun _ he => .inl he) rfl (fun _ => trivial) rfl
  | settle outcome hp =>
    have hs := sound.phase
    rw [hp] at hs
    refine h.move hc rfl rfl rfl (List.Subset.refl _) (List.Subset.refl _) (fun _ he => .inl he) h.worker ?_ ?_
    · intro grows
      cases outcome with
      | error e => exact ⟨trivial, (sound.mono grows).queued, (fun _ hst => by cases hst)⟩
      | ok st =>
        obtain ⟨hk, a, ha, hst⟩ := hs
        obtain ⟨k, hk⟩ := Option.ne_none_iff_exists'.mp hk
        have made : Made V s k st := ⟨c, call, a, hc, hk, ha, hst⟩
        refine ⟨?_, (sound.mono grows).queued, ?_⟩
        · exact PhaseSound.returned hk (made.mono grows)
        · intro st' hst'
          cases hst'
          exact ⟨k, hk, made.mono grows⟩
    · intro grows k e hk
      obtain ⟨made, hv⟩ := h.cache k e hk
      exact ⟨made.mono grows, hv⟩
  | follow l lead outcome hp led completed =>
    refine h.setPhase hc ?_
    intro grows
    cases outcome with
    | error e => trivial
    | ok st =>
      obtain ⟨k, hk, made⟩ := (h.calls l lead led).led st completed
      have hj : call.joined = some l := by
        cases hj : call.joined with
        | none =>
          have hn := flight.follows c call hc hj
          rw [hp] at hn
          cases hn
        | some l' =>
          obtain ⟨_, -, joins⟩ := flight.joined c call l' hc hj
          obtain ⟨hf, -⟩ | ⟨r, hr, -⟩ := joins.phase
          · rw [hp] at hf
            cases hf
            rfl
          · rw [hp] at hr
            cases hr
      obtain ⟨lead', hl', joins⟩ := flight.joined c call l hc hj
      rw [led] at hl'
      cases hl'
      exact PhaseSound.returned (joins.key ▸ hk) (made.mono grows)

theorem Origin.add (h : Origin V s)
    (hc : s.calls c = none) (calls : s'.calls = Function.update s.calls c (some call))
    (answers : s'.answers = s.answers)
    (validated : s'.validated = s.validated) (queue : s'.batchQueue = s.batchQueue) (worker : s'.worker = s.worker)
    (cache : ∀ k, s'.cache.cache.get? k = s.cache.cache.get? k)
    (fresh : call.batchFuture = none ∧ call.leaderFuture = none)
    (sound : Grows s s' → PhaseSound V s' call.item call.key call.phase) : Origin V s' := by
  have grows : Grows s s' := by
    refine ⟨by rw [answers]; exact List.Subset.refl _, by rw [validated]; exact List.Subset.refl _, ?_⟩
    intro x xcall hx
    have hxc : x ≠ c := by
      intro hxc
      rw [hxc, hc] at hx
      cases hx
    exact ⟨xcall, by rw [calls, Function.update_of_ne hxc, hx], rfl, rfl⟩
  refine ⟨?_, by rw [worker, answers]; exact h.worker, ?_, ?_⟩
  · intro e he
    rw [queue, worker] at he
    obtain ⟨xcall, hx, hi⟩ := h.entries e he
    obtain ⟨xcall', hx', hi', -⟩ := grows.calls e.2 xcall hx
    exact ⟨xcall', hx', hi'.trans hi⟩
  · intro x xcall hx
    rw [calls] at hx
    by_cases hxc : x = c
    · rw [hxc, Function.update_self] at hx
      cases hx
      refine ⟨sound grows, ?_, ?_⟩
      · intro r hr
        rw [fresh.1] at hr
        cases hr
      · intro st hst
        rw [fresh.2] at hst
        cases hst
    · rw [Function.update_of_ne hxc] at hx
      exact (h.calls x xcall hx).mono grows
  · intro k e hk
    rw [cache] at hk
    obtain ⟨made, hv⟩ := h.cache k e hk
    exact ⟨made.mono grows, validated ▸ hv⟩

theorem Origin.startCall (h : Origin V s) (hc : s.calls c = none) (item : Item)
    (key : Option K) : Origin V (s.startCall V c item key) := by
  cases key with
  | none => exact h.add hc rfl rfl rfl rfl rfl (fun _ => rfl) ⟨rfl, rfl⟩ (fun _ => trivial)
  | some k =>
    simp only [State.startCall]
    split
    · rename_i st _ hst
      refine h.add hc rfl rfl rfl rfl rfl (Cache.cache_get s.cache k) ⟨rfl, rfl⟩ ?_
      intro grows
      rw [Cache.get_fst, Option.map_eq_some_iff] at hst
      obtain ⟨e, he, rfl⟩ := hst
      exact ⟨e.data, (h.cache k e he).1.mono grows, rfl⟩
    · exact h.add hc rfl rfl rfl rfl rfl (fun _ => rfl) ⟨rfl, rfl⟩ (fun _ => trivial)
    · exact h.add hc rfl rfl rfl rfl rfl (fun _ => rfl) ⟨rfl, rfl⟩ (fun _ => trivial)

/-- The worker goes on with entries of the queue and its own, and no future is completed. -/
theorem Origin.worker_move (h : Origin V s) (calls : s'.calls = s.calls)
    (answers : s.answers ⊆ s'.answers) (validated : s'.validated = s.validated) (cache : s'.cache = s.cache)
    (entries : ∀ e ∈ s'.batchQueue ++ s'.worker.holds, e ∈ s.batchQueue ++ s.worker.holds)
    (worker : WorkerSound V s'.answers s'.worker) : Origin V s' := by
  have grows : Grows s s' :=
    ⟨answers, by rw [validated]; exact List.Subset.refl _, fun x xcall hx => ⟨xcall, by rw [calls, hx], rfl, rfl⟩⟩
  refine ⟨?_, worker, ?_, ?_⟩
  · intro e he
    rw [calls]
    exact h.entries e (entries e he)
  · intro x xcall hx
    rw [calls] at hx
    exact (h.calls x xcall hx).mono grows
  · intro k e hk
    rw [cache] at hk
    obtain ⟨made, hv⟩ := h.cache k e hk
    exact ⟨made.mono grows, validated ▸ hv⟩

omit [DecidableEq K] in
/-- An exception that is no `Exception` goes to every item of the batch. -/
theorem own_broadcast {outcome : Except E (List A)} {e : E}
    (asked : .batch (batch.map Prod.fst) outcome ∈ answers) (base : V.isException e = false)
    (source : outcome = .error e ∨ ∃ other ∈ batch.map Prod.fst, .one other (.error e) ∈ answers) :
    WorkerSound V answers (.delivering (batch.zip (List.replicate batch.length (.error e)))) := by
  intro p hp
  obtain ⟨hb, hr⟩ := List.of_mem_zip hp
  rw [(List.mem_replicate.mp hr).2]
  exact .inr ⟨base, _, outcome, asked, List.mem_map_of_mem hb, source⟩

omit [DecidableEq K] in
theorem own_zip {results : List (Except E A)}
    (own : ∀ (i : Nat) entry r, batch[i]? = some entry → results[i]? = some r → Own V answers entry.1 r) :
    WorkerSound V answers (.delivering (batch.zip results)) := by
  intro p hp
  obtain ⟨i, hi⟩ := List.mem_iff_getElem?.mp hp
  obtain ⟨hb, hr⟩ := List.getElem?_zip_eq_some.mp hi
  exact own i p.1 p.2 hb hr

omit [DecidableEq K] in
theorem holds_zip (batch : List (Item × Nat)) (results : List (Except E A)) {e : Item × Nat}
    (h : e ∈ (Worker.delivering (batch.zip results)).holds) : e ∈ batch := by
  obtain ⟨p, hp, rfl⟩ := List.mem_map.mp h
  exact (List.of_mem_zip hp).1

omit [DecidableEq K] in
theorem holds_kept {batch : List (Item × Nat)} {w : Worker Item A E} (hw : s.worker.holds = batch)
    (h : ∀ x ∈ w.holds, x ∈ batch) : ∀ x ∈ s.batchQueue ++ w.holds, x ∈ s.batchQueue ++ s.worker.holds := by
  intro x hx
  rw [hw]
  exact List.mem_append.mpr ((List.mem_append.mp hx).imp_right (h x))

omit [DecidableEq K] in
/-- One more item of the batch is answered. -/
theorem own_retried {results : List (Except E A)}
    {entry : Item × Nat} {outcome : Except E A} (h : WorkerSound V answers (.retrying batch results))
    (hb : batch[results.length]? = some entry) :
    WorkerSound V (.one entry.1 outcome :: answers) (.retrying batch (results ++ [outcome])) := by
  obtain ⟨hlen, ⟨asked, ha⟩, own⟩ := h
  have hlt := (List.getElem?_eq_some_iff.mp hb).1
  refine ⟨by simp; omega, ⟨asked, List.mem_cons_of_mem _ ha⟩, ?_⟩
  intro i e r he hr
  by_cases hi : i < results.length
  · rw [List.getElem?_append_left hi] at hr
    exact (own i e r he hr).mono (List.subset_cons_self _ _)
  · have hi' : i = results.length := by
      have hlast := (List.getElem?_eq_some_iff.mp hr).1
      simp only [List.length_append, List.length_singleton] at hlast
      omega
    rw [hi', hb] at he
    rw [hi', List.getElem?_concat_length] at hr
    cases he
    cases hr
    cases outcome with
    | ok a | error e => exact .inl (List.mem_cons_self ..)

omit [DecidableEq K] in
/-- A batch that came back with an artifact for every item. -/
theorem own_batch {artifacts : List A} (hlen : artifacts.length = batch.length) :
    WorkerSound V (.batch (batch.map Prod.fst) (.ok artifacts) :: answers)
      (.delivering (batch.zip (artifacts.map .ok))) := by
  refine own_zip ?_
  intro i entry r he hr
  rw [List.getElem?_map, Option.map_eq_some_iff] at hr
  obtain ⟨a, ha, rfl⟩ := hr
  refine .inr ⟨_, artifacts, i, List.mem_cons_self .., ?_, ?_, ha⟩
  · rw [hlen, List.length_map]
  · rw [List.getElem?_map, he]
    rfl

theorem Origin.stepWorker (h : Origin V s) (e : WorkerEvent A E) :
    Origin V (s.stepWorker V e) := by
  cases e with
  | take =>
    simp only [State.stepWorker]
    split
    · rename_i entry rest hw hq
      refine h.worker_move rfl (List.Subset.refl _) rfl rfl ?_ trivial
      simp only [hw, hq, Worker.holds]
      grind
    · rename_i batch entry rest hw hq
      split
      · refine h.worker_move rfl (List.Subset.refl _) rfl rfl ?_ trivial
        simp only [hw, hq, Worker.holds]
        grind
      · exact h
    · exact h
  | startBatch =>
    simp only [State.stepWorker]
    split
    · rename_i batch hw
      refine h.worker_move rfl (List.Subset.refl _) rfl rfl ?_ trivial
      simp only [hw, Worker.holds]
      exact fun _ he => he
    · exact h
  | encodeBatch outcome =>
    simp only [State.stepWorker]
    split
    · rename_i batch hw
      have kept := fun w => holds_kept (w := w) (show s.worker.holds = batch by rw [hw]; rfl)
      have retry : ∀ outcome : Except E (List A),
          WorkerSound V (.batch (batch.map Prod.fst) outcome :: s.answers) (.retrying batch []) :=
        fun outcome => ⟨Nat.zero_le _, ⟨outcome, List.mem_cons_self ..⟩, fun i _ _ _ hr => by cases hr⟩
      split
      · split
        · exact h.worker_move rfl (List.subset_cons_self _ _) rfl rfl (kept _ (fun _ => holds_zip _ _)) (own_batch ‹_›)
        · exact h.worker_move rfl (List.subset_cons_self _ _) rfl rfl (kept _ (fun _ hx => hx)) (retry _)
      · split
        · exact h.worker_move rfl (List.subset_cons_self _ _) rfl rfl (kept _ (fun _ hx => hx)) (retry _)
        · rename_i base
          exact h.worker_move rfl (List.subset_cons_self _ _) rfl rfl (kept _ (fun _ => holds_zip _ _))
            (own_broadcast (List.mem_cons_self ..) (Bool.eq_false_iff.mpr base) (.inl rfl))
    · exact h
  | retryOne outcome =>
    simp only [State.stepWorker]
    split
    · rename_i batch results hw
      have sound := h.worker
      rw [hw] at sound
      have kept := fun w => holds_kept (w := w) (show s.worker.holds = batch by rw [hw]; rfl)
      split
      · exact h
      · rename_i entry hb
        split
        · exact h.worker_move rfl (List.subset_cons_self _ _) rfl rfl (kept _ (fun _ hx => hx)) (own_retried sound hb)
        · split
          · exact h.worker_move rfl (List.subset_cons_self _ _) rfl rfl (kept _ (fun _ hx => hx)) (own_retried sound hb)
          · rename_i base
            obtain ⟨asked, ha⟩ := sound.2.1
            refine h.worker_move rfl (List.subset_cons_self _ _) rfl rfl (kept _ (fun _ => holds_zip _ _)) ?_
            refine own_broadcast (List.mem_cons_of_mem _ ha) (Bool.eq_false_iff.mpr base) (.inr ⟨entry.1, ?_, ?_⟩)
            · exact List.mem_map_of_mem (List.mem_of_getElem? hb)
            · exact List.mem_cons_self ..
    · exact h
  | deliver =>
    simp only [State.stepWorker]
    split
    · rename_i batch results hw
      have sound := h.worker
      rw [hw] at sound
      split
      · refine h.worker_move rfl (List.Subset.refl _) rfl rfl ?_ (own_zip sound.2.2)
        intro x hx
        rw [hw]
        simp only [List.mem_append] at hx ⊢
        exact hx.imp_right (holds_zip _ _)
      · exact h
    · rename_i hw
      refine h.worker_move rfl (List.Subset.refl _) rfl rfl ?_ trivial
      intro x hx
      rw [hw]
      exact hx
    · rename_i entry outcome rest hw
      have sound := h.worker
      rw [hw] at sound
      split
      · exact h
      · rename_i call hc
        obtain ⟨call', hc', hi⟩ := h.entries entry (by rw [hw]; simp [Worker.holds])
        rw [hc] at hc'
        cases hc'
        refine h.move hc rfl rfl rfl (List.Subset.refl _) (List.Subset.refl _) ?_ ?_ ?_ ?_
        · intro x hx
          rw [hw]
          simp only [Worker.holds, List.map_cons, List.mem_append, List.mem_cons, setCall] at hx ⊢
          grind
        · exact fun p hp => sound p (List.mem_cons_of_mem _ hp)
        · intro grows
          have kept := (h.calls entry.2 call hc).mono grows
          refine ⟨kept.phase, ?_, kept.led⟩
          intro r hr
          cases hr
          exact ⟨outcome, hi ▸ sound _ (List.mem_cons_self ..), rfl⟩
        · intro grows k e hk
          obtain ⟨made, hv⟩ := h.cache k e hk
          exact ⟨made.mono grows, hv⟩
    · exact h

theorem Origin.step (e : Event Item K A E) (flight : Flight V s) (h : Origin V s) :
    Origin V (s.step V e) := by
  cases e with
  | call c item key =>
    simp only [State.step]
    split
    · exact h.startCall ‹_› item key
    · exact h
  | onCall c e =>
    simp only [State.step]
    split
    · exact h
    · rename_i call hc
      obtain hs | hs := stepCall_cases V s c call e
      · rw [hs]
        exact h
      · exact h.callStep flight hc hs
  | onWorker e => exact h.stepWorker e

end State
end SglangOmni.Scheduling.ReferenceEncoder
