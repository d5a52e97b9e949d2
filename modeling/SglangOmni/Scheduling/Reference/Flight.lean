import SglangOmni.Scheduling.Reference.Model

/-! Single flight: a key is in flight exactly while one call of it is in the guarded section of a leader.

Every follower's leader still has to complete its future, or has completed it. A step of a call is described once
(`CallStep`), with what it needs and what it does. -/
namespace SglangOmni.Scheduling.ReferenceEncoder
open Lib StageCache

variable {Item K A St E : Type} [DecidableEq K] (V : Service A St E)

/-- The phase in which a leader completes its future with an outcome. -/
def settling : Except E St → Phase A St E
  | .ok st => .resolving st
  | .error e => .rejecting e

namespace State

/-! ### What a step can do -/

/-- What a step of a call can do. -/
inductive CallStep (s : State Item K A St E) (c : Nat) (call : Call Item K A St E) : State Item K A St E → Prop
  | encodeOne (outcome : Except E A) (h : call.phase = .encoding) : CallStep s c call
      { s.setCall c { call with phase := Service.encoded call.key outcome } with
        answers := .one call.item outcome :: s.answers }
  | enqueue (h : call.phase = .encoding) : CallStep s c call
      { s.setCall c { call with phase := .queued } with batchQueue := s.batchQueue ++ [(call.item, c)] }
  | receive (outcome : Except E A) (h : call.phase = .queued) (arrived : call.batchFuture = some outcome) :
      CallStep s c call (s.setCall c { call with phase := Service.encoded call.key outcome })
  | giveUp (h : call.phase = .queued) :
      CallStep s c call (s.setCall c { call with phase := Service.encoded call.key (.error V.timeoutError) })
  | expire (l : Nat) (h : call.phase = .following l) :
      CallStep s c call (s.setCall c { call with phase := .done (.error V.timeoutError), expired := true })
  | store (a : A) (h : call.phase = .storing a) :
      CallStep s c call (s.setCall c { call with phase := .validating (V.storeArtifact a) })
  | storeRaises (a : A) (e : E) (h : call.phase = .storing a) :
      CallStep s c call (s.setCall c { call with phase := .failing e })
  | accept (st : St) (k : K) (h : call.phase = .validating st) (keyed : call.key = some k) : CallStep s c call
      { s.setCall c { call with phase := .publishing st true } with validated := (call.item, k, st) :: s.validated }
  | refuse (st : St) (h : call.phase = .validating st) :
      CallStep s c call (s.setCall c { call with phase := .publishing st false })
  | revalidateRaises (st : St) (e : E) (h : call.phase = .validating st) :
      CallStep s c call (s.setCall c { call with phase := .failing e })
  | publish (st : St) (k : K) (h : call.phase = .publishing st true) (keyed : call.key = some k) : CallStep s c call
      { (s.setCall c { call with phase := .resolving st }).popInflight (some k) with
        cache := s.cache.put V.limits V.sizeFn k st }
  | publishRaises (st : St) (e : E) (h : call.phase = .publishing st true) :
      CallStep s c call (s.setCall c { call with phase := .failing e })
  | skip (st : St) (k : K) (h : call.phase = .publishing st false) (keyed : call.key = some k) :
      CallStep s c call ((s.setCall c { call with phase := .resolving st }).popInflight (some k))
  | fail (e : E) (h : call.phase = .failing e) :
      CallStep s c call ((s.setCall c { call with phase := .rejecting e }).popInflight call.key)
  | settle (outcome : Except E St) (h : call.phase = settling outcome) :
      CallStep s c call
        (s.setCall c { call with phase := .done (V.settled outcome), leaderFuture := some outcome })
  | follow (l : Nat) (lead : Call Item K A St E) (outcome : Except E St) (h : call.phase = .following l)
      (led : s.calls l = some lead) (completed : lead.leaderFuture = some outcome) :
      CallStep s c call (s.setCall c { call with phase := .done (V.followed outcome) })

omit [DecidableEq K] in
@[simp] theorem setCall_calls (s : State Item K A St E) (c : Nat) (call : Call Item K A St E) :
    (s.setCall c call).calls = Function.update s.calls c (some call) := rfl

theorem popInflight_eq (s : State Item K A St E) (key : Option K) :
    s.popInflight key = { s with inflight := key.elim s.inflight s.inflight.pop } := by
  cases key <;> rfl

theorem stepCall_cases (s : State Item K A St E) (c : Nat) (call : Call Item K A St E) (e : CallEvent A E) :
    s.stepCall V c call e = s ∨ CallStep V s c call (s.stepCall V c call e) := by
  cases e with
  | encodeOne outcome =>
    simp only [stepCall]
    split
    · split
      · exact .inl rfl
      · exact .inr (.encodeOne outcome ‹_›)
    · exact .inl rfl
  | enqueue =>
    simp only [stepCall]
    split
    · split
      · exact .inr (.enqueue ‹_›)
      · exact .inl rfl
    · exact .inl rfl
  | receive =>
    simp only [stepCall]
    split
    · exact .inr (.receive _ ‹_› ‹_›)
    · exact .inl rfl
  | timeout =>
    simp only [stepCall]
    split
    · split
      · exact .inr (.giveUp ‹_›)
      · exact .inl rfl
    · split
      · exact .inr (.expire _ ‹_›)
      · exact .inl rfl
    · exact .inl rfl
  | store raised =>
    simp only [stepCall]
    split
    · cases raised with
      | none => exact .inr (.store _ ‹_›)
      | some e => exact .inr (.storeRaises _ e ‹_›)
    · exact .inl rfl
  | revalidate outcome =>
    simp only [stepCall]
    split
    · exact .inr (.accept _ _ ‹_› ‹_›)
    · exact .inr (.refuse _ ‹_›)
    · exact .inr (.revalidateRaises _ _ ‹_›)
    · exact .inl rfl
  | publish raised =>
    simp only [stepCall]
    split
    · split
      · exact .inr (.publishRaises _ _ ‹_›)
      · exact .inr (.publish _ _ ‹_› ‹_›)
      · exact .inr (.skip _ _ ‹_› ‹_›)
    · exact .inl rfl
  | fail =>
    simp only [stepCall]
    split
    · exact .inr (.fail _ ‹_›)
    · exact .inl rfl
  | settle =>
    simp only [stepCall]
    split
    · exact .inr (.settle (.ok _) ‹_›)
    · exact .inr (.settle (.error _) ‹_›)
    · exact .inl rfl
  | follow =>
    simp only [stepCall]
    split
    · split
      · rename_i hf
        obtain ⟨lead, led, completed⟩ := Option.bind_eq_some_iff.mp hf
        exact .inr (.follow _ lead _ ‹_› led completed)
      · exact .inl rfl
    · exact .inl rfl

omit [DecidableEq K] in
/-- A worker step leaves the calls as they are, or completes the future of one queued item. -/
theorem stepWorker_calls (s : State Item K A St E) (e : WorkerEvent A E) :
    (s.stepWorker V e).inflight = s.inflight ∧ (s.stepWorker V e).cache = s.cache ∧
      (s.stepWorker V e).validated = s.validated ∧
      ((s.stepWorker V e).calls = s.calls ∨ ∃ entry outcome rest call,
        s.worker = .delivering ((entry, outcome) :: rest) ∧
        s.calls entry.2 = some call ∧ s.stepWorker V e =
          { s.setCall entry.2 { call with batchFuture := some (V.delivered outcome) } with
            worker := .delivering rest }) := by
  cases e with
  | take =>
    simp only [stepWorker]
    split
    · exact ⟨rfl, rfl, rfl, .inl rfl⟩
    · split <;> exact ⟨rfl, rfl, rfl, .inl rfl⟩
    · exact ⟨rfl, rfl, rfl, .inl rfl⟩
  | startBatch =>
    simp only [stepWorker]
    split <;> exact ⟨rfl, rfl, rfl, .inl rfl⟩
  | encodeBatch outcome =>
    simp only [stepWorker]
    split
    · split <;> split <;> exact ⟨rfl, rfl, rfl, .inl rfl⟩
    · exact ⟨rfl, rfl, rfl, .inl rfl⟩
  | retryOne outcome =>
    simp only [stepWorker]
    split
    · split
      · exact ⟨rfl, rfl, rfl, .inl rfl⟩
      · split
        · exact ⟨rfl, rfl, rfl, .inl rfl⟩
        · split <;> exact ⟨rfl, rfl, rfl, .inl rfl⟩
    · exact ⟨rfl, rfl, rfl, .inl rfl⟩
  | deliver =>
    simp only [stepWorker]
    split
    · split <;> exact ⟨rfl, rfl, rfl, .inl rfl⟩
    · exact ⟨rfl, rfl, rfl, .inl rfl⟩
    · split
      · exact ⟨rfl, rfl, rfl, .inl rfl⟩
      · exact ⟨rfl, rfl, rfl, .inr ⟨_, _, _, _, ‹_›, ‹_›, rfl⟩⟩
    · exact ⟨rfl, rfl, rfl, .inl rfl⟩

/-! ### Single flight -/

/-- What holds between a call and the leader `l` that it joined. -/
structure Joins (l : Nat) (call lead : Call Item K A St E) : Prop where
  key : lead.key = call.key
  keyed : call.key ≠ none
  leads : lead.joined = none
  phase : call.phase = .following l ∧ (lead.phase.leading = true ∨ ∃ f, lead.leaderFuture = some f) ∨
    ∃ r, call.phase = .done r ∧ (call.expired = true ∧ r = .error V.timeoutError ∨
      ∃ f, lead.leaderFuture = some f ∧ r = V.followed f)

structure Flight (s : State Item K A St E) : Prop where
  /-- A key is in flight while one call of it is in the guarded section. -/
  inflight : ∀ k c, s.inflight.get? k = some c ↔
    ∃ call, s.calls c = some call ∧ call.key = some k ∧ call.phase.guarded = true
  joined : ∀ c call l, s.calls c = some call → call.joined = some l →
    ∃ lead, s.calls l = some lead ∧ Joins V l call lead
  follows : ∀ c call, s.calls c = some call → call.joined = none → call.phase.isFollowing = false
  future : ∀ c call f, s.calls c = some call → call.leaderFuture = some f → call.phase = .done (V.settled f)

variable {V} {s s' : State Item K A St E} {c : Nat} {call : Call Item K A St E}

theorem Flight.initial : Flight V ({} : State Item K A St E) where
  inflight := fun _ _ => ⟨(fun h => nomatch h), (fun ⟨_, h, _⟩ => nomatch h)⟩
  joined := fun _ _ _ h _ => nomatch h
  follows := fun _ _ h _ => nomatch h
  future := fun _ _ _ h _ => nomatch h

theorem Flight.congr (h : Flight V s) (calls : s'.calls = s.calls)
    (inflight : s'.inflight = s.inflight) : Flight V s' where
  inflight := by rw [calls, inflight]; exact h.inflight
  joined := by rw [calls]; exact h.joined
  follows := by rw [calls]; exact h.follows
  future := by rw [calls]; exact h.future

/-- One call moves on. -/
theorem Flight.move {call' : Call Item K A St E} (h : Flight V s)
    (hc : s.calls c = some call) (calls : s'.calls = Function.update s.calls c (some call'))
    (key : call'.key = call.key) (joined : call'.joined = call.joined) (inflight : ∀ k x, s'.inflight.get? k = some x ↔
      if x = c then call.key = some k ∧ call'.phase.guarded = true else s.inflight.get? k = some x)
    (leads : call.key ≠ none → call.phase.leading = true →
      call'.phase.leading = true ∨ ∃ f, call'.leaderFuture = some f)
    (kept : ∀ f, call.leaderFuture = some f → call'.leaderFuture = some f)
    (own : ∀ l lead, s.calls l = some lead → call.joined = some l → Joins V l call lead → Joins V l call' lead)
    (follows : call.joined = none → call'.phase.isFollowing = false)
    (future : ∀ f, call'.leaderFuture = some f → call'.phase = .done (V.settled f)) : Flight V s' where
  inflight := by
    intro k x
    rw [inflight, calls]
    by_cases hx : x = c
    · rw [if_pos hx, hx, Function.update_self]
      constructor
      · intro ⟨hk, hg⟩
        exact ⟨call', rfl, key ▸ hk, hg⟩
      · intro ⟨_, hcall, hk, hg⟩
        cases hcall
        exact ⟨key ▸ hk, hg⟩
    · rw [if_neg hx, Function.update_of_ne hx]
      exact h.inflight k x
  joined := by
    -- The moved call is either the follower, or the leader that another call joined.
    intro x xcall l hx hj
    rw [calls] at hx ⊢
    by_cases hxc : x = c
    · rw [hxc, Function.update_self] at hx
      cases hx
      rw [joined] at hj
      obtain ⟨lead, hl, joins⟩ := h.joined c call l hc hj
      have hlc : l ≠ c := by
        intro hlc
        rw [hlc, hc] at hl
        cases hl
        rw [joins.leads] at hj
        cases hj
      exact ⟨lead, by rw [Function.update_of_ne hlc]; exact hl, own l lead hl hj joins⟩
    · rw [Function.update_of_ne hxc] at hx
      obtain ⟨lead, hl, joins⟩ := h.joined x xcall l hx hj
      by_cases hlc : l = c
      · rw [hlc, hc] at hl
        cases hl
        refine ⟨call', by rw [hlc, Function.update_self], key.trans joins.key, joins.keyed,
          joined.trans joins.leads, ?_⟩
        obtain ⟨hf, hlead⟩ | ⟨r, hr, hout⟩ := joins.phase
        · refine .inl ⟨hf, ?_⟩
          obtain hlead | ⟨f, hf⟩ := hlead
          · exact leads (joins.key ▸ joins.keyed) hlead
          · exact .inr ⟨f, kept f hf⟩
        · refine .inr ⟨r, hr, ?_⟩
          obtain hexp | ⟨f, hf, hr⟩ := hout
          · exact .inl hexp
          · exact .inr ⟨f, kept f hf, hr⟩
      · exact ⟨lead, by rw [Function.update_of_ne hlc]; exact hl, joins⟩
  follows := by
    intro x xcall hx hj
    rw [calls] at hx
    by_cases hxc : x = c
    · rw [hxc, Function.update_self] at hx
      cases hx
      exact follows (joined ▸ hj)
    · rw [Function.update_of_ne hxc] at hx
      exact h.follows x xcall hx hj
  future := by
    intro x xcall f hx hf
    rw [calls] at hx
    by_cases hxc : x = c
    · rw [hxc, Function.update_self] at hx
      cases hx
      exact future f hf
    · rw [Function.update_of_ne hxc] at hx
      exact h.future x xcall f hx hf

theorem Flight.leader (h : Flight V s)
    (hc : s.calls c = some call) (leading : call.phase.leading = true) :
    call.joined = none ∧ call.leaderFuture = none := by
  constructor
  · cases hj : call.joined with
    | none => rfl
    | some l =>
      obtain ⟨lead, -, joins⟩ := h.joined c call l hc hj
      obtain ⟨hf, -⟩ | ⟨r, hr, -⟩ := joins.phase
      · rw [hf] at leading
        cases leading
      · rw [hr] at leading
        cases leading
  · cases hf : call.leaderFuture with
    | none => rfl
    | some f =>
      rw [h.future c call f hc hf] at leading
      cases leading

/-- The table of flights, when a call moves and leaves it alone. -/
theorem Flight.inflight_kept {p : Phase A St E}
    (h : Flight V s) (hc : s.calls c = some call) (same : call.key ≠ none → p.guarded = call.phase.guarded) (k : K)
    (x : Nat) : s.inflight.get? k = some x ↔
      if x = c then call.key = some k ∧ p.guarded = true else s.inflight.get? k = some x := by
  by_cases hx : x = c
  · rw [if_pos hx, hx, h.inflight]
    constructor
    · intro ⟨_, hcall, hk, hg⟩
      rw [hc] at hcall
      cases hcall
      exact ⟨hk, (same (by rw [hk]; exact Option.some_ne_none k)).trans hg⟩
    · intro ⟨hk, hg⟩
      exact ⟨call, hc, hk, (same (by rw [hk]; exact Option.some_ne_none k)).symm.trans hg⟩
  · rw [if_neg hx]

/-- The table of flights, when a leader takes its key out and leaves the guarded section. -/
theorem Flight.inflight_popped {p : Phase A St E}
    {k₀ : K} (h : Flight V s) (hc : s.calls c = some call) (keyed : call.key = some k₀)
    (guarded : call.phase.guarded = true) (left : p.guarded = false) (k : K) (x : Nat) :
    (s.inflight.pop k₀).get? k = some x ↔
      if x = c then call.key = some k ∧ p.guarded = true else s.inflight.get? k = some x := by
  have mine : s.inflight.get? k₀ = some c := (h.inflight k₀ c).mpr ⟨call, hc, keyed, guarded⟩
  rw [Dict.get?_pop, left]
  by_cases hk : k = k₀
  · rw [if_pos hk, hk, mine]
    by_cases hx : x = c
    · simp [hx]
    · simp [hx, Ne.symm hx]
  · rw [if_neg hk]
    by_cases hx : x = c
    · rw [if_pos hx, hx]
      constructor
      · intro hin
        obtain ⟨_, hcall, hk', -⟩ := (h.inflight k c).mp hin
        rw [hc] at hcall
        cases hcall
        rw [keyed] at hk'
        cases hk'
        exact absurd rfl hk
      · intro hg
        cases hg.2
    · rw [if_neg hx]

/-- A call that leads its key, or is on its own, moves on and does not complete its future yet. -/
theorem Flight.lead_move {p : Phase A St E}
    (h : Flight V s) (hc : s.calls c = some call) (leading : call.phase.leading = true)
    (calls : s'.calls = Function.update s.calls c (some { call with phase := p }))
    (inflight : ∀ k x, s'.inflight.get? k = some x ↔
      if x = c then call.key = some k ∧ p.guarded = true else s.inflight.get? k = some x)
    (leads : call.key ≠ none → p.leading = true) (follows : p.isFollowing = false) : Flight V s' := by
  obtain ⟨alone, pending⟩ := h.leader hc leading
  refine h.move hc calls rfl rfl inflight (fun hk _ => .inl (leads hk)) (fun _ hf => hf) ?_ (fun _ => follows) ?_
  · intro l lead _ hj
    rw [alone] at hj
    cases hj
  · intro f hf
    rw [show ({ call with phase := p } : Call Item K A St E).leaderFuture = call.leaderFuture from rfl, pending] at hf
    cases hf

omit [DecidableEq K] in
theorem encoded_guarded {key : Option K} (outcome : Except E A) (keyed : key ≠ none) :
    (Service.encoded key outcome : Phase A St E).guarded = true := by
  cases key with
  | none => exact absurd rfl keyed
  | some k => cases outcome <;> rfl

omit [DecidableEq K] in
theorem encoded_leading {key : Option K} (outcome : Except E A) (keyed : key ≠ none) :
    (Service.encoded key outcome : Phase A St E).leading = true := by
  cases key with
  | none => exact absurd rfl keyed
  | some k => cases outcome <;> rfl

omit [DecidableEq K] in
theorem encoded_isFollowing (key : Option K) (outcome : Except E A) :
    (Service.encoded key outcome : Phase A St E).isFollowing = false := by
  cases key with
  | none => rfl
  | some k => cases outcome <;> rfl

theorem Flight.callStep (h : Flight V s)
    (hc : s.calls c = some call) (step : CallStep V s c call s') : Flight V s' := by
  cases step with
  | encodeOne outcome hp =>
    exact h.lead_move hc (by rw [hp]; rfl) rfl
      (h.inflight_kept hc (fun hk => by rw [hp]; exact encoded_guarded outcome hk))
      (encoded_leading outcome) (encoded_isFollowing call.key outcome)
  | enqueue hp =>
    exact h.lead_move hc (by rw [hp]; rfl) rfl (h.inflight_kept hc (fun _ => by rw [hp]; rfl)) (fun _ => rfl) rfl
  | receive outcome hp _ =>
    exact h.lead_move hc (by rw [hp]; rfl) rfl
      (h.inflight_kept hc (fun hk => by rw [hp]; exact encoded_guarded outcome hk))
      (encoded_leading outcome) (encoded_isFollowing call.key outcome)
  | giveUp hp =>
    exact h.lead_move hc (by rw [hp]; rfl) rfl
      (h.inflight_kept hc (fun hk => by rw [hp]; exact encoded_guarded _ hk))
      (encoded_leading _) (encoded_isFollowing call.key _)
  | expire l hp =>
    refine h.move hc rfl rfl rfl (h.inflight_kept hc (fun _ => by rw [hp]; rfl)) ?_ (fun _ hf => hf) ?_
      (fun _ => rfl) ?_
    · intro _ leading
      rw [hp] at leading
      cases leading
    · intro l' lead _ _ joins
      exact ⟨joins.key, joins.keyed, joins.leads, .inr ⟨_, rfl, .inl ⟨rfl, rfl⟩⟩⟩
    · intro f hf
      have hd := h.future c call f hc hf
      rw [hp] at hd
      cases hd
  | store a hp | storeRaises a e hp | accept st k hp _ | refuse st hp | revalidateRaises st e hp =>
    exact h.lead_move hc (by rw [hp]; rfl) rfl (h.inflight_kept hc (fun _ => by rw [hp]; rfl)) (fun _ => rfl) rfl
  | publish st k hp keyed =>
    exact h.lead_move hc (by rw [hp]; rfl) rfl
      (h.inflight_popped hc keyed (by rw [hp]; rfl) rfl) (fun _ => rfl) rfl
  | publishRaises st e hp =>
    exact h.lead_move hc (by rw [hp]; rfl) rfl (h.inflight_kept hc (fun _ => by rw [hp]; rfl)) (fun _ => rfl) rfl
  | skip st k hp keyed =>
    exact h.lead_move hc (by rw [hp]; rfl) rfl
      (h.inflight_popped hc keyed (by rw [hp]; rfl) rfl) (fun _ => rfl) rfl
  | fail e hp =>
    rw [popInflight_eq]
    refine h.lead_move hc (by rw [hp]; rfl) rfl ?_ (fun _ => rfl) rfl
    show ∀ k x, (call.key.elim s.inflight s.inflight.pop).get? k = some x ↔ _
    obtain hk | ⟨k, hk⟩ := Option.eq_none_or_eq_some call.key
    · rw [congrArg (Option.elim · s.inflight s.inflight.pop) hk]
      exact h.inflight_kept hc (fun hn => absurd hk hn)
    · rw [congrArg (Option.elim · s.inflight s.inflight.pop) hk]
      exact h.inflight_popped hc hk (by rw [hp]; rfl) rfl
  | settle outcome hp =>
    have leading : call.phase.leading = true := by
      rw [hp]
      cases outcome <;> rfl
    have guarded : call.phase.guarded = false := by
      rw [hp]
      cases outcome <;> rfl
    obtain ⟨alone, pending⟩ := h.leader hc leading
    refine h.move hc rfl rfl rfl (h.inflight_kept hc (fun _ => guarded.symm)) (fun _ _ => .inr ⟨outcome, rfl⟩) ?_ ?_
      (fun _ => rfl) ?_
    · intro f hf
      rw [pending] at hf
      cases hf
    · intro l lead _ hj
      rw [alone] at hj
      cases hj
    · intro f hf
      cases hf
      rfl
  | follow l lead outcome hp led completed =>
    refine h.move hc rfl rfl rfl (h.inflight_kept hc (fun _ => by rw [hp]; rfl)) ?_ (fun _ hf => hf) ?_
      (fun _ => rfl) ?_
    · intro _ leading
      rw [hp] at leading
      cases leading
    · intro l' lead' hl' _ joins
      refine ⟨joins.key, joins.keyed, joins.leads, .inr ⟨_, rfl, .inr ⟨outcome, ?_, rfl⟩⟩⟩
      obtain ⟨hf, -⟩ | ⟨r, hr, -⟩ := joins.phase
      · rw [hp] at hf
        cases hf
        rw [led] at hl'
        cases hl'
        exact completed
      · rw [hp] at hr
        cases hr
    · intro f hf
      have hd := h.future c call f hc hf
      rw [hp] at hd
      cases hd

/-- A new call, which joins the leader of its key when there is one. -/
theorem Flight.add (h : Flight V s) (hc : s.calls c = none) (calls : s'.calls = Function.update s.calls c (some call))
    (inflight : ∀ k x, s'.inflight.get? k = some x ↔
      if x = c then call.key = some k ∧ call.phase.guarded = true else s.inflight.get? k = some x)
    (joined : ∀ l, call.joined = some l → ∃ lead, s.calls l = some lead ∧ Joins V l call lead)
    (follows : call.joined = none → call.phase.isFollowing = false) (future : call.leaderFuture = none) :
    Flight V s' := by
  have kept : ∀ x xcall, s.calls x = some xcall → s'.calls x = some xcall := by
    intro x xcall hx
    rw [calls, Function.update_of_ne (fun hxc => by rw [hxc, hc] at hx; cases hx)]
    exact hx
  have news : ∀ x xcall, s'.calls x = some xcall → x = c ∧ xcall = call ∨ x ≠ c ∧ s.calls x = some xcall := by
    intro x xcall hx
    rw [calls] at hx
    by_cases hxc : x = c
    · rw [hxc, Function.update_self] at hx
      cases hx
      exact .inl ⟨hxc, rfl⟩
    · rw [Function.update_of_ne hxc] at hx
      exact .inr ⟨hxc, hx⟩
  constructor
  · intro k x
    rw [inflight]
    by_cases hx : x = c
    · rw [if_pos hx, hx]
      constructor
      · intro ⟨hk, hg⟩
        exact ⟨call, by rw [calls, Function.update_self], hk, hg⟩
      · intro ⟨xcall, hxc, hk, hg⟩
        rw [calls, Function.update_self] at hxc
        cases hxc
        exact ⟨hk, hg⟩
    · rw [if_neg hx, h.inflight, calls, Function.update_of_ne hx]
  · intro x xcall l hx hj
    obtain ⟨-, rfl⟩ | ⟨-, hx⟩ := news x xcall hx
    · obtain ⟨lead, hl, joins⟩ := joined l hj
      exact ⟨lead, kept l lead hl, joins⟩
    · obtain ⟨lead, hl, joins⟩ := h.joined x xcall l hx hj
      exact ⟨lead, kept l lead hl, joins⟩
  · intro x xcall hx hj
    obtain ⟨-, rfl⟩ | ⟨-, hx⟩ := news x xcall hx
    · exact follows hj
    · exact h.follows x xcall hx hj
  · intro x xcall f hx hf
    obtain ⟨-, rfl⟩ | ⟨-, hx⟩ := news x xcall hx
    · rw [future] at hf
      cases hf
    · exact h.future x xcall f hx hf

theorem Flight.startCall (h : Flight V s) (hc : s.calls c = none) (item : Item)
    (key : Option K) : Flight V (s.startCall V c item key) := by
  have absent : ∀ k x, s.inflight.get? k = some x → x ≠ c := by
    intro k x hin hx
    obtain ⟨call, hcall, -⟩ := (h.inflight k x).mp hin
    rw [hx, hc] at hcall
    cases hcall
  -- Whoever does not lead leaves the table alone.
  have same : ∀ (call : Call Item K A St E), call.key = none ∨ call.phase.guarded = false → ∀ k x,
      s.inflight.get? k = some x ↔
        if x = c then call.key = some k ∧ call.phase.guarded = true else s.inflight.get? k = some x := by
    intro call hcall k x
    by_cases hx : x = c
    · rw [if_pos hx]
      constructor
      · exact fun hin => absurd hx (absent k x hin)
      · intro ⟨hk, hg⟩
        obtain hn | hn := hcall
        · rw [hn] at hk
          cases hk
        · rw [hn] at hg
          cases hg
    · rw [if_neg hx]
  cases key with
  | none => exact h.add hc rfl (same _ (.inl rfl)) (fun _ hj => nomatch hj) (fun _ => rfl) rfl
  | some k =>
    simp only [State.startCall]
    split
    · exact h.add hc rfl (same _ (.inr rfl)) (fun _ hj => nomatch hj) (fun _ => rfl) rfl
    · rename_i l _ hin
      refine h.add hc rfl (same _ (.inr rfl)) ?_ (fun hj => nomatch hj) rfl
      intro l' hj
      cases hj
      obtain ⟨lead, hl, hk, hg⟩ := (h.inflight k l).mp hin
      have leading : lead.phase.leading = true := by
        cases hp : lead.phase <;> rw [hp] at hg <;> first | rfl | cases hg
      exact ⟨lead, hl, hk, Option.some_ne_none k, (h.leader hl leading).1, .inl ⟨rfl, .inl leading⟩⟩
    · rename_i _ hin
      refine h.add hc rfl ?_ (fun _ hj => nomatch hj) (fun _ => rfl) rfl
      intro k' x
      rw [Dict.get?_set]
      by_cases hk : k' = k
      · rw [if_pos hk, hk, hin]
        by_cases hx : x = c
        · simp [hx, Phase.guarded]
        · simp [hx, Ne.symm hx]
      · rw [if_neg hk]
        by_cases hx : x = c
        · rw [if_pos hx]
          exact ⟨fun hin => absurd hx (absent k' x hin), fun hk' => absurd (Option.some.inj hk'.1).symm hk⟩
        · rw [if_neg hx]

theorem Flight.stepWorker (h : Flight V s) (e : WorkerEvent A E) :
    Flight V (s.stepWorker V e) := by
  obtain ⟨hin, -, -, hcalls | ⟨entry, outcome, rest, call, -, hc, hs⟩⟩ := stepWorker_calls V s e
  · exact h.congr hcalls hin
  · rw [hs]
    exact h.move hc rfl rfl rfl (h.inflight_kept hc (fun _ => rfl)) (fun _ hl => .inl hl) (fun _ hf => hf)
      (fun _ _ _ _ joins => ⟨joins.key, joins.keyed, joins.leads, joins.phase⟩) (fun hj => h.follows _ call hc hj)
      (fun f hf => h.future _ call f hc hf)

theorem Flight.step (s : State Item K A St E) (e : Event Item K A E) (h : Flight V s) : Flight V (s.step V e) := by
  cases e with
  | call c item key =>
    simp only [State.step]
    split
    · exact h.startCall ‹_› item key
    · exact h
  | onCall c e =>
    simp only [State.step]
    split
    · exact h
    · rename_i call hc
      obtain hs | hs := stepCall_cases V s c call e
      · rw [hs]
        exact h
      · exact h.callStep hc hs
  | onWorker e => exact h.stepWorker e

end State
end SglangOmni.Scheduling.ReferenceEncoder
