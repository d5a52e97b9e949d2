import SglangOmni.Scheduling.Reference.Origin

/-! Every call ends, and a key is never poisoned.

No queued item is lost between the queue, the worker and its future (`Live`), so that the worker can always answer it, a
leader can always end, and with it the calls that joined it. -/
namespace SglangOmni.Scheduling.ReferenceEncoder
open Lib StageCache

variable {Item K A St E : Type} [DecidableEq K] {V : Service A St E}

namespace State

/-- The item of a queued call is in the queue or with the worker until its future is completed. -/
def Live (s : State Item K A St E) : Prop :=
  ∀ c call, s.calls c = some call → call.phase = .queued → call.batchFuture = none →
    (call.item, c) ∈ s.batchQueue ++ s.worker.holds

variable {c : Nat} {s s' : State Item K A St E} {call : Call Item K A St E}

omit [DecidableEq K] in
/-- One call moves on and is not queued with its future pending, or is in the queue. -/
theorem Live.move {call' : Call Item K A St E} (h : Live s) (calls : s'.calls = Function.update s.calls c (some call'))
    (entries : ∀ e ∈ s.batchQueue ++ s.worker.holds, e.2 = c ∨ e ∈ s'.batchQueue ++ s'.worker.holds)
    (own : call'.phase = .queued → call'.batchFuture = none → (call'.item, c) ∈ s'.batchQueue ++ s'.worker.holds) :
    Live s' := by
  intro x xcall hx hp hf
  rw [calls] at hx
  by_cases hxc : x = c
  · rw [hxc, Function.update_self] at hx
    cases hx
    rw [hxc]
    exact own hp hf
  · rw [Function.update_of_ne hxc] at hx
    exact (entries _ (h x xcall hx hp hf)).resolve_left hxc

omit [DecidableEq K] in
theorem Live.worker_move (h : Live s) (calls : s'.calls = s.calls)
    (entries : ∀ e ∈ s.batchQueue ++ s.worker.holds, e ∈ s'.batchQueue ++ s'.worker.holds) : Live s' := by
  intro x xcall hx hp hf
  rw [calls] at hx
  exact entries _ (h x xcall hx hp hf)

omit [DecidableEq K] in
theorem encoded_not_queued (key : Option K) (outcome : Except E A) :
    (Service.encoded key outcome : Phase A St E) ≠ .queued := by
  cases key with
  | none => exact fun h => nomatch h
  | some k => cases outcome <;> exact fun h => nomatch h

theorem Live.callStep (h : Live s) (step : CallStep V s c call s') : Live s' := by
  cases step with
  | encodeOne outcome hp =>
    exact h.move rfl (fun _ he => .inr he) (fun hq => absurd hq (encoded_not_queued call.key outcome))
  | enqueue hp =>
    refine h.move rfl ?_ ?_
    · intro e he
      refine .inr ?_
      simp only [setCall, List.append_assoc, List.mem_append] at he ⊢
      exact he.imp_right .inr
    · intro _ _
      simp [setCall]
  | receive outcome hp arrived =>
    exact h.move rfl (fun _ he => .inr he) (fun hq => absurd hq (encoded_not_queued call.key outcome))
  | giveUp hp => exact h.move rfl (fun _ he => .inr he) (fun hq => absurd hq (encoded_not_queued call.key _))
  | fail e hp =>
    rw [popInflight_eq]
    exact h.move rfl (fun _ he => .inr he) (fun hq => by cases hq)
  | _ => exact h.move rfl (fun _ he => .inr he) (fun hq => by cases hq)

theorem Live.startCall (h : Live s) (c : Nat) (item : Item) (key : Option K) :
    Live (s.startCall V c item key) := by
  cases key with
  | none => exact h.move rfl (fun _ he => .inr he) (fun hq => by cases hq)
  | some k =>
    simp only [State.startCall]
    split <;> exact h.move rfl (fun _ he => .inr he) (fun hq => by cases hq)

omit [DecidableEq K] in
theorem holds_delivering {batch : List (Item × Nat)} {results : List (Except E A)}
    (hlen : results.length = batch.length) :
    (Worker.delivering (batch.zip results)).holds = batch :=
  List.map_fst_zip (Nat.le_of_eq hlen.symm)

omit [DecidableEq K] in
theorem kept_of_same {batch : List (Item × Nat)} {w : Worker Item A E} (hw : s.worker.holds = batch)
    (h : w.holds = batch) : ∀ x ∈ s.batchQueue ++ s.worker.holds, x ∈ s.batchQueue ++ w.holds := by
  rw [hw, h]
  exact fun _ hx => hx

omit [DecidableEq K] in
theorem Live.stepWorker (h : Live s) (e : WorkerEvent A E) : Live (s.stepWorker V e) := by
  cases e with
  | take =>
    simp only [State.stepWorker]
    split
    · rename_i entry rest hw hq
      refine h.worker_move rfl ?_
      simp only [hw, hq, Worker.holds]
      grind
    · rename_i batch entry rest hw hq
      split
      · refine h.worker_move rfl ?_
        simp only [hw, hq, Worker.holds]
        grind
      · exact h
    · exact h
  | startBatch =>
    simp only [State.stepWorker]
    split
    · rename_i batch hw
      refine h.worker_move rfl ?_
      simp only [hw, Worker.holds]
      exact fun _ he => he
    · exact h
  | encodeBatch outcome =>
    simp only [State.stepWorker]
    split
    · rename_i batch hw
      have kept := fun w => kept_of_same (w := w) (show s.worker.holds = batch by rw [hw]; rfl)
      split
      · split
        · exact h.worker_move rfl (kept _ (holds_delivering (by simpa using ‹_›)))
        · exact h.worker_move rfl (kept _ rfl)
      · split
        · exact h.worker_move rfl (kept _ rfl)
        · exact h.worker_move rfl (kept _ (holds_delivering (List.length_replicate ..)))
    · exact h
  | retryOne outcome =>
    simp only [State.stepWorker]
    split
    · rename_i batch results hw
      have kept := fun w => kept_of_same (w := w) (show s.worker.holds = batch by rw [hw]; rfl)
      split
      · exact h
      · split
        · exact h.worker_move rfl (kept _ rfl)
        · split
          · exact h.worker_move rfl (kept _ rfl)
          · exact h.worker_move rfl (kept _ (holds_delivering (List.length_replicate ..)))
    · exact h
  | deliver =>
    simp only [State.stepWorker]
    split
    · rename_i batch results hw
      split
      · refine h.worker_move rfl ?_
        intro x hx
        rw [hw] at hx
        rw [holds_delivering ‹_›]
        exact hx
      · exact h
    · rename_i hw
      refine h.worker_move rfl ?_
      intro x hx
      rw [hw] at hx
      exact hx
    · rename_i entry outcome rest hw
      split
      · exact h
      · rename_i call hc
        refine h.move rfl ?_ (fun _ hf => by cases hf)
        intro x hx
        rw [hw] at hx
        simp only [Worker.holds, List.map_cons, List.mem_append, List.mem_cons, setCall] at hx ⊢
        grind
    · exact h

variable (V) in
structure Inv (s : State Item K A St E) : Prop where
  flight : Flight V s
  origin : Origin V s
  live : Live s

theorem Inv.initial : Inv V ({} : State Item K A St E) :=
  ⟨Flight.initial, Origin.initial, fun _ _ h => nomatch h⟩

theorem Inv.step (s : State Item K A St E) (e : Event Item K A E) (h : Inv V s) : Inv V (s.step V e) := by
  refine ⟨h.flight.step s e, h.origin.step e h.flight, ?_⟩
  cases e with
  | call c item key =>
    simp only [State.step]
    split
    · exact h.live.startCall c item key
    · exact h.live
  | onCall c e =>
    simp only [State.step]
    split
    · exact h.live
    · rename_i call hc
      obtain hs | hs := stepCall_cases V s c call e
      · rw [hs]
        exact h.live
      · exact h.live.callStep hs
  | onWorker e => exact h.live.stepWorker e

theorem Inv.runFrom (h : Inv V s) (es : List (Event Item K A E)) : Inv V (s.runFrom V es) :=
  run_invariant h Inv.step es

/-! ### The worker answers everything that is queued -/

/-- The steps that the worker needs at most for what it has taken. -/
def remaining : Worker Item A E → Nat
  | .idle => 0
  | .collecting batch => 4 + 2 * batch.length
  | .encoding batch => 3 + 2 * batch.length
  | .retrying batch results => 2 + batch.length + (batch.length - results.length)
  | .delivering pairs => 1 + pairs.length

def backlog (s : State Item K A St E) : Nat := 8 * s.batchQueue.length + remaining s.worker

theorem Origin.worker_advances (h : Origin V s) :
    s.worker = .idle ∧ s.batchQueue = [] ∨ ∃ e : WorkerEvent A E, backlog (s.stepWorker V e) < backlog s := by
  have sound := h.worker
  cases hw : s.worker with
  | idle =>
    cases hq : s.batchQueue with
    | nil => exact .inl ⟨rfl, rfl⟩
    | cons entry rest =>
      refine .inr ⟨.take, ?_⟩
      simp only [backlog, State.stepWorker, hw, hq, remaining, List.length_cons, List.length_nil]
      omega
  | collecting batch =>
    refine .inr ⟨.startBatch, ?_⟩
    simp only [backlog, State.stepWorker, hw, remaining]
    omega
  | encoding batch =>
    refine .inr ⟨.encodeBatch (.error V.timeoutError), ?_⟩
    simp only [backlog, State.stepWorker, hw]
    split <;> simp only [remaining, List.length_nil, List.length_zip, List.length_replicate] <;> omega
  | retrying batch results =>
    rw [hw] at sound
    by_cases hall : results.length = batch.length
    · refine .inr ⟨.deliver, ?_⟩
      simp only [backlog, State.stepWorker, hw, if_pos hall, remaining, List.length_zip]
      omega
    · have hlt : results.length < batch.length := Nat.lt_of_le_of_ne sound.1 hall
      refine .inr ⟨.retryOne (.error V.timeoutError), ?_⟩
      simp only [backlog, State.stepWorker, hw, List.getElem?_eq_getElem hlt]
      split <;>
        simp only [remaining, List.length_append, List.length_singleton, List.length_zip, List.length_replicate] <;>
        omega
  | delivering pairs =>
    refine .inr ⟨.deliver, ?_⟩
    cases pairs with
    | nil =>
      simp only [backlog, State.stepWorker, hw, remaining, List.length_nil]
      omega
    | cons p rest =>
      obtain ⟨call, hc, -⟩ := h.entries p.1 (by rw [hw]; simp [Worker.holds])
      simp only [backlog, State.stepWorker, hw, hc, setCall, remaining, List.length_cons]
      omega

/-- Left to itself, the worker empties the queue. -/
theorem Inv.drained (h : Inv V s) : ∃ es : List (WorkerEvent A E),
    (s.runFrom V (es.map .onWorker)).worker = .idle ∧ (s.runFrom V (es.map .onWorker)).batchQueue = [] := by
  generalize hn : backlog s = n
  induction n using Nat.strongRecOn generalizing s with
  | ind n ih =>
    obtain hdone | ⟨e, hlt⟩ := h.origin.worker_advances
    · exact ⟨[], hdone⟩
    · obtain ⟨es, hes⟩ := ih _ (hn ▸ hlt) (h.step _ (.onWorker e)) rfl
      exact ⟨e :: es, hes⟩

/-! ### Every call can end -/

omit [DecidableEq K] in
theorem stepWorker_kept (e : WorkerEvent A E)
    (hc : s.calls c = some call) : ∃ call', (s.stepWorker V e).calls c = some call' ∧
      call'.joined = call.joined ∧ call'.phase = call.phase ∧ call'.key = call.key := by
  obtain ⟨-, -, -, hcalls | ⟨entry, outcome, rest, xcall, -, hx, hs⟩⟩ := stepWorker_calls V s e
  · exact ⟨call, hcalls ▸ hc, rfl, rfl, rfl⟩
  · rw [hs]
    by_cases hxc : c = entry.2
    · rw [← hxc, hc] at hx
      cases hx
      refine ⟨{ call with batchFuture := some (V.delivered outcome) }, ?_, rfl, rfl, rfl⟩
      rw [hxc]
      exact Function.update_self ..
    · exact ⟨call, (Function.update_of_ne hxc ..).trans hc, rfl, rfl, rfl⟩

theorem runWorker_kept (es : List (WorkerEvent A E))
    (hc : s.calls c = some call) : ∃ call', (s.runFrom V (es.map .onWorker)).calls c = some call' ∧
      call'.phase = call.phase ∧ call'.key = call.key := by
  induction es generalizing s call with
  | nil => exact ⟨call, hc, rfl, rfl⟩
  | cons e rest ih =>
    obtain ⟨call', hc', -, hp, hk⟩ := stepWorker_kept (V := V) e hc
    obtain ⟨call'', hc'', hp', hk'⟩ := ih hc'
    exact ⟨call'', hc'', hp'.trans hp, hk'.trans hk⟩

theorem step_joined (e : Event Item K A E)
    (hc : s.calls c = some call) : ∃ call', (s.step V e).calls c = some call' ∧ call'.joined = call.joined := by
  have changed : ∀ (x : Nat) (call' : Call Item K A St E), (x = c → call'.joined = call.joined) →
      ∃ call'', Function.update s.calls x (some call') c = some call'' ∧ call''.joined = call.joined := by
    intro x call' hj
    by_cases hx : c = x
    · exact ⟨call', by rw [hx, Function.update_self], hj hx.symm⟩
    · exact ⟨call, (Function.update_of_ne hx ..).trans hc, rfl⟩
  cases e with
  | call x item key =>
    simp only [State.step]
    split
    · rename_i hx
      have hne : x ≠ c := fun h => by rw [h, hc] at hx; cases hx
      cases key with
      | none => exact changed x _ (fun h => absurd h hne)
      | some k =>
        simp only [State.startCall]
        split <;> exact changed x _ (fun h => absurd h hne)
    · exact ⟨call, hc, rfl⟩
  | onCall x e =>
    simp only [State.step]
    split
    · exact ⟨call, hc, rfl⟩
    · rename_i xcall hx
      have same : x = c → xcall.joined = call.joined := by
        intro h
        rw [h, hc] at hx
        cases hx
        rfl
      obtain hs | hs := stepCall_cases V s x xcall e
      · rw [hs]
        exact ⟨call, hc, rfl⟩
      · generalize s.stepCall V x xcall e = s' at hs ⊢
        cases hs with
        | fail e hp =>
          rw [popInflight_eq]
          exact changed x _ same
        | _ => exact changed x _ same
  | onWorker e =>
    obtain ⟨call', hc', hj, -⟩ := stepWorker_kept (V := V) e hc
    exact ⟨call', hc', hj⟩

theorem runFrom_joined (es : List (Event Item K A E))
    (hc : s.calls c = some call) : ∃ call', (s.runFrom V es).calls c = some call' ∧ call'.joined = call.joined := by
  induction es generalizing s call with
  | nil => exact ⟨call, hc, rfl⟩
  | cons e rest ih =>
    obtain ⟨call', hc', hj⟩ := step_joined (V := V) e hc
    obtain ⟨call'', hc'', hj'⟩ := ih hc'
    exact ⟨call'', hc'', hj'.trans hj⟩

/-- The event is not a wait that reaches `timeout_s`. -/
def patient : Event Item K A E → Bool
  | .onCall _ .timeout => false
  | _ => true

variable (V) in
/-- There is a way on in which no wait reaches its timeout and the call ends. -/
def CanEnd (s : State Item K A St E) (c : Nat) : Prop :=
  ∃ es : List (Event Item K A E), (∀ e ∈ es, patient e = true) ∧
    ∃ call r, (s.runFrom V es).calls c = some call ∧ call.phase = .done r

theorem CanEnd.ended {r : Except E A} (hc : s.calls c = some call) (hp : call.phase = .done r) : CanEnd V s c :=
  ⟨[], (fun _ h => nomatch h), call, r, hc, hp⟩

theorem CanEnd.after (es : List (Event Item K A E))
    (hes : ∀ e ∈ es, patient e = true) (h : CanEnd V (s.runFrom V es) c) : CanEnd V s c := by
  obtain ⟨more, hmore, call, r, hc, hp⟩ := h
  refine ⟨es ++ more, ?_, call, r, ?_, hp⟩
  · intro e he
    exact (List.mem_append.mp he).elim (hes e) (hmore e)
  · rw [State.runFrom, run_append]
    exact hc

/-- A call can end when one of its own steps takes it to where it can. -/
theorem CanEnd.next (e : CallEvent A E)
    (he : patient (.onCall c e : Event Item K A E) = true) (h : CanEnd V (s.step V (.onCall c e)) c) : CanEnd V s c :=
  CanEnd.after [.onCall c e] (fun _ hx => List.mem_singleton.mp hx ▸ he) h

theorem canEnd_settling {outcome : Except E St}
    (hc : s.calls c = some call) (hp : call.phase = settling outcome) : CanEnd V s c := by
  refine CanEnd.next .settle rfl ?_
  cases outcome with
  | ok st =>
    refine CanEnd.ended
      (?_ : _ = some { call with phase := .done (V.settled (.ok st)), leaderFuture := some (.ok st) }) rfl
    have hp' : call.phase = .resolving st := hp
    simp [State.step, State.stepCall, hc, hp']
  | error e =>
    refine CanEnd.ended
      (?_ : _ = some { call with phase := .done (V.settled (.error e)), leaderFuture := some (.error e) }) rfl
    have hp' : call.phase = .rejecting e := hp
    simp [State.step, State.stepCall, hc, hp']

theorem canEnd_failing {e : E} (hc : s.calls c = some call) (hp : call.phase = .failing e) : CanEnd V s c := by
  refine CanEnd.next .fail rfl
    (canEnd_settling (?_ : _ = some { call with phase := .rejecting e }) (rfl : _ = settling (.error e)))
  simp [State.step, State.stepCall, hc, hp, popInflight_eq]

theorem canEnd_publishing {st : St} {b : Bool}
    (hc : s.calls c = some call) (keyed : call.key ≠ none) (hp : call.phase = .publishing st b) : CanEnd V s c := by
  obtain ⟨k, hk⟩ := Option.ne_none_iff_exists'.mp keyed
  refine CanEnd.next (.publish none) rfl
    (canEnd_settling (?_ : _ = some { call with phase := .resolving st }) (rfl : _ = settling (.ok st)))
  cases b <;> simp [State.step, State.stepCall, hc, hp, hk, popInflight_eq]

theorem canEnd_validating {st : St}
    (hc : s.calls c = some call) (keyed : call.key ≠ none) (hp : call.phase = .validating st) : CanEnd V s c := by
  obtain ⟨k, hk⟩ := Option.ne_none_iff_exists'.mp keyed
  refine CanEnd.next (.revalidate (.ok true)) rfl
    (canEnd_publishing (?_ : _ = some { call with phase := .publishing st true }) keyed rfl)
  simp [State.step, State.stepCall, hc, hp, hk]

theorem canEnd_storing {a : A}
    (hc : s.calls c = some call) (keyed : call.key ≠ none) (hp : call.phase = .storing a) : CanEnd V s c := by
  refine CanEnd.next (.store none) rfl
    (canEnd_validating (?_ : _ = some { call with phase := .validating (V.storeArtifact a) }) keyed rfl)
  simp [State.step, State.stepCall, hc, hp]

theorem canEnd_encoded {outcome : Except E A}
    (hc : s.calls c = some call) (hp : call.phase = Service.encoded call.key outcome) : CanEnd V s c := by
  cases hk : call.key with
  | none =>
    rw [hk] at hp
    exact CanEnd.ended hc hp
  | some k =>
    rw [hk] at hp
    cases outcome with
    | ok a => exact canEnd_storing hc (by rw [hk]; exact Option.some_ne_none k) hp
    | error e => exact canEnd_failing hc hp

/-- The worker empties the queue, and finds the item there or has answered it. -/
theorem Inv.canEnd_queued (h : Inv V s) (hc : s.calls c = some call) (hp : call.phase = .queued) : CanEnd V s c := by
  obtain ⟨es, hw, hq⟩ := h.drained
  refine CanEnd.after (es.map .onWorker) ?_ ?_
  · intro e he
    obtain ⟨_, -, rfl⟩ := List.mem_map.mp he
    rfl
  · obtain ⟨call', hc', hp', -⟩ := runWorker_kept (V := V) es hc
    rw [hp] at hp'
    cases hf : call'.batchFuture with
    | none =>
      have hin := (h.runFrom (es.map .onWorker)).live c call' hc' hp' hf
      rw [hw, hq] at hin
      cases hin
    | some outcome =>
      refine CanEnd.next .receive rfl
        (canEnd_encoded (?_ : _ = some { call' with phase := Service.encoded call'.key outcome })
          (rfl : _ = Service.encoded _ outcome))
      simp [State.step, State.stepCall, hc', hp', hf]

theorem Inv.canEnd_leader (h : Inv V s)
    (hc : s.calls c = some call) (leads : call.phase.isFollowing = false) : CanEnd V s c := by
  have sound := (h.origin.calls c call hc).phase
  cases hp : call.phase with
  | encoding =>
    cases hb : V.batching with
    | false =>
      refine CanEnd.next (.encodeOne (.error V.timeoutError)) rfl (canEnd_encoded
        (?_ : _ = some { call with phase := Service.encoded call.key (.error V.timeoutError) })
        (rfl : _ = Service.encoded _ (.error V.timeoutError)))
      simp [State.step, State.stepCall, hc, hp, hb]
    | true =>
      refine CanEnd.next .enqueue rfl
        ((h.step s (.onCall c .enqueue)).canEnd_queued (?_ : _ = some { call with phase := .queued }) rfl)
      simp [State.step, State.stepCall, hc, hp, hb]
  | queued => exact h.canEnd_queued hc hp
  | storing a =>
    rw [hp] at sound
    exact canEnd_storing hc sound.1 hp
  | validating st =>
    rw [hp] at sound
    exact canEnd_validating hc sound.1 hp
  | publishing st b =>
    rw [hp] at sound
    exact canEnd_publishing hc sound.1 hp
  | failing e => exact canEnd_failing hc hp
  | resolving st => exact canEnd_settling hc (show _ = settling (.ok st) from hp)
  | rejecting e => exact canEnd_settling hc (show _ = settling (.error e) from hp)
  | following l =>
    rw [hp] at leads
    cases leads
  | done r => exact CanEnd.ended hc hp

/-- A follower ends after its leader. -/
theorem Inv.canEnd (h : Inv V s) (hc : s.calls c = some call) : CanEnd V s c := by
  cases hj : call.joined with
  | none => exact h.canEnd_leader hc (h.flight.follows c call hc hj)
  | some l =>
    obtain ⟨lead, hl, joins⟩ := h.flight.joined c call l hc hj
    obtain ⟨es, hes, lead', r, hl', hr⟩ := h.canEnd_leader hl (h.flight.follows l lead hl joins.leads)
    refine CanEnd.after es hes ?_
    obtain ⟨call', hc', hj'⟩ := runFrom_joined (V := V) es hc
    obtain ⟨lead'', hl'', joins'⟩ := (h.runFrom es).flight.joined c call' l hc' (hj'.trans hj)
    rw [hl'] at hl''
    cases hl''
    obtain ⟨hf, hlead | ⟨f, hfut⟩⟩ | ⟨r', hr', -⟩ := joins'.phase
    · rw [hr] at hlead
      cases hlead
    · refine CanEnd.next .follow rfl (CanEnd.ended (?_ : _ = some { call' with phase := .done (V.followed f) }) rfl)
      simp [State.step, State.stepCall, hc', hf, hl', hfut]
    · exact CanEnd.ended hc' hr'

/-! ### The service -/

variable (V) in
/-- What a follower makes of the outcome that its leader ends with. -/
def shared : Except E A → Except E A
  | .ok a => .ok a
  | .error e => .error (if V.isTimeout e then e else V.freshException e)

theorem shared_settled (f : Except E St) : shared V (V.settled f) = V.followed f := by
  cases f <;> rfl

variable (V) in
/-- What the service keeps of every key and every call. -/
structure SingleFlight (s : State Item K A St E) : Prop where
  /-- At most one call encodes a key. -/
  single : ∀ k c c' call call', s.calls c = some call → s.calls c' = some call' → call.key = some k →
    call'.key = some k → call.phase.guarded = true → call'.phase.guarded = true → c = c'
  /-- A follower waits for a leader of its key that will complete its future, or has; and ends with the outcome of the
  leader, unless its wait reached `timeout_s`. -/
  follower : ∀ c call l, s.calls c = some call → call.joined = some l → ∃ lead, s.calls l = some lead ∧
    lead.key = call.key ∧
    (call.phase = .following l ∧ (lead.phase.leading = true ∨ ∃ f, lead.leaderFuture = some f) ∨
      ∃ r, call.phase = .done r ∧ (call.expired = true ∧ r = .error V.timeoutError ∨
        ∃ r', lead.phase = .done r' ∧ r = shared V r'))
  /-- A call returns what was encoded for its item, or for an item with its key. -/
  returned : ∀ c call a, s.calls c = some call → call.phase = .done (.ok a) → match call.key with
    | none => Encoded s.answers call.item a
    | some k => ∃ st, Made V s k st ∧ a = V.loadArtifact st
  /-- A queued item waits in the queue or with the worker, and gets its own artifact or exception. -/
  queued : ∀ c call, s.calls c = some call → call.phase = .queued → call.batchFuture = none →
    (call.item, c) ∈ s.batchQueue ++ s.worker.holds
  own : ∀ c call r, s.calls c = some call → call.batchFuture = some r →
    ∃ o, Own V s.answers call.item o ∧ r = V.delivered o
  cached : ∀ k e, s.cache.cache.get? k = some e → ∃ item, (item, k, e.data) ∈ s.validated
  /-- A key without a call in progress is not in flight. -/
  cleared : ∀ k, (∀ c call, s.calls c = some call → call.key = some k → ∃ r, call.phase = .done r) →
    s.inflight.get? k = none
  ends : ∀ c call, s.calls c = some call → CanEnd V s c

theorem Inv.singleFlight (h : Inv V s) : SingleFlight V s where
  single := by
    intro k c c' call call' hc hc' hk hk' hg hg'
    have h₁ := (h.flight.inflight k c).mpr ⟨call, hc, hk, hg⟩
    have h₂ := (h.flight.inflight k c').mpr ⟨call', hc', hk', hg'⟩
    rw [h₁] at h₂
    exact Option.some.inj h₂
  follower := by
    intro c call l hc hj
    obtain ⟨lead, hl, joins⟩ := h.flight.joined c call l hc hj
    refine ⟨lead, hl, joins.key, ?_⟩
    obtain hwait | ⟨r, hr, hexp | ⟨f, hf, hrf⟩⟩ := joins.phase
    · exact .inl hwait
    · exact .inr ⟨r, hr, .inl hexp⟩
    · exact .inr ⟨r, hr, .inr ⟨V.settled f, h.flight.future l lead f hl hf, hrf.trans (shared_settled f).symm⟩⟩
  returned := by
    intro c call a hc hp
    have sound := (h.origin.calls c call hc).phase
    rw [hp] at sound
    exact sound
  queued := h.live
  own := fun c call r hc hr => (h.origin.calls c call hc).queued r hr
  cached := fun k e hk => (h.origin.cache k e hk).2
  cleared := by
    intro k hdone
    cases hin : s.inflight.get? k with
    | none => rfl
    | some c =>
      obtain ⟨call, hc, hk, hg⟩ := (h.flight.inflight k c).mp hin
      obtain ⟨r, hr⟩ := hdone c call hc hk
      rw [hr] at hg
      cases hg
  ends := fun _ _ hc => h.canEnd hc

/-- **The reference encoder is single flight and never poisons a key**, over every history of calls, hook outcomes and
steps of the worker. -/
theorem single_flight (V : Service A St E) (es : List (Event Item K A E)) : SingleFlight V (runs V es) :=
  (Inv.initial.runFrom es).singleFlight

/-- Exceptions up to 9 are `Exception`s; 0 is a timeout. -/
def exampleService (batching : Bool) : Service Nat Nat Nat where
  batching := batching
  maxBatchSize := 2
  limits := {}
  sizeFn := fun _ => 1
  storeArtifact := id
  loadArtifact := id
  freshException := id
  isException := fun e => e ≤ 9
  isTimeout := fun e => e == 0
  timeoutError := 0

/-- A follower's wait can end before its leader returns; and an exception that is no `Exception`, raised for one item of
a batch that is encoded item by item, replaces the artifact of another. -/
theorem outcomes_may_differ :
    (∃ es : List (Event Nat Nat Nat Nat), ∃ call lead, (runs (exampleService false) es).calls 1 = some call ∧
      (runs (exampleService false) es).calls 0 = some lead ∧ call.joined = some 0 ∧
      lead.phase = .done (.ok 5) ∧ call.phase = .done (.error 0)) ∧
    (∃ es : List (Event Nat Nat Nat Nat), ∃ call, (runs (exampleService true) es).calls 0 = some call ∧
      call.batchFuture = some (.error 99) ∧
      (runs (exampleService true) es).answers = [.one 2 (.error 99), .one 1 (.ok 5), .batch [1, 2] (.error 3)]) := by
  constructor
  · exact ⟨[.call 0 1 (some 7), .call 1 1 (some 7), .onCall 1 .timeout, .onCall 0 (.encodeOne (.ok 5)),
      .onCall 0 (.store none), .onCall 0 (.revalidate (.ok true)), .onCall 0 (.publish none), .onCall 0 .settle],
      _, _, rfl, rfl, rfl, rfl, rfl⟩
  · exact ⟨[.call 0 1 (some 7), .call 1 2 (some 8), .onCall 0 .enqueue, .onCall 1 .enqueue, .onWorker .take,
      .onWorker .take, .onWorker .startBatch, .onWorker (.encodeBatch (.error 3)), .onWorker (.retryOne (.ok 5)),
      .onWorker (.retryOne (.error 99)), .onWorker .deliver], _, rfl, rfl, rfl⟩

end State
end SglangOmni.Scheduling.ReferenceEncoder
