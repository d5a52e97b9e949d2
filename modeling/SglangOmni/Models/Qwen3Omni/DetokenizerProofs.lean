import SglangOmni.Models.Qwen3Omni.Detokenizer
import Mathlib.Data.List.Induction

/-! When the detokenizer ends a request once.

The messages of a request move it through a few phases, which the messages of other requests keep. What a failed request
leaves behind is nothing at all, so a chunk or a payload that comes after the failure starts the request anew; and an
end of the stream that was noted can be dropped again before the payload comes. Where neither happens, the request ends
once, and where one happens it does not (`ends_once_iff`). -/
namespace SglangOmni.Models.Qwen3Omni.Detokenizer
open Lib

variable {K P R E : Type} {events : List (Event K P E)}

/-! ### What is said of a request -/

def Message.payload? : Message P E → Option P
  | .newRequest payload => some payload
  | .streamChunk _ | .streamDone => none

def Message.token? : Message P E → Option Int
  | .streamChunk item => item.toOption
  | .newRequest _ | .streamDone => none

def Message.isChunk : Message P E → Bool
  | .streamChunk _ => true
  | .newRequest _ | .streamDone => false

def Message.isDone : Message P E → Bool
  | .streamDone => true
  | .newRequest _ | .streamChunk _ => false

/-- What the tokens of some groups decode to, where that is not empty. -/
def deltas (calls : Calls P R E) (groups : List (List Int)) : List Text := (groups.map calls.decode).filter (· ≠ [])

/-- A streaming request: one payload, one end of the stream, and the chunks before that end. -/
structure UsedOnce (calls : Calls P R E) (payload : P) (msgs : List (Message P E)) : Prop where
  payloads : msgs.filterMap Message.payload? = [payload]
  streams : calls.isStreaming payload = .ok true
  dones : msgs.countP Message.isDone = 1
  chunks_first : msgs.Pairwise fun a b => a.isDone → ¬b.isChunk

variable [DecidableEq K]

/-- The messages of one request. -/
def messagesOf (requestId : K) (events : List (Event K P E)) : List (Message P E) :=
  events.filterMap fun
    | .message other msg _ => if other = requestId then some msg else none
    | .abort _ => none

/-- A handler call for the request raised. -/
def Failed (requestId : K) (s : Scheduler K P R E) : Prop := ∃ e, .error e ∈ s.outboxOf requestId

/-- The scheduler knows of the request. -/
def Known (requestId : K) (s : Scheduler K P R E) : Prop :=
  (s.state.get? requestId).isSome ∨ (s.doneSeen.get? requestId).isSome

/-- The scheduler after some events. -/
abbrev after (calls : Calls P R E) (events : List (Event K P E)) : Scheduler K P R E :=
  Lib.run (Scheduler.step calls) {} events

/-- Deltas of consecutive groups of tokens, then one terminal message; and nothing is left of a request that is over. -/
structure EndsOnce (calls : Calls P R E) (requestId : K) (payload : P) (events : List (Event K P E)) : Prop where
  outbox : ∃ groups last, (after calls events).outboxOf requestId = (deltas calls groups).map .stream ++ [last] ∧
    (∀ group ∈ groups, group ≠ []) ∧
    ((last = .result payload (calls.buildResult payload true) ∧
        groups.flatten = (messagesOf requestId events).filterMap Message.token?) ∨
      ∃ e, last = .error e ∧ groups.flatten <+: (messagesOf requestId events).filterMap Message.token?)
  closed : ∀ before rest, events = before ++ rest →
    Failed requestId (after calls before) ∨
      ((∃ p, .newRequest p ∈ messagesOf requestId before) ∧ .streamDone ∈ messagesOf requestId before) →
    (after calls before).state.get? requestId = none

/-- After a failure at most the end of the stream is handled, and an end that was handled before the payload is known of
when the payload is. -/
def Undisturbed (calls : Calls P R E) (requestId : K) (events : List (Event K P E)) : Prop :=
  ∀ before msg faults rest, events = before ++ .message requestId msg faults :: rest →
    (msg.isDone = true ∨ ¬Failed requestId (after calls before)) ∧
    (∀ p, msg = .newRequest p → .streamDone ∈ messagesOf requestId before → Known requestId (after calls before))

/-! ### What was delivered -/

/-- What was put are the deltas of groups of tokens, and some tokens are kept. -/
def Delivered (calls : Calls P R E) (outs : List (Outgoing P R E)) (tokens kept : List Int) : Prop :=
  ∃ groups, Releases [] tokens groups kept ∧ outs = (deltas calls groups).map .stream

variable {calls : Calls P R E} {faults : Faults E} {requestId : K} {payload : P} {s : Scheduler K P R E}

namespace Delivered
variable {outs : List (Outgoing P R E)} {tokens kept : List Int}

theorem nothing : Delivered calls [] [] [] := ⟨[], .nothing [], rfl⟩

theorem hold (h : Delivered calls outs tokens kept) (more : List Int) :
    Delivered calls outs (tokens ++ more) (kept ++ more) := by
  obtain ⟨groups, hgroups, houts⟩ := h
  refine ⟨groups ++ [], hgroups.trans (.keep kept more), ?_⟩
  rw [List.append_nil]
  exact houts

/-- All that is kept is decoded. -/
theorem release (h : Delivered calls outs tokens kept) (hne : kept ≠ []) :
    Delivered calls (outs ++ if calls.decode kept = [] then [] else [.stream (calls.decode kept)]) tokens [] := by
  obtain ⟨groups, hgroups, rfl⟩ := h
  have hall : Releases kept [] [kept] [] := by
    have hkept := @Releases.all _ kept [] (by simpa using hne)
    rwa [List.append_nil] at hkept
  have htrans := hgroups.trans hall
  rw [List.append_nil] at htrans
  refine ⟨groups ++ [kept], htrans, ?_⟩
  simp only [deltas, List.map_append, List.filter_append, List.map_cons, List.map_nil]
  by_cases hempty : calls.decode kept = []
  · simp [hempty]
  · simp [hempty]

theorem no_error (h : Delivered calls outs tokens kept) : ∀ e, .error e ∉ outs := by
  obtain ⟨groups, _, rfl⟩ := h
  simp

end Delivered

/-! ### The phases of a request -/

/-- Where a request is, by what was handled of it: its payload, whether its stream has ended, and its tokens. -/
inductive Phase (calls : Calls P R E) (requestId : K) (s : Scheduler K P R E) : Option P → Bool → List Int → Prop where
  | fresh (entry : s.state.get? requestId = none) (latched : s.doneSeen.get? requestId = none)
      (outs : s.outboxOf requestId = []) : Phase calls requestId s none false []
  | running {st : RequestState P} {tokens : List Int} (entry : s.state.get? requestId = some st)
      (latched : s.doneSeen.get? requestId = none) (going : st.payload = none ∨ st.done = false)
      (delivered : Delivered calls (s.outboxOf requestId) tokens st.pendingTokens) :
      Phase calls requestId s st.payload st.done tokens
  | latched (entry : s.state.get? requestId = none) (outs : s.outboxOf requestId = []) :
      Phase calls requestId s none true []
  | finished {payload : P} {tokens : List Int} {outs : List (Outgoing P R E)} (entry : s.state.get? requestId = none)
      (delivered : Delivered calls outs tokens [])
      (outs_eq : s.outboxOf requestId = outs ++ [.result payload (calls.buildResult payload true)]) :
      Phase calls requestId s (some payload) true tokens
  | failed {payload : Option P} {done : Bool} {tokens kept : List Int} {outs : List (Outgoing P R E)} {e : E}
      (entry : s.state.get? requestId = none) (delivered : Delivered calls outs tokens kept)
      (outs_eq : s.outboxOf requestId = outs ++ [.error e]) : Phase calls requestId s payload done tokens

/-- Only deltas were put when a handler raised. -/
def Broken (calls : Calls P R E) (requestId : K) (tokens : List Int) (s : Scheduler K P R E) : Prop :=
  ∃ kept, Delivered calls (s.outboxOf requestId) tokens kept

/-- A request that is not over, with what the next handler takes for its entry. -/
structure Ready (calls : Calls P R E) (requestId : K) (st : RequestState P) (tokens : List Int)
    (s : Scheduler K P R E) :
    Prop where
  entry : (s.state.get? requestId).getD {} = st
  latched : s.doneSeen.get? requestId = none
  delivered : Delivered calls (s.outboxOf requestId) tokens st.pendingTokens

/-- A request whose entry was dropped. -/
structure Closing (calls : Calls P R E) (requestId : K) (tokens kept : List Int) (s : Scheduler K P R E) : Prop where
  entry : s.state.get? requestId = none
  delivered : Delivered calls (s.outboxOf requestId) tokens kept

theorem outboxOf_put (s : Scheduler K P R E) (requestId : K) (outs : List (Outgoing P R E)) :
    Scheduler.outboxOf { s with outbox := s.outbox ++ outs.map fun out => (requestId, out) } requestId =
      s.outboxOf requestId ++ outs := by
  rw [Scheduler.outboxOf, List.filterMap_append, List.filterMap_map]
  congr 1
  simp

omit [DecidableEq K] in
/-- A delta is put, if there is text. -/
theorem meets_putText {P' Q : Scheduler K P R E → Prop} {R' : Scheduler K P R E → Prop} (requestId : K) (text : Text)
    (h : ∀ s, P' s → Q { s with outbox := s.outbox ++
      (if text = [] then [] else [.stream text]).map fun out => (requestId, out) }) :
    Meets P' (putText requestId text) (fun _ => Q) R' := by
  unfold putText
  refine Meets.ite (fun hempty => Meets.pure fun s hs => ?_) fun htext => Meets.modify fun s hs => ?_
  · have hput := h s hs
    rw [if_pos hempty, List.map_nil, List.append_nil] at hput
    exact hput
  · have hput := h s hs
    rw [if_neg htext] at hput
    exact hput

theorem meets_raiseIf {σ : Type} {P' Q : σ → Prop} {fault : Option E} (hok : ∀ s, P' s → Q s) :
    Meets P' (raiseIf fault) (fun _ => Q) P' := by
  cases fault with
  | none => exact Meets.pure hok
  | some e => exact Meets.throw fun _ h => h

section
variable {tokens kept : List Int} {st : RequestState P}

theorem Closing.broken (h : Closing calls requestId tokens kept s) : Broken calls requestId tokens s :=
  ⟨kept, h.delivered⟩

theorem meets_flushPending (st : RequestState P) :
    Meets (Closing calls requestId tokens st.pendingTokens) (flushPending calls faults requestId st)
      (fun _ => Closing calls requestId tokens []) (Broken calls requestId tokens) := by
  unfold flushPending
  refine Meets.ite (fun hempty => Meets.pure fun s hs => hempty ▸ hs) fun hpending => ?_
  refine Meets.bind ((meets_raiseIf fun _ hs => hs).weaken (fun _ hs => hs) (fun _ _ hs => hs) fun _ => Closing.broken)
    fun _ => meets_putText requestId _ fun s hs => ⟨hs.entry, ?_⟩
  rw [outboxOf_put]
  exact hs.delivered.release hpending

theorem meets_putResult (hstream : calls.isStreaming payload = .ok true) :
    Meets (Closing calls requestId tokens []) (putResult calls faults requestId payload)
      (fun _ s => Phase calls requestId s (some payload) true tokens) (Broken calls requestId tokens) := by
  unfold putResult
  refine Meets.bind (Q := fun isStreaming s => isStreaming = true ∧ Closing calls requestId tokens [] s) ?_
    fun isStreaming => ?_
  · refine Meets.fromExcept id (fun isStreaming s heq hs => ⟨?_, hs⟩) fun s => Closing.broken
    exact Except.ok.inj (heq.symm.trans hstream)
  refine Meets.bind ((meets_raiseIf fun _ hs => hs).weaken (fun _ hs => hs) (fun _ _ hs => hs) fun _ hs => hs.2.broken)
    fun _ => Meets.modify fun s hs => ?_
  obtain ⟨rfl, hs⟩ := hs
  exact .finished hs.entry hs.delivered (outboxOf_put s requestId [_])

/-- **The terminal message** of a request that is over. -/
theorem meets_finalize (hpayload : st.payload = some payload) (hstream : calls.isStreaming payload = .ok true) :
    Meets (fun s => s.state.get? requestId = some st ∧ Delivered calls (s.outboxOf requestId) tokens st.pendingTokens)
      (finalize calls faults requestId) (fun _ s => Phase calls requestId s (some payload) true tokens)
      (Broken calls requestId tokens) := by
  unfold finalize
  refine Meets.read fun s hs => ?_
  obtain ⟨hentry, hdelivered⟩ := hs
  refine Meets.bind (Q := fun _ => Closing calls requestId tokens st.pendingTokens)
    (Meets.modify fun t ht => ?_) fun _ => ?_
  · subst ht
    exact ⟨Dict.get?_pop_self _ _, hdelivered⟩
  · rw [hentry]
    dsimp only
    rw [hpayload]
    exact Meets.bind (meets_flushPending st) fun _ => meets_putResult hstream

theorem meets_onStreamChunk (going : st.payload = none ∨ st.done = false) (item : Except E Int) :
    Meets (Ready calls requestId st tokens) (onStreamChunk calls faults requestId item)
      (fun _ s => Phase calls requestId s st.payload st.done (tokens ++ item.toOption.toList))
      (Broken calls requestId (tokens ++ item.toOption.toList)) := by
  unfold onStreamChunk
  cases item with
  | error e =>
    refine Meets.bind (Q := fun _ _ => False) (Meets.throw fun s hs => ?_) fun _ _ hs => hs.elim
    exact ⟨st.pendingTokens, by simpa [Except.toOption] using hs.delivered⟩
  | ok tokenId =>
    refine Meets.bind (Q := fun a s => a = tokenId ∧ Ready calls requestId st tokens s)
      (Meets.pure fun s hs => ⟨rfl, hs⟩) fun a => Meets.read fun s hs => ?_
    obtain ⟨rfl, hentry, hlatched, hdelivered⟩ := hs
    rw [hentry]
    have hheld := hdelivered.hold [a]
    refine Meets.bind (Q := fun _ t => t = { s with
      state := s.state.set requestId { st with pendingTokens := st.pendingTokens ++ [a] } })
      (Meets.modify fun t ht => by rw [ht]) fun _ => ?_
    refine Meets.bind (Meets.weaken (meets_raiseIf fun _ ht => ht) (fun _ ht => ht) (fun _ _ ht => ht) fun t ht => ?_)
      fun _ => ?_
    · subst ht
      exact ⟨_, hheld⟩
    refine Meets.ite (fun _ => Meets.pure fun t ht => ?_) fun _ => ?_
    · subst ht
      exact @Phase.running _ _ _ _ _ _ _ _ { st with pendingTokens := st.pendingTokens ++ [a] } _
        (Dict.get?_set_self ..)
        hlatched going hheld
    refine Meets.bind (Q := fun _ t => t = { s with state := s.state.set requestId { st with pendingTokens := [] } })
      (Meets.modify fun t ht => ?_) fun _ => meets_putText requestId _ fun t ht => ?_
    · rw [ht, Dict.set_set]
    · subst ht
      refine @Phase.running _ _ _ _ _ _ _ _ { st with pendingTokens := [] } _ (Dict.get?_set_self ..) hlatched going ?_
      rw [outboxOf_put]
      exact hheld.release (List.concat_ne_nil _ _)

/-- The payload of a streaming request; its stream has ended when the entry says so, or a note. -/
theorem meets_onNewRequest {done : Bool} (hstream : calls.isStreaming payload = .ok true) :
    Meets (fun s => (s.state.get? requestId).getD {} = st ∧ (st.done || s.doneSeen.contains requestId) = done ∧
        Delivered calls (s.outboxOf requestId) tokens st.pendingTokens)
      (onNewRequest calls faults requestId payload)
      (fun _ s => Phase calls requestId s (some payload) done tokens) (Broken calls requestId tokens) := by
  unfold onNewRequest
  refine Meets.read fun s hs => ?_
  obtain ⟨hentry, rfl, hdelivered⟩ := hs
  rw [hentry]
  dsimp only
  generalize hdone : (st.done || s.doneSeen.contains requestId) = done
  refine Meets.bind (Q := fun _ t => t.state.get? requestId = some { st with payload := some payload, done := done } ∧
    t.doneSeen.get? requestId = none ∧ Delivered calls (t.outboxOf requestId) tokens st.pendingTokens)
    (Meets.set fun t ht => ⟨Dict.get?_set_self .., Dict.get?_pop_self .., ?_⟩) fun _ => ?_
  · exact hdelivered
  refine Meets.bind (Q := fun isStreaming t => isStreaming = true ∧
    t.state.get? requestId = some { st with payload := some payload, done := done } ∧
    t.doneSeen.get? requestId = none ∧
      Delivered calls (t.outboxOf requestId) tokens st.pendingTokens) ?_ fun isStreaming => ?_
  · refine Meets.fromExcept id (fun isStreaming t heq ht => ⟨Except.ok.inj (heq.symm.trans hstream), ht⟩) fun t ht => ?_
    exact ⟨_, ht.2.2⟩
  refine Meets.ite (fun hover => ?_) fun hopen => Meets.pure fun t ht => ?_
  · intro t ht
    obtain ⟨rfl, hnew, _, hput⟩ := ht
    obtain rfl : done = true := by simpa using hover
    exact @meets_finalize _ _ _ _ _ _ _ _ _ _ { st with payload := some payload, done := true } rfl hstream
      t ⟨hnew, hput⟩
  · obtain ⟨rfl, hnew, hlatched, hput⟩ := ht
    have hstill : done = false := by simpa using hopen
    exact Phase.running hnew hlatched (.inr hstill) hput

theorem meets_onStreamDone
    (hstream : ∀ payload, st.payload = some payload → calls.isStreaming payload = .ok true) :
    Meets (fun s => s.state.get? requestId = some st ∧ s.doneSeen.get? requestId = none ∧
        Delivered calls (s.outboxOf requestId) tokens st.pendingTokens)
      (onStreamDone calls faults requestId) (fun _ s => Phase calls requestId s st.payload true tokens)
      (Broken calls requestId tokens) := by
  unfold onStreamDone
  refine Meets.read fun s hs => ?_
  obtain ⟨hentry, hlatched, hdelivered⟩ := hs
  rw [hentry]
  refine Meets.bind (Q := fun _ t => t.state.get? requestId = some { st with done := true } ∧
    t.doneSeen.get? requestId = none ∧ Delivered calls (t.outboxOf requestId) tokens st.pendingTokens)
    (Meets.modify fun t ht => ⟨Dict.get?_set_self .., ht ▸ hlatched, ht ▸ hdelivered⟩) fun _ => ?_
  refine Meets.ite (fun hpaid => ?_) fun hunpaid => Meets.pure fun t ht => ?_
  · obtain ⟨payload, hpayload⟩ := Option.isSome_iff_exists.mp hpaid
    have hmeets := @meets_finalize _ _ _ _ _ calls faults requestId _ tokens { st with done := true } hpayload
      (hstream payload hpayload)
    exact hmeets.weaken (fun _ ht => ⟨ht.1, ht.2.2⟩) (fun _ _ ht => by rw [hpayload]; exact ht) fun _ ht => ht
  · have hnone : st.payload = none := by simpa using hunpaid
    exact @Phase.running _ _ _ _ _ _ _ _ { st with done := true } _ ht.1 ht.2.1 (.inl hnone) ht.2.2

/-- What a handler raises is caught. -/
theorem Phase.handle {P' : Scheduler K P R E → Prop} {msg : Message P E} {paid : Option P} {done : Bool}
    (h : Meets P' (dispatch calls faults requestId msg) (fun _ s => Phase calls requestId s paid done tokens)
      (Broken calls requestId tokens)) (hs : P' s) :
    Phase calls requestId (s.step calls (.message requestId msg faults)) paid done tokens := by
  have hcaught : Meets P' (handleMessage calls faults requestId msg)
      (fun _ s => Phase calls requestId s paid done tokens) (fun s => Phase calls requestId s paid done tokens) := by
    refine Meets.catching h fun e => Meets.bind (Q := fun _ s => ∃ kept, Closing calls requestId tokens kept s)
      (Meets.modify fun s hs => ?_) fun _ => Meets.modify fun s hs => ?_
    · obtain ⟨kept, hkept⟩ := hs
      exact ⟨kept, Dict.get?_pop_self _ _, hkept⟩
    · obtain ⟨kept, hclosing⟩ := hs
      exact .failed hclosing.entry hclosing.delivered (outboxOf_put s requestId [_])
  exact hcaught.stateOf hs

omit [DecidableEq K] in
theorem Delivered.of_nil {outs : List (Outgoing P R E)} (h : outs = []) : Delivered calls outs [] [] := h ▸ .nothing

theorem failed_of_eq {outs : List (Outgoing P R E)} {e : E} (h : s.outboxOf requestId = outs ++ [.error e]) :
    Failed requestId s := ⟨e, by rw [h]; exact List.mem_append_right _ List.mem_cons_self⟩

/-- A message of the request moves its phase. -/
theorem Phase.message {paid : Option P} {done : Bool} (h : Phase calls requestId s paid done tokens) (msg : Message P E)
    (faults : Faults E) (hquiet : msg.isDone = true ∨ ¬Failed requestId s)
    (hopen : done = false ∨ ∃ p, msg = .newRequest p)
    (hnew : ∀ p, msg = .newRequest p → paid = none ∧ (done = true → Known requestId s))
    (hstream : ∀ p, paid = some p ∨ msg = .newRequest p → calls.isStreaming p = .ok true) :
    Phase calls requestId (s.step calls (.message requestId msg faults)) (paid.or msg.payload?) (done || msg.isDone)
      (tokens ++ msg.token?.toList) := by
  cases msg with
  | streamChunk item =>
    have hdone : done = false := hopen.resolve_right (by rintro ⟨_, ⟨⟩⟩)
    have hunfailed : ¬Failed requestId s := hquiet.resolve_left Bool.false_ne_true
    simp only [Message.payload?, Message.isDone, Message.token?, Option.or_none, Bool.or_false]
    cases h with
    | fresh entry latched outs =>
      exact Phase.handle (@meets_onStreamChunk _ _ _ _ _ _ _ _ _ {} (.inl rfl) item)
        ⟨by rw [entry]; rfl, latched, .of_nil outs⟩
    | running entry latched going delivered =>
      exact Phase.handle (meets_onStreamChunk going item) ⟨by rw [entry]; rfl, latched, delivered⟩
    | latched => cases hdone
    | finished => cases hdone
    | failed entry delivered outs_eq => exact absurd (failed_of_eq outs_eq) hunfailed
  | newRequest p =>
    obtain ⟨rfl, hknown⟩ := hnew p rfl
    have hunfailed : ¬Failed requestId s := hquiet.resolve_left Bool.false_ne_true
    have hstreams := hstream p (.inr rfl)
    simp only [Message.payload?, Message.isDone, Message.token?, Option.none_or, Bool.or_false, Option.toList_none,
      List.append_nil]
    have hseen : s.doneSeen.get? requestId = none → s.doneSeen.contains requestId = false := fun hlatched => by
      rw [Dict.contains, hlatched]
      rfl
    generalize hpaid : (none : Option P) = paid at h
    cases h with
    | fresh entry latched outs =>
      exact Phase.handle (@meets_onNewRequest _ _ _ _ _ _ _ _ p _ {} _ hstreams)
        ⟨by rw [entry]; rfl, by rw [hseen latched]; rfl, .of_nil outs⟩
    | running entry latched going delivered =>
      exact Phase.handle (meets_onNewRequest hstreams)
        ⟨by rw [entry]; rfl, by rw [hseen latched, Bool.or_false], delivered⟩
    | latched entry outs =>
      have hlatched : s.doneSeen.contains requestId = true :=
        (hknown rfl).resolve_left (by rw [entry]; exact Bool.false_ne_true)
      exact Phase.handle (@meets_onNewRequest _ _ _ _ _ _ _ _ p _ {} _ hstreams)
        ⟨by rw [entry]; rfl, by rw [hlatched]; rfl, .of_nil outs⟩
    | finished => cases hpaid
    | failed entry delivered outs_eq => exact absurd (failed_of_eq outs_eq) hunfailed
  | streamDone =>
    have hdone : done = false := hopen.resolve_right (by rintro ⟨_, ⟨⟩⟩)
    have hlatch : s.state.get? requestId = none →
        (s.step calls (.message requestId .streamDone faults)).state = s.state ∧
          (s.step calls (.message requestId .streamDone faults)).outbox = s.outbox := by
      intro hentry
      simp only [Scheduler.step, handleMessage, dispatch, onStreamDone, catching, bind_apply, get_apply, hentry, latch,
        modify_apply, stateOf_ok, and_self]
    simp only [Message.payload?, Message.isDone, Message.token?, Option.or_none, Bool.or_true, Option.toList_none,
      List.append_nil]
    cases h with
    | fresh entry latched outs =>
      obtain ⟨hstate, houts⟩ := hlatch entry
      exact .latched (hstate ▸ entry) (by rw [Scheduler.outboxOf, houts]; exact outs)
    | running entry latched going delivered =>
      exact Phase.handle (meets_onStreamDone fun p hp => hstream p (.inl hp)) ⟨entry, latched, delivered⟩
    | latched => cases hdone
    | finished => cases hdone
    | failed entry delivered outs_eq =>
      obtain ⟨hstate, houts⟩ := hlatch entry
      exact .failed (hstate ▸ entry) delivered (by rw [Scheduler.outboxOf, houts]; exact outs_eq)

end

/-! ### What a handler leaves alone -/

/-- What holds whatever becomes of the own entry of a request, and whatever is put for it. -/
structure Frame (requestId : K) (I : Scheduler K P R E → Prop) : Prop where
  put : ∀ s out, I s → I { s with outbox := s.outbox ++ [(requestId, out)] }
  tables : ∀ s state doneSeen, (∀ other, other ≠ requestId → state.get? other = s.state.get? other) →
    (∀ other, other ≠ requestId → s.doneSeen.get? other = none → doneSeen.get? other = none) → I s →
    I { s with state := state, doneSeen := doneSeen }

section
variable {I : Scheduler K P R E → Prop} (hI : Frame requestId I)
include hI

theorem Frame.setState (st : RequestState P) : Keeps I (setState (R := R) (E := E) requestId st) :=
  Keeps.modify fun s => hI.tables s _ s.doneSeen (fun _ hne => Dict.get?_set_ne _ _ hne) fun _ _ h => h

theorem Frame.abort : Keeps I (abort (P := P) (R := R) (E := E) requestId) :=
  Keeps.modify fun s => hI.tables s _ _ (fun _ hne => Dict.get?_pop_ne _ hne) fun _ hne h =>
    (Dict.get?_pop_ne _ hne).trans h

theorem Frame.putText (text : Text) : Keeps I (putText requestId text) := by
  unfold SglangOmni.Models.Qwen3Omni.Detokenizer.putText
  exact Meets.ite (fun _ => Keeps.pure _) fun _ => Keeps.modify fun s => hI.put s _

theorem Frame.finalize : Keeps I (finalize calls faults requestId) := by
  refine Keeps.read fun s => Keeps.bind hI.abort fun _ => ?_
  split
  · exact Keeps.pure _
  · split
    · exact Keeps.pure _
    · refine Keeps.bind (Meets.ite (fun _ => Keeps.pure _) fun _ => Keeps.bind (meets_raiseIf fun _ h => h) fun _ =>
        hI.putText _) fun _ => ?_
      exact Keeps.bind (Keeps.fromExcept _ _) fun _ => Keeps.bind (meets_raiseIf fun _ h => h) fun _ =>
        Keeps.modify fun s => hI.put s _

theorem Frame.latch : Keeps I (latch (P := P) (R := R) (E := E) requestId) := by
  refine Keeps.modify fun s => hI.tables s s.state _ (fun _ _ => rfl) fun other hne h => ?_
  have hset : (s.doneSeen.set requestId ()).get? other = none := (Dict.get?_set_ne _ _ hne).trans h
  split
  · exact Dict.get?_drop hset _
  · exact hset

/-- **A message touches its own request only.** -/
theorem Frame.handleMessage (msg : Message P E) : Keeps I (handleMessage calls faults requestId msg) := by
  refine Keeps.catching ?_ fun e => Keeps.bind hI.abort fun _ => Keeps.modify fun s => hI.put s _
  cases msg with
  | newRequest payload =>
    refine Meets.read fun s hs => Meets.bind (Q := fun _ => I) (Meets.set fun t _ => ?_) fun _ => ?_
    · exact hI.tables s _ _ (fun _ hne => Dict.get?_set_ne _ _ hne) (fun _ hne h => (Dict.get?_pop_ne _ hne).trans h) hs
    · exact Keeps.bind (Keeps.fromExcept _ _) fun _ => Meets.ite (fun _ => hI.finalize) fun _ => Keeps.pure _
  | streamChunk item =>
    refine Keeps.bind (Keeps.fromExcept _ _) fun _ => Keeps.read fun s => ?_
    refine Keeps.bind (hI.setState _) fun _ => Keeps.bind (meets_raiseIf fun _ h => h) fun _ => ?_
    exact Meets.ite (fun _ => Keeps.pure _) fun _ => Keeps.bind (hI.setState _) fun _ => hI.putText _
  | streamDone =>
    refine Keeps.read fun s => ?_
    split
    · exact hI.latch
    · exact Keeps.bind (hI.setState _) fun _ => Meets.ite (fun _ => hI.finalize) fun _ => Keeps.pure _

end

/-- What one request sees of the scheduler stays the same. -/
structure Untouched (requestId : K) (s t : Scheduler K P R E) : Prop where
  entry : t.state.get? requestId = s.state.get? requestId
  outs : t.outboxOf requestId = s.outboxOf requestId
  latched : s.doneSeen.get? requestId = none → t.doneSeen.get? requestId = none

theorem frame_untouched {other : K} (hne : requestId ≠ other) (s : Scheduler K P R E) :
    Frame other (Untouched requestId s) where
  put t out h := by
    refine ⟨h.entry, ?_, h.latched⟩
    rw [← h.outs, Scheduler.outboxOf, List.filterMap_append]
    simp [Scheduler.outboxOf, Ne.symm hne]
  tables t state doneSeen hstate hseen h :=
    ⟨(hstate requestId hne).trans h.entry, h.outs, fun hnone => hseen requestId hne (h.latched hnone)⟩

theorem Phase.untouched {paid : Option P} {done : Bool} {tokens : List Int} {t : Scheduler K P R E}
    (h : Phase calls requestId s paid done tokens) (hsame : Untouched requestId s t) :
    Phase calls requestId t paid done tokens := by
  obtain ⟨hentry, houts, hlatched⟩ := hsame
  cases h with
  | fresh entry latched outs => exact .fresh (hentry.trans entry) (hlatched latched) (houts.trans outs)
  | running entry latched going delivered =>
    exact .running (hentry.trans entry) (hlatched latched) going (houts ▸ delivered)
  | latched entry outs => exact .latched (hentry.trans entry) (houts.trans outs)
  | finished entry delivered outs_eq => exact .finished (hentry.trans entry) delivered (houts.trans outs_eq)
  | failed entry delivered outs_eq => exact .failed (hentry.trans entry) delivered (houts.trans outs_eq)

/-- An event of another request. -/
theorem untouched_step (s : Scheduler K P R E) (event : Event K P E) (habort : event ≠ .abort requestId)
    (hother : messagesOf requestId [event] = []) : Untouched requestId s (s.step calls event) := by
  have hself : Untouched requestId s s := ⟨rfl, rfl, id⟩
  cases event with
  | message other msg faults =>
    have hne : requestId ≠ other := by
      rintro rfl
      simp [messagesOf] at hother
    exact ((frame_untouched hne s).handleMessage msg).stateOf hself
  | abort other =>
    have hne : requestId ≠ other := fun he => habort (he ▸ rfl)
    exact (frame_untouched hne s).abort.stateOf hself

/-! ### Runs -/

theorem messagesOf_append (requestId : K) (a b : List (Event K P E)) :
    messagesOf requestId (a ++ b) = messagesOf requestId a ++ messagesOf requestId b := List.filterMap_append

theorem messagesOf_self (requestId : K) (msg : Message P E) (faults : Faults E) (rest : List (Event K P E)) :
    messagesOf requestId (.message requestId msg faults :: rest) = msg :: messagesOf requestId rest := by
  simp [messagesOf]

omit [DecidableEq K] in
theorem eq_streamDone {msg : Message P E} (h : msg.isDone = true) : msg = .streamDone := by
  cases msg with
  | streamDone => rfl
  | newRequest | streamChunk => exact absurd h Bool.false_ne_true

omit [DecidableEq K] in
/-- The next message of a streaming request. -/
theorem UsedOnce.next {before rest : List (Message P E)} {msg : Message P E}
    (used : UsedOnce calls payload (before ++ msg :: rest)) :
    (before.any Message.isDone = false ∨ ∃ p, msg = .newRequest p) ∧
      (∀ p, msg = .newRequest p → (before.filterMap Message.payload?).head? = none) ∧
      ∀ p, (before.filterMap Message.payload?).head? = some p ∨ msg = .newRequest p →
        calls.isStreaming p = .ok true := by
  obtain ⟨hpayloads, hstreams, hdones, hfirst⟩ := used
  rw [List.filterMap_append, List.filterMap_cons] at hpayloads
  have hmem : ∀ p, p ∈ before.filterMap Message.payload? ∨ msg.payload? = some p → p = payload := by
    intro p hp
    refine List.mem_singleton.mp (hpayloads ▸ ?_)
    rcases hp with hp | hp
    · exact List.mem_append_left _ hp
    · rw [hp]
      exact List.mem_append_right _ List.mem_cons_self
  refine ⟨?_, ?_, fun p hp => ?_⟩
  · rw [List.countP_append, List.countP_cons] at hdones
    have hbefore : before.countP Message.isDone = 0 → before.any Message.isDone = false := fun hzero => by
      refine List.any_eq_false.mpr fun a ha => ?_
      exact List.countP_eq_zero.mp hzero a ha
    cases msg with
    | newRequest p => exact .inr ⟨p, rfl⟩
    | streamDone =>
      have hself : (Message.streamDone : Message P E).isDone = true := rfl
      rw [if_pos hself] at hdones
      exact .inl (hbefore (by omega))
    | streamChunk item =>
      refine .inl (List.any_eq_false.mpr fun a ha hdone => ?_)
      exact (List.pairwise_append.mp hfirst).2.2 a ha _ List.mem_cons_self hdone rfl
  · rintro p rfl
    have hlen := congrArg List.length hpayloads
    simp only [Message.payload?, List.length_append, List.length_cons, List.length_nil] at hlen
    have hnil : before.filterMap Message.payload? = [] := List.eq_nil_of_length_eq_zero (by omega)
    rw [hnil]
    rfl
  · have heq : p = payload := hmem p (hp.imp List.mem_of_mem_head? fun h => by rw [h]; rfl)
    rw [heq]
    exact hstreams

/-- **Where the messages of a request lead**, as long as nothing disturbs it. -/
theorem phase_run (used : UsedOnce calls payload (messagesOf requestId events))
    (habort : .abort requestId ∉ events) (hquiet : Undisturbed calls requestId events)
    (before rest : List (Event K P E))
    (h : events = before ++ rest) :
    Phase calls requestId (after calls before) ((messagesOf requestId before).filterMap Message.payload?).head?
      ((messagesOf requestId before).any Message.isDone) ((messagesOf requestId before).filterMap Message.token?) := by
  induction before using List.reverseRecOn generalizing rest with
  | nil => exact .fresh rfl rfl rfl
  | append_singleton init event ih =>
    have hsplit : events = init ++ event :: rest := by rw [h, List.append_assoc]; rfl
    have hphase := ih (event :: rest) hsplit
    rw [after, run_concat, messagesOf_append]
    by_cases hother : messagesOf requestId [event] = []
    · have hne : event ≠ .abort requestId := by
        rintro rfl
        exact habort (hsplit ▸ List.mem_append_right _ List.mem_cons_self)
      rw [hother, List.append_nil]
      exact hphase.untouched (untouched_step _ event hne hother)
    · obtain ⟨msg, faults, rfl⟩ : ∃ msg faults, event = .message requestId msg faults := by
        cases event with
        | message other msg faults =>
          by_cases he : other = requestId
          · exact ⟨msg, faults, he ▸ rfl⟩
          · exact absurd (by simp [messagesOf, he]) hother
        | abort other => exact absurd rfl hother
      rw [hsplit, messagesOf_append, messagesOf_self] at used
      obtain ⟨hopen, hnone, hstream⟩ := used.next
      obtain ⟨hunfailed, hknown⟩ := hquiet init msg faults rest hsplit
      have hmoved := hphase.message msg faults hunfailed hopen (fun p hp => ⟨hnone p hp, fun hdone => ?_⟩) hstream
      · have hnil : messagesOf requestId ([] : List (Event K P E)) = [] := rfl
        rw [messagesOf_self, hnil, List.filterMap_append, List.filterMap_append, List.any_append, List.head?_append]
        convert hmoved using 1
        · cases hp : msg.payload? <;> simp [hp]
        · simp
        · cases ht : msg.token? <;> simp [ht]
      · obtain ⟨a, ha, hadone⟩ := List.any_eq_true.mp hdone
        exact hknown p hp (eq_streamDone hadone ▸ ha)

/-! ### After a failure -/

def Outgoing.isTerminal : Outgoing P R E → Bool
  | .stream _ => false
  | .result _ _ | .error _ => true

/-- How many results and errors were put for a request. -/
def terminals (requestId : K) (s : Scheduler K P R E) : Nat := (s.outboxOf requestId).countP Outgoing.isTerminal

theorem terminals_put (s : Scheduler K P R E) (requestId : K) (out : Outgoing P R E) :
    terminals requestId { s with outbox := s.outbox ++ [(requestId, out)] } =
      terminals requestId s + if out.isTerminal then 1 else 0 := by
  have hput := outboxOf_put s requestId [out]
  rw [List.map_singleton] at hput
  rw [terminals, hput, List.countP_append, List.countP_singleton]
  rfl

/-- No message is taken back. -/
theorem frame_terminals (other : K) (n : Nat) : Frame other fun s : Scheduler K P R E => n ≤ terminals requestId s where
  put s out h := by
    refine Nat.le_trans h ?_
    rw [terminals, terminals, Scheduler.outboxOf, Scheduler.outboxOf, List.filterMap_append, List.countP_append]
    exact Nat.le_add_right _ _
  tables s state doneSeen _ _ h := h

theorem frame_failed (other : K) : Frame other fun s : Scheduler K P R E => Failed requestId s where
  put s out h := by
    obtain ⟨e, he⟩ := h
    refine ⟨e, ?_⟩
    rw [Scheduler.outboxOf, List.filterMap_append]
    exact List.mem_append_left _ he
  tables s state doneSeen _ _ h := h

theorem Frame.run {I : Scheduler K P R E → Prop} (hI : ∀ other, Frame other I) (events : List (Event K P E))
    (h : I s) : I (Lib.run (Scheduler.step calls) s events) := by
  refine run_invariant h (fun t event ht => ?_) events
  cases event with
  | message other msg faults => exact ((hI other).handleMessage msg).stateOf ht
  | abort other => exact (hI other).abort.stateOf ht

section
variable {n : Nat}

theorem revives_finalize :
    Meets (fun s => (∃ st, s.state.get? requestId = some st ∧ st.payload = some payload) ∧ n ≤ terminals requestId s)
      (finalize calls faults requestId) (fun _ s => n + 1 ≤ terminals requestId s)
        (fun s => n ≤ terminals requestId s) := by
  have hkeeps := @frame_terminals K P R E _ requestId requestId n
  refine Meets.read fun s hs => ?_
  obtain ⟨⟨st, hentry, hpaid⟩, hn⟩ := hs
  refine Meets.bind (Meets.known hkeeps.abort hn) fun _ => ?_
  rw [hentry]
  dsimp only
  rw [hpaid]
  refine Meets.bind (Q := fun _ s => n ≤ terminals requestId s) ?_ fun _ => ?_
  · exact Meets.ite (fun _ => Keeps.pure _) fun _ => Keeps.bind (meets_raiseIf fun _ h => h) fun _ => hkeeps.putText _
  · refine Meets.bind (Keeps.fromExcept id _) fun _ => Meets.bind (meets_raiseIf fun _ h => h) fun _ =>
      Meets.modify fun t ht => ?_
    rw [terminals_put]
    exact Nat.add_le_add_right ht 1

/-- A chunk makes an entry. -/
theorem revives_onStreamChunk (item : Except E Int) :
    Meets (fun s => n ≤ terminals requestId s) (onStreamChunk calls faults requestId item)
      (fun _ s => (s.state.get? requestId).isSome ∧ n ≤ terminals requestId s)
        (fun s => n ≤ terminals requestId s) := by
  refine Meets.bind (Keeps.fromExcept id item) fun tokenId => Meets.read fun s hs => ?_
  have hset : ∀ st : RequestState P, Meets (fun s => n ≤ terminals requestId s)
    (setState (E := E) (R := R) requestId st)
      (fun _ s => (s.state.get? requestId).isSome ∧ n ≤ terminals requestId s) (fun s => n ≤ terminals requestId s) :=
    fun st => Meets.modify fun t ht => ⟨by rw [Dict.get?_set_self]; rfl, ht⟩
  refine Meets.bind (Meets.known (hset _) hs) fun _ => ?_
  refine Meets.bind ((meets_raiseIf fun _ h => h).weaken (fun _ h => h) (fun _ _ h => h) fun _ h => h.2) fun _ => ?_
  refine Meets.ite (fun _ => Meets.pure fun _ h => h) fun _ => ?_
  refine Meets.bind ((hset _).weaken (fun _ h => h.2) (fun _ _ h => h) fun _ h => h) fun _ =>
    meets_putText requestId _ fun t ht => ⟨ht.1, Nat.le_trans ht.2 ?_⟩
  rw [terminals, terminals, outboxOf_put, List.countP_append]
  exact Nat.le_add_right _ _

/-- A payload makes an entry, or the request ends. -/
theorem revives_onNewRequest :
    Meets (fun s => n ≤ terminals requestId s) (onNewRequest calls faults requestId payload)
      (fun _ s => (s.state.get? requestId).isSome ∨ n + 1 ≤ terminals requestId s)
      (fun s => n ≤ terminals requestId s) := by
  refine Meets.read fun s hs => Meets.bind (Q := fun _ s =>
    (∃ st, s.state.get? requestId = some st ∧ st.payload = some payload) ∧ n ≤ terminals requestId s)
    (Meets.set fun t _ => ⟨⟨_, Dict.get?_set_self .., rfl⟩, hs⟩) fun _ => ?_
  refine Meets.bind (Meets.fromExcept id (fun _ _ _ h => h) fun _ h => h.2) fun _ => Meets.ite (fun _ => ?_) fun _ => ?_
  · exact revives_finalize.weaken (fun _ h => h) (fun _ _ h => .inr h) fun _ h => h
  · refine Meets.pure fun t ht => .inl ?_
    obtain ⟨⟨st, hentry, _⟩, _⟩ := ht
    rw [hentry]
    rfl

/-- **A chunk or a payload starts a request anew**, or one more terminal message is put. -/
theorem revives {msg : Message P E} (hmsg : msg.isDone = false) (faults : Faults E)
    (h : n ≤ terminals requestId s) :
    ((s.step calls (.message requestId msg faults)).state.get? requestId).isSome ∨
      n + 1 ≤ terminals requestId (s.step calls (.message requestId msg faults)) := by
  have hdispatch : Meets (fun s => n ≤ terminals requestId s) (dispatch calls faults requestId msg)
      (fun _ s => (s.state.get? requestId).isSome ∨ n + 1 ≤ terminals requestId s)
        (fun s => n ≤ terminals requestId s) := by
    cases msg with
    | newRequest p => exact revives_onNewRequest
    | streamChunk item =>
      exact (revives_onStreamChunk item).weaken (fun _ h => h) (fun _ _ h => .inl h.1) fun _ h => h
    | streamDone => exact nomatch hmsg
  have hcaught : Meets (fun s => n ≤ terminals requestId s) (handleMessage calls faults requestId msg)
      (fun _ s => (s.state.get? requestId).isSome ∨ n + 1 ≤ terminals requestId s)
      (fun s => (s.state.get? requestId).isSome ∨ n + 1 ≤ terminals requestId s) := by
    refine Meets.catching hdispatch fun e => Meets.bind (Q := fun _ s => n ≤ terminals requestId s)
      (Meets.modify fun t ht => ht) fun _ => Meets.modify fun t ht => .inr ?_
    rw [terminals_put]
    exact Nat.add_le_add_right ht 1
  exact hcaught.stateOf h

end

/-- A payload of which nothing is known waits for the end of its stream. -/
theorem reopens (hstream : calls.isStreaming payload = .ok true) (hunknown : ¬Known requestId s) (faults : Faults E) :
    ((s.step calls (.message requestId (.newRequest payload) faults)).state.get? requestId).isSome := by
  have hentry : s.state.get? requestId = none := by
    by_contra h
    exact hunknown (.inl (Option.isSome_iff_ne_none.mpr h))
  have hlatched : s.doneSeen.contains requestId = false := by
    cases hseen : s.doneSeen.contains requestId with
    | false => rfl
    | true => exact absurd (.inr hseen) hunknown
  simp only [Scheduler.step, handleMessage, dispatch, onNewRequest, catching, bind_apply, get_apply,
    set_apply, fromExcept,
    hentry, hlatched, hstream, pure_apply, Option.getD_none, Bool.or_false, Bool.not_true, Bool.false_eq_true, if_false,
    stateOf_ok, Dict.get?_set_self, Option.isSome_some]

/-! ### Main theorem -/

theorem EndsOnce.terminals_eq (h : EndsOnce calls requestId payload events) :
    terminals requestId (after calls events) = 1 := by
  obtain ⟨groups, last, houts, _, hlast⟩ := h.outbox
  have hdeltas : ((deltas calls groups).map (Outgoing.stream (P := P) (R := R) (E := E))).countP
    Outgoing.isTerminal = 0 := by
    simp [List.countP_eq_zero, Outgoing.isTerminal]
  have hterminal : last.isTerminal = true := by
    rcases hlast with ⟨rfl, _⟩ | ⟨e, rfl, _⟩
    · rfl
    · rfl
  rw [terminals, houts, List.countP_append, hdeltas, List.countP_singleton, hterminal]
  rfl

/-- A request that is not disturbed ends once. -/
theorem Undisturbed.endsOnce (used : UsedOnce calls payload (messagesOf requestId events))
    (habort : .abort requestId ∉ events) (hquiet : Undisturbed calls requestId events) :
    EndsOnce calls requestId payload events := by
  have hphase := phase_run used habort hquiet
  constructor
  · have hend := hphase events [] (List.append_nil _).symm
    have hdone : (messagesOf requestId events).any Message.isDone = true := by
      have hpos : 0 < (messagesOf requestId events).countP Message.isDone := by rw [used.dones]; exact Nat.one_pos
      obtain ⟨a, ha, hadone⟩ := List.countP_pos_iff.mp hpos
      exact List.any_eq_true.mpr ⟨a, ha, hadone⟩
    rw [used.payloads, hdone] at hend
    generalize hpaid : [payload].head? = paid at hend
    generalize hover : true = done at hend
    generalize (messagesOf requestId events).filterMap Message.token? = tokens at hend
    cases hend with
    | fresh => exact nomatch hover
    | running entry latched going delivered =>
      rcases going with hnone | hopen
      · exact nomatch hpaid.trans hnone
      · exact nomatch hover.trans hopen
    | latched => exact nomatch hpaid
    | finished entry delivered outs_eq =>
      obtain rfl := Option.some.inj hpaid
      obtain ⟨groups, hgroups, rfl⟩ := delivered
      refine ⟨groups, _, outs_eq, hgroups.full, .inl ⟨rfl, ?_⟩⟩
      simpa using hgroups.partition.symm
    | @failed _ _ _ kept _ _ entry delivered outs_eq =>
      obtain ⟨groups, hgroups, rfl⟩ := delivered
      refine ⟨groups, _, outs_eq, hgroups.full, .inr ⟨_, rfl, kept, ?_⟩⟩
      simpa using hgroups.partition.symm
  · intro before rest hsplit hover
    have hthen := hphase before rest hsplit
    generalize hpaid : ((messagesOf requestId before).filterMap Message.payload?).head? = paid at hthen
    generalize hdone : (messagesOf requestId before).any Message.isDone = done at hthen
    generalize (messagesOf requestId before).filterMap Message.token? = tokens at hthen
    cases hthen with
    | fresh entry => exact entry
    | latched entry => exact entry
    | finished entry => exact entry
    | failed entry => exact entry
    | running entry latched going delivered =>
      rcases hover with ⟨e, he⟩ | ⟨⟨p, hp⟩, hend⟩
      · exact absurd he (delivered.no_error e)
      · rcases going with hnone | hopen
        · rw [hnone, List.head?_eq_none_iff, List.filterMap_eq_nil_iff] at hpaid
          exact nomatch hpaid _ hp
        · rw [hopen] at hdone
          exact absurd rfl (List.any_eq_false.mp hdone _ hend)

/-- **Main theorem.** A streaming request ends once, whatever raises and whatever the other requests do, if and only if
after a failure no chunk and no payload of it comes, and an early end of its stream is still known of at its payload. -/
theorem ends_once_iff {events : List (Event K P E)} (used : UsedOnce calls payload (messagesOf requestId events))
    (habort : .abort requestId ∉ events) :
    EndsOnce calls requestId payload events ↔ Undisturbed calls requestId events := by
  refine ⟨fun h before msg faults rest hsplit => ?_, Undisturbed.endsOnce used habort⟩
  have hnext : after calls (before ++ [.message requestId msg faults]) =
      (after calls before).step calls (.message requestId msg faults) := run_concat ..
  have hwhole : events = before ++ [.message requestId msg faults] ++ rest := by rw [hsplit, List.append_assoc]; rfl
  have hclosed := h.closed _ rest hwhole
  have hmsgs : messagesOf requestId (before ++ [.message requestId msg faults]) =
    messagesOf requestId before ++ [msg] := by
    rw [messagesOf_append, messagesOf_self]
    rfl
  rw [hmsgs, hnext] at hclosed
  refine ⟨?_, ?_⟩
  · by_contra hdisturbed
    obtain ⟨hmsg, hfailed⟩ : msg.isDone = false ∧ Failed requestId (after calls before) := by
      simpa [not_or] using hdisturbed
    have hone : 1 ≤ terminals requestId (after calls before) := by
      obtain ⟨e, he⟩ := hfailed
      exact List.countP_pos_iff.mpr ⟨_, he, rfl⟩
    rcases revives hmsg faults hone with hentry | htwo
    · have hstill : Failed requestId ((after calls before).step calls (.message requestId msg faults)) :=
        ((frame_failed requestId).handleMessage msg).stateOf hfailed
      rw [hclosed (.inl hstill)] at hentry
      exact nomatch hentry
    · have hrun := @Frame.run _ _ _ _ _ calls _ _ (fun other => @frame_terminals _ _ _ _ _ requestId other 2) rest htwo
      rw [← hnext, ← run_append, ← hwhole, h.terminals_eq] at hrun
      exact absurd hrun (by decide)
  · rintro p rfl hend
    by_contra hunknown
    rw [hsplit, messagesOf_append, messagesOf_self] at used
    have hentry := reopens (used.next.2.2 p (.inr rfl)) hunknown faults
    rw [hclosed (.inr ⟨⟨p, List.mem_append_right _ List.mem_cons_self⟩, List.mem_append_left _ hend⟩)] at hentry
    exact nomatch hentry

/-- Every token is a character, and every request streams. -/
def plainCalls : Calls Unit Unit Unit where
  decode tokens := tokens.map fun tokenId => Char.ofNat tokenId.toNat
  isStreaming _ := .ok true
  buildResult _ _ := ()

/-- A token, then the payload, then the end of the stream. -/
theorem ends_once_iff_one_token :
    EndsOnce plainCalls 0 () [Event.message 0 (.streamChunk (.ok 65)) {}, .message 0 (.newRequest ()) {},
      .message 0 .streamDone {}] := by
  generalize hevents : [Event.message 0 (.streamChunk (.ok 65)) {}, .message 0 (.newRequest ()) {},
    .message 0 .streamDone {}] = events
  have used : UsedOnce plainCalls () (messagesOf 0 events) := by
    subst hevents
    exact ⟨rfl, rfl, rfl, by simp [messagesOf, Message.isDone]⟩
  refine (ends_once_iff used (by simp [← hevents])).mpr fun before msg faults rest h => ?_
  have hbefore : before = events.take before.length := by rw [h, List.take_left]
  have hlen : before.length ≤ 2 := by
    have hlength := congrArg List.length (hevents.trans h)
    simp only [List.length_append, List.length_cons, List.length_nil] at hlength
    omega
  have houts : ∀ n ≤ 2, (after plainCalls (events.take n)).outboxOf 0 ∈ [[], [.stream ['A']]] ∧
      (messagesOf 0 (events.take n)).countP Message.isDone = 0 := by
    subst hevents
    decide
  obtain ⟨hout, hdone⟩ := houts before.length hlen
  rw [← hbefore] at hout hdone
  refine ⟨.inr ?_, fun p _ hend => absurd rfl (List.countP_eq_zero.mp hdone _ hend)⟩
  rintro ⟨e, he⟩
  simp only [List.mem_cons, List.not_mem_nil, or_false] at hout
  rcases hout with hout | hout <;> simp [hout] at he

/-- After a chunk that raised, the next one starts the request anew, and its result follows its error. -/
theorem failed_request_ends_again :
    let events := [Event.message 0 (.streamChunk (.ok 65)) { decode := some () }, .message 0 (.streamChunk (.ok 66)) {},
      .message 0 (.newRequest ()) {}, .message 0 .streamDone {}]
    UsedOnce plainCalls () (messagesOf 0 events) ∧ Event.abort 0 ∉ events ∧ ¬EndsOnce plainCalls 0 () events := by
  refine ⟨⟨rfl, rfl, rfl, ?_⟩, by simp, fun h => absurd h.terminals_eq (by decide)⟩
  simp [messagesOf, Message.isDone]

end SglangOmni.Models.Qwen3Omni.Detokenizer
