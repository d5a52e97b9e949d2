import SglangOmni.Models.Ming.Segmenter

/-! Every request is finished once, unless its stream ends before anything else is heard of it.

The messages of a request move it through a few phases. Each phase says what the entry in `_states` looks like and what
was put for the request so far; the messages of other requests, their aborts and the ticks of the clock keep it. -/
namespace SglangOmni.Models.Ming
open Lib

variable {K P : Type} {state : Option (RequestState P)} {msgs : List (Message P)}

/-! ### What a finished request looks like -/

/-- The id and the final mark of a segment. -/
def Outgoing.segment? : Outgoing P → Option (Nat × Bool)
  | .stream _ _ segmentId isFinalSegment _ => some (segmentId, isFinalSegment)
  | .result .. | .error => none

def Message.payload? : Message P → Option P
  | .newRequest payload => some payload
  | .streamChunk _ | .streamDone => none

def Message.isChunk : Message P → Bool
  | .streamChunk _ => true
  | .newRequest _ | .streamDone => false

def Message.isDone : Message P → Bool
  | .streamDone => true
  | .newRequest _ | .streamChunk _ => false

/-- The segments `0, 1, …`, none of them the last. -/
def Segments (outs : List (Outgoing P)) (n : Nat) : Prop :=
  outs.map Outgoing.segment? = (List.range n).map fun i => some (i, false)

/-- The segments `0, 1, …`, of which exactly the last is marked, and then the result. -/
def Finished (payload : P) (outs : List (Outgoing P)) : Prop :=
  ∃ segments, outs = segments ++ [.result (some payload) segments.length false] ∧ 0 < segments.length ∧
    segments.map Outgoing.segment? = (List.range segments.length).map fun i =>
      some (i, decide (i + 1 = segments.length))

variable [DecidableEq K]

/-- The messages of one request. -/
def messagesOf (requestId : K) (events : List (Event K P)) : List (Message P) :=
  events.filterMap fun
    | .message _ other msg => if other = requestId then some msg else none
    | .idle _ | .abort _ => none

/-- The messages of a request that is used once: one payload, one end of the stream, and the chunks before that end. -/
structure OneLife (payload : P) (msgs : List (Message P)) : Prop where
  payloads : msgs.filterMap Message.payload? = [payload]
  dones : msgs.countP Message.isDone = 1
  chunks_first : msgs.Pairwise fun a b => a.isDone → ¬ b.isChunk
  text : Message.streamChunk .wrongType ∉ msgs

/-- Every segment in order, one result, and nothing left of the request. -/
structure FinishedOnce (requestId : K) (payload : P) (s : Scheduler K P) : Prop where
  outbox : Finished payload (s.outboxOf requestId)
  closed : s.states.get? requestId = none

/-! ### The segmenter -/

theorem SegmenterState.emitReady_cases (setup : Setup) (g : SegmenterState) (nowMs : Int) :
    g.emitReady setup nowMs = ([], g) ∨ ∃ text g', g'.segmentId = g.segmentId + 1 ∧
      g.emitReady setup nowMs = ([⟨g.segmentId, text, false⟩], g') := by
  unfold emitReady
  split
  · exact .inl rfl
  · simp only
    split
    · exact .inr ⟨_, _, rfl, rfl⟩
    · split
      · exact .inr ⟨_, _, rfl, rfl⟩
      · exact .inl rfl

/-- A push emits nothing, or the next segment. -/
theorem SegmenterState.push_cases (setup : Setup) (g : SegmenterState) (text : Text) (nowMs : Int) :
    (∃ g', g'.segmentId = g.segmentId ∧ g.push setup text nowMs = ([], g')) ∨
      ∃ text' g', g'.segmentId = g.segmentId + 1 ∧ g.push setup text nowMs = ([⟨g.segmentId, text', false⟩], g') := by
  obtain h | ⟨text', g', hid, h⟩ := emitReady_cases setup { g with
    buffer := g.buffer ++ text
    firstTextMs := if text ≠ [] ∧ g.firstTextMs = none then some nowMs else g.firstTextMs } nowMs
  · refine .inl ⟨_, ?_, h⟩
    rfl
  · exact .inr ⟨text', g', hid, h⟩

theorem Segments.nil : Segments ([] : List (Outgoing P)) 0 := rfl

theorem Segments.snoc {outs : List (Outgoing P)} {n : Nat} (h : Segments outs n) (setup : Setup) (text : Text) :
    Segments (outs ++ [RequestState.emitSegment setup ⟨n, text, false⟩]) (n + 1) := by
  unfold Segments at h ⊢
  rw [List.map_append, h, List.range_succ, List.map_append]
  rfl

theorem Segments.length {outs : List (Outgoing P)} {n : Nat} (h : Segments outs n) : outs.length = n := by
  have := congrArg List.length h
  simpa using this

/-- The last segment and the result. -/
theorem Segments.finish {outs : List (Outgoing P)} {n : Nat} (h : Segments outs n) (setup : Setup) (text : Text)
    (payload : P) :
    Finished payload (outs ++ [RequestState.emitSegment setup ⟨n, text, true⟩,
      .result (some payload) (n + 1) false]) := by
  have hlen : (outs ++ [RequestState.emitSegment (P := P) setup ⟨n, text, true⟩]).length = n + 1 := by
    rw [List.length_append, h.length, List.length_singleton]
  refine ⟨outs ++ [RequestState.emitSegment setup ⟨n, text, true⟩], ?_, ?_, ?_⟩
  · rw [hlen, List.append_assoc]
    rfl
  · rw [hlen]
    exact Nat.succ_pos n
  · rw [hlen, List.map_append, h, List.range_succ, List.map_append]
    congr 1
    · apply List.map_congr_left
      intro i hi
      have hne : i ≠ n := Nat.ne_of_lt (List.mem_range.mp hi)
      simp [hne]
    · simp [RequestState.emitSegment, Outgoing.segment?]

/-! ### An entry in use -/

/-- An entry whose request is not finished, with what was put for it. -/
structure Running (payload : Option P) (done : Bool) (st : RequestState P) (outs : List (Outgoing P)) : Prop where
  payload_eq : st.payload = payload
  arrived : st.payloadArrived = payload.isSome
  streamDone : st.streamDone = done
  finalized : st.finalized = false
  aborted : st.aborted = false
  count : st.segmentCount = st.segmenter.segmentId
  segments : Segments outs st.segmentCount

namespace Running

variable {payload : Option P} {done : Bool} {st : RequestState P} {outs : List (Outgoing P)} (setup : Setup)

theorem initial : Running none false ({} : RequestState P) [] :=
  ⟨rfl, rfl, rfl, rfl, rfl, rfl, Segments.nil⟩

theorem pushText (h : Running payload done st outs) (text : Text) (nowMs : Int) :
    Running payload done (st.pushText setup text nowMs).1 (outs ++ (st.pushText setup text nowMs).2) := by
  unfold RequestState.pushText
  obtain ⟨g', hid, hpush⟩ | ⟨text', g', hid, hpush⟩ := st.segmenter.push_cases setup text nowMs
  · rw [hpush]
    simp only [RequestState.emitSegments, List.foldl_nil, List.append_nil]
    exact { h with count := h.count.trans hid.symm }
  · rw [hpush]
    simp only [RequestState.emitSegments, List.foldl_cons, List.foldl_nil, List.nil_append]
    have hcount : st.segmentCount + 1 = g'.segmentId := by rw [hid, h.count]
    refine { h with count := hcount, segments := ?_ }
    rw [← h.count]
    exact h.segments.snoc setup text'

theorem firstText (h : Running payload done st outs) (first : Option Int) :
    Running payload done { st with firstTextMs := first } outs :=
  { h with }

/-- The request is finished, whether or not there is text left. -/
theorem finalize {p : P} (h : Running (some p) done st outs) :
    (st.finalize setup).1 = none ∧ Finished p (outs ++ (st.finalize setup).2) := by
  unfold RequestState.finalize
  rw [if_neg (by simp [h.finalized])]
  refine ⟨rfl, ?_⟩
  simp only [SegmenterState.flush]
  have hcount := h.count
  split
  · simp only [↓reduceIte, List.map_cons, List.map_nil, List.length_singleton, List.singleton_append, h.payload_eq]
    exact h.segments.finish setup [] p
  · simp only [SegmenterState.emit, SegmenterState.emitText, List.cons_ne_nil, ↓reduceIte, List.map_cons, List.map_nil,
      List.length_singleton, List.singleton_append, h.payload_eq, ← hcount]
    exact h.segments.finish setup st.segmenter.buffer p

end Running

/-! ### The phases of a request -/

inductive Phase (P : Type) where
  | fresh
  /-- The stream goes on. -/
  | running (payload : Option P)
  /-- The stream has ended, and the payload is awaited. -/
  | ended
  /-- The stream has ended before there was an entry. -/
  | lost
  | finished (payload : P)
  /-- The payload has come after an end that was lost. -/
  | stuck
  /-- More messages than a request has. -/
  | strange

namespace Phase

def next : Phase P → Message P → Phase P
  | fresh, .newRequest payload => running (some payload)
  | fresh, .streamChunk _ => running none
  | fresh, .streamDone => lost
  | running none, .newRequest payload => running (some payload)
  | running payload, .streamChunk _ => running payload
  | running (some payload), .streamDone => finished payload
  | running none, .streamDone => ended
  | ended, .newRequest payload => finished payload
  | lost, .newRequest _ => stuck
  | _, _ => strange

/-- What a phase says of the entry and of the outbox. -/
def Holds : Phase P → Option (RequestState P) → List (Outgoing P) → Prop
  | fresh, state, outs => state = none ∧ outs = []
  | running payload, state, outs => ∃ st, state = some st ∧ Running payload false st outs
  | ended, state, outs => ∃ st, state = some st ∧ Running none true st outs
  | lost, state, outs => state = none ∧ outs = []
  | finished payload, state, outs => state = none ∧ Finished payload outs
  | stuck, state, outs => ∃ st, state = some st ∧ st.firstTextMs = none ∧ outs = []
  | strange, _, _ => True

end Phase

variable (setup : Setup) {ph : Phase P}

/-- A chunk of text keeps the request running. -/
theorem Running.chunk {payload : Option P} {st : RequestState P} {outs : List (Outgoing P)} {item : Chunk}
    (h : Running payload false st outs) (hst : state.getD {} = st)
    (hitem : item ≠ .wrongType) (nowMs : Int) :
    ∃ st', (RequestState.onStreamChunk setup item nowMs state).1 = some st' ∧
      Running payload false st' (outs ++ (RequestState.onStreamChunk setup item nowMs state).2) := by
  unfold RequestState.onStreamChunk
  rw [hst, if_neg (by simp [h.aborted, h.finalized])]
  cases item with
  | other => exact ⟨st, rfl, by simpa using h⟩
  | wrongType => exact absurd rfl hitem
  | bytes values =>
    simp only
    split
    · exact ⟨st, rfl, by simpa using h⟩
    · exact ⟨_, rfl, (h.firstText _).pushText setup (uint8TensorToText values) nowMs⟩

/-- The payload arrives at a request whose stream goes on. -/
theorem Running.arrive {st : RequestState P} {outs : List (Outgoing P)}
    (h : Running none false st outs) (hst : state.getD {} = st) (payload : P) :
    ∃ st', (RequestState.onNewRequest setup payload state).1 = some st' ∧
      Running (some payload) false st' (outs ++ (RequestState.onNewRequest setup payload state).2) := by
  unfold RequestState.onNewRequest
  simp only [hst]
  rw [if_neg (by simp [h.streamDone])]
  refine ⟨_, rfl, ?_⟩
  rw [List.append_nil]
  exact { h with payload_eq := rfl, arrived := rfl }

theorem Phase.message {outs : List (Outgoing P)}
    (h : ph.Holds state outs) (nowMs : Int) {msg : Message P} (hmsg : msg ≠ .streamChunk .wrongType) :
    (ph.next msg).Holds (RequestState.handleMessage setup nowMs msg state).1
      (outs ++ (RequestState.handleMessage setup nowMs msg state).2) := by
  have hitem : ∀ item, msg = .streamChunk item → item ≠ .wrongType := fun item hm hi => hmsg (hi ▸ hm)
  cases ph with
  | fresh =>
    obtain ⟨rfl, rfl⟩ := h
    cases msg with
    | newRequest payload => exact Running.initial.arrive setup rfl payload
    | streamChunk item => exact Running.initial.chunk setup rfl (hitem item rfl) nowMs
    | streamDone => exact ⟨rfl, rfl⟩
  | running payload =>
    obtain ⟨st, rfl, hst⟩ := h
    cases msg with
    | streamChunk item =>
      cases payload with
      | none | some p => exact hst.chunk setup rfl (hitem item rfl) nowMs
    | newRequest p =>
      cases payload with
      | none => exact hst.arrive setup rfl p
      | some _ => trivial
    | streamDone =>
      have hdone : Running payload true { st with streamDone := true } outs := { hst with streamDone := rfl }
      cases payload with
      | none =>
        refine ⟨{ st with streamDone := true }, ?_, ?_⟩
        · simp only [RequestState.handleMessage, RequestState.onStreamDone]
          rw [if_neg (by simp [hst.arrived])]
        · simp only [RequestState.handleMessage, RequestState.onStreamDone]
          rw [if_neg (by simp [hst.arrived]), List.append_nil]
          exact hdone
      | some p =>
        show _ ∧ _
        simp only [RequestState.handleMessage, RequestState.onStreamDone]
        rw [if_pos (by simp [hst.arrived, hst.finalized])]
        exact hdone.finalize setup
  | ended =>
    obtain ⟨st, rfl, hst⟩ := h
    cases msg with
    | newRequest p =>
      show _ ∧ _
      simp only [RequestState.handleMessage, RequestState.onNewRequest, Option.getD_some]
      rw [if_pos (by simp [hst.streamDone, hst.finalized])]
      have hpaid : Running (some p) true { st with payload := some p, payloadArrived := true } outs :=
        { hst with payload_eq := rfl, arrived := rfl }
      exact hpaid.finalize setup
    | streamChunk item => trivial
    | streamDone => trivial
  | lost =>
    obtain ⟨rfl, rfl⟩ := h
    cases msg with
    | newRequest p => exact ⟨_, rfl, rfl, rfl⟩
    | streamChunk item => trivial
    | streamDone => trivial
  | finished p => cases msg <;> trivial
  | stuck => cases msg <;> trivial
  | strange => cases msg <;> trivial

theorem Running.tick {payload : Option P} {done : Bool} {st : RequestState P} {outs : List (Outgoing P)}
    (h : Running payload done st outs) (nowMs : Int) :
    ∃ st', (RequestState.tickFirstSegmentTimeout setup nowMs (some st)).1 = some st' ∧
      Running payload done st' (outs ++ (RequestState.tickFirstSegmentTimeout setup nowMs (some st)).2) := by
  have keep : ∃ st', ((some st, []) : Option (RequestState P) × List (Outgoing P)).1 = some st' ∧
      Running payload done st' (outs ++ []) := ⟨st, rfl, by simpa using h⟩
  unfold RequestState.tickFirstSegmentTimeout
  simp only
  split
  · exact keep
  · split
    · exact keep
    · split
      · exact keep
      · split
        · exact keep
        · exact ⟨_, rfl, h.pushText setup [] nowMs⟩

theorem Phase.tick {outs : List (Outgoing P)} (h : ph.Holds state outs) (nowMs : Int) :
    ph.Holds (RequestState.tickFirstSegmentTimeout setup nowMs state).1
      (outs ++ (RequestState.tickFirstSegmentTimeout setup nowMs state).2) := by
  cases ph with
  | fresh =>
    obtain ⟨rfl, rfl⟩ := h
    exact ⟨rfl, rfl⟩
  | running payload | ended =>
    obtain ⟨st, rfl, hst⟩ := h
    exact hst.tick setup nowMs
  | lost =>
    obtain ⟨rfl, rfl⟩ := h
    exact ⟨rfl, rfl⟩
  | finished p =>
    obtain ⟨rfl, hfin⟩ := h
    exact ⟨rfl, by rw [RequestState.tickFirstSegmentTimeout, List.append_nil]; exact hfin⟩
  | stuck =>
    obtain ⟨st, rfl, hfirst, rfl⟩ := h
    refine ⟨st, ?_, hfirst, ?_⟩
    · simp only [RequestState.tickFirstSegmentTimeout, hfirst]
      split <;> rfl
    · simp only [RequestState.tickFirstSegmentTimeout, hfirst]
      split <;> rfl
  | strange => trivial

/-! ### Other requests -/

namespace Scheduler

variable {s : Scheduler K P} {requestId : K}

/-- A handler moves its own entry and adds to its own part of the outbox. -/
theorem handle_self (s : Scheduler K P) (requestId : K)
    (handler : Option (RequestState P) → Option (RequestState P) × List (Outgoing P)) :
    (s.handle requestId handler).states.get? requestId = (handler (s.states.get? requestId)).1 ∧
      (s.handle requestId handler).outboxOf requestId =
        s.outboxOf requestId ++ (handler (s.states.get? requestId)).2 := by
  unfold handle
  obtain ⟨state, outs⟩ := handler (s.states.get? requestId)
  refine ⟨?_, ?_⟩
  · cases state with
    | none => exact Dict.get?_pop_self s.states requestId
    | some st => exact Dict.get?_set_self s.states requestId st
  · simp only [outboxOf, List.filterMap_append, List.filterMap_map]
    congr 1
    simp

theorem handle_other {other : K} (hne : requestId ≠ other) (s : Scheduler K P)
    (handler : Option (RequestState P) → Option (RequestState P) × List (Outgoing P)) :
    (s.handle other handler).states.get? requestId = s.states.get? requestId ∧
      (s.handle other handler).outboxOf requestId = s.outboxOf requestId := by
  unfold handle
  obtain ⟨state, outs⟩ := handler (s.states.get? other)
  refine ⟨?_, ?_⟩
  · cases state with
    | none => exact Dict.get?_pop_ne s.states hne
    | some st => exact Dict.get?_set_ne s.states st hne
  · simp only [outboxOf, List.filterMap_append, List.filterMap_map]
    rw [List.append_right_eq_self]
    simp [Ne.symm hne]

/-- The phase of a request, in a state of the scheduler. -/
def In (s : Scheduler K P) (requestId : K) (ph : Phase P) : Prop :=
  ph.Holds (s.states.get? requestId) (s.outboxOf requestId)

theorem In.handle {ph : Phase P} {handler : Option (RequestState P) → Option (RequestState P) × List (Outgoing P)}
    (h : ph.Holds (handler (s.states.get? requestId)).1
      (s.outboxOf requestId ++ (handler (s.states.get? requestId)).2)) :
    (s.handle requestId handler).In requestId ph := by
  unfold In
  rw [(handle_self s requestId handler).1, (handle_self s requestId handler).2]
  exact h

theorem In.other {ph : Phase P} (h : s.In requestId ph) {other : K} (hne : requestId ≠ other)
    (handler : Option (RequestState P) → Option (RequestState P) × List (Outgoing P)) :
    (s.handle other handler).In requestId ph := by
  unfold In
  rw [(handle_other hne s handler).1, (handle_other hne s handler).2]
  exact h

theorem In.ticks {ph : Phase P} (h : s.In requestId ph) (nowMs : Int) :
    (s.tickFirstSegmentTimeouts setup nowMs).In requestId ph := by
  unfold tickFirstSegmentTimeouts
  generalize s.states.keys = keys
  induction keys generalizing s with
  | nil => exact h
  | cons other rest ih =>
    apply ih
    by_cases hother : requestId = other
    · subst hother
      exact In.handle (Phase.tick setup h nowMs)
    · exact h.other hother _

end Scheduler

/-! ### Runs -/

/-- One event moves the phase of a request as its message says. -/
theorem Scheduler.In.step {s : Scheduler K P} {requestId : K} (h : s.In requestId ph)
    {event : Event K P} (habort : event ≠ .abort requestId)
    (htext : Message.streamChunk .wrongType ∉ messagesOf requestId [event]) :
    (s.step setup event).In requestId ((messagesOf requestId [event]).foldl Phase.next ph) := by
  cases event with
  | message nowMs other msg =>
    by_cases hother : other = requestId
    · subst hother
      simp only [messagesOf, List.filterMap_cons, ↓reduceIte, List.filterMap_nil, List.mem_singleton] at htext
      simp only [messagesOf, List.filterMap_cons, ↓reduceIte, List.filterMap_nil, List.foldl_cons, List.foldl_nil]
      exact In.handle (Phase.message setup h nowMs (Ne.symm htext))
    · simp only [messagesOf, List.filterMap_cons, if_neg hother, List.filterMap_nil, List.foldl_nil]
      exact h.other (Ne.symm hother) _
  | idle nowMs => exact h.ticks setup nowMs
  | abort other =>
    have hne : requestId ≠ other := fun he => habort (he ▸ rfl)
    show Phase.Holds _ ((s.states.pop other).get? requestId) _
    rw [Dict.get?_pop_ne _ hne]
    exact h

theorem Scheduler.In.run {s : Scheduler K P} {requestId : K} (h : s.In requestId ph)
    {events : List (Event K P)} (habort : .abort requestId ∉ events)
    (htext : Message.streamChunk .wrongType ∉ messagesOf requestId events) :
    (events.foldl (Scheduler.step setup) s).In requestId ((messagesOf requestId events).foldl Phase.next ph) := by
  induction events generalizing s ph with
  | nil => exact h
  | cons event rest ih =>
    have hcons : messagesOf requestId (event :: rest) = messagesOf requestId [event] ++ messagesOf requestId rest := by
      rw [← List.singleton_append, messagesOf, List.filterMap_append]
      rfl
    rw [hcons, List.mem_append, not_or] at htext
    rw [List.mem_cons, not_or] at habort
    rw [hcons, List.foldl_append, List.foldl_cons]
    exact ih (h.step setup (Ne.symm habort.1) htext.1) habort.2 htext.2

/-! ### Where the messages of a request lead -/

/-- After the end of the stream only payloads come. -/
theorem eq_newRequests (hchunks : ∀ msg ∈ msgs, ¬ msg.isChunk)
    (hdones : msgs.countP Message.isDone = 0) : msgs = (msgs.filterMap Message.payload?).map .newRequest := by
  induction msgs with
  | nil => rfl
  | cons msg rest ih =>
    cases msg with
    | newRequest p =>
      have hrest := ih (fun msg hm => hchunks msg (List.mem_cons_of_mem _ hm))
        (by simpa [List.countP_cons, Message.isDone] using hdones)
      simp only [List.filterMap_cons, Message.payload?, List.map_cons]
      rw [← hrest]
    | streamChunk item => exact absurd rfl (hchunks _ (List.mem_cons_self ..))
    | streamDone => simp [List.countP_cons, Message.isDone] at hdones

/-- What is left of the messages of a request, where its stream goes on. -/
theorem Phase.leads (payload : P) (hdones : msgs.countP Message.isDone = 1)
    (hfirst : msgs.Pairwise fun a b => a.isDone → ¬ b.isChunk) :
    (msgs.filterMap Message.payload? = [] → msgs.foldl next (running (some payload)) = finished payload) ∧
      (msgs.filterMap Message.payload? = [payload] → msgs.foldl next (running none) = finished payload) := by
  induction msgs with
  | nil => simp at hdones
  | cons msg rest ih =>
    obtain ⟨hhead, htail⟩ := List.pairwise_cons.mp hfirst
    cases msg with
    | newRequest p =>
      have hrest := ih (by simpa [List.countP_cons, Message.isDone] using hdones) htail
      refine ⟨fun hp => by simp [Message.payload?] at hp, fun hp => ?_⟩
      simp only [List.filterMap_cons, Message.payload?, List.cons.injEq] at hp
      obtain ⟨rfl, hp⟩ := hp
      exact hrest.1 hp
    | streamChunk item =>
      have hrest := ih (by simpa [List.countP_cons, Message.isDone] using hdones) htail
      exact ⟨hrest.1, hrest.2⟩
    | streamDone =>
      have heq := eq_newRequests (fun msg hm => hhead msg hm rfl)
        (by simpa [List.countP_cons, Message.isDone] using hdones)
      refine ⟨fun hp => ?_, fun hp => ?_⟩
      · simp only [List.filterMap_cons, Message.payload?] at hp
        rw [heq, hp]
        rfl
      · simp only [List.filterMap_cons, Message.payload?] at hp
        rw [heq, hp]
        rfl

theorem OneLife.leads {payload : P} (h : OneLife payload msgs) :
    (msgs.head? ≠ some .streamDone → msgs.foldl Phase.next Phase.fresh = Phase.finished payload) ∧
      (msgs.head? = some .streamDone → msgs.foldl Phase.next Phase.fresh = Phase.stuck) := by
  obtain ⟨hpayloads, hdones, hfirst, _⟩ := h
  cases msgs with
  | nil => simp at hdones
  | cons msg rest =>
    obtain ⟨hhead, htail⟩ := List.pairwise_cons.mp hfirst
    cases msg with
    | newRequest p =>
      refine ⟨fun _ => ?_, fun hd => by simp at hd⟩
      have hrest := Phase.leads payload (by simpa [List.countP_cons, Message.isDone] using hdones) htail
      simp only [List.filterMap_cons, Message.payload?, List.cons.injEq] at hpayloads
      obtain ⟨rfl, hp⟩ := hpayloads
      exact hrest.1 hp
    | streamChunk item =>
      refine ⟨fun _ => ?_, fun hd => by simp at hd⟩
      have hrest := Phase.leads payload (by simpa [List.countP_cons, Message.isDone] using hdones) htail
      exact hrest.2 hpayloads
    | streamDone =>
      refine ⟨fun hd => absurd rfl hd, fun _ => ?_⟩
      have heq := eq_newRequests (fun msg hm => hhead msg hm rfl)
        (by simpa [List.countP_cons, Message.isDone] using hdones)
      simp only [List.filterMap_cons, Message.payload?] at hpayloads
      rw [heq, hpayloads]
      rfl

/-- **Main theorem**: a request that is used once is finished once, with its segments in order, whatever the clock and
the other requests do, if and only if the end of its stream is not the first that is heard of it. -/
theorem finished_once_iff {requestId : K} {payload : P} {events : List (Event K P)}
    (life : OneLife payload (messagesOf requestId events)) (not_aborted : .abort requestId ∉ events) :
    FinishedOnce requestId payload (Scheduler.run setup events) ↔
      (messagesOf requestId events).head? ≠ some .streamDone := by
  have hfresh : ({} : Scheduler K P).In requestId Phase.fresh := ⟨rfl, rfl⟩
  have hrun := hfresh.run setup not_aborted life.text
  by_cases hhead : (messagesOf requestId events).head? = some .streamDone
  · rw [life.leads.2 hhead] at hrun
    obtain ⟨st, hst, _⟩ := hrun
    refine ⟨fun h => ?_, fun h => absurd hhead h⟩
    have hclosed := h.closed
    unfold Scheduler.run at hclosed
    rw [hst] at hclosed
    cases hclosed
  · rw [life.leads.1 hhead] at hrun
    exact ⟨fun _ => hhead, fun _ => ⟨hrun.2, hrun.1⟩⟩

/-- Text, then the payload, then the end of the stream. -/
theorem finished_once_iff_early_text :
    FinishedOnce 0 () (Scheduler.run {} [Event.message 0 0 (.streamChunk (.bytes [72, 105])), .idle 7,
      .message 9 0 (.newRequest ()), .message 11 0 .streamDone]) := by
  refine (finished_once_iff {} ⟨by decide, by decide, ?_, by decide⟩ (by decide)).mpr (by decide)
  simp [messagesOf, Message.isDone, Message.isChunk]

/-- The end of a stream without text is forgotten when it comes before the payload, and the request is never
finished. -/
theorem never_finished : OneLife () (messagesOf 0 [Event.message 0 0 .streamDone, .message 1 0 (.newRequest ())]) ∧
    ¬ FinishedOnce 0 () (Scheduler.run {} [Event.message 0 0 .streamDone, .message 1 0 (.newRequest ())]) := by
  refine ⟨⟨by decide, by decide, ?_, by decide⟩, fun h => ?_⟩
  · simp [messagesOf, Message.isDone, Message.isChunk]
  · exact nomatch h.closed

end SglangOmni.Models.Ming
