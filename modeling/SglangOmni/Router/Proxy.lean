import SglangOmni.Lib.History
import SglangOmni.Lib.Raising

/-! The books of a relayed request.

`forward_model_request` takes an admission slot, `_open_upstream` counts the request at the worker it goes to, and
whoever ends the response gives both back: `_RelayCleanup` for a relayed response, which the body iterator and the
response itself share, the handler for everything else. An exception may come out of every await.

A request is followed through the handler with what each await does, and with what the code between two awaits finds
(`Env`). The body iterator is a generator that the ASGI stack uses as it likes: it pulls, or closes it, during the call
of the response and after it. -/
namespace SglangOmni.Router.Proxy
open Lib

/-! ### Exceptions and books -/

inductive Raised where
  /-- `httpx.PoolTimeout`, which is an `httpx.HTTPError` too. -/
  | poolTimeout
  | httpError
  | cancelled
  | valueError
  | other
  deriving DecidableEq

structure Books where
  /-- Slots that `try_acquire` took, and those that `_ReleaseOnce` gave back. -/
  acquired : Nat := 0
  released : Nat := 0
  isReleased : Bool := false
  /-- `increment_active` and `decrement_active` of the chosen worker. -/
  increments : Nat := 0
  decrements : Nat := 0
  /-- `_RelayCleanup._is_done`. -/
  isDone : Bool := false
  /-- The outcomes with which `record_routed_request` was called. -/
  routed : List String := []
  deriving DecidableEq

/-- The slot was given back exactly as often as it was taken, the gauge went down as often as up, and the request was
recorded at most once. -/
structure Balanced (b : Books) : Prop where
  slot : b.released = b.acquired
  active : b.decrements = b.increments
  routed : b.routed.length ≤ 1

abbrev Handler := EStateM Raised Books

/-! ### The environment -/

/-- What `_committed_voice_mutation` and `apply` do with the body of an upload. -/
inductive Commit where
  | committed
  | valueError
  | raises
  deriving DecidableEq

structure Env where
  /-- `try_acquire`. -/
  admitted : Bool
  /-- Reading the body and its metadata: goes on, or answers with an error. -/
  prepare : Except Raised Bool
  isVoiceMutation : Bool
  /-- `_select_worker`: a worker, or none that is eligible. -/
  select : Except Raised Bool
  buildRequest : Option Raised
  /-- `client.send`: the status of the upstream response. -/
  send : Except Raised Nat
  isEventStream : Bool
  /-- `upstream.aread` and `upstream.aclose`. -/
  aread : Option Raised
  aclose : Option Raised
  commit : Commit
  /-- The headers of the response cannot be put together. -/
  headersFail : Bool
  /-- The response object cannot be made of them: a header value is not latin-1. -/
  responseFails : Bool

/-- An await that returns or raises. -/
def await : Option Raised → Handler PUnit
  | none => pure ⟨⟩
  | some e => throw e

/-! ### Giving back -/

def incrementActive : Handler PUnit := modify fun b => { b with increments := b.increments + 1 }

def decrementActive : Handler PUnit := modify fun b => { b with decrements := b.decrements + 1 }

def recordRoutedRequest (outcome : String) : Handler PUnit := modify fun b => { b with routed := b.routed ++ [outcome] }

/-- `_ReleaseOnce.__call__`. -/
def release : Handler PUnit :=
  modify fun b => if b.isReleased then b else { b with isReleased := true, released := b.released + 1 }

/-- `_RelayCleanup.__call__`. -/
def cleanup (aclose : Option Raised) (outcome : String) : Handler PUnit := do
  let b ← get
  if b.isDone then pure ⟨⟩
  else do
    modify fun b => { b with isDone := true }
    ensuring (await aclose) do
      decrementActive
      release
      recordRoutedRequest outcome

/-- The statuses for which a worker is taken out of rotation. -/
def workerEvictionStatusCodes : List Nat := [502, 504]

/-- `_response_outcome`. -/
def responseOutcome (status : Nat) : String :=
  if status ∈ workerEvictionStatusCodes then "worker_failure_status"
  else if status = 500 then "upstream_5xx"
  else "completed"

/-! ### The handler -/

/-- What the handler returns: a response that is complete, or a `_RelayResponse`. -/
inductive Response where
  | plain
  | relay
  deriving DecidableEq

/-- A response with the headers of the worker. -/
def respond (env : Env) : Handler PUnit := if env.responseFails then throw .valueError else pure ⟨⟩

/-- `_open_upstream`: the status of the upstream response, or a response of the router's own. -/
def openUpstream (env : Env) : Handler (Option Nat) := do
  await env.buildRequest
  incrementActive
  catching (do let status ← fromExcept id env.send; pure (some status)) fun
    | .poolTimeout => do
      decrementActive
      pure none
    | .httpError => do
      decrementActive
      recordRoutedRequest "upstream_error"
      respond env
      pure none
    | e => do
      decrementActive
      throw e

/-- `_streaming_relay_response`. -/
def streamingRelayResponse (env : Env) : Handler Response := do
  if env.headersFail then do
    await env.aclose
    decrementActive
    throw .other
  else do
    respond env
    pure .relay

/-- `_buffer_voice_mutation_response`, once the body is read. -/
def commitVoiceMutation (env : Env) (status : Nat) : Handler Response := do
  if 200 ≤ status ∧ status < 300 ∧ env.commit = .raises then throw .other
  else if env.headersFail then throw .other
  else do
    cleanup env.aclose (responseOutcome status)
    respond env
    pure .plain

/-- `_buffer_voice_mutation_response`. -/
def bufferVoiceMutationResponse (env : Env) (status : Nat) : Handler Response :=
  match env.aread with
  | none => commitVoiceMutation env status
  | some .cancelled => do
    cleanup env.aclose "stream_cancelled"
    throw .cancelled
  | some .httpError | some .poolTimeout => do
    cleanup env.aclose "stream_error"
    respond env
    pure .plain
  | some e => throw e

/-- `_build_relay_response`. -/
def buildRelayResponse (env : Env) (status : Nat) : Handler Response :=
  if env.isVoiceMutation then bufferVoiceMutationResponse env status else streamingRelayResponse env

/-- `_forward_relay`. -/
def forwardRelay (env : Env) : Handler Response := do
  match ← openUpstream env with
  | none => pure .plain
  | some status => buildRelayResponse env status

/-- `_forward_admitted` and `_select_and_forward`. -/
def forwardAdmitted (env : Env) : Handler Response := do
  if ← fromExcept id env.prepare then
    if ← fromExcept id env.select then forwardRelay env else pure .plain
  else pure .plain

/-- `forward_model_request`. -/
def forwardModelRequest (env : Env) : Handler Response := do
  if env.admitted then do
    modify fun b => { b with acquired := b.acquired + 1 }
    let response ← catching (forwardAdmitted env) fun e => do
      release
      throw e
    if response = .plain then release
    pure response
  else pure .plain

/-! ### The body of a relayed response -/

/-- Where `_iter_upstream_bytes` stands: not started, at the `yield` of a chunk or of the error event, at its end. -/
inductive Body where
  | notStarted
  | atChunk
  | atError
  | finished
  deriving DecidableEq

/-- What `aiter_bytes` does when it is asked for a chunk. -/
inductive Pull where
  | chunk
  | ended
  | raised (e : Raised)
  deriving DecidableEq

/-- What the ASGI stack, or the garbage collector, does with the iterator. -/
inductive Use where
  | next (pull : Pull)
  | close
  deriving DecidableEq

/-- The iterator ends, and its `finally` cleans up. -/
def ends (env : Env) (outcome : String) (b : Books) : Body × Books :=
  (.finished, stateOf (cleanup env.aclose outcome b))

/-- `_iter_upstream_bytes`, up to its next `yield`. -/
def iterUpstreamBytes (env : Env) (status : Nat) (s : Body × Books) : Use → Body × Books
  | .next pull =>
    match s.1, pull with
    | .finished, _ => s
    | .atError, _ => ends env "stream_error" s.2
    | _, .chunk => (.atChunk, s.2)
    | _, .ended => ends env (responseOutcome status) s.2
    | _, .raised .cancelled => ends env "stream_cancelled" s.2
    | _, .raised .httpError | _, .raised .poolTimeout =>
      if env.isEventStream then (.atError, s.2) else ends env "stream_error" s.2
    | _, .raised _ => ends env (responseOutcome status) s.2
  | .close =>
    match s.1 with
    | .notStarted => (.finished, s.2)
    | .atChunk => ends env (responseOutcome status) s.2
    | .atError => ends env "stream_error" s.2
    | .finished => s

/-- `_RelayResponse.__call__`: the stack uses the iterator in any way, and the response cleans up. -/
def callRelayResponse (env : Env) (status : Nat) (uses : List Use) (b : Books) : Body × Books :=
  let s := run (iterUpstreamBytes env status) (.notStarted, b) uses
  (s.1, stateOf (cleanup env.aclose "client_disconnected" s.2))

/-- A request from its arrival until its response has ended. What is left of the iterator may be used later, and the
finalizer of the response releases the slot once more. -/
def handled (env : Env) (uses later : List Use) : Books :=
  match forwardModelRequest env {}, env.send with
  | .ok .relay b, .ok status =>
    stateOf (release (run (iterUpstreamBytes env status) (callRelayResponse env status uses b) later).2)
  | result, _ => stateOf result

/-! ### Cleaning up -/

/-- The books of a request that is open at the worker, and those of one that is over. -/
def opened : Books := { acquired := 1, increments := 1 }

def closed (outcome : String) : Books :=
  { acquired := 1, released := 1, isReleased := true, increments := 1, decrements := 1, isDone := true,
    routed := [outcome] }

/-- A cleanup that may raise has given everything back in any case. -/
theorem cleanup_cases (aclose : Option Raised) (outcome : String) :
    cleanup aclose outcome opened = .ok ⟨⟩ (closed outcome) ∨
      ∃ e, cleanup aclose outcome opened = .error e (closed outcome) := by
  cases aclose with
  | none => exact .inl rfl
  | some e => exact .inr ⟨e, rfl⟩

theorem stateOf_cleanup (aclose : Option Raised) (outcome : String) :
    stateOf (cleanup aclose outcome opened) = closed outcome := by
  obtain h | ⟨e, h⟩ := cleanup_cases aclose outcome
  · rw [h]
    rfl
  · rw [h]
    rfl

theorem balanced_closed (outcome : String) : Balanced (closed outcome) := ⟨rfl, rfl, Nat.le_refl 1⟩

/-- Whoever uses the iterator, the request stays open or is over. -/
def Settling (s : Body × Books) : Prop := s.2 = opened ∨ ∃ outcome, s.2 = closed outcome

theorem settling_ends (env : Env) (outcome : String) {b : Books} (h : b = opened ∨ ∃ o, b = closed o) :
    ∃ o, (ends env outcome b).2 = closed o := by
  obtain rfl | ⟨o, rfl⟩ := h
  · exact ⟨outcome, stateOf_cleanup env.aclose outcome⟩
  · exact ⟨o, rfl⟩

theorem settling_use (env : Env) (status : Nat) {s : Body × Books} (h : Settling s) (u : Use) :
    Settling (iterUpstreamBytes env status s u) := by
  have hends : ∀ outcome, Settling (ends env outcome s.2) := fun outcome => .inr (settling_ends env outcome h)
  unfold iterUpstreamBytes
  split
  · split
    · exact h
    · exact hends _
    · exact h
    · exact hends _
    · exact hends _
    · split
      · exact h
      · exact hends _
    · split
      · exact h
      · exact hends _
    · exact hends _
  · split
    · exact h
    · exact hends _
    · exact hends _
    · exact h

/-- A request that is over stays as it is. -/
theorem closed_use (env : Env) (status : Nat) {outcome : String} {s : Body × Books}
    (h : s.2 = closed outcome) (u : Use) :
    (iterUpstreamBytes env status s u).2 = closed outcome := by
  have hends : ∀ o, (ends env o s.2).2 = closed outcome := by
    intro o
    rw [h]
    rfl
  unfold iterUpstreamBytes
  split
  · split
    · exact h
    · exact hends _
    · exact h
    · exact hends _
    · exact hends _
    · split
      · exact h
      · exact hends _
    · split
      · exact h
      · exact hends _
    · exact hends _
  · split
    · exact h
    · exact hends _
    · exact hends _
    · exact h

/-- A relayed response that is called ends with its request over, and nothing that comes later changes the books. -/
theorem relayed_closed (env : Env) (status : Nat) (uses later : List Use) : ∃ outcome,
    stateOf (release (run (iterUpstreamBytes env status) (callRelayResponse env status uses opened) later).2) =
      closed outcome := by
  have hsettling : Settling (run (iterUpstreamBytes env status) (.notStarted, opened) uses) :=
    run_invariant (I := Settling) (.inl rfl) (fun _ u h => settling_use env status h u) uses
  obtain ⟨outcome, hover⟩ := settling_ends env "client_disconnected" hsettling
  have hcalled : (callRelayResponse env status uses opened).2 = closed outcome := hover
  have hlater : (run (iterUpstreamBytes env status) (callRelayResponse env status uses opened) later).2 =
    closed outcome :=
    run_invariant (I := fun s : Body × Books => s.2 = closed outcome) hcalled
      (fun _ u h => closed_use env status h u) later
  rw [hlater]
  exact ⟨outcome, rfl⟩

/-! ### Who leaves a request open -/

/-- The body of a voice mutation cannot be read for a reason that is no cancellation and no HTTP error, or what comes
after the read raises before the cleanup. -/
def Env.VoiceLeaks (env : Env) (status : Nat) : Prop :=
  match env.aread with
  | none => (200 ≤ status ∧ status < 300 ∧ env.commit = .raises) ∨ env.headersFail = true
  | some .cancelled | some .httpError | some .poolTimeout => False
  | some _ => True

/-- The response object cannot be made, or the upstream response cannot be closed where the headers fail. -/
def Env.StreamLeaks (env : Env) : Prop :=
  (env.headersFail = true ∧ env.aclose ≠ none) ∨ (env.headersFail = false ∧ env.responseFails = true)

/-- The request is at a worker, and the handler raises without a cleanup. -/
def Env.Leaks (env : Env) : Prop :=
  env.admitted = true ∧ env.prepare = .ok true ∧ env.select = .ok true ∧ env.buildRequest = none ∧
    ∃ status, env.send = .ok status ∧ if env.isVoiceMutation then env.VoiceLeaks status else env.StreamLeaks

/-- What the handler comes to: a response that is relayed, or the end of the request, with its books. -/
def Comes (relay : Prop) (P : Books → Prop) : EStateM.Result Raised Books Response → Prop
  | .ok .relay b => b = opened ∧ relay
  | .ok .plain b => P b
  | .error _ b => P b

/-- The books are balanced once the handler releases the slot, unless the request was left open. -/
def Left (leak : Prop) (b : Books) : Prop := (leak → b = opened) ∧ (¬ leak → Balanced (stateOf (release b)))

theorem left_closed {leak : Prop} (h : ¬ leak) (outcome : String) : Left leak (closed outcome) :=
  ⟨fun hleak => absurd hleak h, fun _ => balanced_closed outcome⟩

theorem left_opened {leak : Prop} (h : leak) : Left leak opened := ⟨fun _ => rfl, fun hnot => absurd h hnot⟩

theorem respond_cases (env : Env) (b : Books) : respond env b = .ok ⟨⟩ b ∨ respond env b = .error .valueError b := by
  unfold respond
  split
  · exact .inr rfl
  · exact .inl rfl

/-- A cleanup of an open request, and a response of the router's own. -/
theorem cleanup_respond (env : Env) (outcome : String) {relay leak : Prop} (h : ¬ leak) :
    Comes relay (Left leak) ((do
      cleanup env.aclose outcome
      respond env
      pure .plain : Handler Response) opened) := by
  rw [bind_apply]
  obtain hcleanup | ⟨e, hcleanup⟩ := cleanup_cases env.aclose outcome
  · rw [hcleanup]
    dsimp only
    rw [bind_apply]
    obtain hrespond | hrespond := respond_cases env (closed outcome)
    · rw [hrespond]
      exact left_closed h outcome
    · rw [hrespond]
      exact left_closed h outcome
  · rw [hcleanup]
    exact left_closed h outcome

theorem bufferVoiceMutation_comes (env : Env) (status : Nat) (relay : Prop) :
    Comes relay (Left (env.VoiceLeaks status)) (bufferVoiceMutationResponse env status opened) := by
  unfold bufferVoiceMutationResponse Env.VoiceLeaks
  cases env.aread with
  | none =>
    dsimp only
    unfold commitVoiceMutation
    split
    · next hcommit => exact left_opened (.inl hcommit)
    · next hcommit =>
      split
      · next hheaders => exact left_opened (.inr hheaders)
      · next hheaders => exact cleanup_respond env _ (not_or.mpr ⟨hcommit, hheaders⟩)
  | some e =>
    cases e with
    | poolTimeout | httpError => exact cleanup_respond env "stream_error" not_false
    | cancelled =>
      dsimp only
      rw [bind_apply]
      obtain hcleanup | ⟨e, hcleanup⟩ := cleanup_cases env.aclose "stream_cancelled"
      · rw [hcleanup]
        exact left_closed not_false _
      · rw [hcleanup]
        exact left_closed not_false _
    | valueError | other => exact left_opened trivial

theorem streamingRelay_comes (env : Env) :
    Comes (¬ env.StreamLeaks) (Left env.StreamLeaks) (streamingRelayResponse env opened) := by
  unfold streamingRelayResponse Env.StreamLeaks
  cases hheaders : env.headersFail with
  | true =>
    cases haclose : env.aclose with
    | none => exact ⟨fun h => absurd h (by simp), fun _ => ⟨rfl, rfl, Nat.zero_le 1⟩⟩
    | some e => exact left_opened (.inl ⟨rfl, nofun⟩)
  | false =>
    unfold respond
    cases env.responseFails with
    | true => exact left_opened (.inr ⟨rfl, rfl⟩)
    | false => exact ⟨rfl, by simp⟩

/-- What `_build_relay_response` leaves open. -/
def Env.BuildLeaks (env : Env) (status : Nat) : Prop :=
  if env.isVoiceMutation then env.VoiceLeaks status else env.StreamLeaks

theorem buildRelayResponse_comes (env : Env) (status : Nat) :
    Comes (¬ env.BuildLeaks status) (Left (env.BuildLeaks status)) (buildRelayResponse env status opened) := by
  unfold buildRelayResponse Env.BuildLeaks
  cases env.isVoiceMutation with
  | true => exact bufferVoiceMutation_comes env status _
  | false => exact streamingRelay_comes env

/-- The slot is taken, and no worker is chosen yet. -/
def started : Books := { acquired := 1 }

theorem left_started {leak : Prop} (h : ¬ leak) : Left leak started :=
  ⟨fun hleak => absurd hleak h, fun _ => ⟨rfl, rfl, Nat.zero_le 1⟩⟩

theorem Comes.congr {relay relay' leak leak' : Prop} {result : EStateM.Result Raised Books Response}
    (h : Comes relay (Left leak) result) (hrelay : relay → relay') (hleak : leak ↔ leak') :
    Comes relay' (Left leak') result := by
  cases result with
  | error e b => exact ⟨fun h' => h.1 (hleak.mpr h'), fun h' => h.2 fun h'' => h' (hleak.mp h'')⟩
  | ok response b =>
    cases response with
    | plain => exact ⟨fun h' => h.1 (hleak.mpr h'), fun h' => h.2 fun h'' => h' (hleak.mp h'')⟩
    | relay => exact ⟨h.1, hrelay h.2⟩

/-- What `_forward_relay` leaves open. -/
def Env.RelayLeaks (env : Env) : Prop :=
  env.buildRequest = none ∧ ∃ status, env.send = .ok status ∧ env.BuildLeaks status

theorem forwardRelay_comes (env : Env) :
    Comes ((∃ status, env.send = .ok status) ∧ ¬ env.RelayLeaks) (Left env.RelayLeaks) (forwardRelay env started) := by
  unfold forwardRelay openUpstream Env.RelayLeaks
  cases hbuild : env.buildRequest with
  | some e => exact left_started (fun h => nomatch h.1)
  | none =>
    cases hsend : env.send with
    | ok status =>
      have h := buildRelayResponse_comes env status
      refine h.congr (fun hnot => ⟨⟨status, rfl⟩, ?_⟩) ⟨fun hleak => ⟨rfl, status, rfl, hleak⟩, ?_⟩
      · intro ⟨_, status', heq, hleak⟩
        cases heq
        exact hnot hleak
      · intro ⟨_, status', heq, hleak⟩
        cases heq
        exact hleak
    | error e =>
      have hnot : ¬ (none = (none : Option Raised) ∧ ∃ status, (.error e : Except Raised Nat) = .ok status ∧
          env.BuildLeaks status) := fun ⟨_, _, heq, _⟩ => nomatch heq
      have hleft : ∀ b, Balanced (stateOf (release b)) → Left _ b :=
        fun b hb => ⟨fun hleak => absurd hleak hnot, fun _ => hb⟩
      cases e with
      | httpError =>
        let failed : Books := { acquired := 1, increments := 1, decrements := 1, routed := ["upstream_error"] }
        have hfailed : Balanced (stateOf (release failed)) := ⟨rfl, rfl, Nat.le_refl 1⟩
        unfold respond
        cases env.responseFails with
        | true | false => exact hleft failed hfailed
      | poolTimeout | cancelled | valueError | other => exact hleft _ ⟨rfl, rfl, Nat.zero_le 1⟩

theorem forwardAdmitted_comes (env : Env) (hadmitted : env.admitted = true) :
    Comes ((∃ status, env.send = .ok status) ∧ ¬ env.Leaks) (Left env.Leaks) (forwardAdmitted env started) := by
  unfold forwardAdmitted Env.Leaks
  rw [hadmitted]
  cases hprepare : env.prepare with
  | error e => exact left_started (fun h => nomatch h.2.1)
  | ok goesOn =>
    cases goesOn with
    | false => exact left_started (fun h => nomatch h.2.1)
    | true =>
      cases hselect : env.select with
      | error e => exact left_started (fun h => nomatch h.2.2.1)
      | ok selected =>
        cases selected with
        | false => exact left_started (fun h => nomatch h.2.2.1)
        | true =>
          have hleaks : env.RelayLeaks ↔ true = true ∧ (.ok true : Except Raised Bool) = .ok true ∧
              (.ok true : Except Raised Bool) = .ok true ∧ env.RelayLeaks :=
            ⟨fun h => ⟨rfl, rfl, rfl, h⟩, fun h => h.2.2.2⟩
          exact (forwardRelay_comes env).congr (fun h => ⟨h.1, fun hleak => h.2 (hleaks.mpr hleak)⟩) hleaks

/-- A request that was left open is not balanced when its slot is released. -/
theorem not_balanced_opened : ¬ Balanced (stateOf (release opened)) := fun h => nomatch h.active

theorem Left.balanced_iff {leak : Prop} {b : Books} (h : Left leak b) : Balanced (stateOf (release b)) ↔ ¬ leak := by
  constructor
  · intro hbalanced hleak
    rw [h.1 hleak] at hbalanced
    exact not_balanced_opened hbalanced
  · exact h.2

/-- **Relay bookkeeping.** However the awaits of a request end, and however the body of its response is used, its books
are balanced in the end exactly when the handler does not leave the request open. -/
theorem handled_balanced_iff (env : Env) (uses later : List Use) :
    Balanced (handled env uses later) ↔ ¬ env.Leaks := by
  cases hadmitted : env.admitted with
  | false =>
    have hrejected : forwardModelRequest env {} = .ok .plain {} := by
      unfold forwardModelRequest
      rw [hadmitted]
      rfl
    have hhandled : handled env uses later = {} := by
      unfold handled
      rw [hrejected]
      rfl
    rw [hhandled]
    exact ⟨(fun _ hleak => absurd (hadmitted.symm.trans hleak.1) Bool.false_ne_true),
      fun _ => ⟨rfl, rfl, Nat.zero_le 1⟩⟩
  | true =>
    have hcomes := forwardAdmitted_comes env hadmitted
    have hforward : forwardModelRequest env {} = match forwardAdmitted env started with
        | .ok .plain b => .ok .plain (stateOf (release b))
        | .ok .relay b => .ok .relay b
        | .error e b => .error e (stateOf (release b)) := by
      unfold forwardModelRequest
      rw [hadmitted]
      show (catching (forwardAdmitted env) _ >>= _) started = _
      rw [bind_apply]
      unfold catching
      cases forwardAdmitted env started with
      | error e b => rfl
      | ok response b =>
        cases response with
        | plain => rfl
        | relay => rfl
    unfold handled
    rw [hforward]
    cases hresult : forwardAdmitted env started with
    | error e b =>
      rw [hresult] at hcomes
      exact hcomes.balanced_iff
    | ok response b =>
      rw [hresult] at hcomes
      cases response with
      | plain => exact hcomes.balanced_iff
      | relay =>
        obtain ⟨rfl, ⟨status, hsend⟩, hnot⟩ := hcomes
        obtain ⟨outcome, hclosed⟩ := relayed_closed env status uses later
        rw [hsend]
        dsimp only
        rw [hclosed]
        exact ⟨fun _ => hnot, fun _ => balanced_closed outcome⟩

/-! ### Requests that are left open -/

/-- A request that goes through with a status 200. -/
def fine : Env where
  admitted := true
  prepare := .ok true
  isVoiceMutation := false
  select := .ok true
  buildRequest := none
  send := .ok 200
  isEventStream := true
  aread := none
  aclose := none
  commit := .committed
  headersFail := false
  responseFails := false

/-- A voice upload whose response cannot be read for a reason of its own, and a request whose id does not fit into a
header: the worker looks busy for ever. -/
theorem left_open :
    ¬ Balanced (handled { fine with isVoiceMutation := true, aread := some .other } [] []) ∧
      handled { fine with isVoiceMutation := true, aread := some .other } [] [] =
        { acquired := 1, released := 1, isReleased := true, increments := 1 } ∧
      ¬ Balanced (handled { fine with responseFails := true } [] []) :=
  ⟨(fun h => nomatch h.active), rfl, (fun h => nomatch h.active)⟩

end SglangOmni.Router.Proxy
