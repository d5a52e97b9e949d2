import SglangOmni.Lib.Releases

/-! Text out of a stream of tokens.

The tokens of a streaming request are held until their text goes out, all in one delta: not more often than an interval
allows, and not while the text ends in half a character, unless the request is over. Tokens whose text is empty are let
go of without a delta. -/
namespace SglangOmni.Scheduling.TokenTextStreaming
open Lib

/-- The arguments of `make_token_text_stream_output_builder`. -/
structure Config where
  decode : List Int → List Char
  eosTokenId : Option Int := none
  minEmitInterval : Rat := 0
  /-- `now - last_emit`, of floats. -/
  elapsed : Rat → Rat → Rat
  allowTerminalFlush : Bool := false
  emitTrailingReplacementOnTerminal : Bool := false

/-- `req_output.data`. -/
inductive TokenData where
  | absent
  | token (id : Int)
  /-- Not a token: `int` raises. -/
  | other

/-- What a call of the builder reads. -/
structure Call where
  hasReq : Bool := true
  inflightMiddleChunks : Int := 0
  /-- The parameter `stream`, when there is a stage payload. -/
  stream : Option Bool := some true
  data : TokenData
  finished : Bool := false
  now : Rat := 0

/-- What the builder keeps on the request. -/
structure Request where
  pending : List Int := []
  lastEmit : Rat := 0

/-- What a message is built from. -/
structure OutgoingMessage where
  delta : List Char
  tokenId : Option Int
  deriving DecidableEq

def replacement : Char := '\uFFFD'

variable (cfg : Config)

/-- There is a request past its prompt, and it streams. -/
def Call.streams (call : Call) : Bool := call.hasReq && !(0 < call.inflightMiddleChunks) && call.stream == some true

def isTerminal (call : Call) : Bool := cfg.allowTerminalFlush && call.finished

def isEos (tokenId : Option Int) : Bool := tokenId.isSome && tokenId == cfg.eosTokenId

/-- What is appended to `pending`. -/
def added (tokenId : Option Int) : List Int := if isEos cfg tokenId then [] else tokenId.toList

/-- From where the token is known on. -/
def release (req : Request) (tokenId : Option Int) (terminal : Bool) (now : Rat) : Request × List OutgoingMessage :=
  let req := { req with pending := req.pending ++ added cfg tokenId }
  if req.pending = [] then (req, [])
  else if !isEos cfg tokenId ∧ !terminal ∧ 0 < cfg.minEmitInterval ∧ 0 < req.lastEmit ∧
      cfg.elapsed now req.lastEmit < cfg.minEmitInterval then (req, [])
  else
    let delta := cfg.decode req.pending
    if delta.getLast? = some replacement ∧ ¬ (terminal ∧ cfg.emitTrailingReplacementOnTerminal) then (req, [])
    else if delta = [] then ({ req with pending := [] }, [])
    else ({ pending := [], lastEmit := now }, [⟨delta, tokenId⟩])

/-- `_build_stream_output`. -/
def buildStreamOutput (req : Request) (call : Call) : Request × List OutgoingMessage :=
  if call.streams then
    match call.data with
    | .other => (req, [])
    | .absent => if isTerminal cfg call then release cfg req none true call.now else (req, [])
    | .token id => release cfg req (some id) (isTerminal cfg call) call.now
  else (req, [])

/-- `_flush_stream_output`: there is one only with `allow_terminal_flush`. -/
def flushStreamOutput (req : Request) (call : Call) : Request × List OutgoingMessage :=
  if cfg.allowTerminalFlush then buildStreamOutput cfg req { call with data := .absent } else (req, [])

inductive Event where
  | build (call : Call)
  | flush (call : Call)

def step (req : Request) : Event → Request × List OutgoingMessage
  | .build call => buildStreamOutput cfg req call
  | .flush call => flushStreamOutput cfg req call

/-- The request and all messages after some calls. -/
def run (req : Request) : List Event → Request × List OutgoingMessage
  | [] => (req, [])
  | e :: rest => ((run (step cfg req e).1 rest).1, (step cfg req e).2 ++ (run (step cfg req e).1 rest).2)

/-! ### What is said of it -/

/-- The tokens that are seen, without the end of the sequence. -/
def seen : Event → List Int
  | .build call =>
    if call.streams then
      match call.data with
      | .token id => added cfg (some id)
      | _ => []
    else []
  | .flush _ => []

/-- What the tokens of some groups decode to, where that is not empty. -/
def deltas (groups : List (List Int)) : List (List Char) := (groups.map cfg.decode).filter (· ≠ [])

/-- Some tokens came, and groups of them went out. -/
def Conserves (req req' : Request) (came : List Int) (messages : List OutgoingMessage) : Prop :=
  ∃ groups, Releases req.pending came groups req'.pending ∧ messages.map OutgoingMessage.delta = deltas cfg groups

/-- The call is the last of the request, and may send half a character. -/
def Event.terminal : Event → Bool
  | .build call | .flush call => isTerminal cfg call && cfg.emitTrailingReplacementOnTerminal

/-- The request is seen finished, by a call that has a token or nothing. -/
def Event.closes : Event → Prop
  | .build call => call.streams = true ∧ call.finished = true ∧ call.data ≠ .other
  | .flush call => call.streams = true ∧ call.finished = true

variable {cfg} {req req' req'' : Request}

/-! ### A call -/

theorem Conserves.nothing (req : Request) : Conserves cfg req req [] [] := ⟨[], .nothing _, rfl⟩

theorem Conserves.trans {came more : List Int} {messages others : List OutgoingMessage}
    (first : Conserves cfg req req' came messages) (second : Conserves cfg req' req'' more others) :
    Conserves cfg req req'' (came ++ more) (messages ++ others) := by
  obtain ⟨groups, hgroups, hmessages⟩ := first
  obtain ⟨rest, hrest, hothers⟩ := second
  refine ⟨groups ++ rest, hgroups.trans hrest, ?_⟩
  simp only [deltas, List.map_append, List.filter_append] at *
  rw [hmessages, hothers]

/-- What comes of a token, or of none: all is held, or all is let go of. -/
theorem release_spec (cfg : Config) (req : Request) (tokenId : Option Int) (terminal : Bool) (now : Rat) :
    Conserves cfg req (release cfg req tokenId terminal now).1 (added cfg tokenId)
      (release cfg req tokenId terminal now).2 ∧
    (∀ message ∈ (release cfg req tokenId terminal now).2, message.delta.getLast? = some replacement →
      terminal = true ∧ cfg.emitTrailingReplacementOnTerminal = true) ∧
    (terminal = true → cfg.emitTrailingReplacementOnTerminal = true →
      (release cfg req tokenId terminal now).1.pending = []) := by
  unfold release
  dsimp only
  split
  · next hnone => exact ⟨⟨[], .keep _ _, rfl⟩, (fun _ h => nomatch h), fun _ _ => hnone⟩
  · next hne =>
    split
    · next hearly =>
      refine ⟨⟨[], .keep _ _, rfl⟩, (fun _ h => nomatch h), ?_⟩
      intro hterminal
      rw [hterminal] at hearly
      exact absurd hearly.2.1 (by decide)
    · split
      · next hhalf =>
        exact ⟨⟨[], .keep _ _, rfl⟩, (fun _ h => nomatch h),
          fun hterminal hemit => absurd ⟨hterminal, hemit⟩ hhalf.2⟩
      · next hwhole =>
        split
        · next hempty => exact ⟨⟨_, .all hne, by simp [deltas, hempty]⟩, (fun _ h => nomatch h), fun _ _ => rfl⟩
        · next hfull =>
          refine ⟨⟨_, .all hne, by simp [deltas, hfull]⟩, ?_, fun _ _ => rfl⟩
          intro message hmessage hlast
          rw [List.mem_singleton.mp hmessage] at hlast
          by_contra hnot
          exact hwhole ⟨hlast, hnot⟩

/-- What a call does, of the tokens that it sees. -/
structure Behaves (cfg : Config) (req : Request) (e : Event) (came : List Int)
    (result : Request × List OutgoingMessage) :
    Prop where
  conserves : Conserves cfg req result.1 came result.2
  /-- Half a character goes out at the end only. -/
  whole : ∀ message ∈ result.2, message.delta.getLast? = some replacement → e.terminal cfg = true
  /-- Nothing is held once the request is seen finished. -/
  empty : cfg.allowTerminalFlush = true → cfg.emitTrailingReplacementOnTerminal = true → e.closes →
    result.1.pending = []

theorem buildStreamOutput_behaves (cfg : Config) (req : Request) (call : Call) :
    Behaves cfg req (.build call) (seen cfg (.build call)) (buildStreamOutput cfg req call) := by
  unfold buildStreamOutput
  simp only [seen]
  split
  · have hclosed : cfg.allowTerminalFlush = true → (Event.build call).closes → isTerminal cfg call = true :=
      fun hallow hcloses => Bool.and_eq_true_iff.mpr ⟨hallow, hcloses.2.1⟩
    cases hdata : call.data with
    | other => exact ⟨.nothing req, (fun _ h => nomatch h), fun _ _ hcloses => absurd hdata hcloses.2.2⟩
    | absent =>
      dsimp only
      split
      · next hterminal =>
        obtain ⟨hconserves, hhalf, hnone⟩ := release_spec cfg req none true call.now
        exact ⟨hconserves,
          fun message hmessage hlast => Bool.and_eq_true_iff.mpr ⟨hterminal, (hhalf message hmessage hlast).2⟩,
          fun _ hemit _ => hnone rfl hemit⟩
      · next hterminal =>
        exact ⟨.nothing req, (fun _ h => nomatch h), fun hallow _ hcloses => absurd (hclosed hallow hcloses) hterminal⟩
    | token id =>
      obtain ⟨hconserves, hhalf, hnone⟩ := release_spec cfg req (some id) (isTerminal cfg call) call.now
      exact ⟨hconserves, fun message hmessage hlast => Bool.and_eq_true_iff.mpr (hhalf message hmessage hlast),
        fun hallow hemit hcloses => hnone (hclosed hallow hcloses) hemit⟩
  · next hstreams => exact ⟨.nothing req, (fun _ h => nomatch h), fun _ _ hcloses => absurd hcloses.1 hstreams⟩

theorem flushStreamOutput_behaves (req : Request) (call : Call) :
    Behaves cfg req (.flush call) [] (flushStreamOutput cfg req call) := by
  unfold flushStreamOutput
  split
  · have hbuild := buildStreamOutput_behaves cfg req { call with data := .absent }
    have hnone : seen cfg (.build { call with data := .absent }) = [] := ite_self _
    rw [hnone] at hbuild
    exact ⟨hbuild.conserves, hbuild.whole, fun hallow hemit hcloses =>
      hbuild.empty hallow hemit ⟨hcloses.1, hcloses.2, fun h => nomatch h⟩⟩
  · next hnever => exact ⟨.nothing req, (fun _ h => nomatch h), fun hallow => absurd hallow hnever⟩

theorem step_behaves (req : Request) (e : Event) : Behaves cfg req e (seen cfg e) (step cfg req e) := by
  cases e with
  | build call => exact buildStreamOutput_behaves cfg req call
  | flush call => exact flushStreamOutput_behaves req call

/-! ### A run -/

theorem run_conserves (cfg : Config) (req : Request) (es : List Event) :
    Conserves cfg req (run cfg req es).1 (es.flatMap (seen cfg)) (run cfg req es).2 := by
  induction es generalizing req with
  | nil => exact .nothing req
  | cons e rest ih =>
    rw [List.flatMap_cons]
    exact (step_behaves req e).conserves.trans (ih _)

/-- **Token streaming conserves tokens.** After any calls, the tokens that were seen are consecutive groups and what is
pending; the deltas are what the groups decode to, in order, without those of which nothing is left to say. A delta that
ends in half a character is of a call that sees the request finished, and with the option to send it; with that option,
such a call leaves nothing pending, unless its data is neither a token nor absent. -/
theorem streaming_conserves_tokens (cfg : Config) (es : List Event) :
    (∃ groups : List (List Int), (∀ group ∈ groups, group ≠ []) ∧
      es.flatMap (seen cfg) = groups.flatten ++ (run cfg {} es).1.pending ∧
      (run cfg {} es).2.map OutgoingMessage.delta = (groups.map cfg.decode).filter (· ≠ [])) ∧
    ∀ e : Event,
      (∀ message ∈ (step cfg (run cfg {} es).1 e).2, message.delta.getLast? = some replacement →
        e.terminal cfg = true) ∧
      (cfg.allowTerminalFlush = true → cfg.emitTrailingReplacementOnTerminal = true → e.closes →
        (step cfg (run cfg {} es).1 e).1.pending = []) := by
  constructor
  · obtain ⟨groups, hreleases, hdeltas⟩ := run_conserves cfg {} es
    exact ⟨groups, hreleases.full, hreleases.partition, hdeltas⟩
  · exact fun e => ⟨(step_behaves _ e).whole, (step_behaves _ e).empty⟩

/-- Token 5 is special and has no text; token 6 is half a character. -/
def special : Config where
  decode ids := if ids = [5] then [] else if ids = [6] then [replacement] else ['a']
  elapsed now last := now - last
  allowTerminalFlush := true
  emitTrailingReplacementOnTerminal := true

/-- A token without text is gone, and is in no delta; a finished request with data that is not a token keeps half a
character. -/
theorem tokens_without_text :
    (¬ ∃ groups : List (List Int), (∀ group ∈ groups, group ≠ []) ∧
      seen special (.build { data := .token 5 }) =
        groups.flatten ++ (run special {} [.build { data := .token 5 }]).1.pending ∧
      (run special {} [.build { data := .token 5 }]).2.map OutgoingMessage.delta = groups.map special.decode) ∧
    (run special {} [.build { data := .token 6 }, .build { data := .other, finished := true }]).1.pending = [6] := by
  constructor
  · intro h
    obtain ⟨groups, _, hpartition, hdeltas⟩ := h
    have hnone : groups = [] := List.map_eq_nil_iff.mp hdeltas.symm
    rw [hnone] at hpartition
    exact absurd hpartition (by decide)
  · decide

end SglangOmni.Scheduling.TokenTextStreaming
