import SglangOmni.Lib.BoundedSet
import SglangOmni.Serve.Realtime.Response

/-! The conversation of a realtime session, and what a client has truncated of it.

The assistant item of a response that is to be spoken is pending from the start of `run_response` to the end of the
turn; then it is an item of the conversation, unless it was truncated while it was pending, or the response was not
completed, or the transcription of the turn failed. A handler of a truncate event decides in one section what to answer,
and the answer counts from there. Items are known by the number of their turn. -/
namespace SglangOmni.Serve.Realtime
open Lib

inductive Role where
  | user
  | assistant
  deriving DecidableEq

inductive ItemId where
  | user (turn : Nat)
  | assistant (turn : Nat)
  /-- An id that the server never made. -/
  | other (id : String)
  deriving DecidableEq

structure ConversationItem where
  role : Role
  text : String
  itemId : ItemId
  deriving DecidableEq

inductive Answer where
  | truncated
  | error (code : String)
  deriving DecidableEq

structure Talk where
  session : Session := {}
  conversation : List ConversationItem := []
  pendingAssistantItemIds : Finset ItemId := ∅
  truncatedAssistantItemIds : Finset ItemId := ∅
  /-- The oldest first. -/
  cancelledAssistantItemIds : List ItemId := []
  /-- The text that `run_response` returns, when it was completed; another response returns no text, or raises. -/
  responseOutput : Option String := none
  answers : List (ItemId × Answer) := []
  /-- The turns whose response was to be spoken, and the turns whose transcription failed. -/
  spoken : List Nat := []
  failed : List Nat := []

inductive Act where
  | session (e : Event)
  /-- The transcription has ended, and `run_turn` with it. -/
  | transcribed (transcript : String)
  | transcriptionFails
  /-- `run_turn` raises what `run_response` raised before its first event. -/
  | turnFails
  | truncate (itemId : ItemId) (contentIndex : Int)

def maxCancelledAssistantItemIds : Nat := 64

namespace Talk

/-- The assistant item of the current turn. -/
def own (t : Talk) : ItemId := .assistant t.session.turn

/-- `_remember_cancelled_assistant_item`. -/
def rememberCancelledAssistantItem (t : Talk) (itemId : ItemId) : Talk :=
  let ids := addId t.cancelledAssistantItemIds itemId
  { t with cancelledAssistantItemIds := if maxCancelledAssistantItemIds < ids.length then ids.tail else ids }

/-- `pending_assistant_item_ids.discard` and `truncated_assistant_item_ids.discard`. -/
def discard (t : Talk) (itemId : ItemId) : Talk :=
  { t with
    pendingAssistantItemIds := t.pendingAssistantItemIds.erase itemId
    truncatedAssistantItemIds := t.truncatedAssistantItemIds.erase itemId }

/-- `handle_conversation_item_truncate`. -/
def truncate (t : Talk) (itemId : ItemId) (contentIndex : Int) : Talk × Answer :=
  if contentIndex ≠ 0 then (t, .error "invalid_content_index")
  else if itemId ∈ t.pendingAssistantItemIds then
    ({ t with truncatedAssistantItemIds := insert itemId t.truncatedAssistantItemIds }, .truncated)
  else if itemId ∉ t.cancelledAssistantItemIds then
    match t.conversation.findIdx? (fun item => item.itemId = itemId && item.role = .assistant) with
    | none => (t, .error "item_not_found")
    | some i => ({ t with conversation := t.conversation.eraseIdx i }, .truncated)
  else (t, .truncated)

/-- What the sections of `run_response` do to the tables of the items. -/
def onSession (t : Talk) (e : Event) : Talk :=
  let next := { t with session := t.session.step e }
  match e, t.session.stage with
  | .runResponse, .starting =>
    if t.session.audioModality then
      { next with
        pendingAssistantItemIds := insert t.own t.pendingAssistantItemIds
        spoken := t.session.turn :: t.spoken }
    else next
  | .write, .running r =>
    match r.phase with
    | .terminal (.event (.done .completed _ text) :: _) => { next with responseOutput := some text }
    | .terminal (.event (.done .cancelled _ _) :: _) =>
      if r.wantsAudio then next.rememberCancelledAssistantItem t.own else next
    | _ => next
  | .responseReturns, .running r =>
    match r.phase with
    -- `finally`: only a completed response is retained for the history
    | .terminal [] => if r.wantsAudio && t.responseOutput.isNone then next.discard t.own else next
    | _ => next
  -- the end of a turn is one of the other acts
  | .turnEnds, _ => t
  | _, _ => next

/-- The `finally` of `run_turn`, and the end of the turn. -/
def endTurn (t : Talk) : Talk :=
  let t := if t.responseOutput.isSome then t.discard t.own else t
  { t with session := t.session.step .turnEnds, responseOutput := none }

/-- The items that a turn adds to the conversation. -/
def record (t : Talk) (transcript : String) : List ConversationItem :=
  (if transcript ≠ "" then [⟨.user, transcript, .user t.session.turn⟩] else []) ++
    match t.responseOutput with
    | some text => if text ≠ "" ∧ t.own ∉ t.truncatedAssistantItemIds then [⟨.assistant, text, t.own⟩] else []
    | none => []

def step (t : Talk) : Act → Talk
  | .session e => t.onSession e
  | .transcribed transcript =>
    match t.session.stage with
    | .transcribing => { t with conversation := t.conversation ++ t.record transcript }.endTurn
    | _ => t
  | .transcriptionFails =>
    match t.session.stage with
    | .transcribing => { t.endTurn with failed := t.session.turn :: t.failed }
    | _ => t
  | .turnFails =>
    match t.session.stage with
    | .unstarted => { t with session := t.session.step .turnEnds }
    | _ => t
  | .truncate itemId contentIndex =>
    let (next, answer) := t.truncate itemId contentIndex
    { next with answers := t.answers ++ [(itemId, answer)] }

def runs (acts : List Act) : Talk := run step {} acts

/-! ### What a client is promised -/

/-- The turn is over. -/
def Over (t : Talk) (n : Nat) : Prop := n < t.session.turn ∨ (n = t.session.turn ∧ t.session.stage = .idle)

/-- A response was completed, with text. -/
def Answered (t : Talk) (n : Nat) : Prop :=
  ∃ reason text, (n, ResponseEvent.done .completed reason text) ∈ t.session.sent ∧ text ≠ ""

/-- A truncate of the answer of a turn is acknowledged while the turn runs, if the answer is spoken; and once after the
turn, if the transcription did not fail. -/
def Truncatable (t : Talk) (n : Nat) : Prop :=
  (n = t.session.turn ∧ t.session.stage ≠ .idle ∧ n ∈ t.spoken) ∨
    (t.Over n ∧ n ∉ t.failed ∧ (ItemId.assistant n, Answer.truncated) ∉ t.answers)

end Talk

end SglangOmni.Serve.Realtime
