import SglangOmni.Serve.Realtime.Response

/-! The protocol of a realtime response, as the client sees it.

What goes out for one response is read by a small automaton (`Seen`). While the task runs, the automaton is where the
local flags say (`RunningOk`); once the terminal is claimed, the rest of the terminals takes it to its end. Two things
can put the flags behind the events: a chunk that comes after the chunk that ended its modality, and a cancel that is
thrown into the send of a terminal after the frame is written. -/
namespace SglangOmni.Serve.Realtime
open Lib

/-! ### The protocol -/

/-- What has been seen of a response. -/
structure Seen where
  created : Bool := false
  textDone : Bool := false
  audioDone : Bool := false
  finished : Option Status := none
  deriving DecidableEq

/-- The next event, when the protocol allows it. -/
def Seen.next (q : Seen) (e : ResponseEvent) : Option Seen :=
  match q.finished, q.created, e with
  | some _, _, _ => none
  | none, false, .created => some { q with created := true }
  | none, false, _ => none
  | none, true, .created => none
  | none, true, .textDelta _ => if q.textDone then none else some q
  | none, true, .audioDelta _ => if q.audioDone then none else some q
  | none, true, .textDone _ => if q.textDone then none else some { q with textDone := true }
  | none, true, .audioDone => if q.audioDone then none else some { q with audioDone := true }
  | none, true, .done status _ _ => some { q with finished := some status }

def ResponseEvent.isDelta : ResponseEvent → Bool
  | .textDelta _ | .audioDelta _ => true
  | _ => false

/-- A delta leaves the protocol where it is. -/
theorem Seen.next_delta {q q' : Seen} {e : ResponseEvent} (h : q.next e = some q') (delta : e.isDelta = true) :
    q' = q := by
  obtain ⟨created, textDone, audioDone, finished⟩ := q
  cases finished <;> cases created <;> cases e <;> simp_all [Seen.next, ResponseEvent.isDelta]

theorem Seen.next_textDone {q q' : Seen} {text : String} (h : q.next (.textDone text) = some q') :
    q' = { q with textDone := true } := by
  obtain ⟨created, textDone, audioDone, finished⟩ := q
  cases finished <;> cases created <;> simp_all [Seen.next]

theorem Seen.next_audioDone {q q' : Seen} (h : q.next .audioDone = some q') : q' = { q with audioDone := true } := by
  obtain ⟨created, textDone, audioDone, finished⟩ := q
  cases finished <;> cases created <;> simp_all [Seen.next]

/-- Reads the events of a response; `none` when one of them is not allowed. -/
def scan (l : List ResponseEvent) : Option Seen := l.foldlM Seen.next {}

theorem scan_append (l m : List ResponseEvent) : scan (l ++ m) = (scan l).bind fun q => m.foldlM Seen.next q := by
  simp only [scan, List.foldlM_append, Option.bind_eq_bind]

theorem scan_concat (l : List ResponseEvent) (e : ResponseEvent) : scan (l ++ [e]) = (scan l).bind (Seen.next · e) := by
  rw [scan_append]
  congr 1
  funext q
  simp

/-- Where the local flags of a response say that it is. -/
def Response.seen (r : Response) : Seen := { created := true, textDone := r.textDone, audioDone := r.audioDone }

/-- The events of the response among what is left to send. -/
def eventsOf (todo : List Outgoing) : List ResponseEvent :=
  todo.filterMap fun
    | .event e => some e
    | .error _ => none

/-- The terminals take a response to its end, with their status. -/
theorem scan_terminals {r : Response} {l : List ResponseEvent} (h : scan l = some r.seen) (text : String)
    (includeAudio : Bool) (status : Status) (reason : String) (error : Option String) :
    ∃ q, scan (l ++ eventsOf (r.terminals text includeAudio status reason error)) = some q ∧
      q.finished = some status := by
  rw [scan_append, h]
  cases ht : r.textDone <;> cases ha : r.audioDone <;> cases hs : r.sawAudio <;> cases includeAudio <;>
    cases error <;> simp [Response.terminals, eventsOf, Response.seen, Seen.next, ht, ha, hs]

namespace Session

/-! ### What holds of a session -/

/-- What has been sent for the response, with `rest`, ends it; and it is cancelled when it was asked for. -/
def Ends (s : Session) (n : Nat) (rest : List ResponseEvent) : Prop :=
  ∃ q status, scan (s.events n ++ rest) = some q ∧ q.finished = some status ∧ (status = .cancelled ↔ n ∈ s.asked)

/-- No response is marked. -/
structure Quiet (s : Session) : Prop where
  pending : s.responseStartPending = false
  pendingReason : s.pendingResponseCancelReason = none
  active : s.activeResponseRequestId = none
  cancelled : s.cancelledResponse = none
  finalized : s.finalizedResponseRequestId = none
  requested : s.cancelRequested = false

/-- A cancel that comes now waits for the response to start. -/
structure Pending (s : Session) : Prop where
  pending : s.responseStartPending = true
  cancelled : s.cancelledResponse = none
  finalized : s.finalizedResponseRequestId = none
  requested : s.cancelRequested = false
  asked : s.turn ∈ s.asked ↔ s.pendingResponseCancelReason.isSome = true

/-- The response has started, and has not claimed its terminal. -/
structure Open (s : Session) : Prop where
  pending : s.responseStartPending = false
  pendingReason : s.pendingResponseCancelReason = none
  finalized : s.finalizedResponseRequestId = none
  marked : s.cancelledResponse = none ∧ s.cancelRequested = false ∧ s.turn ∉ s.asked ∨
    ∃ reason, s.cancelledResponse = some (s.turn, reason) ∧ s.turn ∈ s.asked

/-- The terminal is claimed. -/
structure Claimed (s : Session) : Prop where
  pending : s.responseStartPending = false
  pendingReason : s.pendingResponseCancelReason = none
  finalized : s.finalizedResponseRequestId = some s.turn
  requested : s.cancelRequested = false
  cancelled : s.cancelledResponse = none ∨ ∃ reason, s.cancelledResponse = some (s.turn, reason)

/-- What a send of the loop leaves to do, and where it takes the response. -/
structure SendingOk (s : Session) (r : Response) (e : ResponseEvent) (c : Chunk) : Prop where
  inLoop : e ≠ .created ∧ ∀ status reason text, e ≠ .done status reason text
  fresh : ∀ d, e = .textDelta d → r.sendsAudio c = true → r.audioDone = false
  seen : ∃ q, r.seen.next e = some q ∧ scan (s.events s.turn) = some (if r.written then q else r.seen) ∧
    (r.written = true → s.cancelRequested = true → q = r.seen)

def RunningOk (s : Session) (r : Response) : Prop :=
  match r.phase with
  | .creating => Pending s ∧ scan (s.events s.turn) = some { created := r.written } ∧ r.textDone = false ∧
      r.audioDone = false
  | .streaming => Open s ∧ scan (s.events s.turn) = some r.seen
  | .sending e c => Open s ∧ SendingOk s r e c
  | .terminal todo => Claimed s ∧ Ends s s.turn (eventsOf todo)

def Current (s : Session) : Prop :=
  match s.stage with
  | .idle => Quiet s ∧ (s.events s.turn = [] ∨ Ends s s.turn [])
  | .transcribing => Quiet s ∧ Ends s s.turn []
  | .starting | .unstarted => Pending s ∧ s.activeResponseRequestId = none ∧ s.events s.turn = []
  | .running r => s.activeResponseRequestId = some s.turn ∧ RunningOk s r

structure Inv (s : Session) : Prop where
  later : ∀ n, s.turn < n → s.events n = [] ∧ n ∉ s.asked
  earlier : ∀ n, n < s.turn → s.events n = [] ∨ Ends s n []
  current : Current s

/-! The stage and the modalities are not among the marks of a response. -/

variable {s : Session} {r : Response}

theorem Quiet.frame (h : Quiet s) (stage : Stage) (audio : Bool) :
    Quiet { s with stage := stage, audioModality := audio } :=
  ⟨h.pending, h.pendingReason, h.active, h.cancelled, h.finalized, h.requested⟩

theorem Pending.frame (h : Pending s) (stage : Stage) (audio : Bool) :
    Pending { s with stage := stage, audioModality := audio } :=
  ⟨h.pending, h.cancelled, h.finalized, h.requested, h.asked⟩

theorem Open.frame (h : Open s) (stage : Stage) (audio : Bool) :
    Open { s with stage := stage, audioModality := audio } :=
  ⟨h.pending, h.pendingReason, h.finalized, h.marked⟩

theorem RunningOk.frame (h : RunningOk s r) (stage : Stage) (audio : Bool) :
    RunningOk { s with stage := stage, audioModality := audio } r := by
  unfold RunningOk at h ⊢
  cases hp : r.phase with
  | creating | streaming =>
    simp only [hp] at h
    exact ⟨h.1.frame stage audio, h.2⟩
  | sending e c =>
    simp only [hp] at h
    exact ⟨h.1.frame stage audio, h.2.inLoop, h.2.fresh, h.2.seen⟩
  | terminal todo =>
    simp only [hp] at h
    obtain ⟨claimed, ends⟩ := h
    exact ⟨⟨claimed.pending, claimed.pendingReason, claimed.finalized, claimed.requested, claimed.cancelled⟩, ends⟩

theorem Inv.initial : Inv {} where
  later := fun _ _ => ⟨rfl, by simp⟩
  earlier := fun _ h => nomatch h
  current := ⟨⟨rfl, rfl, rfl, rfl, rfl, rfl⟩, .inl rfl⟩

theorem events_emit_self (s : Session) (e : ResponseEvent) : (s.emit e).events s.turn = s.events s.turn ++ [e] := by
  simp [events, emit]

/-- A step of the current turn, which may send one event of it or be asked to cancel it. -/
theorem Inv.advance {s' : Session} (h : Inv s) (turn : s'.turn = s.turn)
    (sent : s'.sent = s.sent ∨ ∃ e, s'.sent = s.sent ++ [(s.turn, e)])
    (asked : s'.asked = s.asked ∨ s'.asked = s.turn :: s.asked) (current : Current s') : Inv s' := by
  have events : ∀ n, n ≠ s.turn → s'.events n = s.events n := by
    intro n hn
    obtain hs | ⟨e, hs⟩ := sent
    · simp only [Session.events, hs]
    · simp [Session.events, hs, Ne.symm hn]
  have mem : ∀ n, n ≠ s.turn → (n ∈ s'.asked ↔ n ∈ s.asked) := by
    intro n hn
    obtain ha | ha := asked
    · rw [ha]
    · rw [ha, List.mem_cons]
      simp [hn]
  refine ⟨?_, ?_, current⟩
  · intro n hn
    rw [turn] at hn
    have hne : n ≠ s.turn := Nat.ne_of_gt hn
    rw [events n hne, mem n hne]
    exact h.later n hn
  · intro n hn
    rw [turn] at hn
    have hne : n ≠ s.turn := Nat.ne_of_lt hn
    unfold Ends
    rw [events n hne, mem n hne]
    exact h.earlier n hn

/-! ### The loop over the chunks -/

theorem afterAudio_ok (c : Chunk) (isOpen : Open s)
    (seen : scan (s.events s.turn) = some r.seen) : RunningOk s (r.afterAudio c) := by
  unfold Response.afterAudio
  simp only
  split
  · rename_i hsend
    have pending : r.textDone = false := by simpa using (Bool.and_eq_true_iff.mp hsend).2
    refine ⟨isOpen, ⟨(fun he => nomatch he), (fun _ _ _ he => nomatch he)⟩, (fun _ he => nomatch he),
      { r.seen with textDone := true }, ?_, seen, (fun hw => nomatch hw)⟩
    simp [Seen.next, Response.seen, Response.sending, pending]
  · split
    · rename_i hsend
      have pending : r.audioDone = false := by simpa using (Bool.and_eq_true_iff.mp hsend).2
      refine ⟨isOpen, ⟨(fun he => nomatch he), (fun _ _ _ he => nomatch he)⟩, (fun _ he => nomatch he),
        { r.seen with audioDone := true }, ?_, seen, (fun hw => nomatch hw)⟩
      simp [Seen.next, Response.seen, Response.sending, pending]
    · exact ⟨isOpen, seen⟩

variable {c : Chunk} {e : ResponseEvent}

theorem afterText_ok (isOpen : Open s)
    (seen : scan (s.events s.turn) = some r.seen) (fresh : r.sendsAudio c = true → r.audioDone = false) :
    RunningOk s (r.afterText c) := by
  unfold Response.afterText
  split
  · rename_i hsend
    refine ⟨isOpen, ⟨(fun he => nomatch he), (fun _ _ _ he => nomatch he)⟩, (fun _ he => nomatch he), r.seen, ?_, seen,
      (fun hw => nomatch hw)⟩
    simp [Seen.next, Response.seen, Response.sending, fresh hsend]
  · exact afterAudio_ok c isOpen seen

/-- The chunk sends a delta of a modality that has ended. -/
def late (r : Response) (c : Chunk) : Bool := r.textDone && r.sendsText c || r.audioDone && r.sendsAudio c

theorem onChunk_ok (isOpen : Open s)
    (seen : scan (s.events s.turn) = some r.seen) (fresh : late r c = false) : RunningOk s (r.onChunk c) := by
  obtain ⟨freshText, freshAudio⟩ := Bool.or_eq_false_iff.mp fresh
  have audio : r.sendsAudio c = true → r.audioDone = false := by
    intro hs
    rw [hs] at freshAudio
    simpa using freshAudio
  unfold Response.onChunk
  split
  · rename_i hsend
    have text : r.textDone = false := by
      rw [hsend] at freshText
      simpa using freshText
    refine ⟨isOpen, ⟨(fun he => nomatch he), (fun _ _ _ he => nomatch he)⟩, fun _ _ => audio, r.seen, ?_, seen,
      (fun hw => nomatch hw)⟩
    simp [Seen.next, Response.seen, Response.sending, text]
  · exact afterText_ok isOpen seen audio

theorem afterSend_ok (isOpen : Open s)
    (ok : SendingOk s r e c) (written : r.written = true) : RunningOk s (r.afterSend c e) := by
  obtain ⟨inLoop, fresh, q, hq, hscan, -⟩ := ok
  rw [written, if_pos rfl] at hscan
  cases e with
  | textDelta d => exact afterText_ok isOpen (Seen.next_delta hq rfl ▸ hscan) (fresh d rfl)
  | audioDelta d => exact afterAudio_ok c isOpen (Seen.next_delta hq rfl ▸ hscan)
  | textDone text => exact ⟨isOpen, hscan.trans (congrArg some (Seen.next_textDone hq))⟩
  | audioDone => exact ⟨isOpen, hscan.trans (congrArg some (Seen.next_audioDone hq))⟩
  | created => exact absurd rfl inLoop.1
  | done status reason text => exact absurd rfl (inLoop.2 status reason text)

/-! ### The terminals -/

theorem Open.isCancelled_iff (h : Open s) : s.isCancelled = true ↔ s.turn ∈ s.asked := by
  obtain ⟨hn, -, ha⟩ | ⟨reason, hc, ha⟩ := h.marked
  · simp [isCancelled, hn, ha]
  · simp [isCancelled, hc, ha]

variable {todo : List Outgoing}

/-- The claim of the terminal, with terminals that end the response. -/
theorem claim_current (active : s.activeResponseRequestId = some s.turn) (pending : s.responseStartPending = false)
    (pendingReason : s.pendingResponseCancelReason = none)
    (cancelled : s.cancelledResponse = none ∨ ∃ reason, s.cancelledResponse = some (s.turn, reason))
    (ends : Ends s s.turn (eventsOf todo)) : Current (s.claim r todo) :=
  ⟨active, ⟨pending, pendingReason, rfl, rfl, cancelled⟩, ends⟩

section
variable (h : Open s) (active : s.activeResponseRequestId = some s.turn) (seen : scan (s.events s.turn) = some r.seen)
include h active seen

theorem Open.claim {text : String} {includeAudio : Bool} {status : Status} {reason : String}
    {error : Option String} (asked : status = .cancelled ↔ s.turn ∈ s.asked) :
    Current (s.claim r (r.terminals text includeAudio status reason error)) := by
  refine claim_current active h.pending h.pendingReason ?_ ?_
  · obtain ⟨hn, -⟩ | ⟨reason, hc, -⟩ := h.marked
    · exact .inl hn
    · exact .inr ⟨reason, hc⟩
  · obtain ⟨q, hq, hf⟩ := scan_terminals seen text includeAudio status reason error
    exact ⟨q, status, hq, hf, asked⟩

theorem Open.afterStream : Current (s.afterStream r) := by
  unfold Session.afterStream
  split
  · rename_i hc
    exact h.claim active seen ⟨fun _ => h.isCancelled_iff.mp hc, fun _ => rfl⟩
  · rename_i hc
    have notAsked : s.turn ∉ s.asked := fun ha => hc (h.isCancelled_iff.mpr ha)
    split
    · exact h.claim active seen ⟨(fun hs => nomatch hs), fun ha => absurd ha notAsked⟩
    · exact h.claim active seen ⟨(fun hs => nomatch hs), fun ha => absurd ha notAsked⟩

theorem Open.afterError : Current (s.afterError r) := by
  unfold Session.afterError
  simp only
  split
  · rename_i hc
    exact h.claim active seen ⟨fun _ => h.isCancelled_iff.mp hc, fun _ => rfl⟩
  · rename_i hc
    exact h.claim active seen ⟨(fun hs => nomatch hs), fun ha => absurd (h.isCancelled_iff.mpr ha) hc⟩

theorem Open.afterInterrupt (requested : s.cancelRequested = true) :
    Current (s.afterInterrupt r) := by
  have asked : s.turn ∈ s.asked := by
    obtain ⟨-, hn, -⟩ | ⟨_, _, ha⟩ := h.marked
    · rw [requested] at hn
      cases hn
    · exact ha
  exact h.claim active seen ⟨fun _ => asked, fun _ => rfl⟩

end

/-- A cancel that came before `response.created` was sent ends the response at once. -/
theorem Pending.afterCreated (h : Pending s)
    (active : s.activeResponseRequestId = some s.turn) (seen : scan (s.events s.turn) = some r.seen) :
    Current (s.afterCreated r) := by
  unfold Session.afterCreated
  simp only
  split
  · rename_i hnone
    refine ⟨active, ⟨rfl, rfl, h.finalized, .inl ⟨h.cancelled, h.requested, ?_⟩⟩, seen⟩
    intro ha
    have := h.asked.mp ha
    rw [hnone] at this
    cases this
  · rename_i reason hreason
    refine claim_current active rfl rfl (.inr ⟨reason, rfl⟩) ?_
    obtain ⟨q, hq, hf⟩ := scan_terminals seen "" false .cancelled reason none
    exact ⟨q, .cancelled, hq, hf, ⟨fun _ => h.asked.mpr (by rw [hreason]; rfl), fun _ => rfl⟩⟩

theorem Claimed.release (h : Claimed s) (active : s.activeResponseRequestId = some s.turn)
    (ends : Ends s s.turn []) : Current s.release := by
  refine ⟨⟨h.pending, h.pendingReason, by simp [Session.release, active], ?_, by simp [Session.release, h.finalized],
    h.requested⟩, ends⟩
  obtain hc | ⟨reason, hc⟩ := h.cancelled
  · simp [Session.release, isCancelled, hc]
  · simp [Session.release, isCancelled, hc]

/-! ### Steps -/

theorem emit_open (h : Open s) (r : Response) (e : ResponseEvent) : Open ((s.setResponse r).emit e) :=
  ⟨h.pending, h.pendingReason, h.finalized, h.marked⟩

theorem Inv.write (h : Inv s) (hr : s.stage = .running r) :
    Inv (s.stepResponse r .write) := by
  have current := h.current
  simp only [Current, hr] at current
  obtain ⟨active, ok⟩ := current
  have sent : ∀ (r' : Response) (e : ResponseEvent), Current ((s.setResponse r').emit e) →
      Inv ((s.setResponse r').emit e) :=
    fun r' e current => h.advance rfl (.inr ⟨e, rfl⟩) (.inl rfl) current
  have next : ∀ (r' : Response) (e : ResponseEvent),
      scan (((s.setResponse r').emit e).events s.turn) = (scan (s.events s.turn)).bind (Seen.next · e) := by
    intro r' e
    rw [← scan_concat]
    exact congrArg scan (events_emit_self (s.setResponse r') e)
  simp only [stepResponse]
  cases hp : r.phase with
  | creating =>
    simp only [RunningOk, hp] at ok
    obtain ⟨pending, seen, ht, ha⟩ := ok
    simp only
    split
    · exact h
    · rename_i hw
      refine sent _ _ ⟨active, ?_⟩
      simp only [RunningOk]
      refine ⟨⟨pending.pending, pending.cancelled, pending.finalized, pending.requested, pending.asked⟩, ?_, ht, ha⟩
      refine (next _ _).trans ?_
      rw [seen, Bool.eq_false_iff.mpr hw]
      rfl
  | streaming => exact h
  | sending e c =>
    simp only [RunningOk, hp] at ok
    obtain ⟨isOpen, inLoop, fresh, q, hq, seen, -⟩ := ok
    simp only
    split
    · exact h
    · rename_i hw
      simp only [Bool.or_eq_true, not_or, Bool.not_eq_true] at hw
      refine sent _ _ ⟨active, ?_⟩
      simp only [RunningOk]
      refine ⟨emit_open isOpen _ _, inLoop, fresh, q, hq, ?_, ?_⟩
      · refine (next _ _).trans ?_
        rw [seen, hw.1]
        exact hq
      · intro _ hreq
        rw [show ((s.setResponse _).emit e).cancelRequested = s.cancelRequested from rfl, hw.2] at hreq
        cases hreq
  | terminal todo =>
    simp only [RunningOk, hp] at ok
    obtain ⟨claimed, q, status, hq, hf, hasked⟩ := ok
    cases todo with
    | nil => exact h
    | cons out rest =>
      cases out with
      | event e =>
        refine sent _ _ ⟨active, ⟨claimed.pending, claimed.pendingReason, claimed.finalized, claimed.requested,
          claimed.cancelled⟩, q, status, ?_, hf, hasked⟩
        rw [show ((s.setResponse _).emit e).turn = s.turn from rfl,
          show ((s.setResponse _).emit e).events s.turn = s.events s.turn ++ [e] from
            events_emit_self (s.setResponse { r with phase := .terminal rest }) e, List.append_assoc]
        exact hq
      | error code =>
        exact h.advance rfl (.inl rfl) (.inl rfl) ⟨active, ⟨claimed.pending, claimed.pendingReason, claimed.finalized,
          claimed.requested, claimed.cancelled⟩, q, status, hq, hf, hasked⟩

/-- The response runs on, and nothing is sent. -/
theorem Inv.setResponse (h : Inv s) (active : s.activeResponseRequestId = some s.turn)
    (ok : RunningOk s r) : Inv (s.setResponse r) :=
  h.advance rfl (.inl rfl) (.inl rfl) ⟨active, ok.frame (.running r) s.audioModality⟩

theorem claim_advance (h : Inv s) (current : Current (s.claim r todo)) :
    Inv (s.claim r todo) :=
  h.advance rfl (.inl rfl) (.inl rfl) current

theorem Inv.sendReturns (h : Inv s) (hr : s.stage = .running r) :
    Inv (s.stepResponse r .sendReturns) := by
  have current := h.current
  simp only [Current, hr] at current
  obtain ⟨active, ok⟩ := current
  simp only [stepResponse]
  cases hp : r.phase with
  | creating =>
    simp only [RunningOk, hp] at ok
    obtain ⟨pending, seen, ht, ha⟩ := ok
    simp only
    split
    · rename_i hw
      refine h.advance ?_ ?_ ?_ (pending.afterCreated active ?_)
      · unfold Session.afterCreated
        split <;> rfl
      · unfold Session.afterCreated
        split <;> exact .inl rfl
      · unfold Session.afterCreated
        split <;> exact .inl rfl
      · rw [seen, hw, Response.seen, ht, ha]
    · exact h
  | streaming => exact h
  | sending e c =>
    simp only [RunningOk, hp] at ok
    simp only
    split
    · rename_i hw
      exact h.setResponse active (afterSend_ok ok.1 ok.2 (Bool.and_eq_true_iff.mp hw).1)
    · exact h
  | terminal todo => exact h

/-- What the loop leaves behind at the end of the stream, an error or a cancel. -/
theorem Inv.stepStreaming (h : Inv s) (hr : s.stage = .running r)
    (hp : r.phase = .streaming) {s' : Session} (turn : s'.turn = s.turn) (sent : s'.sent = s.sent)
    (asked : s'.asked = s.asked)
    (current : s.activeResponseRequestId = some s.turn → Open s → scan (s.events s.turn) = some r.seen → Current s') :
    Inv s' := by
  have now := h.current
  simp only [Current, hr, RunningOk, hp] at now
  exact h.advance turn (.inl sent) (.inl asked) (current now.1 now.2.1 now.2.2)

theorem claim_frame (s : Session) (r : Response) (todo : List Outgoing) :
    (s.claim r todo).turn = s.turn ∧ (s.claim r todo).sent = s.sent ∧ (s.claim r todo).asked = s.asked :=
  ⟨rfl, rfl, rfl⟩

theorem afterStream_frame (s : Session) (r : Response) :
    (s.afterStream r).turn = s.turn ∧ (s.afterStream r).sent = s.sent ∧ (s.afterStream r).asked = s.asked := by
  unfold Session.afterStream
  split
  · exact claim_frame ..
  · split <;> exact claim_frame ..

theorem afterError_frame (s : Session) (r : Response) :
    (s.afterError r).turn = s.turn ∧ (s.afterError r).sent = s.sent ∧ (s.afterError r).asked = s.asked := by
  unfold Session.afterError
  simp only
  split <;> exact claim_frame ..

theorem Inv.interrupt (h : Inv s) (hr : s.stage = .running r) :
    Inv (s.stepResponse r .interrupt) := by
  have current := h.current
  simp only [Current, hr] at current
  obtain ⟨active, ok⟩ := current
  simp only [stepResponse]
  cases hp : r.phase with
  | creating => exact h
  | streaming =>
    simp only [RunningOk, hp] at ok
    simp only
    split
    · exact claim_advance h (ok.1.afterInterrupt active ok.2 ‹_›)
    · exact h
  | sending e c =>
    simp only [RunningOk, hp] at ok
    obtain ⟨isOpen, -, -, q, -, seen, mid⟩ := ok
    simp only
    split
    · rename_i hreq
      refine claim_advance h (isOpen.afterInterrupt active ?_ hreq)
      rw [seen]
      split
      · rw [mid ‹_› hreq]
      · rfl
    · exact h
  | terminal todo => exact h

/-- A cancel is thrown into the send of a terminal of the loop after its frame is written. -/
def midTerminal (s : Session) : Bool :=
  match s.stage with
  | .running r => match r.phase with
    | .sending e _ => r.written && !e.isDelta
    | _ => false
  | _ => false

/-- The steps that put the flags of a response behind its events. -/
def disturbs (s : Session) : Event → Bool
  | .chunk c =>
    match s.stage with
    | .running r => match r.phase with
      | .streaming => !s.isCancelled && late r c
      | _ => false
    | _ => false
  | .responseCancel => s.midTerminal
  | .speechStarted interruptResponse => s.responseHasAudio && interruptResponse && s.midTerminal
  | _ => false

theorem Inv.stepResponse (h : Inv s) (hr : s.stage = .running r) (e : Event)
    (calm : s.disturbs e = false) : Inv (s.stepResponse r e) := by
  cases e with
  | write => exact h.write hr
  | sendReturns => exact h.sendReturns hr
  | interrupt => exact h.interrupt hr
  | chunk c =>
    simp only [Session.stepResponse]
    split
    · rename_i hp
      split
      · exact h
      · rename_i hc
        simp only [disturbs, hr, hp, Bool.eq_false_iff.mpr hc, Bool.not_false, Bool.true_and] at calm
        have current := h.current
        simp only [Current, hr, RunningOk, hp] at current
        exact h.setResponse current.1 (onChunk_ok current.2.1 current.2.2 calm)
    · exact h
  | streamEnds =>
    simp only [Session.stepResponse]
    split
    · rename_i hp
      obtain ⟨turn, sent, asked⟩ := afterStream_frame s r
      exact h.stepStreaming hr hp turn sent asked (fun active isOpen seen => isOpen.afterStream active seen)
    · exact h
  | engineError =>
    simp only [Session.stepResponse]
    split
    · rename_i hp
      obtain ⟨turn, sent, asked⟩ := afterError_frame s r
      exact h.stepStreaming hr hp turn sent asked (fun active isOpen seen => isOpen.afterError active seen)
    · exact h
  | responseReturns =>
    simp only [Session.stepResponse]
    split
    · rename_i hp
      have current := h.current
      simp only [Current, hr, RunningOk, hp] at current
      obtain ⟨active, claimed, ends⟩ := current
      exact h.advance rfl (.inl rfl) (.inl rfl) (claimed.release active ends)
    · exact h
  | _ => exact h

theorem Quiet.cancelActiveResponse_eq (h : Quiet s) (reason : String) : s.cancelActiveResponse reason = s := by
  simp [cancelActiveResponse, h.pending, h.active]

theorem Claimed.cancelActiveResponse_eq (h : Claimed s) (active : s.activeResponseRequestId = some s.turn)
    (reason : String) : s.cancelActiveResponse reason = s := by
  simp [cancelActiveResponse, h.pending, active, h.finalized]

/-- A cancel that comes after the claim of the terminal, or between two turns, changes nothing. -/
theorem Inv.cancel_eq (h : Inv s) (reason : String) (late : s.unclaimed = false) : s.cancel reason = s := by
  have current := h.current
  have same : s.cancelActiveResponse reason = s := by
    cases hs : s.stage with
    | idle | transcribing =>
      simp only [Current, hs] at current
      exact current.1.cancelActiveResponse_eq reason
    | starting | unstarted => simp [unclaimed, hs] at late
    | running r =>
      simp only [unclaimed, hs] at late
      cases hp : r.phase with
      | terminal todo =>
        simp only [Current, hs, RunningOk, hp] at current
        exact current.2.1.cancelActiveResponse_eq current.1 reason
      | creating => simp [hp] at late
      | streaming => simp [hp] at late
      | sending e c => simp [hp] at late
  rw [Session.cancel, same, late]
  rfl

/-- A cancel that waits for the response to start. -/
theorem Pending.cancel (h : Pending s) (reason : String) (unclaimed : s.unclaimed = true) :
    s.cancel reason = { s with
      pendingResponseCancelReason := some (s.pendingResponseCancelReason.getD reason), asked := s.turn :: s.asked } ∧
    Pending (s.cancel reason) := by
  have hs : s.cancel reason = { s with
      pendingResponseCancelReason := some (s.pendingResponseCancelReason.getD reason), asked :=
        s.turn :: s.asked } := by
    simp [Session.cancel, cancelActiveResponse, h.pending, unclaimed]
  refine ⟨hs, ?_⟩
  rw [hs]
  exact ⟨h.pending, h.cancelled, h.finalized, h.requested, by simp⟩

/-- A cancel of a response that has started. -/
theorem Open.cancel (h : Open s) (active : s.activeResponseRequestId = some s.turn) (reason : String)
    (unclaimed : s.unclaimed = true) : Open (s.cancel reason) := by
  obtain ⟨hn, -⟩ | ⟨reason', hc, ha⟩ := h.marked
  · have hs : s.cancel reason = { s with
        cancelledResponse := some (s.turn, reason), cancelRequested := true, asked := s.turn :: s.asked } := by
      simp [Session.cancel, cancelActiveResponse, h.pending, active, h.finalized, hn, unclaimed]
    rw [hs]
    exact ⟨h.pending, h.pendingReason, h.finalized, .inr ⟨reason, rfl, List.mem_cons_self ..⟩⟩
  · have hs : s.cancel reason = { s with asked := s.turn :: s.asked } := by
      simp [Session.cancel, cancelActiveResponse, h.pending, active, hc, unclaimed]
    rw [hs]
    exact ⟨h.pending, h.pendingReason, h.finalized, .inr ⟨reason', hc, List.mem_cons_self ..⟩⟩

theorem cancel_frame (s : Session) (reason : String) :
    (s.cancel reason).turn = s.turn ∧ (s.cancel reason).sent = s.sent ∧ (s.cancel reason).stage = s.stage ∧
      (s.cancel reason).activeResponseRequestId = s.activeResponseRequestId := by
  simp only [Session.cancel, cancelActiveResponse]
  split
  · exact ⟨rfl, rfl, rfl, rfl⟩
  · split
    · exact ⟨rfl, rfl, rfl, rfl⟩
    · split <;> exact ⟨rfl, rfl, rfl, rfl⟩

theorem Inv.cancel (h : Inv s) (reason : String) (calm : s.midTerminal = false) : Inv (s.cancel reason) := by
  cases hu : s.unclaimed with
  | false =>
    rw [h.cancel_eq reason hu]
    exact h
  | true =>
    obtain ⟨turn, sent, stage, active⟩ := cancel_frame s reason
    have events : (s.cancel reason).events = s.events := by
      funext n
      simp only [Session.events, sent]
    have current := h.current
    refine h.advance turn (.inl sent) (.inr ?_) ?_
    · simp [Session.cancel, hu]
    · unfold Current
      rw [stage, turn, active, events]
      cases hs : s.stage with
      | idle | transcribing => simp [unclaimed, hs] at hu
      | starting | unstarted =>
        simp only [Current, hs] at current
        exact ⟨(current.1.cancel reason hu).2, current.2⟩
      | running r =>
        simp only [Current, hs] at current
        obtain ⟨hact, ok⟩ := current
        refine ⟨hact, ?_⟩
        unfold RunningOk at ok ⊢
        rw [turn, events]
        cases hp : r.phase with
        | creating =>
          simp only [hp] at ok
          exact ⟨(ok.1.cancel reason hu).2, ok.2⟩
        | streaming =>
          simp only [hp] at ok
          exact ⟨ok.1.cancel hact reason hu, ok.2⟩
        | sending e c =>
          simp only [hp] at ok
          obtain ⟨isOpen, inLoop, fresh, q, hq, seen, -⟩ := ok
          refine ⟨isOpen.cancel hact reason hu, inLoop, fresh, q, hq, by rw [turn, events]; exact seen, ?_⟩
          -- A frame that is written when the cancel comes is a delta's.
          intro hw _
          simp only [midTerminal, hs, hp, hw, Bool.true_and, Bool.not_eq_false'] at calm
          exact Seen.next_delta hq calm
        | terminal todo => simp [unclaimed, hs, hp] at hu

theorem Inv.step {e : Event} (h : Inv s) (calm : s.disturbs e = false) : Inv (s.step e) := by
  have response : ∀ e, s.disturbs e = false →
      Inv (match s.stage with | .running r => s.stepResponse r e | _ => s) := by
    intro e calm
    split
    · exact h.stepResponse ‹_› e calm
    · exact h
  cases e with
  | sessionUpdate audio =>
    refine h.advance rfl (.inl rfl) (.inl rfl) ?_
    have current := h.current
    unfold Current at current ⊢
    simp only [Session.step]
    cases hs : s.stage with
    | running r =>
      simp only [hs] at current
      exact ⟨current.1, current.2.frame _ audio⟩
    | idle | transcribing | starting | unstarted =>
      simp only [hs] at current
      exact ⟨current.1.frame _ audio, current.2⟩
  | nextTurn =>
    simp only [Session.step]
    split
    · rename_i hs
      have current := h.current
      simp only [Current, hs] at current
      obtain ⟨quiet, past⟩ := current
      obtain ⟨hevents, hasked⟩ := h.later (s.turn + 1) (Nat.lt_succ_self _)
      refine ⟨?_, ?_, ⟨rfl, quiet.cancelled, quiet.finalized, quiet.requested, ?_⟩, quiet.active, hevents⟩
      · exact fun n hn => h.later n (Nat.lt_of_succ_lt hn)
      · intro n hn
        obtain hlt | rfl := Nat.lt_succ_iff_lt_or_eq.mp hn
        · exact h.earlier n hlt
        · exact past
      · rw [show ({ s with turn := s.turn + 1, stage := .starting, responseStartPending := true } :
          Session).pendingResponseCancelReason = none from quiet.pendingReason]
        exact ⟨fun ha => absurd ha hasked, (fun hn => nomatch hn)⟩
    · exact h
  | runResponse =>
    simp only [Session.step]
    split
    · rename_i hs
      have current := h.current
      simp only [Current, hs] at current
      obtain ⟨pending, -, hevents⟩ := current
      refine h.advance rfl (.inl rfl) (.inl rfl) ⟨rfl, ?_⟩
      refine ⟨⟨pending.pending, pending.cancelled, pending.finalized, pending.requested, pending.asked⟩, ?_, rfl, rfl⟩
      exact (congrArg scan hevents).trans rfl
    · exact h
  | buildFails =>
    simp only [Session.step]
    split
    · rename_i hs
      have current := h.current
      simp only [Current, hs] at current
      exact h.advance rfl (.inl rfl) (.inl rfl) ⟨current.1.frame _ s.audioModality, current.2⟩
    · exact h
  | turnEnds =>
    simp only [Session.step]
    split
    · rename_i hs
      have current := h.current
      simp only [Current, hs] at current
      obtain ⟨quiet, past⟩ := current
      exact h.advance rfl (.inl rfl) (.inl rfl)
        ⟨⟨rfl, rfl, quiet.active, quiet.cancelled, quiet.finalized, quiet.requested⟩, .inr past⟩
    · rename_i hs
      have current := h.current
      simp only [Current, hs] at current
      obtain ⟨pending, active, hevents⟩ := current
      exact h.advance rfl (.inl rfl) (.inl rfl)
        ⟨⟨rfl, rfl, active, pending.cancelled, pending.finalized, pending.requested⟩, .inl hevents⟩
    · exact h
  | responseCancel => exact h.cancel _ calm
  | speechStarted interruptResponse =>
    simp only [Session.step]
    split
    · rename_i hi
      simp only [disturbs, hi, Bool.true_and] at calm
      exact h.cancel _ calm
    · exact h
  | write => exact response _ calm
  | sendReturns => exact response _ calm
  | chunk c => exact response _ calm
  | streamEnds => exact response _ calm
  | engineError => exact response _ calm
  | interrupt => exact response _ calm
  | responseReturns => exact response _ calm

/-! ### A response can always end -/

/-- The steps that a response takes without a chunk or a cancel. -/
def isOwn : Event → Bool
  | .write | .sendReturns | .streamEnds | .interrupt | .responseReturns => true
  | _ => false

theorem disturbs_own (s : Session) {e : Event} (h : isOwn e = true) : s.disturbs e = false := by
  cases e <;> first | rfl | cases h

/-- There is a way on by its own steps in which `run_response` returns. -/
def CanEnd (s : Session) : Prop :=
  ∃ es : List Event, (∀ e ∈ es, isOwn e = true) ∧ (run step s es).stage = .transcribing ∧ (run step s es).turn = s.turn

theorem CanEnd.next {t : Session} (e : Event) (own : isOwn e = true) (hs : s.step e = t) (turn : t.turn = s.turn)
    (h : CanEnd t) : CanEnd s := by
  obtain ⟨es, hes, hstage, hturn⟩ := h
  refine ⟨e :: es, ?_, ?_, ?_⟩
  · intro x hx
    obtain rfl | hx := List.mem_cons.mp hx
    · exact own
    · exact hes x hx
  · rw [run, hs]
    exact hstage
  · rw [run, hs]
    exact hturn.trans turn

theorem canEnd_terminal (hs : s.stage = .running r) (hp : r.phase = .terminal todo) : CanEnd s := by
  induction todo generalizing s r with
  | nil =>
    refine CanEnd.next .responseReturns rfl (t := s.release) ?_ rfl ⟨[], (fun _ h => nomatch h), rfl, rfl⟩
    simp [step, stepResponse, hs, hp]
  | cons out rest ih =>
    cases out with
    | event e =>
      refine CanEnd.next .write rfl (t := (s.setResponse { r with phase := .terminal rest }).emit e) ?_ rfl
        (ih (r := { r with phase := .terminal rest }) rfl rfl)
      simp [step, stepResponse, hs, hp]
    | error code =>
      refine CanEnd.next .write rfl
        (t := { s.setResponse { r with phase := .terminal rest } with errors := s.errors ++ [code] }) ?_ rfl
        (ih (r := { r with phase := .terminal rest }) rfl rfl)
      simp [step, stepResponse, hs, hp]

theorem canEnd_claim (s : Session) (r : Response) (todo : List Outgoing) : CanEnd (s.claim r todo) :=
  canEnd_terminal (r := { r with phase := .terminal todo, written := false }) rfl rfl

theorem canEnd_streaming (hs : s.stage = .running r) (hp : r.phase = .streaming) :
    CanEnd s := by
  have ends : CanEnd (s.afterStream r) := by
    unfold Session.afterStream
    split
    · exact canEnd_claim ..
    · split <;> exact canEnd_claim ..
  refine CanEnd.next .streamEnds rfl ?_ (afterStream_frame s r).1 ends
  simp [step, stepResponse, hs, hp]

/-- A send of the loop writes its frame and returns, or is interrupted. -/
theorem canEnd_sending (hs : s.stage = .running r) (hp : r.phase = .sending e c)
    (after : ∀ s' r', s'.stage = .running (Response.afterSend r' c e) → r'.phase = .sending e c → CanEnd s') :
    CanEnd s := by
  cases hreq : s.cancelRequested with
  | true =>
    refine CanEnd.next .interrupt rfl (t := s.afterInterrupt r) ?_ rfl (canEnd_claim ..)
    simp [step, stepResponse, hs, hp, hreq]
  | false =>
    have written : ∀ s' r', s'.stage = .running r' → r'.phase = .sending e c → r'.written = true →
        s'.cancelRequested = false → CanEnd s' := by
      intro s' r' hs' hp' hw hreq'
      refine CanEnd.next .sendReturns rfl (t := s'.setResponse (r'.afterSend c e)) ?_ rfl (after _ r' rfl hp')
      simp [step, stepResponse, hs', hp', hw, hreq']
    cases hw : r.written with
    | true => exact written s r hs hp hw hreq
    | false =>
      refine CanEnd.next .write rfl (t := (s.setResponse { r with written := true }).emit e) ?_ rfl
        (written _ { r with written := true } rfl hp rfl hreq)
      simp [step, stepResponse, hs, hp, hw, hreq]

theorem canEnd_done (hs : s.stage = .running r)
    (hp : r.phase = .sending e c) (done : e = .audioDone ∨ ∃ text, e = .textDone text) : CanEnd s := by
  refine canEnd_sending hs hp ?_
  intro s' r' hs' _
  obtain rfl | ⟨text, rfl⟩ := done
  · exact canEnd_streaming hs' rfl
  · exact canEnd_streaming hs' rfl

theorem canEnd_afterAudio (hs : s.stage = .running (r.afterAudio c)) :
    CanEnd s := by
  unfold Response.afterAudio at hs
  simp only at hs
  split at hs
  · exact canEnd_done hs rfl (.inr ⟨_, rfl⟩)
  · split at hs
    · exact canEnd_done hs rfl (.inl rfl)
    · exact canEnd_streaming hs rfl

theorem canEnd_afterText (hs : s.stage = .running (r.afterText c)) :
    CanEnd s := by
  unfold Response.afterText at hs
  split at hs
  · exact canEnd_sending hs rfl (fun s' r' hs' _ => canEnd_afterAudio (r := r') hs')
  · exact canEnd_afterAudio hs

theorem Inv.canEnd (h : Inv s) (hs : s.stage = .running r) : CanEnd s := by
  have current := h.current
  simp only [Current, hs] at current
  cases hp : r.phase with
  | terminal todo => exact canEnd_terminal hs hp
  | streaming => exact canEnd_streaming hs hp
  | sending e c =>
    simp only [RunningOk, hp] at current
    obtain ⟨-, -, inLoop, -⟩ := current
    cases e with
    | created => exact absurd rfl inLoop.1
    | done status reason text => exact absurd rfl (inLoop.2 status reason text)
    | textDelta d => exact canEnd_sending hs hp (fun s' r' hs' _ => canEnd_afterText (r := r') hs')
    | audioDelta d => exact canEnd_sending hs hp (fun s' r' hs' _ => canEnd_afterAudio (r := r') hs')
    | textDone text => exact canEnd_done hs hp (.inr ⟨text, rfl⟩)
    | audioDone => exact canEnd_done hs hp (.inl rfl)
  | creating =>
    have written : ∀ s' r', s'.stage = .running r' → r'.phase = .creating → r'.written = true → CanEnd s' := by
      intro s' r' hs' hp' hw
      have ends : CanEnd (s'.afterCreated r') := by
        unfold Session.afterCreated
        simp only
        split
        · exact canEnd_streaming (r := r'.streaming) rfl rfl
        · exact canEnd_claim ..
      refine CanEnd.next .sendReturns rfl ?_ ?_ ends
      · simp [Session.step, Session.stepResponse, hs', hp', hw]
      · unfold Session.afterCreated
        split <;> rfl
    cases hw : r.written with
    | true => exact written s r hs hp hw
    | false =>
      refine CanEnd.next .write rfl (t := (s.setResponse { r with written := true }).emit .created) ?_ rfl
        (written _ { r with written := true } rfl hp rfl)
      simp [Session.step, Session.stepResponse, hs, hp, hw]

/-! ### The protocol holds -/

theorem finished_last {l m : List ResponseEvent} {q q' : Seen} {status : Status} (h : scan l = some q)
    (finished : q.finished = some status) (h' : scan (l ++ m) = some q') : q' = q := by
  rw [scan_append, h] at h'
  cases m with
  | nil => exact (Option.some.inj h').symm
  | cons e rest =>
    have stuck : q.next e = none := by
      unfold Seen.next
      rw [finished]
    rw [Option.bind_some, List.foldlM_cons, stuck] at h'
    cases h'

theorem next_finished {q q' : Seen} (h : q.next e = some q')
    (inLoop : ∀ status reason text, e ≠ .done status reason text) : q'.finished = none := by
  obtain ⟨created, textDone, audioDone, finished⟩ := q
  cases finished <;> cases created <;> cases e <;> simp_all [Seen.next]
  all_goals grind

/-- What a client can rely on. -/
structure Protocol (s : Session) : Prop where
  /-- Every event of a response is allowed after the ones before it. -/
  allowed : ∀ n, ∃ q, scan (s.events n) = some q
  /-- A response that is over has ended, with one `response.done`, unless it had no event at all. -/
  ended : ∀ n, n < s.turn ∨ n = s.turn ∧ s.stage = .transcribing → s.events n = [] ∨
    ∃ q status, scan (s.events n) = some q ∧ q.finished = some status
  ends : ∀ r, s.stage = .running r → ∃ es q status,
    scan ((run step s es).events s.turn) = some q ∧ q.finished = some status
  /-- It is cancelled exactly when a cancel came before the claim of its terminal. -/
  status : ∀ n q status, scan (s.events n) = some q → q.finished = some status → (status = .cancelled ↔ n ∈ s.asked)
  /-- A cancel that comes later changes nothing. -/
  late : ∀ reason, s.unclaimed = false → s.cancel reason = s

/-- Where the events of a response that is not over are. -/
theorem RunningOk.scanned (h : RunningOk s r) :
    ∃ q, scan (s.events s.turn) = some q ∧
      ∀ status, q.finished = some status → (status = .cancelled ↔ s.turn ∈ s.asked) := by
  unfold RunningOk at h
  cases hp : r.phase with
  | creating =>
    simp only [hp] at h
    exact ⟨_, h.2.1, (fun _ hf => nomatch hf)⟩
  | streaming =>
    simp only [hp] at h
    exact ⟨_, h.2, (fun _ hf => nomatch hf)⟩
  | sending e c =>
    simp only [hp] at h
    obtain ⟨-, inLoop, -, q, hq, hscan, -⟩ := h
    refine ⟨_, hscan, ?_⟩
    intro status hf
    split at hf
    · rw [next_finished hq inLoop.2] at hf
      cases hf
    · cases hf
  | terminal todo =>
    simp only [hp] at h
    obtain ⟨-, q', status', hq', hf', hasked⟩ := h
    cases hscan : scan (s.events s.turn) with
    | none =>
      rw [scan_append, hscan] at hq'
      cases hq'
    | some q =>
      refine ⟨q, rfl, ?_⟩
      intro status hf
      rw [finished_last hscan hf hq', hf] at hf'
      cases hf'
      exact hasked

theorem Ends.scanned {n : Nat} (h : Ends s n []) :
    ∃ q, scan (s.events n) = some q ∧ ∀ status, q.finished = some status → (status = .cancelled ↔ n ∈ s.asked) := by
  obtain ⟨q, status, hq, hf, hasked⟩ := h
  rw [List.append_nil] at hq
  refine ⟨q, hq, ?_⟩
  intro status' hf'
  rw [hf] at hf'
  cases hf'
  exact hasked

theorem Inv.scanned (h : Inv s) (n : Nat) :
    ∃ q, scan (s.events n) = some q ∧ ∀ status, q.finished = some status → (status = .cancelled ↔ n ∈ s.asked) := by
  have empty : s.events n = [] →
      ∃ q, scan (s.events n) = some q ∧ ∀ status, q.finished = some status → (status = .cancelled ↔ n ∈ s.asked) := by
    intro he
    rw [he]
    exact ⟨{}, rfl, (fun _ hf => nomatch hf)⟩
  obtain hlt | rfl | hgt := Nat.lt_trichotomy n s.turn
  · exact (h.earlier n hlt).elim empty Ends.scanned
  · have current := h.current
    unfold Current at current
    cases hs : s.stage with
    | idle =>
      simp only [hs] at current
      exact current.2.elim empty Ends.scanned
    | transcribing =>
      simp only [hs] at current
      exact current.2.scanned
    | starting | unstarted =>
      simp only [hs] at current
      exact empty current.2.2
    | running r =>
      simp only [hs] at current
      exact current.2.scanned
  · exact empty (h.later n hgt).1

theorem Inv.past (h : Inv s) {n : Nat} (past : n < s.turn ∨ n = s.turn ∧ s.stage = .transcribing) :
    s.events n = [] ∨ ∃ q status, scan (s.events n) = some q ∧ q.finished = some status := by
  have ends : Ends s n [] → ∃ q status, scan (s.events n) = some q ∧ q.finished = some status := by
    intro ⟨q, status, hq, hf, _⟩
    exact ⟨q, status, by rwa [List.append_nil] at hq, hf⟩
  obtain hlt | ⟨rfl, hs⟩ := past
  · exact (h.earlier n hlt).imp_right ends
  · have current := h.current
    simp only [Current, hs] at current
    exact .inr (ends current.2)

theorem Inv.ends (h : Inv s) (hs : s.stage = .running r) : ∃ es q status,
    scan ((run Session.step s es).events s.turn) = some q ∧ q.finished = some status := by
  obtain ⟨es, own, stage, turn⟩ := h.canEnd hs
  have inv : Inv (run Session.step s es) := by
    clear hs stage turn
    induction es generalizing s with
    | nil => exact h
    | cons e rest ih =>
      exact ih (h.step (disturbs_own s (own e (List.mem_cons_self ..)))) (fun x hx => own x (List.mem_cons_of_mem _ hx))
  have current := inv.current
  simp only [Current, stage] at current
  obtain ⟨-, q, status, hq, hf, -⟩ := current
  rw [turn, List.append_nil] at hq
  exact ⟨es, q, status, hq, hf⟩

/-- **The protocol of a response holds**, in every history in which no chunk sends a delta of a modality that has ended,
and no cancel comes between the frame of a terminal that the loop sends and the return of its send. -/
theorem responses_follow_protocol (es : List Event) (calm : Along step (fun s e => s.disturbs e = false) {} es) :
    Protocol (runs es) := by
  have inv : Inv (runs es) := along_invariant Inv.initial (fun s e h calm => h.step calm) es calm
  refine ⟨?_, fun n past => inv.past past, ?_, ?_, fun reason late => inv.cancel_eq reason late⟩
  · intro n
    obtain ⟨q, hq, -⟩ := inv.scanned n
    exact ⟨q, hq⟩
  · exact fun r hr => inv.ends hr
  · intro n q status hq hf
    obtain ⟨q', hq', hstatus⟩ := inv.scanned n
    rw [hq] at hq'
    cases hq'
    exact hstatus status hf

/-- A turn whose text ends with its first chunk. -/
def firstChunk : List Event :=
  [.nextTurn, .runResponse, .write, .sendReturns, .chunk { text := "a", finishReason := some "stop" },
    .write, .sendReturns,
    .write]

/-- The response is cancelled after its text has ended, and once more when it is over. -/
theorem responses_follow_protocol_cancelled : Protocol (runs (firstChunk ++
    [.sendReturns, .responseCancel, .interrupt, .write, .responseCancel, .responseReturns, .turnEnds])) ∧
    (runs (firstChunk ++ [.sendReturns, .responseCancel, .interrupt, .write, .responseCancel, .responseReturns,
      .turnEnds])).events 1 =
      [.created, .textDelta "a", .textDone "a", .done .cancelled "client_cancelled" "a"] :=
  ⟨responses_follow_protocol _ (by decide), by decide⟩

/-- A text chunk after the one that ended the text sends a delta after `response.text.done`; and a cancel between the
frame of `response.text.done` and the return of its send has it sent again. -/
theorem protocol_broken :
    (runs (firstChunk ++ [.sendReturns, .chunk { text := "b" }, .write])).events 1 =
      [.created, .textDelta "a", .textDone "a", .textDelta "b"] ∧
    (runs (firstChunk ++ [.responseCancel, .interrupt, .write, .write])).events 1 =
      [.created, .textDelta "a", .textDone "a", .textDone "a", .done .cancelled "client_cancelled" "a"] := by
  constructor <;> decide

end Session
end SglangOmni.Serve.Realtime
