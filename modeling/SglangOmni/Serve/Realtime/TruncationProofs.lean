import SglangOmni.Serve.Realtime.Truncation

/-! Truncations are final.

A session stands somewhere in its turn (`Place`), and the tables of the items follow from the place: an answer that is
to be spoken is pending until the end of the turn, and an item that was truncated or cancelled is gone (`Gone`), which
no later step undoes. -/
namespace SglangOmni.Serve.Realtime
open Lib

/-! ### Where a session stands -/

def ResponseEvent.isDone : ResponseEvent → Bool
  | .done _ _ _ => true
  | _ => false

def Outgoing.isDone : Outgoing → Bool
  | .event e => e.isDone
  | .error _ => false

/-- The only `response.done` of the terminals is the last of them. -/
def EndsInDone (todo : List Outgoing) : Prop :=
  ∃ before status reason text, todo = before ++ [.event (.done status reason text)] ∧ ∀ o ∈ before, o.isDone = false

/-- The `response.done` is still to be sent. -/
def Response.Unfinished (r : Response) : Prop :=
  match r.phase with
  | .sending e _ => e.isDone = false
  | .terminal todo => EndsInDone todo
  | _ => True

inductive Place where
  | idle
  | before
  | open (audio : Bool)
  | closed (audio : Bool)
  | after
  deriving DecidableEq

def Stage.place : Stage → Place
  | .idle => .idle
  | .starting | .unstarted => .before
  | .running r =>
    match r.phase with
    | .terminal [] => .closed r.wantsAudio
    | _ => .open r.wantsAudio
  | .transcribing => .after

variable {r : Response}

theorem Response.Unfinished.place (h : r.Unfinished) : (Stage.running r).place = .open r.wantsAudio := by
  unfold Stage.place
  cases hphase : r.phase with
  | terminal todo =>
    cases todo with
    | nil =>
      simp only [Response.Unfinished, hphase] at h
      obtain ⟨before, _, _, _, hnil, _⟩ := h
      exact absurd hnil.symm (List.append_ne_nil_of_right_ne_nil _ (List.cons_ne_nil _ _))
    | cons o rest => simp [hphase]
  | _ => simp [hphase]

/-- A response that has not sent its `response.done` is on the way to it. -/
def Sound (s : Session) : Prop := ∀ r, s.stage = .running r → r.phase ≠ .terminal [] → r.Unfinished

theorem terminals_endsInDone (r : Response) (text : String) (includeAudio : Bool) (status : Status) (reason : String)
    (error : Option String) : EndsInDone (r.terminals text includeAudio status reason error) := by
  refine ⟨_, status, reason, text, rfl, ?_⟩
  intro o ho
  simp only [List.mem_append, List.mem_map, Option.mem_toList] at ho
  obtain (ho | ho) | ⟨code, _, rfl⟩ := ho
  · split at ho
    · cases ho
    · rw [List.mem_singleton.mp ho]; rfl
  · split at ho
    · rw [List.mem_singleton.mp ho]; rfl
    · cases ho
  · rfl

/-! ### The loop of a response -/

/-- A step of the loop goes on with the same response. -/
def Continues (r r' : Response) : Prop := r'.wantsAudio = r.wantsAudio ∧ r'.Unfinished

theorem afterAudio_continues (r : Response) (c : Chunk) : Continues r (r.afterAudio c) := by
  unfold Response.afterAudio
  simp only
  split
  · exact ⟨rfl, rfl⟩
  · split
    · exact ⟨rfl, rfl⟩
    · exact ⟨rfl, trivial⟩

theorem afterText_continues (r : Response) (c : Chunk) : Continues r (r.afterText c) := by
  unfold Response.afterText
  split
  · exact ⟨rfl, rfl⟩
  · exact afterAudio_continues r c

theorem onChunk_continues (r : Response) (c : Chunk) : Continues r (r.onChunk c) := by
  unfold Response.onChunk
  split
  · exact ⟨rfl, rfl⟩
  · exact afterText_continues r c

theorem afterSend_continues (h : r.Unfinished) (c : Chunk) (e : ResponseEvent) :
    Continues r (r.afterSend c e) := by
  cases e with
  | textDelta _ => exact afterText_continues r c
  | audioDelta _ => exact afterAudio_continues r c
  | textDone _ => exact ⟨rfl, trivial⟩
  | audioDone => exact ⟨rfl, trivial⟩
  | created => exact ⟨rfl, h⟩
  | done _ _ _ => exact ⟨rfl, h⟩

/-- A `response.done` was sent for a turn. -/
def Session.Done (s : Session) (n : Nat) (status : Status) (text : String) : Prop :=
  ∃ reason, (n, ResponseEvent.done status reason text) ∈ s.sent

variable {s s' : Session}

theorem done_congr (h : s'.sent = s.sent) (n : Nat) (status : Status) (text : String) :
    s'.Done n status text ↔ s.Done n status text := by
  unfold Session.Done
  rw [h]

/-- A step that leaves the turn where it is, and sends no `response.done`. -/
structure Stays (s s' : Session) : Prop where
  turn : s'.turn = s.turn
  done : ∀ n status text, s'.Done n status text ↔ s.Done n status text
  place : s'.stage.place = s.stage.place
  sound : Sound s'

theorem Stays.refl (h : Sound s) : Stays s s := ⟨rfl, fun _ _ _ => Iff.rfl, rfl, h⟩

/-- The marks of a response are not where its turn stands. -/
theorem stays_marks (h : Sound s) (turn : s'.turn = s.turn) (sent : s'.sent = s.sent)
    (stage : s'.stage = s.stage) : Stays s s' where
  turn := turn
  done := done_congr sent
  place := by rw [stage]
  sound := by
    unfold Sound
    rw [stage]
    exact h

theorem stays_continues {r' : Response} (hr : s.stage = .running r) (hu : r.Unfinished)
    (turn : s'.turn = s.turn) (sent : s'.sent = s.sent) (stage : s'.stage = .running r') (h : Continues r r') :
    Stays s s' where
  turn := turn
  done := done_congr sent
  place := by rw [stage, hr, h.2.place, hu.place, h.1]
  sound := by
    intro r'' hr'' _
    rw [stage] at hr''
    cases hr''
    exact h.2

theorem stays_setResponse {r' : Response} (hr : s.stage = .running r) (hu : r.Unfinished)
    (h : Continues r r') : Stays s (s.setResponse r') := stays_continues hr hu rfl rfl rfl h

section
variable (hr : s.stage = .running r) (hu : r.Unfinished)
include hr hu

theorem stays_claim
    (turn : s'.turn = s.turn) (sent : s'.sent = s.sent) {todo : List Outgoing} (h : EndsInDone todo) :
    Stays s (s'.claim r todo) := by
  have hcontinues : Continues r { r with phase := .terminal todo, written := false } := ⟨rfl, h⟩
  exact stays_continues hr hu turn sent rfl hcontinues

theorem stays_afterCreated :
    Stays s (s.afterCreated r) := by
  unfold Session.afterCreated
  cases s.pendingResponseCancelReason with
  | none =>
    have hcontinues : Continues r r.streaming := ⟨rfl, trivial⟩
    exact stays_continues hr hu rfl rfl rfl hcontinues
  | some reason =>
    show Stays s (Session.claim _ r _)
    apply stays_claim hr hu
    · rfl
    · rfl
    · exact terminals_endsInDone _ _ _ _ _ _

theorem stays_afterStream :
    Stays s (s.afterStream r) := by
  unfold Session.afterStream
  split
  · exact stays_claim hr hu rfl rfl (terminals_endsInDone _ _ _ _ _ _)
  · split <;> exact stays_claim hr hu rfl rfl (terminals_endsInDone _ _ _ _ _ _)

theorem stays_afterError :
    Stays s (s.afterError r) := by
  unfold Session.afterError
  simp only
  split <;> exact stays_claim hr hu rfl rfl (terminals_endsInDone _ _ _ _ _ _)

end

/-- The steps of a response other than its writes and its return. -/
theorem stays_stepResponse (h : Sound s) (hr : s.stage = .running r) {e : Event}
    (hwrite : e ≠ .write) (hreturn : e ≠ .responseReturns) : Stays s (s.stepResponse r e) := by
  by_cases hclosed : r.phase = .terminal []
  · have hsame : s.stepResponse r e = s := by
      cases e <;> simp_all [Session.stepResponse]
    rw [hsame]
    exact Stays.refl h
  · have hu : r.Unfinished := h r hr hclosed
    cases e with
    | write => exact absurd rfl hwrite
    | responseReturns => exact absurd rfl hreturn
    | sendReturns =>
      simp only [Session.stepResponse]
      split
      · split
        · exact stays_afterCreated hr hu
        · exact Stays.refl h
      · split
        · exact stays_setResponse hr hu (afterSend_continues hu _ _)
        · exact Stays.refl h
      · exact Stays.refl h
    | chunk c =>
      simp only [Session.stepResponse]
      split
      · split
        · exact Stays.refl h
        · exact stays_setResponse hr hu (onChunk_continues r c)
      · exact Stays.refl h
    | streamEnds =>
      simp only [Session.stepResponse]
      split
      · exact stays_afterStream hr hu
      · exact Stays.refl h
    | engineError =>
      simp only [Session.stepResponse]
      split
      · exact stays_afterError hr hu
      · exact Stays.refl h
    | interrupt =>
      simp only [Session.stepResponse]
      split
      · split
        · exact stays_claim hr hu rfl rfl (terminals_endsInDone _ _ _ _ _ _)
        · exact Stays.refl h
      · split
        · exact stays_claim hr hu rfl rfl (terminals_endsInDone _ _ _ _ _ _)
        · exact Stays.refl h
      · exact Stays.refl h
    | _ => exact Stays.refl h

theorem stays_cancel (h : Sound s) (reason : String) : Stays s (s.cancel reason) := by
  have hframe : (s.cancelActiveResponse reason).turn = s.turn ∧ (s.cancelActiveResponse reason).sent = s.sent ∧
      (s.cancelActiveResponse reason).stage = s.stage := by
    unfold Session.cancelActiveResponse
    split
    · exact ⟨rfl, rfl, rfl⟩
    · split
      · exact ⟨rfl, rfl, rfl⟩
      · split <;> exact ⟨rfl, rfl, rfl⟩
  exact stays_marks h hframe.1 hframe.2.1 hframe.2.2

/-- The events at which a turn moves. -/
def Event.moves : Event → Bool
  | .nextTurn | .runResponse | .write | .responseReturns | .turnEnds => true
  | _ => false

theorem stays_step (h : Sound s) {e : Event} (he : e.moves = false) : Stays s (s.step e) := by
  cases e with
  | nextTurn => cases he
  | runResponse => cases he
  | write => cases he
  | responseReturns => cases he
  | turnEnds => cases he
  | sessionUpdate audio => exact stays_marks h rfl rfl rfl
  | responseCancel => exact stays_cancel h _
  | speechStarted interruptResponse =>
    simp only [Session.step]
    split
    · exact stays_cancel h _
    · exact Stays.refl h
  | buildFails =>
    cases hstage : s.stage with
    | starting =>
      simp only [Session.step, hstage]
      exact ⟨rfl, fun _ _ _ => Iff.rfl, by rw [hstage]; rfl, fun r hr => nomatch hr⟩
    | _ => simp only [Session.step, hstage]; exact Stays.refl h
  | _ =>
    cases hstage : s.stage with
    | running r =>
      simp only [Session.step, hstage]
      exact stays_stepResponse h hstage (fun hw => nomatch hw) (fun hw => nomatch hw)
    | _ => simp only [Session.step, hstage]; exact Stays.refl h

/-! ### The writes of a response -/

theorem endsInDone_cons {o : Outgoing} {rest : List Outgoing} (h : EndsInDone (o :: rest)) :
    (∃ status reason text, o = .event (.done status reason text) ∧ rest = []) ∨
      (o.isDone = false ∧ EndsInDone rest) := by
  obtain ⟨before, status, reason, text, heq, hbefore⟩ := h
  cases before with
  | nil =>
    cases heq
    exact .inl ⟨status, reason, text, rfl, rfl⟩
  | cons b before =>
    cases heq
    exact .inr ⟨hbefore _ List.mem_cons_self, before, status, reason, text, rfl,
      fun o ho => hbefore o (List.mem_cons_of_mem _ ho)⟩

theorem done_emit (s : Session) (e : ResponseEvent) (n : Nat) (status : Status) (text : String) :
    (s.emit e).Done n status text ↔ s.Done n status text ∨ (n = s.turn ∧ ∃ reason, e = .done status reason text) := by
  unfold Session.Done Session.emit
  simp only [List.mem_append, List.mem_singleton, Prod.mk.injEq, exists_or, exists_and_left]
  constructor
  · intro h
    obtain h | ⟨hn, reason, he⟩ := h
    · exact .inl h
    · exact .inr ⟨hn, reason, he.symm⟩
  · intro h
    obtain h | ⟨hn, reason, he⟩ := h
    · exact .inl h
    · exact .inr ⟨hn, reason, he.symm⟩

/-- A frame that is no `response.done`. -/
theorem stays_emit (h : Stays s s') {e : ResponseEvent} (he : e.isDone = false) : Stays s (s'.emit e) where
  turn := h.turn
  done n status text := by
    rw [done_emit, h.done]
    apply or_iff_left
    intro ⟨_, _, hd⟩
    rw [hd] at he
    cases he
  place := h.place
  sound := h.sound

/-- A write sends the `response.done`, when that is what is left, or leaves the turn where it is. -/
theorem write_cases (h : Sound s) (hr : s.stage = .running r) :
    (∃ status reason text, r.phase = .terminal [.event (.done status reason text)] ∧
      s.step .write = (s.setResponse { r with phase := .terminal [] }).emit (.done status reason text)) ∨
    ((∀ status reason text rest, r.phase ≠ .terminal (.event (.done status reason text) :: rest)) ∧
      Stays s (s.step .write)) := by
  by_cases hclosed : r.phase = .terminal []
  · have hsame : s.step .write = s := by simp [Session.step, Session.stepResponse, hr, hclosed]
    rw [hsame]
    exact .inr ⟨by simp [hclosed], Stays.refl h⟩
  · have hu : r.Unfinished := h r hr hclosed
    simp only [Session.step, hr, Session.stepResponse]
    cases hphase : r.phase with
    | creating =>
      right
      constructor
      · intro _ _ _ _ hp
        cases hp
      · dsimp only
        split
        · exact Stays.refl h
        · have hnext : Continues r { r with phase := .creating, written := true } := ⟨rfl, trivial⟩
          exact stays_emit (stays_setResponse hr hu hnext) rfl
    | streaming => exact .inr ⟨(fun _ _ _ _ hp => nomatch hp), Stays.refl h⟩
    | sending e c =>
      right
      constructor
      · intro _ _ _ _ hp
        cases hp
      · dsimp only
        split
        · exact Stays.refl h
        · have he : e.isDone = false := by simpa only [Response.Unfinished, hphase] using hu
          have hnext : Continues r { r with phase := .sending e c, written := true } := ⟨rfl, he⟩
          exact stays_emit (stays_setResponse hr hu hnext) he
    | terminal todo =>
      cases todo with
      | nil => exact absurd hphase hclosed
      | cons o rest =>
        have hends : EndsInDone (o :: rest) := by simpa only [Response.Unfinished, hphase] using hu
        cases endsInDone_cons hends with
        | inl hdone =>
          obtain ⟨status, reason, text, rfl, rfl⟩ := hdone
          exact .inl ⟨status, reason, text, rfl, rfl⟩
        | inr hrest =>
          obtain ⟨ho, hrest⟩ := hrest
          right
          constructor
          · intro status reason text rest' hp
            cases hp
            cases ho
          · have hstays : Stays s (s.setResponse { r with phase := .terminal rest }) :=
              stays_setResponse hr hu ⟨rfl, hrest⟩
            cases o with
            | event e => exact stays_emit hstays ho
            | error code => exact ⟨hstays.turn, hstays.done, hstays.place, hstays.sound⟩

namespace Talk

/-! ### What holds of a session and its items -/

/-- The item is not in the conversation, and will not be. -/
def Gone (t : Talk) (i : ItemId) : Prop :=
  ∃ n, i = .assistant n ∧ n ≤ t.session.turn ∧ (∀ item ∈ t.conversation, item.itemId ≠ i) ∧
    (n = t.session.turn → match t.session.stage.place with
      | .idle => True
      | .before => False
      | .open _ => i ∈ t.truncatedAssistantItemIds
      | .closed _ | .after => i ∈ t.truncatedAssistantItemIds ∨ t.responseOutput = none)

/-- What was returned for a completed response. -/
def Returns (t : Talk) : Prop := ∀ text, t.session.Done t.session.turn .completed text → t.responseOutput = some text

/-- The tables of the items, from where the turn stands. -/
def Now (t : Talk) : Prop :=
  match t.session.stage.place with
  | .idle | .before => t.pendingAssistantItemIds = ∅ ∧ t.responseOutput = none
  | .open audio =>
    t.pendingAssistantItemIds = (if audio then {t.own} else ∅) ∧ (audio = true ↔ t.session.turn ∈ t.spoken) ∧
      t.responseOutput = none
  | .closed audio =>
    t.pendingAssistantItemIds = (if audio then {t.own} else ∅) ∧ (audio = true ↔ t.session.turn ∈ t.spoken) ∧ t.Returns
  | .after =>
    t.pendingAssistantItemIds = (if t.session.turn ∈ t.spoken ∧ t.responseOutput.isSome then {t.own} else ∅) ∧ t.Returns

/-- The item of a turn, in the conversation. -/
def Recorded (t : Talk) (n : Nat) : Prop := ∃ item ∈ t.conversation, item.role = .assistant ∧ item.itemId = .assistant n

def Acknowledged (t : Talk) (i : ItemId) : Prop := (i, Answer.truncated) ∈ t.answers

structure Tidy (t : Talk) : Prop where
  sound : Sound t.session
  past : ∀ n status text, t.session.Done n status text →
    n ≤ t.session.turn ∧
      (n = t.session.turn → t.session.stage.place ≠ .before ∧ ∀ audio, t.session.stage.place ≠ .open audio)
  now : t.Now
  truncated : t.truncatedAssistantItemIds ⊆ t.pendingAssistantItemIds
  truncated_acknowledged : ∀ i ∈ t.truncatedAssistantItemIds, t.Acknowledged i
  spoken : ∀ n ∈ t.spoken, n ≤ t.session.turn ∧ (n = t.session.turn → t.session.stage.place ≠ .before)
  conversation : ∀ item ∈ t.conversation, ∃ n, n ≤ t.session.turn ∧
    (n = t.session.turn → t.session.stage.place = .idle) ∧
    (item.role = .user ∧ item.itemId = .user n ∨ item.role = .assistant ∧ item.itemId = .assistant n)
  distinct : (t.conversation.map ConversationItem.itemId).Nodup
  cancelled : ∀ i ∈ t.cancelledAssistantItemIds, t.Gone i
  acknowledged : ∀ i, t.Acknowledged i → t.Gone i
  recorded : ∀ n, t.Over n → t.Answered n → n ∉ t.failed → ¬ t.Acknowledged (.assistant n) → t.Recorded n

variable {t : Talk}

theorem answered_iff {n : Nat} : t.Answered n ↔ ∃ text, t.session.Done n .completed text ∧ text ≠ "" := by
  constructor
  · intro ⟨reason, text, hsent, htext⟩
    exact ⟨text, ⟨reason, hsent⟩, htext⟩
  · intro ⟨text, ⟨reason, hsent⟩, htext⟩
    exact ⟨reason, text, hsent, htext⟩

theorem place_idle {stage : Stage} : stage.place = .idle ↔ stage = .idle := by
  cases stage with
  | running r =>
    constructor
    · intro h
      unfold Stage.place at h
      simp only at h
      split at h <;> cases h
    · intro h
      cases h
  | _ => simp [Stage.place]

theorem over_iff {n : Nat} :
    t.Over n ↔ n < t.session.turn ∨ (n = t.session.turn ∧ t.session.stage.place = .idle) := by
  rw [place_idle]
  rfl

/-- A step of the session that leaves the turn where it is. -/
theorem Tidy.stays (h : t.Tidy) {s' : Session} (hs : Stays t.session s') : Tidy { t with session := s' } := by
  have hanswered : ∀ n, Answered { t with session := s' } n ↔ t.Answered n := by
    intro n
    rw [answered_iff, answered_iff]
    simp only [hs.done]
  have hover : ∀ n, Over { t with session := s' } n ↔ t.Over n := by
    intro n
    rw [over_iff, over_iff]
    simp only [hs.turn, hs.place]
  have hgone : ∀ i, Gone { t with session := s' } i ↔ t.Gone i := by
    intro i
    simp only [Gone, hs.turn, hs.place]
  have hnow : Now { t with session := s' } ↔ t.Now := by
    simp only [Now, Returns, own, hs.turn, hs.place, hs.done]
  exact {
    sound := hs.sound
    past := by simpa only [hs.turn, hs.place, hs.done] using h.past
    now := hnow.mpr h.now
    truncated := h.truncated
    truncated_acknowledged := h.truncated_acknowledged
    spoken := by simpa only [hs.turn, hs.place] using h.spoken
    conversation := by simpa only [hs.turn, hs.place] using h.conversation
    distinct := h.distinct
    cancelled := fun i hi => (hgone i).mpr (h.cancelled i hi)
    acknowledged := fun i hi => (hgone i).mpr (h.acknowledged i hi)
    recorded := fun n hn ha => h.recorded n ((hover n).mp hn) ((hanswered n).mp ha)
  }

/-! ### The steps of a turn -/

variable {t' : Talk} {i : ItemId}

/-- A step inside a turn, which concerns the items of that turn. -/
theorem Tidy.within (h : t.Tidy) (turn : t'.session.turn = t.session.turn)
    (conversation : t'.conversation = t.conversation) (answers : t'.answers = t.answers) (failed : t'.failed = t.failed)
    (inside : t.session.stage.place ≠ .idle) (inside' : t'.session.stage.place ≠ .idle)
    (begun : t'.session.stage.place ≠ .before) (sound : Sound t'.session)
    (done : ∀ n status text, n ≠ t.session.turn → (t'.session.Done n status text ↔ t.session.Done n status text))
    (past : ∀ status text, t'.session.Done t.session.turn status text → ∀ audio, t'.session.stage.place ≠ .open audio)
    (now : t'.Now) (truncated : t'.truncatedAssistantItemIds ⊆ t'.pendingAssistantItemIds)
    (kept : t'.truncatedAssistantItemIds ⊆ t.truncatedAssistantItemIds)
    (spoken : ∀ n ∈ t'.spoken, n ∈ t.spoken ∨ n = t.session.turn) (gone : ∀ i, t.Gone i → i = t.own → t'.Gone i)
    (cancelled : ∀ i ∈ t'.cancelledAssistantItemIds, i ∈ t.cancelledAssistantItemIds ∨ t'.Gone i) : t'.Tidy := by
  have hgone : ∀ i, t.Gone i → t'.Gone i := by
    intro i hi
    by_cases hown : i = t.own
    · exact gone i hi hown
    · obtain ⟨n, rfl, hle, hconv, _⟩ := hi
      refine ⟨n, rfl, turn ▸ hle, conversation ▸ hconv, ?_⟩
      intro hn
      rw [turn] at hn
      exact absurd (by rw [hn]; rfl) hown
  have hover : ∀ n, t'.Over n → t.Over n ∧ n ≠ t.session.turn := by
    intro n hn
    rw [over_iff, turn] at hn
    obtain hlt | ⟨_, hidle⟩ := hn
    · exact ⟨.inl hlt, Nat.ne_of_lt hlt⟩
    · exact absurd hidle inside'
  exact {
    sound := sound
    past := by
      intro n status text hd
      rw [turn]
      by_cases hn : n = t.session.turn
      · subst hn
        exact ⟨Nat.le_refl _, fun _ => ⟨begun, past status text hd⟩⟩
      · exact ⟨(h.past n status text ((done n status text hn).mp hd)).1, fun hc => absurd hc hn⟩
    now := now
    truncated := truncated
    truncated_acknowledged := by
      intro i hi
      unfold Acknowledged
      rw [answers]
      exact h.truncated_acknowledged i (kept hi)
    spoken := by
      intro n hn
      rw [turn]
      refine ⟨?_, fun _ => begun⟩
      cases spoken n hn with
      | inl hn => exact (h.spoken n hn).1
      | inr hn => exact Nat.le_of_eq hn
    conversation := by
      intro item hitem
      rw [conversation] at hitem
      obtain ⟨n, hle, hidle, hid⟩ := h.conversation item hitem
      exact ⟨n, turn ▸ hle, fun hn => absurd (hidle (hn.trans turn)) inside, hid⟩
    distinct := conversation ▸ h.distinct
    cancelled := by
      intro i hi
      cases cancelled i hi with
      | inl hi => exact hgone i (h.cancelled i hi)
      | inr hi => exact hi
    acknowledged := by
      intro i hi
      unfold Acknowledged at hi
      rw [answers] at hi
      exact hgone i (h.acknowledged i hi)
    recorded := by
      intro n hn ha hfailed hack
      obtain ⟨hn, hne⟩ := hover n hn
      obtain ⟨text, hd, htext⟩ := answered_iff.mp ha
      unfold Acknowledged at hack
      rw [answers] at hack
      rw [failed] at hfailed
      unfold Recorded
      rw [conversation]
      exact h.recorded n hn (answered_iff.mpr ⟨text, (done n _ text hne).mp hd, htext⟩) hfailed hack
  }

theorem tidy_nextTurn (h : t.Tidy) : (t.onSession .nextTurn).Tidy := by
  by_cases hidle : t.session.stage = .idle
  · have hstep : t.onSession .nextTurn =
        { t with session := { t.session with
          turn := t.session.turn + 1, stage := .starting, responseStartPending := true } } := by
      simp only [onSession, Session.step, hidle]
    rw [hstep]
    have hnow := h.now
    simp only [Now, hidle, Stage.place] at hnow
    have hgone : ∀ i, t.Gone i → Gone { t with session := { t.session with
        turn := t.session.turn + 1, stage := .starting, responseStartPending := true } } i := by
      intro i hi
      obtain ⟨n, hi, hle, hconv, _⟩ := hi
      exact ⟨n, hi, Nat.le_succ_of_le hle, hconv, fun hn => absurd hle (hn ▸ Nat.not_succ_le_self _)⟩
    exact {
      sound := fun r hr => nomatch hr
      past := by
        intro n status text hd
        have hle := (h.past n status text hd).1
        exact ⟨Nat.le_succ_of_le hle, fun hn => absurd hle (hn ▸ Nat.not_succ_le_self _)⟩
      now := hnow
      truncated := h.truncated
      truncated_acknowledged := h.truncated_acknowledged
      spoken := by
        intro n hn
        have hle := (h.spoken n hn).1
        exact ⟨Nat.le_succ_of_le hle, fun hn => absurd hle (hn ▸ Nat.not_succ_le_self _)⟩
      conversation := by
        intro item hitem
        obtain ⟨n, hle, _, hid⟩ := h.conversation item hitem
        exact ⟨n, Nat.le_succ_of_le hle, fun hn => absurd hle (hn ▸ Nat.not_succ_le_self _), hid⟩
      distinct := h.distinct
      cancelled := fun i hi => hgone i (h.cancelled i hi)
      acknowledged := fun i hi => hgone i (h.acknowledged i hi)
      recorded := by
        intro n hn ha hfailed hack
        apply h.recorded n ?_ ha hfailed hack
        obtain hlt | ⟨_, hstarting⟩ := hn
        · cases Nat.lt_or_eq_of_le (Nat.le_of_lt_succ hlt) with
          | inl hlt => exact .inl hlt
          | inr heq => exact .inr ⟨heq, hidle⟩
        · cases hstarting
    }
  · have hstep : t.onSession .nextTurn = { t with session := t.session } := by
      simp only [onSession, Session.step]
    rw [hstep]
    exact h

theorem tidy_runResponse (h : t.Tidy) : (t.onSession .runResponse).Tidy := by
  by_cases hstarting : t.session.stage = .starting
  · have hplace : t.session.stage.place = .before := by rw [hstarting]; rfl
    have hnow := h.now
    simp only [Now, hplace] at hnow
    obtain ⟨hpending, houtput⟩ := hnow
    have htruncated : t.truncatedAssistantItemIds ⊆ ∅ := hpending ▸ h.truncated
    have hunspoken : t.session.turn ∉ t.spoken := fun hin => (h.spoken _ hin).2 rfl hplace
    have hundone : ∀ status text, ¬ t.session.Done t.session.turn status text :=
      fun status text hd => ((h.past _ status text hd).2 rfl).1 hplace
    have hfree : ∀ i, t.Gone i → i ≠ t.own := by
      intro i hi hown
      obtain ⟨n, rfl, _, _, hgone⟩ := hi
      cases hown
      simpa only [hplace] using hgone rfl
    simp only [onSession, Session.step, hstarting]
    cases haudio : t.session.audioModality with
    | true =>
      rw [if_pos rfl]
      apply h.within
      iterate 4 · rfl
      · simp [hplace]
      · intro hp; cases hp
      · intro hp; cases hp
      · intro r hr _; cases hr; trivial
      · exact fun _ _ _ _ => Iff.rfl
      · exact fun status text hd => absurd hd (hundone status text)
      · refine ⟨?_, ?_, houtput⟩
        · show insert t.own t.pendingAssistantItemIds = {t.own}
          rw [hpending]
          rfl
        · exact iff_of_true rfl List.mem_cons_self
      · exact htruncated.trans (Finset.empty_subset _)
      · exact Finset.Subset.refl _
      · intro n hn
        exact (List.mem_cons.mp hn).symm
      · exact fun i hi hown => absurd hown (hfree i hi)
      · exact fun i hi => .inl hi
    | false =>
      rw [if_neg Bool.false_ne_true]
      apply h.within
      iterate 4 · rfl
      · simp [hplace]
      · intro hp; cases hp
      · intro hp; cases hp
      · intro r hr _; cases hr; trivial
      · exact fun _ _ _ _ => Iff.rfl
      · exact fun status text hd => absurd hd (hundone status text)
      · exact ⟨hpending, iff_of_false Bool.false_ne_true hunspoken, houtput⟩
      · exact h.truncated
      · exact Finset.Subset.refl _
      · exact fun n hn => .inl hn
      · exact fun i hi hown => absurd hown (hfree i hi)
      · exact fun i hi => .inl hi
  · have hstep : t.onSession .runResponse = { t with session := t.session } := by
      cases hstage : t.session.stage <;> simp_all [onSession, Session.step]
    rw [hstep]
    exact h

theorem mem_remember {j : ItemId} (h : j ∈ (t.rememberCancelledAssistantItem i).cancelledAssistantItemIds) :
    j = i ∨ j ∈ t.cancelledAssistantItemIds := by
  simp only [rememberCancelledAssistantItem] at h
  split at h
  · exact mem_addId.mp (List.mem_of_mem_tail h)
  · exact mem_addId.mp h

/-- Sending the `response.done` is the end of the response's part in the turn. -/
theorem tidy_done (h : t.Tidy) {r : Response} (hr : t.session.stage = .running r) {status : Status}
    {reason text : String} (hphase : r.phase = .terminal [.event (.done status reason text)]) (session : t'.session =
      (t.session.setResponse { r with phase := .terminal [] }).emit (.done status reason text))
    (conversation : t'.conversation = t.conversation) (answers : t'.answers = t.answers) (failed : t'.failed = t.failed)
    (pending : t'.pendingAssistantItemIds = t.pendingAssistantItemIds)
    (truncated : t'.truncatedAssistantItemIds = t.truncatedAssistantItemIds) (spoken : t'.spoken = t.spoken)
    (output : t'.responseOutput = if status = .completed then some text else none)
    (cancelled : ∀ i ∈ t'.cancelledAssistantItemIds,
      i ∈ t.cancelledAssistantItemIds ∨ (i = t.own ∧ status = .cancelled)) : t'.Tidy := by
  have hplace : t.session.stage.place = .open r.wantsAudio := by simp [hr, Stage.place, hphase]
  have hplace' : t'.session.stage.place = .closed r.wantsAudio := by rw [session]; rfl
  have hturn : t'.session.turn = t.session.turn := by rw [session]; rfl
  have hnow := h.now
  simp only [Now, hplace] at hnow
  obtain ⟨hpending, hspoken, _⟩ := hnow
  have hundone : ∀ status text, ¬ t.session.Done t.session.turn status text :=
    fun status text hd => ((h.past _ status text hd).2 rfl).2 _ hplace
  have hdone : ∀ n status' text', t'.session.Done n status' text' ↔
      t.session.Done n status' text' ∨ (n = t.session.turn ∧ status' = status ∧ text' = text) := by
    intro n status' text'
    rw [session, done_emit]
    show t.session.Done n status' text' ∨ (n = t.session.turn ∧ _) ↔ _
    simp [eq_comm]
  have hfresh : ∀ item ∈ t.conversation, item.itemId ≠ t.own := by
    intro item hitem hown
    obtain ⟨n, _, hidle, hid⟩ := h.conversation item hitem
    obtain ⟨_, hid⟩ | ⟨_, hid⟩ := hid
    · rw [hown] at hid; cases hid
    · rw [hown] at hid
      cases hid
      rw [hplace] at hidle
      cases hidle rfl
  apply h.within hturn conversation answers failed
  · simp [hplace]
  · simp [hplace']
  · simp [hplace']
  · intro r' hr' hphase'
    rw [session] at hr'
    cases hr'
    exact absurd rfl hphase'
  · intro n status' text' hn
    rw [hdone]
    exact or_iff_left fun hd => hn hd.1
  · simp [hplace']
  · simp only [Now, hplace', Returns, own, hturn, pending, spoken]
    refine ⟨hpending, hspoken, ?_⟩
    intro text' hd
    obtain hd | ⟨_, hstatus, htext⟩ := (hdone _ _ _).mp hd
    · exact absurd hd (hundone _ _)
    · rw [output, if_pos hstatus.symm, htext]
  · rw [pending, truncated]
    exact h.truncated
  · rw [truncated]
  · intro n hn
    exact .inl (spoken ▸ hn)
  · intro i hi _
    obtain ⟨n, rfl, hle, hconv, hgone⟩ := hi
    refine ⟨n, rfl, hturn ▸ hle, conversation ▸ hconv, ?_⟩
    intro hn
    have hin := hgone (hn.trans hturn)
    rw [hplace] at hin
    rw [hplace', truncated]
    exact .inl hin
  · intro i hi
    obtain hi | ⟨hi, hstatus⟩ := cancelled i hi
    · exact .inl hi
    · right
      refine ⟨t.session.turn, hi, Nat.le_of_eq hturn.symm, ?_, ?_⟩
      · rw [conversation, hi]
        exact hfresh
      · intro _
        rw [hplace', output, hstatus]
        exact .inr rfl

theorem tidy_write (h : t.Tidy) : (t.onSession .write).Tidy := by
  cases hstage : t.session.stage with
  | running r =>
    obtain ⟨status, reason, text, hphase, hstep⟩ | ⟨hphase, hstays⟩ := write_cases h.sound hstage
    · have hnow := h.now
      simp only [Now, hstage, Stage.place, hphase] at hnow
      obtain ⟨_, _, houtput⟩ := hnow
      simp only [onSession, hstage, hphase]
      cases status with
      | completed =>
        apply tidy_done h hstage hphase hstep
        iterate 7 · rfl
        · exact fun i hi => .inl hi
      | failed =>
        apply tidy_done h hstage hphase hstep
        iterate 6 · rfl
        · exact houtput
        · exact fun i hi => .inl hi
      | cancelled =>
        dsimp only
        split
        · apply tidy_done h hstage hphase hstep
          iterate 6 · rfl
          · exact houtput
          · intro i hi
            obtain hi | hi := mem_remember hi
            · exact .inr ⟨hi, rfl⟩
            · exact .inl hi
        · apply tidy_done h hstage hphase hstep
          iterate 6 · rfl
          · exact houtput
          · exact fun i hi => .inl hi
    · have hframe : t.onSession .write = { t with session := t.session.step .write } := by
        simp only [onSession, hstage]
        split
        · next hp => exact absurd hp (hphase _ _ _ _)
        · next hp => exact absurd hp (hphase _ _ _ _)
        · rfl
      rw [hframe]
      exact h.stays hstays
  | _ =>
    simp only [onSession, Session.step, hstage]
    exact h

/-- `run_response` leaves, and the items of a response that was not completed are nobody's. -/
theorem tidy_responseReturns (h : t.Tidy) : (t.onSession .responseReturns).Tidy := by
  cases hstage : t.session.stage with
  | running r =>
    by_cases hphase : r.phase = .terminal []
    · have hplace : t.session.stage.place = .closed r.wantsAudio := by simp [hstage, Stage.place, hphase]
      have hnow := h.now
      simp only [Now, hplace] at hnow
      obtain ⟨hpending, hspoken, hreturns⟩ := hnow
      have hgone : ∀ i, t.Gone i → i ∈ t.truncatedAssistantItemIds ∨ t.responseOutput = none ∨ i ≠ t.own := by
        intro i hi
        by_cases hown : i = t.own
        · obtain ⟨n, rfl, _, _, hgone⟩ := hi
          cases hown
          have hin := hgone rfl
          simp only [hplace] at hin
          obtain hin | hin := hin
          · exact .inl hin
          · exact .inr (.inl hin)
        · exact .inr (.inr hown)
      simp only [onSession, Session.step, Session.stepResponse, hstage, hphase]
      split
      · next hdiscard =>
        obtain ⟨haudio, hnone⟩ := Bool.and_eq_true_iff.mp hdiscard
        have hnone : t.responseOutput = none := Option.isNone_iff_eq_none.mp hnone
        rw [haudio, if_pos rfl] at hpending
        have herased : t.pendingAssistantItemIds.erase t.own = ∅ := by
          rw [hpending, Finset.erase_singleton]
        apply h.within
        iterate 4 · rfl
        · simp [hplace]
        · intro hp; cases hp
        · intro hp; cases hp
        · intro r' hr' _; cases hr'
        · exact fun _ _ _ _ => Iff.rfl
        · intro _ _ _ _ hp; cases hp
        · refine ⟨?_, hreturns⟩
          show t.pendingAssistantItemIds.erase t.own = if _ ∧ t.responseOutput.isSome then _ else _
          rw [herased, hnone]
          simp
        · exact Finset.erase_subset_erase _ h.truncated
        · exact Finset.erase_subset _ _
        · exact fun n hn => .inl hn
        · intro i hi _
          obtain ⟨n, rfl, hle, hconv, _⟩ := hi
          exact ⟨n, rfl, hle, hconv, fun _ => .inr hnone⟩
        · exact fun i hi => .inl hi
      · next hkeep =>
        apply h.within
        iterate 4 · rfl
        · simp [hplace]
        · intro hp; cases hp
        · intro hp; cases hp
        · intro r' hr' _; cases hr'
        · exact fun _ _ _ _ => Iff.rfl
        · intro _ _ _ _ hp; cases hp
        · refine ⟨?_, hreturns⟩
          show t.pendingAssistantItemIds = if t.session.turn ∈ t.spoken ∧ t.responseOutput.isSome then {t.own} else ∅
          rw [hpending]
          cases haudio : r.wantsAudio with
          | true =>
            have hsome : t.responseOutput.isSome = true := by
              cases hout : t.responseOutput with
              | none => simp [haudio, hout] at hkeep
              | some _ => rfl
            rw [if_pos rfl, if_pos ⟨hspoken.mp haudio, hsome⟩]
          | false =>
            have hout : t.session.turn ∉ t.spoken := fun hin => by rw [hspoken.mpr hin] at haudio; cases haudio
            rw [if_neg Bool.false_ne_true, if_neg fun hc => hout hc.1]
        · exact h.truncated
        · exact Finset.Subset.refl _
        · exact fun n hn => .inl hn
        · intro i hi hown
          have hin := hgone i hi
          obtain ⟨n, rfl, hle, hconv, _⟩ := hi
          refine ⟨n, rfl, hle, hconv, fun _ => ?_⟩
          obtain hin | hin | hin := hin
          · exact .inl hin
          · exact .inr hin
          · exact absurd hown hin
        · exact fun i hi => .inl hi
    · have hframe : t.onSession .responseReturns = { t with session := t.session } := by
        simp only [onSession, Session.step, Session.stepResponse, hstage]
      rw [hframe]
      exact h
  | _ =>
    simp only [onSession, Session.step, hstage]
    exact h

/-! ### The end of a turn -/

/-- The session goes idle, with nothing pending and what it told the client as it was. -/
structure Ends (t t' : Talk) : Prop where
  turn : t'.session.turn = t.session.turn
  sent : t'.session.sent = t.session.sent
  stage : t'.session.stage = .idle
  answers : t'.answers = t.answers
  cancelled : t'.cancelledAssistantItemIds = t.cancelledAssistantItemIds
  spoken : t'.spoken = t.spoken
  pending : t'.pendingAssistantItemIds = ∅
  output : t'.responseOutput = none
  truncated : t'.truncatedAssistantItemIds = ∅

/-- A turn ends, and its items are settled: in the conversation, truncated, or of a turn that failed. -/
theorem Tidy.ends (h : t.Tidy) (ends : Ends t t') (added : List ConversationItem)
    (inside : t.session.stage.place ≠ .idle) (conversation : t'.conversation = t.conversation ++ added)
    (added_own : ∀ item ∈ added, item.role = .user ∧ item.itemId = .user t.session.turn ∨
      item.role = .assistant ∧ item.itemId = t.own) (added_distinct : (added.map ConversationItem.itemId).Nodup)
    (gone : t.Gone t.own → ∀ item ∈ added, item.itemId ≠ t.own) (failed : ∀ n ∈ t.failed, n ∈ t'.failed)
    (recorded : t.Answered t.session.turn → t.session.turn ∉ t'.failed → ¬ t.Acknowledged t.own →
      ∃ item ∈ added, item.role = .assistant ∧ item.itemId = t.own) : t'.Tidy := by
  obtain ⟨turn, sent, stage, answers, cancelled, spoken, pending, output, truncated⟩ := ends
  have hplace : t'.session.stage.place = .idle := by rw [stage]; rfl
  have hfresh : ∀ item ∈ t.conversation, ∀ other ∈ added, item.itemId ≠ other.itemId := by
    intro item hitem other hother heq
    obtain ⟨n, _, hidle, hid⟩ := h.conversation item hitem
    have hn : n ≠ t.session.turn := fun hn => inside (hidle hn)
    rw [heq] at hid
    obtain ⟨_, ho⟩ | ⟨_, ho⟩ := added_own other hother
    · rw [ho] at hid
      obtain ⟨_, hi⟩ | ⟨_, hi⟩ := hid
      · cases hi; exact hn rfl
      · cases hi
    · rw [ho] at hid
      obtain ⟨_, hi⟩ | ⟨_, hi⟩ := hid
      · cases hi
      · cases hi; exact hn rfl
  have hgone : ∀ i, t.Gone i → t'.Gone i := by
    intro i hi
    have hadded : ∀ item ∈ added, item.itemId ≠ i := by
      intro item hitem hid
      obtain ⟨_, ho⟩ | ⟨_, ho⟩ := added_own item hitem
      · obtain ⟨n, hn, _⟩ := hi
        rw [hid, hn] at ho
        cases ho
      · have hown : i = t.own := hid.symm.trans ho
        exact gone (hown ▸ hi) item hitem ho
    obtain ⟨n, rfl, hle, hconv, _⟩ := hi
    refine ⟨n, rfl, turn ▸ hle, ?_, fun _ => by rw [hplace]; trivial⟩
    intro item hitem
    rw [conversation] at hitem
    cases List.mem_append.mp hitem with
    | inl hitem => exact hconv item hitem
    | inr hitem => exact hadded item hitem
  exact {
    sound := fun r hr => by rw [stage] at hr; cases hr
    past := by
      intro n status text hd
      rw [turn]
      rw [done_congr sent] at hd
      refine ⟨(h.past n status text hd).1, fun _ => ?_⟩
      rw [hplace]
      exact ⟨(fun hp => nomatch hp), fun _ hp => nomatch hp⟩
    now := by
      unfold Now
      rw [hplace]
      exact ⟨pending, output⟩
    truncated := by
      rw [truncated]
      exact Finset.empty_subset _
    truncated_acknowledged := by
      intro i hi
      rw [truncated] at hi
      exact absurd hi (Finset.notMem_empty _)
    spoken := by
      intro n hn
      rw [spoken] at hn
      rw [turn, hplace]
      exact ⟨(h.spoken n hn).1, fun _ hp => nomatch hp⟩
    conversation := by
      intro item hitem
      rw [turn]
      rw [conversation] at hitem
      cases List.mem_append.mp hitem with
      | inl hitem =>
        obtain ⟨n, hle, _, hid⟩ := h.conversation item hitem
        exact ⟨n, hle, fun _ => hplace, hid⟩
      | inr hitem => exact ⟨t.session.turn, Nat.le_refl _, fun _ => hplace, added_own item hitem⟩
    distinct := by
      rw [conversation, List.map_append]
      apply h.distinct.append added_distinct
      intro i hi hi'
      obtain ⟨item, hitem, rfl⟩ := List.mem_map.mp hi
      obtain ⟨other, hother, heq⟩ := List.mem_map.mp hi'
      exact hfresh item hitem other hother heq.symm
    cancelled := fun i hi => hgone i (h.cancelled i (cancelled ▸ hi))
    acknowledged := by
      intro i hi
      unfold Acknowledged at hi
      rw [answers] at hi
      exact hgone i (h.acknowledged i hi)
    recorded := by
      intro n hn ha hfailed hack
      unfold Acknowledged at hack
      rw [answers] at hack
      obtain ⟨text, hd, htext⟩ := answered_iff.mp ha
      have ha : t.Answered n := answered_iff.mpr ⟨text, (done_congr sent n _ _).mp hd, htext⟩
      unfold Recorded
      rw [conversation]
      rw [over_iff, turn] at hn
      by_cases hcurrent : n = t.session.turn
      · subst hcurrent
        obtain ⟨item, hitem, hid⟩ := recorded ha hfailed hack
        exact ⟨item, List.mem_append_right _ hitem, hid⟩
      · have hover : t.Over n := by
          obtain hlt | ⟨hn, _⟩ := hn
          · exact .inl hlt
          · exact absurd hn hcurrent
        obtain ⟨item, hitem, hid⟩ := h.recorded n hover ha (fun hf => hfailed (failed n hf)) hack
        exact ⟨item, List.mem_append_left _ hitem, hid⟩
  }

/-- The `finally` of `run_turn`. -/
theorem Tidy.endTurn (h : t.Tidy) (hstage : t.session.stage = .transcribing) : Ends t t.endTurn := by
  have hsession : (t.session.step .turnEnds).turn = t.session.turn ∧ (t.session.step .turnEnds).sent = t.session.sent ∧
      (t.session.step .turnEnds).stage = .idle := by simp only [Session.step, hstage, and_self]
  obtain ⟨hturn, hsent, hidle⟩ := hsession
  have hnow := h.now
  simp only [Now, hstage, Stage.place] at hnow
  obtain ⟨hpending, _⟩ := hnow
  have hsub := h.truncated
  rw [hpending] at hsub
  unfold Talk.endTurn
  cases hout : t.responseOutput with
  | none =>
    rw [hout] at hpending hsub
    simp only [Option.isSome_none, Bool.false_eq_true, and_false, if_false] at hpending hsub
    exact ⟨hturn, hsent, hidle, rfl, rfl, rfl, hpending, rfl, Finset.subset_empty.mp hsub⟩
  | some text =>
    have hall : t.pendingAssistantItemIds ⊆ {t.own} := by
      rw [hpending]
      split
      · exact Finset.Subset.refl _
      · exact Finset.empty_subset _
    have herase : ∀ {ids : Finset ItemId}, ids ⊆ {t.own} → ids.erase t.own = ∅ := by
      intro ids hids
      apply Finset.subset_empty.mp
      have hmono := Finset.erase_subset_erase t.own hids
      rwa [Finset.erase_singleton] at hmono
    exact ⟨hturn, hsent, hidle, rfl, rfl, rfl, herase hall, rfl, herase (h.truncated.trans hall)⟩

/-- The answer of the current turn is not recorded once it is gone. -/
theorem Gone.unrecorded (h : t.Gone t.own) (hstage : t.session.stage = .transcribing) :
    t.own ∈ t.truncatedAssistantItemIds ∨ t.responseOutput = none := by
  obtain ⟨n, hn, _, _, hgone⟩ := h
  cases hn
  simpa only [hstage, Stage.place] using hgone rfl

theorem mem_record {transcript : String} {item : ConversationItem} (h : item ∈ t.record transcript) :
    item.role = .user ∧ item.itemId = .user t.session.turn ∨
      (item.role = .assistant ∧ item.itemId = t.own) ∧ t.own ∉ t.truncatedAssistantItemIds ∧
        t.responseOutput ≠ none := by
  unfold record at h
  cases List.mem_append.mp h with
  | inl h =>
    split at h
    · rw [List.mem_singleton.mp h]; exact .inl ⟨rfl, rfl⟩
    · cases h
  | inr h =>
    cases hout : t.responseOutput with
    | none => rw [hout] at h; cases h
    | some text =>
      rw [hout] at h
      dsimp only at h
      split at h
      · next hkeep =>
        rw [List.mem_singleton.mp h]
        exact .inr ⟨⟨rfl, rfl⟩, hkeep.2, fun hn => nomatch hn⟩
      · cases h

theorem record_distinct (t : Talk) (transcript : String) :
    ((t.record transcript).map ConversationItem.itemId).Nodup := by
  unfold record
  cases t.responseOutput with
  | none =>
    rw [List.append_nil]
    split <;> simp
  | some text =>
    dsimp only
    split <;> split <;> simp [own]

theorem tidy_transcribed (h : t.Tidy) (transcript : String) : (t.step (.transcribed transcript)).Tidy := by
  by_cases hstage : t.session.stage = .transcribing
  · simp only [step, hstage]
    have hends := h.endTurn hstage
    have hnow := h.now
    simp only [Now, hstage, Stage.place] at hnow
    obtain ⟨_, hreturns⟩ := hnow
    have hsame : { t with conversation := t.conversation ++ t.record transcript }.endTurn =
        { t.endTurn with conversation := t.conversation ++ t.record transcript } := by
      unfold endTurn
      cases t.responseOutput <;> rfl
    have hfailed : t.endTurn.failed = t.failed := by
      unfold endTurn
      cases t.responseOutput <;> rfl
    have hrecorded : Ends t { t.endTurn with conversation := t.conversation ++ t.record transcript } :=
      ⟨hends.turn, hends.sent, hends.stage, hends.answers, hends.cancelled, hends.spoken, hends.pending, hends.output,
        hends.truncated⟩
    rw [hsame]
    apply h.ends hrecorded (t.record transcript)
    · simp [hstage, Stage.place]
    · rfl
    · intro item hitem
      obtain hu | ⟨ha, _⟩ := mem_record hitem
      · exact .inl hu
      · exact .inr ha
    · exact record_distinct t transcript
    · intro hgone item hitem hid
      obtain ⟨_, hu⟩ | ⟨_, hfree, hsome⟩ := mem_record hitem
      · rw [hid] at hu; cases hu
      · obtain hin | hnone := hgone.unrecorded hstage
        · exact hfree hin
        · exact hsome hnone
    · intro n hn
      exact hfailed ▸ hn
    · intro ha _ hack
      obtain ⟨text, hd, htext⟩ := answered_iff.mp ha
      have hout : t.responseOutput = some text := hreturns text hd
      have hfree : t.own ∉ t.truncatedAssistantItemIds := fun hin => hack (h.truncated_acknowledged _ hin)
      refine ⟨⟨.assistant, text, t.own⟩, ?_, rfl, rfl⟩
      unfold record
      rw [hout]
      dsimp only
      apply List.mem_append_right
      rw [if_pos ⟨htext, hfree⟩]
      exact List.mem_singleton.mpr rfl
  · have hstep : t.step (.transcribed transcript) = t := by
      cases hs : t.session.stage <;> simp_all [step]
    rw [hstep]
    exact h

theorem tidy_transcriptionFails (h : t.Tidy) : (t.step .transcriptionFails).Tidy := by
  by_cases hstage : t.session.stage = .transcribing
  · simp only [step, hstage]
    have hends := h.endTurn hstage
    have hconversation : t.endTurn.conversation = t.conversation := by
      unfold endTurn
      cases t.responseOutput <;> rfl
    have hfailed : Ends t { t.endTurn with failed := t.session.turn :: t.failed } :=
      ⟨hends.turn, hends.sent, hends.stage, hends.answers, hends.cancelled, hends.spoken, hends.pending, hends.output,
        hends.truncated⟩
    apply h.ends hfailed []
    · simp [hstage, Stage.place]
    · rw [List.append_nil]; exact hconversation
    · exact fun _ hitem => nomatch hitem
    · exact List.nodup_nil
    · exact fun _ _ hitem => nomatch hitem
    · exact fun n hn => List.mem_cons_of_mem _ hn
    · exact fun _ hfailed => absurd List.mem_cons_self hfailed
  · have hstep : t.step .transcriptionFails = t := by
      cases hs : t.session.stage <;> simp_all [step]
    rw [hstep]
    exact h

theorem tidy_turnFails (h : t.Tidy) : (t.step .turnFails).Tidy := by
  by_cases hstage : t.session.stage = .unstarted
  · have hplace : t.session.stage.place = .before := by rw [hstage]; rfl
    have hnow := h.now
    simp only [Now, hplace] at hnow
    obtain ⟨hpending, houtput⟩ := hnow
    have hsub := h.truncated
    rw [hpending] at hsub
    simp only [step, Session.step, hstage]
    apply Tidy.ends h _ []
    · simp [hplace]
    · exact (List.append_nil _).symm
    · exact fun _ hitem => nomatch hitem
    · exact List.nodup_nil
    · exact fun _ _ hitem => nomatch hitem
    · exact fun n hn => hn
    · intro ha _ _
      obtain ⟨text, hd, _⟩ := answered_iff.mp ha
      exact absurd hplace ((h.past _ _ _ hd).2 rfl).1
    · exact ⟨rfl, rfl, rfl, rfl, rfl, rfl, hpending, houtput, Finset.subset_empty.mp hsub⟩
  · have hstep : t.step .turnFails = t := by
      cases hs : t.session.stage <;> simp_all [step]
    rw [hstep]
    exact h

/-! ### Truncation -/

/-- An answer to a truncate leaves the turn where it is. -/
theorem Tidy.answer (h : t.Tidy) (session : t'.session = t.session)
    (pending : t'.pendingAssistantItemIds = t.pendingAssistantItemIds)
    (cancelled : t'.cancelledAssistantItemIds = t.cancelledAssistantItemIds)
    (output : t'.responseOutput = t.responseOutput) (spoken : t'.spoken = t.spoken) (failed : t'.failed = t.failed)
    (conversation : t'.conversation.Sublist t.conversation)
    (truncated : t.truncatedAssistantItemIds ⊆ t'.truncatedAssistantItemIds)
    (known : ∀ i ∈ t'.truncatedAssistantItemIds,
      i ∈ t.truncatedAssistantItemIds ∨ (i ∈ t.pendingAssistantItemIds ∧ t'.Acknowledged i))
    (answers : ∀ i, t.Acknowledged i → t'.Acknowledged i)
    (acknowledged : ∀ i, t'.Acknowledged i → t.Acknowledged i ∨ t'.Gone i)
    (recorded : ∀ n, t.Recorded n → ¬ t'.Acknowledged (.assistant n) → t'.Recorded n) : t'.Tidy := by
  have hgone : ∀ i, t.Gone i → t'.Gone i := by
    intro i hi
    obtain ⟨n, rfl, hle, hconv, hgone⟩ := hi
    refine ⟨n, rfl, session ▸ hle, fun item hitem => hconv item (conversation.subset hitem), ?_⟩
    rw [session, output]
    intro hn
    have hin := hgone hn
    cases hplace : t.session.stage.place with
    | idle => trivial
    | before => rw [hplace] at hin; exact hin
    | «open» audio => rw [hplace] at hin; exact truncated hin
    | closed audio | after => rw [hplace] at hin; exact hin.imp_left fun hin => truncated hin
  exact {
    sound := session ▸ h.sound
    past := session ▸ h.past
    now := by
      have hnow := h.now
      unfold Now Returns own at hnow ⊢
      rw [session, pending, output, spoken]
      exact hnow
    truncated := by
      intro i hi
      rw [pending]
      cases known i hi with
      | inl hi => exact h.truncated hi
      | inr hi => exact hi.1
    truncated_acknowledged := by
      intro i hi
      cases known i hi with
      | inl hi => exact answers i (h.truncated_acknowledged i hi)
      | inr hi => exact hi.2
    spoken := by
      rw [spoken, session]
      exact h.spoken
    conversation := by
      intro item hitem
      rw [session]
      exact h.conversation item (conversation.subset hitem)
    distinct := h.distinct.sublist (conversation.map _)
    cancelled := fun i hi => hgone i (h.cancelled i (cancelled ▸ hi))
    acknowledged := by
      intro i hi
      cases acknowledged i hi with
      | inl hi => exact hgone i (h.acknowledged i hi)
      | inr hi => exact hi
    recorded := by
      intro n hn ha hfailed hack
      unfold Over at hn
      unfold Answered at ha
      rw [session] at hn ha
      rw [failed] at hfailed
      exact recorded n (h.recorded n hn ha hfailed fun hc => hack (answers _ hc)) hack
  }

theorem acknowledged_concat {j : ItemId} {a : Answer} (h : t'.answers = t.answers ++ [(i, a)]) :
    t'.Acknowledged j ↔ t.Acknowledged j ∨ (j = i ∧ a = .truncated) := by
  unfold Acknowledged
  rw [h, List.mem_append, List.mem_singleton, Prod.mk.injEq, eq_comm (a := a)]

/-- An item that was refused stays where it is. -/
theorem tidy_refused (h : t.Tidy) (i : ItemId) (code : String) :
    Tidy { t with answers := t.answers ++ [(i, .error code)] } := by
  have hack : ∀ j, Acknowledged { t with answers := t.answers ++ [(i, .error code)] } j ↔ t.Acknowledged j := by
    intro j
    rw [acknowledged_concat (t := t) rfl]
    exact or_iff_left fun hc => nomatch hc.2
  apply h.answer
  iterate 6 · rfl
  · exact List.Sublist.refl _
  · exact Finset.Subset.refl _
  · exact fun j hj => .inl hj
  · exact fun j hj => (hack j).mpr hj
  · exact fun j hj => .inl ((hack j).mp hj)
  · exact fun n hn _ => hn

/-- An item that is answered as truncated, and is gone. -/
theorem Tidy.answerTruncated (h : t.Tidy)
    (answered : t' = { t with
      conversation := t'.conversation, truncatedAssistantItemIds := t'.truncatedAssistantItemIds
      answers := t.answers ++ [(i, .truncated)] })
    (gone : t'.Gone i) (conversation : t'.conversation.Sublist t.conversation)
    (truncated : t.truncatedAssistantItemIds ⊆ t'.truncatedAssistantItemIds)
    (known : ∀ j ∈ t'.truncatedAssistantItemIds,
      j ∈ t.truncatedAssistantItemIds ∨ (j = i ∧ j ∈ t.pendingAssistantItemIds))
    (recorded : ∀ n, t.Recorded n → ¬ t'.Acknowledged (.assistant n) → t'.Recorded n) : t'.Tidy := by
  have hack : ∀ j, t'.Acknowledged j ↔ t.Acknowledged j ∨ (j = i ∧ Answer.truncated = .truncated) := fun j =>
    acknowledged_concat (by rw [answered])
  refine h.answer ?_ ?_ ?_ ?_ ?_ ?_ conversation truncated (fun j hj => ?_) (fun j hj => (hack j).mpr (.inl hj))
    (fun j hj => ?_) recorded
  iterate 6 · rw [answered]
  · exact (known j hj).imp_right fun hj => ⟨hj.2, (hack j).mpr (.inr ⟨hj.1, rfl⟩)⟩
  · refine ((hack j).mp hj).imp_right fun hj => ?_
    rw [hj.1]
    exact gone

/-- After the first item of an id is taken out of a list whose ids are distinct, none is left. -/
theorem erased_ne {l : List ConversationItem} {k : Nat}
    (h : (l.map ConversationItem.itemId).Nodup) (hk : ∃ item, l[k]? = some item ∧ item.itemId = i) :
    ∀ item ∈ l.eraseIdx k, item.itemId ≠ i := by
  obtain ⟨found, hfound, hid⟩ := hk
  intro item hitem heq
  obtain ⟨j, hjk, hj⟩ := List.mem_eraseIdx_iff_getElem?.mp hitem
  have hinj : j = k := by
    have hlt : j < (l.map ConversationItem.itemId).length := by
      rw [List.length_map]
      exact (List.getElem?_eq_some_iff.mp hj).1
    apply (List.getElem?_inj hlt h).mp
    rw [List.getElem?_map, List.getElem?_map, hj, hfound]
    simp [heq, hid]
  exact hjk hinj

theorem mem_eraseIdx_of_ne {l : List ConversationItem} {k : Nat} {found item : ConversationItem}
    (hfound : l[k]? = some found) (hid : found.itemId = i) (hitem : item ∈ l) (hne : item.itemId ≠ i) :
    item ∈ l.eraseIdx k := by
  obtain ⟨j, hj⟩ := List.mem_iff_getElem?.mp hitem
  apply List.mem_eraseIdx_iff_getElem?.mpr
  refine ⟨j, ?_, hj⟩
  intro hjk
  rw [hjk, hfound] at hj
  cases hj
  exact hne hid

theorem tidy_truncate (h : t.Tidy) (i : ItemId) (contentIndex : Int) :
    (t.step (.truncate i contentIndex)).Tidy := by
  simp only [step, truncate]
  split
  · exact tidy_refused h i _
  split
  · next hpending =>
    -- the item of this turn, which is not in the conversation before the turn ends
    have hturn : i = t.own ∧ t.session.stage.place ≠ .idle ∧ t.session.stage.place ≠ .before := by
      have hnow := h.now
      unfold Now at hnow
      cases hplace : t.session.stage.place with
      | idle | before =>
        rw [hplace] at hnow
        rw [hnow.1] at hpending
        exact absurd hpending (Finset.notMem_empty _)
      | «open» | closed | after =>
        rw [hplace] at hnow
        rw [hnow.1] at hpending
        split at hpending
        · exact ⟨Finset.mem_singleton.mp hpending, by simp⟩
        · exact absurd hpending (Finset.notMem_empty _)
    obtain ⟨rfl, hidle, hbefore⟩ := hturn
    have hgone : Gone { t with
        truncatedAssistantItemIds := insert t.own t.truncatedAssistantItemIds
        answers := t.answers ++ [(t.own, .truncated)] } t.own := by
      refine ⟨t.session.turn, rfl, Nat.le_refl _, ?_, ?_⟩
      · intro item hitem hid
        obtain ⟨n, _, hplace, hkind⟩ := h.conversation item hitem
        obtain ⟨_, hkind⟩ | ⟨_, hkind⟩ := hkind
        · rw [hid] at hkind; cases hkind
        · rw [hid] at hkind
          cases hkind
          exact hidle (hplace rfl)
      · intro _
        dsimp only
        split
        · trivial
        · next hp => exact hbefore hp
        · exact Finset.mem_insert_self _ _
        · exact .inl (Finset.mem_insert_self _ _)
        · exact .inl (Finset.mem_insert_self _ _)
    refine h.answerTruncated rfl hgone (List.Sublist.refl _) (Finset.subset_insert _ _) (fun j hj => ?_)
      fun n hn _ => hn
    cases Finset.mem_insert.mp hj with
    | inl hj => exact .inr ⟨hj, hj ▸ hpending⟩
    | inr hj => exact .inl hj
  split
  · split
    · exact tidy_refused h i _
    · next k hfind =>
      obtain ⟨hlt, hp, _⟩ := List.findIdx?_eq_some_iff_getElem.mp hfind
      have hid : t.conversation[k].itemId = i := by simpa using (Bool.and_eq_true_iff.mp hp).1
      have hrole : t.conversation[k].role = .assistant := by simpa using (Bool.and_eq_true_iff.mp hp).2
      have hat : t.conversation[k]? = some t.conversation[k] := List.getElem?_eq_getElem hlt
      have hgone : Gone { t with
          conversation := t.conversation.eraseIdx k, answers := t.answers ++ [(i, .truncated)] } i := by
        obtain ⟨n, hle, hidle, hkind⟩ := h.conversation _ (List.getElem_mem hlt)
        have hi : i = .assistant n := by
          obtain ⟨hu, _⟩ | ⟨_, ha⟩ := hkind
          · rw [hrole] at hu; cases hu
          · exact hid.symm.trans ha
        refine ⟨n, hi, hle, erased_ne h.distinct ⟨_, hat, hid⟩, ?_⟩
        intro hn
        dsimp only
        rw [hidle hn]
        trivial
      refine h.answerTruncated rfl hgone (List.eraseIdx_sublist _ _) (Finset.Subset.refl _) (fun j hj => .inl hj)
        fun n hn hack => ?_
      obtain ⟨item, hitem, hkind, hitemId⟩ := hn
      have hne : item.itemId ≠ i := by
        intro heq
        apply hack
        exact (acknowledged_concat (t := t) rfl).mpr (.inr ⟨hitemId.symm.trans heq, rfl⟩)
      exact ⟨item, mem_eraseIdx_of_ne hat hid hitem hne, hkind, hitemId⟩
  · next hcancelled =>
    have hgone : t.Gone i := h.cancelled i (not_not.mp hcancelled)
    exact h.answerTruncated rfl hgone (List.Sublist.refl _) (Finset.Subset.refl _) (fun j hj => .inl hj)
      fun n hn _ => hn

/-! ### Runs -/

theorem tidy_initial : Tidy {} where
  sound _ hr := nomatch hr
  past _ _ _ hd := by
    obtain ⟨_, hd⟩ := hd
    cases hd
  now := ⟨rfl, rfl⟩
  truncated := Finset.Subset.refl _
  truncated_acknowledged _ hi := absurd hi (Finset.notMem_empty _)
  spoken _ hn := nomatch hn
  conversation _ hitem := nomatch hitem
  distinct := List.nodup_nil
  cancelled _ hi := nomatch hi
  acknowledged _ hi := nomatch hi
  recorded _ _ ha := by
    obtain ⟨_, _, hd, _⟩ := ha
    cases hd

theorem tidy_onSession (h : t.Tidy) (e : Event) : (t.onSession e).Tidy := by
  have hstays : e.moves = false → Tidy { t with session := t.session.step e } :=
    fun he => h.stays (stays_step h.sound he)
  cases e with
  | nextTurn => exact tidy_nextTurn h
  | runResponse => exact tidy_runResponse h
  | write => exact tidy_write h
  | responseReturns => exact tidy_responseReturns h
  | turnEnds => cases hs : t.session.stage <;> simpa only [onSession, hs] using h
  | _ =>
    have hframe := hstays rfl
    cases hs : t.session.stage <;> simpa only [onSession, hs] using hframe

theorem tidy_step (h : t.Tidy) (a : Act) : (t.step a).Tidy := by
  cases a with
  | session e => exact tidy_onSession h e
  | transcribed transcript => exact tidy_transcribed h transcript
  | transcriptionFails => exact tidy_transcriptionFails h
  | turnFails => exact tidy_turnFails h
  | truncate itemId contentIndex => exact tidy_truncate h itemId contentIndex

theorem tidy_runs (acts : List Act) : (runs acts).Tidy :=
  run_invariant tidy_initial (fun _ a h => tidy_step h a) acts

/-- What was acknowledged stays acknowledged. -/
theorem acknowledged_step (h : t.Acknowledged i) (a : Act) : (t.step a).Acknowledged i := by
  have hsame : ∀ t' : Talk, t'.answers = t.answers → t'.Acknowledged i := fun t' ht => by
    unfold Acknowledged
    rw [ht]
    exact h
  cases a with
  | session e =>
    apply hsame
    unfold step onSession
    dsimp only
    split
    · split <;> rfl
    · split
      · rfl
      · split <;> rfl
      · rfl
    · split
      · split <;> rfl
      · rfl
    · rfl
    · rfl
  | transcribed transcript =>
    apply hsame
    unfold step
    dsimp only
    split
    · unfold endTurn
      split <;> rfl
    · rfl
  | transcriptionFails =>
    apply hsame
    unfold step
    dsimp only
    split
    · unfold endTurn
      dsimp only
      split <;> rfl
    · rfl
  | turnFails =>
    apply hsame
    unfold step
    dsimp only
    split <;> rfl
  | truncate itemId contentIndex =>
    unfold Acknowledged at h ⊢
    simp only [step]
    exact List.mem_append_left _ h

theorem acknowledged_run (h : t.Acknowledged i) (later : List Act) :
    (run step t later).Acknowledged i :=
  run_invariant (I := fun t : Talk => t.Acknowledged i) h (fun _ a h => acknowledged_step h a) later

/-- What is pending, cancelled or in the conversation can be truncated. -/
theorem truncate_acknowledged
    (h : i ∈ t.pendingAssistantItemIds ∨ ∃ item ∈ t.conversation, item.role = .assistant ∧ item.itemId = i) :
    (t.truncate i 0).2 = .truncated := by
  unfold truncate
  rw [if_neg (not_not.mpr rfl)]
  split
  · rfl
  · next hpending =>
    split
    · obtain ⟨item, hitem, hrole, hid⟩ := h.resolve_left hpending
      cases hfind : t.conversation.findIdx? (fun item => item.itemId = i && item.role = .assistant) with
      | none =>
        have hnot := List.findIdx?_eq_none_iff.mp hfind item hitem
        simp [hrole, hid] at hnot
      | some k => rfl
    · rfl

/-- **A truncation is final.** In every run of turns, cancels and truncations, an assistant item whose truncation was
acknowledged is not in the conversation from then on. The answer of a completed response can be truncated while its turn
runs, when it is spoken, and from the end of the turn, unless the transcription of the turn failed, until it has been.
Between turns nothing is pending and nothing is remembered as truncated. -/
theorem truncations_are_final (acts later : List Act) :
    (∀ n, (ItemId.assistant n, Answer.truncated) ∈ (runs acts).answers →
      ∀ item ∈ (runs (acts ++ later)).conversation, item.itemId ≠ .assistant n) ∧
    (∀ n, (runs acts).Answered n → (runs acts).Truncatable n → ((runs acts).truncate (.assistant n) 0).2 = .truncated) ∧
    ((runs acts).session.stage = .idle →
      (runs acts).pendingAssistantItemIds = ∅ ∧ (runs acts).truncatedAssistantItemIds = ∅) := by
  have h : (runs acts).Tidy := tidy_runs acts
  constructor
  · intro n hack
    have hlater : (runs (acts ++ later)).Acknowledged (.assistant n) := by
      unfold runs
      rw [run_append]
      exact acknowledged_run hack later
    obtain ⟨_, _, _, hconv, _⟩ := (tidy_runs (acts ++ later)).acknowledged _ hlater
    exact hconv
  constructor
  · intro n ha hopen
    apply truncate_acknowledged
    obtain ⟨rfl, hstage, hspoken⟩ | ⟨hover, hfailed, hack⟩ := hopen
    · left
      obtain ⟨text, hd, _⟩ := answered_iff.mp ha
      obtain ⟨hbefore, hnotOpen⟩ := (h.past _ _ _ hd).2 rfl
      have hnow := h.now
      unfold Now at hnow
      cases hplace : (runs acts).session.stage.place with
      | idle => exact absurd (place_idle.mp hplace) hstage
      | before => exact absurd hplace hbefore
      | «open» audio => exact absurd hplace (hnotOpen audio)
      | closed audio =>
        rw [hplace] at hnow
        obtain ⟨hpending, haudio, _⟩ := hnow
        rw [hpending, if_pos (haudio.mpr hspoken)]
        exact Finset.mem_singleton_self _
      | after =>
        rw [hplace] at hnow
        obtain ⟨hpending, hreturns⟩ := hnow
        rw [hpending, if_pos ⟨hspoken, by rw [hreturns text hd]; rfl⟩]
        exact Finset.mem_singleton_self _
    · exact .inr (h.recorded n hover ha hfailed hack)
  · intro hstage
    have hnow := h.now
    simp only [Now, hstage, Stage.place] at hnow
    have hsub := h.truncated
    rw [hnow.1] at hsub
    exact ⟨hnow.1, Finset.subset_empty.mp hsub⟩

/-- A turn with a completed response that is not spoken, before its transcription. -/
def textAnswer : List Act :=
  [.session .nextTurn, .session .runResponse, .session .write, .session .sendReturns, .session (.chunk { text := "a" }),
   .session .write, .session .sendReturns, .session .streamEnds, .session .write, .session .write,
   .session .responseReturns]

def failedTurn : List Act := textAnswer ++ [.transcriptionFails]

def truncatedTurn : List Act := textAnswer ++ [.transcribed "q", .truncate (.assistant 1) 0]

/-- The answer of a response that is not spoken cannot be truncated during the transcription; nor can an answer whose
transcription failed, or one that has been truncated. -/
theorem answers_not_truncatable :
    ((runs textAnswer).Answered 1 ∧ ((runs textAnswer).truncate (.assistant 1) 0).2 = .error "item_not_found") ∧
    ((runs failedTurn).Answered 1 ∧ ((runs failedTurn).truncate (.assistant 1) 0).2 = .error "item_not_found") ∧
    ((runs truncatedTurn).Answered 1 ∧ ((runs truncatedTurn).truncate (.assistant 1) 0).2 =
      .error "item_not_found") := by
  constructor
  · exact ⟨⟨"stop", "a", by decide, by decide⟩, by decide⟩
  constructor
  · exact ⟨⟨"stop", "a", by decide, by decide⟩, by decide⟩
  · exact ⟨⟨"stop", "a", by decide, by decide⟩, by decide⟩

end Talk
end SglangOmni.Serve.Realtime
