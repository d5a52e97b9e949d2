import SglangOmni.Lib.CutAfter
import SglangOmni.Serve.SpeechWs

/-! The text of a speech WebSocket is spoken once and in order.

What a session has to say follows from the frames that were processed (`Script`): the text between two commits, cut
after each boundary. The invariant is that what was said, with what the running handler still says, is that script; the
frames themselves only move from the socket to the side buffer and on to the message loop. -/
namespace SglangOmni.Serve.SpeechWs
open Lib

/-! ### The sentences of a text -/

/-- The sentences that are said of some pieces of text. -/
def spoken (pieces : List Str) : List Str := (pieces.map strip).filter fun sentence => !sentence.isEmpty

/-- The sentences of a text that is followed by a commit: its pieces after each boundary, and the rest. -/
def sentencesOf (g : SplitGranularity) (text : Str) : List Str :=
  spoken ((cutAfter g.isBoundary [] text).1 ++ [(cutAfter g.isBoundary [] text).2])

theorem spoken_append (a b : List Str) : spoken (a ++ b) = spoken a ++ spoken b := by
  simp only [spoken, List.map_append, List.filter_append]

theorem spoken_cons (s : Str) (rest : List Str) :
    spoken (s :: rest) = (if (strip s).isEmpty then [] else [strip s]) ++ spoken rest := by
  rw [← List.singleton_append, spoken_append]
  congr 1
  cases h : (strip s).isEmpty <;> simp [spoken, h]

theorem spoken_singleton (s : Str) : spoken [s] = if (strip s).isEmpty then [] else [strip s] := by
  rw [spoken_cons]
  exact List.append_nil _

namespace SplitGranularity
variable (g : SplitGranularity)

theorem popSegment_foldl (before x : Str) (segments : List Str) (start : Nat) (h : start ≤ before.length) :
    let popped := (x.zipIdx before.length).foldl (g.popSegment (before ++ x)) (segments, start)
    let cut := cutAfter g.isBoundary (before.drop start) x
    popped.1 = segments ++ spoken cut.1 ∧ (before ++ x).drop popped.2 = cut.2 := by
  induction x generalizing before segments start with
  | nil =>
    intro popped cut
    exact ⟨(List.append_nil _).symm, by rw [List.append_nil]; rfl⟩
  | cons c x ih =>
    have hassoc : before ++ c :: x = (before ++ [c]) ++ x := by simp
    have hlen : (before ++ [c]).length = before.length + 1 := by simp
    have htake : ((before ++ c :: x).take (before.length + 1)).drop start = before.drop start ++ [c] := by
      rw [hassoc, ← hlen, List.take_left, List.drop_append_of_le_length h]
    simp only [List.zipIdx_cons, List.foldl_cons, popSegment, cutAfter]
    split
    · rw [htake, hassoc, ← hlen]
      obtain ⟨hsegments, hrest⟩ := ih (before ++ [c])
        (if (strip (before.drop start ++ [c])).isEmpty then segments else segments ++
          [strip (before.drop start ++ [c])])
        (before ++ [c]).length (Nat.le_refl _)
      rw [List.drop_length] at hsegments hrest
      refine ⟨?_, hrest⟩
      rw [hsegments, spoken_cons]
      split <;> simp
    · rw [hassoc, ← hlen]
      obtain ⟨hsegments, hrest⟩ := ih (before ++ [c]) segments start (by omega)
      rw [List.drop_append_of_le_length h] at hsegments hrest
      exact ⟨hsegments, hrest⟩

/-- The loop over the buffer cuts it after each boundary. -/
theorem popCompleteSegments_eq (buffer : Str) :
    g.popCompleteSegments buffer =
      (spoken (cutAfter g.isBoundary [] buffer).1, (cutAfter g.isBoundary [] buffer).2) := by
  obtain ⟨hsegments, hrest⟩ := g.popSegment_foldl [] buffer [] 0 (Nat.le_refl _)
  exact Prod.ext hsegments hrest

end SplitGranularity

/-! ### What the frames ask for -/

/-- Sentences with their indices. -/
def numbered (n : Nat) (sentences : List Str) : List Event :=
  (sentences.zipIdx n).map fun said => .generate said.2 said.1

theorem numbered_append (n : Nat) (a b : List Str) :
    numbered n (a ++ b) = numbered n a ++ numbered (n + a.length) b := by
  simp only [numbered, List.zipIdx_append, List.map_append]

/-- What is to be said of the frames so far: the events up to the last commit, and the text after it. -/
structure Script where
  events : List Event := []
  sentences : Nat := 0
  segment : Nat := 0
  text : Str := []

namespace Script
variable (g : SplitGranularity)

def onFrame (k : Script) (frame : Frame) : Script :=
  let said := sentencesOf g k.text
  let total := k.sentences + said.length
  match frame.body with
  | .inputText text => { k with text := k.text ++ text }
  | .inputCommit =>
    { events := k.events ++ numbered k.sentences said ++ [.committed k.segment said.length total]
      sentences := total, segment := k.segment + 1, text := [] }
  | .inputDone =>
    { k with events := k.events ++ numbered k.sentences said ++ [.sessionDone total], sentences := total, text := [] }
  | _ => k

/-- The pieces after the last commit that are complete are said without waiting for a commit. -/
def all (k : Script) : List Event := k.events ++ numbered k.sentences (spoken (cutAfter g.isBoundary [] k.text).1)

def ofFrames (frames : List Frame) : Script := frames.foldl (onFrame g) {}

end Script

namespace Session
variable {g : SplitGranularity} {s : Session}

/-- What was said and reported, without the ends of the generations and the errors. -/
def said (sent : List Event) : List Event :=
  sent.filter fun
    | .audioDone .. => false
    | .error => false
    | _ => true

def afterEvents (s : Session) (after : After) (total : Nat) : List Event :=
  match after with
  | .nothing => []
  | .commit => [.committed s.segmentIndex (total - s.committedSentenceCount) total]
  | .done => [.sessionDone total]

/-- What the running handler still says. -/
def remaining (s : Session) : List Event :=
  match s.task with
  | .generating i rest after => numbered (i + 1) rest ++ s.afterEvents after (i + 1 + rest.length)
  | _ => []

/-- The sentences of the frames so far, with those still to come. -/
def total (s : Session) : Nat :=
  match s.task with
  | .generating i rest _ => i + 1 + rest.length
  | _ => s.sentenceIndex

theorem said_append (a b : List Event) : said (a ++ b) = said a ++ said b := List.filter_append ..

theorem said_generate (s : Session) (after : After) (rest : List Str) :
    said (s.generate after rest).sent ++ (s.generate after rest).remaining =
      said s.sent ++ (numbered s.sentenceIndex rest ++ s.afterEvents after (s.sentenceIndex + rest.length)) := by
  cases rest with
  | nil =>
    cases after with
    | nothing => rfl
    | commit | done => exact (congrArg (· ++ []) (said_append ..)).trans (List.append_nil _)
  | cons sentence rest =>
    have hlen : s.sentenceIndex + 1 + rest.length = s.sentenceIndex + (rest.length + 1) := by omega
    simp only [generate, remaining, said_append, List.append_assoc, List.length_cons, hlen]
    rfl

theorem total_generate (s : Session) (after : After) (rest : List Str) :
    (s.generate after rest).total = s.sentenceIndex + rest.length := by
  cases rest with
  | nil => cases after <;> rfl
  | cons sentence rest =>
    show s.sentenceIndex + 1 + rest.length = s.sentenceIndex + (rest.length + 1)
    omega

theorem buffer_generate (s : Session) (after : After) (rest : List Str) :
    (s.generate after rest).buffer = s.buffer := by
  cases rest with
  | nil => cases after <;> rfl
  | cons sentence rest => rfl

theorem processed_generate (s : Session) (after : After) (rest : List Str) :
    (s.generate after rest).processed = s.processed := by
  cases rest with
  | nil => cases after <;> rfl
  | cons sentence rest => rfl

/-! ### The session follows the script -/

/-- The last commit, as the running handler will leave it. -/
def committedBy (s : Session) (total : Nat) : After → Nat × Nat
  | .nothing => (s.segmentIndex, s.committedSentenceCount)
  | .commit => (s.segmentIndex + 1, total)
  | .done => (s.segmentIndex, total)

/-- The sentences and the segment of the script, where the message loop goes on. -/
def Committed (s : Session) (k : Script) : Prop :=
  match s.task with
  | .receiving => (k.segment, k.sentences) = (s.segmentIndex, s.committedSentenceCount)
  | .generating _ _ after => (k.segment, k.sentences) = s.committedBy s.total after
  | .closed => True

/-- The session against the script of the frames that were processed. -/
structure Follows (g : SplitGranularity) (s : Session) (k : Script) : Prop where
  said : said s.sent ++ s.remaining = k.all g
  buffer : s.buffer = (cutAfter g.isBoundary [] k.text).2
  total : s.total = k.sentences + (spoken (cutAfter g.isBoundary [] k.text).1).length
  committed : s.Committed k
  index : ∀ i rest after, s.task = .generating i rest after → s.sentenceIndex = i + 1

theorem committed_generate (s : Session) (k : Script) (after : After) (rest : List Str)
    (h : (k.segment, k.sentences) = s.committedBy (s.sentenceIndex + rest.length) after) :
    (s.generate after rest).Committed k := by
  cases rest with
  | nil =>
    cases after with
    | nothing => exact h
    | commit => exact h
    | done => trivial
  | cons sentence rest =>
    have hlen : s.sentenceIndex + 1 + rest.length = s.sentenceIndex + (rest.length + 1) := by omega
    show (k.segment, k.sentences) = s.committedBy (s.sentenceIndex + 1 + rest.length) after
    rw [hlen]
    exact h

theorem index_generate (s : Session) (after : After) (rest : List Str) :
    ∀ i r a, (s.generate after rest).task = .generating i r a → (s.generate after rest).sentenceIndex = i + 1 := by
  intro i r a h
  cases rest with
  | nil => cases after <;> exact nomatch h
  | cons sentence rest =>
    obtain ⟨rfl, -, -⟩ := Task.generating.inj h
    rfl

/-- The next generation is what the handler still had to say. -/
theorem Follows.finish {k : Script} (h : Follows g s k) (failed : Bool) {i : Nat} {rest : List Str}
    {after : After} (ht : s.task = .generating i rest after) : Follows g (s.finish failed i rest after) k := by
  have hindex := h.index i rest after ht
  have hsaid := h.said
  have htotal := h.total
  have hcommitted := h.committed
  simp only [Session.remaining, ht] at hsaid
  simp only [Session.total, ht] at htotal
  simp only [Committed, ht] at hcommitted
  refine ⟨?_, ?_, ?_, ?_, index_generate _ _ _⟩
  · rw [Session.finish, said_generate, ← hsaid]
    have quiet : Session.said ((if failed then [Event.error] else []) ++ [Event.audioDone i failed]) = [] := by
      cases failed <;> rfl
    simp only [List.append_assoc]
    rw [said_append, quiet, List.append_nil, hindex]
    rfl
  · rw [Session.finish, buffer_generate]
    exact h.buffer
  · rw [Session.finish, total_generate, ← htotal, hindex]
  · refine committed_generate _ _ _ _ ?_
    simp only [Session.total, ht] at hcommitted
    rw [hcommitted, hindex]
    rfl

/-- A handler starts in the message loop, with the sentences that the frame adds to the script. -/
theorem Follows.generate {k k' : Script} (h : Follows g s k) (ht : s.task = .receiving) (buffer : Str)
    (after : After) (rest : List Str)
    (hall : k'.all g = k.all g ++ numbered s.sentenceIndex rest ++ s.afterEvents after (s.sentenceIndex + rest.length))
    (hbuffer : buffer = (cutAfter g.isBoundary [] k'.text).2)
    (htotal : s.sentenceIndex + rest.length = k'.sentences + (spoken (cutAfter g.isBoundary [] k'.text).1).length)
    (hcommitted : (k'.segment, k'.sentences) = s.committedBy (s.sentenceIndex + rest.length) after) :
    Follows g ({ s with buffer }.generate after rest) k' := by
  have hsaid := h.said
  simp only [Session.remaining, ht, List.append_nil] at hsaid
  refine ⟨?_, ?_, ?_, ?_, index_generate _ _ _⟩
  · rw [said_generate, hall, ← hsaid, List.append_assoc]
    rfl
  · rw [buffer_generate]
    exact hbuffer
  · rw [total_generate]
    exact htotal
  · exact committed_generate _ _ _ _ hcommitted

/-- A flush says the rest of the text. -/
theorem Follows.flushBuffer {k k' : Script} (h : Follows g s k) (ht : s.task = .receiving) (after : After)
    (hevents : k'.events = k.events ++ numbered k.sentences (sentencesOf g k.text) ++
      s.afterEvents after (k.sentences + (sentencesOf g k.text).length))
    (htext : k'.text = []) (hsentences : k'.sentences = k.sentences + (sentencesOf g k.text).length)
    (hcommitted : (k'.segment, k'.sentences) = s.committedBy k'.sentences after) :
    Follows g (s.flushBuffer after) k' := by
  have htotal := h.total
  simp only [Session.total, ht] at htotal
  have hrest : (if (strip s.buffer).isEmpty then [] else [strip s.buffer]) =
      spoken [(cutAfter g.isBoundary [] k.text).2] := by
    rw [spoken_singleton, h.buffer]
  have hlen : s.sentenceIndex + (spoken [(cutAfter g.isBoundary [] k.text).2]).length = k'.sentences := by
    rw [hsentences, sentencesOf, spoken_append, List.length_append, htotal, Nat.add_assoc]
  have hnone : spoken (cutAfter g.isBoundary [] k'.text).1 = [] := by
    rw [htext]
    rfl
  simp only [Session.flushBuffer, hrest]
  refine h.generate ht [] after _ ?_ ?_ ?_ ?_
  · rw [hlen, Script.all, hnone, hevents, hsentences, Script.all, htotal]
    rw [sentencesOf, spoken_append, numbered_append]
    simp only [List.append_assoc]
    congr 3
    exact List.append_nil _
  · rw [htext]
    rfl
  · rw [hlen, hnone]
    rfl
  · rw [hlen]
    exact hcommitted

/-- A frame that is not answered with an error asks for its part of the script. -/
theorem Follows.handleFrame {k : Script} (h : Follows g s k) (ht : s.task = .receiving) (frame : Frame)
    (hd : frame.body ≠ .disconnect) (hsize : frame.size ≤ maxTextMessageBytes)
    (hroom : ∀ text, frame.body = .inputText text → s.buffer.length + text.length ≤ maxBufferedTextChars) :
    Follows g (s.handleFrame g frame) (k.onFrame g frame) := by
  have small : ¬maxTextMessageBytes < frame.size := Nat.not_lt.2 hsize
  have htotal := h.total
  have hcommitted := h.committed
  simp only [Session.total, ht] at htotal
  simp only [Committed, ht] at hcommitted
  cases hb : frame.body with
  | disconnect => exact absurd hb hd
  | invalid =>
    have hsaid := h.said
    simp only [Session.handleFrame, Script.onFrame, hb]
    refine ⟨?_, h.buffer, h.total, h.committed, h.index⟩
    rw [said_append]
    exact (congrArg (· ++ s.remaining) (List.append_nil _)).trans hsaid
  | inputText text =>
    simp only [Session.handleFrame, hb, if_neg small, handleInputText]
    have hroom := hroom text hb
    split
    · rename_i he
      simp only [Script.onFrame, hb, List.isEmpty_iff.1 he, List.append_nil]
      exact h
    · rw [if_neg (Nat.not_lt.2 hroom), h.buffer, g.popCompleteSegments_eq, cutAfter_rest_append]
      have hcut := @cutAfter_append _ g.isBoundary [] k.text text
      refine h.generate ht _ .nothing _ ?_ ?_ ?_ ?_
      · simp only [Script.all, Script.onFrame, hb, hcut, spoken_append, numbered_append, htotal, List.append_assoc,
          afterEvents, List.append_nil]
      · simp only [Script.onFrame, hb, hcut]
      · simp only [Script.onFrame, hb, hcut, spoken_append, List.length_append, htotal, Nat.add_assoc]
      · simp only [Script.onFrame, hb, hcommitted, committedBy]
  | inputCommit =>
    simp only [Session.handleFrame, hb, if_neg small]
    obtain ⟨hsegment, hsentences⟩ := Prod.mk.inj hcommitted
    refine h.flushBuffer ht .commit ?_ ?_ ?_ ?_
    · simp only [Script.onFrame, hb, afterEvents, ← hsegment, ← hsentences, Nat.add_sub_cancel_left]
    · simp only [Script.onFrame, hb]
    · simp only [Script.onFrame, hb]
    · simp only [Script.onFrame, hb, hsegment, committedBy]
  | inputDone =>
    simp only [Session.handleFrame, hb, if_neg small]
    obtain ⟨hsegment, hsentences⟩ := Prod.mk.inj hcommitted
    refine h.flushBuffer ht .done ?_ ?_ ?_ ?_
    · simp only [Script.onFrame, hb, afterEvents]
    · simp only [Script.onFrame, hb]
    · simp only [Script.onFrame, hb]
    · simp only [Script.onFrame, hb, hsegment, committedBy]

/-! ### Every history -/

/-- The limits: on a frame as it arrives, on the text as a frame is taken, and on the side buffer as a frame is put
in. -/
def Within (s : Session) : Step → Prop
  | .arrive frame => frame.body ≠ .disconnect ∧ frame.size ≤ maxTextMessageBytes
  | .receive => s.task = .receiving → ∀ frame s', s.takeFrame = some (frame, s') →
      ∀ text, frame.body = .inputText text → s.buffer.length + text.length ≤ maxBufferedTextChars
  | .watch => ∀ frame rest, s.socket = frame :: rest →
      s.bufferedReceiveMessages.length < maxBufferedReceiveMessages ∧
        s.bufferedReceiveMessageBytes + frame.size ≤ maxBufferedReceiveBytes
  | _ => True

/-- The frames that arrive. -/
def arrivals (steps : List Step) : List Frame :=
  steps.filterMap fun
    | .arrive frame => some frame
    | _ => none

/-- The frames of a session, the oldest first. -/
def frames (s : Session) : List Frame := s.processed ++ (s.bufferedReceiveMessages ++ s.socket)

/-- The indices of the sentences that were generated. -/
def generated (sent : List Event) : List Nat :=
  sent.filterMap fun
    | .generate sentenceIndex _ => some sentenceIndex
    | _ => none

/-- The indices of the `audio.done` events. -/
def audioDones (sent : List Event) : List Nat :=
  sent.filterMap fun
    | .audioDone sentenceIndex _ => some sentenceIndex
    | _ => none

/-- The sentences whose generation has ended. -/
def ended (s : Session) : Nat :=
  match s.task with
  | .generating i _ _ => i
  | _ => s.sentenceIndex

/-- What holds after every history within the limits. -/
structure Good (g : SplitGranularity) (s : Session) : Prop where
  follows : Follows g s (Script.ofFrames g s.processed)
  bytes : s.bufferedReceiveMessageBytes = (s.bufferedReceiveMessages.map Frame.size).sum
  fine : ∀ frame ∈ s.bufferedReceiveMessages ++ s.socket, frame.body ≠ .disconnect ∧ frame.size ≤ maxTextMessageBytes
  generated : generated s.sent = List.range s.sentenceIndex
  dones : audioDones s.sent = List.range s.ended

theorem good_initial : Good g {} :=
  ⟨⟨rfl, rfl, rfl, rfl, fun _ _ _ h => (nomatch h)⟩, rfl, fun _ h => (nomatch h), rfl, rfl⟩

theorem queue_generate (s : Session) (after : After) (rest : List Str) :
    (s.generate after rest).bufferedReceiveMessages = s.bufferedReceiveMessages ∧
      (s.generate after rest).bufferedReceiveMessageBytes = s.bufferedReceiveMessageBytes ∧
      (s.generate after rest).socket = s.socket := by
  cases rest with
  | nil => cases after <;> exact ⟨rfl, rfl, rfl⟩
  | cons sentence rest => exact ⟨rfl, rfl, rfl⟩

/-- A handler counts each sentence that it starts. -/
theorem counts_generate (s : Session) (after : After) (rest : List Str)
    (hg : Session.generated s.sent = List.range s.sentenceIndex) (hd : audioDones s.sent = List.range s.sentenceIndex) :
    Session.generated (s.generate after rest).sent = List.range (s.generate after rest).sentenceIndex ∧
      audioDones (s.generate after rest).sent = List.range (s.generate after rest).ended := by
  cases rest with
  | nil =>
    cases after with
    | nothing => exact ⟨hg, hd⟩
    | commit | done =>
      simp only [generate, finishHandler, Session.generated, audioDones, List.filterMap_append]
      exact ⟨(List.append_nil _).trans hg, (List.append_nil _).trans hd⟩
  | cons sentence rest =>
    simp only [generate, Session.generated, audioDones, List.filterMap_append]
    refine ⟨?_, (List.append_nil _).trans hd⟩
    rw [List.range_succ, ← hg]
    rfl

/-- What a frame leaves of the queues and the counts. -/
theorem handleFrame_frame (s : Session) (frame : Frame) :
    (s.handleFrame g frame).processed = s.processed ∧
      (s.handleFrame g frame).bufferedReceiveMessages = s.bufferedReceiveMessages ∧
      (s.handleFrame g frame).bufferedReceiveMessageBytes = s.bufferedReceiveMessageBytes ∧
      (s.handleFrame g frame).socket = s.socket := by
  have generated : ∀ (s' : Session) after rest, s'.processed = s.processed →
      s'.bufferedReceiveMessages = s.bufferedReceiveMessages →
      s'.bufferedReceiveMessageBytes = s.bufferedReceiveMessageBytes → s'.socket = s.socket →
      (s'.generate after rest).processed = s.processed ∧
        (s'.generate after rest).bufferedReceiveMessages = s.bufferedReceiveMessages ∧
        (s'.generate after rest).bufferedReceiveMessageBytes = s.bufferedReceiveMessageBytes ∧
        (s'.generate after rest).socket = s.socket := by
    intro s' after rest hp hm hb hs
    obtain ⟨hm', hb', hs'⟩ := queue_generate s' after rest
    exact ⟨(processed_generate s' after rest).trans hp, hm'.trans hm, hb'.trans hb, hs'.trans hs⟩
  simp only [handleFrame]
  split
  · exact ⟨rfl, rfl, rfl, rfl⟩
  · exact ⟨rfl, rfl, rfl, rfl⟩
  · split
    · exact ⟨rfl, rfl, rfl, rfl⟩
    · simp only [handleInputText]
      split
      · exact ⟨rfl, rfl, rfl, rfl⟩
      · split
        · exact ⟨rfl, rfl, rfl, rfl⟩
        · exact generated _ _ _ rfl rfl rfl rfl
  · split
    · exact ⟨rfl, rfl, rfl, rfl⟩
    · exact generated _ _ _ rfl rfl rfl rfl
  · split
    · exact ⟨rfl, rfl, rfl, rfl⟩
    · exact generated _ _ _ rfl rfl rfl rfl

theorem handleFrame_counts (s : Session) (frame : Frame) (ht : s.task = .receiving)
    (hg : Session.generated s.sent = List.range s.sentenceIndex) (hd : audioDones s.sent = List.range s.sentenceIndex) :
    Session.generated (s.handleFrame g frame).sent = List.range (s.handleFrame g frame).sentenceIndex ∧
      audioDones (s.handleFrame g frame).sent = List.range (s.handleFrame g frame).ended := by
  have error : ∀ task : Task, task = .receiving ∨ task = .closed →
      Session.generated (s.sent ++ [.error]) = List.range s.sentenceIndex ∧
        audioDones (s.sent ++ [.error]) = List.range ({ s with task, sent := s.sent ++ [Event.error] }).ended := by
    intro task htask
    have hgenerated : Session.generated (s.sent ++ [.error]) = Session.generated s.sent := by simp [Session.generated]
    have haudio : audioDones (s.sent ++ [.error]) = audioDones s.sent := by simp [audioDones]
    rw [hgenerated, haudio]
    cases htask with
    | inl h => rw [h]; exact ⟨hg, hd⟩
    | inr h => rw [h]; exact ⟨hg, hd⟩
  have answered := error s.task (.inl ht)
  simp only [handleFrame]
  split
  · exact ⟨hg, hd⟩
  · exact answered
  · split
    · exact answered
    · simp only [handleInputText]
      split
      · exact ⟨hg, by rw [Session.ended, ht]; exact hd⟩
      · split
        · exact error .closed (.inr rfl)
        · exact counts_generate _ _ _ hg hd
  · split
    · exact answered
    · exact counts_generate _ _ _ hg hd
  · split
    · exact answered
    · exact counts_generate _ _ _ hg hd

theorem takeFrame_frames {s' : Session} {frame : Frame} (h : s.takeFrame = some (frame, s')) :
    ∃ deque bytes socket, s' = { s with
        bufferedReceiveMessages := deque, bufferedReceiveMessageBytes := bytes, socket := socket } ∧
      s.bufferedReceiveMessages ++ s.socket = frame :: (deque ++ socket) ∧
      (s.bufferedReceiveMessageBytes = (s.bufferedReceiveMessages.map Frame.size).sum →
        bytes = (deque.map Frame.size).sum) := by
  simp only [takeFrame] at h
  split at h
  · rename_i first rest hdeque
    obtain ⟨rfl, rfl⟩ := Prod.mk.inj (Option.some.inj h)
    refine ⟨rest, _, s.socket, rfl, by rw [hdeque]; rfl, fun hbytes => ?_⟩
    rw [hbytes, hdeque, List.map_cons, List.sum_cons, Nat.add_sub_cancel_left]
  · rename_i hdeque
    split at h
    · exact nomatch h
    · rename_i first rest hsocket
      obtain ⟨rfl, rfl⟩ := Prod.mk.inj (Option.some.inj h)
      exact ⟨s.bufferedReceiveMessages, s.bufferedReceiveMessageBytes, rest, rfl, by rw [hdeque, hsocket]; rfl, id⟩

/-- A round of the message loop takes the oldest frame. -/
theorem Good.receive (h : Good g s) (ht : s.task = .receiving) (hw : Within s .receive) :
    Good g (s.receive g) ∧ (s.receive g).frames = s.frames := by
  simp only [Session.receive]
  cases htake : s.takeFrame with
  | none => exact ⟨h, rfl⟩
  | some taken =>
    obtain ⟨frame, s'⟩ := taken
    obtain ⟨deque, bytes, socket, rfl, hqueue, hbytes⟩ := takeFrame_frames htake
    obtain ⟨hd, hsize⟩ := h.fine frame (by rw [hqueue]; exact .head _)
    let moved : Session :=
      { s with
        bufferedReceiveMessages := deque, bufferedReceiveMessageBytes := bytes, socket := socket
        processed := s.processed ++ [frame] }
    have follows : Follows g moved (Script.ofFrames g s.processed) :=
      ⟨h.follows.said, h.follows.buffer, h.follows.total, h.follows.committed, h.follows.index⟩
    have hdones : audioDones moved.sent = List.range moved.sentenceIndex := by
      have := h.dones
      rw [ended, ht] at this
      exact this
    obtain ⟨hp, hm, hb, hs⟩ := handleFrame_frame (g := g) moved frame
    obtain ⟨hgen, hdone⟩ := handleFrame_counts (g := g) moved frame ht h.generated hdones
    refine ⟨⟨?_, ?_, ?_, hgen, hdone⟩, ?_⟩
    · have := follows.handleFrame ht frame hd hsize fun text hbody => hw ht frame _ htake text hbody
      rw [hp, Script.ofFrames, List.foldl_append]
      exact this
    · rw [hb, hm]
      exact hbytes h.bytes
    · rw [hm, hs]
      exact fun f hf => h.fine f (by rw [hqueue]; exact .tail _ hf)
    · rw [frames, hp, hm, hs, frames, hqueue]
      simp [moved]

/-- The watcher moves a frame to the end of the side buffer. -/
theorem Good.watch (h : Good g s) (hw : Within s .watch) :
    Good g s.watch ∧ s.watch.frames = s.frames := by
  simp only [Session.watch]
  split
  · exact ⟨h, rfl⟩
  · rename_i frame rest hsocket
    obtain ⟨hd, hsize⟩ := h.fine frame (by rw [hsocket]; exact List.mem_append_right _ (.head _))
    obtain ⟨hcount, hroom⟩ := hw frame rest hsocket
    have fits : (maxBufferedReceiveMessages ≤ s.bufferedReceiveMessages.length || maxTextMessageBytes < frame.size ||
        maxBufferedReceiveBytes < s.bufferedReceiveMessageBytes + frame.size) = false := by
      simp only [Bool.or_eq_false_iff, decide_eq_false_iff_not]
      omega
    have hqueue : s.bufferedReceiveMessages ++ [frame] ++ rest = s.bufferedReceiveMessages ++ s.socket := by
      rw [hsocket]
      simp
    rw [if_neg hd, fits]
    refine ⟨⟨⟨h.follows.said, h.follows.buffer, h.follows.total, h.follows.committed, h.follows.index⟩, ?_, ?_,
      h.generated, h.dones⟩, ?_⟩
    · show s.bufferedReceiveMessageBytes + frame.size = ((s.bufferedReceiveMessages ++ [frame]).map Frame.size).sum
      simp [h.bytes]
    · show ∀ f ∈ s.bufferedReceiveMessages ++ [frame] ++ rest, _
      rw [hqueue]
      exact h.fine
    · show s.processed ++ (s.bufferedReceiveMessages ++ [frame] ++ rest) = _
      rw [hqueue]
      rfl

theorem Good.finish (h : Good g s) (failed : Bool) {i : Nat} {rest : List Str} {after : After}
    (ht : s.task = .generating i rest after) :
    Good g (s.finish failed i rest after) ∧ (s.finish failed i rest after).frames = s.frames := by
  have hindex := h.follows.index i rest after ht
  have hdones := h.dones
  rw [ended, ht] at hdones
  let reported : Session :=
    { s with sent := s.sent ++ (if failed then [Event.error] else []) ++ [Event.audioDone i failed] }
  obtain ⟨hm, hb, hs⟩ := queue_generate reported after rest
  have hp := processed_generate reported after rest
  have hgen : Session.generated reported.sent = List.range s.sentenceIndex := by
    have quiet : Session.generated ((if failed then [Event.error] else []) ++ [Event.audioDone i failed]) = [] := by
      cases failed <;> rfl
    show Session.generated (s.sent ++ _ ++ _) = _
    rw [List.append_assoc, Session.generated, List.filterMap_append, ← h.generated]
    exact (congrArg (Session.generated s.sent ++ ·) quiet).trans (List.append_nil _)
  have hdone : audioDones reported.sent = List.range s.sentenceIndex := by
    have one : audioDones ((if failed then [Event.error] else []) ++ [Event.audioDone i failed]) = [i] := by
      cases failed <;> rfl
    show audioDones (s.sent ++ _ ++ _) = _
    rw [List.append_assoc, audioDones, List.filterMap_append, hindex, List.range_succ, ← hdones]
    exact congrArg (audioDones s.sent ++ ·) one
  obtain ⟨hgen', hdone'⟩ := counts_generate reported after rest hgen hdone
  refine ⟨⟨?_, ?_, ?_, hgen', hdone'⟩, ?_⟩
  · have := h.follows.finish failed ht
    rw [Session.finish, hp]
    exact this
  · rw [Session.finish, hb, hm]
    exact h.bytes
  · rw [Session.finish, hm, hs]
    exact h.fine
  · rw [Session.finish, frames, hp, hm, hs]
    rfl

/-- **One step within the limits.** -/
theorem Good.step (h : Good g s) (e : Step) (hw : Within s e) :
    Good g (s.step g e) ∧ (s.step g e).frames = s.frames ++ arrivals [e] := by
  have same : s.frames = s.frames ++ [] := (List.append_nil _).symm
  cases e with
  | arrive frame =>
    refine ⟨⟨⟨h.follows.said, h.follows.buffer, h.follows.total, h.follows.committed, h.follows.index⟩, h.bytes, ?_,
      h.generated, h.dones⟩, ?_⟩
    · intro f hf
      have hf' : f ∈ s.bufferedReceiveMessages ++ (s.socket ++ [frame]) := hf
      rw [← List.append_assoc] at hf'
      rcases List.mem_append.1 hf' with hm | hm
      · exact h.fine f hm
      · rw [List.mem_singleton.1 hm]
        exact hw
    · show s.processed ++ (s.bufferedReceiveMessages ++ (s.socket ++ [frame])) = _
      rw [← List.append_assoc s.bufferedReceiveMessages, ← List.append_assoc]
      rfl
  | receive =>
    cases ht : s.task with
    | receiving =>
      obtain ⟨good, hframes⟩ := h.receive ht hw
      simp only [Session.step, ht]
      exact ⟨good, hframes.trans same⟩
    | generating i rest after | closed =>
      simp only [Session.step, ht]
      exact ⟨h, same⟩
  | watch =>
    cases ht : s.task with
    | receiving =>
      simp only [Session.step, ht]
      exact ⟨h, same⟩
    | generating i rest after =>
      obtain ⟨good, hframes⟩ := h.watch hw
      simp only [Session.step, ht]
      exact ⟨good, hframes.trans same⟩
    | closed =>
      simp only [Session.step, ht]
      exact ⟨h, same⟩
  | finish failed =>
    cases ht : s.task with
    | receiving =>
      simp only [Session.step, ht]
      exact ⟨h, same⟩
    | generating i rest after =>
      obtain ⟨good, hframes⟩ := h.finish failed ht
      simp only [Session.step, ht]
      exact ⟨good, hframes.trans same⟩
    | closed =>
      simp only [Session.step, ht]
      exact ⟨h, same⟩
  | idle =>
    cases ht : s.task with
    | receiving =>
      simp only [Session.step, ht]
      split
      · refine ⟨⟨⟨?_, h.follows.buffer, ?_, trivial, fun _ _ _ h => (nomatch h)⟩, h.bytes, h.fine, ?_, ?_⟩, same⟩
        · have hsaid := h.follows.said
          simp only [remaining, ht, List.append_nil] at hsaid
          simp only [remaining, said_append, List.append_nil]
          exact (List.append_nil _).trans hsaid
        · have htotal := h.follows.total
          simp only [total, ht] at htotal
          exact htotal
        · simp only [Session.generated, List.filterMap_append]
          exact (List.append_nil _).trans h.generated
        · have hdones := h.dones
          rw [ended, ht] at hdones
          simp only [audioDones, List.filterMap_append]
          exact (List.append_nil _).trans hdones
      · exact ⟨h, same⟩
    | generating i rest after | closed =>
      simp only [Session.step, ht]
      exact ⟨h, same⟩

theorem Good.run (h : Good g s) (steps : List Step) (within : Along (Session.step g) Within s steps) :
    Good g (run (Session.step g) s steps) ∧ (run (Session.step g) s steps).frames = s.frames ++ arrivals steps := by
  induction steps generalizing s with
  | nil => exact ⟨h, (List.append_nil _).symm⟩
  | cons e rest ih =>
    obtain ⟨good, hframes⟩ := h.step e within.1
    obtain ⟨good', hframes'⟩ := ih good within.2
    refine ⟨good', ?_⟩
    show (Lib.run (Session.step g) (s.step g e) rest).frames = _
    rw [hframes', hframes, List.append_assoc, arrivals, arrivals, ← List.filterMap_append]
    rfl

/-! ### A session that is left alone -/

/-- Nothing is left to do, or the session is over. -/
def Settled (s : Session) : Prop :=
  s.task = .closed ∨ s.task = .receiving ∧ s.bufferedReceiveMessages = [] ∧ s.socket = []

/-- The steps of the session itself. -/
def Own (e : Step) : Prop := e = .receive ∨ e = .finish false

/-- The generations of a handler end one after the other. -/
theorem handler_ends (rest : List Str) (s : Session) (i : Nat) (after : After)
    (ht : s.task = .generating i rest after) :
    ∃ own, (∀ e ∈ own, Own e) ∧
      ((run (step g) s own).task = .receiving ∨ (run (step g) s own).task = .closed) ∧
      (run (step g) s own).bufferedReceiveMessages = s.bufferedReceiveMessages ∧
      (run (step g) s own).socket = s.socket := by
  have one : s.step g (.finish false) = s.finish false i rest after := by simp only [step, ht]
  induction rest generalizing s i with
  | nil =>
    refine ⟨[.finish false], fun e he => .inr (List.mem_singleton.1 he), ?_⟩
    have hrun : run (step g) s [.finish false] = s.finish false i [] after := one
    rw [hrun]
    cases after with
    | nothing | commit => exact ⟨.inl rfl, rfl, rfl⟩
    | done => exact ⟨.inr rfl, rfl, rfl⟩
  | cons sentence rest ih =>
    have ht' : (s.finish false i (sentence :: rest) after).task = .generating s.sentenceIndex rest after := rfl
    obtain ⟨own, howns, htask, hdeque, hsocket⟩ := ih _ _ ht' (by simp only [step, ht'])
    refine ⟨.finish false :: own, ?_, ?_⟩
    · intro e he
      rcases List.mem_cons.1 he with rfl | he
      · exact .inr rfl
      · exact howns e he
    · have hrun : run (step g) s (.finish false :: own) =
        run (step g) (s.finish false i (sentence :: rest) after) own := by
        rw [← one]
        rfl
      rw [hrun]
      exact ⟨htask, hdeque, hsocket⟩

/-- A session that is left alone takes every frame, unless it is over before. -/
theorem settles (s : Session) : ∃ own, (∀ e ∈ own, Own e) ∧ Settled (run (step g) s own) := by
  generalize hn : s.bufferedReceiveMessages.length + s.socket.length = n
  induction n using Nat.strongRecOn generalizing s with
  | ind n ih =>
    -- From the message loop, a frame at a time.
    have loop : ∀ t : Session, t.bufferedReceiveMessages.length + t.socket.length = n → t.task = .receiving →
        ∃ own, (∀ e ∈ own, Own e) ∧ Settled (run (step g) t own) := by
      intro t hlen ht
      cases htake : t.takeFrame with
      | none =>
        refine ⟨[], fun _ h => (nomatch h), .inr ⟨ht, ?_⟩⟩
        simp only [takeFrame] at htake
        split at htake
        · exact nomatch htake
        · split at htake
          · exact ⟨‹_›, ‹_›⟩
          · exact nomatch htake
      | some taken =>
        obtain ⟨frame, t'⟩ := taken
        obtain ⟨deque, bytes, socket, rfl, hqueue, -⟩ := takeFrame_frames htake
        have hone : t.step g .receive = t.receive g := by simp only [step, ht]
        have hshort : (t.receive g).bufferedReceiveMessages.length + (t.receive g).socket.length < n := by
          simp only [Session.receive, htake]
          obtain ⟨-, hm, -, hs⟩ := handleFrame_frame (g := g)
            { t with
              bufferedReceiveMessages := deque, bufferedReceiveMessageBytes := bytes, socket := socket
              processed := t.processed ++ [frame] } frame
          rw [hm, hs]
          have := congrArg List.length hqueue
          simp only [List.length_append, List.length_cons] at this
          show deque.length + socket.length < n
          omega
        obtain ⟨own, howns, hsettled⟩ := ih _ hshort (t.receive g) rfl
        refine ⟨.receive :: own, ?_, ?_⟩
        · intro e he
          rcases List.mem_cons.1 he with rfl | he
          · exact .inl rfl
          · exact howns e he
        · show Settled (run (step g) (t.step g .receive) own)
          rw [hone]
          exact hsettled
    cases ht : s.task with
    | receiving => exact loop s hn ht
    | closed => exact ⟨[], fun _ h => (nomatch h), .inl ht⟩
    | generating i rest after =>
      obtain ⟨own, howns, htask, hdeque, hsocket⟩ := handler_ends (g := g) rest s i after ht
      rcases htask with htask | htask
      · obtain ⟨own', howns', hsettled⟩ := loop (run (step g) s own) (by rw [hdeque, hsocket]; exact hn) htask
        refine ⟨own ++ own', ?_, ?_⟩
        · intro e he
          rcases List.mem_append.1 he with he | he
          · exact howns e he
          · exact howns' e he
        · rw [run_append]
          exact hsettled
      · exact ⟨own, howns, .inl htask⟩

/-! ### The main theorem -/

/-- How a text is split into frames does not matter to the script. -/
theorem onFrame_split (k : Script) (x y z : Frame) (a b : Str) (hx : x.body = .inputText a) (hy : y.body = .inputText b)
    (hz : z.body = .inputText (a ++ b)) : (k.onFrame g x).onFrame g y = k.onFrame g z := by
  simp only [Script.onFrame, hx, hy, hz, List.append_assoc]

/-- **Text is spoken once and in order.** Whatever arrives while a sentence is generated, the frames are processed in
the order of their arrival; what is said of them is their script, with the sentences of the text between two commits;
the sentences are numbered, each ends once, and the side buffer is counted. A session left alone comes to rest. -/
theorem spoken_once_in_order (g : SplitGranularity) (steps : List Step)
    (within : Along (Session.step g) Within {} steps) :
    let s := run (Session.step g) {} steps
    s.processed ++ (s.bufferedReceiveMessages ++ s.socket) = arrivals steps ∧
      said s.sent ++ s.remaining = (Script.ofFrames g s.processed).all g ∧
      generated s.sent = List.range s.sentenceIndex ∧ audioDones s.sent = List.range s.ended ∧
      s.bufferedReceiveMessageBytes = (s.bufferedReceiveMessages.map Frame.size).sum ∧
      (∀ (k : Script) (x y z : Frame) (a b : Str), x.body = .inputText a → y.body = .inputText b →
        z.body = .inputText (a ++ b) → (k.onFrame g x).onFrame g y = k.onFrame g z) ∧
      ∃ own, (∀ e ∈ own, Own e) ∧ Settled (run (Session.step g) s own) := by
  intro s
  obtain ⟨good, hframes⟩ := (good_initial (g := g)).run steps within
  exact ⟨hframes, good.follows.said, good.generated, good.dones, good.bytes, onFrame_split, settles s⟩

instance decidableWithin (s : Session) : (e : Step) → Decidable (Within s e)
  | .arrive frame => inferInstanceAs (Decidable (frame.body ≠ .disconnect ∧ frame.size ≤ maxTextMessageBytes))
  | .receive =>
    match ht : s.takeFrame with
    | none => isTrue fun _ frame s' h => nomatch ht.symm.trans h
    | some (frame, s') =>
      match hb : frame.body with
      | .inputText text =>
        decidable_of_iff (s.task = .receiving → s.buffer.length + text.length ≤ maxBufferedTextChars)
          ⟨fun h hr f t hf u hu => by
              obtain ⟨rfl, -⟩ := Prod.mk.inj (Option.some.inj (ht.symm.trans hf))
              obtain rfl := Body.inputText.inj (hb.symm.trans hu)
              exact h hr,
            fun h hr => h hr frame s' ht text hb⟩
      | .inputCommit | .inputDone | .invalid | .disconnect => isTrue fun _ f t hf u hu => by
          obtain ⟨rfl, -⟩ := Prod.mk.inj (Option.some.inj (ht.symm.trans hf))
          exact nomatch hb.symm.trans hu
  | .watch =>
    match hs : s.socket with
    | [] => isTrue fun frame rest h => nomatch hs.symm.trans h
    | frame :: rest =>
      decidable_of_iff (s.bufferedReceiveMessages.length < maxBufferedReceiveMessages ∧
          s.bufferedReceiveMessageBytes + frame.size ≤ maxBufferedReceiveBytes)
        ⟨fun h f r hf => by
            obtain ⟨rfl, -⟩ := List.cons.inj (hs.symm.trans hf)
            exact h,
          fun h => h frame rest hs⟩
  | .finish _ => isTrue trivial
  | .idle => isTrue trivial

/-- Three frames and a commit, of which the rest of a sentence and the commit arrive while the first sentence is
generated. -/
def overlapped : List Step :=
  let text := fun s : String => Step.arrive ⟨.inputText (s.toList.map Char.toNat), 40⟩
  [text "Hi. a", .receive, text " b", .arrive ⟨.inputCommit, 25⟩, .watch, .watch, .finish false, .receive, .receive,
    .finish true]

theorem spoken_once_in_order_overlapped :
    said (run (Session.step .sentence) {} overlapped).sent =
        [.generate 0 [72, 105, 46], .generate 1 [97, 32, 98], .committed 0 2 2] ∧
      (run (Session.step .sentence) {} overlapped).processed = arrivals overlapped ∧
      audioDones (run (Session.step .sentence) {} overlapped).sent = [0, 1] := by
  have result := spoken_once_in_order .sentence overlapped (by decide)
  have hqueue : (run (Session.step .sentence) {} overlapped).bufferedReceiveMessages ++
      (run (Session.step .sentence) {} overlapped).socket = [] := by decide
  refine ⟨by decide, ?_, by decide⟩
  have hframes := result.1
  rw [hqueue, List.append_nil] at hframes
  exact hframes

end Session
end SglangOmni.Serve.SpeechWs
