import SglangOmni.Lib.History
import Mathlib.Data.List.Perm.Basic

/-! The scheduler's inbox, shared by two threads.

The stage thread puts messages; the scheduler thread takes them, all that are there, in
`recv_requests`. An abort, on either thread, empties the queue, drops what belongs to its
request and puts the rest back, one message at a time. Every operation of the queue is one
step; what a thread has taken and not put back is its own. -/
namespace SglangOmni.Scheduling.Inbox
open Lib

variable {α : Type}

inductive Content (α : Type) where
  | newRequest (data : α)
  | streamChunk (data : α)
  | streamDone
  deriving DecidableEq

/-- `IncomingMessage`. -/
structure Message (α : Type) where
  requestId : String
  content : Content α
  deriving DecidableEq

inductive Thread where
  | stage
  | scheduler
  deriving DecidableEq

def Thread.other : Thread → Thread
  | .stage => .scheduler
  | .scheduler => .stage

/-- What a thread is doing with the queue. -/
inductive Activity (α : Type) where
  | idle
  | receiving (recvMsgs : List (Message α))
  | draining (requestId : String) (retained : List (Message α))
  | restoring (retained : List (Message α))
  deriving DecidableEq

/-- The log of what was put, and what `recv_requests` has gone through. -/
structure State (α : Type) where
  inbox : List (Message α)
  stage : Activity α
  scheduler : Activity α
  put : List (Message α)
  seen : List (Message α)
  deriving DecidableEq

def State.create : State α where
  inbox := []
  stage := .idle
  scheduler := .idle
  put := []
  seen := []

def State.activity (s : State α) : Thread → Activity α
  | .stage => s.stage
  | .scheduler => s.scheduler

def State.setActivity (s : State α) (a : Activity α) : Thread → State α
  | .stage => { s with stage := a }
  | .scheduler => { s with scheduler := a }

/-! ### Queue operations -/

/-- `_drain_local_inbox`, one turn of its loop. -/
def drainLocalInbox (s : State α) (t : Thread) (recvMsgs : List (Message α)) : State α :=
  match s.inbox with
  | [] => { s with seen := s.seen ++ recvMsgs }.setActivity .idle t
  | msg :: rest => { s with inbox := rest }.setActivity (.receiving (recvMsgs ++ [msg])) t

/-- `_drain_inbox_for_request`, one turn of its first loop. -/
def drainInboxForRequest (s : State α) (t : Thread) (r : String) (retained : List (Message α)) : State α :=
  match s.inbox with
  | [] => s.setActivity (.restoring retained) t
  | msg :: rest =>
    { s with inbox := rest }.setActivity
      (.draining r (if msg.requestId ≠ r then retained ++ [msg] else retained)) t

/-- One turn of its second loop. -/
def restore (s : State α) (t : Thread) : List (Message α) → State α
  | [] => s.setActivity .idle t
  | msg :: rest => { s with inbox := s.inbox ++ [msg] }.setActivity (.restoring rest) t

def turn (s : State α) (t : Thread) : State α :=
  match s.activity t with
  | .idle => s
  | .receiving recvMsgs => drainLocalInbox s t recvMsgs
  | .draining r retained => drainInboxForRequest s t r retained
  | .restoring retained => restore s t retained

inductive Event (α : Type) where
  | put (msg : Message α)
  | recv
  | abort (thread : Thread) (requestId : String)
  | turn (thread : Thread)
  deriving DecidableEq

/-- A thread starts something only when it is through with what it was doing. -/
def step (s : State α) : Event α → State α
  | .put msg =>
    match s.stage with
    | .idle => { s with inbox := s.inbox ++ [msg], put := s.put ++ [msg] }
    | _ => s
  | .recv =>
    match s.scheduler with
    | .idle => { s with scheduler := .receiving [] }
    | _ => s
  | .abort t r =>
    match s.activity t with
    | .idle => s.setActivity (.draining r []) t
    | _ => s
  | .turn t => turn s t

/-! ### One request's messages -/

/-- The messages of a request, in order. -/
def of (r : String) (msgs : List (Message α)) : List (Message α) := msgs.filter (·.requestId = r)

@[simp] theorem of_nil (r : String) : of r ([] : List (Message α)) = [] := rfl

@[simp] theorem of_append (r : String) (a b : List (Message α)) : of r (a ++ b) = of r a ++ of r b :=
  List.filter_append a b

theorem of_cons (r : String) (msg : Message α) (msgs : List (Message α)) :
    of r (msg :: msgs) = of r [msg] ++ of r msgs := of_append r [msg] msgs

/-- What a thread has taken and will put back, while it still takes. -/
def Activity.ahead : Activity α → List (Message α)
  | .draining _ retained => retained
  | _ => []

/-- What a thread has still to put back. -/
def Activity.behind : Activity α → List (Message α)
  | .restoring retained => retained
  | _ => []

def Activity.received : Activity α → List (Message α)
  | .receiving recvMsgs => recvMsgs
  | _ => []

section Parts
variable (x : String) (l : List (Message α))

@[simp] theorem idle_ahead : (Activity.idle : Activity α).ahead = [] := rfl
@[simp] theorem idle_behind : (Activity.idle : Activity α).behind = [] := rfl
@[simp] theorem idle_received : (Activity.idle : Activity α).received = [] := rfl
@[simp] theorem receiving_ahead : (Activity.receiving l).ahead = [] := rfl
@[simp] theorem receiving_behind : (Activity.receiving l).behind = [] := rfl
@[simp] theorem receiving_received : (Activity.receiving l).received = l := rfl
@[simp] theorem draining_ahead : (Activity.draining x l).ahead = l := rfl
@[simp] theorem draining_behind : (Activity.draining x l).behind = [] := rfl
@[simp] theorem draining_received : (Activity.draining x l).received = [] := rfl
@[simp] theorem restoring_ahead : (Activity.restoring l).ahead = [] := rfl
@[simp] theorem restoring_behind : (Activity.restoring l).behind = l := rfl
@[simp] theorem restoring_received : (Activity.restoring l).received = [] := rfl

end Parts

/-- What a thread holds of a request. -/
def Activity.held (r : String) (a : Activity α) : List (Message α) := of r a.ahead ++ of r a.behind

/-- What `recv_requests` has taken of a request. -/
def State.taken (s : State α) (r : String) : List (Message α) := of r s.seen ++ of r s.scheduler.received

/-- What is left of a request, in the order in which it will be back in the queue. -/
def State.left (s : State α) (r : String) : List (Message α) :=
  of r s.stage.ahead ++ of r s.scheduler.ahead ++ of r s.inbox ++ of r s.stage.behind ++
    of r s.scheduler.behind

/-- The message that the thread's next turn takes or puts. -/
def State.handles (s : State α) (t : Thread) : Option (Message α) :=
  match s.activity t with
  | .idle => none
  | .receiving _ | .draining .. => s.inbox.head?
  | .restoring retained => retained.head?

/-- The condition on a step: nobody aborts the request, and nobody takes or puts a message
of it while the other thread's drain holds one. -/
def Apart (r : String) (s : State α) : Event α → Prop
  | .put msg => msg.requestId = r → s.scheduler.held r = []
  | .turn t => ∀ msg ∈ s.handles t, msg.requestId = r → (s.activity t.other).held r = []
  | .abort _ x => x ≠ r
  | .recv => True

instance [DecidableEq α] (r : String) (s : State α) : (e : Event α) → Decidable (Apart r s e)
  | .put _ => inferInstanceAs (Decidable (_ → _))
  | .turn t => inferInstanceAs (Decidable (∀ msg ∈ s.handles t, _ → _))
  | .abort _ x => inferInstanceAs (Decidable (x ≠ r))
  | .recv => .isTrue trivial

/-- Nothing of the request is lost, doubled or out of order; one thread at a time holds
messages of it, and nobody drains for it. -/
structure Ordered (r : String) (s : State α) : Prop where
  whole : s.taken r ++ s.left r = of r s.put
  one : s.stage.held r = [] ∨ s.scheduler.held r = []
  undrained : ∀ t retained, s.activity t ≠ .draining r retained
  receives : ∀ recvMsgs, s.stage ≠ .receiving recvMsgs

variable {msg : Message α}

theorem of_single {r : String} (h : msg.requestId ≠ r) : of r [msg] = [] := by
  simp [of, h]

/-- A message goes past others of its request only when there are none. -/
theorem of_comm {r : String} {l : List (Message α)} (h : msg.requestId = r → l = []) :
    of r [msg] ++ l = l ++ of r [msg] := by
  by_cases hr : msg.requestId = r
  · rw [h hr, List.append_nil, List.nil_append]
  · rw [of_single hr, List.append_nil, List.nil_append]

theorem of_retained {r x : String} (retained : List (Message α)) (hx : x ≠ r) :
    of r (if msg.requestId ≠ x then retained ++ [msg] else retained) = of r retained ++ of r [msg] := by
  split
  · exact of_append r retained [msg]
  · next h =>
    have hr : msg.requestId ≠ r := by
      rw [not_not.mp h]
      exact hx
    rw [of_single hr, List.append_nil]

theorem held_nil {r : String} {a : Activity α} (h : a.held r = []) : of r a.ahead = [] ∧ of r a.behind = [] :=
  List.append_eq_nil_iff.mp h

theorem ordered_create (r : String) : Ordered r (State.create : State α) where
  whole := rfl
  one := .inl rfl
  undrained t retained h := by cases t <;> cases h
  receives _ h := nomatch h

/-! ### Steps -/

variable {r : String} {s : State α} {rest retained : List (Message α)}

theorem Ordered.put (h : Ordered r s) (hidle : s.stage = .idle)
    (hrule : msg.requestId = r → s.scheduler.held r = []) :
    Ordered r { s with inbox := s.inbox ++ [msg], put := s.put ++ [msg] } := by
  refine ⟨?_, h.one, h.undrained, h.receives⟩
  have hwhole := h.whole
  have hcomm := of_comm fun hr => (held_nil (hrule hr)).2
  simp only [State.taken, State.left, hidle, idle_ahead, idle_behind, of_nil, of_append, List.nil_append,
    List.append_nil, List.append_assoc] at hwhole ⊢
  rw [hcomm, ← hwhole]
  simp only [List.append_assoc]

theorem Ordered.receive (h : Ordered r s) {recvMsgs : List (Message α)}
    (hbox : s.inbox = msg :: rest) (hact : s.scheduler = .receiving recvMsgs)
    (hrule : msg.requestId = r → s.stage.held r = []) :
    Ordered r { s with inbox := rest, scheduler := .receiving (recvMsgs ++ [msg]) } := by
  refine ⟨?_, .inr rfl, fun t retained heq => ?_, h.receives⟩
  · have hwhole := h.whole
    have hcomm := of_comm fun hr => (held_nil (hrule hr)).1
    simp only [State.taken, State.left, hact, hbox, receiving_ahead, receiving_behind, receiving_received,
      of_nil, of_append, List.append_nil, List.append_assoc, of_cons r msg rest] at hwhole ⊢
    rw [← hwhole, ← List.append_assoc (of r [msg]), hcomm, List.append_assoc]
  · cases t with
    | stage => exact h.undrained .stage retained heq
    | scheduler => cases heq

theorem Ordered.received (h : Ordered r s) {recvMsgs : List (Message α)}
    (hact : s.scheduler = .receiving recvMsgs) :
    Ordered r { s with seen := s.seen ++ recvMsgs, scheduler := .idle } := by
  refine ⟨?_, .inr rfl, fun t retained heq => ?_, h.receives⟩
  · have hwhole := h.whole
    simp only [State.taken, State.left, hact, receiving_ahead, receiving_behind, receiving_received,
      idle_ahead, idle_behind, idle_received, of_nil, of_append, List.append_nil, List.append_assoc] at hwhole ⊢
    exact hwhole
  · cases t with
    | stage => exact h.undrained .stage retained heq
    | scheduler => cases heq

/-- A message comes into a drain's hands: it holds what it held, and the message. -/
theorem held_drain {x : String} (hx : x ≠ r)
    (h : (Activity.draining x retained).held r = []) (hr : msg.requestId ≠ r) :
    (Activity.draining x (if msg.requestId ≠ x then retained ++ [msg] else retained)).held r = [] := by
  have hnil : of r retained = [] := (held_nil h).1
  simp only [Activity.held, draining_ahead, draining_behind, of_nil, List.append_nil]
  rw [of_retained retained hx, hnil, of_single hr]
  rfl

theorem Ordered.drain (h : Ordered r s) {t : Thread} {x : String} (hbox : s.inbox = msg :: rest)
    (hact : s.activity t = .draining x retained)
    (hrule : msg.requestId = r → (s.activity t.other).held r = []) :
    Ordered r ({ s with inbox := rest }.setActivity
      (.draining x (if msg.requestId ≠ x then retained ++ [msg] else retained)) t) := by
  have hx : x ≠ r := fun hx => h.undrained t retained (by rw [hact, hx])
  have hwhole := h.whole
  cases t with
  | stage =>
    simp only [State.activity, Thread.other] at hact hrule
    refine ⟨?_, ?_, fun t retained' heq => ?_, fun _ heq => nomatch heq⟩
    · have hcomm := of_comm fun hr => (held_nil (hrule hr)).1
      simp only [State.taken, State.left, State.setActivity, hact, hbox, draining_ahead, draining_behind, of_nil,
        List.append_nil, List.append_assoc, of_cons r msg rest, of_retained retained hx] at hwhole ⊢
      rw [← hwhole, ← List.append_assoc (of r [msg]), hcomm, List.append_assoc]
    · by_cases hr : msg.requestId = r
      · exact .inr (hrule hr)
      · exact h.one.imp_left fun hnil => held_drain hx (hact ▸ hnil) hr
    · cases t with
      | stage => exact hx (Activity.draining.inj heq).1
      | scheduler => exact h.undrained .scheduler retained' heq
  | scheduler =>
    simp only [State.activity, Thread.other] at hact hrule
    refine ⟨?_, ?_, fun t retained' heq => ?_, h.receives⟩
    · simp only [State.taken, State.left, State.setActivity, hact, hbox, draining_ahead, draining_behind,
        draining_received, of_nil, List.append_nil, List.append_assoc, of_cons r msg rest,
        of_retained retained hx] at hwhole ⊢
      exact hwhole
    · by_cases hr : msg.requestId = r
      · exact .inl (hrule hr)
      · exact h.one.imp_right fun hnil => held_drain hx (hact ▸ hnil) hr
    · cases t with
      | stage => exact h.undrained .stage retained' heq
      | scheduler => exact hx (Activity.draining.inj heq).1

/-- The queue is empty: what the drain has in hand goes behind what the other has, which is
nothing when it has something itself. -/
theorem Ordered.drained (h : Ordered r s) {t : Thread} {x : String}
    (hbox : s.inbox = []) (hact : s.activity t = .draining x retained) :
    Ordered r (s.setActivity (.restoring retained) t) := by
  have hwhole := h.whole
  have hone := h.one
  cases t with
  | stage =>
    simp only [State.activity] at hact
    simp only [hact, Activity.held, draining_ahead, draining_behind, of_nil, List.append_nil] at hone
    refine ⟨?_, hone, fun t retained' heq => ?_, fun _ heq => nomatch heq⟩
    · simp only [State.taken, State.left, State.setActivity, hact, hbox, draining_ahead, draining_behind,
        restoring_ahead, restoring_behind, of_nil, List.append_nil, List.nil_append,
        List.append_assoc] at hwhole ⊢
      rw [← hwhole]
      rcases hone with hnil | hnil
      · simp only [hnil, List.nil_append]
      · obtain ⟨hahead, hbehind⟩ := List.append_eq_nil_iff.mp hnil
        simp only [hahead, hbehind, List.nil_append]
    · cases t with
      | stage => cases heq
      | scheduler => exact h.undrained .scheduler retained' heq
  | scheduler =>
    simp only [State.activity] at hact
    simp only [hact, Activity.held, draining_ahead, draining_behind, of_nil, List.append_nil] at hone
    refine ⟨?_, hone, fun t retained' heq => ?_, h.receives⟩
    · simp only [State.taken, State.left, State.setActivity, hact, hbox, draining_ahead, draining_behind,
        draining_received, restoring_ahead, restoring_behind, restoring_received, of_nil, List.append_nil,
        List.append_assoc] at hwhole ⊢
      rw [← hwhole]
      rcases hone with hnil | hnil
      · obtain ⟨hahead, hbehind⟩ := List.append_eq_nil_iff.mp hnil
        simp only [hahead, hbehind, List.nil_append, List.append_nil]
      · simp only [hnil, List.nil_append, List.append_nil]
    · cases t with
      | stage => exact h.undrained .stage retained' heq
      | scheduler => cases heq

theorem Ordered.restore (h : Ordered r s) {t : Thread} (hact : s.activity t = .restoring (msg :: rest))
    (hrule : msg.requestId = r → (s.activity t.other).held r = []) :
    Ordered r ({ s with inbox := s.inbox ++ [msg] }.setActivity (.restoring rest) t) := by
  have hwhole := h.whole
  have hone := h.one
  cases t with
  | stage =>
    simp only [State.activity] at hact
    simp only [hact, Activity.held, restoring_ahead, restoring_behind, of_nil, List.nil_append,
      of_cons r msg rest] at hone
    refine ⟨?_, hone.imp_left fun hnil => (List.append_eq_nil_iff.mp hnil).2, fun t retained' heq => ?_,
      fun _ heq => nomatch heq⟩
    · simp only [State.taken, State.left, State.setActivity, hact, restoring_ahead, restoring_behind, of_nil,
        of_append, List.nil_append, List.append_assoc, of_cons r msg rest] at hwhole ⊢
      exact hwhole
    · cases t with
      | stage => cases heq
      | scheduler => exact h.undrained .scheduler retained' heq
  | scheduler =>
    simp only [State.activity, Thread.other] at hact hrule
    simp only [hact, Activity.held, restoring_ahead, restoring_behind, of_nil, List.nil_append,
      of_cons r msg rest] at hone
    refine ⟨?_, hone.imp_right fun hnil => (List.append_eq_nil_iff.mp hnil).2, fun t retained' heq => ?_,
      h.receives⟩
    · have hcomm := of_comm fun hr => (held_nil (hrule hr)).2
      simp only [State.taken, State.left, State.setActivity, hact, restoring_ahead, restoring_behind,
        restoring_received, of_nil, of_append, List.append_nil, List.append_assoc,
        of_cons r msg rest] at hwhole ⊢
      rw [← hwhole, ← List.append_assoc (of r [msg]), hcomm, List.append_assoc]
    · cases t with
      | stage => exact h.undrained .stage retained' heq
      | scheduler => cases heq

/-- A thread is through, or starts, with nothing in its hands. -/
theorem Ordered.setActivity (h : Ordered r s) {t : Thread} {a : Activity α}
    (hbefore : (s.activity t).ahead = [] ∧ (s.activity t).behind = [] ∧ (s.activity t).received = [])
    (hafter : a.ahead = [] ∧ a.behind = [] ∧ a.received = []) (hne : ∀ retained, a ≠ .draining r retained)
    (hstage : t = .stage → ∀ recvMsgs, a ≠ .receiving recvMsgs) : Ordered r (s.setActivity a t) := by
  have hwhole := h.whole
  have hheld : a.held r = [] := by simp only [Activity.held, hafter.1, hafter.2.1, of_nil, List.append_nil]
  cases t with
  | stage =>
    simp only [State.activity] at hbefore
    refine ⟨?_, .inl hheld, fun t retained' heq => ?_, hstage rfl⟩
    · simp only [State.taken, State.left, State.setActivity, hbefore, hafter] at hwhole ⊢
      exact hwhole
    · cases t with
      | stage => exact hne retained' heq
      | scheduler => exact h.undrained .scheduler retained' heq
  | scheduler =>
    simp only [State.activity] at hbefore
    refine ⟨?_, .inr hheld, fun t retained' heq => ?_, h.receives⟩
    · simp only [State.taken, State.left, State.setActivity, hbefore, hafter] at hwhole ⊢
      exact hwhole
    · cases t with
      | stage => exact h.undrained .stage retained' heq
      | scheduler => exact hne retained' heq

theorem Ordered.turn (h : Ordered r s) (t : Thread) (hrule : Apart r s (.turn t)) : Ordered r (turn s t) := by
  unfold Inbox.turn
  split
  · exact h
  · next recvMsgs hact =>
    cases t with
    | stage => exact absurd hact (h.receives recvMsgs)
    | scheduler =>
      have hhandles : s.handles .scheduler = s.inbox.head? := by rw [State.handles, hact]
      unfold drainLocalInbox
      split
      · exact h.received hact
      · next msg rest hbox =>
        refine h.receive hbox hact fun hr => hrule msg ?_ hr
        rw [hhandles, hbox]
        rfl
  · next x retained hact =>
    have hhandles : s.handles t = s.inbox.head? := by rw [State.handles, hact]
    unfold drainInboxForRequest
    split
    · next hbox => exact h.drained hbox hact
    · next msg rest hbox =>
      refine h.drain hbox hact fun hr => hrule msg ?_ hr
      rw [hhandles, hbox]
      rfl
  · next retained hact =>
    have hhandles : s.handles t = retained.head? := by rw [State.handles, hact]
    cases retained with
    | nil =>
      refine h.setActivity ?_ ⟨rfl, rfl, rfl⟩ (fun _ heq => nomatch heq) fun _ _ heq => nomatch heq
      rw [hact]
      exact ⟨rfl, rfl, rfl⟩
    | cons msg rest =>
      refine h.restore hact fun hr => hrule msg ?_ hr
      rw [hhandles]
      rfl

theorem Ordered.step (h : Ordered r s) (e : Event α) (hrule : Apart r s e) : Ordered r (step s e) := by
  cases e with
  | put msg =>
    simp only [Inbox.step]
    split
    · next hidle => exact h.put hidle hrule
    · exact h
  | recv =>
    simp only [Inbox.step]
    split
    · next hidle =>
      refine h.setActivity (t := .scheduler) ?_ ⟨rfl, rfl, rfl⟩ (fun _ heq => nomatch heq)
        fun ht => nomatch ht
      rw [State.activity, hidle]
      exact ⟨rfl, rfl, rfl⟩
    · exact h
  | abort t x =>
    simp only [Inbox.step]
    split
    · next hidle =>
      refine h.setActivity ?_ ⟨rfl, rfl, rfl⟩ (fun retained heq => ?_) fun _ _ heq => nomatch heq
      · rw [hidle]
        exact ⟨rfl, rfl, rfl⟩
      · exact hrule (Activity.draining.inj heq).1
    · exact h
  | turn t => exact h.turn t hrule

/-- **Input order.** In every run of the two threads whose steps all meet the condition for
`r`, what `recv_requests` has taken of `r` and what is left of it are, in this order, what
was put; once both threads are through with the queue, all that is left is in it. -/
theorem input_in_order (r : String) (history : List (Event α))
    (hrule : Along step (Apart r) State.create history) :
    (run step State.create history).taken r ++ (run step State.create history).left r =
        of r (run step State.create history).put ∧
      ((run step State.create history).stage = .idle → (run step State.create history).scheduler = .idle →
        of r (run step State.create history).seen ++ of r (run step State.create history).inbox =
          of r (run step State.create history).put) := by
  have hrun : Ordered r (run step State.create history) :=
    along_invariant (ordered_create r) (fun t e ht hr => ht.step e hr) history hrule
  refine ⟨hrun.whole, fun hstage hscheduler => ?_⟩
  have hwhole := hrun.whole
  simp only [State.taken, State.left, hstage, hscheduler, idle_ahead, idle_behind, idle_received, of_nil,
    List.append_nil, List.nil_append] at hwhole
  exact hwhole

/-- The abort of `r` empties and refills the queue before the scheduler looks. -/
theorem input_in_order_undisturbed :
    let s := run step State.create
      [.put ⟨"q", .streamChunk 1⟩, .put ⟨"r", .streamDone⟩, .put ⟨"q", .streamChunk 2⟩, .abort .stage "r",
        .turn .stage, .turn .stage, .turn .stage, .turn .stage, .turn .stage, .turn .stage, .turn .stage,
        .recv, .turn .scheduler, .turn .scheduler, .turn .scheduler]
    s.taken "q" ++ s.left "q" = of "q" s.put ∧
      (s.stage = .idle → s.scheduler = .idle → of "q" s.seen ++ of "q" s.inbox = of "q" s.put) :=
  input_in_order "q" _ (by decide)

/-- The scheduler takes the second chunk of `q` while the abort of `r` holds the first: the
two arrive the other way round. -/
theorem abort_reorders_another :
    let s := run step State.create
      [.put ⟨"q", .streamChunk 1⟩, .put ⟨"q", .streamChunk 2⟩, .abort .stage "r", .turn .stage, .recv,
        .turn .scheduler, .turn .scheduler, .turn .stage, .turn .stage, .turn .stage, .recv, .turn .scheduler,
        .turn .scheduler]
    s.stage = .idle ∧ s.scheduler = .idle ∧ s.inbox = [] ∧
      of "q" s.put = [⟨"q", .streamChunk 1⟩, ⟨"q", .streamChunk 2⟩] ∧
      of "q" s.seen = [⟨"q", .streamChunk 2⟩, ⟨"q", .streamChunk 1⟩] := by
  decide

end SglangOmni.Scheduling.Inbox
