import SglangOmni.Scheduling.Scheduler.Loop

/-! What the scheduler's operations leave alone.

An abort touches nothing but what belongs to its request: `Trimmed` says so of the batches and
the requests in them, `Untouched` of the tables. Whatever an operation of the engine does, it
leaves the admission tables as they are. -/
namespace SglangOmni.Scheduling
open Lib

/-! ### Batches -/

namespace Batches

/-- Only what belongs to `r` is marked, detached or taken out. -/
structure Trimmed (r : String) (b b' : Batches) : Prop where
  other : ∀ q, (b.req q).rid ≠ r → b'.req q = b.req q
  rid : ∀ q, (b'.req q).rid = (b.req q).rid
  finishedReason : ∀ q, (b'.req q).finishedReason = (b.req q).finishedReason
  isRetracted : ∀ q, (b'.req q).isRetracted = (b.req q).isRetracted
  claimed : ∀ q, (b'.req q).omniTerminalClaimed = (b.req q).omniTerminalClaimed
  omniData : ∀ q, (b'.req q).omniData = (b.req q).omniData ∨ (b'.req q).omniData = none
  reqs : ∀ x, b'.reqs x = b.reqs x ∨ b'.reqs x = b.remaining r (b.reqs x)
  runningBatch : b'.runningBatch = b.runningBatch
  curBatch : b'.curBatch = b.curBatch
  lastBatch : b'.lastBatch = b.lastBatch
  asyncPending : b'.asyncPending = b.asyncPending

variable {r : String} {b b' c : Batches} {q : Nat}

theorem remaining_congr (h : ∀ q, (b'.req q).rid = (b.req q).rid) (l : List Nat) :
    b'.remaining r l = b.remaining r l := by
  simp only [remaining, h]

@[simp] theorem remaining_remaining (l : List Nat) : b.remaining r (b.remaining r l) = b.remaining r l := by
  simp only [remaining, List.filter_filter, Bool.and_self]

theorem mem_remaining {l : List Nat} : q ∈ b.remaining r l ↔ q ∈ l ∧ (b.req q).rid ≠ r := by
  simp only [remaining, List.mem_filter, decide_eq_true_eq]

theorem Trimmed.refl (r : String) (b : Batches) : Trimmed r b b :=
  ⟨fun _ _ => rfl, fun _ => rfl, fun _ => rfl, fun _ => rfl, fun _ => rfl, fun _ => .inl rfl,
    fun _ => .inl rfl, rfl, rfl, rfl, rfl⟩

theorem Trimmed.trans (h : Trimmed r b b') (h' : Trimmed r b' c) : Trimmed r b c where
  other q hq := by
    have hmid : (b'.req q).rid ≠ r := by
      rw [h.rid]
      exact hq
    rw [h'.other q hmid, h.other q hq]
  rid q := (h'.rid q).trans (h.rid q)
  finishedReason q := (h'.finishedReason q).trans (h.finishedReason q)
  isRetracted q := (h'.isRetracted q).trans (h.isRetracted q)
  claimed q := (h'.claimed q).trans (h.claimed q)
  omniData q := by
    obtain h1 | h1 := h'.omniData q
    · rw [h1]
      exact h.omniData q
    · exact .inr h1
  reqs x := by
    have hmid : ∀ l, b'.remaining r l = b.remaining r l := remaining_congr h.rid
    obtain h1 | h1 := h.reqs x
    · obtain h2 | h2 := h'.reqs x
      · exact .inl (h2.trans h1)
      · exact .inr (by rw [h2, hmid, h1])
    · obtain h2 | h2 := h'.reqs x
      · exact .inr (h2.trans h1)
      · exact .inr (by rw [h2, hmid, h1, remaining_remaining])
  runningBatch := h'.runningBatch.trans h.runningBatch
  curBatch := h'.curBatch.trans h.curBatch
  lastBatch := h'.lastBatch.trans h.lastBatch
  asyncPending := h'.asyncPending.trans h.asyncPending

theorem Trimmed.mem_reqs (h : Trimmed r b b') {x : Nat} (hq : q ∈ b'.reqs x) : q ∈ b.reqs x := by
  obtain h1 | h1 := h.reqs x
  · rwa [h1] at hq
  · rw [h1] at hq
    exact (mem_remaining.mp hq).1

theorem Trimmed.mem_reqs_of_ne (h : Trimmed r b b') {x : Nat} (hne : (b.req q).rid ≠ r) (hq : q ∈ b.reqs x) :
    q ∈ b'.reqs x := by
  obtain h1 | h1 := h.reqs x
  · rwa [h1]
  · rw [h1]
    exact mem_remaining.mpr ⟨hq, hne⟩

theorem Trimmed.slot (h : Trimmed r b b') (i : Slot) : b'.slot i = b.slot i := by
  cases i with
  | running => exact congrArg some h.runningBatch
  | cur => exact h.curBatch
  | last => exact h.lastBatch
  | pending => exact congrArg (Option.map (·.batch)) h.asyncPending

theorem mem_listed : q ∈ b.listed ↔ ∃ i x, b.slot i = some x ∧ q ∈ b.reqs x := by
  simp only [listed, List.mem_flatMap, List.mem_filterMap]
  refine ⟨?_, ?_⟩
  · intro h
    obtain ⟨x, ⟨i, _, hi⟩, hq⟩ := h
    exact ⟨i, x, hi, hq⟩
  · intro h
    obtain ⟨i, x, hi, hq⟩ := h
    have hall : i ∈ Slot.all := by cases i <;> simp [Slot.all]
    exact ⟨x, ⟨i, hall, hi⟩, hq⟩

/-- A request's own fields may change, its id, its end and its claim do not. -/
theorem trimmed_setReq {f : Req → Req} (hq : (b.req q).rid = r) (hrid : (f (b.req q)).rid = (b.req q).rid)
    (hfinished : (f (b.req q)).finishedReason = (b.req q).finishedReason)
    (hretracted : (f (b.req q)).isRetracted = (b.req q).isRetracted)
    (hclaimed : (f (b.req q)).omniTerminalClaimed = (b.req q).omniTerminalClaimed)
    (hdata : (f (b.req q)).omniData = (b.req q).omniData) : Trimmed r b (b.setReq q f) where
  other p hp := by
    have hne : p ≠ q := fun h => hp (h ▸ hq)
    simp only [setReq, Function.update_of_ne hne]
  rid p := by
    by_cases h : p = q
    · subst h
      simpa [setReq] using hrid
    · simp only [setReq, Function.update_of_ne h]
  finishedReason p := by
    by_cases h : p = q
    · subst h
      simpa [setReq] using hfinished
    · simp only [setReq, Function.update_of_ne h]
  isRetracted p := by
    by_cases h : p = q
    · subst h
      simpa [setReq] using hretracted
    · simp only [setReq, Function.update_of_ne h]
  claimed p := by
    by_cases h : p = q
    · subst h
      simpa [setReq] using hclaimed
    · simp only [setReq, Function.update_of_ne h]
  omniData p := by
    by_cases h : p = q
    · subst h
      exact .inl (by simpa [setReq] using hdata)
    · exact .inl (by simp only [setReq, Function.update_of_ne h])
  reqs _ := .inl rfl
  runningBatch := rfl
  curBatch := rfl
  lastBatch := rfl
  asyncPending := rfl

theorem trimmed_markOne (acc : Batches × Bool) (q : Nat) : Trimmed r acc.1 (markOne r acc q).1 := by
  unfold markOne
  dsimp only
  split
  · exact .refl r _
  · next hrid =>
    rw [not_not] at hrid
    split
    · exact .refl r _
    · split
      · exact .refl r _
      · exact trimmed_setReq (f := fun q => { q with toFinish := true }) hrid rfl rfl rfl rfl rfl

theorem trimmed_markRunningRequestAborted (b : Batches) (r : String) :
    Trimmed r b (b.markRunningRequestAborted r).1 := by
  have hfold : ∀ (l : List Nat) (acc : Batches × Bool), Trimmed r acc.1 (l.foldl (markOne r) acc).1 := by
    intro l
    induction l with
    | nil => exact fun acc => .refl r acc.1
    | cons q rest ih => exact fun acc => (trimmed_markOne acc q).trans (ih _)
  exact hfold b.listed (b, false)

theorem trimmed_detachAll (b : Batches) (r : String) (l : List Nat) : Trimmed r b (b.detachAll r l) where
  other q hq := by
    simp only [detachAll]
    rw [if_neg]
    exact fun h => hq h.2
  rid q := by
    simp only [detachAll]
    split <;> rfl
  finishedReason q := by
    simp only [detachAll]
    split <;> rfl
  isRetracted q := by
    simp only [detachAll]
    split <;> rfl
  claimed q := by
    simp only [detachAll]
    split <;> rfl
  omniData q := by
    simp only [detachAll]
    split
    · exact .inr rfl
    · exact .inl rfl
  reqs _ := .inl rfl
  runningBatch := rfl
  curBatch := rfl
  lastBatch := rfl
  asyncPending := rfl

theorem trimmed_removeFromBatch (b : Batches) (r : String) (x : Option Nat) : Trimmed r b (b.removeFromBatch r x) := by
  cases x with
  | none => exact .refl r b
  | some x =>
    have h := trimmed_detachAll b r (b.reqs x)
    refine ⟨h.other, h.rid, h.finishedReason, h.isRetracted, h.claimed, h.omniData, ?_, rfl, rfl, rfl, rfl⟩
    intro y
    by_cases hy : y = x
    · subst hy
      exact .inr (by simp [removeFromBatch])
    · exact .inl (by simp only [removeFromBatch, Function.update_of_ne hy])

theorem trimmed_removeFromBatches (b : Batches) (r : String) : Trimmed r b (Scheduler.removeFromBatches b r) :=
  ((trimmed_removeFromBatch b r _).trans (trimmed_removeFromBatch _ r _)).trans
    ((trimmed_removeFromBatch _ r _).trans (trimmed_removeFromBatch _ r _))

end Batches

namespace Scheduler

variable {cfg : Config} {s s' : State} {rs : List String}

/-! ### Aborts -/

theorem trimmed_abort (s : State) (r : String) (d : Bool) : Batches.Trimmed r s.batches (abort s r d).batches := by
  have hmark : Batches.Trimmed r s.batches
      (if d then s.batches.markRunningRequestAborted r else (s.batches, false)).1 := by
    cases d
    · exact .refl r _
    · exact Batches.trimmed_markRunningRequestAborted s.batches r
  simp only [abort]
  generalize (if d then s.batches.markRunningRequestAborted r else (s.batches, false)) = marked at hmark ⊢
  have hdetach := hmark.trans (Batches.trimmed_detachAll _ r s.waiting)
  split
  · exact hdetach
  · exact hdetach.trans (Batches.trimmed_removeFromBatches _ r)

/-- A table keeps the entries of every request outside `rs`, and gets no new ones. -/
def Kept {V : Type} (rs : List String) (d d' : Dict String V) : Prop :=
  ∀ r, d'.get? r = d.get? r ∨ (r ∈ rs ∧ d'.get? r = none)

theorem kept_pop {V : Type} (d : Dict String V) (r : String) : Kept [r] d (d.pop r) := by
  intro x
  rw [Dict.get?_pop]
  split
  · next h => exact .inr ⟨by simp [h], rfl⟩
  · exact .inl rfl

theorem Kept.trans {V : Type} {rs' : List String} {d d' e : Dict String V} (h : Kept rs d d') (h' : Kept rs' d' e) :
    Kept (rs ++ rs') d e := by
  intro r
  obtain h1 | ⟨hmem, h1⟩ := h' r
  · obtain h2 | ⟨hmem, h2⟩ := h r
    · exact .inl (h1.trans h2)
    · exact .inr ⟨List.mem_append_left _ hmem, h1.trans h2⟩
  · exact .inr ⟨List.mem_append_right _ hmem, h1⟩

/-- Admitting requests leaves the loops where they are. -/
structure AdmitFrame (s s' : State) : Prop where
  completed : s'.completed = s.completed
  chunkedReq : s'.chunkedReq = s.chunkedReq
  paused : s'.paused = s.paused
  phase : s'.phase = s.phase
  streaming : s'.streaming = s.streaming
  claimed : s'.claimed = s.claimed
  batchCount : s'.batchCount = s.batchCount
  received : s'.received = s.received
  stageAborts : s'.stageAborts = s.stageAborts

theorem AdmitFrame.refl (s : State) : AdmitFrame s s := ⟨rfl, rfl, rfl, rfl, rfl, rfl, rfl, rfl, rfl⟩

theorem AdmitFrame.trans {t u : State} (h : AdmitFrame s t) (h' : AdmitFrame t u) : AdmitFrame s u :=
  ⟨h'.completed.trans h.completed, h'.chunkedReq.trans h.chunkedReq, h'.paused.trans h.paused, h'.phase.trans h.phase,
    h'.streaming.trans h.streaming, h'.claimed.trans h.claimed, h'.batchCount.trans h.batchCount,
    h'.received.trans h.received, h'.stageAborts.trans h.stageAborts⟩

/-- The requests of `rs` are taken out of the queues, and nothing else. -/
structure Swept (rs : List String) (s s' : State) : Prop where
  rid : ∀ q, (s'.batches.req q).rid = (s.batches.req q).rid
  deferred : Kept rs s.deferred s'.deferred
  dirty : s'.dirty.Sublist s.dirty
  builds : Kept rs s.builds s'.builds
  admissions : Kept rs s.admissions s'.admissions
  backlog : s'.backlog = s.backlog.filter fun p => p.requestId ∉ rs
  data : s'.data = s.data
  reqCount : s'.reqCount = s.reqCount
  abortLog : s'.abortLog = s.abortLog ++ rs

theorem Swept.refl (s : State) : Swept [] s s where
  rid _ := rfl
  deferred _ := .inl rfl
  dirty := List.Sublist.refl _
  builds _ := .inl rfl
  admissions _ := .inl rfl
  backlog := by simp
  data := rfl
  reqCount := rfl
  abortLog := (List.append_nil _).symm

theorem Swept.trans {rs' : List String} {t u : State} (h : Swept rs s t)
    (h' : Swept rs' t u) : Swept (rs ++ rs') s u where
  rid q := (h'.rid q).trans (h.rid q)
  deferred := h.deferred.trans h'.deferred
  dirty := h'.dirty.trans h.dirty
  builds := h.builds.trans h'.builds
  admissions := h.admissions.trans h'.admissions
  backlog := by
    rw [h'.backlog, h.backlog, List.filter_filter]
    refine List.filter_congr fun p _ => ?_
    simp [Bool.and_comm]
  data := h'.data.trans h.data
  reqCount := h'.reqCount.trans h.reqCount
  abortLog := by rw [h'.abortLog, h.abortLog, List.append_assoc]

/-- Aborts and errors for the requests of `rs`: nothing else is touched. -/
structure Cut (rs : List String) (s s' : State) : Prop extends Swept rs s s', AdmitFrame s s' where
  other : ∀ q, (s.batches.req q).rid ∉ rs → s'.batches.req q = s.batches.req q
  finishedReason : ∀ q, (s'.batches.req q).finishedReason = (s.batches.req q).finishedReason
  isRetracted : ∀ q, (s'.batches.req q).isRetracted = (s.batches.req q).isRetracted
  claimedFlag : ∀ q, (s'.batches.req q).omniTerminalClaimed = (s.batches.req q).omniTerminalClaimed
  omniData : ∀ q, (s'.batches.req q).omniData = (s.batches.req q).omniData ∨ (s'.batches.req q).omniData = none
  reqs : ∀ x q, q ∈ s'.batches.reqs x → q ∈ s.batches.reqs x
  reqs_keep : ∀ x q, q ∈ s.batches.reqs x → (s.batches.req q).rid ∉ rs → q ∈ s'.batches.reqs x
  slot : ∀ i, s'.batches.slot i = s.batches.slot i
  pending : s'.batches.asyncPending = s.batches.asyncPending
  waiting : ∀ q, q ∈ s'.waiting → q ∈ s.waiting
  waiting_keep : ∀ q, q ∈ s.waiting → (s.batches.req q).rid ∉ rs → q ∈ s'.waiting
  ingress : Kept rs s.ingress s'.ingress
  aborted : ∀ r ∈ s'.aborted, r ∈ s.aborted ∨ r ∈ rs

theorem Cut.refl (s : State) : Cut [] s s where
  toSwept := .refl s
  toAdmitFrame := .refl s
  other _ _ := rfl
  finishedReason _ := rfl
  isRetracted _ := rfl
  claimedFlag _ := rfl
  omniData _ := .inl rfl
  reqs _ _ h := h
  reqs_keep _ _ h _ := h
  slot _ := rfl
  pending := rfl
  waiting _ h := h
  waiting_keep _ h _ := h
  ingress _ := .inl rfl
  aborted _ h := .inl h

theorem Cut.trans {rs' : List String} {t u : State} (h : Cut rs s t) (h' : Cut rs' t u) : Cut (rs ++ rs') s u where
  toSwept := h.toSwept.trans h'.toSwept
  toAdmitFrame := h.toAdmitFrame.trans h'.toAdmitFrame
  other q hq := by
    rw [List.mem_append, not_or] at hq
    rw [h'.other q (by rw [h.rid]; exact hq.2), h.other q hq.1]
  finishedReason q := (h'.finishedReason q).trans (h.finishedReason q)
  isRetracted q := (h'.isRetracted q).trans (h.isRetracted q)
  claimedFlag q := (h'.claimedFlag q).trans (h.claimedFlag q)
  omniData q := by
    obtain h1 | h1 := h'.omniData q
    · rw [h1]
      exact h.omniData q
    · exact .inr h1
  reqs x q hq := h.reqs x q (h'.reqs x q hq)
  reqs_keep x q hq hne := by
    rw [List.mem_append, not_or] at hne
    exact h'.reqs_keep x q (h.reqs_keep x q hq hne.1) (by rw [h.rid]; exact hne.2)
  slot i := (h'.slot i).trans (h.slot i)
  pending := h'.pending.trans h.pending
  waiting q hq := h.waiting q (h'.waiting q hq)
  waiting_keep q hq hne := by
    rw [List.mem_append, not_or] at hne
    exact h'.waiting_keep q (h.waiting_keep q hq hne.1) (by rw [h.rid]; exact hne.2)
  ingress := h.ingress.trans h'.ingress
  aborted r hr := by
    rw [List.mem_append]
    obtain hr | hr := h'.aborted r hr
    · obtain hr | hr := h.aborted r hr
      · exact .inl hr
      · exact .inr (.inl hr)
    · exact .inr (.inr hr)

theorem mem_recordAborted {aborted : List String} {r x : String} (h : x ∈ recordAborted aborted r) :
    x ∈ aborted ∨ x = r := by
  unfold recordAborted at h
  split at h
  · exact .inl h
  · split at h
    · obtain h | h := List.mem_append.mp h
      · exact .inl (List.mem_of_mem_drop h)
      · exact .inr (List.mem_singleton.mp h)
    · obtain h | h := List.mem_append.mp h
      · exact .inl h
      · exact .inr (List.mem_singleton.mp h)

theorem cut_abort (s : State) (r : String) (d : Bool) : Cut [r] s (abort s r d) := by
  have h := trimmed_abort s r d
  exact
    { other := fun q hq => h.other q (by simpa using hq)
      rid := h.rid
      finishedReason := h.finishedReason
      isRetracted := h.isRetracted
      claimedFlag := h.claimed
      omniData := h.omniData
      reqs := fun x q hq => h.mem_reqs hq
      reqs_keep := fun x q hq hne => h.mem_reqs_of_ne (by simpa using hne) hq
      slot := h.slot
      pending := h.asyncPending
      waiting := fun q hq => (List.mem_filter.mp hq).1
      waiting_keep := fun q hq hne => List.mem_filter.mpr ⟨hq, by simpa using hne⟩
      ingress := kept_pop s.ingress r
      deferred := kept_pop s.deferred r
      dirty := List.filter_sublist
      builds := kept_pop s.builds r
      admissions := kept_pop s.admissions r
      backlog := List.filter_congr fun p _ => by simp
      completed := rfl
      chunkedReq := rfl
      phase := rfl
      streaming := rfl
      claimed := rfl
      data := rfl
      reqCount := rfl
      batchCount := rfl
      paused := rfl
      received := rfl
      stageAborts := rfl
      aborted := fun x hx => (mem_recordAborted hx).imp_right List.mem_singleton.mpr
      abortLog := rfl }

theorem cut_emitRequestError (cfg : Config) (s : State) (r : String) : Cut [] s (emitRequestError cfg s r) := by
  unfold emitRequestError
  split
  · exact { Cut.refl s with }
  · exact .refl s

theorem cut_fail (cfg : Config) (s : State) (r : String) (d : Bool) : Cut [r] s (fail cfg s r d) :=
  (cut_emitRequestError cfg s r).trans (cut_abort _ r d)

theorem cut_foldl {f : State → String → State} (hf : ∀ s r, Cut [r] s (f s r)) (rs : List String) (s : State) :
    Cut rs s (rs.foldl f s) := by
  induction rs generalizing s with
  | nil => exact .refl s
  | cons r rest ih => exact (hf s r).trans (ih _)

theorem cut_handleBatchFailure (cfg : Config) (s : State) (reqs : List Nat) :
    Cut (reqs.map fun q => (s.batches.req q).rid) s (handleBatchFailure cfg s reqs) :=
  cut_foldl (fun s r => cut_fail cfg s r false) _ s

theorem cut_abortAllRequests (s : State) : Cut (activeRequestIds s) s (abortAllRequests s) :=
  cut_foldl (fun s r => cut_abort s r false) _ s

/-! ### Receiving -/

/-- Taking messages leaves everything but the stream tables alone. -/
structure RecvFrame (s s' : State) : Prop where
  aborted : s'.aborted = s.aborted
  completed : ∀ r ∈ s'.completed, r ∈ s.completed
  deferred : s'.deferred = s.deferred
  builds : s'.builds = s.builds
  admissions : s'.admissions = s.admissions
  backlog : s'.backlog = s.backlog
  waiting : s'.waiting = s.waiting
  batches : s'.batches = s.batches
  chunkedReq : s'.chunkedReq = s.chunkedReq
  paused : s'.paused = s.paused
  phase : s'.phase = s.phase
  streaming : s'.streaming = s.streaming
  claimed : s'.claimed = s.claimed
  outbox : s'.outbox = s.outbox
  reqCount : s'.reqCount = s.reqCount
  batchCount : s'.batchCount = s.batchCount
  dataLength : s'.data.length = s.data.length
  abortLog : s'.abortLog = s.abortLog
  stageAborts : s'.stageAborts = s.stageAborts

theorem RecvFrame.refl (s : State) : RecvFrame s s :=
  ⟨rfl, fun _ h => h, rfl, rfl, rfl, rfl, rfl, rfl, rfl, rfl, rfl, rfl, rfl, rfl, rfl, rfl, rfl, rfl, rfl⟩

theorem RecvFrame.trans {t u : State} (h : RecvFrame s t) (h' : RecvFrame t u) : RecvFrame s u :=
  ⟨h'.aborted.trans h.aborted, fun r hr => h.completed r (h'.completed r hr), h'.deferred.trans h.deferred,
    h'.builds.trans h.builds, h'.admissions.trans h.admissions, h'.backlog.trans h.backlog, h'.waiting.trans h.waiting,
    h'.batches.trans h.batches, h'.chunkedReq.trans h.chunkedReq, h'.paused.trans h.paused, h'.phase.trans h.phase,
    h'.streaming.trans h.streaming, h'.claimed.trans h.claimed, h'.outbox.trans h.outbox,
    h'.reqCount.trans h.reqCount, h'.batchCount.trans h.batchCount, h'.dataLength.trans h.dataLength,
    h'.abortLog.trans h.abortLog, h'.stageAborts.trans h.stageAborts⟩

theorem recvFrame_onStream (s : State) (r : String) (item : Handed) (recheck : Bool) :
    RecvFrame s (onStream s r item recheck) := by
  unfold onStream
  split
  · exact .refl s
  · split
    · exact { RecvFrame.refl s with dataLength := List.length_modify _ _ _ }
    · dsimp only
      split
      · exact { RecvFrame.refl s with }
      · exact { RecvFrame.refl s with }

/-- A message is noted; then it is dropped, it is a new request, or it is an item of a stream. -/
theorem recvOne_cases (cfg : Config) (acc : State × List Payload) (msg : IncomingMessage) :
    let s := { acc.1 with received := acc.1.received ++ [msg] }
    let r := msg.requestId
    (r ∈ acc.1.aborted ∧ recvOne cfg acc msg = (s, acc.2)) ∨
      (r ∉ acc.1.aborted ∧ msg.input = .newRequest ∧
        recvOne cfg acc msg = ({ s with completed := s.completed.filter (· ≠ r) }, acc.2 ++ [{ requestId := r }])) ∨
      ∃ item recheck, r ∉ acc.1.aborted ∧
        ((∃ c, msg.input = .streamChunk c ∧ item = .chunk c) ∨ (msg.input = .streamDone ∧ item = .done)) ∧
        (item = .done → recheck = true) ∧
        recvOne cfg acc msg = (onStream s r item recheck, acc.2) := by
  dsimp only
  by_cases haborted : msg.requestId ∈ acc.1.aborted
  · exact .inl ⟨haborted, by simp only [recvOne, haborted, if_true]⟩
  · refine .inr ?_
    cases hinput : msg.input with
    | newRequest => exact .inl ⟨haborted, rfl, by simp only [recvOne, haborted, if_false, hinput]⟩
    | streamChunk c =>
      refine .inr ⟨.chunk c, cfg.shouldRecheck msg.requestId c, haborted, .inl ⟨c, rfl, rfl⟩, (fun h => nomatch h), ?_⟩
      simp only [recvOne, haborted, if_false, hinput, onStreamChunk]
    | streamDone =>
      refine .inr ⟨.done, true, haborted, .inr ⟨rfl, rfl⟩, (fun _ => rfl), ?_⟩
      simp only [recvOne, haborted, if_false, hinput, onStreamDone]

theorem recvFrame_recvOne (cfg : Config) (acc : State × List Payload) (msg : IncomingMessage) :
    RecvFrame acc.1 (recvOne cfg acc msg).1 := by
  have hlog : RecvFrame acc.1 { acc.1 with received := acc.1.received ++ [msg] } := { RecvFrame.refl acc.1 with }
  obtain ⟨_, h⟩ | ⟨_, _, h⟩ | ⟨item, recheck, _, _, _, h⟩ := recvOne_cases cfg acc msg
  · rw [h]
    exact hlog
  · rw [h]
    exact { RecvFrame.refl acc.1 with completed := fun _ hr => (List.mem_filter.mp hr).1 }
  · rw [h]
    exact hlog.trans (recvFrame_onStream _ _ _ _)

theorem recvFrame_recvRequests (cfg : Config) (s : State) (msgs : List IncomingMessage) :
    RecvFrame s (recvRequests cfg s msgs).1 := by
  have hfold : ∀ (msgs : List IncomingMessage) (acc : State × List Payload),
      RecvFrame acc.1 (msgs.foldl (recvOne cfg) acc).1 := by
    intro msgs
    induction msgs with
    | nil => exact fun acc => .refl acc.1
    | cons msg rest ih => exact fun acc => (recvFrame_recvOne cfg acc msg).trans (ih _)
  exact hfold msgs (s, [])

/-! ### Admitting -/

/-- What survives a change of the admission tables, a failure, and a new request in the queue
survives every way to admit a request. -/
structure AdmitRule (cfg : Config) (P : State → Prop) : Prop where
  tables : ∀ s ingress deferred builds admissions, P s → P { s with ingress, deferred, builds, admissions }
  fail : ∀ s r d, P s → P (fail cfg s r d)
  enqueue : ∀ s r handed, P s → P (enqueue s r handed)

namespace AdmitRule

variable {P : State → Prop}

section
variable (rule : AdmitRule cfg P) (h : P s)
include rule h

theorem enqueueBuiltRequest (payload : Payload) (done : Bool) (value : Built)
    (answers : Answers) : P (enqueueBuiltRequest cfg s payload done value answers) := by
  have h1 := rule.tables s s.ingress (s.deferred.pop payload.requestId) s.builds s.admissions h
  have h2 := rule.tables s (s.ingress.pop payload.requestId) (s.deferred.pop payload.requestId) s.builds s.admissions h
  unfold Scheduler.enqueueBuiltRequest
  dsimp only
  split
  · exact rule.fail _ _ _ h1
  · split
    · exact h2
    · split
      · exact rule.fail _ _ _ h2
      · exact rule.enqueue _ _ _ h2

theorem admitOrDefer (payload : Payload) (done : Bool) (result : BuildResult)
    (answers : Answers) : P (admitOrDeferBuiltRequest cfg s payload done result answers) := by
  unfold admitOrDeferBuiltRequest
  cases result with
  | failed => exact rule.fail _ _ _ h
  | built value => exact rule.enqueueBuiltRequest h payload done value answers
  | deferred value =>
    dsimp only
    split
    · exact h
    · split
      · exact rule.tables _ _ _ _ _ h
      · exact rule.fail _ _ _ h
      · exact rule.enqueueBuiltRequest h payload done value answers

theorem drainBuild (answers : Answers) :
    P (drainRequestBuildResult cfg s answers) := by
  unfold drainRequestBuildResult
  split
  · exact h
  · next r build _ _ =>
    split
    · exact h
    · have h1 := rule.tables s s.ingress s.deferred (s.builds.pop r) s.admissions h
      dsimp only
      split
      · exact h1
      · exact rule.admitOrDefer h1 _ _ _ _

theorem drainAdmission (r : String) (answers : Answers) :
    P (drainRequestAdmissionResult cfg s r answers) := by
  unfold drainRequestAdmissionResult
  split
  · exact h
  · split
    · exact h
    · have h1 := rule.tables s s.ingress s.deferred s.builds (s.admissions.pop r) h
      dsimp only
      split
      · exact h1
      · exact rule.admitOrDefer h1 _ _ _ _

theorem prefetch (payload : Payload) : P (prefetch s payload).1 := by
  unfold Scheduler.prefetch
  dsimp only
  split
  · exact h
  · exact rule.tables _ _ _ _ _ h

theorem processInputRequest (payload : Payload) (result : BuildResult)
    (answers : Answers) : P (processInputRequest cfg s payload result answers) := by
  have h1 := rule.prefetch h payload
  unfold Scheduler.processInputRequest
  dsimp only
  split
  · exact h
  · split
    · exact rule.fail _ _ _ h
    · split
      · exact rule.tables _ _ _ _ _ h1
      · split
        · exact rule.tables _ _ _ _ _ h1
        · exact rule.admitOrDefer h1 _ _ _ _

end

end AdmitRule

theorem admitRule_admitFrame (cfg : Config) (s : State) : AdmitRule cfg (AdmitFrame s) where
  tables _ _ _ _ _ h := { h with }
  fail t r d h := h.trans (cut_fail cfg t r d).toAdmitFrame
  enqueue _ _ _ h := { h with }

theorem stage_backlog (cfg : Config) (s : State) (recvReqs : List Payload) :
    (stageRequestBuildPayloads cfg s recvReqs).1 =
      { s with backlog := (stageRequestBuildPayloads cfg s recvReqs).1.backlog } := by
  unfold stageRequestBuildPayloads
  split
  · rfl
  · split <;> rfl

/-! ### The engine -/

/-- Running and planning batches leaves the admission tables alone. -/
structure SameTables (s s' : State) : Prop where
  aborted : s'.aborted = s.aborted
  deferred : s'.deferred = s.deferred
  dirty : s'.dirty = s.dirty
  builds : s'.builds = s.builds
  admissions : s'.admissions = s.admissions
  backlog : s'.backlog = s.backlog
  data : s'.data = s.data
  received : s'.received = s.received
  reqCount : s'.reqCount = s.reqCount
  abortLog : s'.abortLog = s.abortLog
  stageAborts : s'.stageAborts = s.stageAborts
  rid : ∀ q, (s'.batches.req q).rid = (s.batches.req q).rid

theorem SameTables.refl (s : State) : SameTables s s :=
  ⟨rfl, rfl, rfl, rfl, rfl, rfl, rfl, rfl, rfl, rfl, rfl, fun _ => rfl⟩

theorem SameTables.trans {t u : State} (h : SameTables s t) (h' : SameTables t u) : SameTables s u :=
  ⟨h'.aborted.trans h.aborted, h'.deferred.trans h.deferred, h'.dirty.trans h.dirty, h'.builds.trans h.builds,
    h'.admissions.trans h.admissions, h'.backlog.trans h.backlog, h'.data.trans h.data, h'.received.trans h.received,
    h'.reqCount.trans h.reqCount, h'.abortLog.trans h.abortLog, h'.stageAborts.trans h.stageAborts,
    fun q => (h'.rid q).trans (h.rid q)⟩

@[simp] theorem Req.finish_rid (q : Req) : (Req.finish q).rid = q.rid := by
  unfold Req.finish
  split <;> rfl

theorem sameTables_processBatchResult (s : State) (reqs finishing : List Nat) :
    SameTables s (processBatchResult s reqs finishing) := by
  refine { SameTables.refl s with rid := fun q => ?_ }
  simp only [processBatchResult]
  split
  · exact Req.finish_rid _
  · rfl

theorem rid_detachRequestData (b : Batches) (q p : Nat) : ((b.detachRequestData q).req p).rid = (b.req p).rid := by
  by_cases h : p = q
  · subst h
    simp [Batches.detachRequestData, Batches.setReq]
  · simp [Batches.detachRequestData, Batches.setReq, Function.update_of_ne h]

theorem sameTables_closeCompletedRequest (s : State) (q : Nat) : SameTables s (closeCompletedRequest s q) := by
  have hdetach : SameTables s { s with batches := s.batches.detachRequestData q } :=
    { SameTables.refl s with rid := rid_detachRequestData s.batches q }
  unfold closeCompletedRequest rememberCompletedRequest
  dsimp only
  split
  · exact hdetach
  · exact { hdetach with }

theorem sameTables_streamOutput (s : State) : SameTables s (streamOutput s) := by
  unfold streamOutput
  split
  · exact .refl s
  · next q rest _ =>
    have hpop : SameTables s { s with streaming := rest } := { SameTables.refl s with }
    dsimp only
    split
    · exact hpop
    · split
      · exact { hpop with rid := rid_detachRequestData s.batches q }
      · split
        · exact hpop
        · split
          · exact hpop.trans (sameTables_closeCompletedRequest _ q)
          · refine { hpop with rid := fun p => ?_ }
            by_cases h : p = q
            · subst h
              simp [Batches.setReq]
            · simp [Batches.setReq, Function.update_of_ne h]

theorem sameTables_emitRequestError (cfg : Config) (s : State) (r : String) :
    SameTables s (emitRequestError cfg s r) := by
  unfold emitRequestError
  split
  · exact { SameTables.refl s with }
  · exact .refl s

theorem sameTables_terminalOutput (cfg : Config) (s : State) (yields : Nat) (ok : Bool) :
    SameTables s (terminalOutput cfg s yields ok) := by
  unfold terminalOutput
  split
  · exact .refl s
  · next q _ =>
    have h1 : SameTables s
        { s with claimed := none, outbox := s.outbox ++ streamMessages (s.batches.req q).rid yields } :=
      { SameTables.refl s with }
    have h2 := h1.trans (sameTables_closeCompletedRequest _ q)
    dsimp only
    split
    · exact { h2 with }
    · exact h2.trans (sameTables_emitRequestError cfg _ _)

theorem sameTables_getNextBatchToRun (s : State) (u : Plan) : SameTables s (getNextBatchToRun s u) :=
  { SameTables.refl s with }

theorem sameTables_dropStaleOverrun (s : State) : SameTables s (dropStaleOverrun s) := by
  unfold dropStaleOverrun
  split
  · exact .refl s
  · dsimp only
    split
    · exact .refl s
    · exact { SameTables.refl s with }

theorem sameTables_runBatch (cfg : Config) {step : Step} (s : State) (h : step.outcome = .stepped) :
    SameTables s (runBatch cfg s step) := by
  unfold runBatch
  split
  · exact .refl s
  · rw [h]
    refine SameTables.trans ?_ (sameTables_processBatchResult _ _ _)
    exact { SameTables.refl s with }

theorem sameTables_resolveAndProcess (cfg : Config) {step : Step} (s : State) (pending : Pending)
    (h : step.outcome ≠ .raised) :
    SameTables s (resolveAndProcess cfg s pending step) := by
  unfold resolveAndProcess
  dsimp only
  split
  · contradiction
  · exact .refl s
  · refine SameTables.trans ?_ (sameTables_processBatchResult _ _ _)
    exact { SameTables.refl s with }

theorem sameTables_resolvePendingAsync (cfg : Config) {step : Step} (s : State) (h : step.outcome ≠ .raised) :
    SameTables s (resolvePendingAsync cfg s step) := by
  unfold resolvePendingAsync
  split
  · exact .refl s
  · refine SameTables.trans ?_ (sameTables_resolveAndProcess cfg _ _ h)
    exact { SameTables.refl s with }

theorem sameTables_requeueRunningRequests (s : State) (refused : List Nat) :
    SameTables s (requeueRunningRequests s refused) := by
  refine { SameTables.refl s with rid := fun q => ?_ }
  simp only [requeueRunningRequests]
  split <;> rfl

/-! The loop stays where it is. -/

@[simp] theorem phase_closeCompletedRequest (s : State) (q : Nat) : (closeCompletedRequest s q).phase = s.phase := by
  unfold closeCompletedRequest rememberCompletedRequest
  dsimp only
  split <;> rfl

@[simp] theorem outbox_closeCompletedRequest (s : State) (q : Nat) : (closeCompletedRequest s q).outbox = s.outbox := by
  unfold closeCompletedRequest rememberCompletedRequest
  dsimp only
  split <;> rfl

@[simp] theorem phase_streamOutput (s : State) : (streamOutput s).phase = s.phase := by
  unfold streamOutput
  split
  · rfl
  · dsimp only
    split
    · rfl
    · split
      · rfl
      · split
        · rfl
        · split
          · exact phase_closeCompletedRequest _ _
          · rfl

@[simp] theorem phase_terminalOutput (cfg : Config) (s : State) (yields : Nat) (ok : Bool) :
    (terminalOutput cfg s yields ok).phase = s.phase := by
  unfold terminalOutput
  split
  · rfl
  · dsimp only
    split
    · exact phase_closeCompletedRequest _ _
    · exact (cut_emitRequestError cfg _ _).phase.trans (phase_closeCompletedRequest _ _)

@[simp] theorem phase_resolveAndProcess (cfg : Config) (s : State) (pending : Pending) (step : Step) :
    (resolveAndProcess cfg s pending step).phase = s.phase := by
  unfold resolveAndProcess
  dsimp only
  split
  · exact (cut_handleBatchFailure cfg _ _).phase
  · rfl
  · rfl

@[simp] theorem phase_resolvePendingAsync (cfg : Config) (s : State) (step : Step) :
    (resolvePendingAsync cfg s step).phase = s.phase := by
  unfold resolvePendingAsync
  split
  · rfl
  · exact phase_resolveAndProcess cfg _ _ _

/-! ### What upstream may do -/

/-- The requests that upstream has: queued, running, in the batch of the last iteration, or the
one whose prefill is cut in chunks. -/
def held (s : State) : List Nat :=
  s.waiting ++ s.batches.reqs s.batches.runningBatch ++ (s.batches.lastBatch.map s.batches.reqs).getD [] ++
    s.chunkedReq.toList

def Plan.batchReqs (u : Plan) : List Nat := (u.batch.map u.reqs).getD []

/-- The requests of a plan. -/
def Plan.placed (u : Plan) : List Nat := u.waiting ++ u.reqs u.runningBatch ++ u.batchReqs

/-- What the scheduler takes for granted of upstream's plan: it places requests that upstream has,
none that is not finished gets lost, the batch can run, and nobody writes to the snapshot in
flight. -/
structure Plan.Sound (s : State) (u : Plan) : Prop where
  drawn : ∀ q ∈ u.placed, q ∈ held s
  last : ∀ b, s.batches.lastBatch = some b → ∀ q ∈ u.reqs b, q ∈ held s
  chunkedReq : ∀ q, u.chunkedReq = some q → q ∈ u.batchReqs
  keeps : ∀ q ∈ held s, (s.batches.req q).finished = false → q ∈ u.placed
  runnable : ∀ q ∈ u.batchReqs, (s.batches.req q).finished = false ∧ u.isRetracted q = false
  snapshot : ∀ p, s.batches.asyncPending = some p → u.runningBatch ≠ p.batch ∧ u.batch ≠ some p.batch

/-- Upstream's plans are sound. -/
def Upstream (s : State) : Event → Prop
  | .plan u => u.Sound s
  | _ => True

/-! ### Requests are known -/

/-- Whatever refers to a request refers to one that was made. -/
structure Known (s : State) : Prop where
  waiting : ∀ q ∈ s.waiting, q < s.reqCount
  listed : ∀ q ∈ s.batches.listed, q < s.reqCount
  streaming : ∀ q ∈ s.streaming, q < s.reqCount
  claimed : ∀ q, s.claimed = some q → q < s.reqCount
  chunkedReq : ∀ q, s.chunkedReq = some q → q < s.reqCount
  rows : ∀ p, s.batches.asyncPending = some p → ∀ q ∈ p.rows, q < s.reqCount
  prev : ∀ p, s.phase = .resolving p → (∀ q ∈ s.batches.reqs p.batch, q < s.reqCount) ∧ ∀ q ∈ p.rows, q < s.reqCount
  slots : ∀ i x, s.batches.slot i = some x → x < s.batchCount

theorem Known.held (h : Known s) {q : Nat} (hq : q ∈ held s) : q < s.reqCount := by
  simp only [Scheduler.held, List.mem_append, Option.mem_toList] at hq
  obtain ((hq | hq) | hq) | hq := hq
  · exact h.waiting q hq
  · exact h.listed q (Batches.mem_listed.mpr ⟨.running, _, rfl, hq⟩)
  · cases hl : s.batches.lastBatch with
    | none =>
      rw [hl] at hq
      cases hq
    | some b =>
      rw [hl] at hq
      exact h.listed q (Batches.mem_listed.mpr ⟨.last, b, hl, hq⟩)
  · exact h.chunkedReq q hq

theorem Known.cut (h : Known s) (hcut : Cut rs s s') : Known s' := by
  refine ⟨?_, ?_, ?_, ?_, ?_, ?_, ?_, ?_⟩
  · intro q hq
    rw [hcut.reqCount]
    exact h.waiting q (hcut.waiting q hq)
  · intro q hq
    obtain ⟨i, x, hi, hx⟩ := Batches.mem_listed.mp hq
    rw [hcut.slot] at hi
    rw [hcut.reqCount]
    exact h.listed q (Batches.mem_listed.mpr ⟨i, x, hi, hcut.reqs x q hx⟩)
  · rw [hcut.streaming, hcut.reqCount]
    exact h.streaming
  · rw [hcut.claimed, hcut.reqCount]
    exact h.claimed
  · rw [hcut.chunkedReq, hcut.reqCount]
    exact h.chunkedReq
  · rw [hcut.pending, hcut.reqCount]
    exact h.rows
  · intro p hp
    rw [hcut.phase] at hp
    obtain ⟨hreqs, hrows⟩ := h.prev p hp
    rw [hcut.reqCount]
    exact ⟨fun q hq => hreqs q (hcut.reqs _ q hq), hrows⟩
  · intro i x hi
    rw [hcut.slot] at hi
    rw [hcut.batchCount]
    exact h.slots i x hi

theorem Known.recv (h : Known s) (hf : RecvFrame s s') : Known s' := by
  refine ⟨?_, ?_, ?_, ?_, ?_, ?_, ?_, ?_⟩
  · rw [hf.waiting, hf.reqCount]
    exact h.waiting
  · rw [hf.batches, hf.reqCount]
    exact h.listed
  · rw [hf.streaming, hf.reqCount]
    exact h.streaming
  · rw [hf.claimed, hf.reqCount]
    exact h.claimed
  · rw [hf.chunkedReq, hf.reqCount]
    exact h.chunkedReq
  · rw [hf.batches, hf.reqCount]
    exact h.rows
  · rw [hf.phase, hf.batches, hf.reqCount]
    exact h.prev
  · rw [hf.batches, hf.batchCount]
    exact h.slots

/-- A phase in which nothing is being resolved asks for nothing. -/
theorem Known.atPhase (h : Known s) {phase : Phase} (hphase : ∀ p, phase ≠ .resolving p) :
    Known { s with phase } :=
  { h with prev := fun p hp => absurd hp (hphase p) }

theorem known_enqueue (h : Known s) (r : String) (handed : List Handed) : Known (enqueue s r handed) where
  waiting q hq := by
    obtain hq | hq := List.mem_append.mp hq
    · exact Nat.lt_succ_of_lt (h.waiting q hq)
    · rw [List.mem_singleton.mp hq]
      exact Nat.lt_succ_self _
  listed q hq := Nat.lt_succ_of_lt (h.listed q hq)
  streaming q hq := Nat.lt_succ_of_lt (h.streaming q hq)
  claimed q hq := Nat.lt_succ_of_lt (h.claimed q hq)
  chunkedReq q hq := Nat.lt_succ_of_lt (h.chunkedReq q hq)
  rows p hp q hq := Nat.lt_succ_of_lt (h.rows p hp q hq)
  prev p hp := ⟨fun q hq => Nat.lt_succ_of_lt ((h.prev p hp).1 q hq),
    fun q hq => Nat.lt_succ_of_lt ((h.prev p hp).2 q hq)⟩
  slots := h.slots

theorem admitRule_known (cfg : Config) : AdmitRule cfg Known where
  tables _ _ _ _ _ h := { h with }
  fail t r d h := h.cut (cut_fail cfg t r d)
  enqueue _ r handed h := known_enqueue h r handed

theorem known_emitStreamOutput (h : Known s) (rows : List Nat) (skip : List String) (yields : Nat → Nat) :
    Known (emitStreamOutput s rows skip yields) :=
  { h with }

theorem known_processBatchResult (h : Known s) {reqs : List Nat} (hreqs : ∀ q ∈ reqs, q < s.reqCount)
    (finishing : List Nat) : Known (processBatchResult s reqs finishing) :=
  { h with streaming := hreqs }

theorem known_closeCompletedRequest (h : Known s) (q : Nat) : Known (closeCompletedRequest s q) := by
  have h1 : Known { s with batches := s.batches.detachRequestData q } := { h with }
  unfold closeCompletedRequest rememberCompletedRequest
  dsimp only
  split
  · exact h1
  · exact { h1 with }

theorem known_streamOutput (h : Known s) : Known (streamOutput s) := by
  unfold streamOutput
  split
  · exact h
  · next q rest hs =>
    have hrest : ∀ x ∈ rest, x < s.reqCount := fun x hx => h.streaming x (by rw [hs]; exact List.mem_cons_of_mem _ hx)
    have hq : q < s.reqCount := h.streaming q (by rw [hs]; exact List.mem_cons_self)
    have h1 : Known { s with streaming := rest } := { h with streaming := hrest }
    dsimp only
    split
    · exact h1
    · split
      · exact { h1 with }
      · split
        · exact h1
        · split
          · exact known_closeCompletedRequest h1 q
          · exact { h1 with claimed := fun x hx => by cases hx; exact hq }

theorem known_emitRequestError (h : Known s) (r : String) : Known (emitRequestError cfg s r) :=
  h.cut (cut_emitRequestError cfg s r)

theorem known_terminalOutput (h : Known s) (yields : Nat) (ok : Bool) : Known (terminalOutput cfg s yields ok) := by
  unfold terminalOutput
  split
  · exact h
  · next q _ =>
    have h1 : Known { s with claimed := none, outbox := s.outbox ++ streamMessages (s.batches.req q).rid yields } :=
      { h with claimed := fun x hx => nomatch hx }
    have h2 := known_closeCompletedRequest h1 q
    dsimp only
    split
    · exact { h2 with }
    · exact known_emitRequestError h2 _

/-- The batches list no more than before. -/
theorem Known.shrink (h : Known s) {b : Batches} (hreqs : ∀ x q, q ∈ b.reqs x → q ∈ s.batches.reqs x)
    (hslot : ∀ i x, b.slot i = some x → s.batches.slot i = some x)
    (hpending : ∀ p, b.asyncPending = some p → s.batches.asyncPending = some p) : Known { s with batches := b } where
  waiting := h.waiting
  listed q hq := by
    obtain ⟨i, x, hi, hx⟩ := Batches.mem_listed.mp hq
    exact h.listed q (Batches.mem_listed.mpr ⟨i, x, hslot i x hi, hreqs x q hx⟩)
  streaming := h.streaming
  claimed := h.claimed
  chunkedReq := h.chunkedReq
  rows p hp := h.rows p (hpending p hp)
  prev p hp := ⟨fun q hq => (h.prev p hp).1 q (hreqs _ q hq), (h.prev p hp).2⟩
  slots i x hi := h.slots i x (hslot i x hi)

theorem mem_update_of_subset {f : Nat → List Nat} {y : Nat} {l : List Nat} (hl : ∀ q ∈ l, q ∈ f y) {x q : Nat}
    (hq : q ∈ Function.update f y l x) : q ∈ f x := by
  by_cases hx : x = y
  · subst hx
    rw [Function.update_self] at hq
    exact hl q hq
  · rwa [Function.update_of_ne hx] at hq

theorem known_resolveAndProcess (h : Known s) {pending : Pending}
    (hreqs : ∀ q ∈ s.batches.reqs pending.batch, q < s.reqCount) (step : Step) :
    Known (resolveAndProcess cfg s pending step) := by
  unfold resolveAndProcess
  dsimp only
  split
  · exact h.cut (cut_handleBatchFailure cfg _ _)
  · exact h
  · have hsub : ∀ q ∈ (s.batches.reqs pending.batch).filter (fun q => !leftOver s q),
        q ∈ s.batches.reqs pending.batch :=
      fun q hq => (List.mem_filter.mp hq).1
    have h1 := (known_emitStreamOutput h pending.rows
      (((s.batches.reqs pending.batch).filter (leftOver s)).map fun q => (s.batches.req q).rid) step.yields).shrink
        (b := { s.batches with
          reqs := Function.update s.batches.reqs pending.batch
            ((s.batches.reqs pending.batch).filter fun q => !leftOver s q) })
        (fun x q hq => mem_update_of_subset hsub hq) (fun i x hi => by cases i <;> exact hi) fun p hp => hp
    exact known_processBatchResult h1 (fun q hq => hreqs q (hsub q hq)) _

theorem known_resolvePendingAsync (h : Known s) (step : Step) : Known (resolvePendingAsync cfg s step) := by
  unfold resolvePendingAsync
  split
  · exact h
  · next pending hp =>
    have hslot : s.batches.slot .pending = some pending.batch := by simp [Batches.slot, hp]
    have hreqs : ∀ q ∈ s.batches.reqs pending.batch, q < s.reqCount :=
      fun q hq => h.listed q (Batches.mem_listed.mpr ⟨.pending, _, hslot, hq⟩)
    have hflushed : Known { s with batches := { s.batches with asyncPending := none } } := by
      refine h.shrink (fun x q hq => hq) ?_ (fun p hp => nomatch hp)
      intro i x hi
      cases i with
      | pending => cases hi
      | _ => exact hi
    exact known_resolveAndProcess hflushed hreqs step

theorem known_dropStaleOverrun (h : Known s) : Known (dropStaleOverrun s) := by
  unfold dropStaleOverrun
  split
  · exact h
  · next b hb =>
    dsimp only
    split
    · exact h
    · refine h.shrink (fun x q hq => mem_update_of_subset (fun q hq => (List.mem_filter.mp hq).1) hq) ?_ fun p hp => hp
      intro i x hi
      cases i with
      | cur =>
        simp only [Batches.slot] at hi ⊢
        split at hi
        · cases hi
        · rw [hb]
          exact hi
      | _ => exact hi

theorem known_runBatch (h : Known s) (step : Step) : Known (runBatch cfg s step) := by
  unfold runBatch
  split
  · exact h
  · next b hb =>
    split
    · refine known_processBatchResult (known_emitStreamOutput h _ _ _) ?_ _
      exact fun q hq => h.listed q (Batches.mem_listed.mpr ⟨.cur, b, hb, hq⟩)
    · exact h.cut (cut_handleBatchFailure cfg _ _)

theorem known_runBatchLaunch (h : Known s) {b : Nat} (hb : s.batches.curBatch = some b) (ok : Bool) :
    Known (runBatchLaunch cfg s b ok) := by
  have hreqs : ∀ q ∈ s.batches.reqs b, q < s.reqCount :=
    fun q hq => h.listed q (Batches.mem_listed.mpr ⟨.cur, b, hb, hq⟩)
  have hold : ∀ i x, s.batches.slot i = some x → Function.update s.batches.reqs s.batchCount (s.batches.reqs b) x =
      s.batches.reqs x := by
    intro i x hi
    rw [Function.update_of_ne (Nat.ne_of_lt (h.slots i x hi))]
  unfold runBatchLaunch
  split
  · exact (h.cut (cut_handleBatchFailure cfg _ _)).atPhase (fun p hp => nomatch hp)
  · refine ⟨h.waiting, ?_, h.streaming, h.claimed, h.chunkedReq, ?_, ?_, ?_⟩
    · intro q hq
      obtain ⟨i, x, hi, hx⟩ := Batches.mem_listed.mp hq
      cases i with
      | pending =>
        cases hi
        dsimp only at hx
        rw [Function.update_self] at hx
        exact hreqs q hx
      | running =>
        dsimp only at hx
        rw [hold .running x hi] at hx
        exact h.listed q (Batches.mem_listed.mpr ⟨.running, x, hi, hx⟩)
      | cur =>
        dsimp only at hx
        rw [hold .cur x hi] at hx
        exact h.listed q (Batches.mem_listed.mpr ⟨.cur, x, hi, hx⟩)
      | last =>
        dsimp only at hx
        rw [hold .last x hi] at hx
        exact h.listed q (Batches.mem_listed.mpr ⟨.last, x, hi, hx⟩)
    · intro p hp
      cases hp
      exact hreqs
    · intro p hp
      cases hpending : s.batches.asyncPending with
      | none =>
        simp only [hpending] at hp
        cases hp
      | some prev =>
        simp only [hpending] at hp
        cases hp
        have hslot : s.batches.slot .pending = some p.batch := by simp [Batches.slot, hpending]
        refine ⟨?_, h.rows p hpending⟩
        intro q hq
        dsimp only at hq
        rw [hold .pending _ hslot] at hq
        exact h.listed q (Batches.mem_listed.mpr ⟨.pending, _, hslot, hq⟩)
    · intro i x hi
      cases i with
      | pending =>
        cases hi
        exact Nat.lt_succ_self _
      | running => exact Nat.lt_succ_of_lt (h.slots .running x hi)
      | cur => exact Nat.lt_succ_of_lt (h.slots .cur x hi)
      | last => exact Nat.lt_succ_of_lt (h.slots .last x hi)

theorem known_getNextBatchToRun (h : Known s) {u : Plan} (hu : u.Sound s) : Known (getNextBatchToRun s u) := by
  have hplaced : ∀ q ∈ u.placed, q < s.reqCount := fun q hq => h.held (hu.drawn q hq)
  have hbatch : ∀ b, u.batch = some b → ∀ q ∈ u.reqs b, q ∈ u.placed := by
    intro b hb q hq
    simp only [Plan.placed, Plan.batchReqs, hb, List.mem_append]
    exact .inr hq
  -- a batch shows what the plan puts in it, unless it is the snapshot, which shows what it had
  have hreqs : ∀ x q, q ∈ (getNextBatchToRun s u).batches.reqs x →
      q < s.reqCount ∨ (q ∈ u.reqs x ∧ some x ≠ s.batches.asyncPending.map (·.batch)) := by
    intro x q hq
    simp only [getNextBatchToRun] at hq
    split at hq
    · next hx => exact .inl (h.listed q (Batches.mem_listed.mpr ⟨.pending, x, hx.symm, hq⟩))
    · next hx => exact .inr ⟨hq, hx⟩
  refine ⟨?_, ?_, h.streaming, h.claimed, ?_, h.rows, ?_, ?_⟩
  · intro q hq
    exact hplaced q (List.mem_append_left _ (List.mem_append_left _ hq))
  · intro q hq
    obtain ⟨i, x, hi, hx⟩ := Batches.mem_listed.mp hq
    obtain hx | ⟨hx, hsnapshot⟩ := hreqs x q hx
    · exact hx
    · cases i with
      | running =>
        cases hi
        exact hplaced q (List.mem_append_left _ (List.mem_append_right _ hx))
      | cur => exact hplaced q (hbatch x hi q hx)
      | last => exact h.held (hu.last x hi q hx)
      | pending => exact absurd hi.symm hsnapshot
  · intro q hq
    exact hplaced q (List.mem_append_right _ (hu.chunkedReq q hq))
  · intro p hp
    cases hp
  · intro i x hi
    simp only [getNextBatchToRun]
    cases i with
    | running =>
      have hx : u.runningBatch = x := Option.some.inj hi
      omega
    | cur =>
      have hb : u.batch = some x := hi
      simp only [hb, Option.map_some, Option.getD_some]
      omega
    | last => exact Nat.lt_of_lt_of_le (h.slots .last x hi) (Nat.le_max_left _ _)
    | pending => exact Nat.lt_of_lt_of_le (h.slots .pending x hi) (Nat.le_max_left _ _)

theorem known_requeueRunningRequests (h : Known s) (refused : List Nat) : Known (requeueRunningRequests s refused) := by
  have hrunning : ∀ q ∈ retracted s, q < s.reqCount :=
    fun q hq => h.listed q (Batches.mem_listed.mpr ⟨.running, _, rfl, (List.mem_filter.mp hq).1⟩)
  refine ⟨?_, ?_, h.streaming, h.claimed, ?_, h.rows, ?_, ?_⟩
  · intro q hq
    obtain hq | hq := List.mem_append.mp hq
    · exact h.waiting q hq
    · exact hrunning q (List.mem_filter.mp hq).1
  · intro q hq
    obtain ⟨i, x, hi, hx⟩ := Batches.mem_listed.mp hq
    refine h.listed q (Batches.mem_listed.mpr ⟨i, x, ?_, mem_update_of_subset (fun q hq => by cases hq) hx⟩)
    cases i <;> exact hi
  · intro q hq
    dsimp only [requeueRunningRequests] at hq
    split at hq
    · exact h.chunkedReq q hq
    · cases hq
  · intro p hp
    obtain ⟨hreqs, hrows⟩ := h.prev p hp
    exact ⟨fun q hq => hreqs q (mem_update_of_subset (fun q hq => by cases hq) hq), hrows⟩
  · intro i x hi
    refine h.slots i x ?_
    cases i <;> exact hi

theorem cut_retractRunningRequests (cfg : Config) (s : State) (refused : List Nat) :
    Cut (((retracted s).filter (· ∈ refused)).map fun q => (s.batches.req q).rid) (requeueRunningRequests s refused)
      (retractRunningRequests cfg s refused) :=
  cut_foldl (fun s r => cut_fail cfg s r false) _ _

theorem known_retractRunningRequests (h : Known s) (refused : List Nat) :
    Known (retractRunningRequests cfg s refused) :=
  (known_requeueRunningRequests h refused).cut (cut_retractRunningRequests cfg s refused)

theorem known_create : Known State.create := by
  refine ⟨?_, ?_, ?_, ?_, ?_, ?_, ?_, ?_⟩
  · exact fun q hq => nomatch hq
  · intro q hq
    obtain ⟨i, x, _, hx⟩ := Batches.mem_listed.mp hq
    cases hx
  · exact fun q hq => nomatch hq
  · exact fun q hq => nomatch hq
  · exact fun q hq => nomatch hq
  · exact fun p hp => nomatch hp
  · exact fun p hp => nomatch hp
  · intro i x hi
    cases i <;> cases hi
    exact Nat.zero_lt_one

theorem known_step {e : Event} (h : Known s) (hu : Upstream s e) : Known (step cfg s e) := by
  refine step_rule h fun s' hf => ?_
  cases hf with
  | recv msgs _ _ => exact (h.recv (recvFrame_recvRequests cfg s msgs)).atPhase (fun p hp => nomatch hp)
  | takeDeferred order recvReqs _ =>
    have h1 : Known (takeDeferredRequestPayloads s order).1 := { h with }
    exact h1.atPhase (fun p hp => nomatch hp)
  | drainBuild answers _ => exact (admitRule_known cfg).drainBuild h answers
  | drainAdmission r answers _ => exact (admitRule_known cfg).drainAdmission h r answers
  | stage recvReqs _ =>
    rw [stage_backlog]
    exact { h with prev := fun p hp => nomatch hp }
  | reject payload _ _ _ => exact (h.cut (cut_fail cfg s _ _)).atPhase (fun p hp => nomatch hp)
  | process result answers payload _ _ =>
    exact ((admitRule_known cfg).processInputRequest h payload result answers).atPhase (fun p hp => nomatch hp)
  | admitted _ | pausedAgain _ => exact h.atPhase (fun p hp => nomatch hp)
  | upstreamAbort r => exact h.cut (cut_fail cfg _ _ _)
  | plan u _ => exact known_getNextBatchToRun h hu
  | launch ok b _ hb _ => exact known_runBatchLaunch h hb ok
  | resolve step prev hphase =>
    exact (known_resolveAndProcess h (h.prev prev hphase).1 step).atPhase (fun p hp => nomatch hp)
  | run step flushed _ _ =>
    refine (known_runBatch ?_ step).atPhase (fun p hp => nomatch hp)
    cases flushed
    · exact h
    · exact known_dropStaleOverrun h
  | flush step _ _ => exact known_resolvePendingAsync h step
  | flushPlanned step _ _ => exact (known_resolvePendingAsync h step).atPhase (fun p hp => nomatch hp)
  | finish _ =>
    refine ⟨h.waiting, ?_, h.streaming, h.claimed, h.chunkedReq, h.rows, (fun p hp => nomatch hp), ?_⟩
    · intro q hq
      obtain ⟨i, x, hi, hx⟩ := Batches.mem_listed.mp hq
      cases i with
      | last => exact h.listed q (Batches.mem_listed.mpr ⟨.cur, x, hi, hx⟩)
      | running => exact h.listed q (Batches.mem_listed.mpr ⟨.running, x, hi, hx⟩)
      | cur => exact h.listed q (Batches.mem_listed.mpr ⟨.cur, x, hi, hx⟩)
      | pending => exact h.listed q (Batches.mem_listed.mpr ⟨.pending, x, hi, hx⟩)
    · intro i x hi
      cases i with
      | last => exact h.slots .cur x hi
      | running => exact h.slots .running x hi
      | cur => exact h.slots .cur x hi
      | pending => exact h.slots .pending x hi
  | streamOutput _ => exact known_streamOutput h
  | terminalOutput yields ok => exact known_terminalOutput h yields ok
  | pause paused => exact { h with }
  | abortAll => exact h.cut (cut_abortAllRequests s)
  | retract refused _ => exact known_retractRunningRequests h refused
  | buildDone r result build _ => exact { h with }
  | stageAbort r => exact { h.cut (cut_abort s r true) with }

end Scheduler

end SglangOmni.Scheduling
