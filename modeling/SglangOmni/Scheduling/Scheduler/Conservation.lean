import SglangOmni.Scheduling.Scheduler.Frames

/-! Admission conserves requests.

Without aborts, failed builds and deferred admissions every payload that was received is in
one place: in the hands of `process_input_requests`, in the backlog, in a pending build,
past the waiting queue, or rejected. What is not rejected keeps its order throughout
(`order`), because a payload is selected out of its turn only when nothing is left in the
backlog. -/
namespace SglangOmni.Scheduling.Scheduler
open Lib

variable {cfg : Config} {s : State} {limit : Nat} {payload : Payload} {s' : State}

/-! ### The queue limit -/

theorem count_abort (s : State) (r : String) (d : Bool) :
    queuedAdmissionCount (abort s r d) ≤ queuedAdmissionCount s := by
  have hwaiting : (abort s r d).waiting.length ≤ s.waiting.length := List.length_filter_le _ _
  have hbacklog : (abort s r d).backlog.length ≤ s.backlog.length := List.length_filter_le _ _
  have hbuilds : (abort s r d).builds.length ≤ s.builds.length := Dict.length_pop_le _ _
  have hadmissions : (abort s r d).admissions.length ≤ s.admissions.length := Dict.length_pop_le _ _
  have hdeferred : (abort s r d).deferred.length ≤ s.deferred.length := Dict.length_pop_le _ _
  unfold queuedAdmissionCount
  omega

theorem count_fail (cfg : Config) (s : State) (r : String) (d : Bool) :
    queuedAdmissionCount (fail cfg s r d) ≤ queuedAdmissionCount s := by
  have hemit : queuedAdmissionCount (emitRequestError cfg s r) = queuedAdmissionCount s := by
    unfold emitRequestError
    split <;> rfl
  rw [← hemit]
  exact count_abort _ r d

theorem count_pop_deferred (s : State) (r : String) :
    queuedAdmissionCount { s with deferred := s.deferred.pop r } ≤ queuedAdmissionCount s := by
  have := Dict.length_pop_le s.deferred r
  simp only [queuedAdmissionCount]
  omega

theorem count_enqueueBuiltRequest (s : State) (payload : Payload) (done : Bool) (value : Built) (answers : Answers) :
    queuedAdmissionCount (enqueueBuiltRequest cfg s payload done value answers) ≤ queuedAdmissionCount s + 1 := by
  have hpop := count_pop_deferred s payload.requestId
  unfold enqueueBuiltRequest
  dsimp only
  split
  · have := count_fail cfg { s with deferred := s.deferred.pop payload.requestId } payload.requestId true
    omega
  · split
    · exact Nat.le_succ_of_le hpop
    · split
      · refine Nat.le_succ_of_le (Nat.le_trans (count_fail cfg _ _ _) ?_)
        exact hpop
      · simp only [queuedAdmissionCount, enqueue, List.length_append, List.length_singleton] at hpop ⊢
        omega

theorem count_admitOrDefer (cfg : Config) (s : State) (payload : Payload) (done : Bool) (result : BuildResult)
    (answers : Answers) :
    queuedAdmissionCount (admitOrDeferBuiltRequest cfg s payload done result answers) ≤ queuedAdmissionCount s + 1 := by
  unfold admitOrDeferBuiltRequest
  cases result with
  | failed => exact Nat.le_succ_of_le (count_fail cfg _ _ _)
  | built value => exact count_enqueueBuiltRequest s payload done value answers
  | deferred value =>
    dsimp only
    split
    · exact Nat.le_succ _
    · split
      · have := Dict.length_set_le s.admissions payload.requestId ⟨payload, done, value⟩
        simp only [queuedAdmissionCount]
        omega
      · exact Nat.le_succ_of_le (count_fail cfg _ _ _)
      · exact count_enqueueBuiltRequest s payload done value answers

theorem count_pop_build {s : State} {r : String} (hmem : r ∈ s.builds.keys) :
    queuedAdmissionCount { s with builds := s.builds.pop r } < queuedAdmissionCount s := by
  have := Dict.length_pop_lt hmem
  simp only [queuedAdmissionCount]
  omega

theorem count_pop_admission {s : State} {r : String} (hmem : r ∈ s.admissions.keys) :
    queuedAdmissionCount { s with admissions := s.admissions.pop r } < queuedAdmissionCount s := by
  have := Dict.length_pop_lt hmem
  simp only [queuedAdmissionCount]
  omega

/-- A build leaves its table before its request enters another. -/
theorem count_drainBuild (s : State) (answers : Answers) :
    queuedAdmissionCount (drainRequestBuildResult cfg s answers) ≤ queuedAdmissionCount s := by
  unfold drainRequestBuildResult
  split
  · exact Nat.le_refl _
  · next r build rest hentries =>
    split
    · exact Nat.le_refl _
    · have hpop := count_pop_build (s := s) (r := r) (by simp [Dict.keys, hentries])
      dsimp only
      split
      · exact Nat.le_of_lt hpop
      · exact Nat.le_trans (count_admitOrDefer cfg _ _ _ _ _) hpop

theorem count_drainAdmission (s : State) (r : String) (answers : Answers) :
    queuedAdmissionCount (drainRequestAdmissionResult cfg s r answers) ≤ queuedAdmissionCount s := by
  unfold drainRequestAdmissionResult
  split
  · exact Nat.le_refl _
  · next pending hpending =>
    split
    · exact Nat.le_refl _
    · have hpop := count_pop_admission ((Dict.mem_keys _ _).mpr ⟨_, hpending⟩)
      dsimp only
      split
      · exact Nat.le_of_lt hpop
      · exact Nat.le_trans (count_admitOrDefer cfg _ _ _ _ _) hpop

theorem count_prefetch (s : State) (payload : Payload) :
    queuedAdmissionCount (prefetch s payload).1 = queuedAdmissionCount s := by
  unfold prefetch
  dsimp only
  split <;> rfl

theorem count_processInputRequest (hlimit : cfg.maxQueuedRequests = some limit) (s : State)
    (payload : Payload) (result : BuildResult) (answers : Answers) :
    queuedAdmissionCount (processInputRequest cfg s payload result answers) ≤ max limit (queuedAdmissionCount s) := by
  have hprefetch := count_prefetch s payload
  unfold processInputRequest
  dsimp only
  split
  · exact Nat.le_max_right _ _
  · split
    · exact Nat.le_trans (count_fail cfg _ _ _) (Nat.le_max_right _ _)
    · next hfull =>
      have hroom : queuedAdmissionCount s < limit := by simpa [waitingQueueIsFull, hlimit] using hfull
      split
      · have := Dict.length_set_le (prefetch s payload).1.deferred payload.requestId (prefetch s payload).2
        simp only [queuedAdmissionCount] at hprefetch hroom ⊢
        omega
      · split
        · have := Dict.length_set_le (prefetch s payload).1.builds payload.requestId
            ⟨(prefetch s payload).2, (prefetch s payload).2.prefetchedStreamDone, none⟩
          simp only [queuedAdmissionCount] at hprefetch hroom ⊢
          omega
        · have := count_admitOrDefer cfg (prefetch s payload).1 (prefetch s payload).2
            (prefetch s payload).2.prefetchedStreamDone result answers
          omega

theorem length_takeBacklog (s : State) (capacity : Nat) (backlog : List Payload) :
    (takeBacklog s capacity backlog).1.length + (takeBacklog s capacity backlog).2.length ≤ backlog.length := by
  fun_induction takeBacklog s capacity backlog with
  | case1 backlog => simp
  | case2 capacity _ => simp
  | case3 capacity payload backlog _ ih =>
    simp only [List.length_cons]
    omega
  | case4 capacity payload backlog _ rest ih =>
    simp only [List.length_cons, rest]
    omega

section
variable (hlimit : cfg.maxQueuedRequests = some limit)
include hlimit

/-- `used` is what it says, and it grows only below the limit. -/
theorem used_stageOne (maxPending base : Nat)
    (acc : Staging) (payload : Payload) (hused : acc.used = base + acc.selected.length + acc.backlog.length) :
    let acc' := stageOne cfg maxPending s acc payload
    acc'.used = base + acc'.selected.length + acc'.backlog.length ∧ acc'.used ≤ max limit acc.used := by
  unfold stageOne
  dsimp only
  split
  · exact ⟨hused, Nat.le_max_right _ _⟩
  · split
    · exact ⟨hused, Nat.le_max_right _ _⟩
    · next hroom =>
      have hroom : acc.used < limit := by simpa [hlimit] using hroom
      split
      · simp only [List.length_append, List.length_singleton]
        omega
      · split
        · exact ⟨hused, Nat.le_max_right _ _⟩
        · simp only [List.length_append, List.length_singleton]
          omega

theorem used_foldl (maxPending base : Nat)
    (recvReqs : List Payload) (acc : Staging) (hused : acc.used = base + acc.selected.length + acc.backlog.length) :
    let acc' := recvReqs.foldl (stageOne cfg maxPending s) acc
    acc'.used = base + acc'.selected.length + acc'.backlog.length ∧ acc'.used ≤ max limit acc.used := by
  induction recvReqs generalizing acc with
  | nil => exact ⟨hused, Nat.le_max_right _ _⟩
  | cons payload rest ih =>
    obtain ⟨hone, hle⟩ := used_stageOne (s := s) hlimit maxPending base acc payload hused
    obtain ⟨hrest, hle'⟩ := ih _ hone
    refine ⟨hrest, ?_⟩
    simp only [List.foldl_cons]
    omega

theorem count_stage (s : State) (recvReqs : List Payload) :
    queuedAdmissionCount (stageRequestBuildPayloads cfg s recvReqs).1 ≤ max limit (queuedAdmissionCount s) := by
  unfold stageRequestBuildPayloads
  split
  · exact Nat.le_max_right _ _
  · next maxPending _ =>
    split
    · simp only [queuedAdmissionCount, List.length_nil]
      omega
    · have htake := length_takeBacklog s (maxPending - s.builds.length) s.backlog
      have hstart : (stagingStart maxPending s).used =
          s.waiting.length + s.builds.length + s.admissions.length + s.deferred.length +
            (stagingStart maxPending s).selected.length + (stagingStart maxPending s).backlog.length := by
        simp only [stagingStart, queuedAdmissionCount]
        omega
      have hbefore : (stagingStart maxPending s).used ≤ queuedAdmissionCount s := by
        simp only [stagingStart, queuedAdmissionCount]
        omega
      obtain ⟨hused, hle⟩ := used_foldl (s := s) hlimit maxPending _ recvReqs _ hstart
      simp only [staged, queuedAdmissionCount] at hused hle hbefore ⊢
      omega

end

/-- The steps of `process_input_requests`, and the builds that complete beside it. -/
def Event.admits : Event → Bool
  | .drainBuild _ | .drainAdmission _ _ | .stage | .reject | .process _ _ | .admitted | .buildDone _ _ => true
  | _ => false

theorem count_step (hlimit : cfg.maxQueuedRequests = some limit) (s : State) {e : Event}
    (he : e.admits = true) : queuedAdmissionCount (step cfg s e) ≤ max limit (queuedAdmissionCount s) := by
  have hsame : queuedAdmissionCount s ≤ max limit (queuedAdmissionCount s) := Nat.le_max_right _ _
  refine step_rule (P := fun s' => queuedAdmissionCount s' ≤ max limit (queuedAdmissionCount s)) hsame fun s' hf => ?_
  cases hf with
  | drainBuild answers _ => exact Nat.le_trans (count_drainBuild s answers) hsame
  | drainAdmission r answers _ => exact Nat.le_trans (count_drainAdmission s r answers) hsame
  | stage recvReqs _ => exact count_stage hlimit s _
  | reject payload _ _ _ => exact Nat.le_trans (count_fail cfg s _ true) hsame
  | process result answers payload _ _ => exact count_processInputRequest hlimit s payload result answers
  | admitted _ => exact hsame
  | buildDone r result build hbuild =>
    have hmem : r ∈ s.builds.keys := (Dict.mem_keys _ _).mpr ⟨_, hbuild⟩
    have hlength : (s.builds.set r { build with future := some result }).length = s.builds.length := by
      simp only [Dict.length_eq_keys, Dict.keys_set_of_mem hmem]
    simp only [queuedAdmissionCount] at hsame ⊢
    omega
  | _ => cases he

/-- However far `process_input_requests` goes, it does not take the count past the limit. -/
theorem count_run (hlimit : cfg.maxQueuedRequests = some limit) (s : State) {es : List Event}
    (hes : ∀ e ∈ es, e.admits = true) :
    queuedAdmissionCount (Lib.run (step cfg) s es) ≤ max limit (queuedAdmissionCount s) := by
  induction es generalizing s with
  | nil => exact Nat.le_max_right _ _
  | cons e rest ih =>
    have hfirst := count_step hlimit s (hes e List.mem_cons_self)
    have hrest := ih (step cfg s e) fun x hx => hes x (List.mem_cons_of_mem _ hx)
    simp only [Lib.run]
    omega

/-! ### Received, rejected, and in line -/

/-- The ids `ids` fall apart in `out`, those that left, and `line`, the others in their order. -/
structure Split (ids out line : List String) : Prop where
  nodup : ids.Nodup
  out_nodup : out.Nodup
  out_mem : ∀ r ∈ out, r ∈ ids
  inLine : ids.filter (· ∉ out) = line

namespace Split

variable {ids out line a b : List String} {r : String}

theorem line_nodup (h : Split ids out line) : line.Nodup := h.inLine ▸ h.nodup.filter _

theorem mem_line (h : Split ids out line) : r ∈ line ↔ r ∈ ids ∧ r ∉ out := by
  rw [← h.inLine, List.mem_filter, decide_eq_true_eq]

/-- Some at the end of the line leave it. -/
theorem leaves {gone : List String} (h : Split ids out (a ++ b)) (hgone : gone.Sublist b) :
    Split ids (out ++ gone) (a ++ b.filter (· ∉ gone)) := by
  have hnodup := h.line_nodup
  obtain ⟨ha, hb, hab⟩ := List.nodup_append.mp hnodup
  refine ⟨h.nodup, ?_, ?_, ?_⟩
  · refine List.Nodup.append h.out_nodup (hb.sublist hgone) ?_
    intro x hx hy
    exact (h.mem_line.mp (List.mem_append_right a (hgone.subset hy))).2 hx
  · intro x hx
    obtain hx | hx := List.mem_append.mp hx
    · exact h.out_mem x hx
    · exact (h.mem_line.mp (List.mem_append_right a (hgone.subset hx))).1
  · have hfilter : ids.filter (· ∉ out ++ gone) = (ids.filter (· ∉ out)).filter (· ∉ gone) := by
      rw [List.filter_filter]
      refine List.filter_congr fun x _ => ?_
      simp [Bool.and_comm]
    have hleft : ∀ x ∈ a, x ∉ gone := fun x hx hg => hab x hx x (hgone.subset hg) rfl
    rw [hfilter, h.inLine, List.filter_append, List.filter_eq_self.mpr (by simpa using hleft)]

/-- One in the line leaves it. -/
theorem leave (h : Split ids out (a ++ r :: b)) : Split ids (out ++ [r]) (a ++ b) := by
  have hrest : ∀ x ∈ b, x ≠ r := by
    obtain ⟨_, hb, _⟩ := List.nodup_append.mp h.line_nodup
    intro x hx hxr
    exact (List.nodup_cons.mp hb).1 (hxr ▸ hx)
  have hgone := h.leaves (List.singleton_sublist.mpr List.mem_cons_self)
  rwa [List.filter_cons_of_neg (by simp), List.filter_eq_self.mpr (by simpa using hrest)] at hgone

/-- New ones queue up at the end. -/
theorem arrive {new : List String} (h : Split ids out line) (hnew : (ids ++ new).Nodup) :
    Split (ids ++ new) out (line ++ new) := by
  obtain ⟨_, _, hdisjoint⟩ := List.nodup_append.mp hnew
  refine ⟨hnew, h.out_nodup, fun r hr => List.mem_append_left _ (h.out_mem r hr), ?_⟩
  have hfresh : ∀ x ∈ new, x ∉ out := fun x hx ho => hdisjoint x (h.out_mem x ho) x hx rfl
  rw [List.filter_append, h.inLine, List.filter_eq_self.mpr (by simpa using hfresh)]

/-- Each has one place. -/
theorem count_eq_one (h : Split ids out line) (hr : r ∈ ids) : (out ++ line).count r = 1 := by
  have hnodup : (out ++ line).Nodup := by
    refine List.Nodup.append h.out_nodup h.line_nodup ?_
    intro x hx hy
    exact (h.mem_line.mp hy).2 hx
  refine List.count_eq_one_of_mem hnodup ?_
  by_cases ho : r ∈ out
  · exact List.mem_append_left _ ho
  · exact List.mem_append_right _ (h.mem_line.mpr ⟨hr, ho⟩)

end Split

/-! ### Staging -/

def ids (payloads : List Payload) : List String := payloads.map (·.requestId)

@[simp] theorem ids_append (a b : List Payload) : ids (a ++ b) = ids a ++ ids b := List.map_append

@[simp] theorem ids_cons (p : Payload) (l : List Payload) : ids (p :: l) = p.requestId :: ids l := rfl

/-- Nothing in the backlog is under way already, so it is taken from the front. -/
theorem takeBacklog_eq (s : State) (capacity : Nat) (backlog : List Payload)
    (h : ∀ r ∈ ids backlog, inProgress s r = false) :
    takeBacklog s capacity backlog = (backlog.take capacity, backlog.drop capacity) := by
  fun_induction takeBacklog s capacity backlog with
  | case1 backlog => rfl
  | case2 capacity _ => simp
  | case3 capacity payload backlog hskip _ =>
    rw [h payload.requestId List.mem_cons_self] at hskip
    cases hskip
  | case4 capacity payload backlog _ rest ih =>
    have hrest := ih fun r hr => h r (List.mem_cons_of_mem _ hr)
    simp only [rest, hrest, List.take_succ_cons, List.drop_succ_cons]

/-- Staging after some of the payloads: what is not rejected is selected or in the backlog, in the
order it came; and nothing waits in the backlog while a build could start. -/
structure Staged (capacity : Nat) (queue : List Payload) (acc : Staging) : Prop where
  order : ids (acc.selected ++ acc.backlog) = (ids queue).filter (· ∉ ids acc.rejected)
  room : acc.selected.length + acc.capacity = capacity
  first : 0 < acc.capacity → acc.backlog = []
  backlogIds : acc.backlogIds = ids acc.backlog
  rejected : (ids acc.rejected).Sublist (ids queue)

theorem staged_start (maxPending : Nat) (h : ∀ r ∈ ids s.backlog, inProgress s r = false)
    (hnodup : (ids s.backlog).Nodup) :
    Staged (maxPending - s.builds.length) s.backlog (stagingStart maxPending s) := by
  have htake := takeBacklog_eq s (maxPending - s.builds.length) s.backlog h
  simp only [stagingStart, htake]
  generalize maxPending - s.builds.length = capacity
  refine ⟨?_, ?_, ?_, ?_, ?_⟩
  · simp [ids]
  · simp only [List.length_take]
    omega
  · intro hroom
    simp only [List.length_take] at hroom
    exact List.drop_eq_nil_of_le (by omega)
  · have hpopped : s.backlog.take (s.backlog.length - (s.backlog.drop capacity).length) = s.backlog.take capacity := by
      rw [List.length_drop]
      by_cases hle : capacity ≤ s.backlog.length
      · rw [Nat.sub_sub_self hle]
      · rw [List.take_of_length_le (by omega), List.take_of_length_le (by omega)]
    have hsplit : ids s.backlog = ids (s.backlog.take capacity) ++ ids (s.backlog.drop capacity) := by
      rw [← ids_append, List.take_append_drop]
    rw [hsplit] at hnodup
    obtain ⟨_, _, hdisjoint⟩ := List.nodup_append.mp hnodup
    have hright : ∀ x ∈ ids (s.backlog.drop capacity), x ∉ ids (s.backlog.take capacity) :=
      fun x hx ht => hdisjoint x ht x hx rfl
    rw [hpopped]
    show (ids s.backlog).filter (· ∉ ids (s.backlog.take capacity)) = ids (s.backlog.drop capacity)
    rw [hsplit, List.filter_append, List.filter_eq_nil_iff.mpr (by simp), List.nil_append]
    exact List.filter_eq_self.mpr (by simpa using hright)
  · exact List.nil_sublist _

theorem staged_stageOne (cfg : Config) (maxPending : Nat) {capacity : Nat} {queue : List Payload} {acc : Staging}
    (h : Staged capacity queue acc) (hfresh : payload.requestId ∉ ids queue)
    (hprogress : inProgress s payload.requestId = false) :
    Staged capacity (queue ++ [payload]) (stageOne cfg maxPending s acc payload) := by
  have hplaced : ∀ r ∈ ids (acc.selected ++ acc.backlog), r ∈ ids queue := by
    intro r hr
    rw [h.order] at hr
    exact (List.mem_filter.mp hr).1
  have hselected : payload.requestId ∉ acc.selected.map (·.requestId) :=
    fun hr => hfresh (hplaced _ (by rw [ids_append]; exact List.mem_append_left _ hr))
  have hbacklog : payload.requestId ∉ acc.backlogIds := by
    rw [h.backlogIds]
    exact fun hr => hfresh (hplaced _ (by rw [ids_append]; exact List.mem_append_right _ hr))
  have hkept : payload.requestId ∉ ids acc.rejected := fun hr => hfresh (h.rejected.subset hr)
  have hgrows : ids (queue ++ [payload]) = ids queue ++ [payload.requestId] := by simp [ids]
  -- a payload that is kept is at the end of the line, a rejected one is taken out of it
  have hkeep : (ids (queue ++ [payload])).filter (· ∉ ids acc.rejected) =
      ids (acc.selected ++ acc.backlog) ++ [payload.requestId] := by
    rw [hgrows, List.filter_append, ← h.order, List.filter_cons_of_pos (by simpa using hkept), List.filter_nil]
  have hreject : (ids (queue ++ [payload])).filter (· ∉ ids (acc.rejected ++ [payload])) =
      ids (acc.selected ++ acc.backlog) := by
    have hcongr : (ids queue).filter (· ∉ ids (acc.rejected ++ [payload])) =
        (ids queue).filter (· ∉ ids acc.rejected) := by
      refine List.filter_congr fun x hx => ?_
      have hne : x ≠ payload.requestId := fun hxr => hfresh (hxr ▸ hx)
      simp [hne, ids]
    rw [hgrows, List.filter_append, hcongr, ← h.order, List.filter_cons_of_neg (by simp [ids]), List.filter_nil,
      List.append_nil]
  have hsub : (ids acc.rejected).Sublist (ids (queue ++ [payload])) := by
    rw [hgrows]
    exact h.rejected.trans (List.sublist_append_left _ _)
  have hsub' : (ids (acc.rejected ++ [payload])).Sublist (ids (queue ++ [payload])) := by
    rw [hgrows, ids_append]
    exact h.rejected.append (List.Sublist.refl _)
  unfold stageOne
  dsimp only
  rw [if_neg (by simp [hprogress, hselected, hbacklog])]
  split
  · exact ⟨hreject.symm, h.room, h.first, h.backlogIds, hsub'⟩
  · split
    · next hroom =>
      have hempty := h.first hroom
      refine ⟨?_, ?_, fun _ => hempty, h.backlogIds, hsub⟩
      · rw [hkeep, hempty]
        simp [ids]
      · have := h.room
        simp only [List.length_append, List.length_singleton]
        omega
    · next hroom =>
      split
      · exact ⟨hreject.symm, h.room, h.first, h.backlogIds, hsub'⟩
      · refine ⟨?_, h.room, fun hpos => absurd hpos hroom, ?_, hsub⟩
        · rw [hkeep]
          simp [ids]
        · simp [ids, h.backlogIds]

theorem staged_foldl (cfg : Config) (maxPending : Nat) {capacity : Nat} (recvReqs : List Payload) {queue : List Payload}
    {acc : Staging}
    (h : Staged capacity queue acc) (hnodup : (ids (queue ++ recvReqs)).Nodup)
    (hprogress : ∀ r ∈ ids recvReqs, inProgress s r = false) :
    Staged capacity (queue ++ recvReqs) (recvReqs.foldl (stageOne cfg maxPending s) acc) := by
  induction recvReqs generalizing queue acc with
  | nil => simpa using h
  | cons payload rest ih =>
    have hfresh : payload.requestId ∉ ids queue := by
      rw [ids_append, ids_cons] at hnodup
      intro hr
      exact (List.nodup_append.mp hnodup).2.2 _ hr _ List.mem_cons_self rfl
    have hone := staged_stageOne cfg maxPending h hfresh (hprogress payload.requestId List.mem_cons_self)
    have hrest := ih hone (by simpa using hnodup) fun r hr => hprogress r (List.mem_cons_of_mem _ hr)
    simpa using hrest

/-! ### Places -/

/-- The new requests among some messages. -/
def newIds (msgs : List IncomingMessage) : List String :=
  msgs.filterMap fun m => if m.input = .newRequest then some m.requestId else none

/-- The requests that were put in the waiting queue, in their order. -/
def entered (s : State) : List String := (List.range s.reqCount).map fun q => (s.batches.req q).rid

def errors (s : State) : List String := (s.outbox.filter fun m => m.kind = .error).map (·.requestId)

/-- The requests that were reported without ever being queued: the rejected ones. -/
def reported (s : State) : List String := (errors s).filter (· ∉ entered s)

/-- What `process_input_requests` has yet to reject. -/
def Phase.rejecting : Phase → List String
  | .admitting rejected _ => ids rejected
  | _ => []

/-- What it has yet to start building. -/
def Phase.selected : Phase → List String
  | .admitting _ selected => ids selected
  | _ => []

/-- What it has yet to stage. -/
def Phase.recvReqs : Phase → List String
  | .received recvReqs | .taken recvReqs => ids recvReqs
  | _ => []

/-- Where the received payloads are: `leaving` is about to be reported, `entering` to be queued, and
the payloads in hand are those of `phase`. -/
structure Parts (maxPending : Nat) (phase : Phase) (leaving entering : List String) (s : State) : Prop where
  split :
    Split (newIds s.received) (reported s ++ (leaving ++ phase.rejecting))
      (entered s ++ (entering ++ (s.builds.keys ++ (phase.selected ++ (ids s.backlog ++ phase.recvReqs)))))
  aborted : ∀ r ∈ s.aborted, r ∈ reported s
  deferred : s.deferred.keys = []
  dirty : s.dirty = []
  admissions : s.admissions.keys = []
  room : s.builds.length + phase.selected.length ≤ maxPending
  payload : ∀ r build, s.builds.get? r = some build → build.payload.requestId = r
  built : ∀ r build result, s.builds.get? r = some build → build.future = some result → ∃ value, result = .built value

def Conserved (maxPending : Nat) (s : State) : Prop := Parts maxPending s.phase [] [] s

theorem entered_congr (hcount : s'.reqCount = s.reqCount)
    (hrid : ∀ q, (s'.batches.req q).rid = (s.batches.req q).rid) : entered s' = entered s := by
  simp only [entered, hcount, hrid]

theorem mem_entered {q : Nat} (hq : q < s.reqCount) : (s.batches.req q).rid ∈ entered s :=
  List.mem_map.mpr ⟨q, List.mem_range.mpr hq, rfl⟩

/-- Messages that are errors of queued requests only report nothing. -/
theorem reported_append {msgs : List OutgoingMessage} (houtbox : s'.outbox = s.outbox ++ msgs)
    (hentered : entered s' = entered s) (hmsgs : ∀ m ∈ msgs, m.kind = .error → m.requestId ∈ entered s) :
    reported s' = reported s := by
  have hnew : ((msgs.filter fun m => m.kind = .error).map (·.requestId)).filter (· ∉ entered s) = [] := by
    refine List.filter_eq_nil_iff.mpr ?_
    intro r hr
    obtain ⟨m, hm, rfl⟩ := List.mem_map.mp hr
    obtain ⟨hmem, hkind⟩ := List.mem_filter.mp hm
    have hq := hmsgs m hmem (by simpa using hkind)
    simpa using hq
  simp only [reported, errors, houtbox, hentered, List.filter_append, List.map_append, hnew, List.append_nil]

variable {maxPending : Nat} {phase phase' : Phase} {leaving entering : List String}

/-- A step that leaves the tables alone, reports nothing and has the same payloads in hand. -/
theorem Parts.frame (h : Parts maxPending phase leaving entering s)
    (ht : SameTables s s') (hreported : reported s' = reported s) (hrejecting : phase'.rejecting = phase.rejecting)
    (hselected : phase'.selected = phase.selected) (hrecv : phase'.recvReqs = phase.recvReqs) :
    Parts maxPending phase' leaving entering s' where
  split := by
    rw [ht.received, hreported, hrejecting, entered_congr ht.reqCount ht.rid, ht.builds, ht.backlog, hselected, hrecv]
    exact h.split
  aborted := by
    rw [ht.aborted, hreported]
    exact h.aborted
  deferred := by rw [ht.deferred, h.deferred]
  dirty := by rw [ht.dirty, h.dirty]
  admissions := by rw [ht.admissions, h.admissions]
  room := by
    rw [ht.builds, hselected]
    exact h.room
  payload := by
    rw [ht.builds]
    exact h.payload
  built := by
    rw [ht.builds]
    exact h.built

/-! ### Rejection -/

theorem entered_cut {rs : List String} (hcut : Cut rs s s') : entered s' = entered s :=
  entered_congr hcut.reqCount hcut.rid

theorem outbox_fail (hentry : cfg.isEntryRank = true) (s : State) (r : String) (d : Bool) :
    (fail cfg s r d).outbox = s.outbox ++ [⟨r, .error⟩] := by
  simp only [fail, emitRequestError, hentry, if_true]
  rfl

theorem reported_fail (hentry : cfg.isEntryRank = true) {r : String} (d : Bool) (hr : r ∉ entered s) :
    reported (fail cfg s r d) = reported s ++ [r] := by
  have hentered : entered (fail cfg s r d) = entered s := entered_cut (cut_fail cfg s r d)
  simp only [reported, errors, hentered, outbox_fail hentry s r d, List.filter_append, List.map_append]
  simp [hr]

/-- The tables after a failure of a request that is in none of them. -/
theorem tables_fail (cfg : Config) {r : String} (d : Bool) (hbuilds : r ∉ s.builds.keys) (hbacklog : r ∉ ids s.backlog)
    (hdeferred : r ∉ s.deferred.keys) (hadmissions : r ∉ s.admissions.keys) :
    (fail cfg s r d).builds = s.builds ∧ (fail cfg s r d).backlog = s.backlog ∧
      (fail cfg s r d).deferred = s.deferred ∧ (fail cfg s r d).admissions = s.admissions ∧
      (fail cfg s r d).dirty = s.dirty.filter (· ≠ r) ∧ (fail cfg s r d).aborted = recordAborted s.aborted r := by
  have hkept : s.backlog.filter (fun p => p.requestId ≠ r) = s.backlog := by
    refine List.filter_eq_self.mpr ?_
    intro p hp
    have hne : p.requestId ≠ r := fun hr => hbacklog (hr ▸ List.mem_map_of_mem hp)
    simpa using hne
  simp only [fail, abort]
  unfold emitRequestError
  split <;>
    simp only [Dict.pop_eq_self hbuilds, Dict.pop_eq_self hdeferred, Dict.pop_eq_self hadmissions, hkept, and_self]

/-- A request that is about to be reported is. -/
theorem Parts.fail {r : String} (hentry : cfg.isEntryRank = true)
    (h : Parts maxPending phase [r] entering s) (d : Bool) :
    Parts maxPending phase [] entering (fail cfg s r d) := by
  have hcut := cut_fail cfg s r d
  have hout : r ∉ entered s ++ (entering ++ (s.builds.keys ++ (phase.selected ++ (ids s.backlog ++ phase.recvReqs)))) :=
    fun hr => (h.split.mem_line.mp hr).2 (by simp)
  simp only [List.mem_append, not_or] at hout
  obtain ⟨hentered, _, hbuilds, _, hbacklog, _⟩ := hout
  obtain ⟨hb, hl, hd, ha, hdirty, haborted⟩ := tables_fail cfg d hbuilds hbacklog
    (by rw [h.deferred]; exact List.not_mem_nil) (by rw [h.admissions]; exact List.not_mem_nil)
  have hreported := reported_fail hentry d hentered
  refine ⟨?_, ?_, ?_, ?_, ?_, ?_, ?_, ?_⟩
  · rw [hcut.received, hreported, entered_cut hcut, hb, hl, List.append_assoc]
    exact h.split
  · intro x hx
    rw [haborted] at hx
    rw [hreported]
    obtain hx | rfl := mem_recordAborted hx
    · exact List.mem_append_left _ (h.aborted x hx)
    · exact List.mem_append_right _ (List.mem_singleton.mpr rfl)
  · rw [hd, h.deferred]
  · rw [hdirty, h.dirty]
    rfl
  · rw [ha, h.admissions]
  · rw [hb]
    exact h.room
  · rw [hb]
    exact h.payload
  · rw [hb]
    exact h.built

/-- A request that was about to be queued is about to be reported. -/
theorem Parts.leave {r : String} (h : Parts maxPending phase [] [r] s) (hphase : phase.rejecting = []) :
    Parts maxPending phase [r] [] s := by
  refine { h with split := ?_ }
  have hsplit := h.split
  rw [hphase, List.append_nil, List.append_nil] at hsplit
  have hleft := hsplit.leave (a := entered s) (r := r)
  rwa [hphase, List.append_nil]

/-! ### Building -/

theorem entered_enqueue (s : State) (r : String) (handed : List Handed) :
    entered (enqueue s r handed) = entered s ++ [r] := by
  have hold : ∀ q ∈ List.range s.reqCount, ((enqueue s r handed).batches.req q).rid = (s.batches.req q).rid := by
    intro q hq
    have hne : q ≠ s.reqCount := Nat.ne_of_lt (List.mem_range.mp hq)
    simp only [enqueue, Batches.setReq, Function.update_of_ne hne]
  have hnew : ((enqueue s r handed).batches.req s.reqCount).rid = r := by
    simp [enqueue, Batches.setReq]
  have hcount : (enqueue s r handed).reqCount = s.reqCount + 1 := rfl
  rw [entered, hcount, List.range_succ, List.map_append, List.map_congr_left hold, List.map_singleton, hnew]
  rfl

theorem Parts.enqueue {r : String} (h : Parts maxPending phase [] [r] s) (handed : List Handed) :
    Parts maxPending phase [] [] (Scheduler.enqueue s r handed) := by
  have hout : r ∉ reported s := by
    intro hr
    have hline : r ∈ entered s ++ ([r] ++ (s.builds.keys ++
      (phase.selected ++ (ids s.backlog ++ phase.recvReqs)))) := by
      simp
    exact (h.split.mem_line.mp hline).2 (List.mem_append_left _ hr)
  have hreported : reported (Scheduler.enqueue s r handed) = reported s := by
    have herrors : errors (Scheduler.enqueue s r handed) = errors s := rfl
    rw [reported, herrors, entered_enqueue]
    refine List.filter_congr fun x hx => ?_
    by_cases hxr : x = r
    · have hmem : x ∈ entered s := by
        by_contra hn
        exact hout (List.mem_filter.mpr ⟨hxr ▸ hx, by simpa [← hxr] using hn⟩)
      simp [hmem]
    · simp [hxr]
  refine { h with split := ?_, aborted := ?_ }
  · rw [hreported, entered_enqueue, List.append_assoc]
    exact h.split
  · rw [hreported]
    exact h.aborted

theorem Parts.enqueueBuiltRequest (hentry : cfg.isEntryRank = true)
    (h : Parts maxPending phase [] [payload.requestId] s) (hphase : phase.rejecting = []) (done : Bool) (value : Built)
    (answers : Answers) : Parts maxPending phase [] [] (enqueueBuiltRequest cfg s payload done value answers) := by
  have hpop : s.deferred.pop payload.requestId = s.deferred :=
    Dict.pop_eq_self (by rw [h.deferred]; exact List.not_mem_nil)
  unfold Scheduler.enqueueBuiltRequest
  dsimp only
  split
  · rw [hpop]
    exact (h.leave hphase).fail hentry true
  · have h1 : Parts maxPending phase [] [payload.requestId]
        { { s with deferred := s.deferred.pop payload.requestId } with
          ingress := s.ingress.pop payload.requestId } := by
      rw [hpop]
      exact { h with }
    split
    · next haborted =>
      have hreported := h.aborted _ haborted
      have hline : payload.requestId ∈ entered s ++
          ([payload.requestId] ++ (s.builds.keys ++ (phase.selected ++ (ids s.backlog ++ phase.recvReqs)))) := by
        simp
      exact absurd (List.mem_append_left _ hreported) (h.split.mem_line.mp hline).2
    · split
      · exact (h1.leave hphase).fail hentry false
      · exact h1.enqueue _

theorem Parts.drainBuild (hentry : cfg.isEntryRank = true) (h : Parts maxPending phase [] [] s)
    (hphase : phase.rejecting = []) (answers : Answers) :
    Parts maxPending phase [] [] (drainRequestBuildResult cfg s answers) := by
  unfold drainRequestBuildResult
  split
  · exact h
  · next r build rest hentries =>
    split
    · exact h
    · next result hfuture =>
      have hget : s.builds.get? r = some build := by
        simp [Dict.get?, hentries]
      have hkeys : s.builds.keys = r :: rest.map Prod.fst := by simp [Dict.keys, hentries]
      have hnodup : (r :: rest.map Prod.fst).Nodup := hkeys ▸ s.builds.nodup
      have hpopped : (s.builds.pop r).keys = rest.map Prod.fst := by
        rw [Dict.keys_pop, hkeys, List.filter_cons_of_neg (by simp)]
        refine List.filter_eq_self.mpr ?_
        intro x hx
        have hne : x ≠ r := fun hxr => (List.nodup_cons.mp hnodup).1 (hxr ▸ hx)
        simpa using hne
      have hle := Dict.length_pop_le s.builds r
      have hfind : ∀ x b, (s.builds.pop r).get? x = some b → s.builds.get? x = some b := by
        intro x b hb
        rw [Dict.get?_pop] at hb
        split at hb
        · cases hb
        · exact hb
      have h1 : Parts maxPending phase [] [build.payload.requestId] { s with builds := s.builds.pop r } := by
        refine { h with split := ?_, room := ?_, payload := ?_, built := ?_ }
        · have hsplit := h.split
          simp only [hkeys, List.nil_append, List.cons_append] at hsplit
          rw [hpopped, h.payload r build hget]
          exact hsplit
        · have := h.room
          dsimp only
          omega
        · exact fun x b hb => h.payload x b (hfind x b hb)
        · exact fun x b result hb => h.built x b result (hfind x b hb)
      obtain ⟨value, rfl⟩ := h.built r build result hget hfuture
      dsimp only
      split
      · next haborted =>
        have hreported := h.aborted _ haborted
        have hline : r ∈ entered s ++ ([] ++ (s.builds.keys ++
          (phase.selected ++ (ids s.backlog ++ phase.recvReqs)))) := by
          simp [hkeys]
        exact absurd (List.mem_append_left _ hreported) (h.split.mem_line.mp hline).2
      · exact h1.enqueueBuiltRequest hentry hphase _ value answers

/-- A payload that is not under way. -/
theorem Parts.notInProgress {r : String} (h : Parts maxPending phase leaving entering s) (hbuilds : r ∉ s.builds.keys)
    (hreported : r ∉ reported s) : inProgress s r = false := by
  have haborted : r ∉ s.aborted := fun hr => hreported (h.aborted r hr)
  have hb : s.builds.contains r = false := by
    rw [← Bool.not_eq_true, Dict.contains_iff, ← Dict.mem_keys]
    exact hbuilds
  have ha : s.admissions.contains r = false := by
    rw [← Bool.not_eq_true, Dict.contains_iff, ← Dict.mem_keys, h.admissions]
    exact List.not_mem_nil
  simp [inProgress, haborted, hb, ha]

theorem Parts.processInputRequest {selected : List Payload}
    (hready : ∀ p d, cfg.isRequestBuildReady p d = true) (hexecutor : cfg.requestBuildMaxPending = some maxPending)
    (h : Parts maxPending (.admitting [] (payload :: selected)) [] [] s) (result : BuildResult) (answers : Answers) :
    Parts maxPending (.admitting [] selected) [] [] (processInputRequest cfg s payload result answers) := by
  have hentry : cfg.isEntryRank = true := cfg.entry_of_executor (by rw [hexecutor]; rfl)
  have hline := h.split.line_nodup
  have hmem : payload.requestId ∉ reported s ++ ([] ++ Phase.rejecting (.admitting [] (payload :: selected))) :=
    (h.split.mem_line.mp (by simp [Phase.selected])).2
  have hreported : payload.requestId ∉ reported s := fun hr => hmem (List.mem_append_left _ hr)
  have hbuilds : payload.requestId ∉ s.builds.keys := by
    intro hr
    rw [List.nil_append] at hline
    have htail := (List.nodup_append.mp hline).2.1
    exact (List.nodup_append.mp htail).2.2 _ hr _ (by simp [Phase.selected]) rfl
  -- the payload has left the hand of the loop and is in no table yet
  have hleaving : Parts maxPending (.admitting [] selected) [payload.requestId] [] s := by
    refine { h with split := ?_, room := ?_ }
    · have hsplit := h.split
      simp only [Phase.selected, Phase.rejecting, Phase.recvReqs, ids_cons, List.nil_append,
        List.append_nil] at hsplit ⊢
      rw [← List.append_assoc, List.cons_append] at hsplit
      have hleft := hsplit.leave
      rw [List.append_assoc] at hleft
      simpa [ids] using hleft
    · have := h.room
      simp only [Phase.selected, ids_cons, List.length_cons] at this ⊢
      omega
  unfold Scheduler.processInputRequest
  dsimp only
  rw [h.notInProgress hbuilds hreported, if_neg (by simp)]
  split
  · exact hleaving.fail hentry true
  · have hprefetch : (prefetch s payload).2.requestId = payload.requestId := by
      unfold prefetch
      dsimp only
      split <;> rfl
    have hstate : ∃ ingress, (prefetch s payload).1 = { s with ingress } := by
      unfold prefetch
      dsimp only
      split
      · exact ⟨s.ingress, rfl⟩
      · exact ⟨_, rfl⟩
    obtain ⟨ingress, hstate⟩ := hstate
    rw [hready, hexecutor, hstate]
    simp only [Bool.not_true, Bool.false_eq_true, if_false, Option.isSome_some, if_true]
    have hkeys := Dict.keys_set_of_notMem (d := s.builds) (k := payload.requestId)
      (v := ⟨(prefetch s payload).2, (prefetch s payload).2.prefetchedStreamDone, none⟩) hbuilds
    refine ⟨?_, h.aborted, h.deferred, h.dirty, h.admissions, ?_, ?_, ?_⟩
    · have hsplit := h.split
      simp only [Phase.selected, Phase.rejecting, Phase.recvReqs, ids_cons, List.nil_append, List.append_nil] at hsplit
      rw [hkeys]
      simp only [Phase.selected, Phase.rejecting, Phase.recvReqs, List.nil_append, List.append_nil, List.append_assoc,
        List.singleton_append]
      exact hsplit
    · have := h.room
      simp only [Phase.selected, ids_cons, List.length_cons, Dict.length_eq_keys] at this ⊢
      rw [hkeys]
      simp only [List.length_append, List.length_singleton]
      omega
    · intro x b hb
      rw [Dict.get?_set] at hb
      split at hb
      · next hx =>
        cases hb
        rw [hprefetch, hx]
      · exact h.payload x b hb
    · intro x b res hb hfuture
      rw [Dict.get?_set] at hb
      split at hb
      · cases hb
        cases hfuture
      · exact h.built x b res hb hfuture

theorem Parts.stage {recvReqs : List Payload} (hexecutor : cfg.requestBuildMaxPending = some maxPending)
    (h : Parts maxPending (.taken recvReqs) [] [] s) :
    Parts maxPending (.admitting (stageRequestBuildPayloads cfg s recvReqs).2.2
      (stageRequestBuildPayloads cfg s recvReqs).2.1) [] [] (stageRequestBuildPayloads cfg s recvReqs).1 := by
  have hsplit := h.split
  simp only [Phase.selected, Phase.rejecting, Phase.recvReqs, List.nil_append, List.append_nil] at hsplit
  have hnodup := hsplit.line_nodup
  obtain ⟨_, htail, _⟩ := List.nodup_append.mp hnodup
  obtain ⟨_, hqueue, hdisjoint⟩ := List.nodup_append.mp htail
  have hfree : ∀ r ∈ ids s.backlog ++ ids recvReqs, r ∉ s.builds.keys ∧ r ∉ reported s := by
    intro r hr
    refine ⟨fun hb => hdisjoint r hb r hr rfl, ?_⟩
    exact (hsplit.mem_line.mp (List.mem_append_right _ (List.mem_append_right _ hr))).2
  have hprogress : ∀ r ∈ ids s.backlog ++ ids recvReqs, inProgress s r = false :=
    fun r hr => h.notInProgress (hfree r hr).1 (hfree r hr).2
  simp only [stageRequestBuildPayloads, hexecutor]
  split
  · -- the queue is full: everything that waits is rejected
    have hbacklog : s.backlog.filter (fun p => p.requestId ∉ s.aborted) = s.backlog := by
      refine List.filter_eq_self.mpr ?_
      intro p hp
      have hr : p.requestId ∈ ids s.backlog ++ ids recvReqs := List.mem_append_left _ (List.mem_map_of_mem hp)
      have hn : p.requestId ∉ s.aborted := fun ha => (hfree _ hr).2 (h.aborted _ ha)
      simpa using hn
    have hrecv : recvReqs.filter (fun p => p.requestId ∉ s.aborted ∧ ¬ s.builds.contains p.requestId) = recvReqs := by
      refine List.filter_eq_self.mpr ?_
      intro p hp
      have hr : p.requestId ∈ ids s.backlog ++ ids recvReqs := List.mem_append_right _ (List.mem_map_of_mem hp)
      have hn : p.requestId ∉ s.aborted := fun ha => (hfree _ hr).2 (h.aborted _ ha)
      have hb : s.builds.contains p.requestId = false := by
        rw [← Bool.not_eq_true, Dict.contains_iff, ← Dict.mem_keys]
        exact (hfree _ hr).1
      simp [hn, hb]
    rw [hbacklog, hrecv]
    refine { h with split := ?_, room := ?_ }
    · rw [← List.append_assoc] at hsplit
      have hgone := hsplit.leaves (List.Sublist.refl (ids s.backlog ++ ids recvReqs))
      have hnone : (ids s.backlog ++ ids recvReqs).filter (· ∉ ids s.backlog ++ ids recvReqs) = [] :=
        List.filter_eq_nil_iff.mpr fun x hx => by
          simp only [hx, not_true_eq_false, decide_false, Bool.false_eq_true, not_false_eq_true]
      rw [hnone, List.append_nil] at hgone
      show Split (newIds s.received) (reported s ++ ([] ++ ids (s.backlog ++ recvReqs)))
        (entered s ++ ([] ++ (s.builds.keys ++ ([] ++ ([] ++ [])))))
      simpa using hgone
    · have := h.room
      simpa [Phase.selected, ids] using this
  · have hstart := staged_start maxPending
      (fun r hr => hprogress r (List.mem_append_left _ hr)) (List.nodup_append.mp hqueue).1
    have hstaged := staged_foldl cfg maxPending recvReqs hstart
      (by rw [ids_append]; exact hqueue) fun r hr => hprogress r (List.mem_append_right _ hr)
    refine { h with split := ?_, room := ?_ }
    · rw [← List.append_assoc] at hsplit
      have hrejected := hstaged.rejected
      rw [ids_append] at hrejected
      have hgone := hsplit.leaves hrejected
      rw [← ids_append, ← hstaged.order, ids_append] at hgone
      show Split (newIds s.received) (reported s ++ ([] ++ ids (staged cfg maxPending s recvReqs).rejected))
        (entered s ++ ([] ++ (s.builds.keys ++ (ids (staged cfg maxPending s recvReqs).selected ++
          (ids (staged cfg maxPending s recvReqs).backlog ++ [])))))
      simpa [staged] using hgone
    · have hroom := hstaged.room
      have hbefore := h.room
      simp only [Phase.selected, ids, List.length_map, List.length_nil, staged] at hbefore ⊢
      omega

/-! ### Receiving -/

theorem newIds_append (a b : List IncomingMessage) : newIds (a ++ b) = newIds a ++ newIds b := List.filterMap_append

theorem received_recvOne (cfg : Config) (acc : State × List Payload) (msg : IncomingMessage) :
    (recvOne cfg acc msg).1.received = acc.1.received ++ [msg] := by
  obtain ⟨_, h⟩ | ⟨_, _, h⟩ | ⟨item, recheck, _, _, _, h⟩ := recvOne_cases cfg acc msg
  · rw [h]
  · rw [h]
  · rw [h]
    unfold onStream
    split
    · rfl
    · split
      · rfl
      · dsimp only
        split <;> rfl

/-- No payload is deferred, so no deferred payload is marked for a look. -/
theorem dirty_recvOne (cfg : Config) (acc : State × List Payload) (msg : IncomingMessage)
    (hdeferred : acc.1.deferred.keys = []) : (recvOne cfg acc msg).1.dirty = acc.1.dirty := by
  have hnone : ∀ r, acc.1.deferred.contains r = false := by
    intro r
    rw [← Bool.not_eq_true, Dict.contains_iff, ← Dict.mem_keys, hdeferred]
    exact List.not_mem_nil
  obtain ⟨_, h⟩ | ⟨_, _, h⟩ | ⟨item, recheck, _, _, _, h⟩ := recvOne_cases cfg acc msg
  · rw [h]
  · rw [h]
  · rw [h]
    unfold onStream
    split
    · rfl
    · split
      · rfl
      · simp only [hnone, Bool.false_and, Bool.false_eq_true, if_false]
        rfl

theorem payloads_recvOne (cfg : Config) (acc : State × List Payload) (msg : IncomingMessage)
    (hfresh : ∀ r ∈ newIds [msg], r ∉ acc.1.aborted) :
    ids (recvOne cfg acc msg).2 = ids acc.2 ++ newIds [msg] := by
  unfold recvOne
  dsimp only
  cases hinput : msg.input with
  | newRequest =>
    have hid : newIds [msg] = [msg.requestId] := by simp [newIds, hinput]
    rw [if_neg (hfresh _ (by simp [hid])), hid]
    simp [ids]
  | streamChunk c | streamDone =>
    have hid : newIds [msg] = [] := by simp [newIds, hinput]
    split <;> simp [hid]

theorem recvRequests_spec (cfg : Config) (msgs : List IncomingMessage) (acc : State × List Payload)
    (hfresh : ∀ r ∈ newIds msgs, r ∉ acc.1.aborted) (hdeferred : acc.1.deferred.keys = []) :
    (msgs.foldl (recvOne cfg) acc).1.received = acc.1.received ++ msgs ∧
      (msgs.foldl (recvOne cfg) acc).1.dirty = acc.1.dirty ∧
      ids (msgs.foldl (recvOne cfg) acc).2 = ids acc.2 ++ newIds msgs := by
  induction msgs generalizing acc with
  | nil => simp [newIds]
  | cons msg rest ih =>
    have hsplit : newIds (msg :: rest) = newIds [msg] ++ newIds rest := newIds_append [msg] rest
    have hframe := recvFrame_recvOne cfg acc msg
    obtain ⟨hreceived, hdirty, hids⟩ := ih (recvOne cfg acc msg)
      (fun r hr => by rw [hframe.aborted]; exact hfresh r (by rw [hsplit]; exact List.mem_append_right _ hr))
      (by rw [hframe.deferred, hdeferred])
    rw [List.foldl_cons, hreceived, hdirty, hids, received_recvOne, dirty_recvOne cfg acc msg hdeferred,
      payloads_recvOne cfg acc msg fun r hr => hfresh r (by rw [hsplit]; exact List.mem_append_left _ hr), hsplit]
    simp

theorem Parts.recv (h : Parts maxPending .top [] [] s) (cfg : Config) (msgs : List IncomingMessage)
    (hnodup : (newIds (s.received ++ msgs)).Nodup) :
    Parts maxPending (.received (recvRequests cfg s msgs).2) [] [] (recvRequests cfg s msgs).1 := by
  rw [newIds_append] at hnodup
  have hfresh : ∀ r ∈ newIds msgs, r ∉ s.aborted := by
    intro r hr ha
    have hold := h.split.out_mem r (List.mem_append_left _ (h.aborted r ha))
    exact (List.nodup_append.mp hnodup).2.2 r hold r hr rfl
  obtain ⟨hreceived, hdirty, hids⟩ := recvRequests_spec cfg msgs (s, []) hfresh h.deferred
  have hf := recvFrame_recvRequests cfg s msgs
  have hentered : entered (recvRequests cfg s msgs).1 = entered s :=
    entered_congr hf.reqCount (fun q => by rw [hf.batches])
  have hreported : reported (recvRequests cfg s msgs).1 = reported s := by
    simp only [reported, errors, hentered, hf.outbox]
  refine ⟨?_, ?_, ?_, ?_, ?_, ?_, ?_, ?_⟩
  · have hsplit := h.split.arrive hnodup
    simp only [recvRequests] at hreported hentered ⊢
    rw [hreceived, hreported, hentered, newIds_append]
    simp only [Phase.selected, Phase.rejecting, Phase.recvReqs, List.nil_append, List.append_nil, hids] at hsplit ⊢
    have hb := hf.builds
    have hl := hf.backlog
    simp only [recvRequests] at hb hl
    rw [hb, hl]
    simpa [ids] using hsplit
  · rw [hf.aborted, hreported]
    exact h.aborted
  · rw [hf.deferred, h.deferred]
  · exact hdirty.trans h.dirty
  · rw [hf.admissions, h.admissions]
  · rw [hf.builds]
    exact h.room
  · rw [hf.builds]
    exact h.payload
  · rw [hf.builds]
    exact h.built

/-! ### Runs -/

/-- A step of a run with distinct request ids, without aborts, failed builds or batches, and deferred
admissions. -/
def Quiet (s : State) : Event → Prop
  | .recv msgs => (newIds (s.received ++ msgs)).Nodup
  | .plan u => u.Sound s
  | .launch ok => ok = true
  | .resolve step | .flush step => step.outcome ≠ .raised
  | .run step => step.outcome = .stepped
  | .retract refused => refused = []
  | .buildDone _ result => ∃ value, result = .built value
  | .upstreamAbort _ | .abortAll | .stageAbort _ => False
  | _ => True

theorem reported_congr (ht : SameTables s s') (houtbox : s'.outbox = s.outbox) :
    reported s' = reported s := by
  simp only [reported, errors, entered_congr ht.reqCount ht.rid, houtbox]

theorem not_error_of_mem_streamMessages {r : String} {n : Nat} {m : OutgoingMessage} (h : m ∈ streamMessages r n) :
    m.kind ≠ .error := by
  rw [(List.mem_replicate.mp h).2]
  exact fun hk => nomatch hk

theorem reported_emitStreamOutput (s : State) (rows : List Nat) (skip : List String) (yields : Nat → Nat) :
    reported (emitStreamOutput s rows skip yields) = reported s := by
  refine reported_append rfl rfl ?_
  intro m hm hkind
  obtain ⟨q, _, hq⟩ := List.mem_flatMap.mp hm
  dsimp only at hq
  split at hq
  · cases hq
  · exact absurd hkind (not_error_of_mem_streamMessages hq)

theorem reported_closeCompletedRequest (s : State) (q : Nat) : reported (closeCompletedRequest s q) = reported s :=
  reported_congr (sameTables_closeCompletedRequest s q) (outbox_closeCompletedRequest s q)

theorem reported_processBatchResult (s : State) (reqs finishing : List Nat) :
    reported (processBatchResult s reqs finishing) = reported s :=
  reported_congr (sameTables_processBatchResult s reqs finishing) rfl

theorem reported_streamOutput (s : State) : reported (streamOutput s) = reported s := by
  refine reported_congr (sameTables_streamOutput s) ?_
  unfold streamOutput
  split
  · rfl
  · dsimp only
    split
    · rfl
    · split
      · rfl
      · split
        · rfl
        · split
          · exact outbox_closeCompletedRequest _ _
          · rfl

/-- A result that could not be made is an error of a request that was queued. -/
theorem reported_terminalOutput (h : Known s) (yields : Nat) (ok : Bool) :
    reported (terminalOutput cfg s yields ok) = reported s := by
  unfold terminalOutput
  split
  · rfl
  · next q hq =>
    have hentered := mem_entered (h.claimed q hq)
    have hchunks : reported { s with
        claimed := none, outbox := s.outbox ++ streamMessages (s.batches.req q).rid yields } = reported s :=
      reported_append rfl rfl fun m hm hkind => absurd hkind (not_error_of_mem_streamMessages hm)
    have hclosed := (reported_closeCompletedRequest _ q).trans hchunks
    have hline : entered (closeCompletedRequest { s with
        claimed := none, outbox := s.outbox ++ streamMessages (s.batches.req q).rid yields } q) = entered s := by
      have ht := sameTables_closeCompletedRequest { s with
        claimed := none, outbox := s.outbox ++ streamMessages (s.batches.req q).rid yields } q
      exact entered_congr ht.reqCount ht.rid
    dsimp only
    refine Eq.trans ?_ hclosed
    split
    · refine reported_append rfl rfl fun m hm hkind => ?_
      rw [List.mem_singleton.mp hm] at hkind
      cases hkind
    · unfold emitRequestError
      split
      · refine reported_append rfl rfl fun m hm _ => ?_
        rw [List.mem_singleton.mp hm, hline]
        exact hentered
      · rfl

theorem reported_dropStaleOverrun (s : State) : reported (dropStaleOverrun s) = reported s := by
  refine reported_congr (sameTables_dropStaleOverrun s) ?_
  unfold dropStaleOverrun
  split
  · rfl
  · dsimp only
    split <;> rfl

theorem reported_runBatch {step : Step} (s : State) (h : step.outcome = .stepped) :
    reported (runBatch cfg s step) = reported s := by
  unfold runBatch
  split
  · rfl
  · rw [h]
    exact (reported_processBatchResult _ _ _).trans (reported_emitStreamOutput _ _ _ _)

theorem reported_resolveAndProcess {step : Step} (s : State) (pending : Pending) (h : step.outcome ≠ .raised) :
    reported (resolveAndProcess cfg s pending step) = reported s := by
  unfold resolveAndProcess
  dsimp only
  split
  · contradiction
  · rfl
  · exact (reported_processBatchResult _ _ _).trans (reported_emitStreamOutput _ _ _ _)

theorem reported_resolvePendingAsync {step : Step} (s : State) (h : step.outcome ≠ .raised) :
    reported (resolvePendingAsync cfg s step) = reported s := by
  unfold resolvePendingAsync
  split
  · rfl
  · exact reported_resolveAndProcess _ _ h

theorem conserved_step {e : Event} (hready : ∀ p d, cfg.isRequestBuildReady p d = true)
    (hexecutor : cfg.requestBuildMaxPending = some maxPending) (hknown : Known s) (h : Conserved maxPending s)
    (hquiet : Quiet s e) : Conserved maxPending (step cfg s e) := by
  have hentry : cfg.isEntryRank = true := cfg.entry_of_executor (by rw [hexecutor]; rfl)
  -- an engine step, between two phases in which no payload is in hand
  have hengine : ∀ {s' : State}, SameTables s s' → reported s' = reported s →
      s'.phase.rejecting = s.phase.rejecting → s'.phase.selected = s.phase.selected →
      s'.phase.recvReqs = s.phase.recvReqs → Conserved maxPending s' :=
    fun ht hreported h1 h2 h3 => Parts.frame h ht hreported h1 h2 h3
  refine step_rule h fun s' hf => ?_
  unfold Conserved at h
  cases hf with
  | recv msgs htop _ =>
    rw [htop] at h
    have hrecv := h.recv cfg msgs hquiet
    exact { hrecv with }
  | takeDeferred order recvReqs hphase =>
    rw [hphase] at h
    have hnone : (takeDeferredRequestPayloads s order).2 = [] := by
      simp [takeDeferredRequestPayloads, h.dirty, arranged]
    have hsame : (takeDeferredRequestPayloads s order).1 = s := by
      have hids : arranged order s.dirty = [] := by simp [h.dirty, arranged]
      have hdirty := h.dirty
      simp only [takeDeferredRequestPayloads, hids, List.foldl_nil]
      rw [← hdirty]
    rw [hnone, hsame, List.append_nil]
    exact { h with }
  | drainBuild answers hdrain =>
    have hphase : s.phase.rejecting = [] := by
      unfold atDrain at hdrain
      split at hdrain
      · next hp =>
        rw [hp]
        rfl
      · next hp =>
        rw [hp]
        rfl
      · cases hdrain
    unfold Conserved
    rw [((admitRule_admitFrame cfg s).drainBuild (.refl s) answers).phase]
    exact h.drainBuild hentry hphase answers
  | drainAdmission r answers _ =>
    have hnone : s.admissions.get? r = none := by
      rw [Option.eq_none_iff_forall_ne_some]
      intro a ha
      have hmem := (Dict.mem_keys s.admissions r).mpr ⟨a, ha⟩
      rw [h.admissions] at hmem
      cases hmem
    simp only [drainRequestAdmissionResult, hnone]
    exact h
  | stage recvReqs hphase =>
    rw [hphase] at h
    have hstage := h.stage hexecutor
    exact { hstage with }
  | reject payload rejected selected hphase =>
    rw [hphase] at h
    have hleaving : Parts maxPending (.admitting rejected selected) [payload.requestId] [] s := { h with }
    have hfail := hleaving.fail hentry true
    exact { hfail with }
  | process result answers payload selected hphase =>
    rw [hphase] at h
    have hprocess := h.processInputRequest hready hexecutor result answers
    exact { hprocess with }
  | admitted hphase =>
    exact hengine { SameTables.refl s with } rfl (by rw [hphase]; rfl) (by rw [hphase]; rfl) (by rw [hphase]; rfl)
  | pausedAgain hp => exact hengine { SameTables.refl s with } rfl (by rw [hp]; rfl) (by rw [hp]; rfl) (by rw [hp]; rfl)
  | upstreamAbort r => cases hquiet
  | plan u hp =>
    exact hengine (sameTables_getNextBatchToRun s u) (reported_congr (sameTables_getNextBatchToRun s u) rfl)
      (by rw [hp]; rfl) (by rw [hp]; rfl) (by rw [hp]; rfl)
  | launch ok b hp _ _ =>
    have hok : ok = true := hquiet
    simp only [runBatchLaunch, hok, Bool.not_true, Bool.false_eq_true, if_false]
    refine hengine { SameTables.refl s with } rfl ?_ ?_ ?_ <;>
      (rw [hp]; cases s.batches.asyncPending <;> rfl)
  | resolve step prev hp =>
    have ht := sameTables_resolveAndProcess cfg s prev hquiet
    refine hengine { ht with } ?_ (by rw [hp]; rfl) (by rw [hp]; rfl) (by rw [hp]; rfl)
    exact reported_resolveAndProcess s prev hquiet
  | run step flushed hp _ =>
    have hstart : SameTables s (if flushed then dropStaleOverrun s else s) ∧
        reported (if flushed then dropStaleOverrun s else s) = reported s := by
      cases flushed
      · exact ⟨.refl s, rfl⟩
      · exact ⟨sameTables_dropStaleOverrun s, reported_dropStaleOverrun s⟩
    have ht := hstart.1.trans (sameTables_runBatch cfg _ hquiet)
    refine hengine { ht with } ?_ (by rw [hp]; rfl) (by rw [hp]; rfl) (by rw [hp]; rfl)
    exact (reported_runBatch _ hquiet).trans hstart.2
  | flush step _ _ =>
    have hp := phase_resolvePendingAsync cfg s step
    exact hengine (sameTables_resolvePendingAsync cfg s hquiet) (reported_resolvePendingAsync s hquiet) (by rw [hp])
      (by rw [hp]) (by rw [hp])
  | flushPlanned step hp _ =>
    have ht := sameTables_resolvePendingAsync cfg s hquiet
    have hr : reported (resolvePendingAsync cfg s step) = reported s := reported_resolvePendingAsync s hquiet
    exact hengine { ht with } hr (by rw [hp]; rfl) (by rw [hp]; rfl) (by rw [hp]; rfl)
  | finish hp => exact hengine { SameTables.refl s with } rfl (by rw [hp]; rfl) (by rw [hp]; rfl) (by rw [hp]; rfl)
  | streamOutput _ =>
    have hp := phase_streamOutput s
    exact hengine (sameTables_streamOutput s) (reported_streamOutput s) (by rw [hp]) (by rw [hp]) (by rw [hp])
  | terminalOutput yields ok =>
    have hp := phase_terminalOutput cfg s yields ok
    exact hengine (sameTables_terminalOutput cfg s yields ok) (reported_terminalOutput hknown yields ok) (by rw [hp])
      (by rw [hp]) (by rw [hp])
  | pause paused => exact hengine { SameTables.refl s with } rfl rfl rfl rfl
  | abortAll => cases hquiet
  | retract refused _ =>
    have hnone : refused = [] := hquiet
    have hnobody : (retracted s).filter (· ∈ refused) = [] := by simp [hnone]
    simp only [retractRunningRequests, hnobody, List.map_nil, List.foldl_nil]
    have ht := sameTables_requeueRunningRequests s refused
    exact hengine ht (reported_congr ht rfl) rfl rfl rfl
  | buildDone r result build hbuild =>
    have hmem : r ∈ s.builds.keys := (Dict.mem_keys _ _).mpr ⟨_, hbuild⟩
    have hkeys := Dict.keys_set_of_mem (v := { build with future := some result }) hmem
    have hfind : ∀ x b, (s.builds.set r { build with future := some result }).get? x = some b →
        (x = r ∧ b = { build with future := some result }) ∨ s.builds.get? x = some b := by
      intro x b hb
      rw [Dict.get?_set] at hb
      split at hb
      · next hx => exact .inl ⟨hx, (Option.some.inj hb).symm⟩
      · exact .inr hb
    refine { h with split := ?_, room := ?_, payload := ?_, built := ?_ }
    · rw [hkeys]
      exact h.split
    · rw [Dict.length_eq_keys, hkeys, ← Dict.length_eq_keys]
      exact h.room
    · intro x b hb
      obtain ⟨rfl, rfl⟩ | hb := hfind x b hb
      · exact h.payload x build hbuild
      · exact h.payload x b hb
    · intro x b res hb hfuture
      obtain ⟨rfl, rfl⟩ | hb := hfind x b hb
      · cases hfuture
        exact hquiet
      · exact h.built x b res hb hfuture
  | stageAbort r => cases hquiet

theorem conserved_create : Conserved maxPending State.create := by
  refine ⟨⟨?_, ?_, ?_, ?_⟩, ?_, rfl, rfl, rfl, Nat.zero_le _, ?_, ?_⟩
  · exact List.nodup_nil
  · exact List.nodup_nil
  · exact fun r hr => nomatch hr
  · rfl
  · exact fun r hr => nomatch hr
  · exact fun r build hb => nomatch hb
  · exact fun r build result hb => nomatch hb

theorem Quiet.upstream {e : Event} (h : Quiet s e) : Upstream s e := by
  cases e with
  | plan u => exact h
  | _ => trivial

theorem conserved_run (hready : ∀ p d, cfg.isRequestBuildReady p d = true)
    (hexecutor : cfg.requestBuildMaxPending = some maxPending) (es : List Event)
    (hquiet : Along (step cfg) Quiet State.create es) : Conserved maxPending (runs cfg es) := by
  have hboth : Known (runs cfg es) ∧ Conserved maxPending (runs cfg es) :=
    along_invariant (I := fun s => Known s ∧ Conserved maxPending s) ⟨known_create, conserved_create⟩
      (fun s e h hq => ⟨known_step h.1 hq.upstream, conserved_step hready hexecutor h.1 h.2 hq⟩) es hquiet
  exact hboth.2

/-- Every place a received payload can be in: reported as rejected, about to be, queued (waiting or
scheduled), being built, selected, in the backlog, or not yet staged. -/
def places (s : State) : List String :=
  reported s ++ s.phase.rejecting ++ (entered s ++ s.builds.keys ++ s.phase.selected ++ ids s.backlog ++
    s.phase.recvReqs)

/-- One build at a time, and two requests in the queue. -/
def oneBuild : Config where
  requestBuildMaxPending := some 1
  maxQueuedRequests := some 2
  maxReqLen := 100
  isEntryRank := true
  entry_of_executor _ := rfl
  isRequestBuildReady _ _ := true
  shouldRecheck _ _ := true

end SglangOmni.Scheduling.Scheduler
