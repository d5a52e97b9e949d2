import SglangOmni.Scheduling.Scheduler.Conservation
import SglangOmni.Scheduling.Scheduler.Engine

/-! Where a request's payload is.

From the message that brings it to the request that is made of it, a payload is in the hands of
`process_input_requests`, in the backlog, or in one of three tables. `total` counts these places,
and the requests made so far. No step makes it grow, and it falls for an aborted request, or for one
that was sent twice, only (`Moved`). -/
namespace SglangOmni.Scheduling.Scheduler
open Lib

variable {cfg : Config} {s s' t : State} {m : Nat} {r : String} {hand hand' : List Payload} {rs : List String}
  {p : Payload} {acc : State × List Payload}

/-! ### What admission can do -/

/-- The tables without a request that leaves them for the waiting queue. -/
def cleared (s : State) (r : String) : State :=
  { s with deferred := s.deferred.pop r, ingress := s.ingress.pop r }

/-- All that can become of a built request. -/
inductive Admitted (cfg : Config) (s : State) (p : Payload) (done : Bool) : State → Prop
  | failed (d : Bool) : Admitted cfg s p done (fail cfg s p.requestId d)
  | aborted (h : p.requestId ∈ s.aborted) : Admitted cfg s p done s
  | abortedLate (h : p.requestId ∈ s.aborted) : Admitted cfg s p done (cleared s p.requestId)
  | held (h : p.requestId ∉ s.aborted) (value : Built) :
    Admitted cfg s p done { s with admissions := s.admissions.set p.requestId ⟨p, done, value⟩ }
  | enqueued (h : p.requestId ∉ s.aborted) :
    Admitted cfg s p done
      (enqueue (cleared s p.requestId) p.requestId (initialHanded p done (s.ingress.get? p.requestId)))

section
variable (cfg s)

/-- A failure clears the tables itself. -/
theorem fail_popDeferred (r : String) (d : Bool) :
    fail cfg { s with deferred := s.deferred.pop r } r d = fail cfg s r d := by
  unfold fail emitRequestError
  split
  · simp only [abort, Dict.pop_pop_self]
  · simp only [abort, Dict.pop_pop_self]

theorem fail_cleared (r : String) (d : Bool) :
    fail cfg (cleared s r) r d = fail cfg s r d := by
  unfold fail emitRequestError cleared
  split
  · simp only [abort, Dict.pop_pop_self]
  · simp only [abort, Dict.pop_pop_self]

theorem admitted_enqueueBuiltRequest (p : Payload) (done : Bool) (value : Built)
    (answers : Answers) : Admitted cfg s p done (enqueueBuiltRequest cfg s p done value answers) := by
  unfold enqueueBuiltRequest
  dsimp only
  split
  · rw [fail_popDeferred]
    exact .failed true
  · split
    · next haborted => exact .abortedLate haborted
    · next haborted =>
      split
      · have hfail := fail_cleared cfg s p.requestId false
        unfold cleared at hfail
        unfold upstreamAbort
        rw [hfail]
        exact .failed false
      · exact .enqueued haborted

theorem admitted_admitOrDefer (p : Payload) (done : Bool) (result : BuildResult)
    (answers : Answers) : Admitted cfg s p done (admitOrDeferBuiltRequest cfg s p done result answers) := by
  unfold admitOrDeferBuiltRequest
  cases result with
  | failed => exact .failed true
  | built value => exact admitted_enqueueBuiltRequest cfg s p done value answers
  | deferred value =>
    dsimp only
    split
    · next haborted => exact .aborted haborted
    · next haborted =>
      split
      · exact .held haborted value
      · exact .failed true
      · exact admitted_enqueueBuiltRequest cfg s p done value answers

/-- A turn of the drain does nothing, or takes the first build. -/
theorem drainBuild_cases (answers : Answers) :
    drainRequestBuildResult cfg s answers = s ∨
      ∃ r build, s.builds.get? r = some build ∧
        let t := { s with builds := s.builds.pop r }
        (r ∈ s.aborted ∧ drainRequestBuildResult cfg s answers = t ∨
          Admitted cfg t build.payload build.pendingStreamDone (drainRequestBuildResult cfg s answers)) := by
  unfold drainRequestBuildResult
  split
  · exact .inl rfl
  · next r build rest hentries =>
    split
    · exact .inl rfl
    · refine .inr ⟨r, build, by simp [Dict.get?, hentries], ?_⟩
      dsimp only
      split
      · next haborted => exact .inl ⟨haborted, rfl⟩
      · exact .inr (admitted_admitOrDefer cfg _ _ _ _ _)

theorem drainAdmission_cases (r : String) (answers : Answers) :
    drainRequestAdmissionResult cfg s r answers = s ∨
      ∃ pending, s.admissions.get? r = some pending ∧
        let t := { s with admissions := s.admissions.pop r }
        (r ∈ s.aborted ∧ drainRequestAdmissionResult cfg s r answers = t ∨
          Admitted cfg t pending.payload pending.pendingStreamDone (drainRequestAdmissionResult cfg s r answers)) := by
  unfold drainRequestAdmissionResult
  split
  · exact .inl rfl
  · next pending hpending =>
    split
    · exact .inl rfl
    · refine .inr ⟨pending, hpending, ?_⟩
      dsimp only
      split
      · next haborted => exact .inl ⟨haborted, rfl⟩
      · exact .inr (admitted_admitOrDefer cfg _ _ _ _ _)

/-- A payload is skipped, rejected, deferred, given to a builder, or built. -/
theorem processInputRequest_cases (p : Payload) (result : BuildResult) (answers : Answers) :
    let t := (prefetch s p).1
    let p' := (prefetch s p).2
    let s' := processInputRequest cfg s p result answers
    (inProgress s p.requestId = true ∧ s' = s) ∨ s' = fail cfg s p.requestId true ∨
      (inProgress s p.requestId = false ∧
        (s' = { t with deferred := t.deferred.set p.requestId p' } ∨
          s' = { t with builds := t.builds.set p.requestId ⟨p', p'.prefetchedStreamDone, none⟩ } ∨
          Admitted cfg t p' p'.prefetchedStreamDone s')) := by
  unfold processInputRequest rejectQueueFull
  dsimp only
  split
  · next h => exact .inl ⟨h, rfl⟩
  · next h =>
    have h : inProgress s p.requestId = false := by simpa using h
    split
    · exact .inr (.inl rfl)
    · refine .inr (.inr ⟨h, ?_⟩)
      split
      · exact .inl rfl
      · split
        · exact .inr (.inl rfl)
        · exact .inr (.inr (admitted_admitOrDefer cfg _ _ _ _ _))

end

theorem requestId_prefetch (s : State) (p : Payload) : (prefetch s p).2.requestId = p.requestId := by
  unfold prefetch
  dsimp only
  split <;> rfl

/-! ### Counting -/

/-- The places of `r`: its payloads, and its requests from number `m` on. -/
def total (m : Nat) (r : String) (hand : List Payload) (s : State) : Nat :=
  (ids hand).count r + (ids s.backlog).count r + s.deferred.keys.count r + s.builds.keys.count r +
    s.admissions.keys.count r + ((entered s).drop m).count r

/-- What happens to the places of `r` when the payloads of `hand` are handled. -/
structure Moved (m : Nat) (r : String) (hand hand' : List Payload) (s s' : State) : Prop where
  received : s'.received = s.received
  log : r ∈ s.abortLog → r ∈ s'.abortLog
  le : total m r hand' s' ≤ total m r hand s
  kept : r ∉ s'.abortLog → total m r hand s ≤ 1 → total m r hand' s' = total m r hand s

theorem Moved.refl (m : Nat) (r : String) (hand : List Payload) (s : State) : Moved m r hand hand s s :=
  ⟨rfl, id, Nat.le_refl _, fun _ _ => rfl⟩

theorem Moved.trans {hand'' : List Payload} (h : Moved m r hand hand' s t) (h' : Moved m r hand' hand'' t s') :
    Moved m r hand hand'' s s' where
  received := h'.received.trans h.received
  log hr := h'.log (h.log hr)
  le := Nat.le_trans h'.le h.le
  kept hr hone := by
    have hfirst := h.kept (fun hlog => hr (h'.log hlog)) hone
    rw [h'.kept hr (by omega), hfirst]

/-- Everything that is counted is the same. -/
theorem Moved.same (hreceived : s'.received = s.received) (hlog : r ∈ s.abortLog → r ∈ s'.abortLog)
    (htotal : total m r hand' s' = total m r hand s) : Moved m r hand hand' s s' :=
  ⟨hreceived, hlog, Nat.le_of_eq htotal, fun _ _ => htotal⟩

theorem count_kept {V : Type} {d d' : Dict String V} (h : Kept rs d d') (r : String) :
    d'.keys.count r ≤ d.keys.count r ∧ (r ∉ rs → d'.keys.count r = d.keys.count r) := by
  rw [Dict.count_keys, Dict.count_keys]
  obtain h1 | ⟨hmem, h1⟩ := h r
  · rw [h1]
    exact ⟨Nat.le_refl _, fun _ => rfl⟩
  · rw [h1]
    exact ⟨Nat.zero_le _, fun hr => absurd hmem hr⟩

theorem count_filter_ids (l : List Payload) (f : Payload → Bool) (r : String) :
    (ids (l.filter f)).count r ≤ (ids l).count r ∧
      ((∀ p ∈ l, p.requestId = r → f p = true) → (ids (l.filter f)).count r = (ids l).count r) := by
  refine ⟨(List.filter_sublist.map _).count_le r, ?_⟩
  intro hf
  induction l with
  | nil => rfl
  | cons p rest ih =>
    have hrest := ih fun q hq => hf q (List.mem_cons_of_mem _ hq)
    by_cases hp : f p = true
    · rw [List.filter_cons_of_pos hp, ids_cons, ids_cons, List.count_cons, List.count_cons, hrest]
    · have hne : p.requestId ≠ r := fun he => hp (hf p List.mem_cons_self he)
      rw [List.filter_cons_of_neg hp, ids_cons, List.count_cons_of_ne hne, hrest]

theorem Moved.engine (h : Engine rs s s') : Moved m r hand hand s s' := by
  have hbacklog := count_filter_ids s.backlog (fun p => p.requestId ∉ rs) r
  rw [← h.backlog] at hbacklog
  have hentered := entered_congr h.reqCount h.rid
  have hdeferred := count_kept h.deferred r
  have hbuilds := count_kept h.builds r
  have hadmissions := count_kept h.admissions r
  refine ⟨h.received, ?_, ?_, ?_⟩
  · intro hr
    rw [h.abortLog]
    exact List.mem_append_left _ hr
  · simp only [total, hentered]
    omega
  · intro hr _
    rw [h.abortLog, List.mem_append, not_or] at hr
    have hkept := hbacklog.2 fun p _ hp => by simpa [hp] using hr.2
    simp only [total, hentered]
    rw [hkept, hdeferred.2 hr.2, hbuilds.2 hr.2, hadmissions.2 hr.2]

/-- The payload of an aborted request is dropped. -/
theorem Moved.drop (hand : List Payload) (h : p.requestId ∈ s.abortLog) :
    Moved m r (p :: hand) hand s s := by
  refine ⟨rfl, id, ?_, ?_⟩
  · simp only [total, ids_cons, List.count_cons]
    omega
  · intro hr _
    have hne : p.requestId ≠ r := fun he => hr (he ▸ h)
    simp only [total, ids_cons, List.count_cons_of_ne hne]

theorem Moved.fail (cfg : Config) (hand : List Payload) (s : State) (p : Payload) (d : Bool) :
    Moved m r (p :: hand) hand s (fail cfg s p.requestId d) := by
  have hcut := cut_fail cfg s p.requestId d
  refine (Moved.engine hcut.engine).trans (Moved.drop hand ?_)
  rw [hcut.abortLog]
  exact List.mem_append_right _ (List.mem_singleton.mpr rfl)

theorem moved_cleared (hand : List Payload) (s : State) (p : Payload) :
    Moved m r (p :: hand) (p :: hand) s (cleared s p.requestId) := by
  have hpop := Dict.count_keys_pop s.deferred p.requestId r
  refine ⟨rfl, id, ?_, ?_⟩
  · have hle : (s.deferred.pop p.requestId).keys.count r ≤ s.deferred.keys.count r := by
      rw [hpop]
      split
      · exact Nat.zero_le _
      · exact Nat.le_refl _
    have hentered : entered (cleared s p.requestId) = entered s := rfl
    simp only [total, hentered]
    simp only [cleared]
    omega
  · intro _ hone
    by_cases hr : r = p.requestId
    · subst hr
      have hzero : s.deferred.keys.count p.requestId = 0 := by
        simp only [total, ids_cons, List.count_cons_self] at hone
        omega
      simp only [total, cleared]
      rw [hpop, if_pos rfl, hzero]
      rfl
    · simp only [total, cleared]
      rw [hpop, if_neg hr]
      rfl

theorem length_entered (s : State) : (entered s).length = s.reqCount := by
  simp [entered]

theorem moved_enqueue (hm : m ≤ s.reqCount) (hand : List Payload) (p : Payload) (handed : List Handed) :
    Moved m r (p :: hand) hand s (enqueue s p.requestId handed) := by
  refine Moved.same rfl id ?_
  have hentered : ((entered (enqueue s p.requestId handed)).drop m).count r =
      ((entered s).drop m).count r + [p.requestId].count r := by
    rw [entered_enqueue, List.drop_append_of_le_length (by rw [length_entered]; exact hm), List.count_append]
  simp only [total, hentered, ids_cons, List.count_cons, List.count_nil]
  simp only [enqueue]
  omega

theorem count_ids_cons (p : Payload) (l : List Payload) (r : String) :
    (ids (p :: l)).count r = (ids l).count r + [p.requestId].count r := by
  simp only [ids_cons, List.count_cons, List.count_nil]
  omega

/-- A payload that goes into a table is in one place, or it was in the table already. -/
theorem count_set_le {V : Type} (d : Dict String V) (p : Payload) (v : V) (r : String) :
    (d.set p.requestId v).keys.count r ≤ d.keys.count r + [p.requestId].count r ∧
      (d.keys.count r + [p.requestId].count r ≤ 1 →
        (d.set p.requestId v).keys.count r = d.keys.count r + [p.requestId].count r) := by
  rw [Dict.count_keys_set]
  by_cases hr : r = p.requestId
  · subst hr
    simp only [List.count_cons_self, List.count_nil, if_true]
    omega
  · have hne : p.requestId ≠ r := Ne.symm hr
    simp only [hr, if_false, List.count_cons_of_ne hne, List.count_nil]
    omega

/-- A payload in hand is put in a table. -/
theorem Moved.put {V : Type} (d : Dict String V) (v : V) (hreceived : s'.received = s.received)
    (hlog : s'.abortLog = s.abortLog) (hin : d.keys.count r ≤ total m r hand s)
    (hset : total m r hand s' + d.keys.count r = total m r hand s + (d.set p.requestId v).keys.count r) :
    Moved m r (p :: hand) hand s s' := by
  obtain ⟨hle, heq⟩ := count_set_le d p v r
  have hcons : total m r (p :: hand) s = total m r hand s + [p.requestId].count r := by
    simp only [total, count_ids_cons]
    omega
  refine ⟨hreceived, fun hr => by rwa [hlog], by omega, fun _ hone => ?_⟩
  have := heq (by omega)
  omega

theorem moved_deferred (hand : List Payload) (s : State) (p v : Payload) :
    Moved m r (p :: hand) hand s { s with deferred := s.deferred.set p.requestId v } := by
  refine Moved.put s.deferred v rfl rfl ?_ ?_ <;> simp only [total, entered] <;> omega

theorem moved_builds (hand : List Payload) (s : State) (p : Payload) (v : PendingBuild) :
    Moved m r (p :: hand) hand s { s with builds := s.builds.set p.requestId v } := by
  refine Moved.put s.builds v rfl rfl ?_ ?_ <;> simp only [total, entered] <;> omega

theorem moved_admissions (hand : List Payload) (s : State) (p : Payload) (v : PendingAdmission) :
    Moved m r (p :: hand) hand s { s with admissions := s.admissions.set p.requestId v } := by
  refine Moved.put s.admissions v rfl rfl ?_ ?_ <;> simp only [total, entered] <;> omega

theorem moved_admitted (haborted : ∀ r ∈ s.aborted, r ∈ s.abortLog) (hm : m ≤ s.reqCount) (hand : List Payload)
    {done : Bool} (h : Admitted cfg s p done s') : Moved m r (p :: hand) hand s s' := by
  cases h with
  | failed d => exact Moved.fail cfg hand s p d
  | aborted hp => exact Moved.drop hand (haborted _ hp)
  | abortedLate hp => exact (moved_cleared hand s p).trans (Moved.drop hand (haborted _ hp))
  | held _ value => exact moved_admissions hand s p _
  | enqueued _ => exact (moved_cleared hand s p).trans (moved_enqueue (s := cleared s p.requestId) hm hand p _)

/-! ### The tables -/

/-- A table's entries are under their own ids, and the boolean that is kept beside a payload is the
one in it. -/
structure Keyed (s : State) : Prop where
  deferred : ∀ r p, s.deferred.get? r = some p → p.requestId = r
  builds : ∀ r b, s.builds.get? r = some b →
    b.payload.requestId = r ∧ b.pendingStreamDone = b.payload.prefetchedStreamDone
  admissions : ∀ r a, s.admissions.get? r = some a →
    a.payload.requestId = r ∧ a.pendingStreamDone = a.payload.prefetchedStreamDone
  dirty : s.dirty.Nodup

theorem Kept.get? {V : Type} {d d' : Dict String V} {v : V} (h : Kept rs d d')
    (hv : d'.get? r = some v) : d.get? r = some v := by
  obtain h1 | ⟨_, h1⟩ := h r
  · exact h1 ▸ hv
  · rw [h1] at hv
    cases hv

theorem get?_of_pop {V : Type} {d : Dict String V} {x : String} {v : V} (h : (d.pop x).get? r = some v) :
    d.get? r = some v :=
  (kept_pop d x).get? h

theorem Keyed.engine (h : Keyed s) (he : Engine rs s s') : Keyed s' where
  deferred r p hp := h.deferred r p (he.deferred.get? hp)
  builds r b hb := h.builds r b (he.builds.get? hb)
  admissions r a ha := h.admissions r a (he.admissions.get? ha)
  dirty := he.dirty.nodup h.dirty

theorem Keyed.cleared (h : Keyed s) (r : String) : Keyed (cleared s r) :=
  { h with deferred := fun x p hp => h.deferred x p (get?_of_pop hp) }

theorem keyed_admitted {done : Bool} (h : Keyed s) (hdone : done = p.prefetchedStreamDone)
    (hadmitted : Admitted cfg s p done s') : Keyed s' := by
  cases hadmitted with
  | failed d => exact h.engine (cut_fail cfg s p.requestId d).engine
  | aborted _ => exact h
  | abortedLate _ => exact h.cleared p.requestId
  | held _ value =>
    refine { h with admissions := ?_ }
    intro x a ha
    rw [Dict.get?_set] at ha
    split at ha
    · next hx =>
      cases ha
      exact ⟨hx.symm, hdone⟩
    · exact h.admissions x a ha
  | enqueued _ => exact { h.cleared p.requestId with }

theorem keyed_prefetch (h : Keyed s) (p : Payload) : Keyed (prefetch s p).1 := by
  unfold prefetch
  dsimp only
  split
  · exact h
  · exact { h with }

theorem keyed_processInputRequest (h : Keyed s) (p : Payload) (result : BuildResult) (answers : Answers) :
    Keyed (processInputRequest cfg s p result answers) := by
  have h1 := keyed_prefetch h p
  have hid := requestId_prefetch s p
  obtain ⟨_, h2⟩ | h2 | ⟨_, h2 | h2 | h2⟩ := processInputRequest_cases cfg s p result answers
  · rw [h2]
    exact h
  · rw [h2]
    exact h.engine (cut_fail cfg s _ true).engine
  · rw [h2]
    refine { h1 with deferred := ?_ }
    intro x q hq
    rw [Dict.get?_set] at hq
    split at hq
    · next hx =>
      cases hq
      exact hid.trans hx.symm
    · exact h1.deferred x q hq
  · rw [h2]
    refine { h1 with builds := ?_ }
    intro x b hb
    rw [Dict.get?_set] at hb
    split at hb
    · next hx =>
      cases hb
      exact ⟨hid.trans hx.symm, rfl⟩
    · exact h1.builds x b hb
  · exact keyed_admitted h1 rfl h2

theorem keyed_drainBuild (h : Keyed s) (answers : Answers) : Keyed (drainRequestBuildResult cfg s answers) := by
  obtain h1 | ⟨r, build, hget, h1⟩ := drainBuild_cases cfg s answers
  · rw [h1]
    exact h
  · have hpop : Keyed { s with builds := s.builds.pop r } :=
      { h with builds := fun x b hb => h.builds x b (get?_of_pop hb) }
    obtain ⟨_, h1⟩ | h1 := h1
    · rw [h1]
      exact hpop
    · exact keyed_admitted hpop (h.builds r build hget).2 h1

theorem keyed_drainAdmission (h : Keyed s) (r : String) (answers : Answers) :
    Keyed (drainRequestAdmissionResult cfg s r answers) := by
  obtain h1 | ⟨pending, hget, h1⟩ := drainAdmission_cases cfg s r answers
  · rw [h1]
    exact h
  · have hpop : Keyed { s with admissions := s.admissions.pop r } :=
      { h with admissions := fun x a ha => h.admissions x a (get?_of_pop ha) }
    obtain ⟨_, h1⟩ | h1 := h1
    · rw [h1]
      exact hpop
    · exact keyed_admitted hpop (h.admissions r pending hget).2 h1

/-! ### Draining and processing -/

/-- An entry that is taken out of its table is in hand. -/
theorem count_pop {V : Type} {d : Dict String V} {x : String} {v : V} (h : d.get? x = some v) (r : String) :
    d.keys.count r = (d.pop x).keys.count r + [x].count r := by
  rw [Dict.count_keys_pop]
  by_cases hr : r = x
  · subst hr
    rw [Dict.count_keys, h]
    simp
  · rw [if_neg hr, List.count_cons_of_ne (Ne.symm hr), List.count_nil]
    rfl

theorem moved_drainBuild (haborted : ∀ r ∈ s.aborted, r ∈ s.abortLog) (hm : m ≤ s.reqCount) (hkeyed : Keyed s)
    (hand : List Payload) (answers : Answers) : Moved m r hand hand s (drainRequestBuildResult cfg s answers) := by
  obtain h1 | ⟨x, build, hget, h1⟩ := drainBuild_cases cfg s answers
  · rw [h1]
    exact Moved.refl m r hand s
  · have hid := (hkeyed.builds x build hget).1
    have hpop : Moved m r hand (build.payload :: hand) s { s with builds := s.builds.pop x } := by
      refine Moved.same rfl id ?_
      have hcount := count_pop hget r
      simp only [total, count_ids_cons, hid, entered]
      omega
    obtain ⟨hx, h1⟩ | h1 := h1
    · rw [h1]
      exact hpop.trans (Moved.drop hand (haborted _ (hid ▸ hx)))
    · exact hpop.trans (moved_admitted (by exact haborted) (by exact hm) hand h1)

theorem moved_drainAdmission (haborted : ∀ r ∈ s.aborted, r ∈ s.abortLog) (hm : m ≤ s.reqCount) (hkeyed : Keyed s)
    (hand : List Payload) (x : String) (answers : Answers) :
    Moved m r hand hand s (drainRequestAdmissionResult cfg s x answers) := by
  obtain h1 | ⟨pending, hget, h1⟩ := drainAdmission_cases cfg s x answers
  · rw [h1]
    exact Moved.refl m r hand s
  · have hid := (hkeyed.admissions x pending hget).1
    have hpop : Moved m r hand (pending.payload :: hand) s { s with admissions := s.admissions.pop x } := by
      refine Moved.same rfl id ?_
      have hcount := count_pop hget r
      simp only [total, count_ids_cons, hid, entered]
      omega
    obtain ⟨hx, h1⟩ | h1 := h1
    · rw [h1]
      exact hpop.trans (Moved.drop hand (haborted _ (hid ▸ hx)))
    · exact hpop.trans (moved_admitted (by exact haborted) (by exact hm) hand h1)

theorem moved_prefetch (hand : List Payload) (s : State) (p : Payload) :
    Moved m r (p :: hand) ((prefetch s p).2 :: hand) s (prefetch s p).1 := by
  unfold prefetch
  dsimp only
  split
  · exact Moved.same rfl id rfl
  · exact Moved.same rfl id rfl

/-- A request that is under way already has two places, or is aborted. -/
theorem moved_skip (haborted : ∀ r ∈ s.aborted, r ∈ s.abortLog) (hand : List Payload)
    (h : inProgress s p.requestId = true) : Moved m r (p :: hand) hand s s := by
  by_cases hlog : p.requestId ∈ s.abortLog
  · exact Moved.drop hand hlog
  · have hnot : p.requestId ∉ s.aborted := fun hmem => hlog (haborted _ hmem)
    have htwice : s.builds.keys.count p.requestId + s.admissions.keys.count p.requestId ≥ 1 := by
      simp only [inProgress, hnot, decide_false, Bool.false_or, Bool.or_eq_true, Dict.contains] at h
      rw [Dict.count_keys, Dict.count_keys]
      obtain h | h := h
      · rw [h]
        exact Nat.le_add_right _ _
      · rw [h]
        exact Nat.le_add_left _ _
    refine ⟨rfl, id, ?_, ?_⟩
    · simp only [total, count_ids_cons]
      omega
    · intro _ hone
      by_cases hr : p.requestId = r
      · subst hr
        simp only [total, count_ids_cons, List.count_cons_self] at hone
        omega
      · simp only [total, count_ids_cons, List.count_cons_of_ne hr, List.count_nil]
        omega

theorem moved_processInputRequest (haborted : ∀ r ∈ s.aborted, r ∈ s.abortLog) (hm : m ≤ s.reqCount)
    (hand : List Payload) (p : Payload) (result : BuildResult) (answers : Answers) :
    Moved m r (p :: hand) hand s (processInputRequest cfg s p result answers) := by
  have hprefetch := moved_prefetch (m := m) (r := r) hand s p
  have hid := requestId_prefetch s p
  have hframe : (prefetch s p).1.aborted = s.aborted ∧ (prefetch s p).1.abortLog = s.abortLog ∧
      (prefetch s p).1.reqCount = s.reqCount := by
    unfold prefetch
    dsimp only
    split <;> exact ⟨rfl, rfl, rfl⟩
  obtain ⟨hskip, h2⟩ | h2 | ⟨_, h2 | h2 | h2⟩ := processInputRequest_cases cfg s p result answers
  · rw [h2]
    exact moved_skip haborted hand hskip
  · rw [h2]
    exact Moved.fail cfg hand s p true
  · rw [h2]
    rw [← hid]
    exact hprefetch.trans (moved_deferred hand _ _ _)
  · rw [h2, ← hid]
    exact hprefetch.trans (moved_builds hand _ _ _)
  · obtain ⟨h3, h4, h5⟩ := hframe
    exact hprefetch.trans (moved_admitted (by rwa [h3, h4]) (by rwa [h5]) hand h2)

/-! ### Staging -/

theorem takeBacklog_suffix (s : State) (capacity : Nat) (backlog : List Payload) :
    (takeBacklog s capacity backlog).2 <:+ backlog := by
  fun_induction takeBacklog s capacity backlog with
  | case1 backlog => exact List.suffix_refl _
  | case2 capacity _ => exact List.suffix_refl _
  | case3 capacity payload backlog _ ih | case4 capacity payload backlog _ rest ih =>
    exact ih.trans (List.suffix_cons _ _)

theorem count_takeBacklog (s : State) (capacity : Nat) (backlog : List Payload) (r : String) :
    let taken := takeBacklog s capacity backlog
    (ids taken.1).count r + (ids taken.2).count r ≤ (ids backlog).count r ∧
      (inProgress s r = false → (ids taken.1).count r + (ids taken.2).count r = (ids backlog).count r) := by
  fun_induction takeBacklog s capacity backlog with
  | case1 backlog => simp [ids]
  | case2 capacity _ => simp [ids]
  | case3 capacity payload backlog hskip ih =>
    obtain ⟨hle, heq⟩ := ih
    refine ⟨?_, ?_⟩
    · rw [count_ids_cons]
      omega
    · intro hr
      have hne : payload.requestId ≠ r := by
        intro he
        rw [he, hr] at hskip
        cases hskip
      rw [heq hr, ids_cons, List.count_cons_of_ne hne]
  | case4 capacity payload backlog _ rest ih =>
    obtain ⟨hle, heq⟩ := ih
    simp only [rest, count_ids_cons]
    refine ⟨by omega, ?_⟩
    intro hr
    have := heq hr
    omega

/-- The places of `r` while payloads are staged. -/
def Staging.count (acc : Staging) (r : String) : Nat :=
  (ids acc.selected).count r + (ids acc.rejected).count r + (ids acc.backlog).count r

theorem count_append_singleton (l : List Payload) (p : Payload) (r : String) :
    (ids (l ++ [p])).count r = (ids l).count r + [p.requestId].count r := by
  rw [ids_append, List.count_append]
  rfl

/-- A payload finds its place, unless it has one already. -/
theorem count_stageOne (cfg : Config) (maxPending : Nat) {acc : Staging}
    (hids : ∀ x ∈ acc.backlogIds, x ∈ ids acc.backlog)
    (p : Payload) (r : String) :
    let acc' := stageOne cfg maxPending s acc p
    (∀ x ∈ acc'.backlogIds, x ∈ ids acc'.backlog) ∧ acc'.count r ≤ acc.count r + [p.requestId].count r ∧
      (inProgress s r = false → acc.count r + [p.requestId].count r ≤ 1 →
        acc'.count r = acc.count r + [p.requestId].count r) := by
  unfold stageOne Staging.count
  dsimp only
  split
  · next hskip =>
    refine ⟨hids, by omega, ?_⟩
    intro hr hone
    by_cases hp : p.requestId = r
    · subst hp
      simp only [List.count_cons_self] at hone
      simp only [hr, Bool.false_or, Bool.or_eq_true, decide_eq_true_eq] at hskip
      obtain hmem | hmem := hskip
      · have := List.count_pos_iff.mpr (hids _ hmem)
        omega
      · have hmem : p.requestId ∈ ids acc.selected := hmem
        have := List.count_pos_iff.mpr hmem
        omega
    · rw [List.count_cons_of_ne hp, List.count_nil]
      rfl
  · split_ifs
    iterate 3
      · refine ⟨hids, ?_, fun _ _ => ?_⟩ <;> simp only [count_append_singleton] <;> omega
    · refine ⟨?_, ?_, fun _ _ => ?_⟩
      · intro x hx
        rw [ids_append, List.mem_append]
        obtain hx | hx := List.mem_append.mp hx
        · exact .inl (hids x hx)
        · exact .inr hx
      · simp only [count_append_singleton]
        omega
      · simp only [count_append_singleton]
        omega

theorem count_stageAll (cfg : Config) (maxPending : Nat) (recvReqs : List Payload) {acc : Staging}
    (hids : ∀ x ∈ acc.backlogIds, x ∈ ids acc.backlog) (r : String) :
    let acc' := recvReqs.foldl (stageOne cfg maxPending s) acc
    acc'.count r ≤ acc.count r + (ids recvReqs).count r ∧
      (inProgress s r = false → acc.count r + (ids recvReqs).count r ≤ 1 →
        acc'.count r = acc.count r + (ids recvReqs).count r) := by
  induction recvReqs generalizing acc with
  | nil => exact ⟨Nat.le_refl _, fun _ _ => rfl⟩
  | cons p rest ih =>
    obtain ⟨hids', hle, heq⟩ := count_stageOne (s := s) cfg maxPending hids p r
    obtain ⟨hle', heq'⟩ := ih hids'
    rw [count_ids_cons]
    refine ⟨Nat.le_trans hle' (by omega), ?_⟩
    intro hr hone
    have hfirst := heq hr (by omega)
    rw [List.foldl_cons, heq' hr (by omega), hfirst]
    omega

theorem count_stagingStart (maxPending : Nat) (s : State) (r : String) :
    let acc := stagingStart maxPending s
    (∀ x ∈ acc.backlogIds, x ∈ ids acc.backlog) ∧ acc.count r ≤ (ids s.backlog).count r ∧
      (inProgress s r = false → acc.count r = (ids s.backlog).count r) := by
  have hsuffix := takeBacklog_suffix s (maxPending - s.builds.length) s.backlog
  obtain ⟨hle, heq⟩ := count_takeBacklog s (maxPending - s.builds.length) s.backlog r
  simp only [stagingStart, Staging.count]
  generalize takeBacklog s (maxPending - s.builds.length) s.backlog = taken at hsuffix hle heq ⊢
  have hnil : (ids []).count r = 0 := rfl
  refine ⟨?_, by omega, fun hr => by have := heq hr; omega⟩
  intro x hx
  obtain ⟨hmem, hout⟩ := List.mem_filter.mp hx
  have hsplit := List.suffix_iff_eq_append.mp hsuffix
  have hmem : x ∈ ids s.backlog := hmem
  rw [← hsplit, ids_append, List.mem_append] at hmem
  obtain hmem | hmem := hmem
  · have hmem : x ∈ (s.backlog.take (s.backlog.length - taken.2.length)).map (·.requestId) := hmem
    simp only [decide_eq_true_eq] at hout
    exact absurd hmem hout
  · exact hmem

theorem moved_stage (haborted : ∀ r ∈ s.aborted, r ∈ s.abortLog) (recvReqs : List Payload) :
    let staged := stageRequestBuildPayloads cfg s recvReqs
    Moved m r recvReqs (staged.2.2 ++ staged.2.1) s staged.1 := by
  unfold stageRequestBuildPayloads
  dsimp only
  split
  · exact Moved.refl m r recvReqs s
  · next maxPending _ =>
    split
    · have hbacklog := count_filter_ids s.backlog (fun p => p.requestId ∉ s.aborted) r
      have hrecv := count_filter_ids recvReqs
        (fun p => p.requestId ∉ s.aborted ∧ ¬ s.builds.contains p.requestId) r
      have hentered : entered { s with backlog := [] } = entered s := rfl
      have hnil : (ids []).count r = 0 := rfl
      refine ⟨rfl, id, ?_, ?_⟩
      · simp only [total, List.append_nil, ids_append, List.count_append, hentered, hnil]
        omega
      · intro hr hone
        have hnot : r ∉ s.aborted := fun h => hr (haborted r h)
        have hkept := hbacklog.2 fun p _ hp => by simp [hp, hnot]
        by_cases hb : s.builds.contains r = true
        · have hcount : s.builds.keys.count r = 1 := by
            rw [Dict.count_keys]
            simp only [Dict.contains] at hb
            rw [hb]
            rfl
          simp only [total, List.append_nil, ids_append, List.count_append, hentered, hnil] at hone ⊢
          omega
        · have hkept' := hrecv.2 fun p _ hp => by rw [hp]; exact decide_eq_true ⟨hnot, hb⟩
          simp only [total, List.append_nil, ids_append, List.count_append, hentered, hnil]
          omega
    · obtain ⟨hids, hle, heq⟩ := count_stagingStart maxPending s r
      obtain ⟨hle', heq'⟩ := count_stageAll (s := s) cfg maxPending recvReqs hids r
      have hentered : entered { s with backlog := (staged cfg maxPending s recvReqs).backlog } = entered s := rfl
      simp only [Staging.count] at hle heq hle' heq'
      refine ⟨rfl, id, ?_, ?_⟩
      · simp only [total, ids_append, List.count_append, hentered]
        simp only [staged]
        omega
      · intro hr hone
        have hnot : r ∉ s.aborted := fun h => hr (haborted r h)
        simp only [total, ids_append, List.count_append, hentered] at hone ⊢
        simp only [staged]
        cases hprogress : inProgress s r with
        | false =>
          have h1 := heq hprogress
          have h2 := heq' hprogress (by omega)
          omega
        | true =>
          have htwice : s.builds.keys.count r + s.admissions.keys.count r ≥ 1 := by
            simp only [inProgress, hnot, decide_false, Bool.false_or, Bool.or_eq_true, Dict.contains] at hprogress
            rw [Dict.count_keys, Dict.count_keys]
            obtain h | h := hprogress
            · rw [h]
              exact Nat.le_add_right _ _
            · rw [h]
              exact Nat.le_add_left _ _
          omega

/-! ### Deferred payloads -/

theorem count_filterMap_get? {d : Dict String Payload} (hkeyed : ∀ r p, d.get? r = some p → p.requestId = r)
    {l : List String} (hnodup : l.Nodup) (r : String) :
    (ids (l.filterMap d.get?)).count r = if r ∈ l then d.keys.count r else 0 := by
  induction l with
  | nil => rfl
  | cons x rest ih =>
    obtain ⟨hx, hrest⟩ := List.nodup_cons.mp hnodup
    have hrest := ih hrest
    cases hd : d.get? x with
    | none =>
      rw [List.filterMap_cons_none hd, hrest]
      by_cases hr : r = x
      · subst hr
        rw [if_neg hx, if_pos List.mem_cons_self, Dict.count_keys, hd]
        rfl
      · simp only [List.mem_cons, hr, false_or]
    | some p =>
      have hp := hkeyed x p hd
      rw [List.filterMap_cons_some hd, ids_cons, hp]
      by_cases hr : r = x
      · subst hr
        rw [List.count_cons_self, hrest, if_neg hx, if_pos List.mem_cons_self, Dict.count_keys, hd]
        rfl
      · rw [List.count_cons_of_ne (Ne.symm hr), hrest]
        simp only [List.mem_cons, hr, false_or]

theorem moved_takeDeferred (hkeyed : Keyed s) (recvReqs : List Payload) (order : List String) :
    let taken := takeDeferredRequestPayloads s order
    Moved m r recvReqs (recvReqs ++ taken.2) s taken.1 := by
  dsimp only
  refine Moved.same rfl id ?_
  have htaken := count_filterMap_get? hkeyed.deferred (nodup_arranged order hkeyed.dirty) r
  have hleft : ((arranged order s.dirty).foldl Dict.pop s.deferred).keys.count r =
      if r ∈ arranged order s.dirty then 0 else s.deferred.keys.count r := by
    rw [Dict.count_keys, Dict.get?_foldl_pop]
    split
    · rfl
    · rw [Dict.count_keys]
  have hentered : entered (takeDeferredRequestPayloads s order).1 = entered s := rfl
  simp only [total, hentered, ids_append, List.count_append]
  simp only [takeDeferredRequestPayloads, htaken, hleft]
  split <;> omega

theorem keyed_takeDeferred (h : Keyed s) (order : List String) : Keyed (takeDeferredRequestPayloads s order).1 := by
  refine { h with deferred := ?_, dirty := List.nodup_nil }
  intro x p hp
  simp only [takeDeferredRequestPayloads, Dict.get?_foldl_pop] at hp
  split at hp
  · cases hp
  · exact h.deferred x p hp

/-! ### Every run -/

/-- `n` new requests came before the one that is looked at. -/
structure Tokens (n m : Nat) (r : String) (hand : List Payload) (s : State) : Prop where
  made : m ≤ s.reqCount
  le : total m r hand s + n ≤ (newIds s.received).count r
  kept : r ∉ s.abortLog → (newIds s.received).count r ≤ n + 1 → total m r hand s + n = (newIds s.received).count r

variable {n : Nat}

theorem Tokens.moved (h : Tokens n m r hand s) (hcount : s.reqCount ≤ s'.reqCount)
    (hmoved : Moved m r hand hand' s s') :
    Tokens n m r hand' s' where
  made := Nat.le_trans h.made hcount
  le := by
    rw [hmoved.received]
    exact Nat.le_trans (Nat.add_le_add_right hmoved.le n) h.le
  kept hr hone := by
    rw [hmoved.received] at hone ⊢
    have hle := h.le
    rw [hmoved.kept hr (by omega)]
    exact h.kept (fun hlog => hr (hmoved.log hlog)) hone

theorem newIds_singleton (msg : IncomingMessage) :
    newIds [msg] = if msg.input = .newRequest then [msg.requestId] else [] := by
  simp only [newIds, List.filterMap_cons, List.filterMap_nil]
  split
  · next h =>
    split at h
    · cases h
    · next hi => rw [if_neg hi]
  · next h =>
    split at h
    · next hi =>
      rw [if_pos hi]
      cases h
      rfl
    · cases h

theorem total_recvFrame (h : RecvFrame s s') (hand : List Payload) : total m r hand s' = total m r hand s := by
  have hentered : entered s' = entered s := entered_congr h.reqCount fun q => by rw [h.batches]
  simp only [total, hentered, h.backlog, h.deferred, h.builds, h.admissions]

theorem tokens_recvOne (cfg : Config) (haborted : ∀ r ∈ acc.1.aborted, r ∈ acc.1.abortLog)
    (h : Tokens n m r acc.2 acc.1) (msg : IncomingMessage) :
    Tokens n m r (recvOne cfg acc msg).2 (recvOne cfg acc msg).1 := by
  have hframe := recvFrame_recvOne cfg acc msg
  have hreceived := received_recvOne cfg acc msg
  have hnew := newIds_singleton msg
  have hmade : m ≤ (recvOne cfg acc msg).1.reqCount := by
    rw [hframe.reqCount]
    exact h.made
  have hle := h.le
  obtain ⟨hmem, h1⟩ | ⟨_, hinput, h1⟩ | ⟨item, _, _, hitem, _, h1⟩ := recvOne_cases cfg acc msg
  · have hhand : (recvOne cfg acc msg).2 = acc.2 := by rw [h1]
    refine ⟨hmade, ?_, ?_⟩
    · rw [hhand, total_recvFrame hframe, hreceived, newIds_append, List.count_append]
      omega
    · intro hr hone
      rw [hframe.abortLog] at hr
      rw [hreceived, newIds_append, List.count_append] at hone ⊢
      have hne : msg.requestId ≠ r := fun he => hr (haborted r (he ▸ hmem))
      have hzero : (newIds [msg]).count r = 0 := by
        rw [hnew]
        split
        · rw [List.count_cons_of_ne hne, List.count_nil]
        · rfl
      rw [hhand, total_recvFrame hframe, h.kept hr (by omega), hzero]
      rfl
  · have hhand : (recvOne cfg acc msg).2 = acc.2 ++ [{ requestId := msg.requestId }] := by rw [h1]
    rw [if_pos hinput] at hnew
    have htotal : total m r (recvOne cfg acc msg).2 (recvOne cfg acc msg).1 =
        total m r acc.2 acc.1 + [msg.requestId].count r := by
      rw [total_recvFrame hframe, hhand]
      simp only [total, count_append_singleton]
      omega
    refine ⟨hmade, ?_, ?_⟩
    · rw [htotal, hreceived, newIds_append, List.count_append, hnew]
      omega
    · intro hr hone
      rw [hframe.abortLog] at hr
      rw [hreceived, newIds_append, List.count_append, hnew] at hone ⊢
      have hkept := h.kept hr (by omega)
      omega
  · have hhand : (recvOne cfg acc msg).2 = acc.2 := by rw [h1]
    have hnot : ¬ msg.input = .newRequest := by
      obtain ⟨c, hc, _⟩ | ⟨hd, _⟩ := hitem
      · rw [hc]
        exact fun he => nomatch he
      · rw [hd]
        exact fun he => nomatch he
    rw [if_neg hnot] at hnew
    refine ⟨hmade, ?_, ?_⟩
    · rw [hhand, total_recvFrame hframe, hreceived, newIds_append, List.count_append, hnew]
      exact hle
    · intro hr hone
      rw [hframe.abortLog] at hr
      rw [hreceived, newIds_append, List.count_append, hnew] at hone ⊢
      rw [hhand, total_recvFrame hframe]
      exact h.kept hr hone

/-- What the recursion of `recv_requests` carries along. -/
theorem recvOne_invariant (cfg : Config) {P : State × List Payload → Prop}
    (hstep : ∀ acc msg, P acc → P (recvOne cfg acc msg)) (h : P acc) (msgs : List IncomingMessage) :
    P (msgs.foldl (recvOne cfg) acc) := by
  induction msgs generalizing acc with
  | nil => exact h
  | cons msg rest ih => exact ih (hstep acc msg h)

theorem tokens_recvRequests (cfg : Config) (haborted : ∀ r ∈ s.aborted, r ∈ s.abortLog) (h : Tokens n m r [] s)
    (msgs : List IncomingMessage) :
    Tokens n m r (recvRequests cfg s msgs).2 (recvRequests cfg s msgs).1 := by
  have hboth : (∀ r ∈ (recvRequests cfg s msgs).1.aborted, r ∈ (recvRequests cfg s msgs).1.abortLog) ∧
      Tokens n m r (recvRequests cfg s msgs).2 (recvRequests cfg s msgs).1 := by
    refine recvOne_invariant cfg
      (P := fun acc => (∀ r ∈ acc.1.aborted, r ∈ acc.1.abortLog) ∧ Tokens n m r acc.2 acc.1) ?_ ⟨haborted, h⟩ msgs
    intro acc msg hacc
    refine ⟨?_, tokens_recvOne cfg hacc.1 hacc.2 msg⟩
    have hframe := recvFrame_recvOne cfg acc msg
    rw [hframe.aborted, hframe.abortLog]
    exact hacc.1
  exact hboth.2

theorem keyed_recvOne (cfg : Config) (h : Keyed acc.1) (msg : IncomingMessage) :
    Keyed (recvOne cfg acc msg).1 := by
  obtain ⟨_, h1⟩ | ⟨_, _, h1⟩ | ⟨item, recheck, _, _, _, h1⟩ := recvOne_cases cfg acc msg
  · rw [h1]
    exact { h with }
  · rw [h1]
    exact { h with }
  · rw [h1]
    unfold onStream
    split
    · exact { h with }
    · split
      · exact { h with }
      · dsimp only
        split
        · exact { h with dirty := nodup_addId h.dirty _ }
        · exact { h with }

theorem keyed_recvRequests (cfg : Config) (h : Keyed s) (msgs : List IncomingMessage) :
    Keyed (recvRequests cfg s msgs).1 :=
  recvOne_invariant cfg (P := fun acc => Keyed acc.1) (fun _ msg h => keyed_recvOne cfg h msg) h msgs

theorem keyed_create : Keyed State.create :=
  ⟨(fun _ _ h => nomatch h), (fun _ _ h => nomatch h), (fun _ _ h => nomatch h), List.nodup_nil⟩

theorem keyed_step {e : Event} (hs : Sane s) (h : Keyed s) : Keyed (step cfg s e) := by
  by_cases he : e.engine = true
  · obtain ⟨rs, hengine⟩ := engine_step cfg hs he
    exact h.engine hengine
  · refine step_rule h fun s' hf => ?_
    cases hf with
    | recv msgs _ _ => exact { keyed_recvRequests cfg h msgs with }
    | takeDeferred order _ _ => exact { keyed_takeDeferred h order with }
    | drainBuild answers _ => exact keyed_drainBuild h answers
    | drainAdmission x answers _ => exact keyed_drainAdmission h x answers
    | stage recvReqs _ =>
      rw [stage_backlog]
      exact { h with }
    | reject payload _ _ _ => exact { h.engine (cut_fail cfg s _ true).engine with }
    | process result answers payload _ _ => exact { keyed_processInputRequest h payload result answers with }
    | buildDone x result build hbuild =>
      refine { h with builds := ?_ }
      intro y b hb
      rw [Dict.get?_set] at hb
      split at hb
      · next hy =>
        cases hb
        rw [hy]
        exact h.builds x build hbuild
      · exact h.builds y b hb
    | _ => exact absurd rfl he

theorem admitRule_reqCount (cfg : Config) (m : Nat) : AdmitRule cfg fun s => m ≤ s.reqCount where
  tables _ _ _ _ _ h := h
  fail t r d h := by rwa [(cut_fail cfg t r d).reqCount]
  enqueue _ _ _ h := Nat.le_succ_of_le h

theorem tokens_stage (cfg : Config) (haborted : ∀ r ∈ s.aborted, r ∈ s.abortLog) {recvReqs : List Payload}
    (h : Tokens n m r recvReqs s) :
    Tokens n m r ((stageRequestBuildPayloads cfg s recvReqs).2.2 ++ (stageRequestBuildPayloads cfg s recvReqs).2.1)
      (stageRequestBuildPayloads cfg s recvReqs).1 :=
  h.moved (Nat.le_of_eq (by rw [stage_backlog])) (moved_stage haborted recvReqs)

theorem tokens_step {e : Event} (hs : Sane s) (hkeyed : Keyed s) (h : Tokens n m r s.phase.payloads s) :
    Tokens n m r (step cfg s e).phase.payloads (step cfg s e) := by
  have haborted := hs.requests.aborted
  by_cases he : e.engine = true
  · obtain ⟨rs, hengine⟩ := engine_step cfg hs he
    rw [payloads_step cfg s he]
    exact h.moved (Nat.le_of_eq hengine.reqCount.symm) (Moved.engine hengine)
  · refine step_rule (P := fun s' => Tokens n m r s'.phase.payloads s') h fun s' hf => ?_
    cases hf with
    | recv msgs hphase _ =>
      rw [hphase] at h
      have hrecv := tokens_recvRequests cfg haborted h msgs
      exact ⟨hrecv.made, hrecv.le, hrecv.kept⟩
    | takeDeferred order recvReqs hphase =>
      rw [hphase] at h
      have htaken : Tokens n m r (recvReqs ++ (takeDeferredRequestPayloads s order).2)
          (takeDeferredRequestPayloads s order).1 :=
        h.moved (Nat.le_refl _) (moved_takeDeferred hkeyed recvReqs order)
      exact ⟨htaken.made, htaken.le, htaken.kept⟩
    | drainBuild answers _ =>
      rw [((admitRule_admitFrame cfg s).drainBuild (AdmitFrame.refl s) answers).phase]
      exact h.moved ((admitRule_reqCount cfg s.reqCount).drainBuild (Nat.le_refl _) answers)
        (moved_drainBuild haborted h.made hkeyed _ answers)
    | drainAdmission x answers _ =>
      rw [((admitRule_admitFrame cfg s).drainAdmission (AdmitFrame.refl s) x answers).phase]
      exact h.moved ((admitRule_reqCount cfg s.reqCount).drainAdmission (Nat.le_refl _) x answers)
        (moved_drainAdmission haborted h.made hkeyed _ x answers)
    | stage recvReqs hphase =>
      rw [hphase] at h
      have hstage := tokens_stage cfg haborted h
      exact ⟨hstage.made, hstage.le, hstage.kept⟩
    | reject p rejected selected hphase =>
      rw [hphase] at h
      have hcount := (cut_fail cfg s p.requestId true).reqCount
      have hfail := h.moved (Nat.le_of_eq hcount.symm) (Moved.fail cfg (rejected ++ selected) s p true)
      exact ⟨hfail.made, hfail.le, hfail.kept⟩
    | process result answers p selected hphase =>
      rw [hphase] at h
      have hcount := (admitRule_reqCount cfg s.reqCount).processInputRequest (Nat.le_refl _) p result answers
      have hdone := h.moved hcount (moved_processInputRequest haborted h.made selected p result answers)
      exact ⟨hdone.made, hdone.le, hdone.kept⟩
    | buildDone x result build hbuild =>
      refine h.moved (Nat.le_refl _) (Moved.same rfl id ?_)
      have hcount : (s.builds.set x { build with future := some result }).keys.count r = s.builds.keys.count r := by
        rw [Dict.count_keys_set]
        split
        · next hx =>
          rw [Dict.count_keys, hx, hbuild]
          rfl
        · rfl
      simp only [total, hcount]
      rfl
    | _ => exact absurd rfl he

end SglangOmni.Scheduling.Scheduler
