import SglangOmni.Scheduling.Scheduler.Frames

/-! What holds of the requests in every run.

`Requests`: a request's data is its own, it is detached by an abort or by the end of the request
only, and a request that has ended is on its way through `stream_output`. `Placed`: a request that
is neither finished nor aborted is queued, running, or in the batch of the iteration. -/
namespace SglangOmni.Scheduling.Scheduler
open Lib

variable {cfg : Config} {s s' : State} {q : Nat}

/-! ### Requests -/

structure Requests (s : State) : Prop where
  owned : s.data.length = s.reqCount
  data : ∀ q d, q < s.reqCount → (s.batches.req q).omniData = some d → d = q
  detached : ∀ q, q < s.reqCount → (s.batches.req q).omniData = none →
    (s.batches.req q).rid ∈ s.abortLog ∨
      (s.batches.req q).finished = true ∧ (s.batches.req q).omniTerminalClaimed = true
  toFinish : ∀ q, q < s.reqCount → (s.batches.req q).toFinish = true → (s.batches.req q).rid ∈ s.abortLog
  finishAbort : ∀ q, q < s.reqCount → (s.batches.req q).finishedReason = some .abort →
    (s.batches.req q).rid ∈ s.abortLog
  flag : ∀ q, q < s.reqCount → (s.batches.req q).omniTerminalClaimed = true → (s.batches.req q).omniData ≠ none →
    s.claimed = some q
  closing : ∀ q, q < s.reqCount → (s.batches.req q).finished = true → (s.batches.req q).omniData ≠ none →
    (s.batches.req q).rid ∉ s.abortLog → q ∈ s.streaming ∨ s.claimed = some q
  claimed : ∀ q, s.claimed = some q →
    (s.batches.req q).finished = true ∧ (s.batches.req q).omniTerminalClaimed = true
  attached : ∀ q, s.claimed = some q → (s.batches.req q).rid ∈ s.abortLog ∨ (s.batches.req q).omniData ≠ none
  completed : ∀ r ∈ s.completed, r ∈ s.abortLog ∨
    ∃ q, q < s.reqCount ∧ (s.batches.req q).rid = r ∧ (s.batches.req q).omniData = none
  aborted : ∀ r ∈ s.aborted, r ∈ s.abortLog

theorem Cut.finished {rs : List String} (h : Cut rs s s') (q : Nat) :
    (s'.batches.req q).finished = (s.batches.req q).finished := by
  simp only [Req.finished, h.finishedReason]

/-- Aborts give their own excuse. -/
theorem Requests.cut {rs : List String} (h : Requests s) (hcut : Cut rs s s') : Requests s' := by
  have hlog : ∀ r, r ∈ s.abortLog ∨ r ∈ rs → r ∈ s'.abortLog := by
    intro r hr
    rw [hcut.abortLog]
    exact List.mem_append.mpr hr
  have hnot : ∀ r, r ∉ s'.abortLog → r ∉ s.abortLog ∧ r ∉ rs :=
    fun r hr => ⟨fun h => hr (hlog r (.inl h)), fun h => hr (hlog r (.inr h))⟩
  have hdata : ∀ q, (s'.batches.req q).omniData ≠ none → (s.batches.req q).omniData ≠ none := by
    intro q hq
    obtain h1 | h1 := hcut.omniData q
    · rwa [← h1]
    · exact absurd h1 hq
  refine ⟨?_, ?_, ?_, ?_, ?_, ?_, ?_, ?_, ?_, ?_, ?_⟩
  · rw [hcut.data, hcut.reqCount]
    exact h.owned
  · intro q d hq hd
    rw [hcut.reqCount] at hq
    obtain h1 | h1 := hcut.omniData q
    · exact h.data q d hq (h1 ▸ hd)
    · rw [h1] at hd
      cases hd
  · intro q hq hnone
    rw [hcut.reqCount] at hq
    rw [hcut.rid, hcut.finished, hcut.claimedFlag]
    by_cases hr : (s.batches.req q).rid ∈ rs
    · exact .inl (hlog _ (.inr hr))
    · rw [hcut.other q hr] at hnone
      exact (h.detached q hq hnone).imp_left fun h => hlog _ (.inl h)
  · intro q hq hfinish
    rw [hcut.reqCount] at hq
    rw [hcut.rid]
    by_cases hr : (s.batches.req q).rid ∈ rs
    · exact hlog _ (.inr hr)
    · rw [hcut.other q hr] at hfinish
      exact hlog _ (.inl (h.toFinish q hq hfinish))
  · intro q hq hfinish
    rw [hcut.reqCount] at hq
    rw [hcut.finishedReason] at hfinish
    rw [hcut.rid]
    exact hlog _ (.inl (h.finishAbort q hq hfinish))
  · intro q hq hflag hd
    rw [hcut.reqCount] at hq
    rw [hcut.claimedFlag] at hflag
    rw [hcut.claimed]
    exact h.flag q hq hflag (hdata q hd)
  · intro q hq hfinished hd hr
    rw [hcut.reqCount] at hq
    rw [hcut.finished] at hfinished
    rw [hcut.rid] at hr
    rw [hcut.streaming, hcut.claimed]
    exact h.closing q hq hfinished (hdata q hd) (hnot _ hr).1
  · intro q hq
    rw [hcut.claimed] at hq
    rw [hcut.finished, hcut.claimedFlag]
    exact h.claimed q hq
  · intro q hq
    rw [hcut.claimed] at hq
    rw [hcut.rid]
    by_cases hr : (s.batches.req q).rid ∈ rs
    · exact .inl (hlog _ (.inr hr))
    · rw [hcut.other q hr]
      exact (h.attached q hq).imp_left fun h => hlog _ (.inl h)
  · intro r hr
    rw [hcut.completed] at hr
    obtain hr | ⟨q, hq, hrid, hd⟩ := h.completed r hr
    · exact .inl (hlog r (.inl hr))
    · refine .inr ⟨q, by rwa [hcut.reqCount], by rwa [hcut.rid], ?_⟩
      obtain h1 | h1 := hcut.omniData q
      · rwa [h1]
      · exact h1
  · intro r hr
    obtain hr | hr := hcut.aborted r hr
    · exact hlog r (.inl (h.aborted r hr))
    · exact hlog r (.inr hr)

/-- The requests are the same, up to their retraction. -/
structure SameRequests (s s' : State) : Prop where
  rid : ∀ q, (s'.batches.req q).rid = (s.batches.req q).rid
  finishedReason : ∀ q, (s'.batches.req q).finishedReason = (s.batches.req q).finishedReason
  toFinish : ∀ q, (s'.batches.req q).toFinish = (s.batches.req q).toFinish
  flag : ∀ q, (s'.batches.req q).omniTerminalClaimed = (s.batches.req q).omniTerminalClaimed
  omniData : ∀ q, (s'.batches.req q).omniData = (s.batches.req q).omniData
  dataLength : s'.data.length = s.data.length
  reqCount : s'.reqCount = s.reqCount
  streaming : s'.streaming = s.streaming
  claimed : s'.claimed = s.claimed
  completed : ∀ r ∈ s'.completed, r ∈ s.completed
  abortLog : s'.abortLog = s.abortLog
  aborted : s'.aborted = s.aborted

theorem SameRequests.refl (s : State) : SameRequests s s :=
  ⟨fun _ => rfl, fun _ => rfl, fun _ => rfl, fun _ => rfl, fun _ => rfl, rfl, rfl, rfl, rfl, fun _ h => h, rfl,
    rfl⟩

theorem Requests.same (h : Requests s) (hs : SameRequests s s') : Requests s' := by
  have hfinished : ∀ q, (s'.batches.req q).finished = (s.batches.req q).finished := by
    intro q
    simp only [Req.finished, hs.finishedReason]
  refine ⟨?_, ?_, ?_, ?_, ?_, ?_, ?_, ?_, ?_, ?_, ?_⟩
  · rw [hs.dataLength, hs.reqCount]
    exact h.owned
  · intro q d
    rw [hs.reqCount, hs.omniData]
    exact h.data q d
  · intro q
    rw [hs.reqCount, hs.omniData, hs.rid, hs.abortLog, hfinished, hs.flag]
    exact h.detached q
  · intro q
    rw [hs.reqCount, hs.toFinish, hs.rid, hs.abortLog]
    exact h.toFinish q
  · intro q
    rw [hs.reqCount, hs.finishedReason, hs.rid, hs.abortLog]
    exact h.finishAbort q
  · intro q
    rw [hs.reqCount, hs.flag, hs.omniData, hs.claimed]
    exact h.flag q
  · intro q
    rw [hs.reqCount, hfinished, hs.omniData, hs.rid, hs.abortLog, hs.streaming, hs.claimed]
    exact h.closing q
  · intro q
    rw [hs.claimed, hfinished, hs.flag]
    exact h.claimed q
  · intro q
    rw [hs.claimed, hs.rid, hs.abortLog, hs.omniData]
    exact h.attached q
  · intro r hr
    rw [hs.abortLog, hs.reqCount]
    simp only [hs.rid, hs.omniData]
    exact h.completed r (hs.completed r hr)
  · rw [hs.aborted, hs.abortLog]
    exact h.aborted

theorem RecvFrame.sameRequests (h : RecvFrame s s') : SameRequests s s' where
  rid q := by rw [h.batches]
  finishedReason q := by rw [h.batches]
  toFinish q := by rw [h.batches]
  flag q := by rw [h.batches]
  omniData q := by rw [h.batches]
  dataLength := h.dataLength
  reqCount := h.reqCount
  streaming := h.streaming
  claimed := h.claimed
  completed := h.completed
  abortLog := h.abortLog
  aborted := h.aborted

theorem requests_enqueue (h : Requests s) (hclaimed : ∀ q, s.claimed = some q → q < s.reqCount) (r : String)
    (handed : List Handed) : Requests (enqueue s r handed) := by
  have hold : ∀ q, q < s.reqCount → (enqueue s r handed).batches.req q = s.batches.req q := by
    intro q hq
    simp only [enqueue, Batches.setReq, Function.update_of_ne (Nat.ne_of_lt hq)]
  have hnew : (enqueue s r handed).batches.req s.reqCount = { rid := r, omniData := some s.data.length } := by
    simp [enqueue, Batches.setReq]
  have hcases : ∀ q, q < (enqueue s r handed).reqCount → q < s.reqCount ∨ q = s.reqCount :=
    fun q hq => Nat.lt_or_eq_of_le (Nat.le_of_lt_succ hq)
  refine ⟨?_, ?_, ?_, ?_, ?_, ?_, ?_, ?_, ?_, ?_, h.aborted⟩
  · simp only [enqueue, List.length_append, List.length_singleton, h.owned]
  · intro q d hq hd
    obtain hq | rfl := hcases q hq
    · rw [hold q hq] at hd
      exact h.data q d hq hd
    · rw [hnew] at hd
      cases hd
      exact h.owned
  · intro q hq hd
    obtain hq | rfl := hcases q hq
    · rw [hold q hq] at hd ⊢
      exact h.detached q hq hd
    · rw [hnew] at hd
      cases hd
  · intro q hq hf
    obtain hq | rfl := hcases q hq
    · rw [hold q hq] at hf ⊢
      exact h.toFinish q hq hf
    · rw [hnew] at hf
      cases hf
  · intro q hq hf
    obtain hq | rfl := hcases q hq
    · rw [hold q hq] at hf ⊢
      exact h.finishAbort q hq hf
    · rw [hnew] at hf
      cases hf
  · intro q hq hf hd
    obtain hq | rfl := hcases q hq
    · rw [hold q hq] at hf hd
      exact h.flag q hq hf hd
    · rw [hnew] at hf
      cases hf
  · intro q hq hf hd hr
    obtain hq | rfl := hcases q hq
    · rw [hold q hq] at hf hd hr
      exact h.closing q hq hf hd hr
    · rw [hnew] at hf
      cases hf
  · intro q hq
    rw [hold q (hclaimed q hq)]
    exact h.claimed q hq
  · intro q hq
    rw [hold q (hclaimed q hq)]
    exact h.attached q hq
  · intro x hx
    obtain hx | ⟨q, hq, hrid, hd⟩ := h.completed x hx
    · exact .inl hx
    · exact .inr ⟨q, Nat.lt_succ_of_lt hq, by rwa [hold q hq], by rwa [hold q hq]⟩

theorem admitRule_requests (cfg : Config) : AdmitRule cfg fun s => Known s ∧ Requests s where
  tables _ _ _ _ _ h := ⟨{ h.1 with }, { h.2 with }⟩
  fail t r d h := ⟨h.1.cut (cut_fail cfg t r d), h.2.cut (cut_fail cfg t r d)⟩
  enqueue _ r handed h := ⟨known_enqueue h.1 r handed, requests_enqueue h.2 h.1.claimed r handed⟩

/-- Requests finish on their way into `stream_output`. -/
theorem requests_processBatchResult (h : Requests s) (hloop : atLoop s = true) (reqs finishing : List Nat) :
    Requests (processBatchResult s reqs finishing) := by
  simp only [atLoop, Bool.and_eq_true, decide_eq_true_eq] at hloop
  obtain ⟨hstreaming, hclaimed⟩ := hloop
  have hcases : ∀ q, (processBatchResult s reqs finishing).batches.req q = s.batches.req q ∨
      (q ∈ reqs ∧ (s.batches.req q).finished = false ∧ (processBatchResult s reqs finishing).batches.req q =
        { s.batches.req q with finishedReason := some (if (s.batches.req q).toFinish then .abort else .done) }) := by
    intro q
    simp only [processBatchResult]
    split
    · next hq =>
      cases hf : (s.batches.req q).finished with
      | true => exact .inl (by simp only [Req.finish, hf, if_true])
      | false => exact .inr ⟨hq.1, rfl, by simp [Req.finish, hf]⟩
    · exact .inl rfl
  have hrid : ∀ q, ((processBatchResult s reqs finishing).batches.req q).rid = (s.batches.req q).rid :=
    (sameTables_processBatchResult s reqs finishing).rid
  have hdata : ∀ q, ((processBatchResult s reqs finishing).batches.req q).omniData = (s.batches.req q).omniData := by
    intro q
    obtain h1 | ⟨_, _, h1⟩ := hcases q
    · rw [h1]
    · rw [h1]
  refine ⟨h.owned, ?_, ?_, ?_, ?_, ?_, ?_, ?_, ?_, ?_, h.aborted⟩
  · intro q d hq hd
    refine h.data q d hq ?_
    obtain h1 | ⟨_, _, h1⟩ := hcases q
    · rwa [h1] at hd
    · rw [h1] at hd
      exact hd
  · intro q hq hd
    rw [hrid]
    obtain h1 | ⟨_, hf, _⟩ := hcases q
    · rw [h1] at hd ⊢
      exact h.detached q hq hd
    · rw [hdata] at hd
      obtain hr | ⟨hfinished, _⟩ := h.detached q hq hd
      · exact .inl hr
      · rw [hf] at hfinished
        cases hfinished
  · intro q hq hf
    rw [hrid]
    refine h.toFinish q hq ?_
    obtain h1 | ⟨_, _, h1⟩ := hcases q
    · rwa [h1] at hf
    · rw [h1] at hf
      exact hf
  · intro q hq hf
    rw [hrid]
    obtain h1 | ⟨_, _, h1⟩ := hcases q
    · rw [h1] at hf
      exact h.finishAbort q hq hf
    · rw [h1] at hf
      dsimp only at hf
      split at hf
      · next ht => exact h.toFinish q hq ht
      · cases hf
  · intro q hq hf hd
    obtain h1 | ⟨_, _, h1⟩ := hcases q
    · rw [h1] at hf hd
      exact h.flag q hq hf hd
    · rw [h1] at hf hd
      exact h.flag q hq hf hd
  · intro q hq hf hd hr
    rw [hrid] at hr
    obtain h1 | ⟨hmem, _, _⟩ := hcases q
    · rw [h1] at hf hd
      obtain hold | hold := h.closing q hq hf hd hr
      · rw [hstreaming] at hold
        cases hold
      · rw [hclaimed] at hold
        cases hold
    · exact .inl hmem
  · intro q hq
    have hnone : s.claimed = some q := hq
    rw [hclaimed] at hnone
    cases hnone
  · intro q hq
    have hnone : s.claimed = some q := hq
    rw [hclaimed] at hnone
    cases hnone
  · intro r hr
    obtain hr | ⟨q, hq, hr, hd⟩ := h.completed r hr
    · exact .inl hr
    · exact .inr ⟨q, hq, by rwa [hrid], by rwa [hdata]⟩

theorem req_detachRequestData (b : Batches) (q p : Nat) :
    (b.detachRequestData q).req p = if p = q then { b.req q with omniData := none } else b.req p := by
  by_cases hp : p = q
  · subst hp
    simp [Batches.detachRequestData, Batches.setReq]
  · simp [Batches.detachRequestData, Batches.setReq, hp]

/-- Data is detached from a request that was aborted or has finished; if it was claimed, it is not any
more, unless it was aborted. -/
theorem Requests.detach (h : Requests s) {claimed : Option Nat} (hq : (s.batches.req q).rid ∈ s.abortLog ∨
      (s.batches.req q).finished = true ∧ (s.batches.req q).omniTerminalClaimed = true)
    (hkeep : ∀ p, p ≠ q → s.claimed = some p → claimed = some p)
    (hsub : ∀ p, claimed = some p → s.claimed = some p ∧ (p = q → (s.batches.req q).rid ∈ s.abortLog)) :
    Requests { s with batches := s.batches.detachRequestData q, claimed } := by
  have hsame : ∀ p, (p ≠ q ∧ (s.batches.detachRequestData q).req p = s.batches.req p) ∨
      (p = q ∧ (s.batches.detachRequestData q).req p = { s.batches.req p with omniData := none }) := by
    intro p
    rw [req_detachRequestData]
    split
    · next hp => exact .inr ⟨hp, by rw [hp]⟩
    · next hp => exact .inl ⟨hp, rfl⟩
  refine ⟨h.owned, ?_, ?_, ?_, ?_, ?_, ?_, ?_, ?_, ?_, h.aborted⟩
  · intro p d hp hd
    obtain ⟨_, h1⟩ | ⟨_, h1⟩ := hsame p
    · rw [h1] at hd
      exact h.data p d hp hd
    · rw [h1] at hd
      cases hd
  · intro p hp hd
    obtain ⟨_, h1⟩ | ⟨rfl, h1⟩ := hsame p
    · rw [h1] at hd ⊢
      exact h.detached p hp hd
    · rw [h1]
      exact hq
  · intro p hp hf
    obtain ⟨_, h1⟩ | ⟨_, h1⟩ := hsame p
    · rw [h1] at hf ⊢
      exact h.toFinish p hp hf
    · rw [h1] at hf ⊢
      exact h.toFinish p hp hf
  · intro p hp hf
    obtain ⟨_, h1⟩ | ⟨_, h1⟩ := hsame p
    · rw [h1] at hf ⊢
      exact h.finishAbort p hp hf
    · rw [h1] at hf ⊢
      exact h.finishAbort p hp hf
  · intro p hp hf hd
    obtain ⟨hne, h1⟩ | ⟨_, h1⟩ := hsame p
    · rw [h1] at hf hd
      exact hkeep p hne (h.flag p hp hf hd)
    · rw [h1] at hd
      exact absurd rfl hd
  · intro p hp hf hd hr
    obtain ⟨hne, h1⟩ | ⟨_, h1⟩ := hsame p
    · rw [h1] at hf hd hr
      exact (h.closing p hp hf hd hr).imp_right (hkeep p hne)
    · rw [h1] at hd
      exact absurd rfl hd
  · intro p hp
    have hf := h.claimed p (hsub p hp).1
    obtain ⟨_, h1⟩ | ⟨_, h1⟩ := hsame p
    · rw [h1]
      exact hf
    · rw [h1]
      exact hf
  · intro p hp
    obtain ⟨hclaimed, hlog⟩ := hsub p hp
    obtain ⟨_, h1⟩ | ⟨rfl, h1⟩ := hsame p
    · rw [h1]
      exact h.attached p hclaimed
    · rw [h1]
      exact .inl (hlog rfl)
  · intro r hr
    obtain hr | ⟨p, hp, hrid, hd⟩ := h.completed r hr
    · exact .inl hr
    · refine .inr ⟨p, hp, (rid_detachRequestData s.batches q p).trans hrid, ?_⟩
      obtain ⟨_, h1⟩ | ⟨_, h1⟩ := hsame p
      · rw [h1]
        exact hd
      · rw [h1]

/-- The same while nobody is claimed. -/
theorem Requests.detach_unclaimed (h : Requests s) (hclaimed : s.claimed = none)
    (hq : (s.batches.req q).rid ∈ s.abortLog ∨
      (s.batches.req q).finished = true ∧ (s.batches.req q).omniTerminalClaimed = true) :
    Requests { s with batches := s.batches.detachRequestData q } := by
  refine h.detach hq (fun p _ hp => hp) fun p hp => ?_
  rw [hclaimed] at hp
  cases hp

/-- `stream_output` is done with a request that needs no more of it. -/
theorem Requests.pop (h : Requests s) {rest : List Nat} (hs : s.streaming = q :: rest)
    (hq : q < s.reqCount → (s.batches.req q).finished = true → (s.batches.req q).omniData ≠ none →
      (s.batches.req q).rid ∉ s.abortLog → s.claimed = some q) : Requests { s with streaming := rest } := by
  refine { h with closing := ?_ }
  intro p hp hf hd hr
  obtain hmem | hclaimed := h.closing p hp hf hd hr
  · rw [hs] at hmem
    obtain rfl | hmem := List.mem_cons.mp hmem
    · exact .inr (hq hp hf hd hr)
    · exact .inl hmem
  · exact .inr hclaimed

/-- A finished request is claimed. -/
theorem requests_claim (h : Requests s) (hclaimed : s.claimed = none) {rest : List Nat}
    (hs : s.streaming = q :: rest) (hfinished : (s.batches.req q).finished = true)
    (hd : (s.batches.req q).omniData ≠ none) :
    Requests
      { s with
        streaming := rest
        batches := s.batches.setReq q fun q => { q with omniTerminalClaimed := true }
        claimed := some q } := by
  have hsame : ∀ p, (s.batches.setReq q fun q => { q with omniTerminalClaimed := true }).req p = s.batches.req p ∨
      (p = q ∧ (s.batches.setReq q fun q => { q with omniTerminalClaimed := true }).req p =
        { s.batches.req p with omniTerminalClaimed := true }) := by
    intro p
    by_cases hp : p = q
    · subst hp
      exact .inr ⟨rfl, by simp [Batches.setReq]⟩
    · exact .inl (by simp [Batches.setReq, hp])
  refine ⟨h.owned, ?_, ?_, ?_, ?_, ?_, ?_, ?_, ?_, ?_, h.aborted⟩
  · intro p d hp hd
    refine h.data p d hp ?_
    obtain h1 | ⟨_, h1⟩ := hsame p
    · rwa [h1] at hd
    · rwa [h1] at hd
  · intro p hp hd
    obtain h1 | ⟨_, h1⟩ := hsame p
    · rw [h1] at hd ⊢
      exact h.detached p hp hd
    · rw [h1] at hd ⊢
      exact (h.detached p hp hd).imp_right fun hold => ⟨hold.1, rfl⟩
  · intro p hp hf
    obtain h1 | ⟨_, h1⟩ := hsame p
    · rw [h1] at hf ⊢
      exact h.toFinish p hp hf
    · rw [h1] at hf ⊢
      exact h.toFinish p hp hf
  · intro p hp hf
    obtain h1 | ⟨_, h1⟩ := hsame p
    · rw [h1] at hf ⊢
      exact h.finishAbort p hp hf
    · rw [h1] at hf ⊢
      exact h.finishAbort p hp hf
  · intro p hp hf hd
    obtain h1 | ⟨rfl, _⟩ := hsame p
    · rw [h1] at hf hd
      have hold := h.flag p hp hf hd
      rw [hclaimed] at hold
      cases hold
    · rfl
  · intro p hp hf hd hr
    obtain h1 | ⟨rfl, _⟩ := hsame p
    · rw [h1] at hf hd hr
      obtain hmem | hold := h.closing p hp hf hd hr
      · rw [hs] at hmem
        obtain rfl | hmem := List.mem_cons.mp hmem
        · exact .inr rfl
        · exact .inl hmem
      · rw [hclaimed] at hold
        cases hold
    · exact .inr rfl
  · intro p hp
    cases hp
    simpa [Batches.setReq, Req.finished] using hfinished
  · intro p hp
    cases hp
    exact .inr (by simpa [Batches.setReq] using hd)
  · intro r hr
    obtain hr | ⟨p, hp, hrid, hd⟩ := h.completed r hr
    · exact .inl hr
    · refine .inr ⟨p, hp, ?_⟩
      obtain h1 | ⟨_, h1⟩ := hsame p
      · rw [h1]
        exact ⟨hrid, hd⟩
      · rw [h1]
        exact ⟨hrid, hd⟩

theorem mem_rememberCompletedRequest {r x : String} (hx : x ∈ (rememberCompletedRequest s r).completed) :
    x ∈ s.completed ∨ x = r := by
  unfold rememberCompletedRequest at hx
  split at hx
  · exact .inl hx
  · dsimp only at hx
    obtain hx | hx := List.mem_append.mp hx
    · split at hx
      · exact .inl (List.mem_of_mem_drop hx)
      · exact .inl hx
    · exact .inr (List.mem_singleton.mp hx)

section
variable (h : Requests s)
include h

theorem requests_rememberCompletedRequest (hq : q < s.reqCount)
    (hd : (s.batches.req q).omniData = none) : Requests (rememberCompletedRequest s (s.batches.req q).rid) := by
  have hcompleted : ∀ r ∈ (rememberCompletedRequest s (s.batches.req q).rid).completed, r ∈ s.abortLog ∨
      ∃ q, q < s.reqCount ∧ (s.batches.req q).rid = r ∧ (s.batches.req q).omniData = none := by
    intro r hr
    obtain hr | rfl := mem_rememberCompletedRequest hr
    · exact h.completed r hr
    · exact .inr ⟨q, hq, rfl, hd⟩
  revert hcompleted
  unfold rememberCompletedRequest
  split
  · exact fun _ => h
  · exact fun hcompleted => { h with completed := hcompleted }

/-- The data of a request that is over is detached, and the request remembered. -/
theorem requests_closeCompletedRequest (hclaimed : s.claimed = none) (hq : q < s.reqCount)
    (hover : (s.batches.req q).rid ∈ s.abortLog ∨
      (s.batches.req q).finished = true ∧ (s.batches.req q).omniTerminalClaimed = true) :
    Requests (closeCompletedRequest s q) := by
  have hrid := rid_detachRequestData s.batches q q
  have h1 := requests_rememberCompletedRequest (h.detach_unclaimed hclaimed hover) hq
    (by rw [req_detachRequestData, if_pos rfl])
  unfold closeCompletedRequest
  rwa [hrid] at h1

theorem requests_streamOutput (hknown : Known s) (hclaimed : s.claimed = none) :
    Requests (streamOutput s) := by
  unfold streamOutput
  split
  · exact h
  · next q rest hs =>
    have hq : q < s.reqCount := hknown.streaming q (by rw [hs]; exact List.mem_cons_self)
    dsimp only
    split
    · next hf =>
      refine h.pop hs fun _ hfinished => ?_
      rw [hfinished] at hf
      cases hf
    · next hf =>
      have hf : (s.batches.req q).finished = true := by simpa using hf
      split
      · next haborted =>
        have hlog : (s.batches.req q).rid ∈ s.abortLog := by
          obtain hreason | hmem := haborted
          · exact h.finishAbort q hq hreason
          · exact h.aborted _ hmem
        refine (h.detach_unclaimed hclaimed (.inl hlog)).pop hs fun _ _ hd => ?_
        rw [req_detachRequestData, if_pos rfl] at hd
        exact absurd rfl hd
      · split
        · next hflag => exact h.pop hs fun hq _ hd _ => h.flag q hq hflag hd
        · split
          · next hflag hnone =>
            have hpop : Requests { s with streaming := rest } := h.pop hs fun _ _ hd => absurd hnone hd
            exact requests_closeCompletedRequest hpop hclaimed hq (h.detached q hq hnone)
          · next hd => exact requests_claim h hclaimed hs hf hd

theorem requests_terminalOutput (hknown : Known s) (yields : Nat) (ok : Bool) :
    Requests (terminalOutput cfg s yields ok) := by
  unfold terminalOutput
  split
  · exact h
  · next q hclaimed =>
    have hover := h.claimed q hclaimed
    have hdetached : (s.batches.detachRequestData q).req q = { s.batches.req q with omniData := none } := by
      rw [req_detachRequestData, if_pos rfl]
    have hopen : Requests { s with batches := s.batches.detachRequestData q, claimed := none } := by
      refine h.detach (.inr hover) ?_ fun p hp => nomatch hp
      intro p hne hp
      rw [hclaimed] at hp
      exact absurd (Option.some.inj hp).symm hne
    have hrid := rid_detachRequestData s.batches q q
    have hclosed : Requests
        (closeCompletedRequest
          { s with claimed := none, outbox := s.outbox ++ streamMessages (s.batches.req q).rid yields } q) := by
      have h1 : Requests
          { s with
            batches := s.batches.detachRequestData q
            claimed := none
            outbox := s.outbox ++ streamMessages (s.batches.req q).rid yields } := { hopen with }
      have h2 := requests_rememberCompletedRequest h1 (hknown.claimed q hclaimed) (by rw [hdetached])
      rwa [hrid] at h2
    dsimp only
    split
    · exact { hclosed with }
    · exact hclosed.cut (cut_emitRequestError cfg _ _)

theorem requests_resolveAndProcess (hloop : atLoop s = true) (pending : Pending) (step : Step) :
    Requests (resolveAndProcess cfg s pending step) := by
  unfold resolveAndProcess
  dsimp only
  split
  · exact h.cut (cut_handleBatchFailure cfg _ _)
  · exact h
  · refine requests_processBatchResult (h.same ?_) ?_ _ _
    · exact { SameRequests.refl s with }
    · exact hloop

theorem requests_resolvePendingAsync (hloop : atLoop s = true) (step : Step) :
    Requests (resolvePendingAsync cfg s step) := by
  unfold resolvePendingAsync
  split
  · exact h
  · refine requests_resolveAndProcess (h.same ?_) ?_ _ step
    · exact { SameRequests.refl s with }
    · exact hloop

theorem requests_dropStaleOverrun : Requests (dropStaleOverrun s) := by
  unfold dropStaleOverrun
  split
  · exact h
  · dsimp only
    split
    · exact h
    · exact h.same { SameRequests.refl s with }

theorem requests_runBatch (hloop : atLoop s = true) (step : Step) : Requests (runBatch cfg s step) := by
  unfold runBatch
  split
  · exact h
  · split
    · refine requests_processBatchResult (h.same ?_) ?_ _ _
      · exact { SameRequests.refl s with }
      · exact hloop
    · exact h.cut (cut_handleBatchFailure cfg _ _)

theorem requests_runBatchLaunch (b : Nat) (ok : Bool) : Requests (runBatchLaunch cfg s b ok) := by
  unfold runBatchLaunch
  split
  · exact { h.cut (cut_handleBatchFailure cfg _ _) with }
  · exact h.same { SameRequests.refl s with }

end

theorem sameRequests_requeueRunningRequests (s : State) (refused : List Nat) :
    SameRequests s (requeueRunningRequests s refused) := by
  refine { SameRequests.refl s with rid := ?_, finishedReason := ?_, toFinish := ?_, flag := ?_, omniData := ?_ } <;>
    intro q <;> simp only [requeueRunningRequests] <;> split <;> rfl

/-! ### Every run -/

/-- What holds of the requests after every step of a run whose plans are sound. -/
structure Sane (s : State) : Prop where
  known : Known s
  requests : Requests s
  resolving : ∀ p, s.phase = .resolving p → atLoop s = true

theorem sane_create : Sane State.create := by
  refine ⟨known_create, ?_, fun p hp => nomatch hp⟩
  have hnone : ∀ q, ¬ q < State.create.reqCount := fun q => Nat.not_lt_zero q
  refine ⟨rfl, ?_, ?_, ?_, ?_, ?_, ?_, ?_, ?_, ?_, ?_⟩
  · exact fun q _ hq => absurd hq (hnone q)
  · exact fun q hq => absurd hq (hnone q)
  · exact fun q hq => absurd hq (hnone q)
  · exact fun q hq => absurd hq (hnone q)
  · exact fun q hq => absurd hq (hnone q)
  · exact fun q hq => absurd hq (hnone q)
  · exact fun q hq => nomatch hq
  · exact fun q hq => nomatch hq
  · exact fun r hr => nomatch hr
  · exact fun r hr => nomatch hr

theorem atLoop_dropStaleOverrun (s : State) : atLoop (dropStaleOverrun s) = atLoop s := by
  unfold dropStaleOverrun
  split
  · rfl
  · dsimp only
    split <;> rfl

theorem requests_step {e : Event} (h : Sane s) : Requests (step cfg s e) := by
  have hr := h.requests
  have hadmission := admitRule_requests cfg
  refine step_rule hr fun s' hf => ?_
  cases hf with
  | recv msgs _ _ => exact { hr.same (recvFrame_recvRequests cfg s msgs).sameRequests with }
  | takeDeferred order recvReqs _ => exact hr.same { SameRequests.refl s with }
  | drainBuild answers _ => exact (hadmission.drainBuild ⟨h.known, hr⟩ answers).2
  | drainAdmission r answers _ => exact (hadmission.drainAdmission ⟨h.known, hr⟩ r answers).2
  | stage recvReqs _ =>
    rw [stage_backlog]
    exact { hr with }
  | reject payload _ _ _ => exact { hr.cut (cut_fail cfg s _ _) with }
  | process result answers payload _ _ =>
    exact { (hadmission.processInputRequest ⟨h.known, hr⟩ payload result answers).2 with }
  | admitted _ => exact { hr with }
  | pausedAgain _ => exact { hr with }
  | upstreamAbort r => exact hr.cut (cut_fail cfg s r false)
  | plan u _ => exact hr.same { SameRequests.refl s with }
  | launch ok b _ _ _ => exact requests_runBatchLaunch hr _ ok
  | resolve step prev hphase => exact { requests_resolveAndProcess hr (h.resolving prev hphase) prev step with }
  | run step flushed _ hloop =>
    cases flushed
    · exact { requests_runBatch hr hloop step with }
    · have hdropped := requests_dropStaleOverrun hr
      exact { requests_runBatch hdropped (by rwa [atLoop_dropStaleOverrun]) step with }
  | flush step _ hloop => exact requests_resolvePendingAsync hr hloop step
  | flushPlanned step _ hloop => exact { requests_resolvePendingAsync hr hloop step with }
  | finish _ => exact hr.same { SameRequests.refl s with }
  | streamOutput hclaimed => exact requests_streamOutput hr h.known hclaimed
  | terminalOutput yields ok => exact requests_terminalOutput hr h.known yields ok
  | pause paused => exact { hr with }
  | abortAll => exact hr.cut (cut_abortAllRequests s)
  | retract refused _ =>
    exact (hr.same (sameRequests_requeueRunningRequests s refused)).cut (cut_retractRunningRequests cfg s refused)
  | buildDone r result build _ => exact { hr with }
  | stageAbort r => exact { hr.cut (cut_abort s r true) with }

theorem resolving_of_same (h : Sane s) (hphase : s'.phase = s.phase) (hstreaming : s'.streaming = s.streaming)
    (hclaimed : s'.claimed = s.claimed) : ∀ p, s'.phase = .resolving p → atLoop s' = true := by
  intro p hp
  have hloop := h.resolving p (hphase.symm.trans hp)
  simpa only [atLoop, hstreaming, hclaimed] using hloop

theorem resolving_step {e : Event} (h : Sane s) : ∀ p, (step cfg s e).phase = .resolving p →
      atLoop (step cfg s e) = true := by
  refine step_rule (P := fun s' => ∀ p, s'.phase = .resolving p → atLoop s' = true) h.resolving fun s' hf => ?_
  cases hf with
  | drainBuild answers _ =>
    have hframe := (admitRule_admitFrame cfg s).drainBuild (AdmitFrame.refl s) answers
    exact resolving_of_same h hframe.phase hframe.streaming hframe.claimed
  | drainAdmission r answers _ =>
    have hframe := (admitRule_admitFrame cfg s).drainAdmission (AdmitFrame.refl s) r answers
    exact resolving_of_same h hframe.phase hframe.streaming hframe.claimed
  | upstreamAbort r =>
    have hcut := cut_fail cfg s r false
    exact resolving_of_same h hcut.phase hcut.streaming hcut.claimed
  | launch ok b _ _ hloop =>
    unfold runBatchLaunch
    split
    · exact fun p hp => nomatch hp
    · exact fun _ _ => hloop
  | flush step hbetween _ =>
    intro p hp
    rw [phase_resolvePendingAsync] at hp
    obtain hphase | hphase := hbetween <;> exact nomatch hphase.symm.trans hp
  | streamOutput _ =>
    intro p hp
    have hloop := h.resolving p (by rwa [phase_streamOutput] at hp)
    have hnil : s.streaming = [] := by
      simp only [atLoop, Bool.and_eq_true, decide_eq_true_eq] at hloop
      exact hloop.1
    simpa only [streamOutput, hnil] using hloop
  | terminalOutput yields ok =>
    intro p hp
    have hloop := h.resolving p (by rwa [phase_terminalOutput] at hp)
    have hnone : s.claimed = none := by
      simp only [atLoop, Bool.and_eq_true, decide_eq_true_eq] at hloop
      exact hloop.2
    simpa only [terminalOutput, hnone] using hloop
  | abortAll =>
    have hcut := cut_abortAllRequests s
    exact resolving_of_same h hcut.phase hcut.streaming hcut.claimed
  | retract refused _ =>
    have hcut := cut_retractRunningRequests cfg s refused
    exact resolving_of_same h hcut.phase hcut.streaming hcut.claimed
  | pause paused => exact h.resolving
  | buildDone r result build _ => exact h.resolving
  | stageAbort r => exact h.resolving
  -- the others end in a phase of their own
  | _ => exact fun p hp => nomatch hp

theorem sane_step {e : Event} (h : Sane s) (hu : Upstream s e) : Sane (step cfg s e) :=
  ⟨known_step h.known hu, requests_step h, resolving_step h⟩

end SglangOmni.Scheduling.Scheduler
