import SglangOmni.Scheduling.Scheduler.StreamInput

/-! The incarnations of a request id.

An incarnation is looked at from a state in which nothing of the id is left but requests that are
closed. From there on what arrives for the id is kept, up to the tombstone of the earlier
incarnation, which drops it until the new request comes (`Told`). The first incarnation has no
tombstone before it. -/
namespace SglangOmni.Scheduling.Scheduler
open Lib

variable {cfg : Config} {s s' : State} {n m k : Nat} {r : String} {late : Bool} {hand hand' : List Payload}
  {kept : List Handed} {rs : List String} {msg : IncomingMessage} {acc : State × List Payload} {e : Event}

/-- The request of the incarnation has finished. -/
def Ended (m : Nat) (r : String) (s : State) : Prop :=
  ∃ q, m ≤ q ∧ q < s.reqCount ∧ (s.batches.req q).rid = r ∧ (s.batches.req q).finished = true

/-- What the incarnation asks of the messages so far: there is one new request and one end of stream,
nobody aborts it, and when an earlier incarnation came before it, the new request is the last of the
first `k` messages. `m₀` messages came before the incarnation. -/
structure Terms (m₀ n k : Nat) (late : Bool) (r : String) (s : State) : Prop where
  live : r ∉ s.abortLog
  new : (newIds s.received).count r ≤ n + 1
  done : (arrivals r (s.received.drop m₀)).count .done ≤ 1
  since : late = true → k < s.received.length → (newIds (s.received.take k)).count r = n + 1

variable {m₀ : Nat}

theorem Terms.back (h : Terms m₀ n k late r s') (hlog : r ∈ s.abortLog → r ∈ s'.abortLog)
    (hstart : s.received.IsPrefix s'.received) : Terms m₀ n k late r s := by
  obtain ⟨rest, hrest⟩ := hstart
  refine ⟨fun hr => h.live (hlog hr), ?_, ?_, ?_⟩
  · have hnew := h.new
    rw [← hrest, newIds_append, List.count_append] at hnew
    omega
  · have hdone := h.done
    rw [← hrest, List.drop_append, arrivals_append, List.count_append] at hdone
    omega
  · intro hlate hk
    have hsince := h.since hlate (by rw [← hrest, List.length_append]; omega)
    rwa [← hrest, List.take_append_of_le_length (Nat.le_of_lt hk)] at hsince

/-- `early` is some of what arrived for the incarnation before message `k`. -/
def Early (m₀ k : Nat) (r : String) (msgs : List IncomingMessage) (early : List Handed) : Prop :=
  early.Sublist (arrivals r ((msgs.take k).drop m₀))

theorem prefix_arrivals {a b : List IncomingMessage} (h : a.IsPrefix b) : (arrivals r a).IsPrefix (arrivals r b) :=
  h.filterMap _

theorem Early.mono {msgs msgs' : List IncomingMessage} {early : List Handed} (h : Early m₀ k r msgs early)
    (hstart : msgs.IsPrefix msgs') : Early m₀ k r msgs' early := by
  obtain ⟨rest, rfl⟩ := hstart
  unfold Early
  rw [List.take_append, List.drop_append, arrivals_append]
  exact h.trans (List.sublist_append_left _ _)

/-- What has been kept of what arrived. Nothing is dropped from message `k` on, unless the request of
the incarnation has finished. -/
structure Told (m₀ n m k : Nat) (late : Bool) (r : String) (kept : List Handed) (s : State) : Prop where
  shut : r ∈ s.completed → ((newIds s.received).count r = n ∧ late = true) ∨ Ended m r s
  told : Ended m r s ∨ ∃ early, Early m₀ k r s.received early ∧ kept = early ++ arrivals r (s.received.drop k)
  sub : kept.Sublist (arrivals r (s.received.drop m₀))

theorem Told.same (h : Told m₀ n m k late r kept s) (hreceived : s'.received = s.received)
    (hcompleted : r ∈ s'.completed → r ∈ s.completed ∨ Ended m r s') (hended : Ended m r s → Ended m r s') :
    Told m₀ n m k late r kept s' where
  shut hr := by
    rw [hreceived]
    obtain hr | hr := hcompleted hr
    · exact (h.shut hr).imp_right hended
    · exact .inr hr
  told := by
    rw [hreceived]
    exact h.told.imp_left hended
  sub := by
    rw [hreceived]
    exact h.sub

/-! ### The engine, and admission -/

theorem Ended.engine (he : Engine rs s s') (h : Ended m r s) : Ended m r s' := by
  obtain ⟨q, hm, hq, hrid, hf⟩ := h
  exact ⟨q, hm, by rwa [he.reqCount], by rwa [he.rid], he.finished q hf⟩

/-- The request of the incarnation is closed once it has finished. -/
theorem Closed.ended (hs : Streamed n m r kept hand s) (he : Engine rs s s') (h : Closed s s' r) :
    Ended m r s' := by
  obtain ⟨q, hq, hrid, hopen, hf, _⟩ := h
  refine ⟨q, ?_, by rwa [he.reqCount], by rwa [he.rid], hf⟩
  by_contra hlt
  obtain ⟨hflag, _, hclaimed⟩ := hs.old q (by omega) hrid
  obtain hopen | hopen := hopen
  · exact hclaimed hopen
  · rw [hflag] at hopen
    cases hopen

theorem Told.engine (h : Told m₀ n m k late r kept s) (hs : Streamed n m r kept hand s)
    (he : Engine rs s s') : Told m₀ n m k late r kept s' :=
  h.same he.received (fun hr => (he.completed r hr).imp_right (Closed.ended hs he)) (Ended.engine he)

/-- Nobody is unfinished by an admission. -/
theorem admitRule_ended (cfg : Config) (m : Nat) (r : String) : AdmitRule cfg (Ended m r) where
  tables _ _ _ _ _ h := h
  fail t x d h := h.engine (cut_fail cfg t x d).engine
  enqueue t x handed h := by
    obtain ⟨q, hm, hq, hrid, hf⟩ := h
    have hold : (enqueue t x handed).batches.req q = t.batches.req q := by
      simp only [enqueue, Batches.setReq, Function.update_of_ne (Nat.ne_of_lt hq)]
    exact ⟨q, hm, Nat.lt_succ_of_lt hq, by rwa [hold], by rwa [hold]⟩

theorem Told.admit (h : Told m₀ n m k late r kept s) (hframe : AdmitFrame s s') (hended : Ended m r s → Ended m r s') :
    Told m₀ n m k late r kept s' :=
  h.same hframe.received (fun hr => .inl (by rwa [hframe.completed] at hr)) hended

/-! ### Receiving -/

theorem count_newIds_take (k : Nat) (msgs : List IncomingMessage) (r : String) :
    (newIds (msgs.take k)).count r ≤ (newIds msgs).count r := by
  conv_rhs => rw [← List.take_append_drop k msgs, newIds_append, List.count_append]
  exact Nat.le_add_right _ _

theorem completed_recvOne (cfg : Config) (acc : State × List Payload)
    (hnew : msg.input = .newRequest) (hlog : msg.requestId ∉ acc.1.aborted) :
    msg.requestId ∉ (recvOne cfg acc msg).1.completed := by
  obtain ⟨hmem, _⟩ | ⟨_, _, h1⟩ | ⟨item, _, _, hitem, _⟩ := recvOne_cases cfg acc msg
  · exact absurd hmem hlog
  · rw [h1]
    simp
  · obtain ⟨c, hc, _⟩ | ⟨hd, _⟩ := hitem
    · rw [hnew] at hc
      cases hc
    · rw [hnew] at hd
      cases hd

theorem Ended.recv (hframe : RecvFrame s s') : Ended m r s' ↔ Ended m r s := by
  simp only [Ended, hframe.batches, hframe.reqCount]

theorem told_recvOne (cfg : Config) (h : Told m₀ n m k late r kept acc.1)
    (hr : Requests acc.1) (hsame : m₀ ≤ acc.1.received.length) (hterms : Terms m₀ n k late r (recvOne cfg acc msg).1) :
    Told m₀ n m k late r (kept ++ brought r acc.1 msg) (recvOne cfg acc msg).1 := by
  have hframe := recvFrame_recvOne cfg acc msg
  have hreceived := received_recvOne cfg acc msg
  have hended : Ended m r (recvOne cfg acc msg).1 ↔ Ended m r acc.1 := Ended.recv hframe
  have hlog : r ∉ acc.1.abortLog := by
    have := hterms.live
    rwa [hframe.abortLog] at this
  have hsub : (kept ++ brought r acc.1 msg).Sublist (arrivals r ((acc.1.received ++ [msg]).drop m₀)) := by
    rw [List.drop_append_of_le_length hsame, arrivals_append]
    refine h.sub.append ?_
    unfold brought
    split
    · exact List.nil_sublist _
    · exact List.Sublist.refl _
  refine ⟨?_, ?_, by rw [hreceived]; exact hsub⟩
  · intro hmem
    rw [hended, hreceived]
    have hold := hframe.completed r hmem
    by_cases hnew : msg.requestId = r ∧ msg.input = .newRequest
    · obtain ⟨rfl, hnew⟩ := hnew
      exact absurd hmem (completed_recvOne cfg acc hnew fun ha => hlog (hr.aborted _ ha))
    · have hcount : (newIds (acc.1.received ++ [msg])).count r = (newIds acc.1.received).count r := by
        rw [newIds_append, List.count_append, newIds_singleton]
        split
        · next hi =>
          have hne : msg.requestId ≠ r := fun he => hnew ⟨he, hi⟩
          rw [List.count_cons_of_ne hne, List.count_nil]
          rfl
        · rfl
      rw [hcount]
      exact h.shut hold
  · rw [hended, hreceived]
    by_cases hk : k ≤ acc.1.received.length
    · obtain hend | ⟨early, hearly, hkept⟩ := h.told
      · exact .inl hend
      · rw [List.drop_append_of_le_length hk, arrivals_append]
        unfold brought
        split
        · next hmem =>
          -- an item that is dropped comes before the new request, or after the end
          obtain ⟨hcount, hlate⟩ | hend := h.shut hmem
          · have hsince := hterms.since hlate (by rw [hreceived, List.length_append]; simp; omega)
            rw [hreceived, List.take_append_of_le_length hk] at hsince
            have hle := count_newIds_take k acc.1.received r
            omega
          · exact .inl hend
        · exact .inr ⟨early, hearly.mono (List.prefix_append _ _), by rw [hkept, List.append_assoc]⟩
    · have hlong : (acc.1.received ++ [msg]).length ≤ k := by
        rw [List.length_append]
        simp
        omega
      refine .inr ⟨kept ++ brought r acc.1 msg, ?_, ?_⟩
      · unfold Early
        rw [List.take_of_length_le hlong]
        exact hsub
      · rw [List.drop_of_length_le hlong]
        exact (List.append_nil _).symm

/-! ### Finished requests -/

/-- The data of a finished request of the incarnation has what arrived until then. -/
def Past (m₀ m k : Nat) (r : String) (s : State) : Prop :=
  ∀ q, m ≤ q → q < s.reqCount → (s.batches.req q).rid = r → (s.batches.req q).finished = true →
    ∃ log early later, s.data[q]? = some log ∧ Matches (early ++ later) log ∧ Early m₀ k r s.received early ∧
      later.IsPrefix (arrivals r (s.received.drop k))

theorem prefix_drop {a b : List IncomingMessage} (h : a.IsPrefix b) (k : Nat) : (a.drop k).IsPrefix (b.drop k) := by
  obtain ⟨rest, rfl⟩ := h
  rw [List.drop_append]
  exact List.prefix_append _ _

theorem Past.engine (h : Past m₀ m k r s) (hs : Streamed n m r kept hand s)
    (ht : Told m₀ n m k late r kept s) (halone : Alone n m r hand s) (he : Engine rs s s') : Past m₀ m k r s' := by
  intro q hm hq hrid hf
  rw [he.reqCount] at hq
  rw [he.rid] at hrid
  rw [he.data, he.received]
  cases hold : (s.batches.req q).finished with
  | true => exact h q hm hq hrid hold
  | false =>
    obtain ⟨_, log, hlog, hmatch⟩ := hs.live q hm hq hrid hold
    obtain ⟨p, hmp, hp, hridp, hfp⟩ | ⟨early, hearly, hkept⟩ := ht.told
    · have heq := entered_unique halone.entered_le hmp hm hp hq hridp hrid
      subst heq
      rw [hold] at hfp
      cases hfp
    · exact ⟨log, early, _, hlog, hkept ▸ hmatch, hearly, List.prefix_refl _⟩

theorem Past.enqueue (h : Past m₀ m k r s) (howned : s.data.length = s.reqCount) (x : String) (handed : List Handed) :
    Past m₀ m k r (enqueue s x handed) := by
  intro q hm hq hrid hf
  obtain hq | rfl := Nat.lt_or_eq_of_le (Nat.le_of_lt_succ hq)
  · have hold : (Scheduler.enqueue s x handed).batches.req q = s.batches.req q := by
      simp only [Scheduler.enqueue, Batches.setReq, Function.update_of_ne (Nat.ne_of_lt hq)]
    rw [hold] at hrid hf
    obtain ⟨log, early, later, hlog, hrest⟩ := h q hm hq hrid hf
    refine ⟨log, early, later, ?_, hrest⟩
    rw [← hlog]
    exact List.getElem?_append_left (by rw [howned]; exact hq)
  · have hnew : ((Scheduler.enqueue s x handed).batches.req s.reqCount).finished = false := by
      simp [Scheduler.enqueue, Batches.setReq, Req.finished]
    rw [hnew] at hf
    cases hf

theorem admitRule_past (cfg : Config) (m₀ m k : Nat) (r : String) :
    AdmitRule cfg fun s => s.data.length = s.reqCount ∧ Past m₀ m k r s where
  tables _ _ _ _ _ h := h
  fail t x d h := by
    have hcut := cut_fail cfg t x d
    refine ⟨by rw [hcut.data, hcut.reqCount]; exact h.1, ?_⟩
    intro q hm hq hrid hf
    rw [hcut.reqCount] at hq
    rw [hcut.rid] at hrid
    rw [hcut.finished] at hf
    rw [hcut.data, hcut.received]
    exact h.2 q hm hq hrid hf
  enqueue t x handed h := by
    refine ⟨?_, h.2.enqueue h.1 x handed⟩
    simp only [Scheduler.enqueue, List.length_append, List.length_singleton, h.1]

/-- Nothing is handed to a request that has finished. -/
theorem past_onStream (h : Past m₀ m k r s) (hknown : Known s) (hr : Requests s) (hloop : atLoop s = true)
    (hlog : r ∉ s.abortLog) (x : String) (item : Handed) (recheck : Bool) :
    Past m₀ m k r (onStream s x item recheck) := by
  unfold onStream
  split
  · exact h
  · split
    · next d hd =>
      intro q hm hq hrid hf
      obtain ⟨log, early, later, hget, hrest⟩ := h q hm hq hrid hf
      refine ⟨log, early, later, ?_, hrest⟩
      have hne : d ≠ q := by
        intro hdq
        subst hdq
        obtain ⟨p, hpk, hpx, hpd⟩ := findRequestData_owner hknown hd
        have hdp := hr.data p d hpk hpd
        subst hdp
        have hxr : x = r := hpx.symm.trans hrid
        obtain ⟨_, _, hbad, _⟩ := findRequestData_some hknown hr hloop (by rw [hxr]; exact hlog) hd
        have hf : (s.batches.req d).finished = true := hf
        rw [hbad] at hf
        cases hf
      exact (List.getElem?_modify_ne _ s.data hne).trans hget
    · dsimp only
      split
      · exact h
      · exact h

theorem past_recvOne (cfg : Config) (h : Past m₀ m k r acc.1) (hknown : Known acc.1)
    (hr : Requests acc.1) (hloop : atLoop acc.1 = true) (hlog : r ∉ acc.1.abortLog) (msg : IncomingMessage) :
    Past m₀ m k r (recvOne cfg acc msg).1 := by
  have hnoted : Past m₀ m k r { acc.1 with received := acc.1.received ++ [msg] } := by
    intro q hm hq hrid hf
    obtain ⟨log, early, later, hget, hmatch, hearly, hlater⟩ := h q hm hq hrid hf
    have hstart : acc.1.received.IsPrefix (acc.1.received ++ [msg]) := List.prefix_append _ _
    exact ⟨log, early, later, hget, hmatch, hearly.mono hstart,
      hlater.trans (prefix_arrivals (prefix_drop hstart k))⟩
  obtain ⟨_, h1⟩ | ⟨_, _, h1⟩ | ⟨item, recheck, _, _, _, h1⟩ := recvOne_cases cfg acc msg
  · rw [h1]
    exact hnoted
  · rw [h1]
    exact hnoted
  · rw [h1]
    exact past_onStream hnoted { hknown with } { hr with } hloop hlog _ _ _

/-! ### Closed ids -/

theorem Shut.pop (h : Shut s) (x : String) : ∀ y ∈ s.completed, (s.ingress.pop x).get? y = none := by
  intro y hy
  rw [Dict.get?_pop]
  split
  · rfl
  · exact h y hy

theorem shut_admitted {p : Payload} {done : Bool} (h : Shut s) (hadmitted : Admitted cfg s p done s') : Shut s' := by
  cases hadmitted with
  | failed d => exact (cut_fail cfg s p.requestId d).engine.shut h
  | aborted _ => exact h
  | abortedLate _ => exact h.pop p.requestId
  | held _ value => exact h
  | enqueued _ => exact h.pop p.requestId

theorem shut_prefetch (h : Shut s) (p : Payload) : Shut (prefetch s p).1 := by
  cases hi : s.ingress.get? p.requestId with
  | none =>
    rw [prefetch_none hi]
    exact h
  | some ingress =>
    rw [prefetch_some hi]
    intro y hy
    have hne : y ≠ p.requestId := by
      intro he
      have hnone := h y hy
      rw [he, hi] at hnone
      cases hnone
    exact (Dict.get?_set_ne s.ingress _ hne).trans (h y hy)

theorem shut_processInputRequest (h : Shut s) (p : Payload) (result : BuildResult) (answers : Answers) :
    Shut (processInputRequest cfg s p result answers) := by
  have h1 := shut_prefetch h p
  obtain ⟨_, h2⟩ | h2 | ⟨_, h2 | h2 | h2⟩ := processInputRequest_cases cfg s p result answers
  · rw [h2]
    exact h
  · rw [h2]
    exact (cut_fail cfg s _ true).engine.shut h
  · rw [h2]
    exact h1
  · rw [h2]
    exact h1
  · exact shut_admitted h1 h2

theorem shut_drainBuild (h : Shut s) (answers : Answers) : Shut (drainRequestBuildResult cfg s answers) := by
  obtain h1 | ⟨x, build, _, ⟨_, h1⟩ | h1⟩ := drainBuild_cases cfg s answers
  · rw [h1]
    exact h
  · rw [h1]
    exact h
  · have hpop : Shut { s with builds := s.builds.pop x } := h
    exact shut_admitted hpop h1

theorem shut_drainAdmission (h : Shut s) (x : String) (answers : Answers) :
    Shut (drainRequestAdmissionResult cfg s x answers) := by
  obtain h1 | ⟨pending, _, ⟨_, h1⟩ | h1⟩ := drainAdmission_cases cfg s x answers
  · rw [h1]
    exact h
  · rw [h1]
    exact h
  · have hpop : Shut { s with admissions := s.admissions.pop x } := h
    exact shut_admitted hpop h1

theorem reserve_none {ingress : Dict String Ingress} {y : String} (h : ingress.get? y = none) (x : String) :
    (reservePendingStreamRequest ingress x).get? y = none := by
  unfold reservePendingStreamRequest
  split
  · exact h
  · split
    · exact h
    · exact Dict.get?_drop h _

/-- An item is parked for an open id. -/
theorem shut_onStream (h : Shut s) (x : String) (item : Handed) (recheck : Bool) :
    Shut (onStream s x item recheck) := by
  unfold onStream
  split
  · exact h
  · next hx =>
    split
    · exact h
    · have hparked : Shut (park s x (·.add item)) := by
        intro y hy
        have hne : y ≠ x := fun he => hx (he ▸ hy)
        exact (Dict.get?_set_ne _ _ hne).trans (reserve_none (h y hy) x)
      dsimp only
      split
      · exact hparked
      · exact hparked

theorem shut_recvOne (cfg : Config) (h : Shut acc.1) (msg : IncomingMessage) :
    Shut (recvOne cfg acc msg).1 := by
  have hnoted : Shut { acc.1 with received := acc.1.received ++ [msg] } := h
  obtain ⟨_, h1⟩ | ⟨_, _, h1⟩ | ⟨item, recheck, _, _, _, h1⟩ := recvOne_cases cfg acc msg
  · rw [h1]
    exact h
  · rw [h1]
    exact fun y hy => h y (List.mem_filter.mp hy).1
  · rw [h1]
    exact shut_onStream hnoted _ _ _

theorem shut_step (hs : Sane s) (h : Shut s) : Shut (step cfg s e) := by
  by_cases he : e.engine = true
  · obtain ⟨rs, hengine⟩ := engine_step cfg hs he
    exact hengine.shut h
  · refine step_rule h fun s' hf => ?_
    cases hf with
    | recv msgs _ _ =>
      have hrecv : Shut (recvRequests cfg s msgs).1 :=
        recvOne_invariant cfg (P := fun acc => Shut acc.1) (fun _ msg h => shut_recvOne cfg h msg) h msgs
      exact hrecv
    | drainBuild answers _ => exact shut_drainBuild h answers
    | drainAdmission x answers _ => exact shut_drainAdmission h x answers
    | stage recvReqs _ =>
      rw [stage_backlog]
      exact h
    | reject payload _ _ _ => exact (cut_fail cfg s _ true).engine.shut h
    | process result answers payload _ _ => exact shut_processInputRequest h payload result answers
    | takeDeferred order _ _ => exact h
    | buildDone x result build _ => exact h
    | _ => exact absurd rfl he

/-! ### The log of messages and aborts -/

/-- Messages and aborts are only added. -/
def Onward (s s' : State) : Prop := s.received.IsPrefix s'.received ∧ ∀ r ∈ s.abortLog, r ∈ s'.abortLog

theorem Onward.refl (s : State) : Onward s s := ⟨List.prefix_refl _, fun _ hr => hr⟩

theorem Onward.trans {t : State} (h : Onward s s') (h' : Onward s' t) : Onward s t :=
  ⟨h.1.trans h'.1, fun r hr => h'.2 r (h.2 r hr)⟩

theorem Onward.of_eq (hreceived : s'.received = s.received) (hlog : ∀ r ∈ s.abortLog, r ∈ s'.abortLog) : Onward s s' :=
  ⟨hreceived ▸ List.prefix_refl _, hlog⟩

theorem onward_recvRequests (cfg : Config) (s : State) (msgs : List IncomingMessage) :
    Onward s (recvRequests cfg s msgs).1 := by
  refine recvOne_invariant cfg (P := fun acc => Onward s acc.1) ?_ (Onward.refl s) msgs
  intro acc msg h
  refine h.trans ⟨?_, fun r hr => ?_⟩
  · rw [received_recvOne]
    exact List.prefix_append _ _
  · rwa [(recvFrame_recvOne cfg acc msg).abortLog]

theorem admitRule_onward (cfg : Config) (s : State) : AdmitRule cfg (Onward s) where
  tables _ _ _ _ _ h := h
  fail t x d h := by
    have hcut := cut_fail cfg t x d
    refine h.trans (Onward.of_eq hcut.received fun r hr => ?_)
    rw [hcut.abortLog]
    exact List.mem_append_left _ hr
  enqueue _ _ _ h := h

theorem onward_step (hs : Sane s) : Onward s (step cfg s e) := by
  by_cases he : e.engine = true
  · obtain ⟨rs, hengine⟩ := engine_step cfg hs he
    refine Onward.of_eq hengine.received fun r hr => ?_
    rw [hengine.abortLog]
    exact List.mem_append_left _ hr
  · have hself := Onward.refl s
    refine step_rule hself fun s' hf => ?_
    cases hf with
    | recv msgs _ _ => exact onward_recvRequests cfg s msgs
    | takeDeferred order _ _ => exact hself
    | drainBuild answers _ => exact (admitRule_onward cfg s).drainBuild hself answers
    | drainAdmission x answers _ => exact (admitRule_onward cfg s).drainAdmission hself x answers
    | stage recvReqs _ =>
      rw [stage_backlog]
      exact hself
    | reject payload _ _ _ => exact (admitRule_onward cfg s).fail s payload.requestId true hself
    | process result answers payload _ _ =>
      exact (admitRule_onward cfg s).processInputRequest hself payload result answers
    | buildDone x result build _ => exact hself
    | _ => exact absurd rfl he

theorem onward_run (cfg : Config) (es : List Event) (hup : Along (step cfg) Upstream s es) (hs : Sane s) :
    Onward s (Lib.run (step cfg) s es) := by
  have hboth : Sane (Lib.run (step cfg) s es) ∧ Onward s (Lib.run (step cfg) s es) :=
    along_invariant (I := fun t => Sane t ∧ Onward s t) ⟨hs, Onward.refl s⟩
      (fun _ _ h hu => ⟨sane_step h.1 hu, h.2.trans (onward_step h.1)⟩) es hup
  exact hboth.2

/-! ### One incarnation, in every run -/

structure Heard (m₀ n m k : Nat) (late : Bool) (r : String) (kept : List Handed) (hand : List Payload) (s : State) :
    Prop where
  streamed : Streamed n m r kept hand s
  told : Told m₀ n m k late r kept s
  past : Past m₀ m k r s

/-- What is known of the incarnation, as long as its messages keep to its terms. -/
structure Incarnation (m₀ n m k : Nat) (late : Bool) (r : String) (hand : List Payload) (s : State) : Prop where
  tokens : Tokens n m r hand s
  after : m₀ ≤ s.received.length
  heard : Terms m₀ n k late r s → ∃ kept, Heard m₀ n m k late r kept hand s

theorem Heard.once (h : Heard m₀ n m k late r kept hand s) (hterms : Terms m₀ n k late r s) : kept.count .done ≤ 1 :=
  Nat.le_trans (h.told.sub.count_le _) hterms.done

theorem Heard.engine (h : Heard m₀ n m k late r kept hand s) (halone : Alone n m r hand s)
    (he : Engine rs s s') (hlog : r ∉ s'.abortLog) : Heard m₀ n m k late r kept hand s' where
  streamed := by
    rw [he.abortLog, List.mem_append, not_or] at hlog
    exact h.streamed.engine halone he hlog.2
  told := h.told.engine h.streamed he
  past := h.past.engine h.streamed h.told halone he

/-- A step that takes no message keeps what is known of the incarnation. -/
theorem Incarnation.quiet (h : Incarnation m₀ n m k late r hand s) (htokens : Tokens n m r hand' s')
    (hreceived : s'.received = s.received) (hlog : r ∈ s.abortLog → r ∈ s'.abortLog)
    (hheard : ∀ kept, Terms m₀ n k late r s' → kept.count .done ≤ 1 → Heard m₀ n m k late r kept hand s →
      Heard m₀ n m k late r kept hand' s') : Incarnation m₀ n m k late r hand' s' where
  tokens := htokens
  after := by rw [hreceived]; exact h.after
  heard hterms := by
    have hback := hterms.back hlog (hreceived ▸ List.prefix_refl _)
    obtain ⟨kept, hkept⟩ := h.heard hback
    exact ⟨kept, hheard kept hterms (hkept.once hback) hkept⟩

/-- Admission, as far as it is a step of the incarnation. -/
theorem Heard.admit (h : Heard m₀ n m k late r kept hand s) (howned : s.data.length = s.reqCount)
    (hstreamed : Streamed n m r kept hand' s') (hframe : AdmitFrame s s')
    (hrule : ∀ P, AdmitRule cfg P → P s → P s') : Heard m₀ n m k late r kept hand' s' where
  streamed := hstreamed
  told := h.told.admit hframe (hrule _ (admitRule_ended cfg m r))
  past := (hrule _ (admitRule_past cfg m₀ m k r) ⟨howned, h.past⟩).2

/-- What is asked when a message is taken: there is room for one more pending stream, and an item for
`r` does not find an earlier incarnation beside its own. -/
def Room (m : Nat) (r : String) (acc : State × List Payload) (msg : IncomingMessage) : Prop :=
  acc.1.ingress.length < pendingStreamLimit ∧ (msg.requestId = r → Unaliased m r acc.1)

theorem incarnation_recvOne (cfg : Config) (h : Incarnation m₀ n m k late r acc.2 acc.1)
    (hknown : Known acc.1) (hr : Requests acc.1) (hplaced : Placed acc.1) (hloop : atLoop acc.1 = true)
    (hroom : Room m r acc msg) :
    Incarnation m₀ n m k late r (recvOne cfg acc msg).2 (recvOne cfg acc msg).1 := by
  have hframe := recvFrame_recvOne cfg acc msg
  have hreceived := received_recvOne cfg acc msg
  refine ⟨tokens_recvOne cfg hr.aborted h.tokens msg, ?_, ?_⟩
  · rw [hreceived, List.length_append]
    exact Nat.le_add_right_of_le h.after
  · intro hterms
    have hback : Terms m₀ n k late r acc.1 :=
      hterms.back (fun hx => by rwa [hframe.abortLog]) (by rw [hreceived]; exact List.prefix_append _ _)
    obtain ⟨kept, hkept⟩ := h.heard hback
    have htold := told_recvOne cfg hkept.told hr h.after hterms
    refine ⟨_, ?_, htold, past_recvOne cfg hkept.past hknown hr hloop hback.live msg⟩
    refine streamed_recvOne hkept.streamed hknown hr hplaced hloop (h.tokens.alone hback.new) hback.live hroom.1 hroom.2
      ?_ (Nat.le_trans (htold.sub.count_le _) hterms.done)
    rw [← hreceived]
    exact hterms.new

theorem incarnation_recvRequests (cfg : Config) (hs : Sane s) (hplaced : Placed s) (hloop : atLoop s = true)
    (h : Incarnation m₀ n m k late r [] s) (msgs : List IncomingMessage)
    (hroom : Along (recvOne cfg) (Room m r) (s, []) msgs) :
    Incarnation m₀ n m k late r (recvRequests cfg s msgs).2 (recvRequests cfg s msgs).1 := by
  have hall : (Known (recvRequests cfg s msgs).1 ∧ Requests (recvRequests cfg s msgs).1 ∧
      Placed (recvRequests cfg s msgs).1 ∧ atLoop (recvRequests cfg s msgs).1 = true) ∧
      Incarnation m₀ n m k late r (recvRequests cfg s msgs).2 (recvRequests cfg s msgs).1 := by
    unfold recvRequests
    rw [← run_eq_foldl]
    refine along_invariant
      (I := fun acc => (Known acc.1 ∧ Requests acc.1 ∧ Placed acc.1 ∧ atLoop acc.1 = true) ∧
        Incarnation m₀ n m k late r acc.2 acc.1) ⟨⟨hs.known, hs.requests, hplaced, hloop⟩, h⟩ ?_ msgs hroom
    intro acc msg hacc hmsg
    obtain ⟨⟨hknown, hr, hplaced, hloop⟩, hinc⟩ := hacc
    have hframe := recvFrame_recvOne cfg acc msg
    refine ⟨⟨hknown.recv hframe, hr.same hframe.sameRequests, hplaced.same hframe.samePlaces, ?_⟩,
      incarnation_recvOne cfg hinc hknown hr hplaced hloop hmsg⟩
    simpa only [atLoop, hframe.streaming, hframe.claimed] using hloop
  exact hall.2

theorem Heard.subset (h : Heard m₀ n m k late r kept hand s) (hsub : ∀ p ∈ hand', p ∈ hand) :
    Heard m₀ n m k late r kept hand' s :=
  { h with streamed := h.streamed.subset hsub }

/-- What is asked of an event. -/
def RoomFor (cfg : Config) (m : Nat) (r : String) (s : State) : Event → Prop
  | .recv msgs => Along (recvOne cfg) (Room m r) (s, []) msgs
  | _ => True

theorem Heard.atPhase (h : Heard m₀ n m k late r kept hand s) (phase : Phase) :
    Heard m₀ n m k late r kept hand { s with phase } :=
  ⟨{ h.streamed with }, { h.told with }, h.past⟩

theorem Incarnation.atPhase (h : Incarnation m₀ n m k late r hand s) (phase : Phase) :
    Incarnation m₀ n m k late r hand { s with phase } where
  tokens := ⟨h.tokens.made, h.tokens.le, h.tokens.kept⟩
  after := h.after
  heard hterms := by
    obtain ⟨kept, hkept⟩ := h.heard ⟨hterms.live, hterms.new, hterms.done, hterms.since⟩
    exact ⟨kept, hkept.atPhase phase⟩

theorem incarnation_step (hs : Sane s) (hkeyed : Keyed s) (hplaced : Placed s)
    (h : Incarnation m₀ n m k late r s.phase.payloads s) (hroom : RoomFor cfg m r s e) :
    Incarnation m₀ n m k late r (step cfg s e).phase.payloads (step cfg s e) := by
  have htokens : Tokens n m r (step cfg s e).phase.payloads (step cfg s e) := tokens_step hs hkeyed h.tokens
  by_cases he : e.engine = true
  · obtain ⟨rs, hengine⟩ := engine_step cfg hs he
    have hpayloads := payloads_step cfg s he
    refine h.quiet htokens hengine.received (fun hr => ?_) ?_
    · rw [hengine.abortLog]
      exact List.mem_append_left _ hr
    · intro kept hterms _ hkept
      rw [hpayloads]
      exact hkept.engine (h.tokens.alone (by rw [← hengine.received]; exact hterms.new)) hengine hterms.live
  · revert htokens
    refine step_rule (P := fun s' => Tokens n m r s'.phase.payloads s' →
      Incarnation m₀ n m k late r s'.phase.payloads s') (fun _ => h) fun s' hf htokens => ?_
    have honward := admitRule_onward cfg s
    cases hf with
    | recv msgs hphase hloop =>
      rw [hphase] at h
      exact (incarnation_recvRequests cfg hs hplaced hloop h msgs hroom).atPhase _
    | takeDeferred order recvReqs hphase =>
      rw [hphase] at h
      refine h.quiet htokens rfl id ?_
      intro kept _ _ hkept
      exact ⟨{ streamed_takeDeferred hkept.streamed hkeyed order with }, { hkept.told with }, hkept.past⟩
    | drainBuild answers _ =>
      have hframe := (admitRule_admitFrame cfg s).drainBuild (AdmitFrame.refl s) answers
      refine h.quiet htokens hframe.received (fun hr => (honward.drainBuild (Onward.refl s) answers).2 r hr) ?_
      intro kept hterms hone hkept
      rw [hframe.phase]
      refine hkept.admit hs.requests.owned ?_ hframe fun P rule hP => rule.drainBuild hP answers
      exact streamed_drainBuild hkept.streamed ⟨hs.known, hs.requests⟩ hkeyed h.tokens.made
        (h.tokens.alone (by rw [← hframe.received]; exact hterms.new)) hone answers hterms.live
    | drainAdmission x answers _ =>
      have hframe := (admitRule_admitFrame cfg s).drainAdmission (AdmitFrame.refl s) x answers
      refine h.quiet htokens hframe.received (fun hr => (honward.drainAdmission (Onward.refl s) x answers).2 r hr) ?_
      intro kept hterms hone hkept
      rw [hframe.phase]
      refine hkept.admit hs.requests.owned ?_ hframe fun P rule hP => rule.drainAdmission hP x answers
      exact streamed_drainAdmission hkept.streamed ⟨hs.known, hs.requests⟩ hkeyed h.tokens.made
        (h.tokens.alone (by rw [← hframe.received]; exact hterms.new)) hone x answers hterms.live
    | stage recvReqs hphase =>
      rw [hphase] at h
      have hinc : Incarnation m₀ n m k late r
          ((stageRequestBuildPayloads cfg s recvReqs).2.2 ++ (stageRequestBuildPayloads cfg s recvReqs).2.1)
          (stageRequestBuildPayloads cfg s recvReqs).1 := by
        have hsame := stage_backlog cfg s recvReqs
        refine h.quiet (tokens_stage cfg hs.requests.aborted h.tokens) (by rw [hsame]) (fun hr => by rwa [hsame]) ?_
        intro kept _ _ hkept
        refine ⟨streamed_stage hkept.streamed, ?_, ?_⟩
        · rw [hsame]
          exact { hkept.told with }
        · rw [hsame]
          exact hkept.past
      exact hinc.atPhase _
    | reject p rejected selected hphase =>
      rw [hphase] at h
      have hcut := cut_fail cfg s p.requestId true
      have hinc : Incarnation m₀ n m k late r (rejected ++ selected) (rejectQueueFull cfg s p) := by
        refine h.quiet (h.tokens.moved (Nat.le_of_eq hcut.reqCount.symm)
          (Moved.fail cfg (rejected ++ selected) s p true))
          hcut.received (fun hr => ?_) ?_
        · rw [rejectQueueFull, hcut.abortLog]
          exact List.mem_append_left _ hr
        · intro kept hterms _ hkept
          have halone := h.tokens.alone (by rw [← hcut.received]; exact hterms.new)
          exact (hkept.subset fun x hx => List.mem_cons_of_mem _ hx).engine halone.weaken hcut.engine hterms.live
      exact hinc.atPhase _
    | process result answers p selected hphase =>
      rw [hphase] at h
      have hframe := (admitRule_admitFrame cfg s).processInputRequest (AdmitFrame.refl s) p result answers
      have hinc : Incarnation m₀ n m k late r selected (processInputRequest cfg s p result answers) := by
        have hcount := (admitRule_reqCount cfg s.reqCount).processInputRequest (Nat.le_refl _) p result answers
        refine h.quiet (h.tokens.moved hcount
          (moved_processInputRequest hs.requests.aborted h.tokens.made selected p result answers)) hframe.received
          (fun hr => (honward.processInputRequest (Onward.refl s) p result answers).2 r hr) ?_
        intro kept hterms hone hkept
        refine hkept.admit hs.requests.owned ?_ hframe fun P rule hP => rule.processInputRequest hP p result answers
        exact streamed_processInputRequest hkept.streamed ⟨hs.known, hs.requests⟩ h.tokens.made
          (h.tokens.alone (by rw [← hframe.received]; exact hterms.new)) hone result answers hterms.live
      exact hinc.atPhase _
    | buildDone x result build hbuild =>
      refine h.quiet htokens rfl id ?_
      intro kept _ _ hkept
      refine ⟨{ hkept.streamed with builds := ?_ }, { hkept.told with }, hkept.past⟩
      intro b hb
      rw [Dict.get?_set] at hb
      split at hb
      · next hr =>
        cases hb
        exact hkept.streamed.builds build (hr ▸ hbuild)
      · exact hkept.streamed.builds b hb
    | _ => exact absurd rfl he

/-- All that is known in every state of a run. -/
structure Settled (s : State) : Prop where
  sane : Sane s
  placed : Placed s
  keyed : Keyed s
  shut : Shut s

theorem settled_create : Settled State.create :=
  ⟨sane_create, placed_create, keyed_create, fun _ hr => nomatch hr⟩

theorem settled_step (h : Settled s) (hu : Upstream s e) : Settled (step cfg s e) :=
  ⟨sane_step h.sane hu, placed_step h.sane h.placed hu, keyed_step h.sane h.keyed, shut_step h.sane h.shut⟩

theorem incarnation_run (cfg : Config) (es : List Event)
    (hrule : Along (step cfg) (fun s e => Upstream s e ∧ RoomFor cfg m r s e) s es) (hs : Settled s)
    (h : Incarnation m₀ n m k late r s.phase.payloads s) :
    Settled (Lib.run (step cfg) s es) ∧
      Incarnation m₀ n m k late r (Lib.run (step cfg) s es).phase.payloads (Lib.run (step cfg) s es) :=
  along_invariant (I := fun s => Settled s ∧ Incarnation m₀ n m k late r s.phase.payloads s) ⟨hs, h⟩
    (fun _ _ h hr =>
      ⟨settled_step h.1 hr.1, incarnation_step h.1.sane h.1.keyed h.1.placed h.2 hr.2⟩) es hrule

/-! ### The first incarnation -/

/-- The messages are taken while there is room for one more pending stream. -/
def Spacious (cfg : Config) (s : State) : Event → Prop
  | .recv msgs => Along (recvOne cfg) (fun acc _ => acc.1.ingress.length < pendingStreamLimit) (s, []) msgs
  | _ => True

theorem Spacious.roomFor (h : Spacious cfg s e) : RoomFor cfg 0 r s e := by
  cases e with
  | recv msgs => exact along_mono (fun _ _ hroom => ⟨hroom, fun _ _ _ _ => Nat.zero_le _⟩) h
  | _ => trivial

theorem incarnation_create (r : String) : Incarnation 0 0 0 0 false r [] State.create := by
  refine ⟨⟨Nat.le_refl _, Nat.le_refl _, fun _ _ => rfl⟩, Nat.le_refl _, fun _ => ⟨[], ?_, ?_, ?_⟩⟩
  · refine ⟨fun q hq => absurd hq (Nat.not_lt_zero q), fun _ => ⟨rfl, ?_⟩, ?_, (fun b hb => nomatch hb),
      (fun a ha => nomatch ha), fun q _ hq => absurd hq (Nat.not_lt_zero q)⟩
    · exact ⟨(fun hd => nomatch hd), (fun hd => nomatch hd)⟩
    · intro p hp
      obtain hp | hp | hp := hp
      · cases hp
      · cases hp
      · cases hp
  · exact ⟨(fun hr => nomatch hr), .inr ⟨[], List.Sublist.refl _, rfl⟩, List.nil_sublist _⟩
  · exact fun q _ hq => absurd hq (Nat.not_lt_zero q)

/-- Where all that arrived for `r` is: with its payload and in its ingress entry, or with its data. -/
structure StreamKept (r : String) (s : State) : Prop where
  place : total 0 r s.phase.payloads s = (newIds s.received).count r
  parked : (newIds s.received).count r = 0 → Carried (arrivals r s.received) (s.ingress.get? r) { requestId := r }
  loose : ∀ p, p ∈ s.phase.payloads ∨ p ∈ s.backlog ∨ s.deferred.get? r = some p → p.requestId = r →
    Carried (arrivals r s.received) (s.ingress.get? r) p
  builds : ∀ b, s.builds.get? r = some b → Captured (arrivals r s.received) (s.ingress.get? r) b.payload
  admissions : ∀ a, s.admissions.get? r = some a → Captured (arrivals r s.received) (s.ingress.get? r) a.payload
  live : ∀ q, q < s.reqCount → (s.batches.req q).rid = r → (s.batches.req q).finished = false →
    s.ingress.get? r = none ∧ ∃ log, s.data[q]? = some log ∧ Matches (arrivals r s.received) log
  past : ∀ q, q < s.reqCount → (s.batches.req q).rid = r → (s.batches.req q).finished = true →
    ∃ log arrived, s.data[q]? = some log ∧ Matches arrived log ∧ arrived.IsPrefix (arrivals r s.received)

/-- Before the request is made it has not ended. -/
theorem not_ended (hzero : ((entered s).drop m).count r = 0) : ¬ Ended m r s := by
  intro hend
  obtain ⟨q, hm, hq, hrid, _⟩ := hend
  have := count_entered_pos hm hq hrid
  omega

theorem Told.all (h : Told m₀ n m 0 late r kept s) (hend : ¬ Ended m r s) : kept = arrivals r s.received := by
  obtain hbad | ⟨early, hearly, hkept⟩ := h.told
  · exact absurd hbad hend
  · have hnil : early = [] := by
      have hsub : early.Sublist (arrivals r ((s.received.take 0).drop m₀)) := hearly
      rw [List.take_zero, List.drop_nil] at hsub
      exact List.sublist_nil.mp hsub
    rw [hkept, hnil, List.nil_append, List.drop_zero]

/-- **Stream input is never lost.** In every run in which messages are taken while there is room for one
more pending stream, all that arrives for a request that comes once and is not aborted is kept in the
order it arrived, and handed once to the request's data. -/
theorem stream_input_kept (cfg : Config) (es : List Event) (r : String)
    (hrule : Along (step cfg) (fun s e => Upstream s e ∧ Spacious cfg s e) State.create es)
    (hnew : (newIds (runs cfg es).received).count r ≤ 1)
    (hdone : (arrivals r (runs cfg es).received).count .done ≤ 1) (hlive : r ∉ (runs cfg es).abortLog) :
    StreamKept r (runs cfg es) := by
  have hrule : Along (step cfg) (fun s e => Upstream s e ∧ RoomFor cfg 0 r s e) State.create es :=
    along_mono (fun _ _ h => ⟨h.1, h.2.roomFor⟩) hrule
  obtain ⟨_, hinc⟩ := incarnation_run cfg es hrule settled_create (incarnation_create r)
  have hinc : Incarnation 0 0 0 0 false r (runs cfg es).phase.payloads (runs cfg es) := hinc
  obtain ⟨kept, hkept⟩ := hinc.heard ⟨hlive, hnew, hdone, fun hf => nomatch hf⟩
  have halone := hinc.tokens.alone hnew
  have hall : ((entered (runs cfg es)).drop 0).count r = 0 → kept = arrivals r (runs cfg es).received :=
    fun hzero => hkept.told.all (not_ended hzero)
  refine ⟨hinc.tokens.kept hlive hnew, ?_, ?_, ?_, ?_, ?_, ?_⟩
  · intro hn
    rw [← hall (halone.unborn hn)]
    exact hkept.streamed.fresh hn
  · intro p hp hid
    rw [← hall (halone.loose hp hid)]
    exact hkept.streamed.loose p hp hid
  · intro b hb
    rw [← hall (halone.builds hb)]
    exact hkept.streamed.builds b hb
  · intro a ha
    rw [← hall (halone.admissions ha)]
    exact hkept.streamed.admissions a ha
  · intro q hq hrid hf
    have hend : ¬ Ended 0 r (runs cfg es) := by
      intro hend
      obtain ⟨p, hmp, hp, hridp, hfp⟩ := hend
      have heq := entered_unique halone.entered_le hmp (Nat.zero_le q) hp hq hridp hrid
      subst heq
      rw [hf] at hfp
      cases hfp
    rw [← hkept.told.all hend]
    exact hkept.streamed.live q (Nat.zero_le q) hq hrid hf
  · intro q hq hrid hf
    obtain ⟨log, early, later, hlog, hmatch, hearly, hlater⟩ := hkept.past q (Nat.zero_le q) hq hrid hf
    have hnil : early = [] := by
      have hsub : early.Sublist (arrivals r (((runs cfg es).received.take 0).drop 0)) := hearly
      rw [List.take_zero, List.drop_nil] at hsub
      exact List.sublist_nil.mp hsub
    rw [hnil, List.nil_append] at hmatch
    exact ⟨log, later, hlog, hmatch, hlater⟩

/-- Requests are built at once. -/
def inline : Config where
  requestBuildMaxPending := none
  maxQueuedRequests := none
  maxReqLen := 100
  isEntryRank := true
  entry_of_executor _ := rfl
  isRequestBuildReady _ _ := true
  shouldRecheck _ _ := true

/-- A chunk before the payload, one with it, and one when the request waits. -/
theorem stream_input_kept_three :
    let es : List Event :=
      [.pause true, .recv [⟨"a", .streamChunk 1⟩, ⟨"a", .newRequest⟩, ⟨"a", .streamChunk 2⟩], .takeDeferred [], .stage,
        .process (.built ⟨1, 1, false⟩) ⟨none, true, false⟩, .admitted, .pausedAgain,
        .recv [⟨"a", .streamChunk 3⟩, ⟨"a", .streamDone⟩]]
    (runs inline es).data = [[.chunk 1, .chunk 2, .chunk 3, .done]] ∧ StreamKept "a" (runs inline es) := by
  refine ⟨by decide, stream_input_kept inline _ "a" ?_ (by decide) (by decide) (by decide)⟩
  exact ⟨⟨trivial, trivial⟩, ⟨trivial, by decide, by decide, by decide, trivial⟩, ⟨trivial, trivial⟩,
    ⟨trivial, trivial⟩,
    ⟨trivial, trivial⟩, ⟨trivial, trivial⟩, ⟨trivial, trivial⟩, ⟨trivial, by decide, by decide, trivial⟩, trivial⟩

/-! ### The next incarnation -/

theorem tokens_run (cfg : Config) (es : List Event) (hup : Along (step cfg) Upstream State.create es) (r : String) :
    Settled (runs cfg es) ∧ Tokens 0 0 r (runs cfg es).phase.payloads (runs cfg es) :=
  along_invariant (I := fun s => Settled s ∧ Tokens 0 0 r s.phase.payloads s)
    ⟨settled_create, ⟨Nat.le_refl _, Nat.le_refl _, fun _ _ => rfl⟩⟩
    (fun _ _ h hu => ⟨settled_step h.1 hu, tokens_step h.1.sane h.1.keyed h.2⟩) es hup

/-- What is there of a request that has completed: its `Req`, detached, and nothing else. -/
theorem incarnation_completed (hs : Settled s) (htokens : Tokens 0 0 r s.phase.payloads s) (hr : r ∈ s.completed)
    (hlog : r ∉ s.abortLog) (hone : (newIds s.received).count r = 1) (hk : s.received.length ≤ k) :
    Incarnation s.received.length 1 s.reqCount k true r s.phase.payloads s := by
  obtain hbad | ⟨q, hq, hrid, hdetached⟩ := hs.sane.requests.completed r hr
  · exact absurd hbad hlog
  have halone : Alone 0 0 r s.phase.payloads s := htokens.alone (by omega)
  have hpos := count_entered_pos (Nat.zero_le q) hq hrid
  have hdrop : ((entered s).drop s.reqCount).count r = 0 := by
    rw [List.drop_of_length_le (Nat.le_of_eq (length_entered s)), List.count_nil]
  have hzero : total s.reqCount r s.phase.payloads s = 0 := by
    have hle := htokens.le
    simp only [total] at hle
    simp only [total, hdrop]
    omega
  refine ⟨⟨Nat.le_refl _, by omega, fun _ _ => by omega⟩, Nat.le_refl _, fun _ => ⟨[], ?_, ?_, ?_⟩⟩
  · refine ⟨?_, ?_, ?_, ?_, ?_, fun p hm hp => absurd hp (Nat.not_lt.mpr hm)⟩
    · intro p hp hpr
      have heq := entered_unique halone.entered_le (Nat.zero_le q) (Nat.zero_le p) hq hp hrid hpr
      subst heq
      obtain hbad | ⟨_, hflag⟩ := hs.sane.requests.detached q hq hdetached
      · exact absurd (hrid ▸ hbad) hlog
      · refine ⟨hflag, hdetached, fun hclaimed => ?_⟩
        obtain hbad | hbad := hs.sane.requests.attached q hclaimed
        · exact absurd (hrid ▸ hbad) hlog
        · exact hbad hdetached
    · intro _
      rw [hs.shut r hr]
      exact ⟨rfl, ⟨(fun hd => by cases hd), (fun hd => by cases hd)⟩⟩
    · intro p hp hid
      have := halone.loose hp hid
      omega
    · intro b hb
      have := halone.builds hb
      omega
    · intro a ha
      have := halone.admissions ha
      omega
  · refine ⟨fun _ => .inl ⟨hone, rfl⟩, .inr ⟨[], List.nil_sublist _, ?_⟩, List.nil_sublist _⟩
    rw [List.drop_of_length_le hk]
    rfl
  · exact fun p hm hp => absurd hp (Nat.not_lt.mpr hm)

/-- Where all that arrived for the second incarnation of `r` is, which began after `m₀` messages and
`m` requests. What arrived from message `k` on is all there; of what came before, some is. -/
structure NextKept (m₀ m k : Nat) (r : String) (s : State) : Prop where
  place : total m r s.phase.payloads s = 1
  arrived : Ended m r s ∨ ∃ early, Early m₀ k r s.received early ∧
    Streamed 1 m r (early ++ arrivals r (s.received.drop k)) s.phase.payloads s
  past : Past m₀ m k r s

/-- **A finished id can be used again.** From every state of a run in which `r` has completed, whatever
comes for its second incarnation once its new request is there is handed to the incarnation's own
data, in order and once, as long as there is room for one more pending stream, the id is not aborted,
and no batch lists the first incarnation beside the second when an item comes. -/
theorem second_incarnation_kept (cfg : Config) (es₀ es : List Event) (r : String) (k : Nat)
    (hup : Along (step cfg) Upstream State.create es₀) (hcompleted : r ∈ (runs cfg es₀).completed)
    (hone : (newIds (runs cfg es₀).received).count r = 1)
    (hrule : Along (step cfg) (fun s e => Upstream s e ∧ RoomFor cfg (runs cfg es₀).reqCount r s e) (runs cfg es₀) es)
    (hlive : r ∉ (Lib.run (step cfg) (runs cfg es₀) es).abortLog)
    (hnew : (newIds (Lib.run (step cfg) (runs cfg es₀) es).received).count r ≤ 2)
    (hdone : (arrivals r ((Lib.run (step cfg) (runs cfg es₀) es).received.drop
      (runs cfg es₀).received.length)).count .done ≤ 1)
    (hk : (newIds ((Lib.run (step cfg) (runs cfg es₀) es).received.take k)).count r = 2) :
    NextKept (runs cfg es₀).received.length (runs cfg es₀).reqCount k r (Lib.run (step cfg) (runs cfg es₀) es) := by
  obtain ⟨hs, htokens⟩ := tokens_run cfg es₀ hup r
  have honward := onward_run cfg es (along_mono (fun _ _ h => h.1) hrule) hs.sane
  have hlong : (runs cfg es₀).received.length ≤ k := by
    by_contra hshort
    obtain ⟨rest, hrest⟩ := honward.1
    rw [← hrest, List.take_append_of_le_length (by omega)] at hk
    have hle := count_newIds_take k (runs cfg es₀).received r
    omega
  have hstart := incarnation_completed hs htokens hcompleted (fun hr => hlive (honward.2 r hr)) hone hlong
  obtain ⟨_, hinc⟩ := incarnation_run cfg es hrule hs hstart
  obtain ⟨kept, hkept⟩ := hinc.heard ⟨hlive, hnew, hdone, fun _ _ => hk⟩
  refine ⟨?_, ?_, hkept.past⟩
  · have htotal := hinc.tokens.kept hlive hnew
    have hle := count_newIds_take k (Lib.run (step cfg) (runs cfg es₀) es).received r
    omega
  · obtain hend | ⟨early, hearly, heq⟩ := hkept.told.told
    · exact .inl hend
    · exact .inr ⟨early, hearly, heq ▸ hkept.streamed⟩

/-- A batch of its own for the request that waits. -/
def soloPlan : Plan where
  waiting := []
  reqs b := if b = 1 then [0] else []
  runningBatch := 0
  batch := some 1
  isRetracted _ := false
  chunkedReq := none

/-- Request `a` comes, runs and completes. -/
def completing : List Event :=
  [.recv [⟨"a", .newRequest⟩], .takeDeferred [], .stage, .process (.built ⟨1, 1, false⟩) ⟨none, true, false⟩, .admitted,
    .plan soloPlan, .run ⟨.stepped, fun _ => 0, [0]⟩, .streamOutput, .terminalOutput 0 true, .finish]

theorem completing_upstream : Along (step inline) Upstream State.create completing := by
  refine ⟨trivial, trivial, trivial, trivial, trivial, ?_, trivial, trivial, trivial, trivial, trivial⟩
  exact ⟨by decide, (fun b hb => nomatch hb), (fun q hq => nomatch hq), by decide, by decide, (fun p hp => nomatch hp)⟩

/-- A chunk before the second new request, and one after it. -/
theorem second_incarnation_kept_after :
    let es : List Event :=
      [.recv [⟨"a", .streamChunk 7⟩, ⟨"a", .newRequest⟩, ⟨"a", .streamChunk 8⟩], .takeDeferred [], .stage,
        .process (.built ⟨1, 1, false⟩) ⟨none, true, false⟩]
    (Lib.run (step inline) (runs inline completing) es).data = [[], [.chunk 8]] ∧
      NextKept 1 1 3 "a" (Lib.run (step inline) (runs inline completing) es) := by
  refine ⟨by decide, second_incarnation_kept inline completing _ "a" 3 completing_upstream (by decide) (by decide) ?_
    (by decide) (by decide) (by decide) (by decide)⟩
  have hroom : RoomFor inline 1 "a" (runs inline completing)
      (.recv [⟨"a", .streamChunk 7⟩, ⟨"a", .newRequest⟩, ⟨"a", .streamChunk 8⟩]) := by
    refine ⟨⟨by decide, fun _ => ?_⟩, ⟨by decide, fun _ => ?_⟩, ⟨by decide, fun _ => ?_⟩, trivial⟩ <;>
      (unfold Unaliased; decide)
  exact ⟨⟨trivial, hroom⟩, ⟨trivial, trivial⟩, ⟨trivial, trivial⟩, ⟨trivial, trivial⟩, trivial⟩

/-- The chunk before the second new request is dropped: the id is still closed. -/
theorem second_incarnation_drops_early :
    let s := Lib.run (step inline) (runs inline completing)
      [.recv [⟨"a", .streamChunk 7⟩, ⟨"a", .newRequest⟩], .takeDeferred [], .stage,
        .process (.built ⟨1, 1, false⟩) ⟨none, true, false⟩]
    Along (step inline) Upstream State.create completing ∧ "a" ∈ (runs inline completing).completed ∧
      ⟨"a", .result⟩ ∈ (runs inline completing).outbox ∧ arrivals "a" (s.received.drop 1) = [.chunk 7] ∧
      (s.batches.req 1).rid = "a" ∧ s.data[1]? = some [] ∧ s.ingress.get? "a" = none :=
  ⟨completing_upstream, by decide, by decide, by decide, by decide, by decide, by decide⟩

end SglangOmni.Scheduling.Scheduler
