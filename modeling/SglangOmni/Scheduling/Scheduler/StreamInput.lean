import SglangOmni.Scheduling.Scheduler.Placement
import SglangOmni.Scheduling.Scheduler.Tokens

/-! Stream input reaches the request's data.

What has arrived for a request is in one place: in its ingress entry, in its payload and the ingress
entry, or with its data. `Carried` says so of a payload that may still be looked at again, `Captured`
of one that a builder has, and `Matches` of the data. The end of the stream is kept in two places, in
the ingress entry and as the boolean that was captured for the build, and is handed over once. -/
namespace SglangOmni.Scheduling.Scheduler
open Lib

variable {cfg : Config} {s s' : State} {n m : Nat} {r : String} {hand hand' : List Payload} {kept log : List Handed}
  {ingress : Option Ingress} {p : Payload} {q : Nat} {x : String}

/-! ### What arrived, and what was handed over -/

def chunks (l : List Handed) : List Chunk :=
  l.filterMap fun
    | .chunk c => some c
    | .done => none

/-- The chunks before the end of the stream. -/
def beforeDone (l : List Handed) : List Chunk := chunks (l.takeWhile (· ≠ .done))

/-- The data was handed what arrived: the chunks in their order, and the end once, after every chunk
that arrived before it. -/
structure Matches (arrived log : List Handed) : Prop where
  chunks : chunks log = chunks arrived
  once : log.count .done = arrived.count .done
  after : .done ∈ arrived → (beforeDone arrived).IsPrefix (beforeDone log)

@[simp] theorem chunks_nil : chunks [] = [] := rfl

@[simp] theorem chunks_chunk (c : Chunk) (l : List Handed) : chunks (.chunk c :: l) = c :: chunks l := rfl

@[simp] theorem chunks_done (l : List Handed) : chunks (.done :: l) = chunks l := rfl

@[simp] theorem beforeDone_nil : beforeDone [] = [] := rfl

@[simp] theorem beforeDone_chunk (c : Chunk) (l : List Handed) : beforeDone (.chunk c :: l) = c :: beforeDone l := by
  simp [beforeDone]

@[simp] theorem beforeDone_done (l : List Handed) : beforeDone (.done :: l) = [] := by
  simp [beforeDone]

theorem chunks_append (a b : List Handed) : chunks (a ++ b) = chunks a ++ chunks b := List.filterMap_append

theorem chunks_map (l : List Chunk) : chunks (l.map .chunk) = l := by
  induction l with
  | nil => rfl
  | cons c rest ih => exact congrArg (c :: ·) ih

theorem done_notMem_map (l : List Chunk) : Handed.done ∉ l.map .chunk := by
  simp

theorem beforeDone_prefix (l : List Handed) : (beforeDone l).IsPrefix (chunks l) :=
  (List.takeWhile_prefix _).filterMap _

/-- Nothing that comes after the end changes what was before it. -/
theorem beforeDone_append_of_mem {l : List Handed} (h : .done ∈ l) (l' : List Handed) :
    beforeDone (l ++ l') = beforeDone l := by
  induction l with
  | nil => cases h
  | cons x rest ih =>
    cases x with
    | done => simp
    | chunk c => simpa using ih (by simpa using h)

theorem beforeDone_append_done {l : List Handed} (h : .done ∉ l) (l' : List Handed) :
    beforeDone (l ++ .done :: l') = chunks l := by
  induction l with
  | nil => simp
  | cons x rest ih =>
    cases x with
    | done => simp at h
    | chunk c => simpa using ih (by simpa using h)

/-- One more item, handed over as it arrives. -/
theorem Matches.snoc {item : Handed} (h : Matches kept log) (hone : (kept ++ [item]).count .done ≤ 1) :
    Matches (kept ++ [item]) (log ++ [item]) := by
  have hmem : .done ∈ log ↔ .done ∈ kept := by
    rw [← List.count_pos_iff, ← List.count_pos_iff, h.once]
  refine ⟨?_, ?_, ?_⟩
  · rw [chunks_append, chunks_append, h.chunks]
  · rw [List.count_append, List.count_append, h.once]
  · intro hdone
    by_cases hk : .done ∈ kept
    · rw [beforeDone_append_of_mem hk, beforeDone_append_of_mem (hmem.mpr hk)]
      exact h.after hk
    · have hitem : item = .done := by
        obtain hdone | hdone := List.mem_append.mp hdone
        · exact absurd hdone hk
        · exact (List.mem_singleton.mp hdone).symm
      subst hitem
      simp only [beforeDone_append_done hk, beforeDone_append_done (mt hmem.mp hk), h.chunks, List.prefix_refl]

/-! ### Before the request is made -/

/-- What arrived is with the payload and in the ingress entry. -/
structure Carried (kept : List Handed) (ingress : Option Ingress) (p : Payload) : Prop where
  chunks : chunks kept = p.prefetchedChunks ++ (ingress.getD {}).chunks
  done : .done ∈ kept ↔ (ingress.getD {}).done = true

/-- The same, and what was captured for the build is right: the end that the payload knows about came
after the chunks it has. -/
structure Captured (kept : List Handed) (ingress : Option Ingress) (p : Payload) : Prop extends
    Carried kept ingress p where
  captured : p.prefetchedStreamDone = true → .done ∈ kept ∧ (beforeDone kept).IsPrefix p.prefetchedChunks

theorem Carried.add (h : Carried kept ingress p) (item : Handed) :
    Carried (kept ++ [item]) (some ((ingress.getD {}).add item)) p := by
  cases item with
  | chunk c =>
    refine ⟨?_, ?_⟩
    · rw [chunks_append, h.chunks, List.append_assoc]
      rfl
    · rw [List.mem_append]
      exact ⟨fun hd => h.done.mp (hd.resolve_right (by simp)), fun hd => .inl (h.done.mpr hd)⟩
  | done =>
    refine ⟨?_, ?_⟩
    · rw [chunks_append, h.chunks]
      exact List.append_nil _
    · exact ⟨fun _ => rfl, fun _ => by simp⟩

theorem Captured.add (h : Captured kept ingress p) (item : Handed) :
    Captured (kept ++ [item]) (some ((ingress.getD {}).add item)) p := by
  refine { h.toCarried.add item with captured := ?_ }
  intro hdone
  obtain ⟨hmem, hprefix⟩ := h.captured hdone
  exact ⟨List.mem_append_left _ hmem, by rwa [beforeDone_append_of_mem hmem]⟩

theorem prefetch_none (h : s.ingress.get? p.requestId = none) :
    prefetch s p = (s, { p with prefetchedStreamDone := false }) := by
  simp only [prefetch, h]

theorem prefetch_some {ingress : Ingress} (h : s.ingress.get? p.requestId = some ingress) :
    prefetch s p =
      ({ s with ingress := s.ingress.set p.requestId { ingress with chunks := [] } },
        { p with
          prefetchedChunks := p.prefetchedChunks ++ ingress.chunks
          prefetchedStreamDone := ingress.done }) := by
  simp only [prefetch, h]

/-- The payload takes what waits for it. -/
theorem Carried.prefetch (h : Carried kept (s.ingress.get? p.requestId) p) :
    Captured kept ((prefetch s p).1.ingress.get? p.requestId) (prefetch s p).2 := by
  cases hi : s.ingress.get? p.requestId with
  | none =>
    rw [hi] at h
    rw [prefetch_none hi, hi]
    exact ⟨⟨h.chunks, h.done⟩, fun hd => nomatch hd⟩
  | some ingress =>
    rw [hi] at h
    rw [prefetch_some hi, Dict.get?_set_self]
    have hchunks : Scheduler.chunks kept = p.prefetchedChunks ++ ingress.chunks := h.chunks
    refine ⟨⟨?_, h.done⟩, ?_⟩
    · rw [hchunks]
      exact (List.append_nil _).symm
    · intro hdone
      refine ⟨h.done.mpr hdone, ?_⟩
      rw [← hchunks]
      exact beforeDone_prefix kept

/-- The request's data starts with all that arrived. -/
theorem Captured.matches (h : Captured kept ingress p)
    (hone : kept.count .done ≤ 1) : Matches kept (initialHanded p p.prefetchedStreamDone ingress) := by
  have hchunks : ∀ b : Bool, Scheduler.chunks (if b then [Handed.done] else []) = [] := by
    intro b
    cases b <;> rfl
  have hcount : ∀ l : List Chunk, (l.map Handed.chunk).count .done = 0 :=
    fun l => List.count_eq_zero_of_not_mem (done_notMem_map l)
  unfold initialHanded
  dsimp only
  refine ⟨?_, ?_, ?_⟩
  · simp only [chunks_append, chunks_map, hchunks, List.append_nil]
    exact h.chunks.symm
  · cases hp : p.prefetchedStreamDone with
    | true =>
      have hmem := List.count_pos_iff.mpr (h.captured hp).1
      simp only [List.count_append, hcount, Bool.not_true, Bool.and_false, if_true, Bool.false_eq_true, if_false,
        List.count_cons_self, List.count_nil]
      omega
    | false =>
      simp only [List.count_append, hcount, Bool.not_false, Bool.and_true, Bool.false_eq_true, if_false, List.count_nil]
      cases hd : (ingress.getD {}).done with
      | true =>
        have hmem := List.count_pos_iff.mpr (h.done.mpr hd)
        simp only [if_true, List.count_cons_self, List.count_nil]
        omega
      | false =>
        have hnot : .done ∉ kept := fun hk => by rw [h.done.mp hk] at hd; cases hd
        simp only [Bool.false_eq_true, if_false, List.count_nil, List.count_eq_zero_of_not_mem hnot]
  · intro hdone
    have hd := h.done.mp hdone
    cases hp : p.prefetchedStreamDone with
    | true =>
      simp only [if_true, List.append_assoc, List.cons_append, List.nil_append]
      rw [beforeDone_append_done (done_notMem_map _), chunks_map]
      exact (h.captured hp).2
    | false =>
      simp only [Bool.false_eq_true, if_false, List.append_nil, hd, Bool.not_false, Bool.and_self, if_true]
      rw [← List.append_assoc, beforeDone_append_done, chunks_append, chunks_map, chunks_map, ← h.chunks]
      · exact beforeDone_prefix kept
      · rw [List.mem_append, not_or]
        exact ⟨done_notMem_map _, done_notMem_map _⟩

/-! ### Where it all is -/

/-- `kept` has arrived for the incarnation of `r` that came after `n` others, whose requests have
numbers below `m`. Until there is a request of its own, it is carried; then its data has it. -/
structure Streamed (n m : Nat) (r : String) (kept : List Handed) (hand : List Payload) (s : State) : Prop where
  old : ∀ q, q < m → (s.batches.req q).rid = r →
    (s.batches.req q).omniTerminalClaimed = true ∧ (s.batches.req q).omniData = none ∧ s.claimed ≠ some q
  fresh : (newIds s.received).count r = n → Carried kept (s.ingress.get? r) { requestId := r }
  loose : ∀ p, p ∈ hand ∨ p ∈ s.backlog ∨ s.deferred.get? r = some p → p.requestId = r →
    Carried kept (s.ingress.get? r) p
  builds : ∀ b, s.builds.get? r = some b → Captured kept (s.ingress.get? r) b.payload
  admissions : ∀ a, s.admissions.get? r = some a → Captured kept (s.ingress.get? r) a.payload
  live : ∀ q, m ≤ q → q < s.reqCount → (s.batches.req q).rid = r → (s.batches.req q).finished = false →
    s.ingress.get? r = none ∧ ∃ log, s.data[q]? = some log ∧ Matches kept log

theorem count_ids_pos {l : List Payload} (hp : p ∈ l) (hr : p.requestId = r) : 1 ≤ (ids l).count r :=
  List.count_pos_iff.mpr (hr ▸ List.mem_map_of_mem hp)

theorem count_keys_one {V : Type} {d : Dict String V} {v : V} (h : d.get? r = some v) : d.keys.count r = 1 := by
  rw [Dict.count_keys, h]
  rfl

theorem get_entered (hq : q < s.reqCount) : (entered s)[q]? = some (s.batches.req q).rid := by
  simp [entered, hq]

theorem count_entered_pos (hm : m ≤ q) (hq : q < s.reqCount) (hr : (s.batches.req q).rid = r) :
    1 ≤ ((entered s).drop m).count r := by
  refine List.count_pos_iff.mpr (List.mem_of_getElem? (i := q - m) ?_)
  rw [List.getElem?_drop, Nat.add_sub_cancel' hm, get_entered hq, hr]

/-- There is one request of the incarnation. -/
theorem entered_unique {p : Nat} (hone : ((entered s).drop m).count r ≤ 1) (hmp : m ≤ p) (hmq : m ≤ q)
    (hp : p < s.reqCount) (hq : q < s.reqCount) (hrp : (s.batches.req p).rid = r) (hrq : (s.batches.req q).rid = r) :
    p = q := by
  have hget : ∀ x, m ≤ x → x < s.reqCount → (s.batches.req x).rid = r → ((entered s).drop m)[x - m]? = some r := by
    intro x hmx hx hrx
    rw [List.getElem?_drop, Nat.add_sub_cancel' hmx, get_entered hx, hrx]
  by_contra hne
  have hdup : List.Duplicate r ((entered s).drop m) := by
    obtain hlt | hlt := Nat.lt_or_gt_of_ne hne
    · obtain ⟨hi, hgi⟩ := List.getElem?_eq_some_iff.mp (hget p hmp hp hrp)
      obtain ⟨hj, hgj⟩ := List.getElem?_eq_some_iff.mp (hget q hmq hq hrq)
      exact List.duplicate_iff_exists_distinct_get.mpr
        ⟨⟨p - m, hi⟩, ⟨q - m, hj⟩, Fin.mk_lt_mk.mpr (by omega), hgi.symm, hgj.symm⟩
    · obtain ⟨hi, hgi⟩ := List.getElem?_eq_some_iff.mp (hget q hmq hq hrq)
      obtain ⟨hj, hgj⟩ := List.getElem?_eq_some_iff.mp (hget p hmp hp hrp)
      exact List.duplicate_iff_exists_distinct_get.mpr
        ⟨⟨q - m, hi⟩, ⟨p - m, hj⟩, Fin.mk_lt_mk.mpr (by omega), hgi.symm, hgj.symm⟩
  have htwo := List.duplicate_iff_two_le_count.mp hdup
  omega

/-- What the count says about an incarnation: it has one place. -/
structure Alone (n m : Nat) (r : String) (hand : List Payload) (s : State) : Prop where
  after : n ≤ (newIds s.received).count r
  fresh : (newIds s.received).count r = n → total m r hand s = 0
  one : total m r hand s ≤ 1

theorem Tokens.alone (h : Tokens n m r hand s) (hone : (newIds s.received).count r ≤ n + 1) : Alone n m r hand s := by
  have hle := h.le
  exact ⟨by omega, fun hn => by omega, by omega⟩

/-- A payload that is carried has no request yet. -/
theorem Alone.loose (h : Alone n m r hand s) (hp : p ∈ hand ∨ p ∈ s.backlog ∨ s.deferred.get? r = some p)
    (hr : p.requestId = r) : ((entered s).drop m).count r = 0 := by
  have hone := h.one
  simp only [total] at hone
  obtain hp | hp | hp := hp
  · have := count_ids_pos hp hr
    omega
  · have := count_ids_pos hp hr
    omega
  · have := count_keys_one hp
    omega

theorem Alone.builds (h : Alone n m r hand s) {b : PendingBuild} (hb : s.builds.get? r = some b) :
    ((entered s).drop m).count r = 0 := by
  have hone := h.one
  have := count_keys_one hb
  simp only [total] at hone
  omega

theorem Alone.admissions (h : Alone n m r hand s) {a : PendingAdmission} (ha : s.admissions.get? r = some a) :
    ((entered s).drop m).count r = 0 := by
  have hone := h.one
  have := count_keys_one ha
  simp only [total] at hone
  omega

theorem Alone.entered_le (h : Alone n m r hand s) : ((entered s).drop m).count r ≤ 1 := by
  have hone := h.one
  simp only [total] at hone
  omega

theorem Alone.unborn (h : Alone n m r hand s) (hn : (newIds s.received).count r = n) :
    ((entered s).drop m).count r = 0 := by
  have hzero := h.fresh hn
  simp only [total] at hzero
  omega

/-! ### The engine -/

theorem Streamed.engine {rs : List String} (h : Streamed n m r kept hand s) (halone : Alone n m r hand s)
    (he : Engine rs s s') (hr : r ∉ rs) : Streamed n m r kept hand s' := by
  -- the ingress entry is there until the request of this incarnation is closed
  have hingress : s'.ingress.get? r = s.ingress.get? r ∨
      ∃ q, m ≤ q ∧ q < s.reqCount ∧ (s.batches.req q).rid = r ∧ (s'.batches.req q).finished = true := by
    obtain h1 | h1 | ⟨q, hq, hrid, hopen, hf, _⟩ := he.ingress r
    · exact .inl h1
    · exact absurd h1 hr
    · refine .inr ⟨q, ?_, hq, hrid, hf⟩
      by_contra hlt
      obtain ⟨hflag, _, hclaimed⟩ := h.old q (by omega) hrid
      obtain hopen | hopen := hopen
      · exact hclaimed hopen
      · rw [hflag] at hopen
        cases hopen
  have hsame : ((entered s).drop m).count r = 0 → s'.ingress.get? r = s.ingress.get? r := by
    intro hzero
    obtain h1 | ⟨q, hm, hq, hrid, _⟩ := hingress
    · exact h1
    · have := count_entered_pos hm hq hrid
      omega
  refine ⟨?_, ?_, ?_, ?_, ?_, ?_⟩
  · intro q hq hrid
    rw [he.rid] at hrid
    obtain ⟨hflag, hd, hclaimed⟩ := h.old q hq hrid
    refine ⟨he.flag q hflag, he.detached q hd, fun hc => ?_⟩
    obtain hc | hc := he.claimed q hc
    · exact hclaimed hc
    · rw [hflag] at hc
      cases hc
  · intro hn
    rw [he.received] at hn
    rw [hsame (halone.unborn hn)]
    exact h.fresh hn
  · intro p hp hid
    have hp : p ∈ hand ∨ p ∈ s.backlog ∨ s.deferred.get? r = some p := by
      obtain hp | hp | hp := hp
      · exact .inl hp
      · rw [he.backlog] at hp
        exact .inr (.inl (List.mem_filter.mp hp).1)
      · exact .inr (.inr (he.deferred.get? hp))
    rw [hsame (halone.loose hp hid)]
    exact h.loose p hp hid
  · intro b hb
    have hb := he.builds.get? hb
    rw [hsame (halone.builds hb)]
    exact h.builds b hb
  · intro a ha
    have ha := he.admissions.get? ha
    rw [hsame (halone.admissions ha)]
    exact h.admissions a ha
  · intro q hm hq hrid hf
    rw [he.reqCount] at hq
    rw [he.rid] at hrid
    have hfinished : (s.batches.req q).finished = false := by
      cases hold : (s.batches.req q).finished with
      | false => rfl
      | true =>
        rw [he.finished q hold] at hf
        cases hf
    obtain ⟨hnone, hlog⟩ := h.live q hm hq hrid hfinished
    rw [he.data]
    refine ⟨?_, hlog⟩
    obtain h1 | ⟨p, hmp, hp, hridp, hfp⟩ := hingress
    · exact h1.trans hnone
    · have heq := entered_unique halone.entered_le hmp hm hp hq hridp hrid
      subst heq
      rw [hf] at hfp
      cases hfp

/-! ### Admission -/

theorem Alone.weaken (h : Alone n m r (p :: hand) s) : Alone n m r hand s := by
  have hle : total m r hand s ≤ total m r (p :: hand) s := by
    simp only [total, count_ids_cons]
    omega
  exact ⟨h.after, fun hn => by have := h.fresh hn; omega, Nat.le_trans hle h.one⟩

theorem Alone.of_eq (h : Alone n m r hand s) (hreceived : s'.received = s.received)
    (htotal : total m r hand' s' = total m r hand s) : Alone n m r hand' s' :=
  ⟨by rw [hreceived]; exact h.after, fun hn => by rw [htotal]; exact h.fresh (hreceived ▸ hn),
    by rw [htotal]; exact h.one⟩

theorem Alone.of_count (h : Alone n m r hand s) {msgs : List IncomingMessage}
    (hcount : (newIds msgs).count r = (newIds s.received).count r) : Alone n m r hand { s with received := msgs } :=
  ⟨h.after.trans (Nat.le_of_eq hcount.symm), fun hn => h.fresh (hcount.symm.trans hn), h.one⟩

theorem Streamed.subset (h : Streamed n m r kept hand s) (hsub : ∀ p ∈ hand', p ∈ hand) :
    Streamed n m r kept hand' s :=
  { h with loose := fun p hp hid => h.loose p (hp.imp_left (hsub p)) hid }

/-- While the payload of the incarnation is in hand, there is nothing of it anywhere else. -/
theorem Streamed.inHand (h : Streamed n m r kept (p :: hand) s) (halone : Alone n m r (p :: hand) s)
    (hid : p.requestId = r) (ingress : Dict String Ingress) : Streamed n m r kept hand { s with ingress } := by
  have hone := halone.one
  simp only [total, count_ids_cons, hid, List.count_cons_self] at hone
  refine ⟨h.old, ?_, ?_, ?_, ?_, ?_⟩
  · intro hn
    have hzero := halone.fresh hn
    simp only [total, count_ids_cons, hid, List.count_cons_self] at hzero
    omega
  · intro x hx hxid
    have hx : x ∈ hand ∨ x ∈ s.backlog ∨ s.deferred.get? r = some x := hx
    obtain hx | hx | hx := hx
    · have := count_ids_pos hx hxid
      omega
    · have := count_ids_pos hx hxid
      omega
    · have := count_keys_one hx
      omega
  · intro b hb
    have := count_keys_one (d := s.builds) hb
    omega
  · intro a ha
    have := count_keys_one (d := s.admissions) ha
    omega
  · intro q hm hq hrid _
    have := count_entered_pos (s := s) hm hq hrid
    omega

theorem Streamed.cleared (h : Streamed n m r kept hand s) (hx : x ≠ r) :
    Streamed n m r kept hand (cleared s x) := by
  have hingress : (Scheduler.cleared s x).ingress.get? r = s.ingress.get? r := Dict.get?_pop_ne s.ingress (Ne.symm hx)
  have hdeferred : (Scheduler.cleared s x).deferred.get? r = s.deferred.get? r :=
    Dict.get?_pop_ne s.deferred (Ne.symm hx)
  refine ⟨h.old, ?_, ?_, ?_, ?_, ?_⟩
  · rw [hingress]
    exact h.fresh
  · rw [hingress, hdeferred]
    exact h.loose
  · rw [hingress]
    exact h.builds
  · rw [hingress]
    exact h.admissions
  · rw [hingress]
    exact h.live

theorem streamed_enqueue_ne (h : Streamed n m r kept hand s) (howned : s.data.length = s.reqCount)
    (hmade : m ≤ s.reqCount) (hx : x ≠ r) (handed : List Handed) :
    Streamed n m r kept hand (enqueue s x handed) := by
  have hold : ∀ q, q < s.reqCount → (enqueue s x handed).batches.req q = s.batches.req q := by
    intro q hq
    simp only [enqueue, Batches.setReq, Function.update_of_ne (Nat.ne_of_lt hq)]
  refine ⟨?_, h.fresh, h.loose, h.builds, h.admissions, ?_⟩
  · intro q hq hrid
    rw [hold q (Nat.lt_of_lt_of_le hq hmade)] at hrid ⊢
    exact h.old q hq hrid
  · intro q hm hq hrid hf
    obtain hq | rfl := Nat.lt_or_eq_of_le (Nat.le_of_lt_succ hq)
    · rw [hold q hq] at hrid hf
      obtain ⟨hnone, log, hlog, hmatch⟩ := h.live q hm hq hrid hf
      refine ⟨hnone, log, ?_, hmatch⟩
      rw [← hlog]
      exact List.getElem?_append_left (by rw [howned]; exact hq)
    · have hnew : ((enqueue s x handed).batches.req s.reqCount).rid = x := by simp [enqueue, Batches.setReq]
      exact absurd (hnew.symm.trans hrid) hx

/-- The request is made, and its data has all that arrived. -/
theorem streamed_enqueue (h : Streamed n m r kept hand s) (howned : s.data.length = s.reqCount) (hmade : m ≤ s.reqCount)
    (halone : Alone n m r (p :: hand) s) (hid : p.requestId = r)
    (hcap : Captured kept (s.ingress.get? r) p) (hone : kept.count .done ≤ 1) :
    Streamed n m r kept hand
      (enqueue (cleared s p.requestId) p.requestId
        (initialHanded p p.prefetchedStreamDone (s.ingress.get? p.requestId))) := by
  subst hid
  have hold : ∀ q, q < s.reqCount → (enqueue (cleared s p.requestId) p.requestId
      (initialHanded p p.prefetchedStreamDone (s.ingress.get? p.requestId))).batches.req q = s.batches.req q := by
    intro q hq
    simp only [enqueue, cleared, Batches.setReq, Function.update_of_ne (Nat.ne_of_lt hq)]
  have htotal := halone.one
  simp only [total, count_ids_cons, List.count_cons_self] at htotal
  refine ⟨?_, ?_, ?_, ?_, ?_, ?_⟩
  · intro q hq hrid
    rw [hold q (Nat.lt_of_lt_of_le hq hmade)] at hrid ⊢
    exact h.old q hq hrid
  · intro hn
    have hzero := halone.fresh hn
    simp only [total, count_ids_cons, List.count_cons_self] at hzero
    omega
  · intro x hx hxid
    obtain hx | hx | hx := hx
    · have := count_ids_pos hx hxid
      omega
    · have := count_ids_pos (l := s.backlog) hx hxid
      omega
    · have hget : (s.deferred.pop p.requestId).get? p.requestId = some x := hx
      rw [Dict.get?_pop_self] at hget
      cases hget
  · intro b hb
    have := count_keys_one (d := s.builds) hb
    omega
  · intro a ha
    have := count_keys_one (d := s.admissions) ha
    omega
  · intro q hm hq hrid hf
    obtain hq | rfl := Nat.lt_or_eq_of_le (Nat.le_of_lt_succ hq)
    · have hq : q < s.reqCount := hq
      rw [hold q hq] at hrid
      have := count_entered_pos hm hq hrid
      omega
    · refine ⟨Dict.get?_pop_self s.ingress p.requestId, _, ?_, hcap.matches hone⟩
      have hlength : (cleared s p.requestId).reqCount = s.data.length := howned.symm
      rw [hlength]
      exact List.getElem?_concat_length

theorem streamed_admitted (h : Streamed n m r kept hand s) (hsane : Known s ∧ Requests s) (hmade : m ≤ s.reqCount)
    {done : Bool} (halone : Alone n m r (p :: hand) s)
    (hcap : p.requestId = r → Captured kept (s.ingress.get? r) p) (hdone : done = p.prefetchedStreamDone)
    (hone : kept.count .done ≤ 1) (hadmitted : Admitted cfg s p done s') (hlog : r ∉ s'.abortLog) :
    Streamed n m r kept hand s' := by
  cases hadmitted with
  | failed d =>
    have hcut := cut_fail cfg s p.requestId d
    refine h.engine halone.weaken hcut.engine ?_
    rw [hcut.abortLog, List.mem_append, not_or] at hlog
    exact hlog.2
  | aborted _ => exact h
  | abortedLate hp =>
    refine h.cleared fun hid => hlog ?_
    rw [← hid]
    exact hsane.2.aborted _ hp
  | held _ value =>
    refine { h with admissions := ?_ }
    intro a ha
    rw [Dict.get?_set] at ha
    split at ha
    · next hid =>
      cases ha
      exact hcap hid.symm
    · exact h.admissions a ha
  | enqueued _ =>
    by_cases hid : p.requestId = r
    · rw [hdone]
      exact streamed_enqueue h hsane.2.owned hmade halone hid (hcap hid) hone
    · exact streamed_enqueue_ne (h.cleared hid) hsane.2.owned hmade hid _

/-- The payload takes what waits for it. -/
theorem streamed_prefetch (h : Streamed n m r kept (p :: hand) s) (halone : Alone n m r (p :: hand) s) :
    Streamed n m r kept hand (prefetch s p).1 ∧
      (p.requestId = r → Captured kept ((prefetch s p).1.ingress.get? r) (prefetch s p).2) := by
  have hrest : Streamed n m r kept hand s := h.subset fun x hx => List.mem_cons_of_mem _ hx
  by_cases hid : p.requestId = r
  · have hcarried := h.loose p (.inl List.mem_cons_self) hid
    refine ⟨?_, fun _ => ?_⟩
    · cases hi : s.ingress.get? p.requestId with
      | none =>
        rw [prefetch_none hi]
        exact hrest
      | some ingress =>
        rw [prefetch_some hi]
        exact h.inHand halone hid _
    · rw [← hid] at hcarried ⊢
      exact hcarried.prefetch
  · refine ⟨?_, fun he => absurd he hid⟩
    cases hi : s.ingress.get? p.requestId with
    | none =>
      rw [prefetch_none hi]
      exact hrest
    | some ingress =>
      rw [prefetch_some hi]
      have hsame : (s.ingress.set p.requestId { ingress with chunks := [] }).get? r = s.ingress.get? r :=
        Dict.get?_set_ne s.ingress _ (Ne.symm hid)
      refine ⟨hrest.old, ?_, ?_, ?_, ?_, ?_⟩
      · rw [hsame]
        exact hrest.fresh
      · rw [hsame]
        exact hrest.loose
      · rw [hsame]
        exact hrest.builds
      · rw [hsame]
        exact hrest.admissions
      · rw [hsame]
        exact hrest.live

section
variable (h : Streamed n m r kept hand s) (hsane : Known s ∧ Requests s) (hkeyed : Keyed s) (hmade : m ≤ s.reqCount)
    (halone : Alone n m r hand s) (hone : kept.count .done ≤ 1)
include h hsane hkeyed hmade halone hone

theorem streamed_drainBuild (answers : Answers)
    (hlog : r ∉ (drainRequestBuildResult cfg s answers).abortLog) :
    Streamed n m r kept hand (drainRequestBuildResult cfg s answers) := by
  obtain h1 | ⟨x, build, hget, h1⟩ := drainBuild_cases cfg s answers
  · rw [h1]
    exact h
  · obtain ⟨hid, hdone⟩ := hkeyed.builds x build hget
    have hpop : Streamed n m r kept hand { s with builds := s.builds.pop x } :=
      { h with builds := fun b hb => h.builds b (get?_of_pop hb) }
    obtain ⟨_, h1⟩ | h1 := h1
    · rw [h1]
      exact hpop
    · have halone' : Alone n m r (build.payload :: hand) { s with builds := s.builds.pop x } := by
        refine halone.of_eq rfl ?_
        have hcount := count_pop hget r
        have hentered : entered { s with builds := s.builds.pop x } = entered s := rfl
        simp only [total, count_ids_cons, hid, hentered]
        omega
      refine streamed_admitted hpop ⟨{ hsane.1 with }, { hsane.2 with }⟩ hmade halone' ?_ hdone hone h1 hlog
      intro hr
      exact h.builds build (by rw [← hr, hid]; exact hget)

theorem streamed_drainAdmission (x : String)
    (answers : Answers) (hlog : r ∉ (drainRequestAdmissionResult cfg s x answers).abortLog) :
    Streamed n m r kept hand (drainRequestAdmissionResult cfg s x answers) := by
  obtain h1 | ⟨pending, hget, h1⟩ := drainAdmission_cases cfg s x answers
  · rw [h1]
    exact h
  · obtain ⟨hid, hdone⟩ := hkeyed.admissions x pending hget
    have hpop : Streamed n m r kept hand { s with admissions := s.admissions.pop x } :=
      { h with admissions := fun a ha => h.admissions a (get?_of_pop ha) }
    obtain ⟨_, h1⟩ | h1 := h1
    · rw [h1]
      exact hpop
    · have halone' : Alone n m r (pending.payload :: hand) { s with admissions := s.admissions.pop x } := by
        refine halone.of_eq rfl ?_
        have hcount := count_pop hget r
        have hentered : entered { s with admissions := s.admissions.pop x } = entered s := rfl
        simp only [total, count_ids_cons, hid, hentered]
        omega
      refine streamed_admitted hpop ⟨{ hsane.1 with }, { hsane.2 with }⟩ hmade halone' ?_ hdone hone h1 hlog
      intro hr
      exact h.admissions pending (by rw [← hr, hid]; exact hget)

end

theorem known_prefetch (h : Known s ∧ Requests s) (p : Payload) :
    Known (prefetch s p).1 ∧ Requests (prefetch s p).1 := by
  cases hi : s.ingress.get? p.requestId with
  | none => rwa [prefetch_none hi]
  | some ingress =>
    rw [prefetch_some hi]
    exact ⟨{ h.1 with }, { h.2 with }⟩

theorem streamed_processInputRequest (h : Streamed n m r kept (p :: hand) s) (hsane : Known s ∧ Requests s)
    (hmade : m ≤ s.reqCount) (halone : Alone n m r (p :: hand) s) (hone : kept.count .done ≤ 1) (result : BuildResult)
    (answers : Answers) (hlog : r ∉ (processInputRequest cfg s p result answers).abortLog) :
    Streamed n m r kept hand (processInputRequest cfg s p result answers) := by
  have hrest : Streamed n m r kept hand s := h.subset fun x hx => List.mem_cons_of_mem _ hx
  have hid := requestId_prefetch s p
  obtain ⟨hprefetch, hcap⟩ := streamed_prefetch h halone
  obtain ⟨_, h2⟩ | h2 | ⟨_, h2 | h2 | h2⟩ := processInputRequest_cases cfg s p result answers
  · rw [h2]
    exact hrest
  · rw [h2] at hlog ⊢
    have hcut := cut_fail cfg s p.requestId true
    refine hrest.engine halone.weaken hcut.engine ?_
    rw [hcut.abortLog, List.mem_append, not_or] at hlog
    exact hlog.2
  · rw [h2]
    refine { hprefetch with loose := ?_ }
    intro x hx hxid
    obtain hx | hx | hx := hx
    · exact hprefetch.loose x (.inl hx) hxid
    · exact hprefetch.loose x (.inr (.inl hx)) hxid
    · rw [Dict.get?_set] at hx
      split at hx
      · next hr =>
        cases hx
        exact (hcap hr.symm).toCarried
      · exact hprefetch.loose x (.inr (.inr hx)) hxid
  · rw [h2]
    refine { hprefetch with builds := ?_ }
    intro b hb
    rw [Dict.get?_set] at hb
    split at hb
    · next hr =>
      cases hb
      exact hcap hr.symm
    · exact hprefetch.builds b hb
  · have hmoved := moved_prefetch (m := m) (r := r) hand s p
    have halone' : Alone n m r ((prefetch s p).2 :: hand) (prefetch s p).1 := by
      refine halone.of_eq hmoved.received ?_
      cases hi : s.ingress.get? p.requestId with
      | none =>
        rw [prefetch_none hi]
        rfl
      | some ingress =>
        rw [prefetch_some hi]
        rfl
    have hmade' : m ≤ (prefetch s p).1.reqCount := (admitRule_reqCount cfg m).prefetch hmade p
    refine streamed_admitted hprefetch (known_prefetch hsane p) hmade' halone' ?_ rfl hone h2 hlog
    intro hr
    exact hcap (by rw [← hid]; exact hr)

/-! ### Payloads on their way -/

theorem mem_takeBacklog (s : State) (capacity : Nat) (backlog : List Payload)
    (hp : p ∈ (takeBacklog s capacity backlog).1) : p ∈ backlog := by
  fun_induction takeBacklog s capacity backlog with
  | case1 backlog => cases hp
  | case2 capacity _ => cases hp
  | case3 capacity payload backlog _ ih => exact List.mem_cons_of_mem _ (ih hp)
  | case4 capacity payload backlog _ rest ih =>
    obtain rfl | hp := List.mem_cons.mp hp
    · exact List.mem_cons_self
    · exact List.mem_cons_of_mem _ (ih hp)

/-- The payloads that staging has put somewhere. -/
def Staging.all (acc : Staging) : List Payload := acc.rejected ++ acc.selected ++ acc.backlog

theorem mem_stageOne (cfg : Config) (maxPending : Nat) (s : State) (acc : Staging) (payload : Payload)
    (hp : p ∈ (stageOne cfg maxPending s acc payload).all) : p ∈ acc.all ∨ p = payload := by
  revert hp
  unfold stageOne Staging.all
  dsimp only
  split
  · exact .inl
  · split
    · simp only [List.mem_append, List.mem_singleton]
      tauto
    · split
      · simp only [List.mem_append, List.mem_singleton]
        tauto
      · split
        · simp only [List.mem_append, List.mem_singleton]
          tauto
        · simp only [List.mem_append, List.mem_singleton]
          tauto

theorem mem_stageAll (cfg : Config) (maxPending : Nat) (s : State) (recvReqs : List Payload) (acc : Staging)
    (hp : p ∈ (recvReqs.foldl (stageOne cfg maxPending s) acc).all) : p ∈ acc.all ∨ p ∈ recvReqs := by
  induction recvReqs generalizing acc with
  | nil => exact .inl hp
  | cons payload rest ih =>
    obtain hp | hp := ih _ hp
    · obtain hp | hp := mem_stageOne cfg maxPending s acc payload hp
      · exact .inl hp
      · exact .inr (by rw [hp]; exact List.mem_cons_self)
    · exact .inr (List.mem_cons_of_mem _ hp)

theorem mem_stage (cfg : Config) (s : State) (recvReqs : List Payload) :
    let staged := stageRequestBuildPayloads cfg s recvReqs
    p ∈ staged.2.2 ++ staged.2.1 ∨ p ∈ staged.1.backlog → p ∈ recvReqs ∨ p ∈ s.backlog := by
  unfold stageRequestBuildPayloads
  dsimp only
  split
  · exact fun hp => hp
  · next maxPending _ =>
    split
    · simp only [List.append_nil, List.mem_append, List.mem_filter, List.not_mem_nil, or_false]
      tauto
    · intro hp
      have hall : p ∈ (recvReqs.foldl (stageOne cfg maxPending s) (stagingStart maxPending s)).all := by
        simp only [Staging.all, List.mem_append]
        simpa only [staged, List.mem_append] using hp
      obtain hp | hp := mem_stageAll cfg maxPending s recvReqs _ hall
      · refine .inr ?_
        simp only [Staging.all, stagingStart, List.nil_append, List.mem_append] at hp
        obtain hp | hp := hp
        · exact mem_takeBacklog s _ _ hp
        · exact (takeBacklog_suffix s _ _).subset hp
      · exact .inl hp

theorem streamed_stage {recvReqs : List Payload} (h : Streamed n m r kept recvReqs s) :
    Streamed n m r kept ((stageRequestBuildPayloads cfg s recvReqs).2.2 ++
      (stageRequestBuildPayloads cfg s recvReqs).2.1)
      (stageRequestBuildPayloads cfg s recvReqs).1 := by
  have hmem : ∀ p, p ∈ (stageRequestBuildPayloads cfg s recvReqs).2.2 ++
    (stageRequestBuildPayloads cfg s recvReqs).2.1 ∨
      p ∈ (stageRequestBuildPayloads cfg s recvReqs).1.backlog → p ∈ recvReqs ∨ p ∈ s.backlog :=
    fun p => mem_stage cfg s recvReqs
  rw [stage_backlog cfg s recvReqs]
  refine { h with loose := ?_ }
  intro p hp hid
  refine h.loose p ?_ hid
  obtain hp | hp | hp := hp
  · exact (hmem p (.inl hp)).imp_right .inl
  · exact (hmem p (.inr hp)).imp_right .inl
  · exact .inr (.inr hp)

theorem streamed_takeDeferred {recvReqs : List Payload} (h : Streamed n m r kept recvReqs s) (hkeyed : Keyed s)
    (order : List String) :
    Streamed n m r kept (recvReqs ++ (takeDeferredRequestPayloads s order).2)
      (takeDeferredRequestPayloads s order).1 := by
  refine { h with loose := ?_ }
  intro p hp hid
  refine h.loose p ?_ hid
  obtain hp | hp | hp := hp
  · obtain hp | hp := List.mem_append.mp hp
    · exact .inl hp
    · obtain ⟨x, _, hx⟩ := List.mem_filterMap.mp hp
      have hkey := hkeyed.deferred x p hx
      exact .inr (.inr (by rw [← hid, hkey]; exact hx))
  · exact .inr (.inl hp)
  · refine .inr (.inr ?_)
    simp only [takeDeferredRequestPayloads, Dict.get?_foldl_pop] at hp
    split at hp
    · cases hp
    · exact hp

/-! ### Receiving -/

/-- The item of the stream in a message. -/
def Input.item : Input → Option Handed
  | .newRequest => none
  | .streamChunk c => some (.chunk c)
  | .streamDone => some .done

/-- What arrived for `r` with some messages. -/
def arrivals (r : String) (msgs : List IncomingMessage) : List Handed :=
  msgs.filterMap fun m => if m.requestId = r then m.input.item else none

/-- What a message brings for `r`, while `r` is open. -/
def brought (r : String) (s : State) (msg : IncomingMessage) : List Handed :=
  if r ∈ s.completed then [] else arrivals r [msg]

theorem arrivals_append (r : String) (a b : List IncomingMessage) :
    arrivals r (a ++ b) = arrivals r a ++ arrivals r b := List.filterMap_append

theorem arrivals_of_ne {msg : IncomingMessage} (h : msg.requestId ≠ r) : arrivals r [msg] = [] := by
  simp [arrivals, h]

/-- The requests of `r` that are listed. -/
def listedAs (r : String) (s : State) : List Nat :=
  (s.batches.listed ++ s.waiting).filter fun q => (s.batches.req q).rid = r

/-- The request of the incarnation and one of an earlier incarnation are not listed side by side. -/
def Unaliased (m : Nat) (r : String) (s : State) : Prop :=
  (∃ q ∈ listedAs r s, m ≤ q) → ∀ q ∈ listedAs r s, m ≤ q

theorem mem_listedAs : q ∈ listedAs r s ↔ q ∈ s.batches.listed ++ s.waiting ∧ (s.batches.req q).rid = r := by
  simp only [listedAs, List.mem_filter, decide_eq_true_eq]

/-- What is found by an id belongs to a request of that id. -/
theorem findRequestData_owner (hknown : Known s) {d : Nat} (h : findRequestData s x = some d) :
    ∃ p, p < s.reqCount ∧ (s.batches.req p).rid = x ∧ (s.batches.req p).omniData = some d := by
  unfold findRequestData at h
  split at h
  · cases h
  · next p hfind =>
    refine ⟨p, ?_, by simpa using List.find?_some hfind, h⟩
    obtain hp | hp := List.mem_append.mp (List.mem_of_find?_eq_some hfind)
    · exact hknown.listed p hp
    · exact hknown.waiting p hp

/-- A request that is open is found by its id. -/
theorem findRequestData_live (hknown : Known s) (hr : Requests s) (hplaced : Placed s) (halone : Alone n m r hand s)
    (hlog : r ∉ s.abortLog) (halias : Unaliased m r s) (hm : m ≤ q) (hq : q < s.reqCount)
    (hrid : (s.batches.req q).rid = r) (hf : (s.batches.req q).finished = false) : findRequestData s r = some q := by
  have hmem := mem_places_of_found (hplaced.placed q hq hf (by rw [hrid]; exact hlog))
  have hdata : (s.batches.req q).omniData = some q := by
    cases hd : (s.batches.req q).omniData with
    | none =>
      obtain hbad | ⟨hbad, _⟩ := hr.detached q hq hd
      · exact absurd (hrid ▸ hbad) hlog
      · rw [hf] at hbad
        cases hbad
    | some d => rw [hr.data q d hq hd]
  unfold findRequestData
  cases hfind : (s.batches.listed ++ s.waiting).find? fun q => (s.batches.req q).rid = r with
  | none =>
    rw [List.find?_eq_none] at hfind
    exact absurd (by simpa using hrid) (hfind q hmem)
  | some p =>
    have hp := List.mem_of_find?_eq_some hfind
    have hpr : (s.batches.req p).rid = r := by simpa using List.find?_some hfind
    have hpk : p < s.reqCount := by
      obtain hp | hp := List.mem_append.mp hp
      · exact hknown.listed p hp
      · exact hknown.waiting p hp
    have hmp := halias ⟨q, mem_listedAs.mpr ⟨hmem, hrid⟩, hm⟩ p (mem_listedAs.mpr ⟨hp, hpr⟩)
    have heq := entered_unique halone.entered_le hmp hm hpk hq hpr hrid
    rw [heq]
    exact hdata

/-- What is found by an id is the data of a request that is open. -/
theorem findRequestData_some (hknown : Known s) (hr : Requests s) (hloop : atLoop s = true)
    (hlog : x ∉ s.abortLog) {d : Nat} (h : findRequestData s x = some d) :
    d < s.reqCount ∧ (s.batches.req d).rid = x ∧ (s.batches.req d).finished = false ∧
      (s.batches.req d).omniData ≠ none := by
  obtain ⟨p, hpk, hpx, hpd⟩ := findRequestData_owner hknown h
  have hd := hr.data p d hpk hpd
  subst hd
  have hattached : (s.batches.req d).omniData ≠ none := by
    rw [hpd]
    exact fun hn => nomatch hn
  refine ⟨hpk, hpx, ?_, hattached⟩
  cases hf : (s.batches.req d).finished with
  | false => rfl
  | true =>
    have hclosing := hr.closing d hpk hf hattached (by rw [hpx]; exact hlog)
    simp only [atLoop, Bool.and_eq_true, decide_eq_true_eq] at hloop
    rw [hloop.1, hloop.2] at hclosing
    obtain hbad | hbad := hclosing
    · cases hbad
    · cases hbad

/-- The messages have no say in it, but for the number of new requests. -/
theorem Streamed.received (h : Streamed n m r kept hand s) {msgs : List IncomingMessage}
    (hcount : (newIds msgs).count r = (newIds s.received).count r) :
    Streamed n m r kept hand { s with received := msgs } :=
  { h with fresh := fun hn => h.fresh (hcount.symm.trans hn) }

theorem reserve_of_lt {ingress : Dict String Ingress} (h : ingress.length < pendingStreamLimit) (x : String) :
    reservePendingStreamRequest ingress x = ingress := by
  unfold reservePendingStreamRequest
  rw [if_pos h]
  split <;> rfl

/-- An item for another request. -/
theorem streamed_onStream_ne (h : Streamed n m r kept hand s) (hknown : Known s) (hr : Requests s)
    (hroom : s.ingress.length < pendingStreamLimit) (hx : x ≠ r) (item : Handed) (recheck : Bool) :
    Streamed n m r kept hand (onStream s x item recheck) := by
  unfold onStream
  split
  · exact h
  · split
    · next d hd =>
      have hne : ∀ q, q < s.reqCount → (s.batches.req q).rid = r → d ≠ q := by
        intro q hq hrid hdq
        subst hdq
        obtain ⟨p, hpk, hpx, hpd⟩ := findRequestData_owner hknown hd
        have hdp := hr.data p d hpk hpd
        subst hdp
        exact hx (hpx.symm.trans hrid)
      refine { h with live := ?_ }
      intro q hm hq hrid hf
      obtain ⟨hnone, log, hlog, hmatch⟩ := h.live q hm hq hrid hf
      refine ⟨hnone, log, ?_, hmatch⟩
      exact (List.getElem?_modify_ne _ s.data (hne q hq hrid)).trans hlog
    · have hsame : ((reservePendingStreamRequest s.ingress x).set x
          (Ingress.add (((reservePendingStreamRequest s.ingress x).get? x).getD {}) item)).get? r =
            s.ingress.get? r := by
        rw [Dict.get?_set_ne _ _ (Ne.symm hx), reserve_of_lt hroom]
      have hparked : Streamed n m r kept hand (park s x (·.add item)) := by
        refine ⟨h.old, ?_, ?_, ?_, ?_, ?_⟩ <;> simp only [park, hsame]
        · exact h.fresh
        · exact h.loose
        · exact h.builds
        · exact h.admissions
        · exact h.live
      dsimp only
      split
      · exact { hparked with }
      · exact hparked

/-- An item for the request. -/
theorem streamed_onStream (h : Streamed n m r kept hand s) (hknown : Known s) (hr : Requests s) (hplaced : Placed s)
    (hloop : atLoop s = true) (halone : Alone n m r hand s) (hlog : r ∉ s.abortLog)
    (hroom : s.ingress.length < pendingStreamLimit) (halias : Unaliased m r s) (hopen : r ∉ s.completed) {item : Handed}
    (hdone : (kept ++ [item]).count .done ≤ 1) (recheck : Bool) :
    Streamed n m r (kept ++ [item]) hand (onStream s r item recheck) := by
  unfold onStream
  rw [if_neg hopen]
  split
  · next d hd =>
    -- the request is open, so there is nothing of it but its data
    obtain ⟨hdk, hdr, hdf, hattached⟩ := findRequestData_some hknown hr hloop hlog hd
    have hmd : m ≤ d := by
      by_contra hlt
      exact hattached (h.old d (by omega) hdr).2.1
    have hpos := count_entered_pos hmd hdk hdr
    refine ⟨h.old, ?_, ?_, ?_, ?_, ?_⟩
    · intro hn
      have := halone.unborn hn
      omega
    · intro p hp hid
      have := halone.loose hp hid
      omega
    · intro b hb
      have := halone.builds hb
      omega
    · intro a ha
      have := halone.admissions ha
      omega
    · intro q hm hq hrid hf
      have heq := entered_unique halone.entered_le hmd hm hdk hq hdr hrid
      subst heq
      obtain ⟨hnone, log, hget, hmatch⟩ := h.live d hm hq hrid hf
      refine ⟨hnone, log ++ [item], ?_, hmatch.snoc hdone⟩
      rw [Scheduler.hand, List.getElem?_modify_eq, hget]
      rfl
  · next hd =>
    have hset : (park s r (·.add item)).ingress.get? r = some (((s.ingress.get? r).getD {}).add item) := by
      simp only [park, Dict.get?_set_self, reserve_of_lt hroom]
    have hparked : Streamed n m r (kept ++ [item]) hand (park s r (·.add item)) := by
      refine ⟨h.old, ?_, ?_, ?_, ?_, ?_⟩
      · intro hn
        rw [hset]
        exact (h.fresh hn).add item
      · intro p hp hid
        rw [hset]
        exact (h.loose p hp hid).add item
      · intro b hb
        rw [hset]
        exact (h.builds b hb).add item
      · intro a ha
        rw [hset]
        exact (h.admissions a ha).add item
      · intro q hm hq hrid hf
        rw [findRequestData_live hknown hr hplaced halone hlog halias hm hq hrid hf] at hd
        cases hd
    dsimp only
    split
    · exact { hparked with }
    · exact hparked

/-- What a message changes: the record of it, and what it brings to an open request. -/
theorem streamed_recvOne {acc : State × List Payload} (h : Streamed n m r kept acc.2 acc.1) (hknown : Known acc.1)
    (hr : Requests acc.1) (hplaced : Placed acc.1) (hloop : atLoop acc.1 = true) (halone : Alone n m r acc.2 acc.1)
    (hlog : r ∉ acc.1.abortLog) (hroom : acc.1.ingress.length < pendingStreamLimit) {msg : IncomingMessage}
    (halias : msg.requestId = r → Unaliased m r acc.1)
    (hcount : (newIds (acc.1.received ++ [msg])).count r ≤ n + 1)
    (hdone : (kept ++ brought r acc.1 msg).count .done ≤ 1) :
    Streamed n m r (kept ++ brought r acc.1 msg) (recvOne cfg acc msg).2 (recvOne cfg acc msg).1 := by
  have hother : msg.requestId ≠ r → brought r acc.1 msg = [] ∧
      (newIds (acc.1.received ++ [msg])).count r = (newIds acc.1.received).count r := by
    intro hne
    refine ⟨?_, ?_⟩
    · rw [brought, arrivals_of_ne hne, ite_self]
    · rw [newIds_append, List.count_append, newIds_singleton]
      split
      · rw [List.count_cons_of_ne hne, List.count_nil]
        rfl
      · rfl
  obtain ⟨hmem, h1⟩ | ⟨_, hinput, h1⟩ | ⟨item, recheck, _, hitem, _, h1⟩ := recvOne_cases cfg acc msg
  · have hne : msg.requestId ≠ r := fun he => hlog (he ▸ hr.aborted _ hmem)
    obtain ⟨hnone, hsame⟩ := hother hne
    rw [h1, hnone, List.append_nil]
    exact h.received hsame
  · rw [h1]
    by_cases hid : msg.requestId = r
    · have hnone : brought r acc.1 msg = [] := by
        unfold brought
        split
        · rfl
        · simp [arrivals, hinput, Input.item]
      have hnew : (newIds (acc.1.received ++ [msg])).count r = (newIds acc.1.received).count r + 1 := by
        rw [newIds_append, List.count_append, newIds_singleton, if_pos hinput, hid, List.count_cons_self]
        rfl
      have hfirst : (newIds acc.1.received).count r = n := by
        have := halone.after
        omega
      rw [hnone, List.append_nil]
      refine ⟨h.old, ?_, ?_, h.builds, h.admissions, h.live⟩
      · intro hn
        have hn : (newIds (acc.1.received ++ [msg])).count r = n := hn
        omega
      · intro p hp hpid
        obtain hp | hp := hp
        · obtain hp | hp := List.mem_append.mp hp
          · exact h.loose p (.inl hp) hpid
          · rw [List.mem_singleton.mp hp, hid]
            exact h.fresh hfirst
        · exact h.loose p (.inr hp) hpid
    · obtain ⟨hnone, hsame⟩ := hother hid
      rw [hnone, List.append_nil]
      refine { h.received hsame with loose := ?_ }
      intro p hp hpid
      refine h.loose p ?_ hpid
      obtain hp | hp := hp
      · obtain hp | hp := List.mem_append.mp hp
        · exact .inl hp
        · rw [List.mem_singleton.mp hp] at hpid
          exact absurd hpid hid
      · exact .inr hp
  · have harrived : arrivals r [msg] = if msg.requestId = r then [item] else [] := by
      obtain ⟨c, hc, rfl⟩ | ⟨hd, rfl⟩ := hitem
      · by_cases hid : msg.requestId = r <;> simp [arrivals, hid, hc, Input.item]
      · by_cases hid : msg.requestId = r <;> simp [arrivals, hid, hd, Input.item]
    have hnot : msg.input ≠ .newRequest := by
      obtain ⟨c, hc, _⟩ | ⟨hd, _⟩ := hitem
      · rw [hc]
        exact fun he => nomatch he
      · rw [hd]
        exact fun he => nomatch he
    have hsame : (newIds (acc.1.received ++ [msg])).count r = (newIds acc.1.received).count r := by
      rw [newIds_append, List.count_append, newIds_singleton, if_neg hnot]
      rfl
    rw [h1]
    have h2 := h.received hsame
    have hk2 : Known { acc.1 with received := acc.1.received ++ [msg] } := { hknown with }
    have hr2 : Requests { acc.1 with received := acc.1.received ++ [msg] } := { hr with }
    by_cases hid : msg.requestId = r
    · rw [if_pos hid] at harrived
      rw [hid]
      by_cases hcompleted : r ∈ acc.1.completed
      · rw [brought, if_pos hcompleted, List.append_nil]
        unfold onStream
        rw [if_pos hcompleted]
        exact h2
      · rw [brought, if_neg hcompleted, harrived] at hdone ⊢
        refine streamed_onStream h2 hk2 hr2 (hplaced.same { SamePlaces.refl _ with }) hloop
          (halone.of_count hsame) hlog hroom (halias hid) hcompleted hdone recheck
    · obtain ⟨hnone, _⟩ := hother hid
      rw [hnone, List.append_nil]
      exact streamed_onStream_ne h2 hk2 hr2 hroom hid item recheck

end SglangOmni.Scheduling.Scheduler
