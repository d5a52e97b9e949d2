import SglangOmni.Comm.KvReceive

/-! The reservations of inbound KV transfers, in every run.

Every reservation in the table is outstanding, and every outstanding one is in the
table; a read that has started owns its entry until it ends. What a cleanup finds it
aborts or marks, so only a reservation made after the cleanup can still be committed,
and such a one exists only when the cleanup's tombstone has been dropped. -/
namespace SglangOmni.Comm.KvReceive
open Lib

variable {s : State} {n c : Nat} {r : String} {log : List Entry} {e : Entry} {x tid : String} {read : Read}

/-! ### The log -/

/-- The reservation that an entry is about. -/
def Entry.about : Entry → Option Nat
  | .reserved n _ | .committed n _ | .aborted n _ => some n
  | .cleanedUp _ | .evicted _ => none

def Untouched (n : Nat) (log : List Entry) : Prop := ∀ e ∈ log, e.about ≠ some n

/-- The reservation has had its terminal call. -/
def Settled (n : Nat) (log : List Entry) : Prop :=
  ∃ requestId, .committed n requestId ∈ log ∨ .aborted n requestId ∈ log

def Outstanding (n : Nat) (requestId : String) (log : List Entry) : Prop :=
  .reserved n requestId ∈ log ∧ ¬Settled n log

/-- The request has been cleaned up, and its tombstone not dropped since. -/
def tombstoned (requestId : String) : List Entry → Bool
  | [] => false
  | .cleanedUp r :: rest => r = requestId || tombstoned requestId rest
  | .evicted r :: rest => r ≠ requestId && tombstoned requestId rest
  | _ :: rest => tombstoned requestId rest

/-- The request has been cleaned up since the reservation was made. -/
def cleanedSince (n : Nat) (requestId : String) : List Entry → Bool
  | [] => false
  | .cleanedUp r :: rest => r = requestId || cleanedSince n requestId rest
  | .reserved m _ :: rest => m ≠ n && cleanedSince n requestId rest
  | _ :: rest => cleanedSince n requestId rest

/-- What may come next after a log. -/
def Allowed : Entry → List Entry → Prop
  | .reserved n r, log => Untouched n log ∧ tombstoned r log = false
  | .committed n r, log => Outstanding n r log ∧ cleanedSince n r log = false
  | .aborted n r, log => Outstanding n r log
  | .cleanedUp _, _ | .evicted _, _ => True

/-- The entry that ends a reservation. -/
def Ends (n : Nat) (e : Entry) : Prop := ∃ r, e = .committed n r ∨ e = .aborted n r

theorem Untouched.not_settled (h : Untouched n log) : ¬Settled n log := by
  rintro ⟨r, hm | hm⟩
  · exact h _ hm rfl
  · exact h _ hm rfl

theorem Untouched.not_outstanding (h : Untouched n log) : ¬Outstanding n r log :=
  fun ho => h _ ho.1 rfl

theorem Untouched.cons (h : Untouched n log) (he : e.about ≠ some n) :
    Untouched n (e :: log) := by
  intro x hx
  rcases List.mem_cons.mp hx with rfl | hx
  · exact he
  · exact h x hx

theorem settled_cons {m : Nat} (he : Ends n e) :
    Settled m (e :: log) ↔ m = n ∨ Settled m log := by
  obtain ⟨r, rfl | rfl⟩ := he
  all_goals
    simp only [Settled, List.mem_cons, reduceCtorEq, false_or, Entry.committed.injEq, Entry.aborted.injEq]
    constructor
    · rintro ⟨x, h⟩
      by_cases hm : m = n
      · exact .inl hm
      · exact .inr ⟨x, by tauto⟩
    · rintro (rfl | ⟨x, h⟩)
      · exact ⟨r, by tauto⟩
      · exact ⟨x, by tauto⟩

theorem outstanding_ends {m : Nat} (he : Ends n e) :
    Outstanding m r (e :: log) ↔ m ≠ n ∧ Outstanding m r log := by
  have hmem : Entry.reserved m r ∈ e :: log ↔ .reserved m r ∈ log := by
    obtain ⟨x, rfl | rfl⟩ := he <;> simp
  rw [Outstanding, hmem, settled_cons he, Outstanding]
  tauto

theorem settled_reserved {m : Nat} :
    Settled m (.reserved n r :: log) ↔ Settled m log := by
  simp [Settled]

theorem tombstoned_ends (he : Ends n e) (x : String) :
    tombstoned x (e :: log) = tombstoned x log := by
  obtain ⟨r, rfl | rfl⟩ := he <;> rfl

theorem cleanedSince_ends (he : Ends n e) (m : Nat) (x : String) :
    cleanedSince m x (e :: log) = cleanedSince m x log := by
  obtain ⟨r, rfl | rfl⟩ := he <;> rfl

theorem about_ends (he : Ends n e) : e.about = some n := by
  obtain ⟨r, rfl | rfl⟩ := he <;> rfl

/-! Entries about requests only. -/

theorem outstanding_evicted (ids : List String) (log : List Entry) :
    Outstanding n r (ids.map .evicted ++ log) ↔ Outstanding n r log := by
  simp [Outstanding, Settled]

theorem outstanding_cleanedUp (x : String) :
    Outstanding n r (.cleanedUp x :: log) ↔ Outstanding n r log := by
  simp [Outstanding, Settled]

theorem untouched_requests (ids : List String) (x : String) (h : Untouched n log) :
    Untouched n (ids.map .evicted ++ .cleanedUp x :: log) := by
  intro e he
  simp only [List.mem_append, List.mem_map, List.mem_cons] at he
  obtain ⟨y, _, rfl⟩ | rfl | he := he
  · simp [Entry.about]
  · simp [Entry.about]
  · exact h e he

theorem every_requests (ids : List String) (x : String) (h : Every Allowed log) :
    Every Allowed (ids.map .evicted ++ .cleanedUp x :: log) := by
  induction ids with
  | nil => exact ⟨trivial, h⟩
  | cons y rest ih => exact ⟨trivial, ih⟩

theorem tombstoned_evicted (ids : List String) (log : List Entry) (x : String) :
    tombstoned x (ids.map .evicted ++ log) = (decide (x ∉ ids) && tombstoned x log) := by
  induction ids with
  | nil => simp
  | cons y rest ih =>
    simp only [List.map_cons, List.cons_append, tombstoned, ih, List.mem_cons, not_or]
    by_cases h : x = y
    · simp [h]
    · simp [h, Ne.symm h]

theorem cleanedSince_requests (ids : List String) (log : List Entry) (x : String) :
    cleanedSince n r (ids.map .evicted ++ .cleanedUp x :: log) = (decide (x = r) || cleanedSince n r log) := by
  induction ids with
  | nil => rfl
  | cons y rest ih => exact ih

/-! ### The invariant -/

/-- The reservation that a read copies into. -/
def At.target : At → Option Nat
  | .fetching n | .completing n => some n
  | .created | .done => none

/-- `rest` are the entries that a cleanup of `r` has still to visit. -/
structure Sound (r : String) (rest : List (String × Nat)) (s : State) : Prop where
  nodup : s.abortedKvRequests.Nodup
  tombstones : s.phase ≠ .closed → ∀ x, x ∈ s.abortedKvRequests ↔ tombstoned x s.log = true
  fresh : ∀ n, s.nextTransfer ≤ n → Untouched n s.log
  table : ∀ tid n, s.inboundKv.get? tid = some n →
    ∃ t, s.transfers n = some t ∧ t.transferId = tid ∧ Outstanding n t.requestId s.log
  complete : ∀ n x, Outstanding n x s.log →
    ∃ t, s.transfers n = some t ∧ t.requestId = x ∧ s.inboundKv.get? t.transferId = some n
  current : ∀ tid n t, s.inboundKv.get? tid = some n → s.transfers n = some t → t.abortError = false →
    cleanedSince n t.requestId s.log = true → (tid, n) ∈ rest ∧ t.requestId = r
  reading : ∀ (c : Nat) (read : Read) n, s.reads[c]? = some read → read.pc.target = some n →
    s.inboundKv.get? read.transferId = some n ∧ ∃ t, s.transfers n = some t ∧ t.copyStarted = true
  logged : Every Allowed s.log
  closed : s.phase = .closed → s.inboundKv = ∅

theorem sound_create : Sound r [] State.create where
  nodup := List.nodup_nil
  tombstones _ x := by simp [State.create, tombstoned]
  fresh _ _ e he := nomatch he
  table _ _ h := nomatch h
  complete _ _ h := nomatch h.1
  current _ _ _ h := nomatch h
  reading c _ _ h := by simp [State.create] at h
  logged := trivial
  closed h := nomatch h

variable {rest : List (String × Nat)}

/-- Two entries of the table are two reservations. -/
theorem Sound.entry_unique (h : Sound r rest s) {a b : String} (ha : s.inboundKv.get? a = some n)
    (hb : s.inboundKv.get? b = some n) : a = b := by
  obtain ⟨t, ht, rfl, _⟩ := h.table a n ha
  obtain ⟨u, hu, rfl, _⟩ := h.table b n hb
  rw [ht] at hu
  cases hu
  rfl

theorem Sound.lt_next (h : Sound r rest s) (ho : Outstanding n x s.log) : n < s.nextTransfer := by
  by_contra hn
  exact (h.fresh n (by omega)).not_outstanding ho

/-- A reservation ends and leaves the table; no other read is in it. -/
theorem Sound.ends (h : Sound r rest s) (hn : s.inboundKv.get? tid = some n)
    (he : Ends n e) (hallowed : Allowed e s.log) {reads : List Read}
    (hreads : ∀ (c : Nat) (read : Read), reads[c]? = some read → ∀ m, read.pc.target = some m →
      s.reads[c]? = some read ∧ read.transferId ≠ tid) :
    Sound r rest { s with inboundKv := s.inboundKv.pop tid, reads := reads, log := e :: s.log } := by
  have hother : ∀ a m, (s.inboundKv.pop tid).get? a = some m → a ≠ tid ∧ s.inboundKv.get? a = some m := by
    intro a m ha
    rw [Dict.get?_pop] at ha
    split at ha
    · cases ha
    · next hne => exact ⟨hne, ha⟩
  have hne : ∀ a m, a ≠ tid → s.inboundKv.get? a = some m → m ≠ n := by
    intro a m hat ha hmn
    subst hmn
    exact hat (h.entry_unique ha hn)
  refine ⟨h.nodup, fun hp x => ?_, fun m hm => ?_, fun a m ha => ?_, fun m x ho => ?_,
    fun a m t ha ht hf hc => ?_, fun d read m hd hm => ?_, ⟨hallowed, h.logged⟩, fun hp => ?_⟩
  · simp only [tombstoned_ends he]
    exact h.tombstones hp x
  · refine (h.fresh m hm).cons ?_
    obtain ⟨t, _, _, ho⟩ := h.table tid n hn
    have := h.lt_next ho
    have hm : s.nextTransfer ≤ m := hm
    rw [about_ends he, ne_eq, Option.some.injEq]
    omega
  · obtain ⟨hat, ha⟩ := hother a m ha
    obtain ⟨t, ht, hid, ho⟩ := h.table a m ha
    exact ⟨t, ht, hid, (outstanding_ends he).mpr ⟨hne a m hat ha, ho⟩⟩
  · obtain ⟨hmn, ho⟩ := (outstanding_ends he).mp ho
    obtain ⟨t, ht, hr, ha⟩ := h.complete m x ho
    refine ⟨t, ht, hr, ?_⟩
    rw [Dict.get?_pop_ne]
    · exact ha
    · rintro hat
      rw [hat, hn] at ha
      exact hmn (Option.some.inj ha).symm
  · obtain ⟨_, ha⟩ := hother a m ha
    rw [cleanedSince_ends he] at hc
    exact h.current a m t ha ht hf hc
  · obtain ⟨hold, hid⟩ := hreads d read hd m hm
    obtain ⟨ha, ht⟩ := h.reading d read m hold hm
    exact ⟨(Dict.get?_pop_ne _ hid).trans ha, ht⟩
  · rw [h.closed hp] at hn
    simp at hn

theorem Sound.weaken (h : Sound r rest s) {less : List (String × Nat)}
    (hless : ∀ tid n t, s.inboundKv.get? tid = some n → s.transfers n = some t → t.abortError = false →
      t.requestId = r → (tid, n) ∈ rest → (tid, n) ∈ less ∧ t.requestId = x) : Sound x less s where
  nodup := h.nodup
  tombstones := h.tombstones
  fresh := h.fresh
  table := h.table
  complete := h.complete
  current tid n t ha ht hf hc := by
    obtain ⟨hmem, hr⟩ := h.current tid n t ha ht hf hc
    exact hless tid n t ha ht hf hr hmem
  reading := h.reading
  logged := h.logged
  closed := h.closed

/-- Between cleanups nothing is left to visit, whichever request comes next. -/
theorem Sound.any (h : Sound r [] s) (x : String) : Sound x [] s :=
  h.weaken fun _ _ _ _ _ _ _ hm => nomatch hm

/-- A flag of a reservation is set. -/
theorem Sound.setTransfer (h : Sound r rest s) {t t' : Inbound} (ht : s.transfers n = some t)
    (hrequest : t'.requestId = t.requestId) (htransfer : t'.transferId = t.transferId)
    (hcopy : t.copyStarted = true → t'.copyStarted = true)
    (hclean : t'.abortError = false → t.abortError = false) : Sound r rest (s.setTransfer n t') := by
  have hself : (s.setTransfer n t').transfers n = some t' := Function.update_self ..
  have hne : ∀ m, m ≠ n → (s.setTransfer n t').transfers m = s.transfers m :=
    fun m hm => Function.update_of_ne hm ..
  refine ⟨h.nodup, h.tombstones, h.fresh, fun a m ha => ?_, fun m x ho => ?_, fun a m u ha hu hf hc => ?_,
    fun c read m hc hm => ?_, h.logged, h.closed⟩
  · obtain ⟨u, hu, hid, ho⟩ := h.table a m ha
    by_cases hmn : m = n
    · subst hmn
      rw [ht] at hu
      cases hu
      exact ⟨t', hself, htransfer.trans hid, hrequest ▸ ho⟩
    · exact ⟨u, (hne m hmn).trans hu, hid, ho⟩
  · obtain ⟨u, hu, hr, ha⟩ := h.complete m x ho
    by_cases hmn : m = n
    · subst hmn
      rw [ht] at hu
      cases hu
      refine ⟨t', hself, hrequest.trans hr, ?_⟩
      rw [htransfer]
      exact ha
    · exact ⟨u, (hne m hmn).trans hu, hr, ha⟩
  · by_cases hmn : m = n
    · subst hmn
      rw [hself] at hu
      cases hu
      rw [hrequest] at hc ⊢
      exact h.current a m t ha ht (hclean hf) hc
    · rw [hne m hmn] at hu
      exact h.current a m u ha hu hf hc
  · obtain ⟨ha, u, hu, hstarted⟩ := h.reading c read m hc hm
    refine ⟨ha, ?_⟩
    by_cases hmn : m = n
    · subst hmn
      rw [ht] at hu
      cases hu
      exact ⟨t', hself, hcopy hstarted⟩
    · exact ⟨u, (hne m hmn).trans hu, hstarted⟩

/-- The reads change, but none is in a reservation that it was not in before. -/
theorem Sound.withReads (h : Sound r rest s) {reads : List Read}
    (hreads : ∀ (c : Nat) (read : Read) n, reads[c]? = some read → read.pc.target = some n →
      s.inboundKv.get? read.transferId = some n ∧ ∃ t, s.transfers n = some t ∧ t.copyStarted = true) :
    Sound r rest { s with reads := reads } :=
  ⟨h.nodup, h.tombstones, h.fresh, h.table, h.complete, h.current, hreads, h.logged, h.closed⟩

/-! ### Cleanup -/

theorem Sound.recordAborted (h : Sound r [] s) (x : String) (hint : List String) :
    Sound x s.inboundKv.entries (recordAborted s x hint) := by
  refine ⟨nodup_record h.nodup .., fun hp y => ?_, fun n hn => untouched_requests _ _ (h.fresh n hn),
    fun tid n ha => ?_, fun n y ho => ?_, fun tid n t ha ht hf hc => ?_, h.reading,
    every_requests _ _ h.logged, h.closed⟩
  · simp only [KvReceive.recordAborted, mem_record h.nodup, tombstoned_evicted, tombstoned,
      Bool.and_eq_true, Bool.or_eq_true, decide_eq_true_eq, h.tombstones hp y]
    rw [eq_comm (a := y), and_comm]
  · obtain ⟨t, ht, hid, ho⟩ := h.table tid n ha
    exact ⟨t, ht, hid, (outstanding_evicted _ _).mpr ((outstanding_cleanedUp x).mpr ho)⟩
  · exact h.complete n y ((outstanding_cleanedUp x).mp ((outstanding_evicted _ _).mp ho))
  · simp only [KvReceive.recordAborted, cleanedSince_requests, Bool.or_eq_true, decide_eq_true_eq] at hc
    refine ⟨(Dict.mem_entries _ _ _).mpr ha, ?_⟩
    rcases hc with hx | hc
    · exact hx.symm
    · exact absurd (h.current tid n t ha ht hf hc).1 List.not_mem_nil

/-- No read is in a reservation whose copy has not started. -/
theorem Sound.unread (h : Sound r rest s) {t : Inbound} (hn : s.inboundKv.get? tid = some n)
    (ht : s.transfers n = some t) (hcopy : t.copyStarted = false) {m : Nat}
    (hc : s.reads[c]? = some read) (hm : read.pc.target = some m) : read.transferId ≠ tid := by
  rintro rfl
  obtain ⟨ha, u, hu, hstarted⟩ := h.reading c read m hc hm
  rw [hn] at ha
  cases ha
  rw [ht] at hu
  cases hu
  rw [hcopy] at hstarted
  cases hstarted

theorem Sound.cleanupOne {e : String × Nat} (h : Sound r (e :: rest) s)
    (he : s.inboundKv.get? e.1 = some e.2) : Sound r rest (cleanupOne r s e) := by
  obtain ⟨t, ht, hid, ho⟩ := h.table e.1 e.2 he
  simp only [KvReceive.cleanupOne, ht]
  split
  · next hr =>
    refine h.weaken fun tid n u _ hu _ hx hm => ⟨(List.mem_cons.mp hm).resolve_left ?_, hx⟩
    rintro rfl
    rw [ht] at hu
    cases hu
    exact hr hx
  · split
    · have hset : Sound r (e :: rest) (s.setTransfer e.2 { t with abortError := true }) :=
        h.setTransfer ht rfl rfl (fun h => h) (fun h => nomatch h)
      refine hset.weaken fun tid n u _ hu hf hx hm => ⟨(List.mem_cons.mp hm).resolve_left ?_, hx⟩
      rintro rfl
      rw [show (s.setTransfer _ _).transfers n = some _ from Function.update_self ..] at hu
      cases hu
      cases hf
    · next hcopy =>
      have hended : Sound r (e :: rest) { s with
          inboundKv := s.inboundKv.pop e.1, log := .aborted e.2 t.requestId :: s.log } :=
        h.ends he ⟨t.requestId, .inr rfl⟩ ho fun c read hc m hm =>
          ⟨hc, h.unread he ht (by simpa using hcopy) hc hm⟩
      refine hended.weaken fun tid n u ha hu _ hx hm => ⟨(List.mem_cons.mp hm).resolve_left ?_, hx⟩
      rintro rfl
      simp at ha

theorem cleanupOne_get? {e : String × Nat} (hne : tid ≠ e.1) :
    (cleanupOne r s e).inboundKv.get? tid = s.inboundKv.get? tid := by
  unfold cleanupOne
  split
  · rfl
  · split
    · rfl
    · split
      · rfl
      · exact Dict.get?_pop_ne _ hne

theorem Sound.cleanupAll (l : List (String × Nat)) (hkeys : (l.map Prod.fst).Nodup)
    (h : Sound r l s) (hl : ∀ e ∈ l, s.inboundKv.get? e.1 = some e.2) :
    Sound r [] (l.foldl (KvReceive.cleanupOne r) s) := by
  induction l generalizing s with
  | nil => exact h
  | cons e rest ih =>
    rw [List.map_cons, List.nodup_cons] at hkeys
    refine ih hkeys.2 (h.cleanupOne (hl e List.mem_cons_self)) fun x hx => ?_
    rw [cleanupOne_get? fun heq => hkeys.1 (heq ▸ List.mem_map_of_mem hx)]
    exact hl x (List.mem_cons_of_mem _ hx)

theorem Sound.cleanup (h : Sound r [] s) (x : String) (hint : List String) :
    Sound x [] (cleanup s x hint) :=
  (h.recordAborted x hint).cleanupAll _ s.inboundKv.nodup fun _ he => (Dict.mem_entries _ _ _).mp he

theorem cleanup_reads (s : State) (x : String) (hint : List String) : (cleanup s x hint).reads = s.reads := by
  have hfold : ∀ (l : List (String × Nat)) (s : State), (l.foldl (KvReceive.cleanupOne x) s).reads = s.reads := by
    intro l
    induction l with
    | nil => exact fun _ => rfl
    | cons e rest ih =>
      intro s
      rw [List.foldl_cons, ih]
      unfold KvReceive.cleanupOne
      split
      · rfl
      · split
        · rfl
        · split <;> rfl
  exact hfold _ _

/-! ### Prepare -/

theorem Sound.reserve (h : Sound r [] s) (hphase : s.phase = .running)
    (hx : x ∉ s.abortedKvRequests) (hfree : s.inboundKv.get? tid = none) :
    Sound r [] { s.setTransfer s.nextTransfer { requestId := x, transferId := tid } with
      nextTransfer := s.nextTransfer + 1
      inboundKv := s.inboundKv.set tid s.nextTransfer
      log := .reserved s.nextTransfer x :: s.log } := by
  have huntouched := h.fresh s.nextTransfer (Nat.le_refl _)
  have htombstone : tombstoned x s.log = false := by
    rw [← Bool.not_eq_true, ← h.tombstones (by simp [hphase])]
    exact hx
  have hold : ∀ a m, s.inboundKv.get? a = some m → m ≠ s.nextTransfer ∧ a ≠ tid := by
    intro a m ha
    obtain ⟨t, _, _, ho⟩ := h.table a m ha
    refine ⟨Nat.ne_of_lt (h.lt_next ho), ?_⟩
    rintro rfl
    rw [hfree] at ha
    cases ha
  have houtstanding : ∀ m y, Outstanding m y (.reserved s.nextTransfer x :: s.log) ↔
      (m = s.nextTransfer ∧ y = x) ∨ Outstanding m y s.log := by
    intro m y
    rw [Outstanding, settled_reserved, List.mem_cons, Entry.reserved.injEq, Outstanding]
    constructor
    · tauto
    · rintro (⟨rfl, rfl⟩ | ho)
      · exact ⟨.inl ⟨rfl, rfl⟩, huntouched.not_settled⟩
      · exact ⟨.inr ho.1, ho.2⟩
  have hcases : ∀ a m, (s.inboundKv.set tid s.nextTransfer).get? a = some m →
      (a = tid ∧ m = s.nextTransfer) ∨ s.inboundKv.get? a = some m := by
    intro a m ha
    rw [Dict.get?_set] at ha
    split at ha
    · next hat => exact .inl ⟨hat, (Option.some.inj ha).symm⟩
    · exact .inr ha
  refine ⟨h.nodup, fun hp y => ?_, fun m hm => ?_, fun a m ha => ?_, fun m y ho => ?_,
    fun a m t ha ht hf hc => ?_, fun d read m hd hm => ?_, ⟨⟨huntouched, htombstone⟩, h.logged⟩, fun hp => ?_⟩
  · exact h.tombstones hp y
  · have hm : s.nextTransfer + 1 ≤ m := hm
    refine (h.fresh m (by omega)).cons ?_
    simp only [Entry.about, ne_eq, Option.some.injEq]
    omega
  · obtain ⟨rfl, rfl⟩ | ha := hcases a m ha
    · exact ⟨_, Function.update_self .., rfl, (houtstanding _ _).mpr (.inl ⟨rfl, rfl⟩)⟩
    · obtain ⟨t, ht, hid, ho⟩ := h.table a m ha
      exact ⟨t, (Function.update_of_ne (hold a m ha).1 ..).trans ht, hid, (houtstanding _ _).mpr (.inr ho)⟩
  · obtain ⟨rfl, rfl⟩ | ho := (houtstanding m y).mp ho
    · exact ⟨_, Function.update_self .., rfl, Dict.get?_set_self ..⟩
    · obtain ⟨t, ht, hr, ha⟩ := h.complete m y ho
      refine ⟨t, (Function.update_of_ne (hold _ m ha).1 ..).trans ht, hr, ?_⟩
      rw [Dict.get?_set_ne _ _ (hold _ m ha).2]
      exact ha
  · obtain ⟨rfl, rfl⟩ | ha := hcases a m ha
    · simp [cleanedSince] at hc
    · have ht : s.transfers m = some t := (Function.update_of_ne (hold a m ha).1 ..).symm.trans ht
      have hc : cleanedSince m t.requestId s.log = true := by
        simpa [cleanedSince, (hold a m ha).1.symm] using hc
      exact h.current a m t ha ht hf hc
  · obtain ⟨ha, t, ht, hstarted⟩ := h.reading d read m hd hm
    refine ⟨?_, t, (Function.update_of_ne (hold _ m ha).1 ..).trans ht, hstarted⟩
    rw [Dict.get?_set_ne _ _ (hold _ m ha).2]
    exact ha
  · rw [show s.phase = .closed from hp] at hphase
    cases hphase

/-- A reservation that fails its checks is aborted on the spot. -/
theorem Sound.reserveAbort (h : Sound r [] s) (hphase : s.phase = .running) (hx : x ∉ s.abortedKvRequests) :
    Sound r [] { s with
      nextTransfer := s.nextTransfer + 1
      log := .aborted s.nextTransfer x :: .reserved s.nextTransfer x :: s.log } := by
  have huntouched := h.fresh s.nextTransfer (Nat.le_refl _)
  have htombstone : tombstoned x s.log = false := by
    rw [← Bool.not_eq_true, ← h.tombstones (by simp [hphase])]
    exact hx
  have hends : Ends s.nextTransfer (.aborted s.nextTransfer x) := ⟨x, .inr rfl⟩
  have houtstanding : ∀ m y, Outstanding m y
      (.aborted s.nextTransfer x :: .reserved s.nextTransfer x :: s.log) ↔ Outstanding m y s.log := by
    intro m y
    rw [outstanding_ends hends, Outstanding, settled_reserved, List.mem_cons, Entry.reserved.injEq,
      Outstanding]
    constructor
    · tauto
    · intro ho
      exact ⟨Nat.ne_of_lt (h.lt_next ho), .inr ho.1, ho.2⟩
  refine ⟨h.nodup, h.tombstones, fun m hm => ?_, fun a m ha => ?_, fun m y ho => ?_,
    fun a m t ha ht hf hc => ?_, h.reading, ⟨⟨List.mem_cons_self, ?_⟩, ⟨huntouched, htombstone⟩, h.logged⟩,
    h.closed⟩
  · have hm : s.nextTransfer + 1 ≤ m := hm
    refine ((h.fresh m (by omega)).cons ?_).cons ?_
    all_goals
      simp only [Entry.about, ne_eq, Option.some.injEq]
      omega
  · obtain ⟨t, ht, hid, ho⟩ := h.table a m ha
    exact ⟨t, ht, hid, (houtstanding _ _).mpr ho⟩
  · exact h.complete m y ((houtstanding m y).mp ho)
  · obtain ⟨u, hu, _, ho⟩ := h.table a m ha
    have hne := Nat.ne_of_lt (h.lt_next ho)
    have hc : cleanedSince m t.requestId s.log = true := by
      simpa [cleanedSince, hne.symm] using hc
    exact h.current a m t ha ht hf hc
  · rw [settled_reserved]
    exact huntouched.not_settled

theorem Sound.prepareKvReceive (h : Sound r [] s) (hphase : s.phase = .running) (x tid : String)
    (outcome : Outcome) : Sound r [] (prepareKvReceive s x tid outcome) := by
  unfold KvReceive.prepareKvReceive
  split
  · exact h
  · next hx =>
    split
    · exact ⟨h.nodup, h.tombstones, h.fresh, h.table, h.complete, h.current, h.reading, h.logged, h.closed⟩
    · next hfree =>
      cases outcome with
      | rejected => exact h
      | reserveFails => exact h
      | checkFails => exact h.reserveAbort hphase hx
      | accepted =>
        refine h.reserve hphase hx ?_
        simpa [Dict.contains] using hfree

/-! ### Reads -/

theorem setRead_cases {d : Nat} {x : Read} (h : (s.setRead c x).reads[d]? = some read) :
    (d = c ∧ read = x) ∨ (d ≠ c ∧ s.reads[d]? = some read) := by
  simp only [State.setRead, List.getElem?_set] at h
  split at h
  · next hcd =>
    split at h
    · exact .inl ⟨hcd.symm, (Option.some.inj h).symm⟩
    · cases h
  · next hcd => exact .inr ⟨Ne.symm hcd, h⟩

theorem Sound.setRead (h : Sound r rest s) {x : Read}
    (hx : ∀ n, x.pc.target = some n → s.inboundKv.get? x.transferId = some n ∧
      ∃ t, s.transfers n = some t ∧ t.copyStarted = true) : Sound r rest (s.setRead c x) := by
  refine h.withReads fun d read n hd hn => ?_
  obtain ⟨rfl, rfl⟩ | ⟨_, hd⟩ := setRead_cases hd
  · exact hx n hn
  · exact h.reading d read n hd hn

theorem Sound.readRaises (h : Sound r [] (s.setRead c { read with pc := .done }))
    (cancelled : Bool) (hint : List String) : Sound r [] (readRaises s c read cancelled hint) := by
  simp only [KvReceive.readRaises]
  split
  · exact (h.cleanup _ _).any r
  · exact h

/-- No transfer is announced twice. -/
def Once (s : State) : Prop := (s.reads.map Read.transferId).Nodup

/-- The reads other than an announced one are in other transfers. -/
theorem Once.other (h : Once s) {x : Read} {d : Nat} (hc : s.reads[c]? = some read)
    (hd : s.reads[d]? = some x) (hne : d ≠ c) : x.transferId ≠ read.transferId := by
  intro heq
  apply hne
  have hlen : d < (s.reads.map Read.transferId).length := by
    rw [List.length_map]
    exact (List.getElem?_eq_some_iff.mp hd).1
  refine (List.getElem?_inj hlen h).mp ?_
  rw [List.getElem?_map, List.getElem?_map, hd, hc, Option.map_some, Option.map_some, heq]

/-- A read leaves its reservation with a terminal call. -/
theorem Sound.readEnds (h : Sound r rest s) (honce : Once s) (hc : s.reads[c]? = some read)
    (hn : read.pc.target = some n) (he : Ends n e) (hallowed : Allowed e s.log) :
    Sound r rest
      { s.setRead c { read with pc := .done } with
        inboundKv := s.inboundKv.pop read.transferId
        log := e :: s.log } := by
  refine h.ends (h.reading c read n hc hn).1 he hallowed fun d x hd m hm => ?_
  obtain ⟨rfl, rfl⟩ | ⟨hne, hd⟩ := setRead_cases hd
  · cases hm
  · exact ⟨hd, honce.other hc hd hne⟩

theorem Sound.readFails (h : Sound r [] s) (honce : Once s) (hc : s.reads[c]? = some read)
    (hn : read.pc.target = some n) (cancelled : Bool) (hint : List String) :
    Sound r [] (readFails s c n read cancelled hint) := by
  obtain ⟨t, ht, _, ho⟩ := h.table _ n (h.reading c read n hc hn).1
  simp only [KvReceive.readFails, ht]
  exact (h.readEnds honce hc hn ⟨_, .inr rfl⟩ ho).readRaises cancelled hint

theorem Sound.readCompletes (h : Sound r [] s) (honce : Once s)
    (hc : s.reads[c]? = some read) (hn : read.pc.target = some n) (hint : List String) :
    Sound r [] (readCompletes s c n read hint) := by
  obtain ⟨hentry, _⟩ := h.reading c read n hc hn
  obtain ⟨t, ht, _, ho⟩ := h.table _ n hentry
  simp only [KvReceive.readCompletes, ht]
  split
  · exact h.readFails honce hc hn false hint
  · next hclean =>
    refine h.readEnds honce hc hn ⟨_, .inl rfl⟩ ⟨ho, ?_⟩
    rw [← Bool.not_eq_true]
    intro hcleaned
    exact absurd (h.current _ n t hentry ht (by simpa using hclean) hcleaned).1 List.not_mem_nil

theorem Sound.readStarts (h : Sound r [] s) (valid : Bool) (hint : List String) :
    Sound r [] (readStarts s c read valid hint) := by
  have hdone : Sound r [] (s.setRead c { read with pc := .done }) := h.setRead fun _ hm => nomatch hm
  unfold KvReceive.readStarts
  split
  · exact hdone
  · split
    · exact hdone.readRaises false hint
    · split
      · exact hdone.readRaises false hint
      · next n hn =>
        obtain ⟨t, ht, _⟩ := h.table _ n hn
        simp only [ht]
        have hset : Sound r [] (s.setTransfer n { t with copyStarted := true }) :=
          h.setTransfer ht rfl rfl (fun _ => rfl) (fun h => h)
        refine hset.setRead fun m hm => ?_
        cases hm
        exact ⟨hn, _, Function.update_self .., rfl⟩

/-! ### Close -/

theorem closeOne_log (s : State) (e : String × Nat) :
    ∃ log, closeOne s e = { s with log := log } := by
  unfold closeOne
  split <;> exact ⟨_, rfl⟩

/-- The reservations that are aborted one by one leave the log in order. -/
theorem closeAll (l : List (String × Nat)) (hnodup : (l.map Prod.snd).Nodup)
    (hlogged : Every Allowed s.log)
    (hl : ∀ e ∈ l, ∃ t, s.transfers e.2 = some t ∧ Outstanding e.2 t.requestId s.log) :
    ∃ log, l.foldl closeOne s = { s with log := log } ∧ Every Allowed log ∧
      (∀ m x, Outstanding m x log ↔ m ∉ l.map Prod.snd ∧ Outstanding m x s.log) ∧
      (∀ m, Untouched m s.log → m ∉ l.map Prod.snd → Untouched m log) := by
  induction l generalizing s with
  | nil => exact ⟨s.log, rfl, hlogged, by simp, fun m h _ => h⟩
  | cons e rest ih =>
    rw [List.map_cons, List.nodup_cons] at hnodup
    obtain ⟨t, ht, ho⟩ := hl e List.mem_cons_self
    have hends : Ends e.2 (.aborted e.2 t.requestId) := ⟨_, .inr rfl⟩
    have hone : closeOne s e = { s with log := .aborted e.2 t.requestId :: s.log } := by
      simp [closeOne, ht]
    have hrest : ∀ x ∈ rest, ∃ u, s.transfers x.2 = some u ∧
        Outstanding x.2 u.requestId (.aborted e.2 t.requestId :: s.log) := by
      intro x hx
      obtain ⟨u, hu, hox⟩ := hl x (List.mem_cons_of_mem _ hx)
      refine ⟨u, hu, (outstanding_ends hends).mpr ⟨fun heq => hnodup.1 ?_, hox⟩⟩
      rw [← heq]
      exact List.mem_map_of_mem hx
    obtain ⟨log, hfold, hevery, hout, htouch⟩ := ih (s := closeOne s e) hnodup.2
      (by rw [hone]; exact ⟨ho, hlogged⟩) (by rw [hone]; exact hrest)
    refine ⟨log, ?_, hevery, fun m x => ?_, fun m hm hnot => ?_⟩
    · rw [List.foldl_cons, hfold, hone]
    · rw [hout, hone, outstanding_ends hends, List.map_cons, List.mem_cons, not_or]
      tauto
    · rw [List.map_cons, List.mem_cons, not_or] at hnot
      refine htouch m ?_ hnot.2
      rw [hone]
      exact hm.cons (by simpa [Entry.about] using Ne.symm hnot.1)

theorem Sound.closeFinishes (h : Sound r [] s)
    (hdone : ∀ read ∈ s.reads, read.pc = .done) : Sound r [] (closeFinishes s) := by
  have hentry : ∀ e ∈ s.inboundKv.entries, s.inboundKv.get? e.1 = some e.2 :=
    fun _ he => (Dict.mem_entries _ _ _).mp he
  have hnodup : (s.inboundKv.entries.map Prod.snd).Nodup := by
    refine List.Nodup.map_on (fun a ha b hb hab => ?_) (List.Nodup.of_map _ s.inboundKv.nodup)
    exact Prod.ext (h.entry_unique (hentry a ha) (hab ▸ hentry b hb)) hab
  obtain ⟨log, hfold, hevery, hout, htouch⟩ := closeAll s.inboundKv.entries hnodup h.logged
    fun e he => by
      obtain ⟨t, ht, _, ho⟩ := h.table e.1 e.2 (hentry e he)
      exact ⟨t, ht, ho⟩
  -- nothing is outstanding any more
  have hnone : ∀ m x, ¬Outstanding m x log := by
    intro m x ho
    obtain ⟨hnot, ho⟩ := (hout m x).mp ho
    obtain ⟨t, _, _, ha⟩ := h.complete m x ho
    exact hnot (List.mem_map.mpr ⟨_, (Dict.mem_entries _ _ _).mpr ha, rfl⟩)
  unfold KvReceive.closeFinishes
  rw [hfold]
  refine ⟨List.nodup_nil, (fun hp => absurd rfl hp), fun n hn => htouch n (h.fresh n hn) fun hm => ?_,
    (fun _ _ ha => nomatch ha), (fun n x ho => absurd ho (hnone n x)), (fun _ _ _ ha => nomatch ha),
    fun c read n hc hn => ?_, hevery, fun _ => rfl⟩
  · obtain ⟨e, he, rfl⟩ := List.mem_map.mp hm
    obtain ⟨t, _, _, ho⟩ := h.table e.1 e.2 (hentry e he)
    exact Nat.not_lt.mpr hn (h.lt_next ho)
  · rw [hdone read (List.mem_of_getElem? hc)] at hn
    cases hn

/-! ### Runs -/

/-- The transfers announced so far. -/
def State.announced (s : State) : List String := s.reads.map Read.transferId

theorem setRead_announced (x : At) (hc : s.reads[c]? = some read) :
    (s.setRead c { read with pc := x }).announced = s.announced := by
  obtain ⟨hlt, rfl⟩ := List.getElem?_eq_some_iff.mp hc
  unfold State.announced State.setRead
  rw [List.map_set]
  apply List.ext_getElem?
  intro i
  rw [List.getElem?_set]
  split
  · next hi => simp [← hi, hlt]
  · rfl

theorem readRaises_announced (hc : s.reads[c]? = some read) (cancelled : Bool)
    (hint : List String) : (readRaises s c read cancelled hint).announced = s.announced := by
  simp only [readRaises]
  split
  · rw [State.announced, cleanup_reads]
    exact setRead_announced .done hc
  · exact setRead_announced .done hc

theorem readFails_announced (hc : s.reads[c]? = some read) (cancelled : Bool)
    (hint : List String) : (readFails s c n read cancelled hint).announced = s.announced := by
  unfold readFails
  split
  · rfl
  · next t _ =>
    exact readRaises_announced (s := { s with
      inboundKv := s.inboundKv.pop read.transferId
      log := .aborted n t.requestId :: s.log }) hc cancelled hint

theorem closeFinishes_announced (s : State) : (closeFinishes s).announced = s.announced := by
  have hfold : ∀ (l : List (String × Nat)) (s : State), (l.foldl closeOne s).reads = s.reads := by
    intro l
    induction l with
    | nil => exact fun _ => rfl
    | cons e rest ih =>
      intro s
      obtain ⟨log, hone⟩ := closeOne_log s e
      rw [List.foldl_cons, ih, hone]
  unfold closeFinishes State.announced
  rw [hfold]

/-- A step announces what its event announces, or nothing. -/
theorem step_announced (s : State) (e : Event) :
    (step s e).announced = s.announced ∨
      ∃ tid, e.announced = some tid ∧ (step s e).announced = s.announced ++ [tid] := by
  cases e with
  | prepare x tid outcome =>
    left
    simp only [step]
    split
    · unfold prepareKvReceive
      split
      · rfl
      · split
        · rfl
        · cases outcome <;> rfl
    · rfl
  | dataReady x tid rank =>
    simp only [step]
    split
    · exact .inr ⟨tid, rfl, by simp [State.announced]⟩
    · exact .inl rfl
  | readStarts c valid hint =>
    left
    simp only [step, onRead]
    split
    · rfl
    · next read hc =>
      split
      · unfold readStarts
        split
        · exact setRead_announced .done hc
        · split
          · exact readRaises_announced hc _ _
          · split
            · exact readRaises_announced hc _ _
            · split
              · rfl
              · exact setRead_announced (s := s.setTransfer _ _) _ hc
      · rfl
  | readResumes c hint =>
    left
    simp only [step, onRead]
    split
    · rfl
    · next read hc =>
      split
      · exact setRead_announced _ hc
      · unfold readCompletes
        split
        · rfl
        · split
          · exact readFails_announced hc _ _
          · exact setRead_announced .done hc
      · rfl
      · rfl
  | readRaises c cancelled hint =>
    left
    simp only [step, onRead]
    split
    · rfl
    · next read hc =>
      split
      · split
        · exact setRead_announced .done hc
        · rfl
      · exact readFails_announced hc _ _
      · exact readFails_announced hc _ _
      · rfl
  | cleanup x hint =>
    left
    exact congrArg (List.map Read.transferId) (cleanup_reads s x hint)
  | close =>
    left
    simp only [step]
    split <;> rfl
  | closeFinishes =>
    left
    simp only [step]
    split
    · exact closeFinishes_announced s
    · rfl

theorem sound_step (e : Event) (honce : Once s) (h : Sound r [] s) : Sound r [] (step s e) := by
  cases e with
  | prepare x tid outcome =>
    simp only [step]
    split
    · next hrun => exact h.prepareKvReceive hrun.1 x tid outcome
    · exact h
  | dataReady x tid rank =>
    simp only [step]
    split
    · refine h.withReads fun c read n hc hn => ?_
      rw [List.getElem?_append] at hc
      split at hc
      · exact h.reading c read n hc hn
      · have hmem := List.mem_of_getElem? hc
        rw [List.mem_singleton] at hmem
        subst hmem
        cases hn
    · exact h
  | readStarts c valid hint =>
    simp only [step, onRead]
    split
    · exact h
    · split
      · exact h.readStarts valid hint
      · exact h
  | readResumes c hint =>
    simp only [step, onRead]
    split
    · exact h
    · next read hc =>
      split
      · next n hpc =>
        refine h.setRead fun m hm => ?_
        cases hm
        exact h.reading c read n hc (by rw [hpc]; rfl)
      · next n hpc => exact h.readCompletes honce hc (by rw [hpc]; rfl) hint
      · exact h
      · exact h
  | readRaises c cancelled hint =>
    simp only [step, onRead]
    split
    · exact h
    · next read hc =>
      split
      · split
        · exact h.setRead fun _ hm => nomatch hm
        · exact h
      · next n hpc => exact h.readFails honce hc (by rw [hpc]; rfl) cancelled hint
      · next n hpc => exact h.readFails honce hc (by rw [hpc]; rfl) cancelled hint
      · exact h
  | cleanup x hint => exact (h.cleanup x hint).any r
  | close =>
    simp only [step]
    split
    · next hrun =>
      refine ⟨h.nodup, fun _ => h.tombstones (by simp [hrun.1]), h.fresh, h.table, h.complete, h.current,
        h.reading, h.logged, fun hp => nomatch hp⟩
    · exact h
  | closeFinishes =>
    simp only [step]
    split
    · next hdone =>
      refine h.closeFinishes fun read hread => ?_
      simpa using List.all_eq_true.mp hdone.2 read hread
    · exact h

/-- What is announced at most once in a history is announced at most once in each of
its states. -/
theorem sound_run (history : List Event) (h : Sound r [] s)
    (honce : (s.announced ++ history.filterMap Event.announced).Nodup) :
    Sound r [] (run step s history) := by
  induction history generalizing s with
  | nil => exact h
  | cons e rest ih =>
    have hnow : Once s := List.Nodup.of_append_left honce
    refine ih (sound_step e hnow h) ?_
    obtain hsame | ⟨tid, htid, hnew⟩ := step_announced s e
    · rw [hsame]
      cases htid : e.announced with
      | none => simpa [List.filterMap_cons, htid] using honce
      | some tid =>
        rw [List.filterMap_cons_some htid] at honce
        exact honce.sublist ((List.sublist_cons_self _ _).append_left _)
    · rw [hnew, List.append_assoc]
      rwa [List.filterMap_cons_some htid] at honce

/-- **The life of a reservation.** In every run in which a transfer is announced at most
once, every terminal call is for a reservation that has had none; a commit comes only
when the request has not been cleaned up since the reservation, and a reservation only
when no cleanup's tombstone is left for the request. Once `close` is over, the table is
empty and every reservation has had its terminal call. -/
theorem reservation_lifecycle (history : List Event)
    (honce : (history.filterMap Event.announced).Nodup) :
    Every Allowed (run step State.create history).log ∧
    ((run step State.create history).phase = .closed →
      (run step State.create history).inboundKv = ∅ ∧
      ∀ n x, .reserved n x ∈ (run step State.create history).log →
        Settled n (run step State.create history).log) := by
  have h : Sound "" [] (run step State.create history) := sound_run history sound_create honce
  refine ⟨h.logged, fun hclosed => ⟨h.closed hclosed, fun n x hres => ?_⟩⟩
  by_contra hopen
  obtain ⟨t, _, _, ha⟩ := h.complete n x ⟨hres, hopen⟩
  rw [h.closed hclosed] at ha
  simp at ha

/-- One transfer is committed, the other aborted by `close`. -/
theorem reservation_lifecycle_two_transfers :
    (run step State.create
      [.prepare "r" "t" .accepted, .prepare "q" "u" .accepted, .dataReady "r" "t" true,
        .readStarts 0 true [], .readResumes 0 [], .readResumes 0 [], .close, .closeFinishes]).log =
      [.aborted 1 "q", .committed 0 "r", .reserved 1 "q", .reserved 0 "r"] ∧
    (run step State.create
      [.prepare "r" "t" .accepted, .prepare "q" "u" .accepted, .dataReady "r" "t" true,
        .readStarts 0 true [], .readResumes 0 [], .readResumes 0 [], .close, .closeFinishes]).inboundKv = ∅ :=
  ⟨by decide, ((reservation_lifecycle _ (by decide)).2 (by decide)).1⟩

/-! ### A tombstone that is dropped -/

/-- An idle engine. -/
def idle (ids : List String) (log : List Entry) : State :=
  { State.create with abortedKvRequests := ids, log := log }

theorem cleanup_idle (ids : List String) (log : List Entry) (x : String) (hint : List String) :
    step (idle ids log) (.cleanup x hint) = idle (record 10000 5000 hint ids x)
      ((dropped 10000 5000 hint ids x).map .evicted ++ .cleanedUp x :: log) := rfl

/-- Cleanups of other requests fill the set up. -/
theorem cleanups_idle (more ids : List String) (log : List Entry) (hnodup : (ids ++ more).Nodup)
    (hroom : (ids ++ more).length ≤ 10000) :
    run step (idle ids log) (more.map fun x => .cleanup x []) =
      idle (ids ++ more) ((more.map .cleanedUp).reverse ++ log) := by
  induction more generalizing ids log with
  | nil => simp [run]
  | cons x rest ih =>
    have hadd : addId ids x = ids ++ [x] :=
      if_neg fun hx => List.disjoint_of_nodup_append hnodup hx List.mem_cons_self
    have hexcess : excess 10000 5000 (ids ++ [x]) = 0 := by
      rw [List.length_append, List.length_cons] at hroom
      exact if_neg (by rw [List.length_append, List.length_singleton]; omega)
    have hstep : step (idle ids log) (.cleanup x []) = idle (ids ++ [x]) (.cleanedUp x :: log) := by
      rw [cleanup_idle]
      simp [record, dropped, hadd, hexcess, ordered]
    rw [List.map_cons, run, hstep, ih _ _ (by simpa using hnodup) (by simpa using hroom)]
    simp

/-- A prepare, its `DataReady` and an undisturbed copy. -/
def lateTransfer : List Event :=
  [.prepare "r" "t" .accepted, .dataReady "r" "t" true, .readStarts 0 true [], .readResumes 0 [],
    .readResumes 0 []]

theorem lateTransfer_commits (ids : List String) (log : List Entry) (h : "r" ∉ ids) :
    (run step (idle ids log) lateTransfer).log = .committed 0 "r" :: .reserved 0 "r" :: log := by
  simp [lateTransfer, run, step, prepareKvReceive, onRead, readStarts, readCompletes, idle, State.create,
    State.setTransfer, State.setRead, h, Dict.contains]

/-- A request is cleaned up, then others are, then a late transfer of it comes. -/
def forgetting (more : List String) : List Event :=
  (("r" :: more).map fun x => .cleanup x []) ++ .cleanup "" ["r"] :: lateTransfer

theorem filterMap_forgetting {f : Event → Option String} (hf : ∀ x hint, f (.cleanup x hint) = none)
    (more : List String) : (forgetting more).filterMap f = lateTransfer.filterMap f := by
  simp [forgetting, hf, List.filterMap_append, List.filterMap_map]

/-- When the others fill the set, the first tombstone can be dropped. -/
theorem forgetting_commits (more : List String) (hnodup : ("r" :: more).Nodup) (hlen : more.length = 9999)
    (hlast : "" ∉ "r" :: more) : ∃ mid, (run step State.create (forgetting more)).log =
      .committed 0 "r" :: mid ++ [.cleanedUp "r"] := by
  have hfill := cleanups_idle ("r" :: more) [] [] hnodup (by simp [hlen])
  have hgone : "r" ∉ record 10000 5000 ["r"] ("r" :: more) "" := by
    rw [mem_record hnodup]
    rintro ⟨_, hkeep⟩
    refine hkeep (mem_dropped_of_hint hnodup (.inr List.mem_cons_self) ?_ (by omega))
    rw [addId, if_neg hlast]
    simp [hlen]
  have hrun : run step State.create (forgetting more) = run step
      (idle (record 10000 5000 ["r"] ("r" :: more) "")
        ((dropped 10000 5000 ["r"] ("r" :: more) "").map .evicted ++
          .cleanedUp "" :: ((("r" :: more).map .cleanedUp).reverse ++ []))) lateTransfer := by
    rw [forgetting, run_append, show State.create = idle [] [] from rfl, hfill, run, cleanup_idle,
      List.nil_append]
  rw [hrun, lateTransfer_commits _ _ hgone]
  exact ⟨.reserved 0 "r" :: (dropped 10000 5000 ["r"] ("r" :: more) "").map .evicted ++
    .cleanedUp "" :: (more.map .cleanedUp).reverse, by simp⟩

/-- Ids of other requests. -/
def others : List String := (List.range 9999).map fun i => String.ofList (List.replicate (i + 1) 'a')

theorem not_mem_others (h : ∀ i < 9999, x.toList ≠ List.replicate (i + 1) 'a') : x ∉ others := by
  intro hx
  obtain ⟨i, hi, rfl⟩ := List.mem_map.mp hx
  exact h i (List.mem_range.mp hi) String.toList_ofList

theorem others_nodup : others.Nodup := by
  refine List.Nodup.map (fun i j hij => ?_) List.nodup_range
  have hlength := congrArg (fun x => x.toList.length) hij
  simpa using hlength

/-- A request is cleaned up, 10000 others are, its tombstone is dropped, and a late
transfer of it is committed. -/
theorem commit_after_cleanup : ∃ history, (history.filterMap Event.prepared).Nodup ∧
    (history.filterMap Event.announced).Nodup ∧
    ∃ n later mid earlier, (run step State.create history).log =
      later ++ .committed n "r" :: mid ++ .cleanedUp "r" :: earlier := by
  have hfirst : "r" ∉ others := by
    refine not_mem_others fun i _ hi => ?_
    rw [List.replicate_succ] at hi
    exact absurd (List.cons.inj hi).1 (by decide)
  have hlast : "" ∉ "r" :: others := by
    rw [List.mem_cons, not_or]
    exact ⟨by decide, not_mem_others fun i _ hi => nomatch hi⟩
  have hlen : others.length = 9999 := by rw [others, List.length_map, List.length_range]
  have hnodup : ("r" :: others).Nodup := List.nodup_cons.mpr ⟨hfirst, others_nodup⟩
  obtain ⟨mid, hlog⟩ := forgetting_commits others hnodup hlen hlast
  refine ⟨forgetting others, ?_, ?_, 0, [], mid, [], hlog⟩
  · rw [filterMap_forgetting (fun _ _ => rfl)]
    decide
  · rw [filterMap_forgetting (fun _ _ => rfl)]
    decide

end SglangOmni.Comm.KvReceive
