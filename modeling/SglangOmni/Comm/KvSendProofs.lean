import SglangOmni.Comm.KvSend

/-! The lease of a KV transfer, in every run.

A send owns its lease only while nothing of the transfer has been published; a pending
record is in the table until its watcher ends, and the watcher releases the lease only
when the peer has acknowledged the transfer. What has no acknowledgement is retained. -/
namespace SglangOmni.Comm.KvSend
open Lib

variable {s : State} {c : Nat} {log : List Entry} {p : Pending} {retained : List Nat} {send : Send}

/-! ### The log -/

/-- A `DataAck` for `objectId` came in after the transfer was exposed. -/
def AckedSince (c : Nat) (objectId : String) (log : List Entry) : Prop :=
  ∃ later earlier, log = later ++ .acked objectId :: earlier ∧ .exposed c objectId ∈ earlier

/-- Every release in the log is the first one of its lease, and comes after an
acknowledgement if it comes after the exposure. -/
def SafeLog (log : List Entry) : Prop :=
  ∀ later earlier c, log = later ++ .released c :: earlier → .released c ∉ earlier ∧
    ∀ objectId, .exposed c objectId ∈ earlier → AckedSince c objectId earlier

theorem AckedSince.cons {objectId : String} (h : AckedSince c objectId log)
    (e : Entry) : AckedSince c objectId (e :: log) := by
  obtain ⟨later, earlier, rfl, he⟩ := h
  exact ⟨e :: later, earlier, rfl, he⟩

theorem SafeLog.cons (h : SafeLog log) {e : Entry} (he : ∀ c, e ≠ .released c) :
    SafeLog (e :: log) := by
  intro later earlier c heq
  cases later with
  | nil =>
    rw [List.nil_append, List.cons.injEq] at heq
    exact absurd heq.1 (he c)
  | cons x rest =>
    rw [List.cons_append, List.cons.injEq] at heq
    exact h rest earlier c heq.2

theorem SafeLog.released (h : SafeLog log) (hfirst : .released c ∉ log)
    (hacked : ∀ objectId, .exposed c objectId ∈ log → AckedSince c objectId log) :
    SafeLog (.released c :: log) := by
  intro later earlier d heq
  cases later with
  | nil =>
    rw [List.nil_append, List.cons.injEq] at heq
    obtain ⟨hd, rfl⟩ := heq
    cases hd
    exact ⟨hfirst, hacked⟩
  | cons x rest =>
    rw [List.cons_append, List.cons.injEq] at heq
    exact h rest earlier d heq.2

/-! ### The invariant -/

/-- Nothing of the transfer is published yet. -/
def Phase.early : Phase → Bool
  | .preparing | .awaitingReady | .putting => true
  | _ => false

/-- A pending record and what the log says about it. -/
structure Record (log : List Entry) (retained : List Nat) (c : Nat) (p : Pending) : Prop where
  exposed : .exposed c p.objectId ∈ log
  acked : p.receiverTerminal = true → AckedSince c p.objectId log
  ok : p.ack = .ok → p.receiverTerminal = true
  completing : p.task = .completing → p.receiverTerminal = true
  failing : p.task = .failing → p.retainPendingOnFailure = true → p.receiverTerminal = true
  leased : p.lease = true → p.retainPendingOnFailure = true
  held : p.task ≠ .finished → .released c ∉ log
  finished : p.task = .finished → p.receiverTerminal = true ∨ p.retainPendingOnFailure = false ∨
    (c ∈ retained ∧ .released c ∉ log)

structure Sound (s : State) : Prop where
  fresh : ∀ c, s.nextSend ≤ c → s.sends c = none ∧ s.pendings c = none ∧ .released c ∉ s.log
  logged : ∀ c o, .exposed c o ∈ s.log → ∃ p, s.pendings c = some p ∧ p.objectId = o
  table : ∀ o c, s.pending.get? o = some c ↔
    ∃ p, s.pendings c = some p ∧ p.objectId = o ∧ p.task ≠ .finished
  owner : ∀ c send, s.sends c = some send → send.phase.early = true →
    s.pendings c = none ∧ .released c ∉ s.log
  handed : ∀ c send, s.sends c = some send → send.lease = true → send.phase.early = true ∧
    send.kind = .kvPages
  record : ∀ c p, s.pendings c = some p → Record s.log s.retainedPendingKvTransfers c p
  unarmed : ∀ c p, s.pendings c = some p → p.task = .unarmed →
    ∃ send, s.sends c = some send ∧ send.phase = .publishing ∧ send.transferId = p.objectId
  kinds : ∀ c p, s.pendings c = some p → ∃ send, s.sends c = some send ∧
    p.retainPendingOnFailure = decide (send.kind = .kvPages)
  safe : SafeLog s.log

theorem sound_create : Sound State.create where
  fresh _ _ := ⟨rfl, rfl, List.not_mem_nil⟩
  logged _ _ h := nomatch h
  table _ _ := ⟨(fun h => nomatch h), fun ⟨_, h, _⟩ => nomatch h⟩
  owner _ _ h := nomatch h
  handed _ _ h := nomatch h
  record _ _ h := nomatch h
  unarmed _ _ h := nomatch h
  kinds _ _ h := nomatch h
  safe later earlier c h := by simp [State.create] at h

/-! ### Pending records -/

/-- A record in the table changes and stays there. -/
theorem Sound.setPending (h : Sound s) {p' : Pending} (hp : s.pendings c = some p)
    (hid : p'.objectId = p.objectId) (hretain : p'.retainPendingOnFailure = p.retainPendingOnFailure)
    (hlive : p.task ≠ .finished) (hlive' : p'.task ≠ .finished)
    (hunarmed : p'.task = .unarmed → p.task = .unarmed)
    (hrec : Record s.log s.retainedPendingKvTransfers c p') : Sound (s.setPending c p') := by
  have hat : ∀ x q, (s.setPending c p').pendings x = some q →
      (x = c ∧ q = p') ∨ (x ≠ c ∧ s.pendings x = some q) := by
    intro x q hx
    simp only [State.setPending, Function.update_apply] at hx
    split at hx
    · next he => exact .inl ⟨he, (Option.some.inj hx).symm⟩
    · next he => exact .inr ⟨he, hx⟩
  have hself : (s.setPending c p').pendings c = some p' := Function.update_self ..
  have hne : ∀ x, x ≠ c → (s.setPending c p').pendings x = s.pendings x :=
    fun x hx => Function.update_of_ne hx ..
  refine ⟨fun x hx => ?_, fun x o hx => ?_, fun o x => ?_, fun x send hs he => ?_, h.handed,
    fun x q hx => ?_, fun x q hx ht => ?_, fun x q hx => ?_, h.safe⟩
  · have hxc : x ≠ c := by
      rintro rfl
      rw [(h.fresh x hx).2.1] at hp
      cases hp
    rw [hne x hxc]
    exact h.fresh x hx
  · obtain ⟨q, hq, ho⟩ := h.logged x o hx
    by_cases hxc : x = c
    · subst hxc
      rw [hp] at hq
      cases hq
      exact ⟨p', hself, hid.trans ho⟩
    · exact ⟨q, (hne x hxc).trans hq, ho⟩
  · refine (h.table o x).trans ?_
    by_cases hxc : x = c
    · subst hxc
      rw [hself, hp]
      constructor
      · rintro ⟨q, hq, ho, _⟩
        cases hq
        exact ⟨p', rfl, hid.trans ho, hlive'⟩
      · rintro ⟨q, hq, ho, _⟩
        cases hq
        exact ⟨p, rfl, hid.symm.trans ho, hlive⟩
    · rw [hne x hxc]
  · obtain ⟨hnone, hrel⟩ := h.owner x send hs he
    have hxc : x ≠ c := by
      rintro rfl
      rw [hnone] at hp
      cases hp
    rw [hne x hxc]
    exact ⟨hnone, hrel⟩
  · obtain ⟨rfl, rfl⟩ | ⟨_, hx⟩ := hat x q hx
    · exact hrec
    · exact h.record x q hx
  · obtain ⟨rfl, rfl⟩ | ⟨_, hx⟩ := hat x q hx
    · rw [hid]
      exact h.unarmed x p hp (hunarmed ht)
    · exact h.unarmed x q hx ht
  · obtain ⟨rfl, rfl⟩ | ⟨_, hx⟩ := hat x q hx
    · rw [hretain]
      exact h.kinds x p hp
    · exact h.kinds x q hx

theorem Record.cons (h : Record log retained c p)
    {e : Entry} (he : e ≠ .released c) : Record (e :: log) retained c p where
  exposed := List.mem_cons_of_mem _ h.exposed
  acked ht := (h.acked ht).cons e
  ok := h.ok
  completing := h.completing
  failing := h.failing
  leased := h.leased
  held ht := by
    rw [List.mem_cons, not_or]
    exact ⟨fun h => he h.symm, h.held ht⟩
  finished ht := by
    rcases h.finished ht with h | h | ⟨hr, hl⟩
    · exact .inl h
    · exact .inr (.inl h)
    · refine .inr (.inr ⟨hr, ?_⟩)
      rw [List.mem_cons, not_or]
      exact ⟨fun h => he h.symm, hl⟩

theorem Record.retain (h : Record log retained c p) (d : Nat) : Record log (retained ++ [d]) c p where
  exposed := h.exposed
  acked := h.acked
  ok := h.ok
  completing := h.completing
  failing := h.failing
  leased := h.leased
  held := h.held
  finished ht := (h.finished ht).imp_right fun h => h.imp_right fun h =>
    ⟨List.mem_append_left _ h.1, h.2⟩

section
variable (h : Sound s) (hp : s.pendings c = some p)
include h hp

/-- A record leaves the table for good. -/
theorem Sound.finishRecord (hlive : p.task ≠ .finished)
    (hlog : log = s.log ∨ log = .released c :: s.log) (hsafe : SafeLog log)
    (hothers : ∀ x q, x ≠ c → Record s.log s.retainedPendingKvTransfers x q → Record log retained x q)
    (hrec : Record log retained c { p with task := .finished }) :
    Sound { s.setPending c { p with task := .finished } with
      pending := s.pending.pop p.objectId
      retainedPendingKvTransfers := retained
      log := log } := by
  have hself : (s.setPending c { p with task := .finished }).pendings c =
      some { p with task := .finished } := Function.update_self ..
  have hne : ∀ x, x ≠ c → (s.setPending c { p with task := .finished }).pendings x = s.pendings x :=
    fun x hx => Function.update_of_ne hx ..
  have hreleased : ∀ x, x ≠ c → .released x ∉ s.log → .released x ∉ log := by
    intro x hx hr
    rcases hlog with rfl | rfl
    · exact hr
    · rw [List.mem_cons, not_or]
      exact ⟨fun he => hx (Entry.released.inj he), hr⟩
  have hexposed : ∀ x o, .exposed x o ∈ log → .exposed x o ∈ s.log := by
    intro x o hx
    rcases hlog with rfl | rfl
    · exact hx
    · simpa using hx
  refine ⟨fun x hx => ?_, fun x o hx => ?_, fun o x => ?_, fun x send hs he => ?_, h.handed,
    fun x q hx => ?_, fun x q hx ht => ?_, fun x q hx => ?_, hsafe⟩
  · have hxc : x ≠ c := by
      rintro rfl
      rw [(h.fresh x hx).2.1] at hp
      cases hp
    obtain ⟨h₁, h₂, h₃⟩ := h.fresh x hx
    exact ⟨h₁, (hne x hxc).trans h₂, hreleased x hxc h₃⟩
  · obtain ⟨q, hq, ho⟩ := h.logged x o (hexposed x o hx)
    by_cases hxc : x = c
    · subst hxc
      rw [hp] at hq
      cases hq
      exact ⟨_, hself, ho⟩
    · exact ⟨q, (hne x hxc).trans hq, ho⟩
  · simp only [Dict.get?_pop]
    have hown : s.pending.get? p.objectId = some c := (h.table _ _).mpr ⟨p, hp, rfl, hlive⟩
    by_cases hxc : x = c
    · subst hxc
      rw [hself]
      constructor
      · intro hx
        split at hx
        · cases hx
        · next hne' =>
          obtain ⟨q, hq, ho, _⟩ := (h.table o x).mp hx
          rw [hp] at hq
          cases hq
          exact absurd ho.symm hne'
      · rintro ⟨q, hq, _, ht⟩
        cases hq
        exact absurd rfl ht
    · rw [hne x hxc, ← h.table o x]
      split
      · next ho =>
        rw [ho, hown]
        exact ⟨(fun hx => nomatch hx), fun hx => absurd (Option.some.inj hx).symm hxc⟩
      · rfl
  · obtain ⟨hnone, hrel⟩ := h.owner x send hs he
    have hxc : x ≠ c := by
      rintro rfl
      rw [hnone] at hp
      cases hp
    exact ⟨(hne x hxc).trans hnone, hreleased x hxc hrel⟩
  · by_cases hxc : x = c
    · subst hxc
      rw [hself] at hx
      cases hx
      exact hrec
    · rw [hne x hxc] at hx
      exact hothers x q hxc (h.record x q hx)
  · by_cases hxc : x = c
    · subst hxc
      rw [hself] at hx
      cases hx
      cases ht
    · rw [hne x hxc] at hx
      exact h.unarmed x q hx ht
  · by_cases hxc : x = c
    · subst hxc
      rw [hself] at hx
      cases hx
      exact h.kinds x p hp
    · rw [hne x hxc] at hx
      exact h.kinds x q hx

theorem Sound.retain (hlive : p.task ≠ .finished) :
    Sound (retainPendingKvTransfer s c p) := by
  have hrec := h.record c p hp
  refine h.finishRecord hp hlive (.inl rfl) h.safe (fun x q _ hq => hq.retain c) ?_
  exact ⟨hrec.exposed, hrec.acked, hrec.ok, (fun ht => nomatch ht), (fun ht => nomatch ht), hrec.leased,
    (fun ht => absurd rfl ht), fun _ => .inr (.inr ⟨by simp, hrec.held hlive⟩)⟩

/-- A watcher that ends releases the lease only after an acknowledgement. -/
theorem Sound.endWatch (hlive : p.task ≠ .finished)
    (hend : p.retainPendingOnFailure = true → p.receiverTerminal = true) : Sound (endWatch s c p) := by
  have hrec := h.record c p hp
  have hdone : ∀ log, (∀ x ∈ s.log, x ∈ log) → (p.receiverTerminal = true → AckedSince c p.objectId log) →
      Record log s.retainedPendingKvTransfers c { p with task := .finished } := by
    intro log hmem hacked
    refine ⟨hmem _ hrec.exposed, hacked, hrec.ok, (fun ht => nomatch ht), (fun ht => nomatch ht),
      hrec.leased, (fun ht => absurd rfl ht), fun _ => ?_⟩
    by_cases hr : p.retainPendingOnFailure = true
    · exact .inl (hend hr)
    · exact .inr (.inl (Bool.not_eq_true _ ▸ hr))
  unfold KvSend.endWatch KvSend.release
  split
  · next hl =>
    have hterminal := hend (hrec.leased hl)
    refine h.finishRecord hp hlive (.inr rfl) (h.safe.released (hrec.held hlive) fun o ho => ?_)
      (fun x q hx hq => hq.cons fun he => hx (Entry.released.inj he).symm)
      (hdone _ (fun _ hx => List.mem_cons_of_mem _ hx) fun ht => (hrec.acked ht).cons _)
    obtain ⟨q, hq, rfl⟩ := h.logged c o ho
    rw [hp] at hq
    cases hq
    exact hrec.acked hterminal
  · exact h.finishRecord hp hlive (.inl rfl) h.safe (fun _ _ _ hq => hq)
      (hdone s.log (fun _ hx => hx) hrec.acked)

theorem Sound.watchFails
    (hlive : p.task ≠ .finished) (cancelled : Bool) :
    Sound (watchFails s c p cancelled) := by
  unfold KvSend.watchFails
  split
  · exact h.retain hp hlive
  · next hkeep =>
    have hend : p.retainPendingOnFailure = true → p.receiverTerminal = true := by
      intro hr
      simpa [hr] using hkeep
    split
    · exact h.endWatch hp hlive hend
    · have hrec := h.record c p hp
      refine h.setPending hp rfl rfl hlive (by simp) (fun ht => nomatch ht) ?_
      exact ⟨hrec.exposed, hrec.acked, hrec.ok, (fun ht => nomatch ht), fun _ => hend, hrec.leased,
        fun _ => hrec.held hlive, fun ht => nomatch ht⟩

theorem Sound.watchGivesUp (ht : p.task = .waiting) (cancelled : Bool) :
    Sound (watchGivesUp s c p cancelled) := by
  have hrec := h.record c p hp
  have hset : Sound (s.setPending c p.cancelAck) ∧ p.cancelAck.task ≠ .finished := by
    unfold Pending.cancelAck
    split
    · exact ⟨h.setPending hp rfl rfl (by simp [ht]) (by simp [ht]) id hrec, by simp [ht]⟩
    · refine ⟨h.setPending hp rfl rfl (by simp [ht]) (by simp [ht]) id ?_, by simp [ht]⟩
      exact ⟨hrec.exposed, hrec.acked, (fun hack => nomatch hack), hrec.completing, hrec.failing, hrec.leased,
        hrec.held, hrec.finished⟩
  exact hset.1.watchFails (Function.update_self ..) hset.2 cancelled

theorem Sound.watchAck (ht : p.task = .waiting) :
    Sound (watchAck s c p) := by
  have hlive : p.task ≠ .finished := by simp [ht]
  unfold KvSend.watchAck
  split
  · exact h
  · next hack =>
    have hrec := h.record c p hp
    refine h.setPending hp rfl rfl hlive (by simp) (fun ht => nomatch ht) ?_
    exact ⟨hrec.exposed, hrec.acked, hrec.ok, fun _ => hrec.ok hack, (fun ht => nomatch ht), hrec.leased,
      fun _ => hrec.held hlive, fun ht => nomatch ht⟩
  · next cancelled _ => exact h.watchFails hp hlive cancelled

end

/-- The record that the table has under an id. -/
theorem Sound.at_table (h : Sound s) {o : String} (ho : s.pending.get? o = some c) :
    ∃ p, s.pendings c = some p ∧ p.objectId = o ∧ p.task ≠ .finished :=
  (h.table o c).mp ho

theorem Sound.failPending (h : Sound s) (o : String) (cancelled : Bool) :
    Sound (failPending s o cancelled) := by
  unfold KvSend.failPending
  split
  · exact h
  · next c hc =>
    split
    · exact h
    · next p hp =>
      obtain ⟨q, hq, _, hlive⟩ := h.at_table hc
      rw [hp] at hq
      cases hq
      have hrec := h.record c p hp
      refine h.setPending hp rfl rfl hlive ?_ ?_ ?_
      · simp only
        split
        · simp
        · exact hlive
      · simp only
        split
        · exact fun ht => nomatch ht
        · exact fun ht => ht
      · refine ⟨hrec.exposed, hrec.acked, fun hack => ?_, fun ht => ?_, fun ht => ?_, hrec.leased,
          fun _ => hrec.held hlive, fun ht => ?_⟩
        · simp only at hack
          split at hack
          · cases hack
          · exact hrec.ok hack
        · simp only at ht
          split at ht
          · cases ht
          · exact hrec.completing ht
        · simp only at ht
          split at ht
          · cases ht
          · exact hrec.failing ht
        · simp only at ht
          split at ht
          · cases ht
          · exact absurd ht hlive

theorem Sound.armPending (h : Sound s) {o : String} {s' : State} (ha : armPending s o = some s') :
    Sound s' := by
  unfold KvSend.armPending at ha
  split at ha
  · cases ha
  · next c hc =>
    split at ha
    · cases ha
    · next p hp =>
      split at ha
      · next ht =>
        cases ha
        have hrec := h.record c p hp
        have hlive : p.task ≠ .finished := by simp [ht]
        refine h.setPending hp rfl rfl hlive (by simp) (fun ht => nomatch ht) ?_
        exact ⟨hrec.exposed, hrec.acked, hrec.ok, (fun ht => nomatch ht), (fun ht => nomatch ht),
          hrec.leased, fun _ => hrec.held hlive, fun ht => nomatch ht⟩
      · cases ha

/-! ### Acknowledgements -/

theorem Sound.logAck (h : Sound s) (o : String) : Sound { s with log := .acked o :: s.log } where
  fresh c hc := ⟨(h.fresh c hc).1, (h.fresh c hc).2.1, by simpa using (h.fresh c hc).2.2⟩
  logged c x hx := h.logged c x (by simpa using hx)
  table := h.table
  owner c send hs he := ⟨(h.owner c send hs he).1, by simpa using (h.owner c send hs he).2⟩
  handed := h.handed
  record c p hp := (h.record c p hp).cons (by simp)
  unarmed := h.unarmed
  kinds := h.kinds
  safe := h.safe.cons (by simp)

theorem Sound.ackTransfer (h : Sound s) (o : String) (success hasError : Bool) :
    Sound (ackTransfer s o success hasError) := by
  have hlog := h.logAck o
  simp only [KvSend.ackTransfer]
  split
  · exact hlog
  · next c hc =>
    split
    · exact hlog
    · next p hp =>
      obtain ⟨q, hq, rfl, hlive⟩ := h.at_table hc
      have hp : s.pendings c = some p := hp
      rw [hp] at hq
      cases hq
      have hrec := hlog.record c p hp
      have hacked : AckedSince c p.objectId (.acked p.objectId :: s.log) :=
        ⟨[], s.log, rfl, (h.record c p hp).exposed⟩
      have hset : ∀ ack : Ack, Sound (State.setPending { s with log := .acked p.objectId :: s.log } c
          { p with receiverTerminal := true, ack := ack }) := by
        intro ack
        refine hlog.setPending hp rfl rfl hlive hlive (fun ht => ht) ?_
        exact ⟨hrec.exposed, fun _ => hacked, fun _ => rfl, fun _ => rfl, fun _ _ => rfl, hrec.leased,
          hrec.held, fun ht => absurd ht hlive⟩
      split
      · exact hset _
      · split
        · exact hset _
        · exact hlog

/-! ### Sends -/

/-- The ready futures and the tables around them are no part of the invariant. -/
theorem Sound.congr {s' : State} (h : Sound s) (hsends : s'.sends = s.sends)
    (hpendings : s'.pendings = s.pendings) (hpending : s'.pending = s.pending)
    (hretained : s'.retainedPendingKvTransfers = s.retainedPendingKvTransfers)
    (hnext : s'.nextSend = s.nextSend) (hlog : s'.log = s.log) : Sound s' where
  fresh := by rw [hsends, hpendings, hnext, hlog]; exact h.fresh
  logged := by rw [hpendings, hlog]; exact h.logged
  table := by rw [hpendings, hpending]; exact h.table
  owner := by rw [hsends, hpendings, hlog]; exact h.owner
  handed := by rw [hsends]; exact h.handed
  record := by rw [hpendings, hretained, hlog]; exact h.record
  unarmed := by rw [hsends, hpendings]; exact h.unarmed
  kinds := by rw [hsends, hpendings]; exact h.kinds
  safe := by rw [hlog]; exact h.safe

theorem setSend_cases {x : Nat} {send' a : Send} (h : (s.setSend c send').sends x = some a) :
    (x = c ∧ a = send') ∨ (x ≠ c ∧ s.sends x = some a) := by
  simp only [State.setSend, Function.update_apply] at h
  split at h
  · next hx => exact .inl ⟨hx, (Option.some.inj h).symm⟩
  · next hx => exact .inr ⟨hx, h⟩

/-- A send moves on. -/
theorem Sound.setSend (h : Sound s) {send' : Send} (hs : s.sends c = some send)
    (hkind : send'.kind = send.kind) (hearly : send'.phase.early = true → send.phase.early = true)
    (hlease : send'.lease = true → send'.phase.early = true ∧ send'.kind = .kvPages)
    (hunarmed : ∀ p, s.pendings c = some p → p.task = .unarmed →
      send'.phase = .publishing ∧ send'.transferId = p.objectId) : Sound (s.setSend c send') := by
  refine ⟨fun x hx => ?_, h.logged, h.table, fun x a ha he => ?_, fun x a ha hl => ?_, h.record,
    fun x p hp ht => ?_, fun x p hp => ?_, h.safe⟩
  · have hxc : x ≠ c := by
      rintro rfl
      rw [(h.fresh x hx).1] at hs
      cases hs
    obtain ⟨h₁, h₂⟩ := h.fresh x hx
    exact ⟨(Function.update_of_ne hxc ..).trans h₁, h₂⟩
  · obtain ⟨rfl, rfl⟩ | ⟨_, ha⟩ := setSend_cases ha
    · exact h.owner x send hs (hearly he)
    · exact h.owner x a ha he
  · obtain ⟨rfl, rfl⟩ | ⟨_, ha⟩ := setSend_cases ha
    · exact hlease hl
    · exact h.handed x a ha hl
  · by_cases hxc : x = c
    · subst hxc
      exact ⟨send', Function.update_self .., hunarmed p hp ht⟩
    · obtain ⟨a, ha, hrest⟩ := h.unarmed x p hp ht
      exact ⟨a, (Function.update_of_ne hxc ..).trans ha, hrest⟩
  · obtain ⟨a, ha, hrest⟩ := h.kinds x p hp
    by_cases hxc : x = c
    · subst hxc
      rw [hs] at ha
      cases ha
      exact ⟨send', Function.update_self .., hkind ▸ hrest⟩
    · exact ⟨a, (Function.update_of_ne hxc ..).trans ha, hrest⟩

theorem finishSend_eq (s : State) (c : Nat) (send : Send) :
    ∃ kvReady outbound, finishSend s c send =
      { s.setSend c { send with phase := .done, lease := false } with
        log := release s.log send.lease c, kvReady := kvReady, outboundKvRequests := outbound } := by
  simp only [finishSend]
  split <;> exact ⟨_, _, rfl⟩

/-- A send that ends before it published anything gives its lease back. -/
theorem Sound.finishEarly (h : Sound s) (hs : s.sends c = some send)
    (he : send.phase.early = true) : Sound (finishSend s c send) := by
  obtain ⟨hnone, hrel⟩ := h.owner c send hs he
  have hdone : Sound (s.setSend c { send with phase := .done, lease := false }) := by
    refine h.setSend hs rfl (fun h => nomatch h) (fun h => nomatch h) fun p hp => ?_
    rw [hnone] at hp
    cases hp
  obtain ⟨kvReady, outbound, heq⟩ := finishSend_eq s c send
  rw [heq]
  unfold KvSend.release
  split
  · have hne : ∀ x, x ≠ c → (Entry.released x) ≠ .released c := fun x hx he => hx (Entry.released.inj he)
    refine ⟨fun x hx => ?_, fun x o hx => h.logged x o (by simpa using hx), hdone.table,
      fun x a ha hea => ?_, hdone.handed, fun x p hp => ?_, hdone.unarmed, hdone.kinds, ?_⟩
    · have hxc : x ≠ c := by
        rintro rfl
        rw [(h.fresh x hx).1] at hs
        cases hs
      obtain ⟨h₁, h₂, h₃⟩ := hdone.fresh x hx
      exact ⟨h₁, h₂, by rw [List.mem_cons, not_or]; exact ⟨hne x hxc, h₃⟩⟩
    · obtain ⟨rfl, rfl⟩ | ⟨hxc, ha'⟩ := setSend_cases ha
      · cases hea
      · obtain ⟨h₁, h₂⟩ := h.owner x a ha' hea
        exact ⟨h₁, by rw [List.mem_cons, not_or]; exact ⟨hne x hxc, h₂⟩⟩
    · have hxc : x ≠ c := by
        rintro rfl
        have hp : s.pendings x = some p := hp
        rw [hnone] at hp
        cases hp
      exact (hdone.record x p hp).cons (hne x hxc).symm
    · refine h.safe.released hrel fun o ho => ?_
      obtain ⟨p, hp, _⟩ := h.logged c o ho
      rw [hnone] at hp
      cases hp
  · exact hdone.congr rfl rfl rfl rfl rfl rfl

/-- A send that ends after that leaves everything to the watcher. -/
theorem Sound.finishLate (h : Sound s) (hs : s.sends c = some send)
    (he : send.phase.early = false) (harmed : ∀ p, s.pendings c = some p → p.task ≠ .unarmed) :
    Sound (finishSend s c send) := by
  have hlease : send.lease = false := by
    cases hl : send.lease with
    | false => rfl
    | true =>
      have := (h.handed c send hs hl).1
      rw [he] at this
      cases this
  obtain ⟨kvReady, outbound, heq⟩ := finishSend_eq s c send
  rw [heq, hlease]
  have hdone : Sound (s.setSend c { send with phase := .done, lease := false }) :=
    h.setSend hs rfl (fun h => nomatch h) (fun h => nomatch h) fun p hp ht => absurd ht (harmed p hp)
  exact hdone.congr rfl rfl rfl rfl rfl rfl

theorem Sound.newSend (h : Sound s) (send : Send) (he : send.phase.early = true)
    (hk : send.lease = true → send.kind = .kvPages) :
    Sound { s.setSend s.nextSend send with nextSend := s.nextSend + 1 } := by
  obtain ⟨hsend, hpending, hreleased⟩ := h.fresh s.nextSend (Nat.le_refl _)
  have hold : ∀ x p, s.pendings x = some p → x ≠ s.nextSend := by
    intro x p hp he
    rw [he, hpending] at hp
    cases hp
  refine ⟨fun x hx => ?_, h.logged, h.table, fun x a ha hea => ?_, fun x a ha hl => ?_, h.record,
    fun x p hp ht => ?_, fun x p hp => ?_, h.safe⟩
  · have hx : s.nextSend + 1 ≤ x := hx
    obtain ⟨h₁, h₂⟩ := h.fresh x (by omega)
    exact ⟨(Function.update_of_ne (by omega) ..).trans h₁, h₂⟩
  · obtain ⟨rfl, rfl⟩ | ⟨_, ha⟩ := setSend_cases ha
    · exact ⟨hpending, hreleased⟩
    · exact h.owner x a ha hea
  · obtain ⟨rfl, rfl⟩ | ⟨_, ha⟩ := setSend_cases ha
    · exact ⟨he, hk hl⟩
    · exact h.handed x a ha hl
  · obtain ⟨a, ha, hrest⟩ := h.unarmed x p hp ht
    exact ⟨a, (Function.update_of_ne (hold x p hp) ..).trans ha, hrest⟩
  · obtain ⟨a, ha, hrest⟩ := h.kinds x p hp
    exact ⟨a, (Function.update_of_ne (hold x p hp) ..).trans ha, hrest⟩

theorem Sound.sendKvPages (h : Sound s) (requestId transferId : String) (lease valid : Bool) :
    Sound (sendKvPages s requestId transferId lease valid) := by
  have hnew := h.newSend { kind := .kvPages, requestId, transferId, lease, phase := .preparing } rfl
    (fun _ => rfl)
  simp only [KvSend.sendKvPages]
  split
  · exact hnew.finishEarly (Function.update_self ..) rfl
  · exact hnew.congr rfl rfl rfl rfl rfl rfl

/-- The transfer is registered: its record has the lease, and its `DataReady` may be seen. -/
theorem Sound.register (h : Sound s) (hs : s.sends c = some send)
    (he : send.phase.early = true) (hfree : s.pending.get? send.transferId = none) :
    Sound (State.setSend
      { s.setPending c send.record with
        pending := s.pending.set send.transferId c
        log := .exposed c send.transferId :: s.log } c
      { send with phase := .publishing, lease := false }) := by
  obtain ⟨hnone, hrel⟩ := h.owner c send hs he
  have hlease : send.lease = true → decide (send.kind = .kvPages) = true := by
    intro hl
    rw [decide_eq_true_eq]
    exact (h.handed c send hs hl).2
  have hfresh : ∀ o, .exposed c o ∉ s.log := by
    intro o ho
    obtain ⟨p, hp, _⟩ := h.logged c o ho
    rw [hnone] at hp
    cases hp
  refine ⟨fun x hx => ?_, fun x o hx => ?_, fun o x => ?_, fun x a ha hea => ?_, fun x a ha hl => ?_,
    fun x q hx => ?_, fun x q hx ht => ?_, fun x q hx => ?_, h.safe.cons (by simp)⟩
  · have hxc : x ≠ c := by
      rintro rfl
      rw [(h.fresh x hx).1] at hs
      cases hs
    obtain ⟨h₁, h₂, h₃⟩ := h.fresh x hx
    exact ⟨(Function.update_of_ne hxc ..).trans h₁, (Function.update_of_ne hxc ..).trans h₂,
      fun hm => h₃ (by simpa [State.setSend] using hm)⟩
  · simp only [State.setSend, List.mem_cons, Entry.exposed.injEq] at hx
    rcases hx with ⟨rfl, rfl⟩ | hx
    · exact ⟨_, Function.update_self .., rfl⟩
    · have hxc : x ≠ c := by
        rintro rfl
        exact hfresh o hx
      obtain ⟨q, hq, ho⟩ := h.logged x o hx
      exact ⟨q, (Function.update_of_ne hxc ..).trans hq, ho⟩
  · simp only [State.setSend, State.setPending, Dict.get?_set, Function.update_apply]
    by_cases hxc : x = c
    · subst hxc
      rw [if_pos rfl]
      constructor
      · intro hx
        split at hx
        · next ho => exact ⟨_, rfl, ho.symm, fun ht => nomatch ht⟩
        · obtain ⟨q, hq, _⟩ := (h.table o x).mp hx
          rw [hnone] at hq
          cases hq
      · rintro ⟨q, hq, ho, _⟩
        cases hq
        have ho : o = send.transferId := ho.symm
        rw [if_pos ho]
    · rw [if_neg hxc, ← h.table o x]
      split
      · next ho =>
        rw [ho, hfree]
        exact ⟨fun hx => absurd (Option.some.inj hx).symm hxc, (fun hx => nomatch hx)⟩
      · rfl
  · obtain ⟨rfl, rfl⟩ | ⟨hxc, ha'⟩ := setSend_cases ha
    · cases hea
    · obtain ⟨h₁, h₂⟩ := h.owner x a ha' hea
      exact ⟨(Function.update_of_ne hxc ..).trans h₁, fun hm => h₂ (by simpa [State.setSend] using hm)⟩
  · obtain ⟨rfl, rfl⟩ | ⟨_, ha'⟩ := setSend_cases ha
    · cases hl
    · exact h.handed x a ha' hl
  · simp only [State.setSend, State.setPending, Function.update_apply] at hx
    split at hx
    · next hxc =>
      subst hxc
      cases hx
      exact ⟨List.mem_cons_self, (fun ht => nomatch ht), (fun ht => nomatch ht), (fun ht => nomatch ht),
        (fun ht => nomatch ht), hlease, (fun _ hm => hrel (by simpa [State.setSend] using hm)),
        fun ht => nomatch ht⟩
    · exact (h.record x q hx).cons (by simp)
  · simp only [State.setSend, State.setPending, Function.update_apply] at hx
    split at hx
    · next hxc =>
      subst hxc
      cases hx
      exact ⟨_, Function.update_self .., rfl, rfl⟩
    · next hxc =>
      obtain ⟨a, ha, hrest⟩ := h.unarmed x q hx ht
      exact ⟨a, (Function.update_of_ne hxc ..).trans ha, hrest⟩
  · simp only [State.setSend, State.setPending, Function.update_apply] at hx
    split at hx
    · next hxc =>
      subst hxc
      cases hx
      exact ⟨_, Function.update_self .., rfl⟩
    · next hxc =>
      obtain ⟨a, ha, hrest⟩ := h.kinds x q hx
      exact ⟨a, (Function.update_of_ne hxc ..).trans ha, hrest⟩

theorem failPending_sends (s : State) (o : String) (cancelled : Bool) :
    (failPending s o cancelled).sends = s.sends := by
  unfold failPending
  split
  · rfl
  · split <;> rfl

theorem Sound.registerSend (h : Sound s) (hs : s.sends c = some send)
    (he : send.phase.early = true) : Sound (registerSend s c send) := by
  simp only [KvSend.registerSend, registerPending, Send.record]
  cases hfree : s.pending.get? send.transferId with
  | none =>
    have hcontains : s.pending.contains send.transferId = false := by simp [Dict.contains, hfree]
    simp only [hcontains, Bool.false_eq_true, if_false]
    exact h.register hs he hfree
  | some x =>
    have hcontains : s.pending.contains send.transferId = true := by simp [hfree]
    simp only [hcontains, if_true, sendRaises]
    split
    · exact h.finishEarly hs he
    · refine (h.failPending send.transferId false).finishEarly ?_ he
      rw [failPending_sends]
      exact hs

theorem foldl_sound {α : Type} {f : State → α → State} (hf : ∀ s a, Sound s → Sound (f s a)) (l : List α)
    (h : Sound s) : Sound (l.foldl f s) := by
  induction l generalizing s with
  | nil => exact h
  | cons a rest ih => exact ih (hf s a h)

section
variable (h : Sound s)
include h

theorem Sound.failReady (transferId : String) : Sound (failReady s transferId) := by
  unfold KvSend.failReady
  split
  · exact h
  · split
    · exact h.congr rfl rfl rfl rfl rfl rfl
    · exact h

theorem Sound.cleanup (requestId : String) : Sound (cleanup s requestId) := by
  refine foldl_sound (fun s e h => ?_) _ h
  unfold cleanupOne
  split
  · exact h
  · exact (h.failReady e.1).failPending e.1 false

theorem Sound.close : Sound (close s) := by
  have hpending := foldl_sound (fun s o h => h.failPending o false) s.pending.keys h
  have hready := foldl_sound (fun s t h => h.failReady t)
    (s.pending.keys.foldl (fun s o => KvSend.failPending s o false) s).kvReady.keys hpending
  exact hready.congr rfl rfl rfl rfl rfl rfl

/-- Whoever fails a transfer sees to it that somebody watches it. -/
theorem failPending_armed {o : String} {cancelled : Bool}
    (hid : ∀ q, s.pendings c = some q → q.task = .unarmed → q.objectId = o)
    (hp : (failPending s o cancelled).pendings c = some p) : p.task ≠ .unarmed := by
  intro ht
  have habsent : ∀ q, s.pendings c = some q → q.task = .unarmed → s.pending.get? o = some c :=
    fun q hq hu => (h.table o c).mpr ⟨q, hq, hid q hq hu, by simp [hu]⟩
  unfold failPending at hp
  cases hc : s.pending.get? o with
  | none =>
    simp only [hc] at hp
    have := habsent p hp ht
    rw [hc] at this
    cases this
  | some x =>
    obtain ⟨q, hq, _, _⟩ := h.at_table hc
    simp only [hc, hq, State.setPending, Function.update_apply] at hp
    split at hp
    · cases hp
      simp only at ht
      split at ht
      · cases ht
      · next hn => exact hn ht
    · next hxc =>
      have := habsent p hp ht
      rw [hc] at this
      exact hxc (Option.some.inj this).symm

/-- A publishing send's own record, while nobody watches it. -/
theorem Sound.unarmed_id (hs : s.sends c = some send) (q : Pending)
    (hq : s.pendings c = some q) (ht : q.task = .unarmed) : q.objectId = send.transferId := by
  obtain ⟨a, ha, _, hid⟩ := h.unarmed c q hq ht
  rw [hs] at ha
  cases ha
  exact hid.symm

theorem Sound.published (hs : s.sends c = some send)
    (hp : send.phase = .publishing) : Sound (published s c send) := by
  have hlate : send.phase.early = false := by rw [hp]; rfl
  unfold KvSend.published
  cases ha : KvSend.armPending s send.transferId with
  | none =>
    -- the record is gone or watched already, by a cleanup that came in between
    simp only [sendRaises]
    split
    · refine h.finishLate hs hlate fun q hq ht => ?_
      have hid := h.unarmed_id hs q hq ht
      have htable := (h.table send.transferId c).mpr ⟨q, hq, hid, by simp [ht]⟩
      simp [KvSend.armPending, htable, hq, ht] at ha
    · have hs' : (KvSend.failPending s send.transferId false).sends c = some send := by
        rw [failPending_sends]
        exact hs
      refine (h.failPending send.transferId false).finishLate hs' hlate fun q hq => ?_
      exact failPending_armed h (h.unarmed_id hs) hq
  | some s' =>
    have hsound := h.armPending ha
    have hsends : s'.sends = s.sends := by
      unfold KvSend.armPending at ha
      split at ha
      · cases ha
      · split at ha
        · cases ha
        · split at ha
          · cases ha
            rfl
          · cases ha
    have harmed : ∀ q, s'.pendings c = some q → q.task ≠ .unarmed := by
      intro q hq ht
      have hid := hsound.unarmed_id (hsends ▸ hs) q hq ht
      have htable := (hsound.table send.transferId c).mpr ⟨q, hq, hid, by simp [ht]⟩
      unfold KvSend.armPending at ha
      split at ha
      · cases ha
      · next x hx =>
        split at ha
        · cases ha
        · split at ha
          · cases ha
            have htable : s.pending.get? send.transferId = some c := htable
            rw [hx] at htable
            cases htable
            simp only [State.setPending, Function.update_self, Option.some.injEq] at hq
            subst hq
            cases ht
          · cases ha
    have hs' : s'.sends c = some send := by rw [hsends]; exact hs
    have hlease : send.lease ≠ true := by
      intro hl
      have hearly := (h.handed c send hs hl).1
      rw [hlate] at hearly
      cases hearly
    simp only
    split
    · exact hsound.setSend hs' rfl (fun h => nomatch h) (fun hl => absurd hl hlease)
        fun q hq ht => absurd ht (harmed q hq)
    · exact hsound.finishLate hs' hlate harmed

theorem Sound.publishFailed (hs : s.sends c = some send)
    (hp : send.phase = .publishing) (cancelled : Bool) : Sound (publishFailed s c send cancelled) := by
  have hs' : (KvSend.failPending s send.transferId cancelled).sends c = some send := by
    rw [failPending_sends]
    exact hs
  refine (h.failPending send.transferId cancelled).finishLate hs' (by rw [hp]; rfl) fun q hq => ?_
  exact failPending_armed h (h.unarmed_id hs) hq

theorem Sound.sendData (requestId transferId : String) :
    Sound (sendData s requestId transferId) := by
  have hnew := h.newSend { kind := .data, requestId, transferId, lease := false, phase := .putting } rfl
    (fun hl => nomatch hl)
  exact hnew.registerSend (Function.update_self ..) rfl

theorem Sound.readyWakes (hs : s.sends c = some send)
    (hp : send.phase = .awaitingReady) : Sound (readyWakes s c send) := by
  have he : send.phase.early = true := by rw [hp]; rfl
  unfold KvSend.readyWakes
  split
  · exact h
  · exact h.setSend hs rfl (fun _ => he) (fun hl => ⟨rfl, (h.handed c send hs hl).2⟩)
      fun p hp => absurd hp (by rw [(h.owner c send hs he).1]; simp)
  · exact h.finishEarly hs he
  · exact h.finishEarly hs he

theorem Sound.kvTransferReady (transferId : String) (success : Bool) :
    Sound (kvTransferReady s transferId success) := by
  unfold KvSend.kvTransferReady
  split
  · exact h
  · split
    · exact h.congr rfl rfl rfl rfl rfl rfl
    · exact h

/-! ### Runs -/

theorem Sound.onSend {phases : List Phase} {act : Send → State}
    (hact : ∀ send, s.sends c = some send → send.phase ∈ phases → Sound (act send)) :
    Sound (onSend s c phases act) := by
  unfold KvSend.onSend
  split
  · exact h
  · next send hs =>
    split
    · next hp => exact hact send hs hp
    · exact h

theorem Sound.onWatch {tasks : List Watch} {act : Pending → State}
    (hact : ∀ p, s.pendings c = some p → p.task ∈ tasks → Sound (act p)) :
    Sound (onWatch s c tasks act) := by
  unfold KvSend.onWatch
  split
  · exact h
  · next p hp =>
    split
    · next ht => exact hact p hp ht
    · exact h

end

theorem early_of_mem {phase : Phase} (h : phase ∈ [Phase.preparing, .awaitingReady, .putting]) :
    phase.early = true := by
  simp only [List.mem_cons, List.not_mem_nil, or_false] at h
  obtain rfl | rfl | rfl := h <;> rfl

theorem sound_step (s : State) (e : Event) (h : Sound s) : Sound (step s e) := by
  cases e with
  | sendKvPages requestId transferId lease valid => exact h.sendKvPages ..
  | sendData requestId transferId => exact h.sendData ..
  | prepared c =>
    refine h.onSend fun send hs hp => ?_
    have he : send.phase.early = true := early_of_mem (by simp_all)
    exact h.setSend hs rfl (fun _ => he) (fun hl => ⟨rfl, (h.handed c send hs hl).2⟩)
      fun p hp => absurd hp (by rw [(h.owner c send hs he).1]; simp)
  | readyWakes c => exact h.onSend fun send hs hp => h.readyWakes hs (by simpa using hp)
  | putDone c => exact h.onSend fun send hs hp => h.registerSend hs (early_of_mem (by simp_all))
  | sendFailed c => exact h.onSend fun send hs hp => h.finishEarly hs (early_of_mem hp)
  | published c => exact h.onSend fun send hs hp => h.published hs (by simpa using hp)
  | publishFailed c cancelled =>
    exact h.onSend fun send hs hp => h.publishFailed hs (by simpa using hp) cancelled
  | callerLeaves c =>
    refine h.onSend fun send hs hp => ?_
    have hp : send.phase = .awaitingWatch := by simpa using hp
    refine h.finishLate hs (by rw [hp]; rfl) fun p hpend ht => ?_
    obtain ⟨a, ha, hpub, _⟩ := h.unarmed c p hpend ht
    rw [hs] at ha
    cases ha
    rw [hp] at hpub
    cases hpub
  | kvTransferReady transferId success => exact h.kvTransferReady ..
  | ackTransfer objectId success hasError => exact h.ackTransfer ..
  | ackWakes c => exact h.onWatch fun p hp ht => h.watchAck hp (by simpa using ht)
  | ackTimesOut c => exact h.onWatch fun p hp ht => h.watchGivesUp hp (by simpa using ht) false
  | watchCancelled c =>
    refine h.onWatch fun p hp ht => ?_
    split
    · next hf => exact h.endWatch hp (by simp [hf]) ((h.record c p hp).failing hf)
    · split
      · next hw => exact h.watchGivesUp hp hw true
      · refine h.watchFails hp ?_ true
        intro hf
        simp [hf] at ht
  | operationsDone c =>
    refine h.onWatch fun p hp ht => ?_
    have hrec := h.record c p hp
    simp only [List.mem_cons, List.not_mem_nil, or_false] at ht
    rcases ht with ht | ht
    · exact h.endWatch hp (by simp [ht]) fun _ => hrec.completing ht
    · exact h.endWatch hp (by simp [ht]) (hrec.failing ht)
  | operationsFailed c => exact h.onWatch fun p hp ht => h.watchFails hp (by simp_all) false
  | cleanup requestId => exact h.cleanup requestId
  | close => exact h.close

theorem sound_run (history : List Event) : Sound (run step State.create history) :=
  run_invariant sound_create sound_step history

/-- **The lease of a KV transfer.** In every run, a lease is released at most once, and
after its `DataReady` may have been sent only when a `DataAck` for it has come in. The
transfer of a KV send that has ended without one is retained, with its lease held. -/
theorem lease_safety (history : List Event) :
    SafeLog (run step State.create history).log ∧
    ∀ c send p, (run step State.create history).sends c = some send → send.kind = .kvPages →
      (run step State.create history).pendings c = some p →
      (send.phase = .done → p.task ≠ .unarmed) ∧
      (p.task = .finished → ¬AckedSince c p.objectId (run step State.create history).log →
        c ∈ (run step State.create history).retainedPendingKvTransfers ∧
        .released c ∉ (run step State.create history).log) := by
  have h := sound_run history
  refine ⟨h.safe, fun c send p hs hk hp => ⟨fun hdone ht => ?_, fun ht hno => ?_⟩⟩
  · obtain ⟨a, ha, hpub, _⟩ := h.unarmed c p hp ht
    rw [hs] at ha
    cases ha
    rw [hdone] at hpub
    cases hpub
  · obtain ⟨a, ha, hkind⟩ := h.kinds c p hp
    rw [hs] at ha
    cases ha
    rw [hk] at hkind
    rcases (h.record c p hp).finished ht with hr | hr | hr
    · exact absurd ((h.record c p hp).acked hr) hno
    · exact absurd (hkind.symm.trans hr) (by simp)
    · exact hr

end SglangOmni.Comm.KvSend
