import SglangOmni.Pipeline.TpControl
import Mathlib.Algebra.BigOperators.Fin
import Mathlib.Algebra.Order.BigOperators.Group.Finset

/-! Which operation a follower's result is matched with.

A follower's queue is the end of what it answered, and every collect adds one `get` to it, so
what was taken, what ran out and what still waits add up to the collects so far
(`Follower.Sound.balance`). A wait that ran out leaves one answer too many in the queue for
good: from then on every `get` finds the answer to an earlier operation. -/
namespace SglangOmni.Pipeline.TpControl
open Lib Proto

variable {n : Nat} {collected : Except String (List AdminResult)} {s : State n} {op : AdminOperation}

/-! ### Followers -/

def Get.waiting : Get → Nat
  | .pending => 1
  | _ => 0

/-- A follower after `started` collects. -/
structure Follower.Sound (ops : List AdminOperation) (started : Nat) (w : Follower) : Prop where
  answered_le : w.answered.length ≤ ops.length
  work : w.work = ops.drop w.answered.length
  ids : w.answered.map (·.opId) = (ops.take w.answered.length).map (·.opId)
  suffix : w.results <:+ w.answered
  balance : w.answered.length + w.timeouts + w.orphans + w.get.waiting = started + w.results.length
  took : ∀ r, w.get = .took r → ∃ i, w.answered[i]? = some r ∧ i + w.timeouts + w.orphans < started
  timedOut : w.get = .timedOut → 0 < w.timeouts

/-- A follower of a stage where no wait ran out. -/
structure Follower.Prompt (started : Nat) (w : Follower) : Prop where
  orphans : w.orphans = 0
  took : ∀ r, w.get = .took r → w.answered[started - 1]? = some r

/-- What a step of a follower, or of a thread on its queue, keeps. -/
structure Turn (ops : List AdminOperation) (started : Nat) (w w' : Follower) : Prop where
  sound : w'.Sound ops started
  prompt : w'.timeouts = 0 → w.Prompt started → w'.Prompt started
  answered : w.answered <+: w'.answered
  timeouts : w.timeouts ≤ w'.timeouts
  idle : w'.get = .idle ↔ w.get = .idle

variable {ops : List AdminOperation} {started : Nat} {w : Follower}

theorem Turn.refl (h : w.Sound ops started) : Turn ops started w w :=
  ⟨h, fun _ hp => hp, List.prefix_refl _, Nat.le_refl _, Iff.rfl⟩

theorem getElem?_of_prefix {α : Type} {l l' : List α} (h : l <+: l') {i : Nat} {a : α} (ha : l[i]? = some a) :
    l'[i]? = some a := by
  obtain ⟨t, rfl⟩ := h
  rw [List.getElem?_append_left (List.getElem?_eq_some_iff.mp ha).1, ha]

section
variable (h : w.Sound ops started)
include h

theorem Turn.answer (result : AdminResult) :
    Turn ops started w (w.answer result) := by
  cases hw : w.work with
  | nil =>
    rw [Follower.answer, hw]
    exact .refl h
  | cons op rest =>
    have hdrop := h.work
    rw [hw] at hdrop
    have hop : ops[w.answered.length]? = some op := by
      have := congrArg List.head? hdrop
      rwa [List.head?_drop, List.head?_cons, eq_comm] at this
    have hlt := (List.getElem?_eq_some_iff.mp hop).1
    have hprefix : w.answered <+: (w.answer result).answered := by
      rw [Follower.answer, hw]
      exact List.prefix_append _ _
    simp only [Follower.answer, hw] at hprefix ⊢
    refine ⟨⟨?_, ?_, ?_, ?_, ?_, ?_, h.timedOut⟩, ?_, hprefix, Nat.le_refl _, Iff.rfl⟩
    · rw [List.length_append]
      exact hlt
    · rw [List.length_append, List.length_singleton, ← List.tail_drop, ← hdrop]
      rfl
    · rw [List.length_append, List.length_singleton, List.take_add_one, hop, List.map_append, List.map_append, h.ids]
      rfl
    · obtain ⟨t, ht⟩ := h.suffix
      exact ⟨t, by rw [← List.append_assoc, ht]⟩
    · have := h.balance
      simp only [List.length_append, List.length_singleton]
      omega
    · intro r hr
      obtain ⟨i, hi, hlt⟩ := h.took r hr
      exact ⟨i, getElem?_of_prefix hprefix hi, hlt⟩
    · exact fun _ hp => ⟨hp.orphans, fun r hr => getElem?_of_prefix hprefix (hp.took r hr)⟩

/-- The head of a queue is the answer after those that were taken. -/
theorem Follower.Sound.head {r : AdminResult} {rest : List AdminResult}
    (hr : w.results = r :: rest) :
    ∃ i, w.answered[i]? = some r ∧ i + 1 + rest.length = w.answered.length ∧ rest <:+ w.answered := by
  obtain ⟨t, ht⟩ := h.suffix
  rw [hr] at ht
  refine ⟨t.length, ?_, ?_, ⟨t ++ [r], by rw [List.append_assoc]; exact ht⟩⟩
  · rw [← ht, List.getElem?_append_right (Nat.le_refl _), Nat.sub_self]
    rfl
  · rw [← ht, List.length_append, List.length_cons]
    omega

theorem Turn.take : Turn ops started w w.take := by
  cases hg : w.get with
  | pending =>
    cases hr : w.results with
    | nil =>
      simp only [Follower.take, hg, hr]
      exact .refl h
    | cons r rest =>
      obtain ⟨i, hi, hlen, hsuffix⟩ := h.head hr
      have hb := h.balance
      rw [hg, hr] at hb
      simp only [Get.waiting, List.length_cons] at hb
      simp only [Follower.take, hg, hr]
      refine ⟨⟨h.answered_le, h.work, h.ids, hsuffix, ?_, ?_, (fun h => nomatch h)⟩, ?_, List.prefix_refl _,
        Nat.le_refl _, by simp [hg]⟩
      · simp only [Get.waiting]
        omega
      · intro r' hr'
        cases hr'
        refine ⟨i, hi, ?_⟩
        show i + w.timeouts + w.orphans < started
        omega
      · intro hzero hp
        refine ⟨hp.orphans, fun r' hr' => ?_⟩
        cases hr'
        have horphans := hp.orphans
        have hi' : started - 1 = i := by
          simp only at hzero
          omega
        rw [hi']
        exact hi
  | _ =>
    simp only [Follower.take, hg]
    exact .refl h

theorem Turn.expire : Turn ops started w w.expire := by
  cases hg : w.get with
  | pending =>
    cases hr : w.results with
    | nil =>
      have hb := h.balance
      rw [hg, hr] at hb
      simp only [Follower.expire, hg, hr]
      refine ⟨⟨h.answered_le, h.work, h.ids, List.nil_suffix, ?_, (fun _ h => nomatch h), fun _ => Nat.succ_pos _⟩,
        ?_, List.prefix_refl _, Nat.le_succ _, by simp [hg]⟩
      · simp only [Get.waiting, List.length_nil] at hb ⊢
        omega
      · exact fun hzero _ => absurd hzero (Nat.succ_ne_zero _)
    | cons r rest =>
      simp only [Follower.expire, hg, hr]
      exact .refl h
  | _ =>
    simp only [Follower.expire, hg]
    exact .refl h

theorem Turn.orphanTake : Turn ops started w w.orphanTake := by
  cases ho : w.orphans with
  | zero =>
    simp only [Follower.orphanTake, ho]
    exact .refl h
  | succ orphans =>
    cases hr : w.results with
    | nil =>
      simp only [Follower.orphanTake, ho, hr]
      exact .refl h
    | cons r rest =>
      obtain ⟨i, hi, hlen, hsuffix⟩ := h.head hr
      have hb := h.balance
      rw [ho, hr] at hb
      simp only [List.length_cons] at hb
      simp only [Follower.orphanTake, ho, hr]
      refine ⟨⟨h.answered_le, h.work, h.ids, hsuffix, ?_, ?_, h.timedOut⟩, ?_, List.prefix_refl _, Nat.le_refl _,
        Iff.rfl⟩
      · show w.answered.length + w.timeouts + orphans + w.get.waiting = started + rest.length
        omega
      · intro r' hr'
        obtain ⟨i', hi', hlt⟩ := h.took r' hr'
        refine ⟨i', hi', ?_⟩
        show i' + w.timeouts + orphans < started
        omega
      · exact fun _ hp => absurd (ho.symm.trans hp.orphans) (Nat.succ_ne_zero _)

theorem Turn.orphanExpire : Turn ops started w w.orphanExpire := by
  cases ho : w.orphans with
  | zero =>
    simp only [Follower.orphanExpire, ho]
    exact .refl h
  | succ orphans =>
    cases hr : w.results with
    | nil =>
      have hb := h.balance
      rw [ho, hr] at hb
      simp only [Follower.orphanExpire, ho, hr]
      refine ⟨⟨h.answered_le, h.work, h.ids, List.nil_suffix, ?_, ?_, fun _ => Nat.succ_pos _⟩, ?_,
        List.prefix_refl _, Nat.le_succ _, Iff.rfl⟩
      · show w.answered.length + (w.timeouts + 1) + orphans + w.get.waiting = started + ([] : List AdminResult).length
        omega
      · intro r' hr'
        obtain ⟨i', hi', hlt⟩ := h.took r' hr'
        refine ⟨i', hi', ?_⟩
        show i' + (w.timeouts + 1) + orphans < started
        omega
      · exact fun hzero _ => absurd hzero (Nat.succ_ne_zero _)
    | cons r rest =>
      simp only [Follower.orphanExpire, ho, hr]
      exact .refl h

theorem Follower.Sound.assign (op : AdminOperation) :
    (w.assign op).Sound (ops ++ [op]) started where
  answered_le := by
    rw [List.length_append]
    exact Nat.le_trans h.answered_le (Nat.le_add_right _ _)
  work := by
    show w.work ++ [op] = (ops ++ [op]).drop w.answered.length
    rw [List.drop_append_of_le_length h.answered_le, ← h.work]
  ids := by
    show w.answered.map (·.opId) = ((ops ++ [op]).take w.answered.length).map (·.opId)
    rw [List.take_append_of_le_length h.answered_le, ← h.ids]
  suffix := by exact h.suffix
  balance := by exact h.balance
  took := by exact h.took
  timedOut := by exact h.timedOut

theorem Follower.Sound.await (hidle : w.get = .idle) :
    w.await.Sound ops (started + 1) where
  answered_le := by exact h.answered_le
  work := by exact h.work
  ids := by exact h.ids
  suffix := by exact h.suffix
  balance := by
    have hb := h.balance
    rw [hidle] at hb
    show w.answered.length + w.timeouts + w.orphans + 1 = started + 1 + w.results.length
    simp only [Get.waiting] at hb
    omega
  took := by exact (fun _ h => nomatch h)
  timedOut := by exact (fun h => nomatch h)

theorem Follower.Sound.abandon : w.abandon.Sound ops started := by
  have hb := h.balance
  cases hg : w.get with
  | pending =>
    rw [hg] at hb
    simp only [Follower.abandon, hg]
    refine ⟨h.answered_le, h.work, h.ids, h.suffix, ?_, (fun _ h => nomatch h), (fun h => nomatch h)⟩
    simp only [Get.waiting] at hb ⊢
    omega
  | _ =>
    rw [hg] at hb
    simp only [Follower.abandon, hg]
    exact ⟨h.answered_le, h.work, h.ids, h.suffix, hb, (fun _ h => nomatch h), (fun h => nomatch h)⟩

end

theorem Follower.abandon_get (w : Follower) : w.abandon.get = .idle := by
  unfold Follower.abandon
  split <;> rfl

theorem Follower.abandon_answered (w : Follower) : w.abandon.answered = w.answered := by
  unfold Follower.abandon
  split <;> rfl

theorem Follower.abandon_timeouts (w : Follower) : w.abandon.timeouts = w.timeouts := by
  unfold Follower.abandon
  split <;> rfl

/-! ### Collecting -/

theorem mapM_eq_some {α β : Type} {f : α → Option β} {l : List α} {out : List β} :
    l.mapM f = some out ↔ l.map f = out.map some := by
  induction l generalizing out with
  | nil => cases out <;> simp
  | cons a rest ih =>
    rw [List.mapM_cons, List.map_cons]
    cases ha : f a with
    | none => cases out <;> simp
    | some b =>
      cases out with
      | nil => cases rest.mapM f <;> simp
      | cons c out =>
        cases hr : rest.mapM f with
        | none | some bs =>
          have := @ih out
          simp only [hr] at this
          simp [← this]

theorem checkResults_eq_ok {opId : String} {results out : List AdminResult} :
    checkResults opId results = .ok out ↔ out = results ∧ ∀ r ∈ results, r.opId = opId := by
  induction results generalizing out with
  | nil => simp [checkResults, eq_comm]
  | cons r rest ih =>
    rw [checkResults]
    by_cases hr : r.opId = opId
    · rw [if_neg (not_not.mpr hr)]
      cases hc : checkResults opId rest with
      | error e =>
        have := (not_congr (@ih rest)).mp (by simp [hc])
        simp only [true_and] at this
        simp [Except.map, hr, this]
      | ok out' =>
        obtain ⟨rfl, hall⟩ := ih.mp hc
        constructor
        · intro heq
          cases heq
          exact ⟨rfl, List.forall_mem_cons.mpr ⟨hr, hall⟩⟩
        · rintro ⟨rfl, -⟩
          rfl
    · simp [hr]

theorem Get.result?_eq_some {g : Get} {r : AdminResult} : g.result? = some r ↔ g = .took r := by
  cases g <;> simp [Get.result?]

/-- A collect that is over had a wait that ran out, or took a result from every queue. -/
theorem collect_cases {opId : String} {gets : Fin n → Get}
    (h : collectAdminResults opId (List.ofFn gets) = some collected) :
    ((∃ i, gets i = .timedOut) ∧ collected = .error "") ∨
      ∃ rs : Fin n → AdminResult, (∀ i, gets i = .took (rs i)) ∧ collected = checkResults opId (List.ofFn rs) := by
  unfold collectAdminResults at h
  split at h
  · next hany =>
    left
    obtain ⟨g, hg, ht⟩ := List.any_eq_true.mp hany
    obtain ⟨i, rfl⟩ := (List.mem_ofFn' _ _).mp hg
    refine ⟨⟨i, ?_⟩, (Option.some.inj h).symm⟩
    revert ht
    cases gets i <;> simp [Get.isTimedOut]
  · right
    obtain ⟨out, hout, rfl⟩ := Option.map_eq_some_iff.mp h
    have hmap := mapM_eq_some.mp hout
    have hlen : n = out.length := by simpa using congrArg List.length hmap
    subst hlen
    refine ⟨out.get, fun i => ?_, by rw [List.ofFn_get]⟩
    have hi := congrArg (·[i.val]?) hmap
    simp only [List.getElem?_map, List.getElem?_ofFn, i.isLt, dif_pos, Option.map_some,
      List.getElem?_eq_getElem i.isLt] at hi
    exact Get.result?_eq_some.mp (Option.some.inj hi)

/-! ### The stage -/

/-- The collects that began. -/
def State.collects (s : State n) : Nat :=
  s.reports.length + match s.phase with
    | .collecting _ _ => 1
    | _ => 0

/-- The operations that are reported, and the one that is not. -/
def State.Progress (s : State n) : Prop :=
  match s.phase with
  | .idle => s.ops.length = s.reports.length ∧ ∀ i, (s.followers i).get = .idle
  | .running op => (∃ earlier, s.ops = earlier ++ [op] ∧ earlier.length = s.reports.length) ∧
      ∀ i, (s.followers i).get = .idle
  | .collecting op _ => ∃ earlier, s.ops = earlier ++ [op] ∧ earlier.length = s.reports.length

/-- What is collected for operation `j` is what the followers answered to it, and the report is a
success when all of that and the leader's own result are. -/
def Report.Matched (r : Report) (s : State n) (j : Nat) : Prop :=
  ∃ rs : Fin n → AdminResult, r.collected = .ok (List.ofFn rs) ∧
    (∀ i, (s.followers i).answered[j]? = some (rs i)) ∧
    ∀ stage role, (r.result stage role).success = true ↔ r.own.success = true ∧ ∀ i, (rs i).success = true

structure Report.Settled (r : Report) (s : State n) (j : Nat) : Prop where
  matched : r.timeouts = 0 → r.Matched s j
  distinct : (s.ops.map (·.opId)).Nodup → ∀ results, r.collected = .ok results → r.timeouts = 0

structure Valid (s : State n) : Prop where
  sound : ∀ i, (s.followers i).Sound s.ops s.collects
  prompt : s.timeouts = 0 → ∀ i, (s.followers i).Prompt s.collects
  progress : s.Progress
  settled : ∀ (j : Nat) (r : Report), s.reports[j]? = some r → r.Settled s j

theorem timeouts_eq_zero : s.timeouts = 0 ↔ ∀ i, (s.followers i).timeouts = 0 := by
  simp [State.timeouts]

/-- A report keeps its standing while the answers and the operations only grow. -/
theorem Report.Settled.grow {r : Report} {s' : State n} {j : Nat} (h : r.Settled s j)
    (hanswered : ∀ i, (s.followers i).answered <+: (s'.followers i).answered) (hops : s.ops <+: s'.ops) :
    r.Settled s' j where
  matched := by
    intro hzero
    obtain ⟨rs, hrs, hall, hsuccess⟩ := h.matched hzero
    exact ⟨rs, hrs, fun i => getElem?_of_prefix (hanswered i) (hall i), hsuccess⟩
  distinct := by
    intro hnodup
    obtain ⟨t, ht⟩ := hops
    rw [← ht, List.map_append] at hnodup
    exact h.distinct (List.nodup_append.mp hnodup).1

theorem Valid.create : Valid (State.create n) where
  sound := by
    exact fun _ => ⟨Nat.le_refl _, rfl, rfl, List.nil_suffix, rfl, (fun _ h => nomatch h), (fun h => nomatch h)⟩
  prompt := by exact fun _ _ => ⟨rfl, fun _ h => nomatch h⟩
  progress := by exact ⟨rfl, fun _ => rfl⟩
  settled := by exact fun j r h => by simp [State.create] at h

theorem Valid.onFollower (h : Valid s) (k : Fin n) {f : Follower → Follower}
    (hf : ∀ w : Follower, w.Sound s.ops s.collects → Turn s.ops s.collects w (f w)) : Valid (s.onFollower k f) := by
  have hturn : ∀ i, Turn s.ops s.collects (s.followers i) ((s.onFollower k f).followers i) := by
    intro i
    by_cases hi : i = k
    · rw [hi]
      simpa [State.onFollower] using hf _ (h.sound k)
    · simpa [State.onFollower, hi] using Turn.refl (h.sound i)
  constructor
  · exact fun i => (hturn i).sound
  · intro hzero i
    rw [timeouts_eq_zero] at hzero
    have hbefore : s.timeouts = 0 :=
      timeouts_eq_zero.mpr fun i => Nat.le_zero.mp ((hzero i) ▸ (hturn i).timeouts)
    exact (hturn i).prompt (hzero i) (h.prompt hbefore i)
  · have hp := h.progress
    unfold State.Progress at hp ⊢
    show match s.phase with
      | .idle => _
      | .running _ => _
      | .collecting _ _ => _
    split at hp
    · exact ⟨hp.1, fun i => (hturn i).idle.mpr (hp.2 i)⟩
    · exact ⟨hp.1, fun i => (hturn i).idle.mpr (hp.2 i)⟩
    · exact hp
  · intro j r hr
    exact (h.settled j r hr).grow (fun i => (hturn i).answered) (List.prefix_refl _)

theorem Valid.admin (h : Valid s) (hp : s.phase = .idle) (op : AdminOperation) :
    Valid (step s (.admin op)) := by
  have hprogress := h.progress
  have hsound := h.sound
  have hprompt := h.prompt
  simp only [State.Progress, State.collects, hp] at hprogress hsound hprompt
  simp only [step, hp]
  constructor
  · exact fun i => (hsound i).assign op
  · exact fun hzero i => ⟨(hprompt hzero i).orphans, (hprompt hzero i).took⟩
  · exact ⟨⟨s.ops, rfl, hprogress.1⟩, hprogress.2⟩
  · exact fun j r hr => (h.settled j r hr).grow (fun _ => List.prefix_refl _) (List.prefix_append _ _)

theorem Valid.ownDone (h : Valid s) (hp : s.phase = .running op)
    (result : AdminResult) : Valid (step s (.ownDone result)) := by
  have hprogress := h.progress
  have hsound := h.sound
  have hprompt := h.prompt
  simp only [State.Progress, State.collects, hp] at hprogress hsound hprompt
  simp only [step, hp]
  constructor
  · exact fun i => (hsound i).await (hprogress.2 i)
  · exact fun hzero i => ⟨(hprompt hzero i).orphans, (fun _ h => nomatch h)⟩
  · exact hprogress.1
  · exact fun j r hr => (h.settled j r hr).grow (fun _ => List.prefix_refl _) (List.prefix_refl _)

/-- The new report. -/
theorem Valid.settles (h : Valid s) {own : AdminResult} (hp : s.phase = .collecting op own)
    (hc : collectAdminResults op.opId s.gets = some collected) :
    (⟨op, own, collected, s.timeouts⟩ : Report).Settled s s.reports.length := by
  have hprogress := h.progress
  have hsound := h.sound
  have hprompt := h.prompt
  simp only [State.Progress, State.collects, hp] at hprogress hsound hprompt
  obtain ⟨earlier, hops, hlen⟩ := hprogress
  have hop : s.ops[s.reports.length]? = some op := by
    rw [hops, ← hlen, List.getElem?_append_right (Nat.le_refl _), Nat.sub_self]
    rfl
  -- the id of an answer is the id of the operation at its place
  have hid : ∀ (i : Fin n) (j : Nat) (r : AdminResult), (s.followers i).answered[j]? = some r →
    (s.ops.map (·.opId))[j]? = some r.opId := by
    intro i j r hr
    have hlt := (List.getElem?_eq_some_iff.mp hr).1
    have hids := congrArg (·[j]?) (hsound i).ids
    simp only [List.getElem?_map, List.getElem?_take_of_lt hlt, hr, Option.map_some] at hids
    rw [List.getElem?_map, ← hids]
  obtain ⟨⟨i, hi⟩, rfl⟩ | ⟨rs, hrs, rfl⟩ := collect_cases hc
  · constructor
    · intro hzero
      have hpos := (hsound i).timedOut hi
      rw [timeouts_eq_zero.mp hzero i] at hpos
      cases hpos
    · exact fun _ _ h => nomatch h
  · constructor
    · intro hzero
      have hanswered : ∀ i, (s.followers i).answered[s.reports.length]? = some (rs i) :=
        fun i => (hprompt hzero i).took _ (hrs i)
      have hok : checkResults op.opId (List.ofFn rs) = .ok (List.ofFn rs) := by
        refine checkResults_eq_ok.mpr ⟨rfl, fun r hr => ?_⟩
        obtain ⟨i, rfl⟩ := (List.mem_ofFn' _ _).mp hr
        have := hid i _ _ (hanswered i)
        rw [List.getElem?_map, hop] at this
        exact (Option.some.inj this).symm
      refine ⟨rs, hok, hanswered, fun stage role => ?_⟩
      simp [Report.result, Report.rankResults, Report.local, hok]
    · intro hnodup results hresults
      obtain ⟨-, hall⟩ := checkResults_eq_ok.mp hresults
      refine timeouts_eq_zero.mpr fun i => ?_
      obtain ⟨j, hj, hlt⟩ := (hsound i).took _ (hrs i)
      have hsame := hall (rs i) ((List.mem_ofFn' _ _).mpr ⟨i, rfl⟩)
      have hj' := hid i j _ hj
      have hn : (s.ops.map (·.opId))[s.reports.length]? = some (rs i).opId := by
        rw [List.getElem?_map, hop, hsame]
        rfl
      have hjn : j = s.reports.length :=
        (List.getElem?_inj (List.getElem?_eq_some_iff.mp hj').1 hnodup).mp (hj'.trans hn.symm)
      omega

theorem Valid.gathered (h : Valid s) {own : AdminResult} (hp : s.phase = .collecting op own)
    (hc : collectAdminResults op.opId s.gets = some collected) : Valid (report s op own collected) := by
  have hsettles := h.settles hp hc
  have hprogress := h.progress
  have hsound := h.sound
  have hprompt := h.prompt
  simp only [State.Progress, State.collects, hp] at hprogress hsound hprompt
  have hanswered : ∀ i, (s.followers i).answered <+: ((report s op own collected).followers i).answered :=
    fun i => by
      show _ <+: (s.followers i).abandon.answered
      rw [Follower.abandon_answered]
  have hlen : (report s op own collected).reports.length = s.reports.length + 1 := by
    simp [report, State.onFollowers]
  have hstarted : (report s op own collected).collects = s.reports.length + 1 := by
    rw [State.collects, hlen]
    rfl
  constructor
  · intro i
    rw [hstarted]
    exact (hsound i).abandon
  · intro hzero i
    have hbefore : s.timeouts = 0 := by
      refine timeouts_eq_zero.mpr fun i => ?_
      have := timeouts_eq_zero.mp hzero i
      exact (Follower.abandon_timeouts _).symm.trans this
    refine ⟨?_, fun r hr => ?_⟩
    · show (s.followers i).abandon.orphans = 0
      have horphans := (hprompt hbefore i).orphans
      obtain ⟨⟨k, hk⟩, -⟩ | ⟨rs, hrs, -⟩ := collect_cases hc
      · have hpos := (hsound k).timedOut hk
        rw [timeouts_eq_zero.mp hbefore k] at hpos
        cases hpos
      · simp only [Follower.abandon, hrs i]
        exact horphans
    · have : (s.followers i).abandon.get = .took r := hr
      rw [Follower.abandon_get] at this
      cases this
  · obtain ⟨earlier, hops, hlen'⟩ := hprogress
    refine ⟨?_, fun i => Follower.abandon_get _⟩
    show s.ops.length = _
    rw [hlen, hops, List.length_append, hlen']
    rfl
  · intro j r hr
    have hr' : (s.reports ++ [(⟨op, own, collected, s.timeouts⟩ : Report)])[j]? = some r := hr
    by_cases hj : j < s.reports.length
    · rw [List.getElem?_append_left hj] at hr'
      exact (h.settled j r hr').grow hanswered (List.prefix_refl _)
    · have hlt := (List.getElem?_eq_some_iff.mp hr').1
      rw [List.length_append, List.length_singleton] at hlt
      obtain rfl : j = s.reports.length := by omega
      rw [List.getElem?_append_right (Nat.le_refl _), Nat.sub_self] at hr'
      cases hr'
      exact hsettles.grow hanswered (List.prefix_refl _)

theorem Valid.step (h : Valid s) (e : Event n) : Valid (step s e) := by
  cases e with
  | admin op =>
    cases hp : s.phase with
    | idle => exact h.admin hp op
    | _ => simpa only [TpControl.step, hp] using h
  | ownDone result =>
    cases hp : s.phase with
    | running op => exact h.ownDone hp result
    | _ => simpa only [TpControl.step, hp] using h
  | answer k result => exact h.onFollower k fun _ hw => .answer hw result
  | take k => exact h.onFollower k fun _ hw => .take hw
  | expire k => exact h.onFollower k fun _ hw => .expire hw
  | orphanTake k => exact h.onFollower k fun _ hw => .orphanTake hw
  | orphanExpire k => exact h.onFollower k fun _ hw => .orphanExpire hw
  | gathered =>
    cases hp : s.phase with
    | collecting op own =>
      simp only [TpControl.step, hp]
      cases hc : collectAdminResults op.opId s.gets with
      | none => exact h
      | some collected => exact h.gathered hp hc
    | _ => simpa only [TpControl.step, hp] using h

theorem valid_run (events : List (Event n)) : Valid (run (State.create n) events) := by
  have hrun : ∀ s : State n, Valid s → Valid (run s events) := by
    induction events with
    | nil => exact fun _ h => h
    | cons e rest ih => exact fun s h => ih _ (h.step e)
  exact hrun _ .create

/-- **Results stay matched to their operation just until a wait runs out**: in every run of operations with
distinct ids, an operation is reported with exactly the followers' answers to it when no `get` of its
collect or of an earlier one has timed out, and with an error otherwise; and a stage where none has
leaves no result behind. -/
theorem admin_results_matched_iff (events : List (Event n)) (s : State n) (hs : run (State.create n) events = s)
    (hids : (s.ops.map (·.opId)).Nodup) :
    (∀ (j : Nat) (r : Report), s.reports[j]? = some r → (r.Matched s j ↔ r.timeouts = 0)) ∧
      (s.phase = .idle → s.timeouts = 0 → ∀ i, (s.followers i).results = []) := by
  have h := valid_run events
  rw [hs] at h
  constructor
  · intro j r hr
    have hsettled := h.settled j r hr
    exact ⟨fun ⟨_, hok, _⟩ => hsettled.distinct hids _ hok, hsettled.matched⟩
  · intro hp hzero i
    have hsound := h.sound i
    have hprogress := h.progress
    have horphans := (h.prompt hzero i).orphans
    have hto := timeouts_eq_zero.mp hzero i
    simp only [State.Progress, State.collects, hp] at hprogress hsound
    have hb := hsound.balance
    have hle := hsound.answered_le
    rw [hprogress.2 i] at hb
    simp only [Get.waiting] at hb
    exact List.length_eq_zero_iff.mp (by omega)

/-- A result that says that all went well. -/
def resultOk : AdminResult := ⟨"", "talker", "", true, "ok", [], .none, .int 1, .str "follower"⟩

def operation (opId : String) : AdminOperation := ⟨opId, "pause_generation", [], none, .none⟩

/-- The follower answers the first operation when its collect is over, and the second in time. -/
def lateRun : List (Event 1) :=
  [.admin (operation "a"), .ownDone resultOk, .expire 0, .gathered, .answer 0 resultOk,
    .admin (operation "b"), .ownDone resultOk, .answer 0 resultOk, .take 0, .gathered]

theorem admin_results_matched_lateRun :
    (run (State.create 1) lateRun).reports.length = 2 ∧
      ∀ (j : Nat) (r : Report), (run (State.create 1) lateRun).reports[j]? = some r →
        (r.Matched (run (State.create 1) lateRun) j ↔ r.timeouts = 0) :=
  ⟨rfl, (admin_results_matched_iff lateRun _ rfl (by decide +kernel)).1⟩

/-- The second operation finds the answer to the first and is reported as a failure, and its own
answer stays behind. -/
theorem late_answer_fails_next :
    (run (State.create 1) (lateRun.take 8)).gets.any Get.isTimedOut = false ∧
      (run (State.create 1) lateRun).reports.map (fun r => (r.result "talker" .none).message) =
        ["failed to collect TP follower admin results", "Unexpected TP follower admin op id: a != b"] ∧
      (run (State.create 1) lateRun).reports.map (fun r => (r.result "talker" .none).success) = [false, false] ∧
      ((run (State.create 1) lateRun).followers 0).answered.map (·.success) = [true, true] ∧
      ((run (State.create 1) lateRun).followers 0).results.map (·.opId) = ["b"] := by
  decide +kernel

end SglangOmni.Pipeline.TpControl
