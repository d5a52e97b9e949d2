import SglangOmni.Router.CountersView

/-! Every completion is counted once.

The reports that the control plane took last, and what it kept of earlier ones, make up what the data plane had recorded
when the last of them was built: an object that it does not name has not changed since it was last reported. -/
namespace SglangOmni.Router.Counting
open Lib

namespace State

variable {dpIndex generation : Nat} {s : State} {f : Flush} {ledger : Ledger}

/-- An incarnation is of one object, which is the worker as long as it is listed. -/
structure Registered (s : State) : Prop where
  registry : ∀ url n, s.registry.get? url = some n → n < s.drawn
  file : ∀ d, s.file = some d → ∀ url n, d.get? url = some n → n < s.drawn
  objects : ∀ o n, o < s.view.created → (s.view.objects o).incarnation = .registered n → n < s.drawn
  listed : ∀ d, s.file = some d → ∀ url n, d.get? url = some n → s.view.Unused ⟨url, some n⟩
  published : ∀ url n o, s.registry.get? url = some n → o < s.view.created → (s.view.objects o).url = url →
    (s.view.objects o).incarnation = .registered n → ∃ d, s.file = some d ∧ d.get? url = some n

/-- What the reports that were posted say of the view. -/
structure Flushed (s : State) : Prop where
  fits : ∀ f ∈ s.flushes, f.view.Fits
  moves : ∀ f ∈ s.flushes, View.Moves f.view s.view
  seq : ∀ f ∈ s.flushes, f.counterSeq ≤ s.counterSeq
  order : ∀ f ∈ s.flushes, ∀ f' ∈ s.flushes, f.counterSeq ≤ f'.counterSeq → View.Moves f.view f'.view
  accepted : ∀ f ∈ s.accepted, f ∈ s.flushes
  /-- What the view let go of had counted nothing, or was reported to its end, or was gone before this control plane. -/
  gone : ∀ o, o < s.view.created → o ∉ s.view.reportable →
    (∀ c, (s.view.objects o).counts c = 0) ∨ (∃ f ∈ s.accepted, o ∈ f.view.drainedRetired) ∨
      s.restarted = true ∧ ∀ f ∈ s.flushes, o < f.view.created ∧ o ∉ f.view.reportable

/-- The ledger has taken no report yet. -/
structure Unmet (dpIndex generation : Nat) (s : State) : Prop where
  entry : ∀ entry, s.ledger.entries.get? dpIndex = some entry → entry.generation < generation
  accepted : s.accepted = []
  totals : ∀ id c, s.ledger.totals id c = s.origin.totals id c
  seen : s.restarted = true → dpIndex ∉ s.ledger.seenDps

/-- The report that the ledger took last, and what it has of it. -/
structure Met (dpIndex generation : Nat) (s : State) (base : View) (last : Flush) (entry : LedgerEntry) : Prop where
  mem : last ∈ s.accepted
  latest : ∀ f ∈ s.accepted, f.counterSeq ≤ last.counterSeq
  found : s.ledger.entries.get? dpIndex = some entry
  same : entry.generation = generation
  at_last : entry.counterSeq = last.counterSeq
  seen : dpIndex ∈ s.ledger.seenDps
  since : View.Moves base last.view
  totals : ∀ id c, s.ledger.totals id c + base.recorded id c = s.origin.totals id c + last.view.recorded id c
  segment : ∀ o ∈ last.view.reportable, ∃ g, Ledger.segmentAt entry.perWorker (last.view.itemOf o).key = some g ∧
    (∀ c, g.baseline c = base.countsAt o c) ∧ ∀ c, g.highWater c = last.view.countsAt o c
  other : ∀ key, (∀ o ∈ last.view.reportable, (last.view.itemOf o).key ≠ key) →
    Ledger.segmentAt entry.perWorker key = none

def Books (dpIndex generation : Nat) (s : State) : Prop :=
  match s.base with
  | none => Unmet dpIndex generation s
  | some base => ∃ last entry, Met dpIndex generation s base last entry

structure Inv (dpIndex generation : Nat) (s : State) : Prop where
  fits : s.view.Fits
  registered : Registered s
  flushed : Flushed s
  books : Books dpIndex generation s

/-- An object that a report does not name has not changed since the report that was taken last. -/
theorem Flushed.unreported (h : Flushed s) {last : Flush} (hlast : last ∈ s.accepted)
    (latest : ∀ f' ∈ s.accepted, f'.counterSeq ≤ last.counterSeq) (hf : f ∈ s.flushes)
    (newer : last.counterSeq ≤ f.counterSeq) {o : Nat} (created : o < f.view.created) (gone : o ∉ f.view.reportable)
    (c : Counter) : last.view.countsAt o c = f.view.countsAt o c := by
  have hmoves := h.moves f hf
  have hlastFlush := h.accepted last hlast
  have hle := View.countsAt_le (h.order last hlastFlush f hf newer) o c
  have hle' := View.countsAt_le hmoves o c
  have hcreated : o < s.view.created := Nat.lt_of_lt_of_le created hmoves.created
  have hnow : s.view.countsAt o c = (s.view.objects o).counts c := if_pos hcreated
  cases h.gone o hcreated (hmoves.gone o created gone) with
  | inl hzero =>
    have := hzero c
    omega
  | inr hrest =>
    cases hrest with
    | inl hdrained =>
      -- Its final counts were in a report that was taken, and none of those is later than the last.
      obtain ⟨f', hf', ho⟩ := hdrained
      have hflush' := h.accepted f' hf'
      have hsettled := (h.fits f' hflush').settled_of_drained ho
      have hcounts := ((h.moves f' hflush').settled o hsettled).2
      have hpast := View.countsAt_le (h.order f' hflush' last hlastFlush (latest f' hf')) o c
      have hthen : f'.view.countsAt o c = (f'.view.objects o).counts c := if_pos hsettled.created
      rw [← hcounts] at hthen
      omega
    | inr hbefore =>
      obtain ⟨hlt, hnot⟩ := hbefore.2 last hlastFlush
      have hsettled := (h.fits last hlastFlush).settled hlt hnot
      have hcounts := ((h.order last hlastFlush f hf newer).settled o hsettled).2
      rw [View.countsAt, View.countsAt, if_pos hlt, if_pos created, hcounts]

/-- What a report that is taken adds to the total, when the ledger had of each object what `before` says, counted from
what `base` says. -/
theorem totals_taken (fits : f.view.Fits) {after : Ledger}
    (taken : Ledger.Taken ledger (f.report dpIndex generation) after) (base : View) (before : Nat → Nat) (c : Counter)
    (old : ∀ o ∈ f.view.reportable,
      Ledger.contributionOf (ledger.known (f.report dpIndex generation) (f.view.itemOf o).key) c =
        before o - base.countsAt o c) (new : ∀ o ∈ f.view.reportable,
      (renew (ledger.firstContact (f.report dpIndex generation))
        (ledger.known (f.report dpIndex generation) (f.view.itemOf o).key) (f.view.itemOf o)).contribution c =
        f.view.countsAt o c - base.countsAt o c)
    (low : ∀ o, base.countsAt o c ≤ before o) (high : ∀ o, before o ≤ f.view.countsAt o c)
    (unreported : ∀ o, o < f.view.created → o ∉ f.view.reportable → before o = f.view.countsAt o c) (id : String) :
    after.totals id c + f.view.sumOf id before = ledger.totals id c + f.view.recorded id c := by
  have htotals := taken.totals id c
  have hworkers : (f.report dpIndex generation).workers = f.view.reportable.map f.view.itemOf := rfl
  rw [hworkers, View.reportedOf_eq, View.reportedOf_eq, View.sumReported_congr old,
    View.sumReported_congr new] at htotals
  have hexchange := View.sum_exchange fits id unreported
  rw [View.sumOf_recorded (View.Moves.refl f.view)] at hexchange
  have hbefore := View.sumReported_add f.view id (fun o => before o - base.countsAt o c) (fun o => base.countsAt o c)
  have hafter := View.sumReported_add f.view id (fun o => f.view.countsAt o c - base.countsAt o c)
    (fun o => base.countsAt o c)
  have hcancel : ∀ o, before o - base.countsAt o c + base.countsAt o c = before o := fun o =>
    Nat.sub_add_cancel (low o)
  have hcancel' : ∀ o, f.view.countsAt o c - base.countsAt o c + base.countsAt o c = f.view.countsAt o c := fun o =>
    Nat.sub_add_cancel (Nat.le_trans (low o) (high o))
  simp only [hcancel] at hbefore
  simp only [hcancel'] at hafter
  change f.view.sumReported id before = _ at hbefore
  omega

theorem moves_empty (v : View) : View.Moves {} v where
  created := Nat.zero_le _
  same o ho := absurd ho (Nat.not_lt_zero o)
  settled o ho := absurd ho.created (Nat.not_lt_zero o)
  gone o ho := absurd ho (Nat.not_lt_zero o)

theorem baseFor_moves (dpIndex generation : Nat) (s : State) (f : Flush) :
    View.Moves (s.baseFor dpIndex generation f) f.view := by
  unfold baseFor
  split
  · exact View.Moves.refl _
  · exact moves_empty _

theorem countsAt_reportable {v : View} (fits : v.Fits) {o : Nat} (ho : o ∈ v.reportable) (c : Counter) :
    v.countsAt o c = (v.itemOf o).counts c :=
  if_pos (fits.lt_of_reportable ho)

/-- The segment of an object that the ledger did not know. -/
theorem renew_none (fits : f.view.Fits) (s : State) {o : Nat} (ho : o ∈ f.view.reportable) (c : Counter) :
    (renew (s.ledger.firstContact (f.report dpIndex generation)) none (f.view.itemOf o)).baseline c =
        (s.baseFor dpIndex generation f).countsAt o c ∧
      (renew (s.ledger.firstContact (f.report dpIndex generation)) none (f.view.itemOf o)).highWater c =
        f.view.countsAt o c := by
  rw [countsAt_reportable fits ho]
  refine ⟨?_, rfl⟩
  simp only [renew, baseFor]
  split
  · rw [countsAt_reportable fits ho]
  · rfl

/-- A segment that was told of has its base and its height. -/
theorem contribution_eq {g : Segment} {c : Counter} {base height : Nat} (hbase : g.baseline c = base)
    (hheight : g.highWater c = height) : g.contribution c = height - base := by
  rw [Segment.contribution, hbase, hheight]

/-- Before the ledger has taken a report, the view has let go of nothing that the ledger would have to know of. -/
theorem Flushed.unreported_first (h : Flushed s) (books : Unmet dpIndex generation s) (hf : f ∈ s.flushes)
    {o : Nat} (created : o < f.view.created) (gone : o ∉ f.view.reportable) (c : Counter) :
    (s.baseFor dpIndex generation f).countsAt o c = f.view.countsAt o c := by
  unfold baseFor
  split
  · rfl
  · next hcontact =>
    have hseen : dpIndex ∈ s.ledger.seenDps := by
      have hnot : ¬ dpIndex ∉ s.ledger.seenDps := fun hnot => hcontact (decide_eq_true hnot)
      exact Decidable.not_not.mp hnot
    have hmoves := h.moves f hf
    have hle := View.countsAt_le hmoves o c
    have hcreated : o < s.view.created := Nat.lt_of_lt_of_le created hmoves.created
    have hnow : s.view.countsAt o c = (s.view.objects o).counts c := if_pos hcreated
    have hempty : View.countsAt {} o c = 0 := rfl
    cases h.gone o hcreated (hmoves.gone o created gone) with
    | inl hzero =>
      have := hzero c
      omega
    | inr hrest =>
      cases hrest with
      | inl hdrained =>
        obtain ⟨f', hf', _⟩ := hdrained
        rw [books.accepted] at hf'
        cases hf'
      | inr hbefore => exact absurd hseen (books.seen hbefore.1)

theorem accept_first (h : Flushed s) (books : Unmet dpIndex generation s) (hf : f ∈ s.flushes)
    (taken : Ledger.Taken s.ledger (f.report dpIndex generation) ledger) :
    ∃ entry, Met dpIndex generation
      { s with ledger := ledger, accepted := s.accepted ++ [f], base := some (s.baseFor dpIndex generation f) }
      (s.baseFor dpIndex generation f) f entry := by
  have hfits := h.fits f hf
  have hmoves := baseFor_moves dpIndex generation s f
  have hknown : ∀ key, s.ledger.known (f.report dpIndex generation) key = none := fun key => by
    unfold Ledger.known
    cases hentry : s.ledger.entries.get? (f.report dpIndex generation).dpIndex with
    | none => rfl
    | some entry => exact if_pos (books.entry entry hentry)
  obtain ⟨entry, hentry, hgeneration, hseq, hsegment, hother⟩ := taken.entry
  have hlast : s.accepted ++ [f] = [f] := by rw [books.accepted, List.nil_append]
  refine ⟨entry, ⟨List.mem_append_right _ (List.mem_singleton_self f), fun f' hf' => ?_, hentry, hgeneration, hseq,
    taken.seen, hmoves, fun id c => ?_, fun o ho => ?_, fun key hkey => hother key fun item hitem => ?_⟩⟩
  · simp only [hlast] at hf'
    rw [List.mem_singleton.mp hf']
  · have htotals := totals_taken hfits taken (s.baseFor dpIndex generation f)
      (fun o => (s.baseFor dpIndex generation f).countsAt o c) c
      (fun o _ => by rw [hknown, Nat.sub_self]; rfl)
      (fun o ho => by
        rw [hknown]
        exact contribution_eq (renew_none hfits s ho c).1 (renew_none hfits s ho c).2)
      (fun _ => Nat.le_refl _) (fun o => View.countsAt_le hmoves o c)
      (fun o hlt hgone => h.unreported_first books hf hlt hgone c) id
    rw [View.sumOf_recorded hmoves] at htotals
    exact htotals.trans (by rw [books.totals])
  · have hitem : f.view.itemOf o ∈ (f.report dpIndex generation).workers := List.mem_map_of_mem ho
    refine ⟨_, hsegment _ hitem, fun c => ?_, fun c => ?_⟩
    · rw [hknown]
      exact (renew_none hfits s ho c).1
    · rw [hknown]
      exact (renew_none hfits s ho c).2
  · obtain ⟨o, ho, heq⟩ := List.mem_map.mp hitem
    exact heq ▸ hkey o ho

theorem accept_next (h : Flushed s) {base : View} {last : Flush} {entry : LedgerEntry}
    (books : Met dpIndex generation s base last entry) (hf : f ∈ s.flushes)
    (taken : Ledger.Taken s.ledger (f.report dpIndex generation) ledger) :
    ∃ entry', Met dpIndex generation { s with ledger := ledger, accepted := s.accepted ++ [f], base := some base }
      base f entry' := by
  have hfits := h.fits f hf
  have hlastFlush := h.accepted last books.mem
  have hnewer : last.counterSeq < f.counterSeq := by
    cases taken.newer entry books.found with
    | inl hgeneration =>
      have hsame : entry.generation = (f.report dpIndex generation).generation := books.same
      omega
    | inr hseq =>
      rw [books.at_last] at hseq
      exact hseq.2
  have hmoves := h.order last hlastFlush f hf (Nat.le_of_lt hnewer)
  have hcontact : s.ledger.firstContact (f.report dpIndex generation) = false := by
    have hseen : (f.report dpIndex generation).dpIndex ∈ s.ledger.seenDps := books.seen
    simp only [Ledger.firstContact, hseen, not_true_eq_false, decide_false]
  have hknown : ∀ key, s.ledger.known (f.report dpIndex generation) key = Ledger.segmentAt entry.perWorker key :=
    fun key => by
      have hfound : s.ledger.entries.get? (f.report dpIndex generation).dpIndex = some entry := books.found
      have hnot : ¬ entry.generation < (f.report dpIndex generation).generation := by
        have hsame : entry.generation = (f.report dpIndex generation).generation := books.same
        omega
      simp only [Ledger.known, hfound, if_neg hnot]
  -- What the ledger has of an object is what the last report said of it, if it was there.
  have hrenew : ∀ o ∈ f.view.reportable, ∀ c,
      Ledger.contributionOf (Ledger.segmentAt entry.perWorker (f.view.itemOf o).key) c =
        last.view.countsAt o c - base.countsAt o c ∧
      (renew false (Ledger.segmentAt entry.perWorker (f.view.itemOf o).key) (f.view.itemOf o)).baseline c =
        base.countsAt o c ∧
      (renew false (Ledger.segmentAt entry.perWorker (f.view.itemOf o).key) (f.view.itemOf o)).highWater c =
        f.view.countsAt o c := fun o ho c => by
    by_cases hold : o < last.view.created
    · have hreported : o ∈ last.view.reportable := by
        by_cases hmem : o ∈ last.view.reportable
        · exact hmem
        · exact absurd ho (hmoves.gone o hold hmem)
      have hkey : (f.view.itemOf o).key = (last.view.itemOf o).key :=
        Prod.ext (hmoves.same o hold).1 (hmoves.same o hold).2.1
      obtain ⟨g, hg, hbaseline, hheight⟩ := books.segment o hreported
      rw [hkey, hg]
      refine ⟨contribution_eq (hbaseline c) (hheight c), hbaseline c, ?_⟩
      have hle := View.countsAt_le hmoves o c
      rw [countsAt_reportable hfits ho] at hle ⊢
      simp only [renew, hheight]
      omega
    · have hnone : Ledger.segmentAt entry.perWorker (f.view.itemOf o).key = none := by
        refine books.other _ fun o' ho' heq => hold ?_
        have hlt' := (h.fits last hlastFlush).lt_of_reportable ho'
        have hsame := hmoves.same o' hlt'
        have hurl : (f.view.objects o').url = (f.view.objects o).url := hsame.1.trans (congrArg Prod.fst heq)
        have hincarnation : (f.view.objects o').incarnation = (f.view.objects o).incarnation :=
          hsame.2.1.trans (congrArg Prod.snd heq)
        have hobject := hfits.distinct o' o (Nat.lt_of_lt_of_le hlt' hmoves.created) (hfits.lt_of_reportable ho) hurl
          hincarnation
        exact hobject ▸ hlt'
      have hlast : last.view.countsAt o c = 0 := if_neg hold
      have hbase : base.countsAt o c = 0 := if_neg fun hlt => hold (Nat.lt_of_lt_of_le hlt books.since.created)
      rw [hnone, hlast, hbase, countsAt_reportable hfits ho]
      exact ⟨rfl, rfl, rfl⟩
  obtain ⟨entry', hentry, hgeneration, hseq, hsegment, hother⟩ := taken.entry
  refine ⟨entry', ⟨List.mem_append_right _ (List.mem_singleton_self f), fun f' hf' => ?_, hentry, hgeneration, hseq,
    taken.seen, books.since.trans hmoves, fun id c => ?_, fun o ho => ?_,
    fun key hkey => hother key fun item hitem => ?_⟩⟩
  · cases List.mem_append.mp hf' with
    | inl hold => exact Nat.le_trans (books.latest f' hold) (Nat.le_of_lt hnewer)
    | inr hnew => rw [List.mem_singleton.mp hnew]
  · have htotals := totals_taken hfits taken base (fun o => last.view.countsAt o c) c
      (fun o ho => by
        rw [hknown]
        exact (hrenew o ho c).1)
      (fun o ho => by
        rw [hknown, hcontact]
        exact contribution_eq (hrenew o ho c).2.1 (hrenew o ho c).2.2)
      (fun o => View.countsAt_le books.since o c) (fun o => View.countsAt_le hmoves o c)
      (fun o hlt hgone => h.unreported books.mem books.latest hf (Nat.le_of_lt hnewer) hlt hgone c) id
    rw [View.sumOf_recorded hmoves] at htotals
    have hbooks := books.totals id c
    simp only
    omega
  · have hitem : f.view.itemOf o ∈ (f.report dpIndex generation).workers := List.mem_map_of_mem ho
    refine ⟨_, hsegment _ hitem, fun c => ?_, fun c => ?_⟩
    · rw [hknown, hcontact]
      exact (hrenew o ho c).2.1
    · rw [hknown, hcontact]
      exact (hrenew o ho c).2.2
  · obtain ⟨o, ho, heq⟩ := List.mem_map.mp hitem
    exact heq ▸ hkey o ho

/-! ### Steps -/

theorem Registered.moved (h : Registered s) {v : View} (moves : View.Moves s.view v)
    (created : v.created = s.view.created)
    (workers : v.workers = s.view.workers) : Registered { s with view := v } := by
  refine ⟨h.registry, h.file, fun o n ho hn => ?_, fun d hd url n hget m o hm ho hurl hincarnation => ?_,
    fun url n o hget ho hurl hincarnation => ?_⟩
  · have ho' : o < s.view.created := created ▸ ho
    exact h.objects o n ho' ((moves.same o ho').2.1 ▸ hn)
  · have ho' : o < s.view.created := created ▸ ho
    rw [(moves.same o ho').1] at hurl
    rw [(moves.same o ho').2.1] at hincarnation
    simp only [workers]
    exact h.listed d hd url n hget m o hm ho' hurl hincarnation
  · have ho' : o < s.view.created := created ▸ ho
    rw [(moves.same o ho').1] at hurl
    rw [(moves.same o ho').2.1] at hincarnation
    exact h.published url n o hget ho' hurl hincarnation

theorem Flushed.moved (h : Flushed s) (fits : s.view.Fits) {v : View} (moves : View.Moves s.view v)
    (gone : ∀ o, o < v.created → o ∉ v.reportable → o < s.view.created ∧ o ∉ s.view.reportable ∨
      (∀ c, (v.objects o).counts c = 0) ∨ ∃ f ∈ s.accepted, o ∈ f.view.drainedRetired) :
    Flushed { s with view := v } := by
  refine ⟨h.fits, fun f hf => (h.moves f hf).trans moves, h.seq, h.order, h.accepted, fun o ho hgone => ?_⟩
  cases gone o ho hgone with
  | inr hnew =>
    cases hnew with
    | inl hzero => exact .inl hzero
    | inr hdrained => exact .inr (.inl hdrained)
  | inl hbefore =>
    have hcounts := (moves.settled o (fits.settled hbefore.1 hbefore.2)).2
    cases h.gone o hbefore.1 hbefore.2 with
    | inl hzero => exact .inl fun c => by simp only [hcounts, hzero c]
    | inr hrest => exact .inr hrest

/-- The books do not look at the view. -/
theorem Books.frame {s' : State} (h : Books dpIndex generation s) (ledger : s'.ledger = s.ledger)
    (accepted : s'.accepted = s.accepted) (origin : s'.origin = s.origin) (base : s'.base = s.base)
    (restarted : s'.restarted = s.restarted) : Books dpIndex generation s' := by
  unfold Books at h ⊢
  rw [base]
  cases hbase : s.base with
  | none =>
    simp only [hbase] at h ⊢
    exact ⟨ledger ▸ h.entry, accepted ▸ h.accepted, by rw [ledger, origin]; exact h.totals,
      by rw [ledger, restarted]; exact h.seen⟩
  | some b =>
    simp only [hbase] at h ⊢
    obtain ⟨last, entry, hmet⟩ := h
    exact ⟨last, entry, ⟨accepted ▸ hmet.mem, accepted ▸ hmet.latest, ledger ▸ hmet.found, hmet.same, hmet.at_last,
      ledger ▸ hmet.seen, hmet.since, by rw [ledger, origin]; exact hmet.totals, hmet.segment, hmet.other⟩⟩

section
variable (h : Inv dpIndex generation s)
include h

theorem Inv.request {v : View} (hstep : View.RequestStep s.view v) :
    Inv dpIndex generation { s with view := v } := by
  obtain ⟨hfits, hmoves, hreportable, hworkers, hcreated⟩ := hstep
  refine ⟨hfits, h.registered.moved hmoves hcreated hworkers, h.flushed.moved h.fits hmoves fun o ho hgone => .inl ?_,
    h.books.frame rfl rfl rfl rfl rfl⟩
  exact ⟨hcreated ▸ ho, hreportable ▸ hgone⟩

theorem inv_acknowledge (k : Nat) :
    Inv dpIndex generation (s.step dpIndex generation (.acknowledge k)) := by
  simp only [step]
  split
  · exact h
  · next f hf =>
    have haccepted := List.mem_of_getElem? hf
    have hflush := h.flushed.accepted f haccepted
    have hsettled : ∀ o ∈ f.view.drainedRetired, s.view.Settled o := fun o ho =>
      ((h.flushed.moves f hflush).settled o ((h.flushed.fits f hflush).settled_of_drained ho)).1
    obtain ⟨hfits, hmoves, hgone⟩ := View.releaseRetired_step h.fits hsettled
    refine ⟨hfits, h.registered.moved hmoves rfl rfl, h.flushed.moved h.fits hmoves fun o ho hnot => ?_,
      h.books.frame rfl rfl rfl rfl rfl⟩
    cases hgone o hnot with
    | inl hbefore => exact .inl ⟨ho, hbefore⟩
    | inr hdrained => exact .inr (.inr ⟨f, haccepted, hdrained⟩)

theorem inv_flush : Inv dpIndex generation (s.step dpIndex generation .flush) := by
  have hseq : ∀ f ∈ s.flushes, f.counterSeq ≤ s.counterSeq + 1 := fun f hf =>
    Nat.le_succ_of_le (h.flushed.seq f hf)
  refine ⟨h.fits, ⟨h.registered.registry, h.registered.file, h.registered.objects, h.registered.listed,
    h.registered.published⟩, ⟨fun f hf => ?_, fun f hf => ?_, fun f hf => ?_, fun f hf f' hf' hle => ?_,
    fun f hf => List.mem_append_left _ (h.flushed.accepted f hf), fun o ho hgone => ?_⟩,
    h.books.frame rfl rfl rfl rfl rfl⟩
  · cases List.mem_append.mp hf with
    | inl hold => exact h.flushed.fits f hold
    | inr hnew => exact (List.mem_singleton.mp hnew) ▸ h.fits
  · cases List.mem_append.mp hf with
    | inl hold => exact h.flushed.moves f hold
    | inr hnew => exact (List.mem_singleton.mp hnew) ▸ View.Moves.refl _
  · cases List.mem_append.mp hf with
    | inl hold => exact hseq f hold
    | inr hnew => exact (List.mem_singleton.mp hnew) ▸ Nat.le_refl _
  · cases List.mem_append.mp hf with
    | inl hold =>
      cases List.mem_append.mp hf' with
      | inl hold' => exact h.flushed.order f hold f' hold' hle
      | inr hnew' => exact (List.mem_singleton.mp hnew') ▸ h.flushed.moves f hold
    | inr hnew =>
      rw [List.mem_singleton.mp hnew] at hle ⊢
      cases List.mem_append.mp hf' with
      | inl hold' =>
        have hbefore := h.flushed.seq f' hold'
        simp only at hle
        omega
      | inr hnew' => exact (List.mem_singleton.mp hnew') ▸ View.Moves.refl _
  · cases h.flushed.gone o ho hgone with
    | inl hzero => exact .inl hzero
    | inr hrest =>
      cases hrest with
      | inl hdrained => exact .inr (.inl hdrained)
      | inr hbefore =>
        refine .inr (.inr ⟨hbefore.1, fun f hf => ?_⟩)
        cases List.mem_append.mp hf with
        | inl hold => exact hbefore.2 f hold
        | inr hnew => exact (List.mem_singleton.mp hnew) ▸ ⟨ho, hgone⟩

theorem inv_deliver (k : Nat) :
    Inv dpIndex generation (s.step dpIndex generation (.deliver k)) := by
  simp only [step]
  split
  · exact h
  · next f hf =>
    split
    · next ledger happly =>
      have hflush := List.mem_of_getElem? hf
      have htaken := Ledger.taken_of_apply happly (h.flushed.fits f hflush).keys_nodup
      refine ⟨h.fits, ⟨h.registered.registry, h.registered.file, h.registered.objects, h.registered.listed,
        h.registered.published⟩, ⟨h.flushed.fits, h.flushed.moves, h.flushed.seq, h.flushed.order, fun f' hf' => ?_,
        fun o ho hgone => ?_⟩, ?_⟩
      · cases List.mem_append.mp hf' with
        | inl hold => exact h.flushed.accepted f' hold
        | inr hnew => exact (List.mem_singleton.mp hnew) ▸ hflush
      · cases h.flushed.gone o ho hgone with
        | inl hzero => exact .inl hzero
        | inr hrest =>
          cases hrest with
          | inl hdrained =>
            obtain ⟨f', hf', ho'⟩ := hdrained
            exact .inr (.inl ⟨f', List.mem_append_left _ hf', ho'⟩)
          | inr hbefore => exact .inr (.inr hbefore)
      · have hbooks := h.books
        unfold Books at hbooks ⊢
        cases hbase : s.base with
        | none =>
          simp only [hbase] at hbooks
          simp only [Option.getD_none]
          exact ⟨f, accept_first h.flushed hbooks hflush htaken⟩
        | some base =>
          simp only [hbase] at hbooks
          simp only [Option.getD_some]
          obtain ⟨last, entry, hmet⟩ := hbooks
          exact ⟨f, accept_next h.flushed hmet hflush htaken⟩
    · exact h

theorem inv_refresh : Inv dpIndex generation (s.step dpIndex generation .refresh) := by
  simp only [step]
  split
  · exact h
  · next d hd =>
    have hlookup : ∀ e ∈ snapshotEntries d, ∃ n, e.incarnation = some n ∧ d.get? e.url = some n := fun e he => by
      obtain ⟨x, hx, heq⟩ := List.mem_map.mp he
      exact ⟨x.2, heq ▸ rfl, heq ▸ (Dict.mem_entries _ _ _).mp hx⟩
    have hdistinct : ((snapshotEntries d).map (·.url)).Nodup := by
      rw [snapshotEntries, List.map_map]
      exact d.nodup
    have hunused : ∀ e ∈ snapshotEntries d, s.view.Unused e := fun e he => by
      obtain ⟨n, hn, hget⟩ := hlookup e he
      have hlisted := h.registered.listed d hd e.url n hget
      intro m o hm
      exact hlisted m o (hn ▸ hm)
    obtain ⟨hrenews, hcurrent⟩ := View.apply_step hdistinct h.fits hunused
    have hmem : ∀ url n, d.get? url = some n → (⟨url, some n⟩ : SnapshotEntry) ∈ snapshotEntries d := fun url n hget =>
      List.mem_map.mpr ⟨(url, n), (Dict.mem_entries _ _ _).mpr hget, rfl⟩
    refine ⟨hrenews.fits, ⟨h.registered.registry, h.registered.file, fun o n ho hn => ?_,
      fun d' hd' url n hget m o hm ho hurl hincarnation => ?_, fun url n o hget ho hurl hincarnation => ?_⟩,
      h.flushed.moved h.fits hrenews.moves fun o ho hgone => ?_, h.books.frame rfl rfl rfl rfl rfl⟩
    · by_cases hold : o < s.view.created
      · exact h.registered.objects o n hold ((hrenews.moves.same o hold).2.1 ▸ hn)
      · obtain ⟨e, he, _, hentry⟩ := hrenews.new o (Nat.le_of_not_lt hold) ho
        obtain ⟨m, hm, hget⟩ := hlookup e he
        have heq : m = n := Option.some.inj (hm.symm.trans (hentry n hn))
        exact heq ▸ h.registered.file d hd e.url m hget
    · have hsame : d' = d := Option.some.inj (hd'.symm.trans hd)
      rw [hsame] at hget
      obtain ⟨o', hworker, hincarnation'⟩ := hcurrent _ (hmem url n hget) m hm
      obtain ⟨hlt', hurl'⟩ := hrenews.fits.keyed url o' hworker
      have heq := hrenews.fits.distinct o o' ho hlt' (hurl.trans hurl'.symm) (hincarnation.trans hincarnation'.symm)
      exact heq ▸ hworker
    · by_cases hold : o < s.view.created
      · obtain ⟨hurlOld, hincarnationOld, _⟩ := hrenews.moves.same o hold
        exact h.registered.published url n o hget hold (hurlOld ▸ hurl) (hincarnationOld ▸ hincarnation)
      · obtain ⟨e, he, hurlEntry, hentry⟩ := hrenews.new o (Nat.le_of_not_lt hold) ho
        obtain ⟨m, hm, hgetEntry⟩ := hlookup e he
        have heq : m = n := Option.some.inj (hm.symm.trans (hentry n hincarnation))
        have hurlEq : e.url = url := hurlEntry.symm.trans hurl
        exact ⟨d, hd, hurlEq ▸ heq ▸ hgetEntry⟩
    · cases hrenews.dropped o ho hgone with
      | inl hbefore => exact .inl hbefore
      | inr hzero => exact .inr (.inl hzero)

/-- What the control plane does with its workers. -/
theorem Inv.control {registry : Dict String Nat} {drawn : Nat}
    {file : Option (Dict String Nat)} (registered : Registered { s with registry, drawn, file }) :
    Inv dpIndex generation { s with registry, drawn, file } :=
  ⟨h.fits, registered, ⟨h.flushed.fits, h.flushed.moves, h.flushed.seq, h.flushed.order, h.flushed.accepted,
    h.flushed.gone⟩, h.books.frame rfl rfl rfl rfl rfl⟩

theorem inv_register (url : String) :
    Inv dpIndex generation (s.step dpIndex generation (.register url)) := by
  simp only [step]
  split
  · exact h
  · refine h.control ⟨fun x n hget => ?_, fun d hd x n hget => Nat.lt_succ_of_lt (h.registered.file d hd x n hget),
      fun o n ho hn => Nat.lt_succ_of_lt (h.registered.objects o n ho hn), h.registered.listed,
      fun x n o hget ho hurl hincarnation => ?_⟩
    · rw [Dict.get?_set] at hget
      split at hget
      · cases hget
        exact Nat.lt_succ_self _
      · exact Nat.lt_succ_of_lt (h.registered.registry x n hget)
    · rw [Dict.get?_set] at hget
      split at hget
      · cases hget
        exact absurd (h.registered.objects o _ ho hincarnation) (Nat.lt_irrefl _)
      · exact h.registered.published x n o hget ho hurl hincarnation

theorem inv_delete (url : String) :
    Inv dpIndex generation (s.step dpIndex generation (.delete url)) := by
  have hsub : ∀ x n, (s.registry.pop url).get? x = some n → s.registry.get? x = some n := fun x n hget => by
    rw [Dict.get?_pop] at hget
    split at hget
    · cases hget
    · exact hget
  exact h.control ⟨fun x n hget => h.registered.registry x n (hsub x n hget), h.registered.file, h.registered.objects,
    h.registered.listed, fun x n o hget => h.registered.published x n o (hsub x n hget)⟩

theorem inv_publish : Inv dpIndex generation (s.step dpIndex generation .publish) := by
  refine h.control ⟨h.registered.registry, fun d hd => ?_, h.registered.objects,
    fun d hd url n hget m o hm ho hurl hincarnation => ?_, fun url n o hget _ _ _ => ⟨s.registry, rfl, hget⟩⟩
  · cases hd
    exact h.registered.registry
  · cases hd
    cases hm
    obtain ⟨d', hd', hget'⟩ := h.registered.published url n o hget ho hurl hincarnation
    exact h.registered.listed d' hd' url n hget' n o rfl ho hurl hincarnation

theorem inv_restart : Inv dpIndex generation (s.step dpIndex generation .restart) := by
  have hfile : ∀ url n, (s.file.getD ∅).get? url = some n → ∃ d, s.file = some d ∧ d.get? url = some n :=
    fun url n hget => by
      cases hd : s.file with
      | none =>
        rw [hd] at hget
        cases hget
      | some d =>
        rw [hd] at hget
        exact ⟨d, rfl, hget⟩
  refine ⟨h.fits, ⟨fun url n hget => ?_, h.registered.file, h.registered.objects, h.registered.listed,
    fun url n o hget _ _ _ => hfile url n hget⟩, ⟨(fun _ hf => nomatch hf), (fun _ hf => nomatch hf),
    (fun _ hf => nomatch hf), (fun _ hf => nomatch hf), (fun _ hf => nomatch hf),
    fun o _ _ => .inr (.inr ⟨rfl, fun _ hf => nomatch hf⟩)⟩, ?_⟩
  · obtain ⟨d, hd, hget'⟩ := hfile url n hget
    exact h.registered.file d hd url n hget'
  · exact ⟨(fun _ hentry => nomatch hentry), rfl, fun _ _ => rfl, fun _ => List.not_mem_nil⟩

end

theorem inv_step (h : Inv dpIndex generation s) (e : Event) : Inv dpIndex generation (s.step dpIndex generation e) := by
  cases e with
  | register url => exact inv_register h url
  | delete url => exact inv_delete h url
  | publish => exact inv_publish h
  | refresh => exact inv_refresh h
  | begin url => exact h.request (View.begin_step h.fits url)
  | complete o statusCode serviceClass => exact h.request (View.complete_step h.fits o statusCode serviceClass)
  | abandon o => exact h.request (View.abandon_step h.fits o)
  | flush => exact inv_flush h
  | deliver k => exact inv_deliver h k
  | acknowledge k => exact inv_acknowledge h k
  | restart => exact inv_restart h

/-- A data plane that has just started, and the ledger that it will report to. -/
def start (ledger : Ledger) : State := { ledger, origin := ledger }

theorem inv_start (older : ∀ entry, ledger.entries.get? dpIndex = some entry → entry.generation < generation) :
    Inv dpIndex generation (start ledger) where
  fits := ⟨(fun _ _ h => nomatch h), List.nodup_nil, (fun _ h => nomatch h), fun _ _ => rfl,
    (fun o _ ho => absurd ho (Nat.not_lt_zero o)), (fun o _ ho => absurd ho (Nat.not_lt_zero o)),
    fun o _ ho => absurd ho (Nat.not_lt_zero o)⟩
  registered := ⟨(fun _ _ h => nomatch h), (fun _ h => nomatch h), (fun o _ ho => absurd ho (Nat.not_lt_zero o)),
    (fun _ h => nomatch h), fun _ _ _ h => nomatch h⟩
  flushed := ⟨(fun _ hf => nomatch hf), (fun _ hf => nomatch hf), (fun _ hf => nomatch hf), (fun _ hf => nomatch hf),
    (fun _ hf => nomatch hf), fun o ho => absurd ho (Nat.not_lt_zero o)⟩
  books := ⟨older, rfl, fun _ _ => rfl, fun h => nomatch h⟩

/-- **Every completion is counted once.** A data plane of a generation that the ledger has not heard of yet starts, and
then anything happens in any order. Once the ledger has taken a report, it never has more of a worker id than the data
plane has recorded for it since the view that the ledger counts from; and right after it takes a report, it has just
what was recorded when that report was built. -/
theorem counted_once {ledger : Ledger}
    (older : ∀ entry, ledger.entries.get? dpIndex = some entry → entry.generation < generation) (events : List Event) :
    (∀ base, (run (step dpIndex generation) (start ledger) events).base = some base → ∀ id c,
      (run (step dpIndex generation) (start ledger) events).ledger.totals id c ≤
        (run (step dpIndex generation) (start ledger) events).origin.totals id c +
          ((run (step dpIndex generation) (start ledger) events).view.recorded id c - base.recorded id c)) ∧
    ∀ (k : Nat) (f : Flush) (after : Ledger),
      (run (step dpIndex generation) (start ledger) events).flushes[k]? = some f →
      (run (step dpIndex generation) (start ledger) events).ledger.apply (f.report dpIndex generation) =
        some (after, true) →
      ∃ base, (run (step dpIndex generation) (start ledger) (events ++ [.deliver k])).base = some base ∧ ∀ id c,
        (run (step dpIndex generation) (start ledger) (events ++ [.deliver k])).ledger.totals id c =
          (run (step dpIndex generation) (start ledger) events).origin.totals id c +
            (f.view.recorded id c - base.recorded id c) := by
  have hinv : ∀ es, Inv dpIndex generation (run (step dpIndex generation) (start ledger) es) :=
    run_invariant (inv_start older) fun _ e h => inv_step h e
  refine ⟨fun base hbase id c => ?_, fun k f after hf happly => ?_⟩
  · have h := hinv events
    have hbooks := h.books
    simp only [Books, hbase] at hbooks
    obtain ⟨last, entry, hmet⟩ := hbooks
    have htotals := hmet.totals id c
    have hsince := View.recorded_le hmet.since id c
    have hnow := View.recorded_le (h.flushed.moves last (h.flushed.accepted last hmet.mem)) id c
    omega
  · have h := hinv events
    have hflush := List.mem_of_getElem? hf
    have htaken := Ledger.taken_of_apply happly (h.flushed.fits f hflush).keys_nodup
    rw [run_concat]
    simp only [step, hf, happly]
    refine ⟨_, rfl, fun id c => ?_⟩
    have hbooks := h.books
    unfold Books at hbooks
    cases hbase : (run (step dpIndex generation) (start ledger) events).base with
    | none =>
      simp only [hbase] at hbooks
      obtain ⟨entry, hmet⟩ := accept_first h.flushed hbooks hflush htaken
      have htotals := hmet.totals id c
      have hsince := View.recorded_le hmet.since id c
      simp only [Option.getD_none] at htotals ⊢
      omega
    | some base =>
      simp only [hbase] at hbooks
      obtain ⟨last, entry, hmet⟩ := hbooks
      obtain ⟨entry', hmet'⟩ := accept_next h.flushed hmet hflush htaken
      have htotals := hmet'.totals id c
      have hsince := View.recorded_le hmet'.since id c
      simp only [Option.getD_some] at htotals ⊢
      omega

/-- A request runs on a worker object that is deleted, the ledger having taken a report before; the object is reported,
and the report after that is not without it. -/
def replacedWhileServing : List Event :=
  [.register "w", .publish, .refresh, .flush, .deliver 0, .acknowledge 0, .begin "w", .delete "w", .publish, .refresh,
    .complete 0 (some 200) .generation, .flush, .deliver 1, .acknowledge 0]

theorem counted_once_replaced :
    (∀ entry, ({} : Ledger).entries.get? 0 = some entry → entry.generation < 1) ∧
    (run (step 0 1) (start {}) replacedWhileServing).base.isSome = true ∧
    (run (step 0 1) (start {}) replacedWhileServing).ledger.totals "w" (.total .routed) = 1 ∧
    ∀ base, (run (step 0 1) (start {}) replacedWhileServing).base = some base → ∀ id c,
      (run (step 0 1) (start {}) replacedWhileServing).ledger.totals id c ≤
        (run (step 0 1) (start {}) replacedWhileServing).origin.totals id c +
          ((run (step 0 1) (start {}) replacedWhileServing).view.recorded id c - base.recorded id c) :=
  have older : ∀ entry, ({} : Ledger).entries.get? 0 = some entry → entry.generation < 1 := fun entry h => by cases h
  ⟨older, by decide, by decide, (counted_once older replacedWhileServing).1⟩

end State

end SglangOmni.Router.Counting
