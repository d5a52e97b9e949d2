import SglangOmni.Lib.Dict
import Mathlib.Algebra.BigOperators.Group.List.Basic
import Mathlib.Data.List.Pairwise
import Mathlib.Tactic.Ring

/-! The control plane's ledger of the requests that the data planes have served.

A data plane reports its cumulative counters, worker object by worker object. The ledger keeps a segment for each
object it was told of (where it stood when the ledger first heard of it, and the highest it was told since), and folds
a segment into the total of its worker when the object is no longer reported. -/
namespace SglangOmni.Router
open Lib

inductive ServiceClass where
  | generation
  | speechHttp
  | speechBatch
  | voiceControl
  | ttsWebsocket
  | transcription
  deriving DecidableEq

/-- `_COUNTER_KEYS`. -/
inductive CounterKey where
  | routed
  | successful
  | failed
  deriving DecidableEq

/-- A counter of a worker, over all requests or for one class of them. A class that is not in a table counts zero. -/
inductive Counter where
  | total (key : CounterKey)
  | byClass (key : CounterKey) (serviceClass : ServiceClass)
  deriving DecidableEq

abbrev Counts := Counter → Nat

/-- What tells one worker object from another under the same URL: drawn anew for each registration, or by the data plane
itself for an object whose snapshot has none. -/
inductive Incarnation where
  | registered (n : Nat)
  | own (n : Nat)
  deriving DecidableEq

structure WorkerCounters where
  workerId : String
  incarnation : Incarnation
  counts : Counts
  currentActive : Nat

def WorkerCounters.key (item : WorkerCounters) : String × Incarnation := (item.workerId, item.incarnation)

structure CounterReport where
  dpIndex : Nat
  generation : Nat
  counterSeq : Nat
  workers : List WorkerCounters

/-- `_WorkerLedger`. -/
structure Segment where
  baseline : Counts
  highWater : Counts
  currentActive : Nat

def Segment.contribution (g : Segment) (c : Counter) : Nat := g.highWater c - g.baseline c

/-- The segment of an object in a report, from the one that the ledger has of it. -/
def renew (firstContact : Bool) (known : Option Segment) (item : WorkerCounters) : Segment :=
  match known with
  | none => ⟨if firstContact then item.counts else fun _ => 0, item.counts, item.currentActive⟩
  | some g => { g with highWater := fun c => max (g.highWater c) (item.counts c), currentActive := item.currentActive }

/-- The segments of a data plane, by worker and by incarnation. -/
abbrev PerWorker := Dict String (Dict Incarnation Segment)

abbrev Carried := Dict (String × Incarnation) Segment

/-- `_LedgerEntry`. -/
structure LedgerEntry where
  generation : Nat
  counterSeq : Nat
  perWorker : PerWorker

def LedgerEntry.segments (entry : LedgerEntry) : List ((String × Incarnation) × Segment) :=
  entry.perWorker.entries.flatMap fun e => e.2.entries.map fun g => ((e.1, g.1), g.2)

def LedgerEntry.carried (entry : LedgerEntry) : Carried := Dict.ofList entry.segments

abbrev Retired := Dict String Counts

/-- `_retire_worker`. -/
def retireWorker (retired : Retired) (workerId : String) (g : Segment) : Retired :=
  retired.set workerId fun c => ((retired.get? workerId).map (· c)).getD 0 + g.contribution c

def retireAll (retired : Retired) (segments : List ((String × Incarnation) × Segment)) : Retired :=
  segments.foldl (fun r e => retireWorker r e.1.1 e.2) retired

/-- What the loop of `apply` works on. -/
structure Work where
  carried : Carried
  perWorker : PerWorker := ∅
  retired : Retired

def Work.turn (firstContact : Bool) (w : Work) (item : WorkerCounters) : Work :=
  let g := renew firstContact (w.carried.get? item.key) item
  let segments := (w.perWorker.get? item.workerId).getD ∅
  { carried := w.carried.pop item.key
    perWorker := w.perWorker.set item.workerId (segments.set item.incarnation g)
    retired :=
      match segments.get? item.incarnation with
      | some duplicate => retireWorker w.retired item.workerId duplicate
      | none => w.retired }

/-- `DataPlaneCounterLedger`. -/
structure Ledger where
  entries : Dict Nat LedgerEntry := ∅
  retired : Retired := ∅
  seenDps : List Nat := []

namespace Ledger

/-- What `apply` does with a report that it takes. -/
def record (ledger : Ledger) (carried : Carried) (report : CounterReport) : Ledger :=
  let firstContact : Bool := report.dpIndex ∉ ledger.seenDps
  let done := report.workers.foldl (Work.turn firstContact) { carried, retired := ledger.retired }
  { entries := ledger.entries.set report.dpIndex ⟨report.generation, report.counterSeq, done.perWorker⟩
    retired := retireAll done.retired done.carried.entries
    seenDps := if firstContact then report.dpIndex :: ledger.seenDps else ledger.seenDps }

/-- `apply`: the ledger and whether the report was taken, or nothing (`StaleCounterGenerationError`). -/
def apply (ledger : Ledger) (report : CounterReport) : Option (Ledger × Bool) :=
  match ledger.entries.get? report.dpIndex with
  | none => some (ledger.record ∅ report, true)
  | some entry =>
    if report.generation < entry.generation then none
    else if report.generation = entry.generation ∧ report.counterSeq ≤ entry.counterSeq then some (ledger, false)
    else if entry.generation < report.generation then
      some (record { ledger with retired := retireAll ledger.retired entry.segments } ∅ report, true)
    else some (ledger.record entry.carried report, true)

/-- What a worker's segments contribute. -/
def worthIn (perWorker : PerWorker) (workerId : String) (c : Counter) : Nat :=
  ((perWorker.get? workerId).map fun segments => segments.total (·.contribution c)).getD 0

def retiredOf (retired : Retired) (workerId : String) (c : Counter) : Nat :=
  ((retired.get? workerId).map (· c)).getD 0

/-- `totals` and `class_totals`. -/
def totals (ledger : Ledger) (workerId : String) (c : Counter) : Nat :=
  retiredOf ledger.retired workerId c + ledger.entries.total fun e => worthIn e.perWorker workerId c

/-! ### Segments -/

def segmentAt (perWorker : PerWorker) (key : String × Incarnation) : Option Segment :=
  (perWorker.get? key.1).bind (·.get? key.2)

/-- What a list of segments contributes to a worker. -/
def worthOf (segments : List ((String × Incarnation) × Segment)) (workerId : String) (c : Counter) : Nat :=
  (segments.map fun e => if e.1.1 = workerId then e.2.contribution c else 0).sum

theorem retiredOf_retireWorker (retired : Retired) (workerId id : String) (g : Segment) (c : Counter) :
    retiredOf (retireWorker retired workerId g) id c =
      retiredOf retired id c + if workerId = id then g.contribution c else 0 := by
  unfold retiredOf retireWorker
  rw [Dict.get?_set]
  by_cases hid : id = workerId
  · subst hid
    rw [if_pos rfl, if_pos rfl]
    rfl
  · rw [if_neg hid, if_neg (Ne.symm hid), Nat.add_zero]

theorem retiredOf_retireAll (segments : List ((String × Incarnation) × Segment)) (retired : Retired) (id : String)
    (c : Counter) : retiredOf (retireAll retired segments) id c = retiredOf retired id c + worthOf segments id c := by
  induction segments generalizing retired with
  | nil => rfl
  | cons e rest ih =>
    show retiredOf (retireAll (retireWorker retired e.1.1 e.2) rest) id c = _
    rw [ih, retiredOf_retireWorker, worthOf, worthOf, List.map_cons, List.sum_cons, Nat.add_assoc]

theorem keys_segments_nodup (entry : LedgerEntry) : (entry.segments.map Prod.fst).Nodup := by
  have hkeys : entry.segments.map Prod.fst =
      entry.perWorker.entries.flatMap fun e => e.2.entries.map fun g => (e.1, g.1) := by
    simp only [LedgerEntry.segments, List.map_flatMap, List.map_map]
    rfl
  rw [hkeys, List.nodup_flatMap]
  refine ⟨fun e _ => ?_, ?_⟩
  · have hmap : e.2.entries.map (fun g => (e.1, g.1)) = (e.2.entries.map Prod.fst).map (Prod.mk e.1) := by
      rw [List.map_map]
      rfl
    rw [hmap]
    exact e.2.nodup.map (Prod.mk_right_injective e.1)
  · have hnodup := entry.perWorker.nodup
    rw [List.Nodup, List.pairwise_map] at hnodup
    refine hnodup.imp fun {a b} hne => ?_
    intro key hkeyA hkeyB
    obtain ⟨ga, _, hga⟩ := List.mem_map.mp hkeyA
    obtain ⟨gb, _, hgb⟩ := List.mem_map.mp hkeyB
    exact hne ((congrArg Prod.fst hga).trans (congrArg Prod.fst hgb).symm)

theorem worthOf_segments (entry : LedgerEntry) (id : String) (c : Counter) :
    worthOf entry.segments id c = worthIn entry.perWorker id c := by
  have hweigh := Dict.weigh_single (fun segments : Dict Incarnation Segment => segments.total (·.contribution c))
    entry.perWorker id
  rw [worthIn, ← hweigh, worthOf, LedgerEntry.segments, List.map_flatMap, Dict.weigh, List.flatMap_def,
    List.sum_flatten, List.map_map]
  refine congrArg List.sum (List.map_congr_left fun e _ => ?_)
  rw [Function.comp_apply, List.map_map]
  by_cases hid : e.1 = id
  · simp only [Function.comp_def, hid, if_true, Dict.total]
  · simp only [Function.comp_def, hid, if_false, List.map_const', List.sum_replicate_nat, Nat.mul_zero]

theorem get?_carried (entry : LedgerEntry) (key : String × Incarnation) :
    entry.carried.get? key = segmentAt entry.perWorker key := by
  have hnodup := keys_segments_nodup entry
  rw [LedgerEntry.carried, Dict.get?_ofList hnodup]
  apply Option.ext
  intro g
  rw [Dict.lookup_eq_some hnodup, segmentAt, Option.bind_eq_some_iff, LedgerEntry.segments, List.mem_flatMap]
  constructor
  · intro ⟨e, he, hg⟩
    obtain ⟨g', hg', heq⟩ := List.mem_map.mp hg
    cases heq
    exact ⟨e.2, (Dict.mem_entries _ _ _).mp he, (Dict.mem_entries _ _ _).mp hg'⟩
  · intro ⟨segments, hsegments, hg⟩
    exact ⟨(key.1, segments), (Dict.mem_entries _ _ _).mpr hsegments,
      List.mem_map.mpr ⟨(key.2, g), (Dict.mem_entries _ _ _).mpr hg, rfl⟩⟩

/-! ### A report -/

/-- What the ledger is worth in the middle of a report. -/
def worthDuring (w : Work) (id : String) (c : Counter) : Nat :=
  retiredOf w.retired id c + worthOf w.carried.entries id c + worthIn w.perWorker id c

/-- What the segment of an object contributes if it is there. -/
def contributionOf (g : Option Segment) (c : Counter) : Nat := (g.map (·.contribution c)).getD 0

theorem worthOf_pop (carried : Carried) (key : String × Incarnation) (id : String) (c : Counter) :
    worthOf (carried.pop key).entries id c + (if key.1 = id then contributionOf (carried.get? key) c else 0) =
      worthOf carried.entries id c := by
  let weight (k : String × Incarnation) (g : Segment) := if k.1 = id then g.contribution c else 0
  cases hkey : carried.get? key with
  | none =>
    have hpop : (carried.pop key).weigh weight = carried.weigh weight := Dict.weigh_pop_of_none weight hkey
    have hzero : (if key.1 = id then contributionOf none c else 0) = 0 := by
      rw [contributionOf, Option.map_none, Option.getD_none, ite_self]
    rw [hzero, Nat.add_zero]
    exact hpop
  | some g => exact Dict.weigh_pop_of_some weight hkey

theorem worthIn_set (perWorker : PerWorker) (workerId : String) (segments : Dict Incarnation Segment) (id : String)
    (c : Counter) :
    worthIn (perWorker.set workerId segments) id c =
      if workerId = id then segments.total (·.contribution c) else worthIn perWorker id c := by
  unfold worthIn
  rw [Dict.get?_set]
  by_cases hid : id = workerId
  · rw [if_pos hid, if_pos hid.symm]
    rfl
  · rw [if_neg hid, if_neg (Ne.symm hid)]

theorem worthIn_eq (perWorker : PerWorker) (id : String) (c : Counter) :
    worthIn perWorker id c = ((perWorker.get? id).getD ∅).total (·.contribution c) := by
  unfold worthIn
  cases perWorker.get? id with
  | none => rfl
  | some segments => rfl

/-- A turn exchanges what the object contributed for what it contributes now; a segment that it would overwrite is
retired. -/
theorem worthDuring_turn (firstContact : Bool) (w : Work) (item : WorkerCounters) (id : String) (c : Counter) :
    worthDuring (w.turn firstContact item) id c +
        (if item.workerId = id then contributionOf (w.carried.get? item.key) c else 0) =
      worthDuring w id c +
        if item.workerId = id then (renew firstContact (w.carried.get? item.key) item).contribution c else 0 := by
  have hcarried := worthOf_pop w.carried item.key id c
  have hkey : item.key.1 = item.workerId := rfl
  rw [hkey] at hcarried
  unfold worthDuring
  simp only [Work.turn, worthIn_set]
  by_cases hid : item.workerId = id
  · simp only [if_pos hid] at hcarried ⊢
    have hworth := worthIn_eq w.perWorker id c
    rw [← hid] at hworth
    cases hduplicate : ((w.perWorker.get? item.workerId).getD ∅).get? item.incarnation with
    | none =>
      have htotal := Dict.total_set_of_none (·.contribution c)
        (renew firstContact (w.carried.get? item.key) item) hduplicate
      rw [hid] at hworth htotal ⊢
      simp only
      omega
    | some duplicate =>
      have htotal := Dict.total_set_of_some (·.contribution c)
        (renew firstContact (w.carried.get? item.key) item) hduplicate
      simp only [retiredOf_retireWorker, if_pos hid]
      rw [hid] at hworth htotal ⊢
      omega
  · simp only [if_neg hid] at hcarried ⊢
    cases hduplicate : ((w.perWorker.get? item.workerId).getD ∅).get? item.incarnation with
    | none =>
      simp only
      omega
    | some duplicate =>
      simp only [retiredOf_retireWorker, if_neg hid]
      omega

theorem segmentAt_set (perWorker : PerWorker) (key : String × Incarnation) (g : Segment)
    (other : String × Incarnation) :
    segmentAt (perWorker.set key.1 (((perWorker.get? key.1).getD ∅).set key.2 g)) other =
      if other = key then some g else segmentAt perWorker other := by
  unfold segmentAt
  rw [Dict.get?_set]
  by_cases hid : other.1 = key.1
  · rw [if_pos hid, Option.bind_some, Dict.get?_set]
    by_cases hincarnation : other.2 = key.2
    · rw [if_pos hincarnation, if_pos (Prod.ext hid hincarnation)]
    · rw [if_neg hincarnation, if_neg fun heq => hincarnation (congrArg Prod.snd heq), hid]
      cases perWorker.get? key.1 with
      | none => rfl
      | some segments => rfl
  · rw [if_neg hid, if_neg fun heq => hid (congrArg Prod.fst heq)]

/-- What the reported objects of a worker contribute, by what is known of each. -/
def reportedOf (workers : List WorkerCounters) (worth : WorkerCounters → Nat) (id : String) : Nat :=
  (workers.map fun item => if item.workerId = id then worth item else 0).sum

theorem reportedOf_congr {workers : List WorkerCounters} {f g : WorkerCounters → Nat}
    (h : ∀ item ∈ workers, f item = g item) (id : String) : reportedOf workers f id = reportedOf workers g id := by
  refine congrArg List.sum (List.map_congr_left fun item hitem => ?_)
  simp only [h item hitem]

/-- What the loop has done at its end, when no object is reported twice. -/
structure Reported (firstContact : Bool) (w : Work) (workers : List WorkerCounters) (done : Work) : Prop where
  worth : ∀ id c, worthDuring done id c + reportedOf workers
    (fun item => contributionOf (w.carried.get? item.key) c) id =
    worthDuring w id c +
      reportedOf workers (fun item => (renew firstContact (w.carried.get? item.key) item).contribution c) id
  segment : ∀ item ∈ workers,
    segmentAt done.perWorker item.key = some (renew firstContact (w.carried.get? item.key) item)
  other : ∀ key, (∀ item ∈ workers, item.key ≠ key) → segmentAt done.perWorker key = segmentAt w.perWorker key

theorem reported_foldl (firstContact : Bool) {workers : List WorkerCounters} (distinct : (workers.map (·.key)).Nodup)
    (w : Work) : Reported firstContact w workers (workers.foldl (Work.turn firstContact) w) := by
  induction workers generalizing w with
  | nil => exact ⟨fun _ _ => rfl, (fun _ h => nomatch h), fun _ _ => rfl⟩
  | cons item rest ih =>
    rw [List.map_cons, List.nodup_cons] at distinct
    have hne : ∀ item' ∈ rest, item'.key ≠ item.key := fun item' hitem' heq =>
      distinct.1 (heq ▸ List.mem_map_of_mem (f := (·.key)) hitem')
    have hcarried : ∀ item' ∈ rest, (w.turn firstContact item).carried.get? item'.key = w.carried.get? item'.key :=
      fun item' hitem' => Dict.get?_pop_ne _ (hne item' hitem')
    have hrest := ih distinct.2 (w.turn firstContact item)
    refine ⟨fun id c => ?_, fun item' hitem' => ?_, fun key hkey => ?_⟩
    · have hworth := hrest.worth id c
      have hturn := worthDuring_turn firstContact w item id c
      have hold : reportedOf rest (fun i => contributionOf ((w.turn firstContact item).carried.get? i.key) c) id =
          reportedOf rest (fun i => contributionOf (w.carried.get? i.key) c) id :=
        reportedOf_congr (fun i hi => by simp only [hcarried i hi]) id
      have hnew : reportedOf rest
            (fun i => (renew firstContact ((w.turn firstContact item).carried.get? i.key) i).contribution c) id =
          reportedOf rest (fun i => (renew firstContact (w.carried.get? i.key) i).contribution c) id :=
        reportedOf_congr (fun i hi => by simp only [hcarried i hi]) id
      rw [hold, hnew] at hworth
      simp only [reportedOf, List.map_cons, List.sum_cons, List.foldl_cons] at hworth ⊢
      omega
    · rw [List.foldl_cons]
      cases List.mem_cons.mp hitem' with
      | inl heq =>
        rw [heq, hrest.other item.key hne]
        exact (segmentAt_set _ item.key _ item.key).trans (if_pos rfl)
      | inr hmem => rw [hrest.segment item' hmem, hcarried item' hmem]
    · rw [List.foldl_cons, hrest.other key fun i hi => hkey i (List.mem_cons_of_mem _ hi)]
      have hself : key ≠ item.key := fun heq => hkey item List.mem_cons_self heq.symm
      exact (segmentAt_set _ item.key _ key).trans (if_neg hself)

/-- What the entry of a data plane is worth, if there is one. -/
def entryWorth (entry : Option LedgerEntry) (id : String) (c : Counter) : Nat :=
  (entry.map fun e => worthIn e.perWorker id c).getD 0

/-- The first report of a data plane that this control plane takes. -/
def firstContact (ledger : Ledger) (report : CounterReport) : Bool := report.dpIndex ∉ ledger.seenDps

variable {report : CounterReport}

theorem worthIn_empty (id : String) (c : Counter) : worthIn ∅ id c = 0 := rfl

/-- The total exchanges the entry of the data plane for what its loop has at the end. -/
theorem record_worth (ledger : Ledger) (carried : Carried) (report : CounterReport) (id : String) (c : Counter) :
    (ledger.record carried report).totals id c + entryWorth (ledger.entries.get? report.dpIndex) id c +
        retiredOf ledger.retired id c =
      ledger.totals id c + worthDuring (report.workers.foldl (Work.turn (ledger.firstContact report))
        { carried, retired := ledger.retired }) id c := by
  let done := report.workers.foldl (Work.turn (ledger.firstContact report)) { carried, retired := ledger.retired }
  have hretired := retiredOf_retireAll done.carried.entries done.retired id c
  unfold totals worthDuring
  simp only [record]
  cases hentry : ledger.entries.get? report.dpIndex with
  | none =>
    rw [Dict.total_set_of_none _ _ hentry]
    simp only [entryWorth, Option.map_none, Option.getD_none]
    simp only [done, firstContact] at hretired ⊢
    omega
  | some entry =>
    have htotal := Dict.total_set_of_some (fun e => worthIn e.perWorker id c)
      ⟨report.generation, report.counterSeq, done.perWorker⟩ hentry
    simp only [entryWorth, Option.map_some, Option.getD_some]
    simp only [done, firstContact] at hretired htotal ⊢
    omega

/-- The report leaves the total as it is, but for what the objects that it names contribute now. -/
theorem totals_record (ledger : Ledger) (carried : Carried)
    (distinct : (report.workers.map (·.key)).Nodup) (id : String) (c : Counter) :
    (ledger.record carried report).totals id c + entryWorth (ledger.entries.get? report.dpIndex) id c +
        reportedOf report.workers (fun item => contributionOf (carried.get? item.key) c) id =
      ledger.totals id c + worthOf carried.entries id c +
        reportedOf report.workers
          (fun item => (renew (ledger.firstContact report) (carried.get? item.key) item).contribution c) id := by
  have hdone := (reported_foldl (ledger.firstContact report) distinct { carried, retired := ledger.retired }).worth id c
  have hrecord := record_worth ledger carried report id c
  simp only [worthDuring, worthIn_empty] at hdone hrecord
  omega

/-- What the ledger knows of an object when a report comes. -/
def known (ledger : Ledger) (report : CounterReport) (key : String × Incarnation) : Option Segment :=
  match ledger.entries.get? report.dpIndex with
  | none => none
  | some entry => if entry.generation < report.generation then none else segmentAt entry.perWorker key

/-- A report was taken. -/
structure Taken (ledger : Ledger) (report : CounterReport) (after : Ledger) : Prop where
  newer : ∀ entry, ledger.entries.get? report.dpIndex = some entry →
    entry.generation < report.generation ∨
      entry.generation = report.generation ∧ entry.counterSeq < report.counterSeq
  totals : ∀ id c,
    after.totals id c + reportedOf report.workers (fun item => contributionOf (ledger.known report item.key) c) id =
      ledger.totals id c + reportedOf report.workers
        (fun item => (renew (ledger.firstContact report) (ledger.known report item.key) item).contribution c) id
  entry : ∃ entry, after.entries.get? report.dpIndex = some entry ∧ entry.generation = report.generation ∧
    entry.counterSeq = report.counterSeq ∧
    (∀ item ∈ report.workers, segmentAt entry.perWorker item.key =
      some (renew (ledger.firstContact report) (ledger.known report item.key) item)) ∧
    ∀ key, (∀ item ∈ report.workers, item.key ≠ key) → segmentAt entry.perWorker key = none
  seen : report.dpIndex ∈ after.seenDps

theorem record_entry (ledger : Ledger) (carried : Carried) (distinct : (report.workers.map (·.key)).Nodup) :
    ∃ entry, (ledger.record carried report).entries.get? report.dpIndex = some entry ∧
      entry.generation = report.generation ∧ entry.counterSeq = report.counterSeq ∧
      (∀ item ∈ report.workers, segmentAt entry.perWorker item.key =
        some (renew (ledger.firstContact report) (carried.get? item.key) item)) ∧
      ∀ key, (∀ item ∈ report.workers, item.key ≠ key) → segmentAt entry.perWorker key = none := by
  have hdone := reported_foldl (ledger.firstContact report) distinct { carried, retired := ledger.retired }
  exact ⟨_, Dict.get?_set_self _ _ _, rfl, rfl, hdone.segment, hdone.other⟩

theorem record_seen (ledger : Ledger) (carried : Carried) (report : CounterReport) :
    report.dpIndex ∈ (ledger.record carried report).seenDps := by
  simp only [record]
  by_cases hseen : report.dpIndex ∈ ledger.seenDps
  · simp [hseen]
  · simp [hseen]

/-- **What a report that was taken has done.** -/
theorem taken_of_apply {ledger after : Ledger} (h : ledger.apply report = some (after, true))
    (distinct : (report.workers.map (·.key)).Nodup) : Taken ledger report after := by
  unfold apply at h
  split at h
  · next hnone =>
    simp only [Option.some.injEq, Prod.mk.injEq, and_true] at h
    subst h
    have hknown : ∀ key, ledger.known report key = (∅ : Carried).get? key := fun key => by
      simp only [known, hnone]
      rfl
    refine ⟨fun entry hentry => absurd (hnone.symm.trans hentry) (by simp), fun id c => ?_, ?_, record_seen _ _ _⟩
    · have htotals := totals_record ledger ∅ distinct id c
      rw [hnone] at htotals
      simp only [hknown]
      exact htotals
    · simp only [hknown]
      exact record_entry ledger ∅ distinct
  · next entry hentry =>
    split at h
    · cases h
    · next hnotOlder =>
      split at h
      · simp at h
      · next hnotStale =>
        split at h
        · next hnewer =>
          simp only [Option.some.injEq, Prod.mk.injEq, and_true] at h
          subst h
          have hknown : ∀ key, ledger.known report key = (∅ : Carried).get? key := fun key => by
            simp only [known, hentry, hnewer, if_true]
            rfl
          refine ⟨fun entry' hentry' => ?_, fun id c => ?_, ?_, record_seen _ _ _⟩
          · rw [hentry] at hentry'
            cases hentry'
            exact .inl hnewer
          · -- The segments of the generation before are retired, and what they contribute with them.
            have htotals := totals_record { ledger with retired := retireAll ledger.retired entry.segments } ∅ distinct
              id c
            have hretired := retiredOf_retireAll entry.segments ledger.retired id c
            rw [worthOf_segments] at hretired
            have hempty : worthOf (∅ : Carried).entries id c = 0 := rfl
            simp only [Ledger.totals, hretired, hentry, entryWorth, Option.map_some, Option.getD_some,
              hempty] at htotals
            simp only [hknown]
            simp only [Ledger.totals]
            have hcontact : firstContact { ledger with retired := retireAll ledger.retired entry.segments } report =
                ledger.firstContact report := rfl
            rw [hcontact] at htotals
            omega
          · simp only [hknown]
            exact record_entry { ledger with retired := retireAll ledger.retired entry.segments } ∅ distinct
        · next hnotNewer =>
          simp only [Option.some.injEq, Prod.mk.injEq, and_true] at h
          subst h
          have hgeneration : entry.generation = report.generation := by omega
          have hknown : ∀ key, ledger.known report key = entry.carried.get? key := fun key => by
            simp only [known, hentry, hnotNewer, if_false]
            exact (get?_carried entry key).symm
          refine ⟨fun entry' hentry' => ?_, fun id c => ?_, ?_, record_seen _ _ _⟩
          · rw [hentry] at hentry'
            cases hentry'
            exact .inr ⟨hgeneration, by omega⟩
          · have htotals := totals_record ledger entry.carried distinct id c
            have hcarried : worthOf entry.carried.entries id c = worthIn entry.perWorker id c := by
              rw [LedgerEntry.carried, Dict.entries_ofList (keys_segments_nodup entry), worthOf_segments]
            rw [hentry, hcarried] at htotals
            simp only [entryWorth, Option.map_some, Option.getD_some] at htotals
            simp only [hknown]
            omega
          · simp only [hknown]
            exact record_entry ledger entry.carried distinct

/-! ### Any reports

The rest holds whatever the reports say: of objects that are named twice, of values that went back, of generations and
sequence numbers in any order. -/

/-- A segment never contributes less for being reported again. -/
theorem contributionOf_le_renew (firstContact : Bool) (known : Option Segment) (item : WorkerCounters) (c : Counter) :
    contributionOf known c ≤ (renew firstContact known item).contribution c := by
  cases known with
  | none => exact Nat.zero_le _
  | some g => exact Nat.sub_le_sub_right (Nat.le_max_left _ _) _

theorem worthDuring_le_turn (firstContact : Bool) (w : Work) (item : WorkerCounters) (id : String) (c : Counter) :
    worthDuring w id c ≤ worthDuring (w.turn firstContact item) id c := by
  have hturn := worthDuring_turn firstContact w item id c
  have hle := contributionOf_le_renew firstContact (w.carried.get? item.key) item c
  by_cases hid : item.workerId = id
  · rw [if_pos hid, if_pos hid] at hturn
    omega
  · rw [if_neg hid, if_neg hid] at hturn
    exact Nat.le_of_eq hturn.symm

theorem worthDuring_le_foldl (firstContact : Bool) (workers : List WorkerCounters) (w : Work) (id : String)
    (c : Counter) :
    worthDuring w id c ≤ worthDuring (workers.foldl (Work.turn firstContact) w) id c := by
  induction workers generalizing w with
  | nil => exact Nat.le_refl _
  | cons item rest ih => exact Nat.le_trans (worthDuring_le_turn firstContact w item id c) (ih _)

/-- What a report takes from the total is at most what its data plane had in it. -/
theorem totals_le_record (ledger : Ledger) (carried : Carried) (report : CounterReport) (id : String) (c : Counter) :
    ledger.totals id c + worthOf carried.entries id c ≤
      (ledger.record carried report).totals id c + entryWorth (ledger.entries.get? report.dpIndex) id c := by
  have hdone := worthDuring_le_foldl (ledger.firstContact report) report.workers
    { carried, retired := ledger.retired } id c
  have hrecord := record_worth ledger carried report id c
  simp only [worthDuring, worthIn_empty] at hdone hrecord
  omega

theorem totals_le_apply {ledger after : Ledger} {applied : Bool}
    (h : ledger.apply report = some (after, applied)) (id : String) (c : Counter) :
    ledger.totals id c ≤ after.totals id c := by
  unfold apply at h
  split at h
  · next hnone =>
    cases h
    have hrecord := totals_le_record ledger ∅ report id c
    rw [hnone] at hrecord
    exact Nat.le_trans (Nat.le_add_right _ _) hrecord
  · next entry hentry =>
    split at h
    · cases h
    · split at h
      · cases h
        exact Nat.le_refl _
      · split at h
        · cases h
          -- The segments of the generation before are retired, and what they contribute with them.
          have hrecord :=
            totals_le_record { ledger with retired := retireAll ledger.retired entry.segments } ∅ report id c
          have hretired := retiredOf_retireAll entry.segments ledger.retired id c
          rw [worthOf_segments] at hretired
          simp only [hentry, entryWorth, Option.map_some, Option.getD_some] at hrecord
          unfold totals at hrecord ⊢
          simp only [hretired] at hrecord
          omega
        · cases h
          have hrecord := totals_le_record ledger entry.carried report id c
          have hcarried : worthOf entry.carried.entries id c = worthIn entry.perWorker id c := by
            rw [LedgerEntry.carried, Dict.entries_ofList (keys_segments_nodup entry), worthOf_segments]
          rw [hentry, hcarried] at hrecord
          simp only [entryWorth, Option.map_some, Option.getD_some] at hrecord
          omega

/-- The ledger after a report; one that raises leaves it where it was. -/
def deliver (ledger : Ledger) (report : CounterReport) : Ledger := ((ledger.apply report).map Prod.fst).getD ledger

/-- The report was accepted. -/
def accepts (ledger : Ledger) (report : CounterReport) : Bool := ((ledger.apply report).map Prod.snd).getD false

end Ledger

def CounterReport.NewerThan (report last : CounterReport) : Prop :=
  last.generation < report.generation ∨ last.generation = report.generation ∧ last.counterSeq < report.counterSeq

/-- A ledger and, for each data plane, the last report it accepted. -/
structure Heard where
  ledger : Ledger := {}
  last : Nat → Option CounterReport := fun _ => none

namespace Heard

def hear (s : Heard) (report : CounterReport) : Heard where
  ledger := s.ledger.deliver report
  last := if s.ledger.accepts report then Function.update s.last report.dpIndex (some report) else s.last

/-- A sequence of reports, from any data planes. -/
def hearAll (reports : List CounterReport) : Heard := reports.foldl hear {}

/-- The entry of a data plane is that of the last report accepted from it. -/
def Current (s : Heard) : Prop :=
  ∀ dp, (s.ledger.entries.get? dp).map (fun e => (e.generation, e.counterSeq)) =
    (s.last dp).map fun r => (r.generation, r.counterSeq)

theorem entries_record (ledger : Ledger) (carried : Carried) (report : CounterReport) (dp : Nat) :
    ((ledger.record carried report).entries.get? dp).map (fun e => (e.generation, e.counterSeq)) =
      if dp = report.dpIndex then some (report.generation, report.counterSeq)
      else (ledger.entries.get? dp).map fun e => (e.generation, e.counterSeq) := by
  simp only [Ledger.record, Dict.get?_set]
  split <;> rfl

/-- What an accepted report leaves of the entries. -/
theorem entries_apply {ledger after : Ledger} {report : CounterReport} (h : ledger.apply report = some (after, true))
    (dp : Nat) :
    (after.entries.get? dp).map (fun e => (e.generation, e.counterSeq)) =
      if dp = report.dpIndex then some (report.generation, report.counterSeq)
      else (ledger.entries.get? dp).map fun e => (e.generation, e.counterSeq) := by
  unfold Ledger.apply at h
  split at h
  · cases h
    exact entries_record ledger ∅ report dp
  · split at h
    · cases h
    · split at h
      · cases h
      · split at h
        · cases h
          exact entries_record { ledger with retired := _ } ∅ report dp
        · cases h
          exact entries_record ledger _ report dp

theorem deliver_of_dropped {ledger after : Ledger} {report : CounterReport}
    (h : ledger.apply report = some (after, false)) :
    after = ledger := by
  unfold Ledger.apply at h
  split at h
  · cases h
  · split at h
    · cases h
    · split at h
      · cases h
        rfl
      · split at h <;> cases h

theorem current_hear {s : Heard} (h : s.Current) (report : CounterReport) : (s.hear report).Current := by
  intro dp
  cases happly : s.ledger.apply report with
  | none =>
    have hdeliver : s.ledger.deliver report = s.ledger := by rw [Ledger.deliver, happly]; rfl
    have haccepts : s.ledger.accepts report = false := by rw [Ledger.accepts, happly]; rfl
    simp only [hear, hdeliver, haccepts]
    exact h dp
  | some result =>
    obtain ⟨after, applied⟩ := result
    have hdeliver : s.ledger.deliver report = after := by rw [Ledger.deliver, happly]; rfl
    have haccepts : s.ledger.accepts report = applied := by rw [Ledger.accepts, happly]; rfl
    simp only [hear, hdeliver, haccepts]
    cases applied with
    | false =>
      rw [deliver_of_dropped happly]
      exact h dp
    | true =>
      rw [entries_apply happly dp, h dp, if_pos rfl]
      by_cases hdp : dp = report.dpIndex
      · rw [if_pos hdp, hdp, Function.update_self]
        rfl
      · rw [if_neg hdp, Function.update_of_ne hdp]

theorem current_hearAll (reports : List CounterReport) : (hearAll reports).Current := by
  unfold hearAll
  have hstart : Current {} := fun _ => rfl
  generalize ({} : Heard) = s at hstart ⊢
  induction reports generalizing s with
  | nil => exact hstart
  | cons report rest ih => exact ih (s.hear report) (current_hear hstart report)

/-- **Main theorem.** After any sequence of reports, from any data planes and generations and whatever they say, one
more report lowers no displayed total of any worker, over all requests or for a class of them; one that is not newer
than the last accepted from its data plane leaves the ledger as it was, and one of an older generation, which raises,
too. -/
theorem totals_monotone (reports : List CounterReport) (report : CounterReport) :
    let s := hearAll reports
    (∀ id c, s.ledger.totals id c ≤ (s.ledger.deliver report).totals id c) ∧
      (∀ last, s.last report.dpIndex = some last → ¬ report.NewerThan last → s.ledger.deliver report = s.ledger) ∧
      (s.ledger.apply report = none ↔ ∃ last, s.last report.dpIndex = some last ∧ report.generation < last.generation) ∧
      (s.ledger.apply report = none → s.ledger.deliver report = s.ledger) := by
  have hcurrent := current_hearAll reports report.dpIndex
  refine ⟨fun id c => ?_, fun last hlast hold => ?_, ?_, fun hraised => ?_⟩
  · unfold Ledger.deliver
    cases happly : (hearAll reports).ledger.apply report with
    | none => exact Nat.le_refl _
    | some result => exact Ledger.totals_le_apply happly id c
  · rw [hlast, Option.map_some, Option.map_eq_some_iff] at hcurrent
    obtain ⟨entry, hentry, heq⟩ := hcurrent
    obtain ⟨hgeneration, hseq⟩ := Prod.mk.inj heq
    unfold CounterReport.NewerThan at hold
    unfold Ledger.deliver Ledger.apply
    simp only [hentry]
    by_cases holder : report.generation < entry.generation
    · simp only [if_pos holder]
      rfl
    · have hstale : report.generation = entry.generation ∧ report.counterSeq ≤ entry.counterSeq := by omega
      simp only [if_neg holder, if_pos hstale]
      rfl
  · cases hentry : (hearAll reports).ledger.entries.get? report.dpIndex with
    | none =>
      rw [hentry, Option.map_none, eq_comm, Option.map_eq_none_iff] at hcurrent
      unfold Ledger.apply
      simp only [hentry, hcurrent]
      simp
    | some entry =>
      rw [hentry, Option.map_some, eq_comm, Option.map_eq_some_iff] at hcurrent
      obtain ⟨last, hlast, heq⟩ := hcurrent
      obtain ⟨hgeneration, hseq⟩ := Prod.mk.inj heq
      unfold Ledger.apply
      simp only [hentry, hlast, Option.some.injEq, exists_eq_left', hgeneration]
      by_cases holder : report.generation < entry.generation
      · simp only [holder, if_true]
      · simp only [holder, if_false, iff_false]
        split
        · exact nofun
        · split <;> exact nofun
  · unfold Ledger.deliver
    rw [hraised]
    rfl

end Heard

end SglangOmni.Router
