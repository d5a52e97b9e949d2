import SglangOmni.Router.Counters

/-! What a view keeps of its worker objects.

An object that the view has let go of, or on which nothing runs any more once it retires, is settled: it counts nothing
more. Requests, snapshots and releases only move a view forward, and a snapshot gives up no object that has counted. -/
namespace SglangOmni.Router.Counting
open Lib

namespace View

variable {v v' v'' : View} {o : Nat} {entry : SnapshotEntry} {entries : List SnapshotEntry}

theorem mem_reportable : o ∈ v.reportable ↔ (∃ url, v.workers.get? url = some o) ∨ o ∈ v.retiring := by
  rw [reportable, List.mem_append, List.mem_map]
  refine or_congr ?_ Iff.rfl
  constructor
  · intro ⟨e, he, heq⟩
    exact ⟨e.1, heq ▸ (Dict.mem_entries _ _ _).mp he⟩
  · intro ⟨url, hurl⟩
    exact ⟨(url, o), (Dict.mem_entries _ _ _).mpr hurl, rfl⟩

/-- How the objects of a view stand. -/
structure Fits (v : View) : Prop where
  keyed : ∀ url o, v.workers.get? url = some o → o < v.created ∧ (v.objects o).url = url
  nodup : v.retiring.Nodup
  apart : ∀ o ∈ v.retiring, o < v.created ∧ ∀ url, v.workers.get? url ≠ some o
  idle : ∀ o, o ∉ v.reportable → (v.objects o).active = 0
  bounded : ∀ o c, o < v.created → (v.objects o).counts c ≤ (v.objects o).counts (.total .routed)
  own : ∀ o n, o < v.created → (v.objects o).incarnation = .own n → n = o
  distinct : ∀ o o', o < v.created → o' < v.created → (v.objects o).url = (v.objects o').url →
    (v.objects o).incarnation = (v.objects o').incarnation → o = o'

/-- An object that counts nothing more: nothing runs on it, and nothing will. -/
structure Settled (v : View) (o : Nat) : Prop where
  created : o < v.created
  idle : (v.objects o).active = 0
  unrouted : ∀ url, v.workers.get? url ≠ some o

/-- The view later on. -/
structure Moves (v v' : View) : Prop where
  created : v.created ≤ v'.created
  same : ∀ o, o < v.created → (v'.objects o).url = (v.objects o).url ∧
    (v'.objects o).incarnation = (v.objects o).incarnation ∧ ∀ c, (v.objects o).counts c ≤ (v'.objects o).counts c
  settled : ∀ o, v.Settled o → v'.Settled o ∧ (v'.objects o).counts = (v.objects o).counts
  gone : ∀ o, o < v.created → o ∉ v.reportable → o ∉ v'.reportable

theorem Moves.refl (v : View) : Moves v v where
  created := Nat.le_refl _
  same _ _ := ⟨rfl, rfl, fun _ => Nat.le_refl _⟩
  settled _ h := ⟨h, rfl⟩
  gone _ _ h := h

theorem Moves.trans (h : Moves v v') (h' : Moves v' v'') : Moves v v'' where
  created := Nat.le_trans h.created h'.created
  same o ho := by
    obtain ⟨hurl, hincarnation, hcounts⟩ := h.same o ho
    obtain ⟨hurl', hincarnation', hcounts'⟩ := h'.same o (Nat.lt_of_lt_of_le ho h.created)
    exact ⟨hurl'.trans hurl, hincarnation'.trans hincarnation, fun c => Nat.le_trans (hcounts c) (hcounts' c)⟩
  settled o ho := by
    obtain ⟨hsettled, hcounts⟩ := h.settled o ho
    obtain ⟨hsettled', hcounts'⟩ := h'.settled o hsettled
    exact ⟨hsettled', hcounts'.trans hcounts⟩
  gone o ho hgone := h'.gone o (Nat.lt_of_lt_of_le ho h.created) (h.gone o ho hgone)

theorem Fits.lt_of_reportable (h : Fits v) (ho : o ∈ v.reportable) : o < v.created := by
  cases mem_reportable.mp ho with
  | inl hworker =>
    obtain ⟨url, hurl⟩ := hworker
    exact (h.keyed url o hurl).1
  | inr hretiring => exact (h.apart o hretiring).1

/-- Nothing runs on what a view has let go of. -/
theorem Fits.settled (h : Fits v) (created : o < v.created) (gone : o ∉ v.reportable) : v.Settled o where
  created := created
  idle := h.idle o gone
  unrouted url hurl := gone (mem_reportable.mpr (.inl ⟨url, hurl⟩))

theorem Fits.settled_of_drained (h : Fits v) (drained : o ∈ v.drainedRetired) : v.Settled o := by
  obtain ⟨hretiring, hidle⟩ := List.mem_filter.mp drained
  exact ⟨(h.apart o hretiring).1, of_decide_eq_true hidle, (h.apart o hretiring).2⟩

/-! ### Requests -/

/-- A step of a request on an object that is not settled. -/
theorem fits_setObject (h : Fits v) {w : WorkerObject} (url : w.url = (v.objects o).url)
    (incarnation : w.incarnation = (v.objects o).incarnation) (idle : o ∉ v.reportable → w.active = 0)
    (bounded : (∀ c, (v.objects o).counts c ≤ (v.objects o).counts (.total .routed)) →
      ∀ c, w.counts c ≤ w.counts (.total .routed)) : Fits (v.setObject o w) := by
  have hurl : ∀ x, ((v.setObject o w).objects x).url = (v.objects x).url := fun x => by
    by_cases hx : x = o
    · rw [hx]
      exact (congrArg WorkerObject.url (Function.update_self ..)).trans url
    · exact congrArg WorkerObject.url (Function.update_of_ne hx ..)
  have hincarnation : ∀ x, ((v.setObject o w).objects x).incarnation = (v.objects x).incarnation := fun x => by
    by_cases hx : x = o
    · rw [hx]
      exact (congrArg WorkerObject.incarnation (Function.update_self ..)).trans incarnation
    · exact congrArg WorkerObject.incarnation (Function.update_of_ne hx ..)
  refine ⟨fun x o' ho' => ?_, h.nodup, h.apart, fun x hgone => ?_, fun x c hx => ?_, fun x n hx hn => ?_,
    fun x x' hx hx' hu hi => ?_⟩
  · rw [hurl]
    exact h.keyed x o' ho'
  · by_cases hxo : x = o
    · rw [hxo] at hgone ⊢
      exact (congrArg WorkerObject.active (Function.update_self ..)).trans (idle hgone)
    · exact (congrArg WorkerObject.active (Function.update_of_ne hxo ..)).trans (h.idle x hgone)
  · by_cases hxo : x = o
    · rw [hxo] at hx ⊢
      have hself : (v.setObject o w).objects o = w := Function.update_self ..
      rw [hself]
      exact bounded (fun c => h.bounded o c hx) c
    · have hother : (v.setObject o w).objects x = v.objects x := Function.update_of_ne hxo ..
      rw [hother]
      exact h.bounded x c hx
  · rw [hincarnation] at hn
    exact h.own x n hx hn
  · rw [hurl, hurl] at hu
    rw [hincarnation, hincarnation] at hi
    exact h.distinct x x' hx hx' hu hi

theorem moves_setObject {w : WorkerObject} (url : w.url = (v.objects o).url)
    (incarnation : w.incarnation = (v.objects o).incarnation) (counts : ∀ c, (v.objects o).counts c ≤ w.counts c)
    (unsettled : ¬ v.Settled o) : Moves v (v.setObject o w) := by
  refine ⟨Nat.le_refl _, fun x _ => ?_, fun x hx => ?_, fun x _ hgone => hgone⟩
  · by_cases hxo : x = o
    · have hself : (v.setObject o w).objects o = w := Function.update_self ..
      rw [hxo, hself]
      exact ⟨url, incarnation, counts⟩
    · have hother : (v.setObject o w).objects x = v.objects x := Function.update_of_ne hxo ..
      rw [hother]
      exact ⟨rfl, rfl, fun _ => Nat.le_refl _⟩
  · have hxo : x ≠ o := fun heq => unsettled (heq ▸ hx)
    have hother : (v.setObject o w).objects x = v.objects x := Function.update_of_ne hxo ..
    exact ⟨⟨hx.created, hother ▸ hx.idle, hx.unrouted⟩, congrArg WorkerObject.counts hother⟩

theorem le_increment (counts : Counts) (c c' : Counter) : counts c' ≤ increment counts c c' := by
  unfold increment
  by_cases h : c' = c
  · rw [h, Function.update_self]
    exact Nat.le_succ _
  · rw [Function.update_of_ne h]

theorem le_recordRoutedRequest (counts : Counts) (statusCode : Option Nat) (serviceClass : ServiceClass) (c : Counter) :
    counts c ≤ recordRoutedRequest counts statusCode serviceClass c := by
  unfold recordRoutedRequest
  split
  · exact Nat.le_trans (le_increment _ _ _) (Nat.le_trans (le_increment _ _ _) (Nat.le_trans (le_increment _ _ _)
      (le_increment _ _ _)))
  · exact Nat.le_trans (le_increment _ _ _) (Nat.le_trans (le_increment _ _ _) (Nat.le_trans (le_increment _ _ _)
      (le_increment _ _ _)))

/-- Every request is routed: no counter goes ahead of that. -/
theorem recordRoutedRequest_bounded {counts : Counts} (h : ∀ c, counts c ≤ counts (.total .routed))
    (statusCode : Option Nat) (serviceClass : ServiceClass) (c : Counter) :
    recordRoutedRequest counts statusCode serviceClass c ≤
      recordRoutedRequest counts statusCode serviceClass (.total .routed) := by
  have hc := h c
  have hclass := h (.byClass .routed serviceClass)
  unfold recordRoutedRequest
  split
  · have htotal := h (.total .successful)
    have hkey := h (.byClass .successful serviceClass)
    simp only [increment, Function.update_apply, reduceCtorEq, if_false, if_true, Counter.total.injEq,
      Counter.byClass.injEq, false_and]
    repeat' split
    all_goals omega
  · have htotal := h (.total .failed)
    have hkey := h (.byClass .failed serviceClass)
    simp only [increment, Function.update_apply, reduceCtorEq, if_false, if_true, Counter.total.injEq,
      Counter.byClass.injEq, false_and]
    repeat' split
    all_goals omega

/-- What a request does to a view. -/
def RequestStep (v v' : View) : Prop :=
  Fits v' ∧ Moves v v' ∧ v'.reportable = v.reportable ∧ v'.workers = v.workers ∧ v'.created = v.created

theorem begin_step (h : Fits v) (url : String) : RequestStep v (v.begin url) := by
  unfold begin
  cases hurl : v.workers.get? url with
  | none => exact ⟨h, Moves.refl v, rfl, rfl, rfl⟩
  | some o =>
    have hreportable : o ∈ v.reportable := mem_reportable.mpr (.inl ⟨url, hurl⟩)
    refine ⟨fits_setObject h rfl rfl (fun hgone => absurd hreportable hgone) (fun hbounded => hbounded),
      moves_setObject rfl rfl (fun _ => Nat.le_refl _) (fun hsettled => hsettled.unrouted url hurl), rfl, rfl, rfl⟩

theorem complete_step (h : Fits v) (o : Nat) (statusCode : Option Nat) (serviceClass : ServiceClass) :
    RequestStep v (v.complete o statusCode serviceClass) := by
  unfold complete
  split
  · exact ⟨h, Moves.refl v, rfl, rfl, rfl⟩
  · next hactive =>
    refine ⟨fits_setObject h rfl rfl (fun hgone => ?_) (fun hbounded => ?_),
      moves_setObject rfl rfl (fun c => le_recordRoutedRequest _ _ _ c) (fun hsettled => hactive hsettled.idle),
      rfl, rfl, rfl⟩
    · exact absurd (h.idle o hgone) hactive
    · exact recordRoutedRequest_bounded hbounded statusCode serviceClass

theorem abandon_step (h : Fits v) (o : Nat) : RequestStep v (v.abandon o) := by
  unfold abandon
  split
  · exact ⟨h, Moves.refl v, rfl, rfl, rfl⟩
  · next hactive =>
    exact ⟨fits_setObject h rfl rfl (fun hgone => absurd (h.idle o hgone) hactive) (fun hbounded => hbounded),
      moves_setObject rfl rfl (fun _ => Nat.le_refl _) (fun hsettled => hactive hsettled.idle), rfl, rfl, rfl⟩

/-! ### Snapshots -/

/-- The worker of a URL is replaced by a new one, or by none. -/
structure Replaced (v v' : View) (url : String) (fresh : Option Incarnation) : Prop where
  workers : ∀ x, v'.workers.get? x = if x = url then fresh.map (fun _ => v.created) else v.workers.get? x
  retiring : v'.retiring = v.retiring ++ (v.workers.get? url).toList.filter v.keeps
  created : v'.created = v.created + fresh.toList.length
  new : ∀ i, fresh = some i → v'.objects v.created = { url, incarnation := i }
  same : ∀ o, fresh = none ∨ o ≠ v.created → v'.objects o = v.objects o

namespace Replaced

variable {url : String} {fresh : Option Incarnation} {o : Nat}

theorem old (h : Replaced v v' url fresh) (o : Nat) (created : o < v.created) : v'.objects o = v.objects o :=
  h.same o (.inr (Nat.ne_of_lt created))

theorem lt_created (h : Replaced v v' url fresh) (ho : o < v'.created) :
    o < v.created ∨ o = v.created ∧ ∃ i, fresh = some i := by
  rw [h.created] at ho
  cases fresh with
  | none => exact .inl ho
  | some i =>
    simp only [Option.toList_some, List.length_singleton] at ho
    by_cases hlt : o < v.created
    · exact .inl hlt
    · exact .inr ⟨by omega, i, rfl⟩

/-- An object that was reportable still is, unless it has counted nothing and nothing runs on it. -/
theorem dropped (h : Replaced v v' url fresh) (before : o ∈ v.reportable) (after : o ∉ v'.reportable) :
    v.keeps o = false := by
  cases hkeeps : v.keeps o with
  | false => rfl
  | true =>
    refine absurd (mem_reportable.mpr ?_) after
    cases mem_reportable.mp before with
    | inr hretiring =>
      rw [h.retiring]
      exact .inr (List.mem_append_left _ hretiring)
    | inl hworker =>
      obtain ⟨x, hx⟩ := hworker
      by_cases hurl : x = url
      · rw [h.retiring]
        refine .inr (List.mem_append_right _ (List.mem_filter.mpr ⟨?_, hkeeps⟩))
        rw [← hurl, hx]
        exact List.mem_singleton_self o
      · exact .inl ⟨x, by rw [h.workers, if_neg hurl, hx]⟩

theorem mem_retiring (h : Replaced v v' url fresh) (ho : o ∈ v'.retiring) :
    o ∈ v.retiring ∨ v.workers.get? url = some o := by
  rw [h.retiring, List.mem_append] at ho
  cases ho with
  | inl hold => exact .inl hold
  | inr hnew => exact .inr (Option.mem_toList.mp (List.mem_filter.mp hnew).1)

/-- An object that is not the fresh one is routed to where it was before. -/
theorem worker_old (h : Replaced v v' url fresh) (created : o < v.created) {x : String}
    (hx : v'.workers.get? x = some o) : x ≠ url ∧ v.workers.get? x = some o := by
  rw [h.workers] at hx
  by_cases hurl : x = url
  · rw [if_pos hurl] at hx
    obtain ⟨i, _, hi⟩ := Option.map_eq_some_iff.mp hx
    omega
  · rw [if_neg hurl] at hx
    exact ⟨hurl, hx⟩

theorem reportable_old (h : Replaced v v' url fresh) (created : o < v.created) (after : o ∈ v'.reportable) :
    o ∈ v.reportable := by
  refine mem_reportable.mpr ?_
  cases mem_reportable.mp after with
  | inr hretiring =>
    cases h.mem_retiring hretiring with
    | inl hold => exact .inr hold
    | inr hworker => exact .inl ⟨url, hworker⟩
  | inl hworker =>
    obtain ⟨x, hx⟩ := hworker
    exact .inl ⟨x, (h.worker_old created hx).2⟩

theorem keeps_eq_false (h : v.keeps o = false) :
    (v.objects o).active = 0 ∧ (v.objects o).counts (.total .routed) = 0 := by
  simpa [View.keeps] using h

theorem moves (h : Replaced v v' url fresh) : Moves v v' where
  created := h.created ▸ Nat.le_add_right _ _
  same o ho := by
    rw [h.old o ho]
    exact ⟨rfl, rfl, fun _ => Nat.le_refl _⟩
  settled o ho := by
    have hold := h.old o ho.created
    refine ⟨⟨Nat.lt_of_lt_of_le ho.created (h.created ▸ Nat.le_add_right _ _), hold ▸ ho.idle, fun x hx => ?_⟩,
      congrArg WorkerObject.counts hold⟩
    exact ho.unrouted x (h.worker_old ho.created hx).2
  gone o ho hgone hafter := hgone (h.reportable_old ho hafter)

theorem fits (h : Replaced v v' url fresh) (fits : Fits v)
    (unused : ∀ i, fresh = some i → ∀ o, o < v.created → (v.objects o).url = url → (v.objects o).incarnation ≠ i)
    (own : ∀ n, fresh = some (.own n) → n = v.created) : Fits v' := by
  have hle : v.created ≤ v'.created := h.created ▸ Nat.le_add_right _ _
  refine ⟨fun x o hx => ?_, ?_, fun o ho => ?_, fun o hgone => ?_, fun o c ho => ?_, fun o n ho hn => ?_,
    fun o o' ho ho' hurl hincarnation => ?_⟩
  · rw [h.workers] at hx
    by_cases hurl : x = url
    · rw [if_pos hurl] at hx
      obtain ⟨i, hi, heq⟩ := Option.map_eq_some_iff.mp hx
      subst heq
      refine ⟨?_, ?_⟩
      · rw [h.created, hi]
        exact Nat.lt_succ_self _
      · rw [h.new i hi, hurl]
    · rw [if_neg hurl] at hx
      obtain ⟨hlt, hkeyed⟩ := fits.keyed x o hx
      rw [h.old o hlt]
      exact ⟨Nat.lt_of_lt_of_le hlt hle, hkeyed⟩
  · rw [h.retiring]
    refine List.nodup_append.mpr ⟨fits.nodup, ?_, fun o ho o' ho' heq => ?_⟩
    · cases v.workers.get? url with
      | none => exact List.nodup_nil
      | some o => exact (List.nodup_singleton o).filter _
    · have hworker := Option.mem_toList.mp (List.mem_filter.mp ho').1
      exact (fits.apart o ho).2 url (heq ▸ hworker)
  · have hlt : o < v.created ∧ ∀ x, x ≠ url → v.workers.get? x ≠ some o := by
      cases h.mem_retiring ho with
      | inl hold => exact ⟨(fits.apart o hold).1, fun x _ => (fits.apart o hold).2 x⟩
      | inr hworker =>
        obtain ⟨hlt, hkeyed⟩ := fits.keyed url o hworker
        exact ⟨hlt, fun x hne hx => hne ((fits.keyed x o hx).2.symm.trans hkeyed)⟩
    refine ⟨Nat.lt_of_lt_of_le hlt.1 hle, fun x hx => ?_⟩
    obtain ⟨hurl, hx⟩ := h.worker_old hlt.1 hx
    exact hlt.2 x hurl hx
  · by_cases hlt : o < v.created
    · rw [h.old o hlt]
      by_cases hbefore : o ∈ v.reportable
      · exact (keeps_eq_false (h.dropped hbefore hgone)).1
      · exact fits.idle o hbefore
    · have hbefore : o ∉ v.reportable := fun hmem => hlt (fits.lt_of_reportable hmem)
      by_cases heq : o = v.created
      · cases hfresh : fresh with
        | none =>
          rw [h.same o (.inl hfresh)]
          exact fits.idle o hbefore
        | some i => rw [heq, h.new i hfresh]
      · rw [h.same o (.inr heq)]
        exact fits.idle o hbefore
  · cases h.lt_created ho with
    | inl hlt =>
      rw [h.old o hlt]
      exact fits.bounded o c hlt
    | inr hnew =>
      obtain ⟨heq, i, hi⟩ := hnew
      rw [heq, h.new i hi]
  · cases h.lt_created ho with
    | inl hlt =>
      rw [h.old o hlt] at hn
      exact fits.own o n hlt hn
    | inr hnew =>
      obtain ⟨heq, i, hi⟩ := hnew
      rw [heq, h.new i hi] at hn
      simp only at hn
      rw [heq]
      exact own n (hn ▸ hi)
  · cases h.lt_created ho with
    | inl hlt =>
      rw [h.old o hlt] at hurl hincarnation
      cases h.lt_created ho' with
      | inl hlt' =>
        rw [h.old o' hlt'] at hurl hincarnation
        exact fits.distinct o o' hlt hlt' hurl hincarnation
      | inr hnew' =>
        obtain ⟨heq', i, hi⟩ := hnew'
        rw [heq', h.new i hi] at hurl hincarnation
        exact absurd hincarnation (unused i hi o hlt hurl)
    | inr hnew =>
      obtain ⟨heq, i, hi⟩ := hnew
      cases h.lt_created ho' with
      | inl hlt' =>
        rw [heq, h.new i hi, h.old o' hlt'] at hurl hincarnation
        exact absurd hincarnation.symm (unused i hi o' hlt' hurl.symm)
      | inr hnew' => exact heq.trans hnew'.1.symm

end Replaced

theorem retire_eq (v : View) (o : Nat) :
    v.retire o = { v with retiring := v.retiring ++ [o].filter v.keeps } := by
  unfold retire
  by_cases h : v.keeps o = true
  · rw [if_pos h, List.filter_cons_of_pos h]
    rfl
  · rw [if_neg h, List.filter_cons_of_neg h, List.filter_nil, List.append_nil]

theorem create_replaced (h : v.workers.get? entry.url = none) :
    Replaced v (v.create entry) entry.url (some (v.incarnationFor entry)) where
  workers x := Dict.get?_set _ _ _ _
  retiring := by
    rw [h]
    exact (List.append_nil _).symm
  created := rfl
  new i hi := by
    cases hi
    exact Function.update_self ..
  same o ho := Function.update_of_ne (ho.resolve_left (by simp)) ..

theorem replace_replaced (h : v.workers.get? entry.url = some o) :
    Replaced v ((v.retire o).create entry) entry.url (some (v.incarnationFor entry)) := by
  rw [retire_eq]
  exact
    { workers := fun x => Dict.get?_set _ _ _ _
      retiring := by
        rw [h]
        rfl
      created := rfl
      new := fun i hi => by
        cases hi
        exact Function.update_self ..
      same := fun o ho => Function.update_of_ne (ho.resolve_left (by simp)) .. }

theorem remove_replaced {url : String} (h : v.workers.get? url = some o) :
    Replaced v (v.remove url) url none := by
  simp only [remove, h]
  rw [retire_eq]
  exact
    { workers := fun x => Dict.get?_pop _ _ _
      retiring := by
        rw [h]
        rfl
      created := rfl
      new := fun i hi => nomatch hi
      same := fun _ _ => rfl }

/-- No object but the worker of the URL has the incarnation of the entry. -/
def Unused (v : View) (entry : SnapshotEntry) : Prop :=
  ∀ n o, entry.incarnation = some n → o < v.created → (v.objects o).url = entry.url →
    (v.objects o).incarnation = .registered n → v.workers.get? entry.url = some o

/-- The worker of the URL has the incarnation of the entry. -/
def Current (v : View) (entry : SnapshotEntry) : Prop :=
  ∀ n, entry.incarnation = some n →
    ∃ o, v.workers.get? entry.url = some o ∧ (v.objects o).incarnation = .registered n

/-- What a snapshot does to a view: nothing is lost that has counted, and what is new is of the snapshot. -/
structure Renews (entries : List SnapshotEntry) (v v' : View) : Prop where
  fits : Fits v'
  moves : Moves v v'
  dropped : ∀ o, o < v'.created → o ∉ v'.reportable →
    o < v.created ∧ o ∉ v.reportable ∨ ∀ c, (v'.objects o).counts c = 0
  new : ∀ o, v.created ≤ o → o < v'.created → ∃ e ∈ entries, (v'.objects o).url = e.url ∧
    ∀ n, (v'.objects o).incarnation = .registered n → e.incarnation = some n

theorem Renews.refl (entries : List SnapshotEntry) (h : Fits v) : Renews entries v v :=
  ⟨h, Moves.refl v, fun _ ho hgone => .inl ⟨ho, hgone⟩, fun _ hle hlt => absurd hlt (Nat.not_lt.mpr hle)⟩

theorem Renews.trans (h : Renews entries v v') (h' : Renews entries v' v'') :
    Renews entries v v'' := by
  refine ⟨h'.fits, h.moves.trans h'.moves, fun o ho hgone => ?_, fun o hle hlt => ?_⟩
  · cases h'.dropped o ho hgone with
    | inr hzero => exact .inr hzero
    | inl hbefore =>
      cases h.dropped o hbefore.1 hbefore.2 with
      | inl hold => exact .inl hold
      | inr hzero =>
        have hcounts := (h'.moves.settled o (h.fits.settled hbefore.1 hbefore.2)).2
        exact .inr fun c => by rw [hcounts, hzero c]
  · by_cases hnew : v'.created ≤ o
    · exact h'.new o hnew hlt
    · have hlt' : o < v'.created := Nat.lt_of_not_le hnew
      obtain ⟨e, he, hurl, hincarnation⟩ := h.new o hle hlt'
      obtain ⟨hsame, hsame', _⟩ := h'.moves.same o hlt'
      exact ⟨e, he, hsame.trans hurl, fun n hn => hincarnation n (hsame' ▸ hn)⟩

theorem Replaced.renews {url : String} {fresh : Option Incarnation}
    (h : Replaced v v' url fresh) (fits : Fits v) (fits' : Fits v')
    (new : ∀ i, fresh = some i → ∃ e ∈ entries, url = e.url ∧ ∀ n, i = .registered n → e.incarnation = some n) :
    Renews entries v v' := by
  refine ⟨fits', h.moves, fun o ho hgone => ?_, fun o hle hlt => ?_⟩
  · cases h.lt_created ho with
    | inr hnew =>
      obtain ⟨heq, i, hi⟩ := hnew
      exact .inr fun c => by rw [heq, h.new i hi]
    | inl hlt =>
      by_cases hbefore : o ∈ v.reportable
      · have hrouted := (Replaced.keeps_eq_false (h.dropped hbefore hgone)).2
        refine .inr fun c => ?_
        rw [h.old o hlt]
        have hbounded := fits.bounded o c hlt
        omega
      · exact .inl ⟨hlt, hbefore⟩
  · cases h.lt_created hlt with
    | inl hold => exact absurd hold (Nat.not_lt.mpr hle)
    | inr hnew =>
      obtain ⟨heq, i, hi⟩ := hnew
      obtain ⟨e, he, hurl, hincarnation⟩ := new i hi
      rw [heq, h.new i hi]
      exact ⟨e, he, hurl, hincarnation⟩

theorem incarnationFor_own {n : Nat} (h : v.incarnationFor entry = .own n) : n = v.created := by
  unfold incarnationFor at h
  split at h
  · cases h
  · cases h
    rfl

theorem incarnationFor_registered {n : Nat} (h : v.incarnationFor entry = .registered n) :
    entry.incarnation = some n := by
  unfold incarnationFor at h
  split at h
  · next m hm =>
    cases h
    exact hm
  · cases h

/-- The incarnation of a new object is not that of another under the URL. -/
theorem incarnationFor_unused (fits : Fits v) (unused : Unused v entry)
    (changed : ∀ o, v.workers.get? entry.url = some o → v.incarnationChanged entry o = true)
    (ho : o < v.created) (hurl : (v.objects o).url = entry.url) :
    (v.objects o).incarnation ≠ v.incarnationFor entry := by
  intro heq
  unfold incarnationFor at heq
  split at heq
  · next n hn =>
    have hchanged := changed o (unused n o hn ho hurl heq)
    simp [incarnationChanged, hn, heq] at hchanged
  · have hown := fits.own o v.created ho heq
    omega

theorem applyEntry_cases (v : View) (entry : SnapshotEntry) :
    (∃ o, v.workers.get? entry.url = some o ∧ v.incarnationChanged entry o = false ∧ v.applyEntry entry = v) ∨
      (∀ o, v.workers.get? entry.url = some o → v.incarnationChanged entry o = true) ∧
        Replaced v (v.applyEntry entry) entry.url (some (v.incarnationFor entry)) := by
  unfold applyEntry
  cases hworker : v.workers.get? entry.url with
  | none => exact .inr ⟨(fun _ h => nomatch h), create_replaced hworker⟩
  | some o =>
    cases hchanged : v.incarnationChanged entry o with
    | false => exact .inl ⟨o, rfl, hchanged, by simp [hchanged]⟩
    | true =>
      refine .inr ⟨fun o' ho' => ?_, ?_⟩
      · cases ho'
        exact hchanged
      · simp only [hchanged, if_true]
        exact replace_replaced hworker

/-- One entry of a snapshot. -/
theorem applyEntry_step (fits : Fits v) (mem : entry ∈ entries) (unused : Unused v entry) :
    Renews entries v (v.applyEntry entry) ∧ Current (v.applyEntry entry) entry ∧
      ∀ e : SnapshotEntry, e.url ≠ entry.url →
        (Unused v e → Unused (v.applyEntry entry) e) ∧ (Current v e → Current (v.applyEntry entry) e) := by
  cases applyEntry_cases v entry with
  | inl hsame =>
    obtain ⟨o, hworker, hunchanged, heq⟩ := hsame
    rw [heq]
    refine ⟨Renews.refl entries fits, fun n hn => ⟨o, hworker, ?_⟩, fun e _ => ⟨id, id⟩⟩
    simpa [incarnationChanged, hn] using hunchanged
  | inr hreplaced =>
    obtain ⟨hchanged, h⟩ := hreplaced
    have hfits : Fits (v.applyEntry entry) := h.fits fits
      (fun i hi o ho hurl => by
        cases hi
        exact incarnationFor_unused fits unused hchanged ho hurl)
      (fun n hn => incarnationFor_own (Option.some.inj hn))
    refine ⟨h.renews fits hfits fun i hi => ?_, fun n hn => ⟨v.created, ?_, ?_⟩, fun e hne => ⟨fun hunused => ?_,
      fun hcurrent => ?_⟩⟩
    · cases hi
      exact ⟨entry, mem, rfl, fun n hn => incarnationFor_registered hn⟩
    · rw [h.workers, if_pos rfl]
      rfl
    · rw [h.new _ rfl]
      simp only [incarnationFor, hn]
    · intro n o hn ho hurl hincarnation
      rw [h.workers, if_neg hne]
      cases h.lt_created ho with
      | inl hlt =>
        rw [h.old o hlt] at hurl hincarnation
        exact hunused n o hn hlt hurl hincarnation
      | inr hnew =>
        obtain ⟨heq, i, hi⟩ := hnew
        rw [heq, h.new i hi] at hurl
        exact absurd hurl.symm hne
    · intro n hn
      obtain ⟨o, hworker, hincarnation⟩ := hcurrent n hn
      refine ⟨o, ?_, ?_⟩
      · rw [h.workers, if_neg hne, hworker]
      · rw [h.old o (fits.keyed e.url o hworker).1, hincarnation]

theorem foldl_applyEntry {rest : List SnapshotEntry} (sub : ∀ e ∈ rest, e ∈ entries)
    (distinct : (rest.map (·.url)).Nodup) (fits : Fits v) (unused : ∀ e ∈ rest, Unused v e) :
    Renews entries v (rest.foldl applyEntry v) ∧ (∀ e ∈ rest, Current (rest.foldl applyEntry v) e) ∧
      ∀ e : SnapshotEntry, (∀ e' ∈ rest, e.url ≠ e'.url) → Current v e → Current (rest.foldl applyEntry v) e := by
  induction rest generalizing v with
  | nil => exact ⟨Renews.refl entries fits, (fun _ he => nomatch he), fun _ _ h => h⟩
  | cons entry rest ih =>
    rw [List.map_cons, List.nodup_cons] at distinct
    have hne : ∀ e ∈ rest, e.url ≠ entry.url := fun e he heq =>
      distinct.1 (heq ▸ List.mem_map_of_mem (f := (·.url)) he)
    obtain ⟨hrenews, hcurrent, hothers⟩ :=
      applyEntry_step fits (sub entry List.mem_cons_self) (unused entry List.mem_cons_self)
    obtain ⟨hrest, hcurrents, hkept⟩ := ih (fun e he => sub e (List.mem_cons_of_mem _ he)) distinct.2 hrenews.fits
      fun e he => (hothers e (hne e he)).1 (unused e (List.mem_cons_of_mem _ he))
    refine ⟨hrenews.trans hrest, fun e he => ?_, fun e hnot h => ?_⟩
    · cases List.mem_cons.mp he with
      | inl heq => exact heq ▸ hkept entry (fun e' he' => Ne.symm (hne e' he')) hcurrent
      | inr hmem => exact hcurrents e hmem
    · refine hkept e (fun e' he' => hnot e' (List.mem_cons_of_mem _ he')) ?_
      exact (hothers e (hnot entry List.mem_cons_self)).2 h

theorem remove_step (entries : List SnapshotEntry) (fits : Fits v) (url : String) :
    Renews entries v (v.remove url) ∧
      ∀ e : SnapshotEntry, e.url ≠ url → Current v e → Current (v.remove url) e := by
  cases hworker : v.workers.get? url with
  | none =>
    have hsame : v.remove url = v := by simp only [remove, hworker]
    rw [hsame]
    exact ⟨Renews.refl entries fits, fun _ _ h => h⟩
  | some o =>
    have h := remove_replaced hworker
    have hfits : Fits (v.remove url) := h.fits fits (fun i hi => nomatch hi) (fun n hn => nomatch hn)
    refine ⟨h.renews fits hfits (fun i hi => nomatch hi), fun e hne hcurrent n hn => ?_⟩
    obtain ⟨o', hworker', hincarnation⟩ := hcurrent n hn
    refine ⟨o', ?_, ?_⟩
    · rw [h.workers, if_neg hne, hworker']
    · rw [h.old o' (fits.keyed e.url o' hworker').1, hincarnation]

theorem foldl_remove (entries : List SnapshotEntry) (fits : Fits v) (urls : List String) :
    Renews entries v (urls.foldl remove v) ∧
      ∀ e : SnapshotEntry, e.url ∉ urls → Current v e → Current (urls.foldl remove v) e := by
  induction urls generalizing v with
  | nil => exact ⟨Renews.refl entries fits, fun _ _ h => h⟩
  | cons url rest ih =>
    obtain ⟨hrenews, hkept⟩ := remove_step entries fits url
    obtain ⟨hrest, hkeptRest⟩ := ih hrenews.fits
    refine ⟨hrenews.trans hrest, fun e he h => ?_⟩
    rw [List.mem_cons, not_or] at he
    exact hkeptRest e he.2 (hkept e he.1 h)

/-- **A snapshot loses nothing that has counted.** -/
theorem apply_step (distinct : (entries.map (·.url)).Nodup) (fits : Fits v) (unused : ∀ e ∈ entries, Unused v e) :
    Renews entries v (v.apply entries) ∧ ∀ e ∈ entries, Current (v.apply entries) e := by
  obtain ⟨hrenews, hcurrents, _⟩ := foldl_applyEntry (fun _ he => he) distinct fits unused
  obtain ⟨hremoved, hkept⟩ := foldl_remove entries hrenews.fits
    ((entries.foldl applyEntry v).workers.keys.filter fun url => entries.all (·.url ≠ url))
  refine ⟨hrenews.trans hremoved, fun e he => hkept e (fun hmem => ?_) (hcurrents e he)⟩
  have hall := List.all_eq_true.mp (List.mem_filter.mp hmem).2 e he
  simp at hall

/-! ### Reports -/

/-- Objects that count nothing more are let go. -/
theorem releaseRetired_step (fits : Fits v) {reported : List Nat} (settled : ∀ o ∈ reported, v.Settled o) :
    Fits (v.releaseRetired reported) ∧ Moves v (v.releaseRetired reported) ∧
      ∀ o, o ∉ (v.releaseRetired reported).reportable → o ∉ v.reportable ∨ o ∈ reported := by
  have hgone : ∀ o, o ∉ (v.releaseRetired reported).reportable → o ∉ v.reportable ∨ o ∈ reported := fun o ho => by
    by_cases hreported : o ∈ reported
    · exact .inr hreported
    · refine .inl fun hmem => ho (mem_reportable.mpr ?_)
      cases mem_reportable.mp hmem with
      | inl hworker => exact .inl hworker
      | inr hretiring => exact .inr (List.mem_filter.mpr ⟨hretiring, decide_eq_true hreported⟩)
  have hsub : ∀ o, o ∈ (v.releaseRetired reported).retiring → o ∈ v.retiring := fun o ho => List.mem_of_mem_filter ho
  refine ⟨⟨fits.keyed, fits.nodup.filter _, fun o ho => fits.apart o (hsub o ho), fun o ho => ?_,
    fits.bounded, fits.own,
    fits.distinct⟩, ⟨Nat.le_refl _, fun _ _ => ⟨rfl, rfl, fun _ => Nat.le_refl _⟩,
      fun o ho => ⟨⟨ho.created, ho.idle, ho.unrouted⟩, rfl⟩, fun o _ hbefore hafter => hbefore ?_⟩, hgone⟩
  · cases hgone o ho with
    | inl hbefore => exact fits.idle o hbefore
    | inr hreported => exact (settled o hreported).idle
  · cases mem_reportable.mp hafter with
    | inl hworker => exact mem_reportable.mpr (.inl hworker)
    | inr hretiring => exact mem_reportable.mpr (.inr (hsub o hretiring))

/-- What an object had counted, in a view that may not have had it yet. -/
def countsAt (v : View) (o : Nat) (c : Counter) : Nat := if o < v.created then (v.objects o).counts c else 0

theorem countsAt_le (h : Moves v v') (o : Nat) (c : Counter) : v.countsAt o c ≤ v'.countsAt o c := by
  unfold countsAt
  split
  · next hlt =>
    rw [if_pos (Nat.lt_of_lt_of_le hlt h.created)]
    exact (h.same o hlt).2.2 c
  · exact Nat.zero_le _

/-- What the objects of a worker id come to, each for what is said of it. -/
def sumOf (v : View) (id : String) (f : Nat → Nat) : Nat :=
  ∑ o ∈ Finset.range v.created, if (v.objects o).url = id then f o else 0

/-- The same, for the objects that are reported. -/
def sumReported (v : View) (id : String) (f : Nat → Nat) : Nat :=
  (v.reportable.map fun o => if (v.objects o).url = id then f o else 0).sum

theorem sumOf_recorded (h : Moves v v') (id : String) (c : Counter) :
    v'.sumOf id (fun o => v.countsAt o c) = v.recorded id c := by
  have hsub : Finset.range v.created ⊆ Finset.range v'.created := Finset.range_mono h.created
  unfold sumOf recorded
  rw [← Finset.sum_subset hsub]
  · refine Finset.sum_congr rfl fun o ho => ?_
    have hlt : o < v.created := Finset.mem_range.mp ho
    simp only [(h.same o hlt).1, countsAt, if_pos hlt]
  · intro o _ hnot
    have hge : ¬ o < v.created := fun hlt => hnot (Finset.mem_range.mpr hlt)
    simp only [countsAt, if_neg hge, ite_self]

theorem recorded_le (h : Moves v v') (id : String) (c : Counter) : v.recorded id c ≤ v'.recorded id c := by
  rw [← sumOf_recorded h, ← sumOf_recorded (Moves.refl v')]
  refine Finset.sum_le_sum fun o _ => ?_
  split
  · exact countsAt_le h o c
  · exact Nat.le_refl _

theorem Fits.reportable_nodup (h : Fits v) : v.reportable.Nodup := by
  refine List.nodup_append.mpr ⟨?_, h.nodup, fun o ho o' ho' heq => ?_⟩
  · refine List.Nodup.map_on (fun e he e' he' heq => ?_) (List.Nodup.of_map Prod.fst v.workers.nodup)
    have hurl := (h.keyed e.1 e.2 ((Dict.mem_entries _ _ _).mp he)).2
    have hurl' := (h.keyed e'.1 e'.2 ((Dict.mem_entries _ _ _).mp he')).2
    rw [heq] at hurl
    exact Prod.ext (hurl.symm.trans hurl') heq
  · obtain ⟨e, he, hoe⟩ := List.mem_map.mp ho
    exact (h.apart o' ho').2 e.1 (heq ▸ hoe ▸ (Dict.mem_entries _ _ _).mp he)

/-- No two reported objects have one key. -/
theorem Fits.keys_nodup (h : Fits v) : ((v.reportable.map v.itemOf).map (·.key)).Nodup := by
  rw [List.map_map]
  refine List.Nodup.map_on (fun o ho o' ho' heq => ?_) h.reportable_nodup
  exact h.distinct o o' (h.lt_of_reportable ho) (h.lt_of_reportable ho') (congrArg Prod.fst heq) (congrArg Prod.snd heq)

theorem reportedOf_eq (v : View) (f : WorkerCounters → Nat) (id : String) :
    Ledger.reportedOf (v.reportable.map v.itemOf) f id = v.sumReported id fun o => f (v.itemOf o) := by
  unfold Ledger.reportedOf sumReported
  rw [List.map_map]
  rfl

/-- Two sums that only differ in what is reported. -/
theorem sum_exchange (h : Fits v) (id : String) {f g : Nat → Nat}
    (same : ∀ o, o < v.created → o ∉ v.reportable → f o = g o) :
    v.sumOf id f + v.sumReported id g = v.sumOf id g + v.sumReported id f := by
  have hsub : v.reportable.toFinset ⊆ Finset.range v.created := fun o ho =>
    Finset.mem_range.mpr (h.lt_of_reportable (List.mem_toFinset.mp ho))
  have hreported : ∀ φ : Nat → Nat, v.sumReported id φ =
      ∑ o ∈ v.reportable.toFinset, if (v.objects o).url = id then φ o else 0 := fun φ =>
    (List.sum_toFinset _ h.reportable_nodup).symm
  have hsplit : ∀ φ : Nat → Nat, v.sumOf id φ =
      (∑ o ∈ Finset.range v.created \ v.reportable.toFinset, if (v.objects o).url = id then φ o else 0) +
        v.sumReported id φ := fun φ => by
    rw [hreported]
    exact (Finset.sum_sdiff hsub).symm
  have hrest : (∑ o ∈ Finset.range v.created \ v.reportable.toFinset, if (v.objects o).url = id then f o else 0) =
      ∑ o ∈ Finset.range v.created \ v.reportable.toFinset, if (v.objects o).url = id then g o else 0 := by
    refine Finset.sum_congr rfl fun o ho => ?_
    obtain ⟨hlt, hnot⟩ := Finset.mem_sdiff.mp ho
    rw [same o (Finset.mem_range.mp hlt) fun hmem => hnot (List.mem_toFinset.mpr hmem)]
  rw [hsplit f, hsplit g, hrest]
  omega

theorem sumReported_add (v : View) (id : String) (f g : Nat → Nat) :
    v.sumReported id (fun o => f o + g o) = v.sumReported id f + v.sumReported id g := by
  unfold sumReported
  induction v.reportable with
  | nil => rfl
  | cons o rest ih =>
    simp only [List.map_cons, List.sum_cons, ih]
    split
    · omega
    · omega

theorem sumReported_congr {id : String} {f g : Nat → Nat} (h : ∀ o ∈ v.reportable, f o = g o) :
    v.sumReported id f = v.sumReported id g := by
  refine congrArg List.sum (List.map_congr_left fun o ho => ?_)
  rw [h o ho]

end View

end SglangOmni.Router.Counting
