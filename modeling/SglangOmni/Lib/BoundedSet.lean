import Mathlib.Data.Fintype.EquivFin

/-! Sets of identifiers with a bounded size.

Recording an identifier in a full set drops some older ones: the first of them in the
set's iteration order, which nobody controls. A `hint` stands for that order: its
members come first. Every choice of the dropped ones has a hint (the choice itself). -/
namespace SglangOmni.Lib

variable {α : Type} [DecidableEq α] {ids : List α} {x : α} {keep limit : Nat}

/-- The iteration order of a set under a hint. -/
def ordered (hint ids : List α) : List α :=
  ids.filter (fun x => x ∈ hint) ++ ids.filter (fun x => x ∉ hint)

/-- The elements of a set in the order in which somebody names them. -/
def arranged (order ids : List α) : List α :=
  order.dedup.filter (fun x => x ∈ ids) ++ ids.filter (fun x => x ∉ order)

/-- `ids.add(x)`. -/
def addId (ids : List α) (x : α) : List α := if x ∈ ids then ids else ids ++ [x]

/-- How many are dropped when the set has outgrown its limit. -/
def excess (limit keep : Nat) (ids : List α) : Nat :=
  if limit < ids.length then ids.length - keep else 0

/-- The set after recording `x`. -/
def record (limit keep : Nat) (hint ids : List α) (x : α) : List α :=
  (ordered hint (addId ids x)).drop (excess limit keep (addId ids x))

/-- What recording `x` drops. -/
def dropped (limit keep : Nat) (hint ids : List α) (x : α) : List α :=
  (ordered hint (addId ids x)).take (excess limit keep (addId ids x))

theorem mem_ordered {hint : List α} : x ∈ ordered hint ids ↔ x ∈ ids := by
  simp only [ordered, List.mem_append, List.mem_filter, decide_eq_true_eq]
  tauto

theorem nodup_ordered (hint : List α) (h : ids.Nodup) : (ordered hint ids).Nodup := by
  refine List.Nodup.append (h.filter _) (h.filter _) fun x hx hy => ?_
  have hin := (List.mem_filter.mp hx).2
  have hout := (List.mem_filter.mp hy).2
  simp only [decide_eq_true_eq] at hin hout
  exact hout hin

theorem nodup_arranged (order : List α) (h : ids.Nodup) : (arranged order ids).Nodup := by
  refine List.Nodup.append ((List.nodup_dedup order).filter _) (h.filter _) fun x hx hy => ?_
  have hin := (List.mem_filter.mp hx).1
  have hout := (List.mem_filter.mp hy).2
  simp only [decide_eq_true_eq] at hout
  exact hout (List.mem_dedup.mp hin)

theorem mem_addId {y : α} : y ∈ addId ids x ↔ y = x ∨ y ∈ ids := by
  unfold addId
  split
  · next h =>
    constructor
    · exact .inr
    · rintro (rfl | h')
      · exact h
      · exact h'
  · simp [or_comm]

theorem nodup_addId (h : ids.Nodup) (x : α) : (addId ids x).Nodup := by
  unfold addId
  split
  · exact h
  · next hx => exact List.Nodup.append h (List.nodup_singleton x) (by simpa using hx)

theorem nodup_record (h : ids.Nodup) (limit keep : Nat) (hint : List α) (x : α) :
    (record limit keep hint ids x).Nodup :=
  ((nodup_ordered hint (nodup_addId h x)).sublist (List.drop_sublist ..))

/-- An identifier is in the set after recording `x` exactly when it was there before or
is `x`, and is not dropped. -/
theorem mem_record (h : ids.Nodup) {hint : List α} {y : α} :
    y ∈ record limit keep hint ids x ↔ (y = x ∨ y ∈ ids) ∧ y ∉ dropped limit keep hint ids x := by
  have hnodup := nodup_ordered hint (nodup_addId h x)
  have hsplit := List.take_append_drop (excess limit keep (addId ids x)) (ordered hint (addId ids x))
  have hmem : y ∈ record limit keep hint ids x ∨ y ∈ dropped limit keep hint ids x ↔
      y = x ∨ y ∈ ids := by
    have hall : y ∈ ordered hint (addId ids x) ↔ y = x ∨ y ∈ ids := mem_ordered.trans mem_addId
    rw [← hall, ← hsplit, List.mem_append]
    exact or_comm
  have hdisjoint : y ∈ dropped limit keep hint ids x → y ∉ record limit keep hint ids x := by
    rw [← hsplit] at hnodup
    exact fun ht hd => (List.disjoint_of_nodup_append hnodup) ht hd
  tauto

/-- Past the limit a single hinted identifier is dropped. -/
theorem mem_dropped_of_hint {y : α} (h : ids.Nodup)
    (hy : y = x ∨ y ∈ ids) (hfull : limit < (addId ids x).length) (hkeep : keep ≤ limit) :
    y ∈ dropped limit keep [y] ids x := by
  have hfirst : (addId ids x).filter (fun z => z ∈ [y]) = [y] := by
    have hcount := List.count_eq_one_of_mem (nodup_addId h x) (mem_addId.mpr hy)
    have hreplicate : (addId ids x).filter (fun z => z = y) = List.replicate ((addId ids x).count y) y :=
      List.filter_eq y
    rw [hcount] at hreplicate
    simpa using hreplicate
  have hexcess : ∃ k, excess limit keep (addId ids x) = k + 1 :=
    ⟨(addId ids x).length - keep - 1, by simp [excess, hfull]; omega⟩
  obtain ⟨k, hk⟩ := hexcess
  rw [dropped, ordered, hfirst, hk]
  simp

theorem length_ordered (hint ids : List α) : (ordered hint ids).length = ids.length := by
  have hsplit := List.length_eq_length_filter_add (l := ids) (fun x => decide (x ∈ hint))
  simp only [ordered, List.length_append, decide_not]
  exact hsplit.symm

theorem record_of_le {hint : List α}
    (h : (addId ids x).length ≤ limit) : record limit keep hint ids x = ordered hint (addId ids x) := by
  simp [record, excess, Nat.not_lt.mpr h]

/-! ### How long an identifier stays

Nobody controls the iteration order, so an identifier is safe exactly as long as the set
cannot outgrow its limit. -/

/-- Identifiers recorded one after the other, each under its own hint. -/
def recordAll (limit keep : Nat) (ids : List α) (more : List (List α × α)) : List α :=
  more.foldl (fun ids e => record limit keep e.1 ids e.2) ids

/-- The distinct identifiers among them, other than `x`. -/
def otherIds (x : α) (more : List (List α × α)) : Finset α := (more.map (·.2)).toFinset.erase x

theorem nodup_recordAll (h : ids.Nodup) (more : List (List α × α)) :
    (recordAll limit keep ids more).Nodup := by
  induction more generalizing ids with
  | nil => exact h
  | cons e rest ih => exact ih (nodup_record h limit keep e.1 e.2)

/-- What is recorded from a stock that fits is never dropped. -/
theorem mem_recordAll_of_stock {more : List (List α × α)}
    (stock : Finset α) (hfits : stock.card ≤ limit) (h : ids.Nodup) (hids : ∀ y ∈ ids, y ∈ stock)
    (hmore : ∀ e ∈ more, e.2 ∈ stock) (hx : x ∈ ids) : x ∈ recordAll limit keep ids more := by
  induction more generalizing ids with
  | nil => exact hx
  | cons e rest ih =>
    have hadd : ∀ y ∈ addId ids e.2, y ∈ stock := by
      intro y hy
      rcases mem_addId.mp hy with heq | hy
      · rw [heq]
        exact hmore e (List.mem_cons_self ..)
      · exact hids y hy
    have hlength : (addId ids e.2).length ≤ limit := by
      rw [← List.toFinset_card_of_nodup (nodup_addId h e.2)]
      apply le_trans (Finset.card_le_card _) hfits
      intro y hy
      exact hadd y (List.mem_toFinset.mp hy)
    have hrecord : record limit keep e.1 ids e.2 = ordered e.1 (addId ids e.2) := record_of_le hlength
    show x ∈ recordAll limit keep (record limit keep e.1 ids e.2) rest
    apply ih (nodup_record h limit keep e.1 e.2)
    · intro y hy
      rw [hrecord, mem_ordered] at hy
      exact hadd y hy
    · exact fun f hf => hmore f (List.mem_cons_of_mem e hf)
    · rw [hrecord, mem_ordered, mem_addId]
      exact .inr hx

/-- New identifiers that do not all fit push `x` out, in an order that names it first. -/
theorem exists_recordAll_drops (hkeep : keep ≤ limit) {fresh : List α}
    (h : ids.Nodup) (hx : x ∈ ids) (hfresh : fresh.Nodup) (hnew : ∀ y ∈ fresh, y ∉ ids)
    (hids : ids.length ≤ limit) (hmany : limit < ids.length + fresh.length) :
    ∃ k, x ∉ recordAll limit keep ids ((fresh.take k).map fun y => ([x], y)) := by
  induction fresh generalizing ids with
  | nil => simp only [List.length_nil] at hmany; omega
  | cons y rest ih =>
    have hy : y ∉ ids := hnew y (List.mem_cons_self ..)
    have hadd : addId ids y = ids ++ [y] := if_neg hy
    by_cases hfull : limit < (addId ids y).length
    · refine ⟨1, ?_⟩
      show x ∉ record limit keep [x] ids y
      intro hmem
      exact ((mem_record h).mp hmem).2 (mem_dropped_of_hint h (.inr hx) hfull hkeep)
    · have hrecord : record limit keep [x] ids y = ordered [x] (addId ids y) :=
        record_of_le (Nat.not_lt.mp hfull)
      have hmem : ∀ z, z ∈ record limit keep [x] ids y ↔ z = y ∨ z ∈ ids := by
        intro z
        rw [hrecord, mem_ordered, mem_addId]
      have hlength : (record limit keep [x] ids y).length = ids.length + 1 := by
        rw [hrecord, length_ordered, hadd]
        simp
      obtain ⟨hyrest, hrest⟩ := List.nodup_cons.mp hfresh
      have hnext : ∀ z ∈ rest, z ∉ record limit keep [x] ids y := by
        intro z hz hin
        rcases (hmem z).mp hin with heq | hin
        · exact hyrest (heq ▸ hz)
        · exact hnew z (List.mem_cons_of_mem y hz) hin
      simp only [List.length_cons, hadd, List.length_append, List.length_nil] at hmany hfull
      obtain ⟨k, hk⟩ := ih (nodup_record h limit keep [x] y) ((hmem x).mpr (.inr hx)) hrest hnext
        (by omega) (by omega)
      exact ⟨k + 1, hk⟩

/-- There are always `n` more identifiers. -/
theorem exists_fresh [Infinite α] (ids : List α) (n : Nat) :
    ∃ fresh : List α, fresh.Nodup ∧ (∀ y ∈ fresh, y ∉ ids) ∧ fresh.length = n := by
  obtain ⟨stock, hsub, hcard⟩ :=
    Infinite.exists_superset_card_eq ids.toFinset (ids.toFinset.card + n) (Nat.le_add_right ..)
  refine ⟨(stock \ ids.toFinset).toList, Finset.nodup_toList _, ?_, ?_⟩
  · intro y hy hmem
    exact (Finset.mem_sdiff.mp (Finset.mem_toList.mp hy)).2 (List.mem_toFinset.mpr hmem)
  · rw [Finset.length_toList, Finset.card_sdiff_of_subset hsub, hcard]
    omega

/-- An identifier outlives `n` more, in every order, exactly when there is room for them. -/
theorem outlives_iff [Infinite α] {n : Nat} (hkeep : keep ≤ limit) (h : ids.Nodup) (x : α) :
    (∀ (hint : List α) (more : List (List α × α)), (otherIds x more).card ≤ n →
        x ∈ recordAll limit keep (record limit keep hint ids x) more) ↔
      (addId ids x).length + n ≤ limit := by
  have hself : x ∈ addId ids x := mem_addId.mpr (.inl rfl)
  constructor
  · intro hlives
    by_contra hfew
    by_cases hfull : limit < (addId ids x).length
    · -- dropped by its own record
      have hnow := hlives [x] [] (by simp [otherIds])
      exact ((mem_record h).mp hnow).2 (mem_dropped_of_hint h (.inl rfl) hfull hkeep)
    · have hrecord : record limit keep [] ids x = ordered [] (addId ids x) := record_of_le (Nat.not_lt.mp hfull)
      have hin : ∀ y, y ∈ record limit keep [] ids x ↔ y ∈ addId ids x := by
        intro y
        rw [hrecord, mem_ordered]
      have hlength : (record limit keep [] ids x).length = (addId ids x).length := by
        rw [hrecord, length_ordered]
      obtain ⟨fresh, hnodup, hnew, hfresh⟩ := exists_fresh (addId ids x) n
      obtain ⟨k, hk⟩ := exists_recordAll_drops hkeep (nodup_record h limit keep [] x) ((hin x).mpr hself)
        hnodup (fun y hy hmem => hnew y hy ((hin y).mp hmem)) (by omega) (by omega)
      apply hk
      apply hlives
      apply le_trans (Finset.card_le_card (Finset.erase_subset _ _))
      apply le_trans (List.toFinset_card_le _)
      simp only [List.length_map, List.length_take]
      omega
  · intro hroom hint more hfew
    have hrecord : record limit keep hint ids x = ordered hint (addId ids x) := record_of_le (by omega)
    apply mem_recordAll_of_stock ((addId ids x).toFinset ∪ otherIds x more)
    · have hunion := Finset.card_union_le (addId ids x).toFinset (otherIds x more)
      have hcard := List.toFinset_card_le (addId ids x)
      omega
    · exact nodup_record h limit keep hint x
    · intro y hy
      rw [hrecord, mem_ordered] at hy
      exact Finset.mem_union_left _ (List.mem_toFinset.mpr hy)
    · intro e he
      by_cases heq : e.2 = x
      · rw [heq]
        exact Finset.mem_union_left _ (List.mem_toFinset.mpr hself)
      · apply Finset.mem_union_right
        exact Finset.mem_erase.mpr ⟨heq, List.mem_toFinset.mpr (List.mem_map_of_mem he)⟩
    · rw [hrecord, mem_ordered]
      exact hself

/-- Distinct identifiers that all fit are kept, in the order of their records. -/
theorem recordAll_fresh {fresh : List α} (h : (ids ++ fresh).Nodup) (hfits : (ids ++ fresh).length ≤ limit) :
    recordAll limit keep ids (fresh.map fun x => ([], x)) = ids ++ fresh := by
  induction fresh generalizing ids with
  | nil => simp [recordAll]
  | cons x rest ih =>
    have hx : x ∉ ids := by
      intro hmem
      exact (List.nodup_append.mp h).2.2 x hmem x (List.mem_cons_self ..) rfl
    have hadd : addId ids x = ids ++ [x] := if_neg hx
    have hrecord : record limit keep [] ids x = ids ++ [x] := by
      rw [record_of_le (by rw [hadd]; simp at hfits ⊢; omega), hadd]
      simp [ordered]
    show recordAll limit keep (record limit keep [] ids x) (rest.map fun x => ([], x)) = ids ++ x :: rest
    rw [hrecord, ih (by simpa using h) (by simpa using hfits)]
    simp

end SglangOmni.Lib
