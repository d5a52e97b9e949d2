import SglangOmni.Models.MossTtsLocal.StatePool

/-! The rows of the pool do not leak.

What a request sees of the pool is `own`: its row, and what the pool remembers about it. Each operation has a lemma that
says what it does to `own`; none of them mentions another request. A pool that one request uses alone obeys the same
lemmas, so what the request sees is the same in both (`Twin`). -/
namespace SglangOmni.Models.MossTtsLocal
open Lib

variable {K F D V : Type} [DecidableEq K] [DecidableEq F] [One F] [Zero D] [Zero V]

/-! ### What a request sees -/

/-- The row of a request, and what the pool remembers about it. -/
structure Own (D V : Type) where
  row : Row D V
  written : Bool
  penalty : Bool

namespace Own

/-- What a request sees when it has just been given a row. -/
def fresh : Own D V := ⟨Row.zero, false, false⟩

/-- `ensure_params`, of the request's own. -/
def ensure (cfg : PoolConfig F D) (data : SamplingParams F) (o : Own D V) : Own D V :=
  if o.written then o else ⟨o.row.withParams cfg data, true, decide (data.audioRepetitionPenalty.getD 1 ≠ 1)⟩

/-- What a request sees when it is prepared for prefill again. -/
def refilled (steps : Int) : Own D V :=
  ⟨{ (Row.zero : Row D V) with generationSteps := steps, samplingSteps := steps }, false, false⟩

end Own

/-- `rebuild_audio_history`, of a row. -/
def Row.rebuild (cfg : PoolConfig F D) (outputRows : List (List Int)) (row : Row D V) : Row D V :=
  let cleared := { row with audioTokenPresence := fun _ _ => false }
  if outputRows.any fun row => row.length ≠ cfg.nVq + 1 then cleared
  else (outputRows.map List.tail).foldl (fun row codes => Row.mark cfg cleared row codes) cleared

namespace DecodeStatePool

variable {cfg : PoolConfig F D} {s : DecodeStatePool K F D V} {r rid : K} {i : Nat} {s' : DecodeStatePool K F D V}

def own (s : DecodeStatePool K F D V) (r : K) : Option (Own D V) :=
  (s.ridToRow.get? r).map fun i =>
    ⟨s.rows i, decide (r ∈ s.paramsWrittenRids), decide (i ∈ s.audioRepetitionPenaltyRows)⟩

omit [DecidableEq F] [One F] [Zero D] [Zero V] in
theorem own_some (h : s.ridToRow.get? r = some i) :
    s.own r = some ⟨s.rows i, decide (r ∈ s.paramsWrittenRids), decide (i ∈ s.audioRepetitionPenaltyRows)⟩ := by
  rw [own, h, Option.map_some]

omit [DecidableEq F] [One F] [Zero D] [Zero V] in
theorem own_eq_none : s.own r = none ↔ s.ridToRow.get? r = none := Option.map_eq_none_iff

/-! ### What holds of a pool -/

/-- Rows have one owner at most, free rows are clean, and the host's set is about rows in use. -/
structure Sound (cfg : PoolConfig F D) (s : DecodeStatePool K F D V) : Prop where
  injective : ∀ r r' i, s.ridToRow.get? r = some i → s.ridToRow.get? r' = some i → r = r'
  assigned_lt : ∀ r i, s.ridToRow.get? r = some i → i < cfg.paddingRow
  free_nodup : s.freeRows.Nodup
  free_lt : ∀ i ∈ s.freeRows, i < cfg.paddingRow
  apart : ∀ r i, s.ridToRow.get? r = some i → i ∉ s.freeRows
  covered : ∀ i < cfg.paddingRow, i ∈ s.freeRows ∨ ∃ r, s.ridToRow.get? r = some i
  free_zero : ∀ i ∈ s.freeRows, s.rows i = Row.zero
  penalty_assigned : ∀ i ∈ s.audioRepetitionPenaltyRows, ∃ r, s.ridToRow.get? r = some i
  penalty_last : ∀ i, i ∈ s.audioRepetitionPenaltyRows ↔ ∃ p, s.lastPenalty i = some p ∧ p ≠ 1
  written_holds : ∀ r ∈ s.paramsWrittenRids, ∃ i, s.ridToRow.get? r = some i

omit [DecidableEq F] in
theorem Sound.create : Sound cfg (create cfg : DecodeStatePool K F D V) where
  injective _ _ _ h := nomatch h
  assigned_lt _ _ h := nomatch h
  free_nodup := List.nodup_range
  free_lt _ h := List.mem_range.mp h
  apart _ _ h := nomatch h
  covered _ h := .inl (List.mem_range.mpr h)
  free_zero _ _ := rfl
  penalty_assigned _ h := absurd h (Finset.notMem_empty _)
  penalty_last i := by
    refine ⟨fun h => absurd h (Finset.notMem_empty i), ?_⟩
    intro ⟨_, h, _⟩
    cases h
  written_holds _ h := absurd h (Finset.notMem_empty _)

omit [DecidableEq F] in
/-- Rows in use may be written. -/
theorem Sound.withRows (h : Sound cfg s) {rows : Nat → Row D V}
    (same : ∀ i, (∀ r, s.ridToRow.get? r ≠ some i) → rows i = s.rows i) : Sound cfg { s with rows := rows } :=
  { h with
    free_zero := fun i hi => (same i fun r hr => h.apart r i hr hi).trans (h.free_zero i hi) }

omit [DecidableEq F] in
theorem Sound.updateRow (h : Sound cfg s) (hi : s.ridToRow.get? r = some i) (row : Row D V) :
    Sound cfg { s with rows := Function.update s.rows i row } := by
  refine h.withRows fun j hj => Function.update_of_ne ?_ _ _
  intro he
  exact hj r (he ▸ hi)

omit [DecidableEq F] in
/-- The row of a request is written; the others see nothing of it. -/
theorem own_updateRow (h : Sound cfg s) (hi : s.ridToRow.get? rid = some i) (row : Row D V) :
    { s with rows := Function.update s.rows i row }.own r =
      if r = rid then (s.own r).map fun o => { o with row := row } else s.own r := by
  by_cases hr : r = rid
  · subst hr
    rw [if_pos rfl, own_some hi]
    simp only [own, hi, Option.map_some, Function.update_self]
  · rw [if_neg hr]
    cases hj : s.ridToRow.get? r with
    | none => simp only [own, hj, Option.map_none]
    | some j =>
      have hne : j ≠ i := fun he => hr (h.injective r rid i (he ▸ hj) hi)
      simp only [own, hj, Option.map_some, Function.update_of_ne hne]

/-! ### Acquiring and releasing -/

omit [DecidableEq F] [One F] [Zero D] [Zero V] in
theorem acquireRow_ok (hok : s.acquireRow cfg rid = .ok (i, s')) :
    (s.ridToRow.get? rid = some i ∧ s' = s) ∨ (s.ridToRow.get? rid = none ∧ s.freeRows.getLast? = some i ∧
      s' = { s with freeRows := s.freeRows.dropLast, ridToRow := s.ridToRow.set rid i }) := by
  unfold acquireRow at hok
  cases hrow : s.ridToRow.get? rid with
  | some existing =>
    simp only [hrow, Except.ok.injEq, Prod.mk.injEq] at hok
    obtain ⟨rfl, rfl⟩ := hok
    exact .inl ⟨rfl, rfl⟩
  | none =>
    cases hfree : s.freeRows.getLast? with
    | none => simp [hrow, hfree] at hok
    | some rowIdx =>
      simp only [hrow, hfree, Except.ok.injEq, Prod.mk.injEq] at hok
      obtain ⟨rfl, rfl⟩ := hok
      exact .inr ⟨rfl, rfl, rfl⟩

omit [DecidableEq F] [One F] [Zero D] [Zero V] in
theorem acquireRow_get? (hok : s.acquireRow cfg rid = .ok (i, s')) :
    s'.ridToRow.get? rid = some i := by
  obtain ⟨hrow, rfl⟩ | ⟨_, _, rfl⟩ := acquireRow_ok hok
  · exact hrow
  · exact Dict.get?_set_self ..

omit [DecidableEq K] [DecidableEq F] [One F] [Zero D] [Zero V] in
theorem freeRows_eq (hlast : s.freeRows.getLast? = some i) : s.freeRows = s.freeRows.dropLast ++ [i] := by
  obtain ⟨l, hl⟩ := List.getLast?_eq_some_iff.mp hlast
  rw [hl, List.dropLast_concat]

omit [DecidableEq F] in
theorem Sound.acquire (h : Sound cfg s) (hok : s.acquireRow cfg rid = .ok (i, s')) :
    Sound cfg s' := by
  obtain ⟨_, rfl⟩ | ⟨hnone, hlast, rfl⟩ := acquireRow_ok hok
  · exact h
  · have hfree := freeRows_eq hlast
    have hmem : i ∈ s.freeRows := by
      rw [hfree]
      exact List.mem_append_right _ (List.mem_singleton_self i)
    have hsub : ∀ j ∈ s.freeRows.dropLast, j ∈ s.freeRows := fun j hj => List.mem_of_mem_dropLast hj
    have hnotin : i ∉ s.freeRows.dropLast := by
      intro hi
      have hnodup := h.free_nodup
      rw [hfree] at hnodup
      exact (List.nodup_append.mp hnodup).2.2 i hi i (List.mem_singleton_self i) rfl
    have hnew : ∀ {r : K} {j : Nat}, (s.ridToRow.set rid i).get? r = some j →
        r = rid ∧ j = i ∨ r ≠ rid ∧ s.ridToRow.get? r = some j := by
      intro r j hj
      rw [Dict.get?_set] at hj
      split at hj
      · next hr => exact .inl ⟨hr, (Option.some.inj hj).symm⟩
      · next hr => exact .inr ⟨hr, hj⟩
    have hkeep : ∀ {r : K} {j : Nat}, s.ridToRow.get? r = some j → (s.ridToRow.set rid i).get? r = some j := by
      intro r j hj
      rw [Dict.get?_set_ne]
      · exact hj
      · intro hr
        rw [hr, hnone] at hj
        cases hj
    refine { h with
      injective := ?_, assigned_lt := ?_, free_nodup := ?_, free_lt := ?_, apart := ?_, covered := ?_,
      free_zero := ?_, penalty_assigned := ?_, written_holds := ?_ }
    · intro r r' j hr hr'
      obtain ⟨rfl, rfl⟩ | ⟨hne, hj⟩ := hnew hr
      · obtain ⟨rfl, _⟩ | ⟨_, hj'⟩ := hnew hr'
        · rfl
        · exact absurd hmem (h.apart r' _ hj')
      · obtain ⟨rfl, rfl⟩ | ⟨_, hj'⟩ := hnew hr'
        · exact absurd hmem (h.apart r _ hj)
        · exact h.injective r r' j hj hj'
    · intro r j hr
      obtain ⟨_, rfl⟩ | ⟨_, hj⟩ := hnew hr
      · exact h.free_lt _ hmem
      · exact h.assigned_lt r j hj
    · exact h.free_nodup.sublist (List.dropLast_sublist _)
    · exact fun j hj => h.free_lt j (hsub j hj)
    · intro r j hr hj
      obtain ⟨_, rfl⟩ | ⟨_, hold⟩ := hnew hr
      · exact hnotin hj
      · exact h.apart r j hold (hsub j hj)
    · intro j hj
      obtain hin | ⟨r, hr⟩ := h.covered j hj
      · rw [hfree] at hin
        obtain hin | hin := List.mem_append.mp hin
        · exact .inl hin
        · rw [List.mem_singleton] at hin
          exact .inr ⟨rid, hin ▸ Dict.get?_set_self ..⟩
      · exact .inr ⟨r, hkeep hr⟩
    · exact fun j hj => h.free_zero j (hsub j hj)
    · intro j hj
      obtain ⟨r, hr⟩ := h.penalty_assigned j hj
      exact ⟨r, hkeep hr⟩
    · intro r hr
      obtain ⟨j, hj⟩ := h.written_holds r hr
      exact ⟨j, hkeep hj⟩

omit [DecidableEq F] in
/-- A request that is given a row finds it clean. -/
theorem own_acquire (h : Sound cfg s) (hok : s.acquireRow cfg rid = .ok (i, s')) :
    s'.own r = if r = rid then some ((s.own r).getD Own.fresh) else s.own r := by
  obtain ⟨hrow, rfl⟩ | ⟨hnone, hlast, rfl⟩ := acquireRow_ok hok
  · split
    · next hr =>
      subst hr
      rw [own_some hrow]
      rfl
    · rfl
  · by_cases hr : r = rid
    · subst hr
      have hmem : i ∈ s.freeRows := by
        rw [freeRows_eq hlast]
        exact List.mem_append_right _ (List.mem_singleton_self i)
      have hwritten : r ∉ s.paramsWrittenRids := by
        intro hw
        obtain ⟨j, hj⟩ := h.written_holds r hw
        rw [hnone] at hj
        cases hj
      have hpenalty : i ∉ s.audioRepetitionPenaltyRows := by
        intro hp
        obtain ⟨r', hr'⟩ := h.penalty_assigned i hp
        exact h.apart r' i hr' hmem
      rw [if_pos rfl, own_eq_none.mpr hnone, own_some (Dict.get?_set_self ..)]
      simp only [h.free_zero i hmem, hwritten, hpenalty, Option.getD_none, Own.fresh, decide_false]
    · rw [if_neg hr]
      simp only [own, Dict.get?_set_ne _ _ hr]

omit [DecidableEq F] in
/-- A row that is given back is clean, and everything about its owner is forgotten. -/
theorem Sound.release (h : Sound cfg s) (rid : K) : Sound cfg (s.releaseRow rid) := by
  unfold releaseRow
  cases hrow : s.ridToRow.get? rid with
  | none => exact h
  | some i =>
    have hold : ∀ {r : K} {j : Nat}, (s.ridToRow.pop rid).get? r = some j → r ≠ rid ∧ s.ridToRow.get? r = some j := by
      intro r j hj
      rw [Dict.get?_pop] at hj
      split at hj
      · cases hj
      · next hr => exact ⟨hr, hj⟩
    have hkeep : ∀ {r : K} {j : Nat}, s.ridToRow.get? r = some j → j ≠ i → (s.ridToRow.pop rid).get? r = some j := by
      intro r j hj hne
      rw [Dict.get?_pop_ne]
      · exact hj
      · intro hr
        rw [hr, hrow] at hj
        exact hne (Option.some.inj hj).symm
    refine
      { injective := ?_, assigned_lt := ?_, free_nodup := ?_, free_lt := ?_, apart := ?_, covered := ?_,
        free_zero := ?_, penalty_assigned := ?_, penalty_last := ?_, written_holds := ?_ }
    · exact fun r r' j hr hr' => h.injective r r' j (hold hr).2 (hold hr').2
    · exact fun r j hr => h.assigned_lt r j (hold hr).2
    · refine List.nodup_append.mpr ⟨h.free_nodup, List.nodup_singleton i, ?_⟩
      intro j hj k hk he
      rw [List.mem_singleton] at hk
      exact h.apart rid i hrow (hk ▸ he ▸ hj)
    · intro j hj
      obtain hj | hj := List.mem_append.mp hj
      · exact h.free_lt j hj
      · rw [List.mem_singleton.mp hj]
        exact h.assigned_lt rid i hrow
    · intro r j hr hj
      obtain ⟨hne, hr⟩ := hold hr
      obtain hj | hj := List.mem_append.mp hj
      · exact h.apart r j hr hj
      · rw [List.mem_singleton.mp hj] at hr
        exact hne (h.injective r rid i hr hrow)
    · intro j hj
      obtain hin | ⟨r, hr⟩ := h.covered j hj
      · exact .inl (List.mem_append_left _ hin)
      · by_cases hji : j = i
        · exact .inl (List.mem_append_right _ (List.mem_singleton.mpr hji))
        · exact .inr ⟨r, hkeep hr hji⟩
    · intro j hj
      by_cases hji : j = i
      · subst hji
        exact Function.update_self ..
      · obtain hj | hj := List.mem_append.mp hj
        · exact (Function.update_of_ne hji _ _).trans (h.free_zero j hj)
        · exact absurd (List.mem_singleton.mp hj) hji
    · intro j hj
      obtain ⟨hji, hj⟩ := Finset.mem_erase.mp hj
      obtain ⟨r, hr⟩ := h.penalty_assigned j hj
      exact ⟨r, hkeep hr hji⟩
    · intro j
      by_cases hji : j = i
      · subst hji
        simp [resetRow]
      · simp only [resetRow, Finset.mem_erase, ne_eq, hji, not_false_eq_true, true_and, Function.update_of_ne]
        exact h.penalty_last j
    · intro r hr
      obtain ⟨hne, hr⟩ := Finset.mem_erase.mp hr
      obtain ⟨j, hj⟩ := h.written_holds r hr
      refine ⟨j, ?_⟩
      show (s.ridToRow.pop rid).get? r = some j
      rw [Dict.get?_pop_ne _ hne]
      exact hj

omit [DecidableEq F] in
theorem own_release (h : Sound cfg s) (rid : K) :
    (s.releaseRow rid).own r = if r = rid then none else s.own r := by
  unfold releaseRow
  cases hrow : s.ridToRow.get? rid with
  | none =>
    by_cases hr : r = rid
    · subst hr
      rw [if_pos rfl]
      exact own_eq_none.mpr hrow
    · rw [if_neg hr]
  | some i =>
    by_cases hr : r = rid
    · subst hr
      rw [if_pos rfl, own_eq_none]
      exact Dict.get?_pop_self ..
    · rw [if_neg hr]
      simp only [own, resetRow, Dict.get?_pop_ne _ hr]
      cases hj : s.ridToRow.get? r with
      | none => rfl
      | some j =>
        have hne : j ≠ i := fun he => hr (h.injective r rid i (he ▸ hj) hrow)
        simp [hne, hr]

/-! ### Parameters -/

theorem Sound.writeParams (h : Sound cfg s) (hi : s.ridToRow.get? rid = some i) (data : SamplingParams F) :
    Sound cfg (s.writeParams cfg i data) := by
  have hrows := h.updateRow hi ((s.rows i).withParams cfg data)
  refine { hrows with penalty_assigned := ?_, penalty_last := ?_ }
  · intro j hj
    simp only [DecodeStatePool.writeParams] at hj
    split at hj
    · exact h.penalty_assigned j (Finset.mem_of_mem_erase hj)
    · obtain rfl | hj := Finset.mem_insert.mp hj
      · exact ⟨rid, hi⟩
      · exact h.penalty_assigned j hj
  · intro j
    simp only [DecodeStatePool.writeParams]
    by_cases hji : j = i
    · subst hji
      split
      · next hone => simp [hone]
      · next hone => simp [hone]
    · rw [Function.update_of_ne hji]
      split
      · simp only [Finset.mem_erase, ne_eq, hji, not_false_eq_true, true_and]
        exact h.penalty_last j
      · simp only [Finset.mem_insert, hji, false_or]
        exact h.penalty_last j

omit [Zero D] [Zero V] in
theorem ensureParams_ridToRow (data : SamplingParams F) : (s.ensureParams cfg i rid data).ridToRow = s.ridToRow := by
  unfold ensureParams
  split
  · rfl
  · rfl

theorem Sound.ensureParams (h : Sound cfg s) (hi : s.ridToRow.get? rid = some i) (data : SamplingParams F) :
    Sound cfg (s.ensureParams cfg i rid data) := by
  unfold DecodeStatePool.ensureParams
  split
  · exact h
  · have hparams := h.writeParams hi data
    refine { hparams with written_holds := ?_ }
    intro r hr
    obtain rfl | hr := Finset.mem_insert.mp hr
    · exact ⟨i, hi⟩
    · exact h.written_holds r hr

theorem own_ensureParams (h : Sound cfg s) (hi : s.ridToRow.get? rid = some i) (data : SamplingParams F) :
    (s.ensureParams cfg i rid data).own r = if r = rid then (s.own r).map (Own.ensure cfg data) else s.own r := by
  unfold ensureParams
  by_cases hr : r = rid
  · subst hr
    rw [if_pos rfl, own_some hi, Option.map_some]
    by_cases hw : r ∈ s.paramsWrittenRids
    · rw [if_pos hw, own_some hi]
      simp [Own.ensure, hw]
    · rw [if_neg hw]
      simp only [own, writeParams, hi, Option.map_some, Function.update_self, Finset.mem_insert, true_or, decide_true,
        Own.ensure, hw, decide_false]
      split
      · next hone => simp [hone]
      · next hone => simp [hone]
  · rw [if_neg hr]
    split
    · rfl
    · cases hj : s.ridToRow.get? r with
      | none =>
        have hnone := own_eq_none.mpr hj
        rw [hnone]
        exact own_eq_none.mpr hj
      | some j =>
        have hne : j ≠ i := fun he => hr (h.injective r rid i (he ▸ hj) hi)
        simp only [own, writeParams, hj, Option.map_some, Function.update_of_ne hne, Finset.mem_insert, hr, false_or]
        split
        · simp [hne]
        · simp [hne]

/-! ### Writes of several rows -/

/-- What a batched operation writes to the row of a request. -/
def valuesFor {A : Type} (s : DecodeStatePool K F D V) (r : K) (entries : List (Nat × A)) : List A :=
  entries.filterMap fun e => if s.ridToRow.get? r = some e.1 then some e.2 else none

omit [Zero D] [Zero V] in
theorem writeRows_foldl {A : Type} (write : Row D V → Row D V → A → Row D V) (old rows : Nat → Row D V)
    (entries : List (Nat × A)) (i : Nat) :
    (entries.foldl (fun rows e => Function.update rows e.1 (write (old e.1) (rows e.1) e.2)) rows) i =
      (entries.filterMap fun e => if e.1 = i then some e.2 else none).foldl (fun row a => write (old i) row a)
        (rows i) := by
  induction entries generalizing rows with
  | nil => rfl
  | cons e rest ih =>
    rw [List.foldl_cons, ih]
    by_cases hi : e.1 = i
    · subst hi
      rw [Function.update_self, List.filterMap_cons, if_pos rfl]
      rfl
    · rw [Function.update_of_ne (Ne.symm hi), List.filterMap_cons, if_neg hi]

omit [DecidableEq F] in
theorem Sound.writeRows {A : Type} (h : Sound cfg s) (write : Row D V → Row D V → A → Row D V)
    {entries : List (Nat × A)}
    (given : ∀ e ∈ entries, ∃ r, s.ridToRow.get? r = some e.1) : Sound cfg (s.writeRows write entries) := by
  refine h.withRows fun i hi => ?_
  rw [writeRows_foldl]
  have hnil : (entries.filterMap fun e => if e.1 = i then some e.2 else none) = [] := by
    rw [List.filterMap_eq_nil_iff]
    intro e he
    obtain ⟨r, hr⟩ := given e he
    exact if_neg fun (hei : e.1 = i) => hi r (hei ▸ hr)
  rw [hnil]
  rfl

omit [DecidableEq F] [One F] in
omit [Zero D] [Zero V] in
theorem own_writeRows {A : Type} (write : Row D V → Row D V → A → Row D V) (entries : List (Nat × A)) :
    (s.writeRows write entries).own r = (s.own r).map fun o =>
      { o with row := (s.valuesFor r entries).foldl (fun row a => write o.row row a) o.row } := by
  cases hi : s.ridToRow.get? r with
  | none => simp only [own, writeRows, hi, Option.map_none]
  | some i =>
    have hvalues : s.valuesFor r entries = entries.filterMap fun e => if e.1 = i then some e.2 else none := by
      unfold valuesFor
      simp only [hi, Option.some.injEq, eq_comm]
    simp only [own, writeRows, hi, Option.map_some, hvalues, writeRows_foldl]
    rfl

/-! ### Operations about one request -/

omit [DecidableEq F] in
theorem own_commitGenerationStep (rid : K) (steps : Int) (h : Sound cfg s) :
    (s.commitGenerationStep rid steps).own r =
      if r = rid then (s.own r).map fun o => { o with row := Row.commit o.row o.row steps } else s.own r := by
  unfold commitGenerationStep rowFor
  cases hrow : s.ridToRow.get? rid with
  | none =>
    by_cases hr : r = rid
    · subst hr
      rw [if_pos rfl, own_eq_none.mpr hrow, Option.map_none]
    · rw [if_neg hr]
  | some i =>
    show { s with rows := Function.update s.rows i _ }.own r = _
    rw [own_updateRow h hrow]
    by_cases hr : r = rid
    · subst hr
      rw [if_pos rfl, if_pos rfl, own_some hrow]
      rfl
    · rw [if_neg hr, if_neg hr]

omit [DecidableEq F] in
theorem Sound.commitGenerationStep (h : Sound cfg s) (rid : K) (steps : Int) :
    Sound cfg (s.commitGenerationStep rid steps) := by
  unfold DecodeStatePool.commitGenerationStep rowFor
  cases hrow : s.ridToRow.get? rid with
  | none => exact h
  | some i =>
    refine h.writeRows _ fun e he => ⟨rid, ?_⟩
    rw [List.mem_singleton.mp he]
    exact hrow

omit [DecidableEq F] in
theorem Sound.resetForRefill (h : Sound cfg s) (rid : K) (steps : Int) :
    Sound cfg (s.resetForRefill rid steps).2 := by
  unfold DecodeStatePool.resetForRefill rowFor
  cases hrow : s.ridToRow.get? rid with
  | none => exact h
  | some i =>
    refine
      { h with free_zero := ?_, penalty_assigned := ?_, penalty_last := ?_, written_holds := ?_ }
    · intro j hj
      have hji : j ≠ i := fun he => h.apart rid i hrow (he ▸ hj)
      simp only [resetRow, invalidateParams, Function.update_of_ne hji]
      exact h.free_zero j hj
    · exact fun j hj => h.penalty_assigned j (Finset.mem_of_mem_erase hj)
    · intro j
      by_cases hji : j = i
      · subst hji
        simp [resetRow]
      · simp only [resetRow, Finset.mem_erase, ne_eq, hji, not_false_eq_true, true_and, Function.update_of_ne]
        exact h.penalty_last j
    · exact fun r hr => h.written_holds r (Finset.mem_of_mem_erase hr)

omit [DecidableEq F] in
theorem own_resetForRefill (h : Sound cfg s) (rid : K) (steps : Int) :
    (s.resetForRefill rid steps).2.own r =
      if r = rid then (s.own r).map fun _ => Own.refilled steps else s.own r := by
  unfold resetForRefill rowFor
  cases hrow : s.ridToRow.get? rid with
  | none =>
    by_cases hr : r = rid
    · subst hr
      rw [if_pos rfl, own_eq_none.mpr hrow, Option.map_none]
    · rw [if_neg hr]
  | some i =>
    by_cases hr : r = rid
    · subst hr
      rw [if_pos rfl]
      simp [own, resetRow, invalidateParams, hrow, Own.refilled]
    · rw [if_neg hr]
      simp only [own, resetRow, invalidateParams]
      cases hj : s.ridToRow.get? r with
      | none => rfl
      | some j =>
        have hne : j ≠ i := fun he => hr (h.injective r rid i (he ▸ hj) hrow)
        simp [hne, hr]

/-! ### The history of audio tokens -/

omit [DecidableEq K] [DecidableEq F] [One F] [Zero D] [Zero V] in
theorem updateAudioHistory_ok {rowT : List Nat} {rows : List (List Int)}
    (hok : s.updateAudioHistory cfg rowT rows = .ok s') :
    s' = s.writeRows (Row.mark cfg) (rowT.zip (rows.map List.tail)) ∧
      (rowT = [] ∨ (rows.any fun row => row.length ≠ cfg.nVq + 1) = false ∧ rowT.length = rows.length) := by
  unfold updateAudioHistory at hok
  split at hok
  · next hnil =>
    cases hok
    refine ⟨?_, .inl hnil⟩
    rw [hnil]
    rfl
  · split at hok
    · cases hok
    · next hshape =>
      split at hok
      · cases hok
      · next hlen =>
        cases hok
        exact ⟨rfl, .inr ⟨Bool.eq_false_iff.mpr hshape, not_not.mp hlen⟩⟩

omit [DecidableEq F] in
theorem Sound.updateAudioHistory {rowT : List Nat} {rows : List (List Int)}
    (h : Sound cfg s) (given : ∀ i ∈ rowT, ∃ r, s.ridToRow.get? r = some i)
    (hok : s.updateAudioHistory cfg rowT rows = .ok s') : Sound cfg s' := by
  obtain ⟨rfl, _⟩ := updateAudioHistory_ok hok
  exact h.writeRows _ fun e he => given e.1 (List.of_mem_zip he).1

theorem zip_replicate_length {A : Type} (i : Nat) (l : List A) {n : Nat} (hn : n = l.length) :
    (List.replicate n i).zip l = l.map fun a => (i, a) := by
  subst hn
  induction l with
  | nil => rfl
  | cons a rest ih => simp only [List.length_cons, List.replicate_succ, List.zip_cons_cons, ih, List.map_cons]

theorem filterMap_row {A : Type} (i j : Nat) (l : List A) :
    ((l.map fun a => (i, a)).filterMap fun e => if e.1 = j then some e.2 else none) = if i = j then l else [] := by
  rw [List.filterMap_map]
  by_cases hij : i = j
  · simp [hij]
  · simp [hij]

omit [DecidableEq F] [One F] in
omit [Zero D] [Zero V] in
/-- `rebuild_audio_history` writes the row of the request only. -/
theorem rebuildAudioHistory_some (hrow : s.ridToRow.get? rid = some i) (outputRows : List (List Int)) :
    (s.rebuildAudioHistory cfg rid outputRows).2 =
      { s with rows := Function.update s.rows i ((s.rows i).rebuild cfg outputRows) } := by
  unfold rebuildAudioHistory rowFor
  simp only [hrow]
  by_cases hnil : outputRows = []
  · subst hnil
    rfl
  · rw [if_neg hnil]
    unfold DecodeStatePool.updateAudioHistory
    have hrep : List.replicate outputRows.length i ≠ [] := by
      intro he
      rw [List.replicate_eq_nil_iff, List.length_eq_zero_iff] at he
      exact hnil he
    rw [if_neg hrep]
    by_cases hshape : outputRows.any fun row => row.length ≠ cfg.nVq + 1
    · rw [if_pos hshape]
      simp only [Row.rebuild, if_pos hshape]
    · rw [if_neg hshape, if_neg (by simp)]
      simp only [Row.rebuild, if_neg hshape, writeRows]
      congr 1
      funext j
      rw [writeRows_foldl]
      by_cases hji : j = i
      · subst hji
        rw [Function.update_self, Function.update_self, zip_replicate_length j _ (List.length_map _).symm,
          filterMap_row,
          if_pos rfl]
      · rw [Function.update_of_ne hji, Function.update_of_ne hji, zip_replicate_length i _ (List.length_map _).symm,
          filterMap_row, if_neg (Ne.symm hji)]
        rfl

omit [DecidableEq F] [One F] [Zero D] [Zero V] in
theorem rebuildAudioHistory_none (hrow : s.ridToRow.get? rid = none) (outputRows : List (List Int)) :
    (s.rebuildAudioHistory cfg rid outputRows).2 = s := by
  unfold rebuildAudioHistory rowFor
  simp only [hrow]

omit [DecidableEq F] in
theorem Sound.rebuildAudioHistory (h : Sound cfg s) (rid : K) (outputRows : List (List Int)) :
    Sound cfg (s.rebuildAudioHistory cfg rid outputRows).2 := by
  cases hrow : s.ridToRow.get? rid with
  | none =>
    rw [rebuildAudioHistory_none hrow]
    exact h
  | some i =>
    rw [rebuildAudioHistory_some hrow]
    exact h.updateRow hrow _

omit [DecidableEq F] in
theorem own_rebuildAudioHistory (h : Sound cfg s) (rid : K) (outputRows : List (List Int)) :
    (s.rebuildAudioHistory cfg rid outputRows).2.own r =
      if r = rid then (s.own r).map fun o => { o with row := o.row.rebuild cfg outputRows } else s.own r := by
  cases hrow : s.ridToRow.get? rid with
  | none =>
    rw [rebuildAudioHistory_none hrow]
    by_cases hr : r = rid
    · subst hr
      rw [if_pos rfl, own_eq_none.mpr hrow, Option.map_none]
    · rw [if_neg hr]
  | some i =>
    rw [rebuildAudioHistory_some hrow, own_updateRow h hrow]
    by_cases hr : r = rid
    · subst hr
      rw [if_pos rfl, if_pos rfl, own_some hrow, Option.map_some, Option.map_some]
    · rw [if_neg hr, if_neg hr]

/-! ### Preparing a batch -/

/-- The requests of a batch that are given rows before the pool is exhausted. -/
def prepared (cfg : PoolConfig F D) (s : DecodeStatePool K F D V) :
    List (K × SamplingParams F) → List (K × SamplingParams F)
  | [] => []
  | req :: rest =>
    match s.acquireRow cfg req.1 with
    | .error _ => []
    | .ok acquired => req :: prepared cfg (acquired.2.ensureParams cfg acquired.1 req.1 req.2) rest

/-- What one request of a batch does to what its owner sees. -/
def prepareOwn (cfg : PoolConfig F D) (o : Option (Own D V)) (req : K × SamplingParams F) : Option (Own D V) :=
  some ((o.getD Own.fresh).ensure cfg req.2)

theorem Sound.prepareOne (h : Sound cfg s) (hok : s.acquireRow cfg rid = .ok (i, s'))
    (data : SamplingParams F) : Sound cfg (s'.ensureParams cfg i rid data) :=
  (h.acquire hok).ensureParams (acquireRow_get? hok) data

theorem own_prepareOne (h : Sound cfg s) (hok : s.acquireRow cfg rid = .ok (i, s')) (data : SamplingParams F) :
    (s'.ensureParams cfg i rid data).own r = if r = rid then prepareOwn cfg (s.own r) (rid, data) else s.own r := by
  rw [own_ensureParams (h.acquire hok) (acquireRow_get? hok), own_acquire h hok]
  by_cases hr : r = rid
  · rw [if_pos hr, if_pos hr, if_pos hr]
    rfl
  · rw [if_neg hr, if_neg hr, if_neg hr]

theorem Sound.prepareRows (h : Sound cfg s) (poolRows : List Nat) (hasPenalty : Bool)
    (requests : List (K × SamplingParams F)) : Sound cfg (s.prepareRows cfg poolRows hasPenalty requests).2 := by
  induction requests generalizing s poolRows hasPenalty with
  | nil => exact h
  | cons req rest ih =>
    unfold DecodeStatePool.prepareRows
    cases hok : s.acquireRow cfg req.1 with
    | error e => exact h
    | ok acquired => exact ih (h.prepareOne hok req.2) _ _

theorem own_prepareRows (h : Sound cfg s) (poolRows : List Nat) (hasPenalty : Bool)
    (requests : List (K × SamplingParams F)) :
    (s.prepareRows cfg poolRows hasPenalty requests).2.own r =
      ((prepared cfg s requests).filter fun req => req.1 = r).foldl (prepareOwn cfg) (s.own r) := by
  induction requests generalizing s poolRows hasPenalty with
  | nil => rfl
  | cons req rest ih =>
    unfold DecodeStatePool.prepareRows prepared
    cases hok : s.acquireRow cfg req.1 with
    | error e => rfl
    | ok acquired =>
      simp only
      rw [ih (h.prepareOne hok req.2), own_prepareOne h hok]
      by_cases hr : r = req.1
      · rw [if_pos hr, List.filter_cons_of_pos (by simpa using hr.symm)]
        rfl
      · rw [if_neg hr, List.filter_cons_of_neg (by simpa using Ne.symm hr)]

end DecodeStatePool

end SglangOmni.Models.MossTtsLocal
