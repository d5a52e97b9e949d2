import SglangOmni.Models.MossTtsLocal.StatePoolProofs
import Mathlib.Algebra.Ring.Int.Defs

/-! A request sees the pool as if it were alone.

For each request there is a pool of the same size that only this request uses, since it was given its row last. Its
operations are those of the request, as far as they were carried out; where a batched operation writes several rows, the
part that is left is what it writes to the row of the request. -/
namespace SglangOmni.Models.MossTtsLocal
open Lib

variable {K F D V : Type} [DecidableEq K] [DecidableEq F] [One F] [Zero D] [Zero V]

def PoolOp.releases (r : K) : PoolOp K F V → Bool
  | .releaseRow rid => rid = r
  | _ => false

namespace DecodeStatePool

variable {cfg : PoolConfig F D} {s t : DecodeStatePool K F D V} {r rid : K} {i : Nat}

/-! ### The pool of one request -/

variable (cfg) in
/-- The row that a pool hands out first. -/
def aloneRow : Nat := cfg.paddingRow - 1

variable (cfg) in
def entriesFor {A : Type} (s : DecodeStatePool K F D V) (r : K) (entries : List (Nat × A)) : List (Nat × A) :=
  (s.valuesFor r entries).map fun a => (aloneRow cfg, a)

variable (cfg) in
/-- What an operation does for one request. -/
def aloneOp (r : K) (s : DecodeStatePool K F D V) : PoolOp K F V → List (PoolOp K F V)
  | .acquireRow rid =>
    match s.acquireRow cfg rid with
    | .ok _ => if rid = r then [.acquireRow r] else []
    | .error _ => []
  | .releaseRow rid => if rid = r then [.releaseRow r] else []
  | .prepareActiveRows requests => [.prepareActiveRows ((prepared cfg s requests).filter fun req => req.1 = r)]
  | .commitGenerationStep rid generationSteps => if rid = r then [.commitGenerationStep r generationSteps] else []
  | .commitGenerationSteps entries => [.commitGenerationSteps (s.entriesFor cfg r entries)]
  | .resetForRefill rid generationSteps => if rid = r then [.resetForRefill r generationSteps] else []
  | .updateAudioHistory rowT rows =>
    match s.updateAudioHistory cfg rowT rows with
    | .ok _ =>
      let own := s.valuesFor r (rowT.zip rows)
      [.updateAudioHistory (List.replicate own.length (aloneRow cfg)) own]
    | .error _ => []
  | .rebuildAudioHistory rid outputRows => if rid = r then [.rebuildAudioHistory r outputRows] else []
  | .writeSamplingSteps entries => [.writeSamplingSteps (s.entriesFor cfg r entries)]
  | .writeFeedback entries => [.writeFeedback (s.entriesFor cfg r entries)]

variable (cfg) in
/-- What operations did for a request since its row was released last, after what was done before. -/
def aloneOps (r : K) (s : DecodeStatePool K F D V) (before : List (PoolOp K F V)) :
    List (PoolOp K F V) → List (PoolOp K F V)
  | [] => before
  | op :: rest => aloneOps r (s.step cfg op) (if op.releases r then [] else before ++ aloneOp cfg r s op) rest

variable (cfg) in
/-- The pool that the request uses alone. -/
def alone (r : K) (ops : List (PoolOp K F V)) : DecodeStatePool K F D V := run cfg (aloneOps cfg r (create cfg) [] ops)

/-! ### Both pools -/

/-- The pool of one request: no other has a row, and there is one row that it is given. -/
structure Shape (cfg : PoolConfig F D) (r : K) (t : DecodeStatePool K F D V) : Prop where
  sound : Sound cfg t
  only : ∀ other j, t.ridToRow.get? other = some j → other = r ∧ j = aloneRow cfg
  free : t.ridToRow.get? r = none → t.freeRows = List.range cfg.paddingRow

/-- A request sees the same in a shared pool and in its own. -/
structure Twin (cfg : PoolConfig F D) (r : K) (s t : DecodeStatePool K F D V) : Prop where
  shape : Shape cfg r t
  own : s.own r = t.own r

omit [DecidableEq F] in
theorem Shape.create : Shape cfg r (create cfg : DecodeStatePool K F D V) where
  sound := Sound.create
  only _ _ h := nomatch h
  free _ := rfl

omit [DecidableEq F] in
/-- An operation that hands out no row leaves the shape. -/
theorem Shape.keep {t' : DecodeStatePool K F D V} (h : Shape cfg r t) (sound : Sound cfg t')
    (rows : t'.ridToRow = t.ridToRow) (free : t'.freeRows = t.freeRows) : Shape cfg r t' where
  sound := sound
  only other j hj := h.only other j (rows ▸ hj)
  free hnone := free.trans (h.free (rows ▸ hnone))

theorem getLast?_range {n : Nat} (h : 0 < n) : (List.range n).getLast? = some (n - 1) := by
  obtain ⟨m, rfl⟩ := Nat.exists_eq_succ_of_ne_zero (Nat.pos_iff_ne_zero.mp h)
  rw [List.range_succ]
  exact List.getLast?_concat ..

omit [DecidableEq F] in
theorem Shape.acquire (h : Shape cfg r t) (room : 0 < cfg.paddingRow) :
    ∃ t', t.acquireRow cfg r = .ok (aloneRow cfg, t') ∧ Shape cfg r t' := by
  cases hrow : t.ridToRow.get? r with
  | some j =>
    obtain ⟨_, rfl⟩ := h.only r j hrow
    refine ⟨t, ?_, h⟩
    unfold acquireRow
    rw [hrow]
  | none =>
    have hlast : t.freeRows.getLast? = some (aloneRow cfg) := by
      rw [h.free hrow]
      exact getLast?_range room
    have hok : t.acquireRow cfg r = .ok (aloneRow cfg,
        { t with freeRows := t.freeRows.dropLast, ridToRow := t.ridToRow.set r (aloneRow cfg) }) := by
      unfold acquireRow
      rw [hrow, hlast]
    refine ⟨_, hok, h.sound.acquire hok, ?_, ?_⟩
    · intro other j hj
      simp only [Dict.get?_set] at hj
      split at hj
      · next he => exact ⟨he, (Option.some.inj hj).symm⟩
      · exact h.only other j hj
    · intro hnone
      rw [Dict.get?_set_self] at hnone
      cases hnone

omit [Zero D] [Zero V] in
theorem ensureParams_freeRows (data : SamplingParams F) : (s.ensureParams cfg i rid data).freeRows = s.freeRows := by
  unfold ensureParams
  split
  · rfl
  · rfl

theorem Shape.prepareRows (h : Shape cfg r t) {requests : List (K × SamplingParams F)}
    (mine : ∀ req ∈ requests, req.1 = r) (room : requests ≠ [] → 0 < cfg.paddingRow) (poolRows : List Nat)
    (hasPenalty : Bool) :
    Shape cfg r (t.prepareRows cfg poolRows hasPenalty requests).2 ∧ prepared cfg t requests = requests := by
  induction requests generalizing t poolRows hasPenalty with
  | nil => exact ⟨h, rfl⟩
  | cons req rest ih =>
    obtain ⟨rid, data⟩ := req
    obtain rfl : rid = r := mine _ (List.mem_cons_self ..)
    have hroom := room (List.cons_ne_nil _ _)
    obtain ⟨t', hok, hshape⟩ := h.acquire hroom
    have hnext : Shape cfg rid (t'.ensureParams cfg (aloneRow cfg) rid data) :=
      hshape.keep (h.sound.prepareOne hok data) (ensureParams_ridToRow data) (ensureParams_freeRows data)
    have hrest := fun rows pen =>
      ih hnext (fun req hreq => mine req (List.mem_cons_of_mem _ hreq)) (fun _ => hroom) rows pen
    unfold DecodeStatePool.prepareRows prepared
    simp only [hok]
    exact ⟨(hrest _ _).1, congrArg _ (hrest [] false).2⟩

omit [DecidableEq F] [One F] [Zero D] [Zero V] in
theorem valuesFor_map {A B : Type} (f : A → B) (entries : List (Nat × A)) :
    s.valuesFor r (entries.map fun e => (e.1, f e.2)) = (s.valuesFor r entries).map f := by
  unfold valuesFor
  rw [List.filterMap_map, List.map_filterMap]
  congr 1
  funext e
  simp only [Function.comp_apply]
  split
  · rfl
  · rfl

omit [DecidableEq F] [One F] [Zero D] [Zero V] in
theorem valuesFor_alone {A : Type} (hrow : t.ridToRow.get? r = some (aloneRow cfg)) (values : List A) :
    t.valuesFor r (values.map fun a => (aloneRow cfg, a)) = values := by
  unfold valuesFor
  rw [List.filterMap_map]
  simp [hrow]

omit [DecidableEq F] in
theorem Twin.holds (h : Twin cfg r s t) (hs : s.ridToRow.get? r = some i) :
    t.ridToRow.get? r = some (aloneRow cfg) := by
  cases ht : t.ridToRow.get? r with
  | none =>
    have hown := h.own
    rw [own_eq_none.mpr ht, own_eq_none, hs] at hown
    cases hown
  | some j => rw [(h.shape.only r j ht).2]

omit [DecidableEq F] [One F] [Zero D] [Zero V] in
theorem mem_valuesFor {A : Type} {entries : List (Nat × A)} {a : A} (h : a ∈ s.valuesFor r entries) :
    ∃ i, s.ridToRow.get? r = some i := by
  obtain ⟨e, _, he⟩ := List.mem_filterMap.mp h
  split at he
  · next hrow => exact ⟨e.1, hrow⟩
  · cases he

omit [DecidableEq F] in
/-- Values that are written to the row of the request. -/
theorem Twin.writeValues {A : Type} (h : Twin cfg r s t) (write : Row D V → Row D V → A → Row D V)
    (entries : List (Nat × A)) {values : List A} (hvalues : s.valuesFor r entries = values) :
    Twin cfg r (s.writeRows write entries) (t.writeRows write (values.map fun a => (aloneRow cfg, a))) := by
  refine ⟨h.shape.keep (h.shape.sound.writeRows write ?_) rfl rfl, ?_⟩
  · intro e he
    obtain ⟨a, ha, rfl⟩ := List.mem_map.mp he
    obtain ⟨i, hi⟩ := mem_valuesFor (hvalues ▸ ha)
    exact ⟨r, h.holds hi⟩
  · rw [own_writeRows, own_writeRows, hvalues, h.own]
    cases ht : t.ridToRow.get? r with
    | none => rw [own_eq_none.mpr ht, Option.map_none, Option.map_none]
    | some j =>
      obtain ⟨_, rfl⟩ := h.shape.only r j ht
      rw [valuesFor_alone ht]

/-! ### One operation -/

/-- A batched operation is given rows that are in use. -/
def Given (s : DecodeStatePool K F D V) (op : PoolOp K F V) : Prop := ∀ i ∈ op.rows, ∃ r, s.ridToRow.get? r = some i

omit [DecidableEq F] [One F] [Zero D] [Zero V] in
theorem given_entries {A : Type} {entries : List (Nat × A)}
    (given : ∀ i ∈ entries.map Prod.fst, ∃ r, s.ridToRow.get? r = some i) :
    ∀ e ∈ entries, ∃ r, s.ridToRow.get? r = some e.1 :=
  fun _ he => given _ (List.mem_map_of_mem he)

theorem Sound.step (h : Sound cfg s) {op : PoolOp K F V} (given : Given s op) : Sound cfg (s.step cfg op) := by
  cases op with
  | acquireRow rid =>
    simp only [DecodeStatePool.step]
    cases hok : s.acquireRow cfg rid with
    | ok acquired => exact h.acquire hok
    | error e => exact h
  | releaseRow rid => exact h.release rid
  | prepareActiveRows requests => exact h.prepareRows [] false requests
  | commitGenerationStep rid steps => exact h.commitGenerationStep rid steps
  | commitGenerationSteps entries => exact h.writeRows _ (given_entries given)
  | resetForRefill rid steps => exact h.resetForRefill rid steps
  | updateAudioHistory rowT rows =>
    simp only [DecodeStatePool.step]
    cases hok : s.updateAudioHistory cfg rowT rows with
    | ok s' => exact h.updateAudioHistory given hok
    | error e => exact h
  | rebuildAudioHistory rid outputRows => exact h.rebuildAudioHistory rid outputRows
  | writeSamplingSteps entries | writeFeedback entries => exact h.writeRows _ (given_entries given)

omit [DecidableEq F] [One F] in
theorem resetForRefill_keeps (rid : K) (steps : Int) :
    (s.resetForRefill rid steps).2.ridToRow = s.ridToRow ∧ (s.resetForRefill rid steps).2.freeRows = s.freeRows := by
  unfold resetForRefill
  split
  · exact ⟨rfl, rfl⟩
  · exact ⟨rfl, rfl⟩

omit [DecidableEq F] [One F] [Zero D] [Zero V] in
theorem commitGenerationStep_keeps (rid : K) (steps : Int) :
    (s.commitGenerationStep rid steps).ridToRow = s.ridToRow ∧
      (s.commitGenerationStep rid steps).freeRows = s.freeRows := by
  unfold commitGenerationStep
  split
  · exact ⟨rfl, rfl⟩
  · exact ⟨rfl, rfl⟩

omit [DecidableEq F] [One F] [Zero D] [Zero V] in
theorem rebuildAudioHistory_keeps (rid : K) (outputRows : List (List Int)) :
    (s.rebuildAudioHistory cfg rid outputRows).2.ridToRow = s.ridToRow ∧
      (s.rebuildAudioHistory cfg rid outputRows).2.freeRows = s.freeRows := by
  cases hrow : s.ridToRow.get? rid with
  | none =>
    rw [rebuildAudioHistory_none hrow]
    exact ⟨rfl, rfl⟩
  | some i =>
    rw [rebuildAudioHistory_some hrow]
    exact ⟨rfl, rfl⟩

/-- Both pools take a step: the shared one an operation, that of the request its part of it. -/
theorem Twin.step (h : Twin cfg r s t) (sound : Sound cfg s) {op : PoolOp K F V} (given : Given s op)
    (keeps : op.releases r = false) :
    Twin cfg r (s.step cfg op) (Lib.run (DecodeStatePool.step cfg) t (aloneOp cfg r s op)) := by
  have room : ∀ {s' : DecodeStatePool K F D V} {rid : K} {i : Nat}, s.acquireRow cfg rid = .ok (i, s') →
      0 < cfg.paddingRow := by
    intro s' rid i hok
    have hlt := (sound.acquire hok).assigned_lt rid i (acquireRow_get? hok)
    omega
  cases op with
  | acquireRow rid =>
    simp only [DecodeStatePool.step, aloneOp]
    cases hok : s.acquireRow cfg rid with
    | error e => exact h
    | ok acquired =>
      have hown := own_acquire (r := r) sound hok
      by_cases hr : rid = r
      · subst hr
        obtain ⟨t', htok, hshape⟩ := h.shape.acquire (room hok)
        simp only [↓reduceIte, Lib.run, DecodeStatePool.step, htok]
        refine ⟨hshape, ?_⟩
        rw [hown, own_acquire h.shape.sound htok, h.own]
      · simp only [if_neg hr, Lib.run]
        refine ⟨h.shape, ?_⟩
        rw [hown, if_neg (Ne.symm hr), h.own]
  | releaseRow rid =>
    have hne : ¬ rid = r := by simpa [PoolOp.releases] using keeps
    simp only [DecodeStatePool.step, aloneOp, if_neg hne, Lib.run]
    exact ⟨h.shape, by rw [own_release sound, if_neg (Ne.symm hne), h.own]⟩
  | prepareActiveRows requests =>
    simp only [DecodeStatePool.step, aloneOp, Lib.run, prepareActiveRows]
    have mine : ∀ req ∈ (prepared cfg s requests).filter (fun req => req.1 = r), req.1 = r :=
      fun req hreq => by simpa using (List.mem_filter.mp hreq).2
    have hroom : (prepared cfg s requests).filter (fun req => req.1 = r) ≠ [] → 0 < cfg.paddingRow := by
      intro hne
      cases requests with
      | nil => exact absurd rfl hne
      | cons req rest =>
        cases hok : s.acquireRow cfg req.1 with
        | ok acquired => exact room hok
        | error e =>
          rw [prepared, hok] at hne
          exact absurd rfl hne
    obtain ⟨hshape, hprepared⟩ := h.shape.prepareRows mine hroom [] false
    refine ⟨hshape, ?_⟩
    have hall : ((prepared cfg s requests).filter fun req => req.1 = r).filter (fun req => req.1 = r) =
        (prepared cfg s requests).filter fun req => req.1 = r := by
      rw [List.filter_filter]
      simp
    rw [own_prepareRows sound, own_prepareRows h.shape.sound, hprepared, h.own, hall]
  | commitGenerationStep rid steps =>
    simp only [DecodeStatePool.step, aloneOp]
    by_cases hr : rid = r
    · subst hr
      simp only [↓reduceIte, Lib.run, DecodeStatePool.step]
      refine ⟨h.shape.keep (h.shape.sound.commitGenerationStep rid steps) (commitGenerationStep_keeps rid steps).1
        (commitGenerationStep_keeps rid steps).2, ?_⟩
      rw [own_commitGenerationStep rid steps sound, own_commitGenerationStep rid steps h.shape.sound, h.own]
    · simp only [if_neg hr, Lib.run]
      exact ⟨h.shape, by rw [own_commitGenerationStep rid steps sound, if_neg (Ne.symm hr), h.own]⟩
  | commitGenerationSteps entries => exact h.writeValues Row.commit entries rfl
  | resetForRefill rid steps =>
    simp only [DecodeStatePool.step, aloneOp]
    by_cases hr : rid = r
    · subst hr
      simp only [↓reduceIte, Lib.run, DecodeStatePool.step]
      refine ⟨h.shape.keep (h.shape.sound.resetForRefill rid steps) (resetForRefill_keeps rid steps).1
        (resetForRefill_keeps rid steps).2, ?_⟩
      rw [own_resetForRefill sound, own_resetForRefill h.shape.sound, h.own]
    · simp only [if_neg hr, Lib.run]
      exact ⟨h.shape, by rw [own_resetForRefill sound, if_neg (Ne.symm hr), h.own]⟩
  | updateAudioHistory rowT rows =>
    simp only [DecodeStatePool.step, aloneOp]
    cases hok : s.updateAudioHistory cfg rowT rows with
    | error e => exact h
    | ok s' =>
      obtain ⟨rfl, hshape⟩ := updateAudioHistory_ok hok
      have hzip : rowT.zip (rows.map List.tail) = (rowT.zip rows).map fun e => (e.1, e.2.tail) := by
        rw [List.zip_map_right]
        rfl
      have hvalues : s.valuesFor r (rowT.zip (rows.map List.tail)) = (s.valuesFor r (rowT.zip rows)).map List.tail := by
        rw [hzip]
        exact valuesFor_map List.tail _
      have htwin := h.writeValues (Row.mark cfg) (rowT.zip (rows.map List.tail)) hvalues
      have htok : t.updateAudioHistory cfg (List.replicate (s.valuesFor r (rowT.zip rows)).length (aloneRow cfg))
          (s.valuesFor r (rowT.zip rows)) =
          .ok (t.writeRows (Row.mark cfg)
            (((s.valuesFor r (rowT.zip rows)).map List.tail).map fun a => (aloneRow cfg, a))) := by
        unfold DecodeStatePool.updateAudioHistory
        by_cases hnil : s.valuesFor r (rowT.zip rows) = []
        · rw [hnil]
          rfl
        · have hrep : List.replicate (s.valuesFor r (rowT.zip rows)).length (aloneRow cfg) ≠ [] := by
            intro he
            rw [List.replicate_eq_nil_iff, List.length_eq_zero_iff] at he
            exact hnil he
          have hwidth : ((s.valuesFor r (rowT.zip rows)).any fun row => row.length ≠ cfg.nVq + 1) = false := by
            obtain rfl | ⟨hwidth, _⟩ := hshape
            · exact absurd rfl hnil
            · rw [List.any_eq_false] at hwidth ⊢
              intro row hrow
              obtain ⟨e, he, heq⟩ := List.mem_filterMap.mp hrow
              split at heq
              · cases heq
                exact hwidth e.2 (List.of_mem_zip he).2
              · cases heq
          rw [if_neg hrep, hwidth, if_neg Bool.false_ne_true, if_neg (by simp),
            zip_replicate_length _ _ (List.length_map _).symm]
      simp only [Lib.run, DecodeStatePool.step, htok]
      exact htwin
  | rebuildAudioHistory rid outputRows =>
    simp only [DecodeStatePool.step, aloneOp]
    by_cases hr : rid = r
    · subst hr
      simp only [↓reduceIte, Lib.run, DecodeStatePool.step]
      refine ⟨h.shape.keep (h.shape.sound.rebuildAudioHistory rid outputRows)
        (rebuildAudioHistory_keeps rid outputRows).1 (rebuildAudioHistory_keeps rid outputRows).2, ?_⟩
      rw [own_rebuildAudioHistory sound, own_rebuildAudioHistory h.shape.sound, h.own]
    · simp only [if_neg hr, Lib.run]
      exact ⟨h.shape, by rw [own_rebuildAudioHistory sound, if_neg (Ne.symm hr), h.own]⟩
  | writeSamplingSteps entries => exact h.writeValues Row.withSamplingSteps entries rfl
  | writeFeedback entries => exact h.writeValues Row.withFeedback entries rfl

/-! ### Runs -/

theorem Sound.run {ops : List (PoolOp K F V)}
    (given : Along (DecodeStatePool.step cfg) Given (DecodeStatePool.create cfg : DecodeStatePool K F D V) ops) :
    Sound cfg (DecodeStatePool.run cfg ops : DecodeStatePool K F D V) :=
  along_invariant Sound.create (fun _ _ h hg => h.step hg) ops given

theorem twin_ops {before : List (PoolOp K F V)} (h : Twin cfg r s (DecodeStatePool.run cfg before))
    (sound : Sound cfg s) {ops : List (PoolOp K F V)} (given : Along (DecodeStatePool.step cfg) Given s ops) :
    Twin cfg r (Lib.run (DecodeStatePool.step cfg) s ops) (DecodeStatePool.run cfg (aloneOps cfg r s before ops)) := by
  induction ops generalizing s before with
  | nil => exact h
  | cons op rest ih =>
    obtain ⟨hgiven, hrest⟩ := given
    refine ih ?_ (sound.step hgiven) hrest
    cases hrel : op.releases r with
    | false =>
      simp only [Bool.false_eq_true, ↓reduceIte]
      unfold DecodeStatePool.run
      rw [Lib.run_append]
      exact h.step sound hgiven hrel
    | true =>
      rw [if_pos rfl]
      refine ⟨Shape.create, ?_⟩
      cases op with
      | releaseRow rid =>
        obtain rfl : rid = r := by simpa [PoolOp.releases] using hrel
        exact (own_release sound rid).trans (if_pos rfl)
      | _ => cases hrel

/-- The rows of a pool: who has them, and that nothing of one request reaches another. -/
structure Isolated (cfg : PoolConfig F D) (ops : List (PoolOp K F V)) (s : DecodeStatePool K F D V) : Prop where
  injective : ∀ r r' i, s.ridToRow.get? r = some i → s.ridToRow.get? r' = some i → r = r'
  apart : ∀ r i, s.ridToRow.get? r = some i → i ∉ s.freeRows
  padding_apart : cfg.paddingRow ∉ s.freeRows ∧ ∀ r, s.ridToRow.get? r ≠ some cfg.paddingRow
  covered : ∀ i, i ≤ cfg.paddingRow ↔ i ∈ s.freeRows ∨ (∃ r, s.ridToRow.get? r = some i) ∨ i = cfg.paddingRow
  free_zero : ∀ i ∈ s.freeRows, s.rows i = Row.zero
  /-- No other request has a row in the pool of a request of its own, and its row there is the same. -/
  alone : ∀ r i, s.ridToRow.get? r = some i →
    ∃ j, (alone cfg r ops : DecodeStatePool K F D V).ridToRow.get? r = some j ∧
      (∀ other k, (DecodeStatePool.alone cfg r ops : DecodeStatePool K F D V).ridToRow.get? other = some k →
        other = r) ∧
      s.rows i = (DecodeStatePool.alone cfg r ops).rows j
  penalty_last : ∀ i, i ∈ s.audioRepetitionPenaltyRows ↔ ∃ p, s.lastPenalty i = some p ∧ p ≠ 1
  penalty_assigned : ∀ i ∈ s.audioRepetitionPenaltyRows, ∃ r, s.ridToRow.get? r = some i

/-- **Main theorem**: no operations of any requests make the rows of a pool leak. -/
theorem rows_do_not_leak {ops : List (PoolOp K F V)}
    (given : Along (DecodeStatePool.step cfg) Given (create cfg : DecodeStatePool K F D V) ops) :
    Isolated cfg ops (run cfg ops : DecodeStatePool K F D V) := by
  have hsound : Sound cfg (run cfg ops : DecodeStatePool K F D V) := Sound.run given
  refine
    { injective := hsound.injective, apart := hsound.apart, padding_apart := ⟨?_, ?_⟩, covered := ?_,
      free_zero := hsound.free_zero, alone := ?_, penalty_last := hsound.penalty_last,
      penalty_assigned := hsound.penalty_assigned }
  · exact fun hi => Nat.lt_irrefl _ (hsound.free_lt _ hi)
  · exact fun r hr => Nat.lt_irrefl _ (hsound.assigned_lt r _ hr)
  · intro i
    refine ⟨fun hle => ?_, fun hin => ?_⟩
    · obtain hlt | heq := Nat.lt_or_eq_of_le hle
      · obtain hfree | hrow := hsound.covered i hlt
        · exact .inl hfree
        · exact .inr (.inl hrow)
      · exact .inr (.inr heq)
    · obtain hfree | ⟨r, hr⟩ | rfl := hin
      · exact Nat.le_of_lt (hsound.free_lt i hfree)
      · exact Nat.le_of_lt (hsound.assigned_lt r i hr)
      · exact Nat.le_refl _
  · intro r i hi
    have hstart : Twin cfg r (create cfg) (run cfg [] : DecodeStatePool K F D V) := ⟨Shape.create, rfl⟩
    have htwin : Twin cfg r (run cfg ops) (DecodeStatePool.alone cfg r ops : DecodeStatePool K F D V) :=
      twin_ops hstart Sound.create given
    have hj := htwin.holds hi
    refine ⟨aloneRow cfg, hj, fun other k hk => (htwin.shape.only other k hk).1, ?_⟩
    have hown := htwin.own
    rw [own_some hi, own_some hj, Option.some.injEq] at hown
    exact congrArg Own.row hown

/-- Two rows, of which the second has a penalty, and a third request that is given the row of the first. -/
theorem rows_do_not_leak_reused :
    Isolated ⟨2, 1, 4, id⟩
      [.prepareActiveRows [(7, ⟨1, 1, 1, 1, 0, 0, 5, none⟩), (8, ⟨1, 1, 1, 1, 0, 0, 6, some 3⟩)],
        .updateAudioHistory [0] [[0, 2]], .commitGenerationSteps [(1, 1), (0, 1)], .releaseRow 7, .acquireRow 9]
      (run ⟨2, 1, 4, id⟩
        [.prepareActiveRows [(7, ⟨1, 1, 1, 1, 0, 0, 5, none⟩), (8, ⟨1, 1, 1, 1, 0, 0, 6, some 3⟩)],
          .updateAudioHistory [0] [[0, 2]], .commitGenerationSteps [(1, 1), (0, 1)], .releaseRow 7, .acquireRow 9] :
        DecodeStatePool Nat Int Int Int) := by
  refine rows_do_not_leak ⟨(fun _ h => nomatch h), ?_, ?_, (fun _ h => nomatch h), (fun _ h => nomatch h), trivial⟩
  · intro i hi
    obtain rfl := List.mem_singleton.mp hi
    exact ⟨8, rfl⟩
  · intro i hi
    obtain rfl | hi := List.mem_cons.mp hi
    · exact ⟨7, rfl⟩
    · obtain rfl := List.mem_singleton.mp hi
      exact ⟨8, rfl⟩

end DecodeStatePool

end SglangOmni.Models.MossTtsLocal
