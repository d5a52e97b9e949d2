import SglangOmni.Lib.Segments

/-! Stale rows of a prepared batch.

While the previous step's results are drained, requests of the batch that was prepared for the next step may finish or
be retracted. `dropStaleOverrun` takes their rows out before the batch runs. Upstream's `filter_batch` keeps the other
requests but leaves the fields of an extend batch that hold one entry for each token, so these are sliced again here:
the input ids and the cache slots by the extend lengths, the log-probability ids by what remains of each length after
its start.

`filter_batch` and `is_extend` belong to upstream and are parameters. -/
namespace SglangOmni.Scheduling.StaleRows

open Lib

structure Req where
  /-- The identity of the object, `id(r)`. -/
  id : Nat
  finished : Bool := false
  isRetracted : Bool := false
  /-- Read by upstream only, for the batch's own `return_logprob`. -/
  returnLogprob : Bool := false
deriving DecidableEq, Repr

/-- The fields of a batch that the filter reads or writes. The lengths of the requests are naturals, and a start is at
most its length in a batch that upstream prepared. -/
structure ScheduleBatch (Mode : Type) where
  reqs : List Req
  forwardMode : Option Mode
  mixRunningIndices : Option (List Int) := none
  inputEmbeds : Option (List Int) := none
  replaceEmbeds : Option (List Int) := none
  inputIds : Option (List Int) := none
  prefillInputIdsCpu : Option (List Int) := none
  outCacheLoc : Option (List Int) := none
  extendLens : List Nat := []
  prefixLens : List Nat := []
  extendLogprobStartLens : List Nat := []
  extendNumTokens : Nat := 0
  extendInputLogprobTokenIds : Option (List Int) := none
  returnLogprob : Bool := false
  decodingReqs : Option (List Req) := none
deriving DecidableEq, Repr

inductive Error where
  /-- "Omni does not support stale-row filtering for SGLang mixed chunked-prefill batches". -/
  | mixedBatch
  /-- The assertion "unhandled per-token field on drop-stale extend batch". -/
  | unhandledField
  /-- "extend batch carries neither input_ids nor prefill_input_ids_cpu". -/
  | noInputs
  | indexError
deriving DecidableEq, Repr

/-- What the filter calls in upstream: `ForwardMode.is_extend` and `ScheduleBatch.filter_batch(keep_indices=...)`. -/
structure Upstream (Mode : Type) where
  isExtend : Mode → Bool
  filterBatch : List Nat → ScheduleBatch Mode → ScheduleBatch Mode

variable {Mode : Type} {batch filtered : ScheduleBatch Mode} {lens starts : List Nat}

/-- `filter_batch` keeps exactly the requests at the indices, in order. -/
def Upstream.KeepsIndices (up : Upstream Mode) : Prop :=
  ∀ keep batch, (∀ i ∈ keep, i < batch.reqs.length) →
    (up.filterBatch keep batch).reqs.map some = keep.map (batch.reqs[·]?)

/-! ### The filter -/

/-- `r.finished() or r.is_retracted`. -/
def Req.stale (r : Req) : Bool := r.finished || r.isRetracted

/-- `[i for i, d in enumerate(drop) if not d]`. -/
def keepIndices (drop : List Bool) : List Nat := (List.range drop.length).filter fun i => !drop.getD i false

/-- Subscripts of lists and tensors. -/
def index {α : Type} : Option α → Except Error α
  | some a => .ok a
  | none => .error .indexError

/-- A tensor sliced again by the indices of the kept entries; where the batch had none, `filter_batch` has the say. -/
def reslice (xs filtered : Option (List Int)) (idx : List Nat) : Except Error (Option (List Int)) :=
  match xs with
  | none => .ok filtered
  | some xs => do
    let kept ← index (gather xs idx)
    pure (some kept)

/-- `[lens[i] - extend_logprob_start_lens[i] for i in range(len(lens))]`. -/
def logprobLens (lens starts : List Nat) : Option (List Nat) :=
  (List.range lens.length).mapM fun i => do
    let len ← lens[i]?
    let start ← starts[i]?
    pure (len - start)

/-- The log-probability ids of the filtered batch. -/
def resliceLogprob (batch filtered : ScheduleBatch Mode) (keep : List Nat) : Except Error (Option (List Int)) :=
  match batch.extendInputLogprobTokenIds with
  | none => .ok filtered.extendInputLogprobTokenIds
  | some ids =>
    if filtered.returnLogprob then do
      let lens ← index (logprobLens batch.extendLens batch.extendLogprobStartLens)
      let keepTokens ← index (segmentIndices lens keep)
      reslice (some ids) none keepTokens
    else .ok none

/-- The extend branch. -/
def filterExtend (up : Upstream Mode) (batch : ScheduleBatch Mode) (keep : List Nat) :
    Except Error (ScheduleBatch Mode) := do
  if batch.mixRunningIndices.isSome then throw .mixedBatch
  if batch.inputEmbeds.isSome || batch.replaceEmbeds.isSome then throw .unhandledField
  let keepTokens ← index (segmentIndices batch.extendLens keep)
  if batch.inputIds.isNone && batch.prefillInputIdsCpu.isNone then throw .noInputs
  let filtered := up.filterBatch keep batch
  let inputIds ← reslice batch.inputIds filtered.inputIds keepTokens
  let prefillInputIdsCpu ←
    reslice (if batch.inputIds.isSome then none else batch.prefillInputIdsCpu) filtered.prefillInputIdsCpu keepTokens
  let outCacheLoc ← reslice batch.outCacheLoc filtered.outCacheLoc keepTokens
  let extendLens ← index (gather batch.extendLens keep)
  let prefixLens ← index (gather batch.prefixLens keep)
  let extendLogprobStartLens ← index (gather batch.extendLogprobStartLens keep)
  let extendInputLogprobTokenIds ← resliceLogprob batch filtered keep
  pure { filtered with
    inputIds, prefillInputIdsCpu, outCacheLoc, extendLens, prefixLens, extendLogprobStartLens,
      extendInputLogprobTokenIds,
    extendNumTokens := extendLens.sum }

/-- The other branch, one cache slot a request. -/
def filterDecode (up : Upstream Mode) (batch : ScheduleBatch Mode) (keep : List Nat) :
    Except Error (ScheduleBatch Mode) := do
  let filtered := up.filterBatch keep batch
  let outCacheLoc ← reslice batch.outCacheLoc filtered.outCacheLoc keep
  pure { filtered with outCacheLoc }

/-- The folded decode rows of requests that were dropped go too. -/
def filterDecodingReqs (batch : ScheduleBatch Mode) : ScheduleBatch Mode :=
  match batch.decodingReqs with
  | some (r :: rs) =>
    { batch with decodingReqs := some ((r :: rs).filter fun r => batch.reqs.any fun kept => kept.id == r.id) }
  | _ => batch

/-- `forward_mode is not None and forward_mode.is_extend()`. -/
def Upstream.extends (up : Upstream Mode) (batch : ScheduleBatch Mode) : Bool :=
  match batch.forwardMode with
  | none => false
  | some mode => up.isExtend mode

/-- `_drop_stale_overrun`. -/
def dropStaleOverrun (up : Upstream Mode) :
    Option (ScheduleBatch Mode) → Except Error (Option (ScheduleBatch Mode))
  | none => .ok none
  | some batch =>
    if batch.reqs.isEmpty then .ok (some batch)
    else
      let drop := batch.reqs.map Req.stale
      if !drop.any id then .ok (some batch)
      else do
        let keep := keepIndices drop
        let filtered ← (if up.extends batch then filterExtend else filterDecode) up batch keep
        let filtered := filterDecodingReqs filtered
        pure (if filtered.reqs.isEmpty then none else some filtered)

/-! ### The rows that stay -/

/-- The rows of a batch that stay. -/
def ScheduleBatch.keep (batch : ScheduleBatch Mode) : List Nat := keepIndices (batch.reqs.map Req.stale)

theorem getD_stale (reqs : List Req) {i : Nat} (h : i < reqs.length) :
    (reqs.map Req.stale).getD i false = reqs[i].stale := by
  rw [List.getD_eq_getElem?_getD, List.getElem?_map, List.getElem?_eq_getElem h]
  rfl

theorem mem_keep {i : Nat} :
    i ∈ batch.keep ↔ ∃ h : i < batch.reqs.length, batch.reqs[i].stale = false := by
  unfold ScheduleBatch.keep keepIndices
  rw [List.mem_filter, List.mem_range, List.length_map]
  constructor
  · intro ⟨hi, hkept⟩
    rw [getD_stale _ hi] at hkept
    exact ⟨hi, by simpa using hkept⟩
  · intro ⟨hi, hkept⟩
    rw [getD_stale _ hi, hkept]
    exact ⟨hi, rfl⟩

theorem keep_eq_nil : batch.keep = [] ↔ ∀ r ∈ batch.reqs, r.stale = true := by
  rw [List.eq_nil_iff_forall_not_mem]
  constructor
  · intro h r hr
    obtain ⟨i, hi, rfl⟩ := List.mem_iff_getElem.mp hr
    cases hstale : batch.reqs[i].stale with
    | true => rfl
    | false => exact absurd (mem_keep.mpr ⟨hi, hstale⟩) (h i)
  · intro h i hi
    obtain ⟨hlt, hstale⟩ := mem_keep.mp hi
    rw [h _ (List.getElem_mem hlt)] at hstale
    cases hstale

/-- With no stale row every row stays. -/
theorem keep_eq_range (h : (batch.reqs.map Req.stale).any id = false) :
    batch.keep = List.range batch.reqs.length := by
  have hfresh : ∀ r ∈ batch.reqs, r.stale = false := by simpa using h
  unfold ScheduleBatch.keep keepIndices
  rw [List.length_map, List.filter_eq_self]
  intro i hi
  rw [getD_stale _ (List.mem_range.mp hi), hfresh _ (List.getElem_mem _)]
  rfl

/-! ### Alignment -/

/-- The flat list `xs'` holds the segments that `xs` holds for the rows `keep`, in order. -/
structure SameSegments (keep : List Nat) (xs : List Int) (lens : List Nat) (xs' : List Int)
    (lens' : List Nat) : Prop where
  total : xs'.length = lens'.sum
  aligned : ∀ {k i : Nat}, keep[k]? = some i → ownedSegment xs' lens' k = ownedSegment xs lens i

theorem sameSegments_gathered {xs : List Int} (h : xs.length = lens.sum) (keep : List Nat) :
    SameSegments keep xs lens (keep.map (ownedSegment xs lens)).flatten (keep.map fun i => lens.getD i 0) where
  total := by
    rw [List.length_flatten, List.map_map]
    apply congrArg
    exact List.map_congr_left fun i _ => length_segment h i
  aligned hk := segment_gathered h hk

theorem sameSegments_range {xs : List Int} (h : xs.length = lens.sum) (n : Nat) :
    SameSegments (List.range n) xs lens xs lens where
  total := h
  aligned hk := by
    obtain ⟨-, rfl⟩ := List.getElem?_eq_some_iff.mp hk
    rw [List.getElem_range]

/-- The lengths of the log-probability segments, `extend_lens - extend_logprob_start_lens`. -/
def ScheduleBatch.logprobLens (batch : ScheduleBatch Mode) : List Nat :=
  List.zipWith (· - ·) batch.extendLens batch.extendLogprobStartLens

/-- An extend batch as upstream prepares it: the lists that hold one entry for each request are as long as the batch, a
start is at most its length, and a flat list holds one segment for each request. -/
structure WellFormed (batch : ScheduleBatch Mode) : Prop where
  lens : batch.extendLens.length = batch.reqs.length
  prefixLens : batch.prefixLens.length = batch.reqs.length
  startLens : batch.extendLogprobStartLens.length = batch.reqs.length
  starts : ∀ i, batch.extendLogprobStartLens.getD i 0 ≤ batch.extendLens.getD i 0
  inputs : batch.inputIds.isSome ∨ batch.prefillInputIdsCpu.isSome
  inputIds : ∀ ids, batch.inputIds = some ids → ids.length = batch.extendLens.sum
  prefillInputIdsCpu : ∀ ids, batch.prefillInputIdsCpu = some ids → ids.length = batch.extendLens.sum
  outCacheLoc : ∀ locs, batch.outCacheLoc = some locs → locs.length = batch.extendLens.sum
  logprobIds : ∀ ids, batch.extendInputLogprobTokenIds = some ids → ids.length = batch.logprobLens.sum
  numTokens : batch.extendNumTokens = batch.extendLens.sum

/-- What the filter leaves of a batch: the rows that stay, in order, each with its own slices at the new offsets. -/
structure Aligned (batch filtered : ScheduleBatch Mode) : Prop where
  length : filtered.reqs.length = batch.keep.length
  reqs : ∀ {k i : Nat}, batch.keep[k]? = some i → filtered.reqs[k]? = batch.reqs[i]?
  lens : filtered.extendLens = batch.keep.map fun i => batch.extendLens.getD i 0
  numTokens : filtered.extendNumTokens = filtered.extendLens.sum
  inputIds : ∀ ids, batch.inputIds = some ids →
    ∃ ids', filtered.inputIds = some ids' ∧ SameSegments batch.keep ids batch.extendLens ids' filtered.extendLens
  prefillInputIdsCpu : batch.inputIds = none → ∀ ids, batch.prefillInputIdsCpu = some ids →
    ∃ ids', filtered.prefillInputIdsCpu = some ids' ∧
      SameSegments batch.keep ids batch.extendLens ids' filtered.extendLens
  outCacheLoc : ∀ locs, batch.outCacheLoc = some locs →
    ∃ locs', filtered.outCacheLoc = some locs' ∧ SameSegments batch.keep locs batch.extendLens locs' filtered.extendLens
  /-- The log-probability ids are dropped when no request that stays asks for them. -/
  logprobIds : ∀ ids, batch.extendInputLogprobTokenIds = some ids →
    (filtered.returnLogprob = false ∧ filtered.extendInputLogprobTokenIds = none) ∨
      ∃ ids', filtered.extendInputLogprobTokenIds = some ids' ∧
        SameSegments batch.keep ids batch.logprobLens ids' filtered.logprobLens

theorem getD_logprobLens (h : lens.length = starts.length) (i : Nat) :
    (List.zipWith (· - ·) lens starts).getD i 0 = lens.getD i 0 - starts.getD i 0 := by
  induction lens generalizing starts i with
  | nil =>
    cases starts with
    | nil => simp
    | cons start starts => cases h
  | cons len lens ih =>
    cases starts with
    | nil => cases h
    | cons start starts =>
      cases i with
      | zero => rfl
      | succ i =>
        rw [List.zipWith_cons_cons, List.getD_cons_succ, List.getD_cons_succ, List.getD_cons_succ]
        exact ih (Nat.succ_inj.mp h) i

/-- The comprehension over the lengths. -/
theorem logprobLens_eq (h : lens.length = starts.length) :
    logprobLens lens starts = some (List.zipWith (· - ·) lens starts) := by
  have hsome := mapM_some (f := fun i => do
      let len ← lens[i]?
      let start ← starts[i]?
      pure (len - start))
    (g := fun i => lens.getD i 0 - starts.getD i 0) (l := List.range lens.length) (by
      intro i hi
      have hlt := List.mem_range.mp hi
      rw [getElem?_eq_some_getD hlt, getElem?_eq_some_getD (h ▸ hlt)]
      rfl)
  unfold logprobLens
  rw [hsome]
  apply congrArg
  apply List.ext_getElem
  · rw [List.length_map, List.length_range, List.length_zipWith, h, Nat.min_self]
  · intro i hleft hright
    rw [List.getElem_map, List.getElem_range, ← getD_logprobLens h, List.getD_eq_getElem?_getD,
      List.getElem?_eq_getElem hright, Option.getD_some]

/-- The log-probability lengths of the rows that stay. -/
theorem logprobLens_keep (h : lens.length = starts.length) (keep : List Nat) :
    List.zipWith (· - ·) (keep.map fun i => lens.getD i 0) (keep.map fun i => starts.getD i 0) =
      keep.map fun i => (List.zipWith (· - ·) lens starts).getD i 0 := by
  rw [List.zipWith_map]
  induction keep with
  | nil => rfl
  | cons i keep ih => rw [List.zipWith_cons_cons, ih, List.map_cons, getD_logprobLens h]

/-- A batch with no stale row is aligned with itself. -/
theorem aligned_self (h : WellFormed batch)
    (hfresh : (batch.reqs.map Req.stale).any id = false) : Aligned batch batch := by
  have hkeep := keep_eq_range hfresh
  constructor
  · rw [hkeep, List.length_range]
  · intro k i hk
    rw [hkeep] at hk
    obtain ⟨-, rfl⟩ := List.getElem?_eq_some_iff.mp hk
    rw [List.getElem_range]
  · rw [hkeep, ← h.lens]
    apply List.ext_getElem
    · rw [List.length_map, List.length_range]
    · intro i hleft _
      rw [List.getElem_map, List.getElem_range, List.getD_eq_getElem?_getD, List.getElem?_eq_getElem hleft,
        Option.getD_some]
  · exact h.numTokens
  · intro ids hids
    exact ⟨ids, hids, hkeep ▸ sameSegments_range (h.inputIds ids hids) _⟩
  · intro _ ids hids
    exact ⟨ids, hids, hkeep ▸ sameSegments_range (h.prefillInputIdsCpu ids hids) _⟩
  · intro locs hlocs
    exact ⟨locs, hlocs, hkeep ▸ sameSegments_range (h.outCacheLoc locs hlocs) _⟩
  · intro ids hids
    exact .inr ⟨ids, hids, hkeep ▸ sameSegments_range (h.logprobIds ids hids) _⟩

/-! ### The filter keeps rows aligned -/

/-- The segments of the rows that stay, in one list. -/
def cut (lens keep : List Nat) (xs : List Int) : List Int := (keep.map (ownedSegment xs lens)).flatten

/-- A flat list sliced again by the indices of the rows that stay. -/
theorem reslice_segments {xs filtered : Option (List Int)}
    (h : ∀ ids, xs = some ids → ids.length = lens.sum) {keep tokens : List Nat} (known : ∀ i ∈ keep, i < lens.length)
    (htokens : segmentIndices lens keep = some tokens) :
    reslice xs filtered tokens = .ok ((xs.map (cut lens keep)).or filtered) := by
  cases xs with
  | none => rfl
  | some ids =>
    have hgather := gather_segments (h ids rfl) known
    rw [htokens, Option.bind_some] at hgather
    show (index (gather ids tokens) >>= _) = _
    rw [hgather]
    rfl

/-- The log-probability ids of the filtered batch. -/
theorem resliceLogprob_eq (h : WellFormed batch) {keep : List Nat}
    (known : ∀ i ∈ keep, i < batch.extendLens.length) {ids : List Int}
    (hids : batch.extendInputLogprobTokenIds = some ids) :
    resliceLogprob batch filtered keep =
      .ok (if filtered.returnLogprob then some (cut batch.logprobLens keep ids) else none) := by
  have hlengths : batch.extendLens.length = batch.extendLogprobStartLens.length := by rw [h.lens, h.startLens]
  have hknown : ∀ i ∈ keep, i < batch.logprobLens.length := by
    intro i hi
    unfold ScheduleBatch.logprobLens
    rw [List.length_zipWith, ← hlengths, Nat.min_self]
    exact known i hi
  unfold resliceLogprob
  rw [hids]
  cases filtered.returnLogprob with
  | false => rfl
  | true =>
    have htokens := segmentIndices_known hknown
    have hreslice : reslice (some ids) none _ = _ :=
      reslice_segments (fun ids' hids' => h.logprobIds ids' (hids.trans hids')) hknown htokens
    show (index (logprobLens batch.extendLens batch.extendLogprobStartLens) >>= _) = _
    rw [logprobLens_eq hlengths]
    show (index (segmentIndices batch.logprobLens keep) >>= _) = _
    rw [htokens]
    exact hreslice

/-- The filtered batch with the rows that stay sliced again. -/
def sliced (batch filtered : ScheduleBatch Mode) (logprobIds : Option (List Int)) : ScheduleBatch Mode :=
  { filtered with
    inputIds := (batch.inputIds.map (cut batch.extendLens batch.keep)).or filtered.inputIds
    prefillInputIdsCpu :=
      ((if batch.inputIds.isSome then none else batch.prefillInputIdsCpu).map (cut batch.extendLens batch.keep)).or
        filtered.prefillInputIdsCpu
    outCacheLoc := (batch.outCacheLoc.map (cut batch.extendLens batch.keep)).or filtered.outCacheLoc
    extendLens := batch.keep.map fun i => batch.extendLens.getD i 0
    prefixLens := batch.keep.map fun i => batch.prefixLens.getD i 0
    extendLogprobStartLens := batch.keep.map fun i => batch.extendLogprobStartLens.getD i 0
    extendNumTokens := (batch.keep.map fun i => batch.extendLens.getD i 0).sum
    extendInputLogprobTokenIds := logprobIds }

/-- The extend branch succeeds on a well-formed batch. -/
theorem filterExtend_eq (up : Upstream Mode) (h : WellFormed batch)
    (hmix : batch.mixRunningIndices = none) (hembeds : batch.inputEmbeds = none) (hreplace : batch.replaceEmbeds = none)
    {logprobIds : Option (List Int)}
    (hlogprob : resliceLogprob batch (up.filterBatch batch.keep batch) batch.keep = .ok logprobIds) :
    filterExtend up batch batch.keep = .ok (sliced batch (up.filterBatch batch.keep batch) logprobIds) := by
  have hknown : ∀ i ∈ batch.keep, i < batch.reqs.length := fun i hi => (mem_keep.mp hi).1
  have hlens : ∀ i ∈ batch.keep, i < batch.extendLens.length := by rwa [h.lens]
  have hprefix : ∀ i ∈ batch.keep, i < batch.prefixLens.length := by rwa [h.prefixLens]
  have hstarts : ∀ i ∈ batch.keep, i < batch.extendLogprobStartLens.length := by rwa [h.startLens]
  have htokens := segmentIndices_known hlens
  have hnone : (batch.inputIds.isNone && batch.prefillInputIdsCpu.isNone) = false := by
    obtain hsome | hsome := h.inputs
    · rw [Option.isNone_eq_false_iff.mpr hsome, Bool.false_and]
    · rw [Option.isNone_eq_false_iff.mpr hsome, Bool.and_false]
  have hprefill : ∀ ids, (if batch.inputIds.isSome then none else batch.prefillInputIdsCpu) = some ids →
      ids.length = batch.extendLens.sum := by
    intro ids hids
    split at hids
    · cases hids
    · exact h.prefillInputIdsCpu ids hids
  unfold filterExtend
  rw [hmix, hembeds, hreplace, htokens, hnone, gather_known hlens, gather_known hprefix, gather_known hstarts]
  show (reslice _ _ _ >>= _) = _
  rw [reslice_segments h.inputIds hlens htokens]
  show (reslice _ _ _ >>= _) = _
  rw [reslice_segments hprefill hlens htokens]
  show (reslice _ _ _ >>= _) = _
  rw [reslice_segments h.outCacheLoc hlens htokens]
  show (resliceLogprob _ _ _ >>= _) = _
  rw [hlogprob]
  rfl

/-- What the extend branch leaves is aligned with what it was given. -/
theorem sliced_aligned (h : WellFormed batch)
    (hreqs : filtered.reqs.map some = batch.keep.map (batch.reqs[·]?)) {logprobIds : Option (List Int)}
    (hlogprob : resliceLogprob batch filtered batch.keep = .ok logprobIds) :
    Aligned batch (sliced batch filtered logprobIds) where
  length := by
    have hlength := congrArg List.length hreqs
    rwa [List.length_map, List.length_map] at hlength
  reqs := by
    intro k i hk
    have hat := congrArg (·[k]?) hreqs
    rw [List.getElem?_map, List.getElem?_map, hk] at hat
    show filtered.reqs[k]? = _
    cases hreq : filtered.reqs[k]? with
    | none =>
      rw [hreq] at hat
      cases hat
    | some r =>
      rw [hreq] at hat
      exact Option.some_inj.mp hat
  lens := rfl
  numTokens := rfl
  inputIds := by
    intro ids hids
    refine ⟨cut batch.extendLens batch.keep ids, ?_, sameSegments_gathered (h.inputIds ids hids) batch.keep⟩
    unfold sliced
    rw [hids]
    rfl
  prefillInputIdsCpu := by
    intro hnone ids hids
    refine ⟨cut batch.extendLens batch.keep ids, ?_, sameSegments_gathered (h.prefillInputIdsCpu ids hids) batch.keep⟩
    unfold sliced
    rw [hnone, hids]
    rfl
  outCacheLoc := by
    intro locs hlocs
    refine ⟨cut batch.extendLens batch.keep locs, ?_, sameSegments_gathered (h.outCacheLoc locs hlocs) batch.keep⟩
    unfold sliced
    rw [hlocs]
    rfl
  logprobIds := by
    intro ids hids
    have hknown : ∀ i ∈ batch.keep, i < batch.extendLens.length := by
      rw [h.lens]
      exact fun i hi => (mem_keep.mp hi).1
    rw [resliceLogprob_eq h hknown hids] at hlogprob
    cases Except.ok.inj hlogprob
    cases hreturn : filtered.returnLogprob with
    | false => exact .inl ⟨hreturn, rfl⟩
    | true =>
      have hlens := logprobLens_keep (h.lens.trans h.startLens.symm) batch.keep
      refine .inr ⟨cut batch.logprobLens batch.keep ids, rfl, ?_⟩
      show SameSegments batch.keep ids batch.logprobLens _ (List.zipWith (· - ·) (batch.keep.map _) (batch.keep.map _))
      rw [hlens]
      exact sameSegments_gathered (h.logprobIds ids hids) batch.keep

theorem filterExtend_aligned {up : Upstream Mode} (hup : up.KeepsIndices)
    (h : WellFormed batch) (hmix : batch.mixRunningIndices = none) (hembeds : batch.inputEmbeds = none)
    (hreplace : batch.replaceEmbeds = none) :
    ∃ filtered, filterExtend up batch batch.keep = .ok filtered ∧ Aligned batch filtered := by
  have hknown : ∀ i ∈ batch.keep, i < batch.reqs.length := fun i hi => (mem_keep.mp hi).1
  obtain ⟨ids, hids⟩ : ∃ ids, resliceLogprob batch (up.filterBatch batch.keep batch) batch.keep = .ok ids := by
    cases hids : batch.extendInputLogprobTokenIds with
    | none =>
      unfold resliceLogprob
      rw [hids]
      exact ⟨_, rfl⟩
    | some ids => exact ⟨_, resliceLogprob_eq h (h.lens.symm ▸ hknown) hids⟩
  exact ⟨_, filterExtend_eq up h hmix hembeds hreplace hids, sliced_aligned h (hup _ _ hknown) hids⟩

/-- The decode rows folded into a batch are in no slice. -/
theorem Aligned.filterDecodingReqs (h : Aligned batch filtered) :
    Aligned batch (filterDecodingReqs filtered) := by
  unfold StaleRows.filterDecodingReqs
  split
  · exact ⟨h.length, h.reqs, h.lens, h.numTokens, h.inputIds, h.prefillInputIdsCpu, h.outCacheLoc, h.logprobIds⟩
  · exact h

theorem dropStaleOverrun_some (up : Upstream Mode) (batch : ScheduleBatch Mode) : dropStaleOverrun up (some batch) =
    if batch.reqs.isEmpty then .ok (some batch)
    else if !(batch.reqs.map Req.stale).any id then .ok (some batch)
    else (if up.extends batch then filterExtend else filterDecode) up batch batch.keep >>= fun filtered =>
      .ok (if (filterDecodingReqs filtered).reqs.isEmpty then none else some (filterDecodingReqs filtered)) := rfl

/-- **Main theorem.** On a well-formed extend batch without mixed rows and without embeddings the filter succeeds. A
batch that had requests is dropped exactly when all of them are stale, and a batch that is returned holds the other rows
in order, each with its own slices. -/
theorem dropStaleOverrun_aligned {up : Upstream Mode} (hup : up.KeepsIndices) {batch : ScheduleBatch Mode}
    (h : WellFormed batch) (hextends : up.extends batch = true) (hmix : batch.mixRunningIndices = none)
    (hembeds : batch.inputEmbeds = none) (hreplace : batch.replaceEmbeds = none) :
    ∃ out, dropStaleOverrun up (some batch) = .ok out ∧
      (out = none ↔ batch.reqs ≠ [] ∧ ∀ r ∈ batch.reqs, r.stale = true) ∧
      ∀ filtered, out = some filtered → Aligned batch filtered := by
  cases hstale : (batch.reqs.map Req.stale).any id with
  | false =>
    have hfresh : ∀ r ∈ batch.reqs, r.stale = false := by simpa using hstale
    refine ⟨some batch, ?_, ⟨nofun, ?_⟩, ?_⟩
    · rw [dropStaleOverrun_some, hstale]
      exact ite_self _
    · intro ⟨hne, hall⟩
      obtain ⟨r, hr⟩ := List.exists_mem_of_ne_nil _ hne
      have hr' := hfresh r hr
      rw [hall r hr] at hr'
      cases hr'
    · intro filtered hsome
      cases hsome
      exact aligned_self h hstale
  | true =>
    obtain ⟨filtered, hfilter, haligned⟩ := filterExtend_aligned hup h hmix hembeds hreplace
    have hdecoding := haligned.filterDecodingReqs
    have hne : batch.reqs ≠ [] := by
      intro hnil
      rw [hnil] at hstale
      cases hstale
    have hempty : (filterDecodingReqs filtered).reqs = [] ↔ ∀ r ∈ batch.reqs, r.stale = true := by
      rw [← List.length_eq_zero_iff, hdecoding.length, List.length_eq_zero_iff, keep_eq_nil]
    have heq : dropStaleOverrun up (some batch) =
        .ok (if (filterDecodingReqs filtered).reqs.isEmpty then none else some (filterDecodingReqs filtered)) := by
      rw [dropStaleOverrun_some, hstale, hextends, if_neg (by simpa using hne)]
      show (filterExtend up batch batch.keep >>= _) = _
      rw [hfilter]
      rfl
    refine ⟨_, heq, ?_, ?_⟩
    · rw [← hempty]
      by_cases hnil : (filterDecodingReqs filtered).reqs = []
      · rw [if_pos (List.isEmpty_iff.mpr hnil)]
        exact ⟨fun _ => ⟨hne, hnil⟩, fun _ => rfl⟩
      · rw [if_neg (mt List.isEmpty_iff.mp hnil)]
        exact ⟨nofun, fun hall => absurd hall.2 hnil⟩
    · intro out hout
      split at hout
      · cases hout
      · cases hout
        exact hdecoding

/-! ### Where a slice is lost on purpose -/

/-- A `filter_batch` that does what upstream's does to the fields above. -/
def sample : Upstream Unit where
  isExtend _ := true
  filterBatch keep batch :=
    let reqs := keep.filterMap (batch.reqs[·]?)
    { batch with reqs, outCacheLoc := none, returnLogprob := reqs.any Req.returnLogprob }

theorem sample_keepsIndices : sample.KeepsIndices := by
  intro keep batch hknown
  show (keep.filterMap (batch.reqs[·]?)).map some = _
  induction keep with
  | nil => rfl
  | cons i keep ih =>
    have hi := hknown i List.mem_cons_self
    rw [List.filterMap_cons_some (List.getElem?_eq_getElem hi), List.map_cons, List.map_cons,
      List.getElem?_eq_getElem hi,
      ih fun j hj => hknown j (List.mem_cons_of_mem i hj)]

/-- Two requests of two tokens each; the first one asked for log-probabilities and has finished. -/
def finishedLogprob : ScheduleBatch Unit where
  reqs := [{ id := 0, finished := true, returnLogprob := true }, { id := 1 }]
  forwardMode := some ()
  inputIds := some [5, 6, 7, 8]
  outCacheLoc := some [10, 11, 12, 13]
  extendLens := [2, 2]
  prefixLens := [0, 0]
  extendLogprobStartLens := [0, 1]
  extendNumTokens := 4
  extendInputLogprobTokenIds := some [5, 6, 8]
  returnLogprob := true

/-- The request that stays has a log-probability segment before the filter and none after it; a batch without requests
comes back as it is; and a batch with embeddings is refused. -/
theorem logprob_segment_dropped :
    (∃ filtered, dropStaleOverrun sample (some finishedLogprob) = .ok (some filtered) ∧
      finishedLogprob.keep[0]? = some 1 ∧ ownedSegment [5, 6, 8] finishedLogprob.logprobLens 1 = [(8 : Int)] ∧
      filtered.extendInputLogprobTokenIds = none) ∧
      (∃ out, dropStaleOverrun sample (some { reqs := [], forwardMode := some (), inputIds := some [] }) =
        .ok (some out)) ∧
      dropStaleOverrun sample (some { finishedLogprob with inputEmbeds := some [1, 1, 1, 1] }) =
        .error .unhandledField :=
  ⟨⟨_, rfl, rfl, rfl, rfl⟩, ⟨_, rfl⟩, rfl⟩

theorem dropStaleOverrun_aligned_finished :
    sample.KeepsIndices ∧ ∃ out, dropStaleOverrun sample (some finishedLogprob) = .ok out ∧
      (out = none ↔ finishedLogprob.reqs ≠ [] ∧ ∀ r ∈ finishedLogprob.reqs, r.stale = true) ∧
      ∀ filtered, out = some filtered → Aligned finishedLogprob filtered :=
  ⟨sample_keepsIndices, dropStaleOverrun_aligned sample_keepsIndices
    { lens := rfl
      prefixLens := rfl
      startLens := rfl
      starts := by
        intro i
        match i with
        | 0 => decide
        | 1 => decide
        | i + 2 => exact Nat.le_refl 0
      inputs := .inl rfl
      inputIds := by
        intro ids hids
        cases hids
        rfl
      prefillInputIdsCpu := nofun
      outCacheLoc := by
        intro locs hlocs
        cases hlocs
        rfl
      logprobIds := by
        intro ids hids
        cases hids
        rfl
      numTokens := rfl } rfl rfl rfl rfl⟩

end SglangOmni.Scheduling.StaleRows
