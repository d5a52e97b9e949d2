import SglangOmni.Models.Higgs.Sampler
import Mathlib.Data.Nat.SuccPred

/-! The batched sampler does to each row what the sampler of one request does, and both end an utterance where the delay
pattern is whole.

One row of `batchedStepDirect` is compared with `step` first; gathering and scattering distinct rows then carries this
to a pool, and the run of a pool to the run of each request in it. How long a request winds down is proved of `step`
only. -/
namespace SglangOmni.Models.Higgs

variable {M N : Nat}

/-! ### One request -/

/-- A request that goes on is not at the end of its countdown. -/
def HiggsSamplerState.Live (state : HiggsSamplerState N) : Prop :=
  state.generationDone = false → ∀ countdown, state.eocCountdown = some countdown → 1 ≤ countdown

theorem HiggsSamplerState.Live.step [NeZero N] {state : HiggsSamplerState N} (h : state.Live) (sampled : Codes N) :
    (Higgs.step state sampled).2.Live := by
  unfold Higgs.step
  by_cases done : state.generationDone
  · rw [if_pos done]
    exact h
  · rw [if_neg done]
    have hadvance : (state.advance sampled).2.Live := by
      unfold HiggsSamplerState.advance
      split
      · exact h
      · split
        · intro hdone countdown heq
          simp only [Bool.or_eq_false_iff, decide_eq_false_iff_not, Option.some.injEq] at hdone heq
          omega
        · split
          · split
            · intro hdone
              cases hdone
            · intro _ countdown heq
              simp only [Option.some.injEq] at heq
              omega
          · exact h
    simp only
    split
    · exact hadvance
    · exact hadvance

/-! ### One row of a batch -/

/-- A row of the pool as the state of a request. -/
def viewOf (delayCount : Nat) (eocCountdown : Int) (generationDone : Bool)
    (lastCodes : Codes N) : HiggsSamplerState N where
  delayCount := delayCount
  eocCountdown := if eocCountdown < 0 then none else some eocCountdown
  generationDone := generationDone
  lastCodes := if delayCount = 0 then none else some lastCodes

section
variable [NeZero N] {B : Nat} (sampled : Fin B → Codes N) (delayCount : Fin B → Nat) (eocCountdown : Fin B → Int)
  (generationDone : Fin B → Bool) (lastCodes : Fin B → Codes N) (stepCount : Fin B → Nat) (b : Fin B)

/-- A finished row answers with stops and keeps its fields. -/
theorem batchedStepDirect_done (done : generationDone b = true) :
    let stepped := batchedStepDirect sampled delayCount eocCountdown generationDone lastCodes stepCount
    stepped.outCodes b = (fun _ => stopCode) ∧ stepped.delayCount b = delayCount b ∧
      stepped.eocCountdown b = eocCountdown b ∧ stepped.generationDone b = true ∧
      stepped.lastCodes b = lastCodes b ∧ stepped.stepCount b = stepCount b := by
  simp [batchedStepDirect, done]

/-- Masks and branches agree, where a row that winds down is not at its end already. -/
theorem batchedStepDirect_step
    (live : (viewOf (delayCount b) (eocCountdown b) (generationDone b) (lastCodes b)).Live) :
    let stepped := batchedStepDirect sampled delayCount eocCountdown generationDone lastCodes stepCount
    (stepped.outCodes b, viewOf (stepped.delayCount b) (stepped.eocCountdown b) (stepped.generationDone b)
        (stepped.lastCodes b)) =
      step (viewOf (delayCount b) (eocCountdown b) (generationDone b) (lastCodes b)) (sampled b) := by
  cases done : generationDone b with
  | true =>
    simp [batchedStepDirect, step, viewOf, done]
  | false =>
    by_cases hdelay : delayCount b < N
    · have hge : ¬ N ≤ delayCount b := by omega
      simp [batchedStepDirect, step, HiggsSamplerState.advance, viewOf, done, hdelay, hge]
    · have hge : N ≤ delayCount b := by omega
      have hzero : delayCount b ≠ 0 := fun h => NeZero.ne N (by omega)
      by_cases hwind : 0 ≤ eocCountdown b
      · have hneg : ¬ eocCountdown b < 0 := by omega
        have hlive := live done (eocCountdown b) (if_neg hneg)
        have hone : ¬ eocCountdown b - 1 < 0 := by omega
        by_cases hlast : eocCountdown b ≤ 1
        · have hmore : ¬ 1 < eocCountdown b := by omega
          simp [batchedStepDirect, step, HiggsSamplerState.advance, viewOf, done, hdelay, hge, hwind, hneg, hzero, hone,
            hmore]
        · have hmore : ¬ eocCountdown b - 1 ≤ 0 := by omega
          simp [batchedStepDirect, step, HiggsSamplerState.advance, viewOf, done, hdelay, hge, hwind, hneg, hzero, hone,
            hlast, hmore]
      · have hneg : eocCountdown b < 0 := by omega
        by_cases heoc : sampled b 0 = eocId
        · by_cases htwo : N ≤ 2
          · have hlong : ¬ 2 < N := by omega
            simp [batchedStepDirect, step, HiggsSamplerState.advance, viewOf, done, hdelay, hge, hwind, hneg, hzero,
              heoc, htwo, hlong]
          · have hlong : 2 < N := by omega
            have hcount : ¬ (N : Int) - 2 < 0 := by omega
            simp [batchedStepDirect, step, HiggsSamplerState.advance, viewOf, done, hdelay, hge, hwind, hneg, hzero,
              heoc, htwo, hlong, hcount]
        · simp [batchedStepDirect, step, HiggsSamplerState.advance, viewOf, done, hdelay, hwind, hneg, hzero, heoc]
end

/-! ### Gathering and scattering -/

theorem Batch.scatter_get {α : Type} (b : Batch M N) (column : Fin M → α) (values : Fin b.rowIndices.length → α)
    (i : Fin b.rowIndices.length) : b.scatter column values (b.rowIndices.get i) = values i := by
  unfold scatter
  rw [dif_pos (List.get_mem b.rowIndices i)]
  congr 1
  exact Fin.ext (b.nodup.idxOf_getElem i i.isLt)

theorem Batch.scatter_of_notMem {α : Type} (b : Batch M N) (column : Fin M → α) (values : Fin b.rowIndices.length → α)
    {r : Fin M} (h : r ∉ b.rowIndices) : b.scatter column values r = column r :=
  dif_neg h

/-! ### The pool -/

/-- All fields of a row are the same. -/
structure SameRow (s s' : HiggsBatchedSamplerState M N) (r : Fin M) : Prop where
  delayCount : s'.delayCount r = s.delayCount r
  eocCountdown : s'.eocCountdown r = s.eocCountdown r
  generationDone : s'.generationDone r = s.generationDone r
  lastCodes : s'.lastCodes r = s.lastCodes r
  seeds : s'.seeds r = s.seeds r
  stepCount : s'.stepCount r = s.stepCount r

/-- A batched step does to the rows of a batch what steps of their own would. -/
structure Simulates [NeZero N] (s : HiggsBatchedSamplerState M N) (b : Batch M N) : Prop where
  listed : ∀ i, ((batchedStep s b).1 i, (batchedStep s b).2.viewRow (b.rowIndices.get i)) =
    step (s.viewRow (b.rowIndices.get i)) (b.sampled i)
  finished : ∀ i, s.generationDone (b.rowIndices.get i) = true →
    (batchedStep s b).1 i = (fun _ => stopCode) ∧ SameRow s (batchedStep s b).2 (b.rowIndices.get i)
  others : ∀ r ∉ b.rowIndices, SameRow s (batchedStep s b).2 r

theorem SameRow.viewRow {s s' : HiggsBatchedSamplerState M N} {r : Fin M} (h : SameRow s s' r) :
    s'.viewRow r = s.viewRow r := by
  simp only [HiggsBatchedSamplerState.viewRow, h.delayCount, h.eocCountdown, h.generationDone, h.lastCodes]

theorem viewRow_resetRow (s : HiggsBatchedSamplerState M N) (r : Fin M) : (s.resetRow r).viewRow r = {} := by
  simp [HiggsBatchedSamplerState.viewRow, HiggsBatchedSamplerState.resetRow, HiggsBatchedSamplerState.put]

theorem viewRow_resetRow_ne (s : HiggsBatchedSamplerState M N) {r row : Fin M} (h : r ≠ row) :
    (s.resetRow row).viewRow r = s.viewRow r := by
  simp [HiggsBatchedSamplerState.viewRow, HiggsBatchedSamplerState.resetRow, HiggsBatchedSamplerState.put, h]

variable [NeZero N]

/-- All requests of a pool can go on. -/
def Live (s : HiggsBatchedSamplerState M N) : Prop := ∀ r, (s.viewRow r).Live

theorem Live.simulates {s : HiggsBatchedSamplerState M N} (h : Live s) (b : Batch M N) : Simulates s b where
  listed i := by
    have hrow := batchedStepDirect_step b.sampled (b.gather s.delayCount) (b.gather s.eocCountdown)
      (b.gather s.generationDone) (b.gather s.lastCodes) (b.gather s.stepCount) i (h _)
    simp only [batchedStep, HiggsBatchedSamplerState.viewRow, Batch.scatter_get]
    exact hrow
  finished i done := by
    obtain ⟨hout, hdelay, heoc, hdone, hlast, hcount⟩ := batchedStepDirect_done b.sampled (b.gather s.delayCount)
      (b.gather s.eocCountdown) (b.gather s.generationDone) (b.gather s.lastCodes) (b.gather s.stepCount) i done
    refine ⟨hout, ?_, ?_, ?_, ?_, rfl, ?_⟩
    · exact (Batch.scatter_get ..).trans hdelay
    · exact (Batch.scatter_get ..).trans heoc
    · exact ((Batch.scatter_get ..).trans hdone).trans done.symm
    · exact (Batch.scatter_get ..).trans hlast
    · exact (Batch.scatter_get ..).trans hcount
  others r hr :=
    ⟨b.scatter_of_notMem _ _ hr, b.scatter_of_notMem _ _ hr, b.scatter_of_notMem _ _ hr,
      b.scatter_of_notMem _ _ hr, rfl,
      b.scatter_of_notMem _ _ hr⟩

/-! ### Runs of a pool -/

/-- The state of a request of its own. -/
def stepAll (history : List (Codes N)) : HiggsSamplerState N :=
  history.foldl (fun state sampled => (step state sampled).2) {}

theorem stepAll_snoc (history : List (Codes N)) (sampled : Codes N) :
    stepAll (history ++ [sampled]) = (step (stepAll history) sampled).2 :=
  List.foldl_concat ..

theorem stepAll_live (history : List (Codes N)) : (stepAll history).Live := by
  induction history using List.reverseRecOn with
  | nil =>
    intro _ countdown h
    cases h
  | append_singleton history sampled ih =>
    rw [stepAll_snoc]
    exact ih.step sampled

/-- In every run of a pool each row is where a request of its own would be. -/
theorem viewRow_run (ops : List (Op M N)) (r : Fin M) : (run ops).viewRow r = stepAll (historyOf r ops) := by
  unfold run historyOf
  induction ops using List.reverseRecOn generalizing r with
  | nil => rfl
  | append_singleton ops op ih =>
    rw [List.foldl_concat, List.foldl_concat]
    cases op with
    | resetRow row =>
      simp only [Op.apply, Op.sampledFor]
      split
      · next hr =>
        subst hr
        exact viewRow_resetRow _ _
      · next hr =>
        rw [viewRow_resetRow_ne _ (Ne.symm hr)]
        exact ih r
    | setSeed row value => exact ih r
    | batchedStep b =>
      have hlive : Live (ops.foldl Op.apply {}) := fun r => (ih r).symm ▸ stepAll_live _
      have hsim := hlive.simulates b
      simp only [Op.apply, Op.sampledFor]
      split
      · next hr =>
        have hrow := congrArg Prod.snd (hsim.listed ⟨b.rowIndices.idxOf r, List.idxOf_lt_length_of_mem hr⟩)
        simp only [List.get_eq_getElem, List.getElem_idxOf] at hrow
        rw [hrow, ih r, stepAll_snoc]
      · next hr =>
        rw [(hsim.others r hr).viewRow]
        exact ih r

theorem Live.run (ops : List (Op M N)) : Live (run ops) := fun r => (viewRow_run ops r).symm ▸ stepAll_live _

/-! ### The end of an utterance -/

/-- What a request answers, step by step. -/
def rowsFrom (state : HiggsSamplerState N) : List (Codes N) → List (Codes N)
  | [] => []
  | sampled :: rest => (step state sampled).1 :: rowsFrom (step state sampled).2 rest

def rowsOf (history : List (Codes N)) : List (Codes N) := rowsFrom {} history

theorem rowsFrom_getElem? (state : HiggsSamplerState N) (history : List (Codes N)) (k : Nat) :
    (rowsFrom state history)[k]? =
      (history[k]?).map fun sampled =>
        (step ((history.take k).foldl (fun state sampled => (step state sampled).2) state) sampled).1 := by
  induction history generalizing state k with
  | nil => rfl
  | cons sampled rest ih =>
    cases k with
    | zero => rfl
    | succ k => exact ih (step state sampled).2 k

theorem rowsOf_getElem? (history : List (Codes N)) (k : Nat) :
    (rowsOf history)[k]? = (history[k]?).map fun sampled => (step (stepAll (history.take k)) sampled).1 :=
  rowsFrom_getElem? {} history k

theorem length_rowsOf (history : List (Codes N)) : (rowsOf history).length = history.length := by
  unfold rowsOf
  generalize ({} : HiggsSamplerState N) = state
  induction history generalizing state with
  | nil => rfl
  | cons sampled rest ih => exact congrArg Nat.succ (ih _)

/-- The first end of codebook 0 after the delay is in row `e`. -/
structure FirstEoc (rows : List (Codes N)) (e : Nat) : Prop where
  after_delay : N ≤ e
  eoc : (rows[e]?).map (· 0) = some eocId
  first : ∀ k, N ≤ k → k < e → (rows[k]?).map (· 0) ≠ some eocId

/-- The fields that steer a request. -/
structure Control (state : HiggsSamplerState N) (delayCount : Nat) (eocCountdown : Option Int) (generationDone : Bool) :
    Prop where
  delayCount_eq : state.delayCount = delayCount
  eocCountdown_eq : state.eocCountdown = eocCountdown
  generationDone_eq : state.generationDone = generationDone

namespace Control

variable {state : HiggsSamplerState N} {delayCount : Nat} {sampled : Codes N}

theorem delay (h : Control state delayCount none false) (hdelay : delayCount < N) :
    Control (step state sampled).2 (delayCount + 1) none false := by
  obtain ⟨rfl, heoc, hdone⟩ := h
  refine ⟨?_, ?_, ?_⟩ <;> simp [step, HiggsSamplerState.advance, hdone, hdelay, heoc]

section
variable (h : Control state delayCount none false) (hdelay : N ≤ delayCount)
include h hdelay

/-- After the delay the codes of codebook 0 are those that were sampled. -/
theorem answer : (step state sampled).1 = sampled := by
  obtain ⟨rfl, heoc, hdone⟩ := h
  have hnot : ¬ state.delayCount < N := Nat.not_lt.mpr hdelay
  have hadvance : (state.advance sampled).1 = sampled := by
    simp only [HiggsSamplerState.advance, heoc, if_neg hnot]
    split
    · split <;> rfl
    · rfl
  unfold step
  rw [if_neg (by simp [hdone])]
  exact hadvance

theorem plain (hcode : sampled 0 ≠ eocId) :
    Control (step state sampled).2 delayCount none false := by
  obtain ⟨rfl, heoc, hdone⟩ := h
  have hnot : ¬ state.delayCount < N := Nat.not_lt.mpr hdelay
  refine ⟨?_, ?_, ?_⟩ <;> simp [step, HiggsSamplerState.advance, hdone, hnot, heoc, hcode]

theorem eoc_short (hcode : sampled 0 = eocId)
    (hshort : N ≤ 2) : Control (step state sampled).2 delayCount none true := by
  obtain ⟨rfl, heoc, hdone⟩ := h
  have hnot : ¬ state.delayCount < N := Nat.not_lt.mpr hdelay
  refine ⟨?_, ?_, ?_⟩ <;> simp [step, HiggsSamplerState.advance, hdone, hnot, heoc, hcode, hshort]

theorem eoc_long (hcode : sampled 0 = eocId)
    (hlong : ¬ N ≤ 2) : Control (step state sampled).2 delayCount (some (N - 2)) false := by
  obtain ⟨rfl, heoc, hdone⟩ := h
  have hnot : ¬ state.delayCount < N := Nat.not_lt.mpr hdelay
  refine ⟨?_, ?_, ?_⟩ <;> simp [step, HiggsSamplerState.advance, hdone, hnot, heoc, hcode, hlong]

end

theorem winddown {countdown : Int} (h : Control state delayCount (some countdown) false) (hdelay : N ≤ delayCount) :
    Control (step state sampled).2 delayCount (some (countdown - 1)) (decide (countdown - 1 ≤ 0)) := by
  obtain ⟨rfl, heoc, hdone⟩ := h
  have hnot : ¬ state.delayCount < N := Nat.not_lt.mpr hdelay
  have hadvance : (state.advance sampled).2 = { state with
      eocCountdown := some (countdown - 1), generationDone := decide (countdown - 1 ≤ 0) } := by
    simp only [HiggsSamplerState.advance, heoc, if_neg hnot, hdone, Bool.or_false]
  unfold step
  rw [if_neg (by simp [hdone])]
  simp only [hadvance]
  split
  · exact ⟨rfl, rfl, rfl⟩
  · exact ⟨rfl, rfl, rfl⟩

theorem done {eocCountdown : Option Int} (h : Control state delayCount eocCountdown true) :
    Control (step state sampled).2 delayCount eocCountdown true := by
  have hstep : step state sampled = (fun _ => stopCode, state) := if_pos h.generationDone_eq
  rw [hstep]
  exact h

end Control

section
variable {history : List (Codes N)} {e : Nat}

theorem stepAll_take_succ {k : Nat} (hk : k < history.length) :
    stepAll (history.take (k + 1)) = (step (stepAll (history.take k)) history[k]).2 := by
  rw [List.take_succ_eq_append_getElem hk, stepAll_snoc]

section
variable (h : FirstEoc (rowsOf history) e)
include h

/-- Until the first end of codebook 0 the request goes on. -/
theorem FirstEoc.before {k : Nat} (hk : k ≤ e) (hlen : k ≤ history.length) :
    Control (stepAll (history.take k)) (min k N) none false := by
  induction k with
  | zero => exact ⟨(Nat.zero_min N).symm, rfl, rfl⟩
  | succ k ih =>
    have hprev := ih (by omega) (by omega)
    rw [stepAll_take_succ hlen]
    by_cases hdelay : k < N
    · rw [Nat.min_eq_left (Nat.le_of_lt hdelay)] at hprev
      rw [Nat.min_eq_left hdelay]
      exact hprev.delay hdelay
    · rw [Nat.min_eq_right (by omega)] at hprev ⊢
      refine hprev.plain (Nat.le_refl _) fun hcode => h.first k (by omega) (by omega) ?_
      rw [rowsOf_getElem?, List.getElem?_eq_getElem hlen, Option.map_some, hprev.answer (Nat.le_refl _),
        Option.map_some, hcode]

theorem FirstEoc.lt : e < history.length := by
  by_contra hge
  have heoc := h.eoc
  rw [rowsOf_getElem?, List.getElem?_eq_none (Nat.not_lt.mp hge)] at heoc
  cases heoc

theorem FirstEoc.sampled : (history[e]?).map (· 0) = some eocId := by
  have hctrl := h.before (Nat.le_refl _) (Nat.le_of_lt h.lt)
  rw [Nat.min_eq_right h.after_delay] at hctrl
  have heoc := h.eoc
  rw [rowsOf_getElem?, List.getElem?_eq_getElem h.lt, Option.map_some, hctrl.answer (Nat.le_refl _)] at heoc
  rwa [List.getElem?_eq_getElem h.lt]

/-- The countdown after the first end of codebook 0. -/
theorem FirstEoc.after {k : Nat} (hk : e < k) (hlen : k ≤ history.length) :
    ∃ eocCountdown, Control (stepAll (history.take k)) N eocCountdown (decide (e + max N 2 - 2 < k)) ∧
      (k ≤ e + max N 2 - 2 → eocCountdown = some ((e : Int) + N - 1 - k)) := by
  have hN := h.after_delay
  induction k with
  | zero => omega
  | succ k ih =>
    rw [stepAll_take_succ hlen]
    by_cases hfirst : k = e
    · subst hfirst
      have hctrl := h.before (Nat.le_refl _) (Nat.le_of_succ_le hlen)
      rw [Nat.min_eq_right hN] at hctrl
      have hcode := h.sampled
      rw [List.getElem?_eq_getElem hlen, Option.map_some, Option.some.injEq] at hcode
      by_cases hshort : N ≤ 2
      · have hdone : k + max N 2 - 2 < k + 1 := by omega
        rw [decide_eq_true hdone]
        exact ⟨none, hctrl.eoc_short (Nat.le_refl _) hcode hshort, fun hle => by omega⟩
      · have hdone : ¬ k + max N 2 - 2 < k + 1 := by omega
        rw [decide_eq_false hdone]
        refine ⟨_, hctrl.eoc_long (Nat.le_refl _) hcode hshort, fun _ => ?_⟩
        congr 1
        push_cast
        omega
    · obtain ⟨eocCountdown, hctrl, hcount⟩ := ih (by omega) (by omega)
      by_cases hdone : e + max N 2 - 2 < k
      · rw [decide_eq_true hdone] at hctrl
        rw [decide_eq_true (by omega : e + max N 2 - 2 < k + 1)]
        exact ⟨eocCountdown, hctrl.done, fun hle => by omega⟩
      · rw [decide_eq_false hdone] at hctrl
        rw [hcount (by omega)] at hctrl
        have hnext : Control (step (stepAll (history.take k)) history[k]).2 _ _ _ := hctrl.winddown (Nat.le_refl _)
        refine ⟨some ((e : Int) + N - 1 - k - 1), ?_, fun _ => ?_⟩
        · have hiff : (e : Int) + N - 1 - k - 1 ≤ 0 ↔ e + max N 2 - 2 < k + 1 := by omega
          rw [decide_eq_decide.mpr hiff] at hnext
          exact hnext
        · congr 1
          push_cast
          omega

end

/-- A request is done in the row that ends the wind-down, and not before. -/
theorem FirstEoc.generationDone (h : FirstEoc (rowsOf history) e) {k : Nat} (hlen : k ≤ history.length) :
    (stepAll (history.take k)).generationDone = decide (e + max N 2 - 2 < k) := by
  by_cases hk : k ≤ e
  · rw [(h.before hk hlen).generationDone_eq, decide_eq_false (by omega)]
  · obtain ⟨_, hctrl, _⟩ := h.after (Nat.lt_of_not_le hk) hlen
    exact hctrl.generationDone_eq

end

/-! ### Undoing the delay -/

omit [NeZero N] in
/-- Frame `i` takes the code of codebook `c` from row `i + c`. -/
theorem reverseDelayPattern_frames {delayed : List (Codes N)} (h : N ≤ delayed.length) (allowShort : Bool) :
    ∃ frames, reverseDelayPattern delayed allowShort = .ok frames ∧ frames.length = delayed.length + 1 - N ∧
      ∀ i < delayed.length + 1 - N, ∀ c, (frames[i]?).map (· c) = (delayed[i + c]?).map (· c) := by
  unfold reverseDelayPattern
  rw [if_neg (Nat.not_lt.mpr h)]
  refine ⟨_, rfl, List.length_ofFn, ?_⟩
  intro i hi c
  have hc := c.isLt
  have hlt : i + c < delayed.length := by omega
  have hcomm : (c : Nat) + i = i + c := Nat.add_comm ..
  rw [List.getElem?_ofFn, dif_pos hi, List.getElem?_eq_getElem hlt, Option.map_some, Option.map_some]
  simp only [List.get_eq_getElem, hcomm]

omit [NeZero N] in
/-- Only the rows that the frames are taken from matter. -/
theorem reverseDelayPattern_congr {delayed delayed' : List (Codes N)} (hlen : delayed'.length = delayed.length)
    (heq : ∀ i (c : Fin N), i < delayed.length + 1 - N → (delayed'[i + c]?).map (· c) = (delayed[i + c]?).map (· c))
    (allowShort : Bool) : reverseDelayPattern delayed' allowShort = reverseDelayPattern delayed allowShort := by
  by_cases h : N ≤ delayed.length
  · obtain ⟨frames, hok, hl, hf⟩ := reverseDelayPattern_frames h allowShort
    obtain ⟨frames', hok', hl', hf'⟩ := reverseDelayPattern_frames (hlen ▸ h) allowShort
    rw [hok, hok']
    congr 1
    refine List.ext_getElem (by rw [hl, hl', hlen]) fun i hi' hi => ?_
    funext c
    rw [hl] at hi
    have hrow := (hf' i (hlen ▸ hi) c).trans ((heq i c hi).trans (hf i hi c).symm)
    rwa [List.getElem?_eq_getElem hi', List.getElem?_eq_getElem (hl ▸ hi), Option.map_some, Option.map_some,
      Option.some.injEq] at hrow
  · unfold reverseDelayPattern
    rw [if_pos (hlen ▸ Nat.lt_of_not_le h), if_pos (Nat.lt_of_not_le h), hlen]

omit [NeZero N] in
/-- On rows of `N` codes it is the shared inverse. -/
theorem reverseDelayPattern_shared (hpos : 0 < N) (delayed : List (Codes N)) (allowShort : Bool) :
    Models.reverseDelayPattern (delayed.map List.ofFn) N allowShort =
      (reverseDelayPattern delayed allowShort).map (List.map List.ofFn) := by
  by_cases h : N ≤ delayed.length
  · obtain ⟨frames, hok, hl, hf⟩ := reverseDelayPattern_frames h allowShort
    rw [hok, Models.reverseDelayPattern_eq _ hpos (by rwa [List.length_map])]
    refine congrArg Except.ok (List.ext_getElem ?_ fun i hi hi' => ?_)
    · simp [MossTts.rawFrames, hl]
      omega
    · rw [List.length_map] at hi'
      rw [List.getElem_map]
      simp only [MossTts.rawFrames, MossTts.rawFrame, List.getElem_map, List.getElem_range]
      refine List.ext_getElem (by simp) fun c hc hc' => ?_
      rw [List.length_ofFn] at hc'
      have hrow := hf i (hl ▸ hi') ⟨c, hc'⟩
      have hlt : i + c < delayed.length := by omega
      rw [List.getElem?_eq_getElem hi', List.getElem?_eq_getElem hlt, Option.map_some, Option.map_some,
        Option.some.injEq] at hrow
      simp [hlt, hc', hrow]
  · have hshort : (delayed.length : Int) - ((N : Int) - 1) ≤ 0 := by omega
    unfold reverseDelayPattern Models.reverseDelayPattern
    rw [if_pos (Nat.lt_of_not_le h)]
    simp only [List.length_map, if_pos hshort]
    cases allowShort <;> rfl

/-- The same rows, except for codes of codebook 0 from row `e` on. -/
structure SameBefore (e : Nat) (rows rows' : List (Codes N)) : Prop where
  length_eq : rows'.length = rows.length
  codes_eq : ∀ k (c : Fin N), (c = 0 → k < e) → (rows'[k]?).map (· c) = (rows[k]?).map (· c)

/-- The utterance of a request whose codebook 0 ends in row `e`: when the request is done, and what is made of its rows
up to then. -/
structure EndsWhole (history : List (Codes N)) (e : Nat) : Prop where
  done_at : ∀ k ≤ history.length, (stepAll (history.take k)).generationDone = decide (e + max N 2 - 2 < k)
  frames : 2 ≤ N → e + N - 1 ≤ history.length → ∀ allowShort,
    ∃ frames, reverseDelayPattern ((rowsOf history).take (e + N - 1)) allowShort = .ok frames ∧ frames.length = e ∧
      (∀ i < e, ∀ c, (frames[i]?).map (· c) = ((rowsOf history)[i + c]?).map (· c)) ∧
      ∀ rows', SameBefore e ((rowsOf history).take (e + N - 1)) rows' →
        reverseDelayPattern rows' allowShort = .ok frames

theorem FirstEoc.endsWhole {history : List (Codes N)} {e : Nat} (h : FirstEoc (rowsOf history) e) :
    EndsWhole history e where
  done_at _ hk := h.generationDone hk
  frames htwo hlen allowShort := by
    have hN := h.after_delay
    have htake : ((rowsOf history).take (e + N - 1)).length = e + N - 1 := by
      rw [List.length_take, length_rowsOf]
      exact Nat.min_eq_left hlen
    have he : e + N - 1 + 1 - N = e := by omega
    have hlong : N ≤ ((rowsOf history).take (e + N - 1)).length := by
      rw [htake]
      omega
    obtain ⟨frames, hok, hl, hf⟩ := reverseDelayPattern_frames hlong allowShort
    rw [htake, he] at hl hf
    refine ⟨frames, hok, hl, ?_, ?_⟩
    · intro i hi c
      have hc := c.isLt
      rw [hf i hi c, List.getElem?_take_of_lt (by omega)]
    · intro rows' hsame
      rw [← hok]
      refine reverseDelayPattern_congr hsame.length_eq (fun i c hi => hsame.codes_eq (i + c) c fun hc => ?_) allowShort
      subst hc
      rw [htake, he] at hi
      exact hi

/-- **Main theorem**: in every run of a pool a batched step does to each listed row what the step of its request does
and leaves the others alone, each row is where a request of its own would be, and an utterance ends where its frames are
whole. -/
theorem batched_step_simulates (ops : List (Op M N)) :
    (∀ b, Simulates (run ops) b) ∧
      ∀ r, (run ops).viewRow r = stepAll (historyOf r ops) ∧
        ∀ e, FirstEoc (rowsOf (historyOf r ops)) e → EndsWhole (historyOf r ops) e :=
  ⟨fun b => (Live.run ops).simulates b, fun r => ⟨viewRow_run ops r, fun _ h => h.endsWhole⟩⟩

/-- One step of a row with the same code in each codebook. -/
def constantStep (r : Fin 2) (code : Int) : Op 2 3 :=
  .batchedStep { rowIndices := [r], nodup := List.nodup_singleton r, sampled := fun _ _ => code }

/-- Three codebooks: row 3 ends codebook 0, and row 4 the utterance. -/
theorem batched_step_simulates_three :
    EndsWhole (historyOf 0 [constantStep 0 5, constantStep 1 9, constantStep 0 6, constantStep 0 7, constantStep 0 1025,
      constantStep 0 8]) 3 := by
  refine ((batched_step_simulates _).2 0).2 3 ⟨(Nat.le_refl _), by decide, ?_⟩
  intro k hk hlt
  omega

/-! ### What is decoded -/

/-- A request that is not done was not done before. -/
theorem live_before {a l : List (Codes N)} (live : (stepAll (a ++ l)).generationDone = false) :
    (stepAll a).generationDone = false := by
  induction l using List.reverseRecOn with
  | nil => rwa [List.append_nil] at live
  | append_singleton l sampled ih =>
    rw [← List.append_assoc, stepAll_snoc] at live
    cases hdone : (stepAll (a ++ l)).generationDone with
    | true => simp [step, hdone] at live
    | false => exact ih hdone

/-- Until it is done, a request takes its steps of the delay. -/
theorem stepAll_delayCount {history : List (Codes N)} (live : (stepAll history).generationDone = false) :
    (stepAll history).delayCount = min history.length N := by
  induction history using List.reverseRecOn with
  | nil => exact (Nat.zero_min N).symm
  | append_singleton history sampled ih =>
    have hdone := live_before live
    have hcount := ih hdone
    rw [stepAll_snoc, List.length_append, List.length_singleton]
    simp only [step, hdone, Bool.false_eq_true, if_false, HiggsSamplerState.advance]
    split_ifs
    all_goals try split
    all_goals dsimp only
    all_goals omega

/-- Until then, codebook `c` is filled up for `c` steps, and has what was sampled from there on. -/
theorem rowsOf_delayed {history : List (Codes N)} {k : Nat} (live : (stepAll (history.take k)).generationDone = false)
    (c : Fin N) :
    ((rowsOf history)[k]?).map (· c) = (history[k]?).map fun sampled => if k < c then bocId else sampled c := by
  rw [rowsOf_getElem?]
  cases hk : history[k]? with
  | none => rfl
  | some sampled =>
    have hc := c.isLt
    have hcount := stepAll_delayCount live
    rw [List.length_take, Nat.min_eq_left (Nat.le_of_lt (List.getElem?_eq_some_iff.mp hk).1)] at hcount
    simp only [Option.map_some, step, live, Bool.false_eq_true, if_false, HiggsSamplerState.advance]
    by_cases hdelay : k < N
    · rw [if_pos (by omega), hcount, Nat.min_eq_left (Nat.le_of_lt hdelay)]
      rfl
    · have hsampled : ¬k < (c : Nat) := by omega
      rw [if_neg (by omega)]
      simp only [hsampled, if_false]
      split
      · rfl
      · split_ifs <;> rfl

/-- **The frames are what was sampled.** In every run of a pool, for a request that was not done before its last step:
codebook `c` of frame `i` is what was sampled for it in step `i + c`, and no filler is decoded. -/
theorem decoded_codes_sampled (ops : List (Op M N)) (r : Fin M)
    (live : (stepAll (historyOf r ops).dropLast).generationDone = false) (hlen : N ≤ (historyOf r ops).length)
    (allowShort : Bool) :
    ∃ frames, reverseDelayPattern (rowsOf (historyOf r ops)) allowShort = .ok frames ∧
      frames.length = (historyOf r ops).length + 1 - N ∧
      ∀ i < frames.length, ∀ c, (frames[i]?).map (· c) = ((historyOf r ops)[i + c]?).map (· c) := by
  have hrows := length_rowsOf (historyOf r ops)
  obtain ⟨frames, hok, hl, hf⟩ := reverseDelayPattern_frames (hrows ▸ hlen) allowShort
  rw [hrows] at hl hf
  refine ⟨frames, hok, hl, fun i hi c => ?_⟩
  have hc := c.isLt
  have hbefore : (stepAll ((historyOf r ops).take (i + c))).generationDone = false := by
    have hprefix : (historyOf r ops).take (i + c) <+: (historyOf r ops).dropLast := by
      rw [List.dropLast_eq_take]
      exact List.take_prefix_take_left (by omega)
    obtain ⟨rest, hrest⟩ := hprefix
    exact live_before (hrest ▸ live)
  have hsampled : ¬i + (c : Nat) < c := by omega
  rw [hf i (hl ▸ hi) c, rowsOf_delayed hbefore]
  simp only [hsampled, if_false]

theorem decoded_codes_sampled_three :
    ∃ frames, reverseDelayPattern (rowsOf (historyOf 0 [constantStep 0 5, constantStep 0 6, constantStep 1 9,
      constantStep 0 7])) false = .ok frames ∧ frames.length = 1 := by
  obtain ⟨frames, hok, hl, _⟩ := decoded_codes_sampled [constantStep 0 5, constantStep 0 6, constantStep 1 9,
    constantStep 0 7] 0 (by decide) (by decide) false
  exact ⟨frames, hok, hl⟩

end SglangOmni.Models.Higgs
