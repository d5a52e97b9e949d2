import SglangOmni.Models.Dots.RowPool

/-! A lease of a slot, as a row by itself.

The row takes latents and flushes (`rowStep`). As long as the latents of a step fit in the window with what is kept back
of the frames before them (`rowRule`), its window has its last frames, and its frames are heard in order, each once
(`RowInv`). -/
namespace SglangOmni.Models.Dots
open Lib

variable {L H F S : Type}

/-! ### Blocks of samples -/

/-- The samples of a frame of a window. -/
def block (hop : Nat) (audio : List S) (i : Nat) : List S := (audio.drop (i * hop)).take hop

/-- A slice of whole frames, from place `w` of the window on, is the blocks of the frames. -/
theorem slice_eq_blocks (hop : Nat) (audio : List S) (w a n : Nat) (hw : w ≤ a) :
    (audio.take ((a + n - w) * hop)).drop ((a - w) * hop) =
      (List.range' a n).flatMap fun i => block hop audio (i - w) := by
  have hcount : (a + n - w) * hop - (a - w) * hop = n * hop := by
    rw [← Nat.sub_mul, show a + n - w - (a - w) = n by omega]
  rw [List.drop_take, hcount]
  clear hcount
  induction n generalizing a with
  | zero => simp
  | succ n ih =>
    have hnext : (audio.drop ((a - w) * hop)).drop hop = audio.drop ((a + 1 - w) * hop) := by
      rw [List.drop_drop, show a + 1 - w = a - w + 1 by omega, Nat.succ_mul]
    rw [Nat.succ_mul, Nat.add_comm, List.take_add, hnext, ih (a + 1) (by omega), List.range'_succ, List.flatMap_cons]
    rfl

/-! ### One lease -/

inductive RowEvent (L : Type) where
  | push (latents : List L)
  | flush

/-- A row, with the decoder frames that were pushed and the audio of each event. -/
structure RowState (H F S : Type) where
  slot : Slot (H × List F)
  frames : List F
  outputs : List (List S)

section Row
variable (U : Upstream L H F S) (row : List L → H → List F × H) (sound : List F → List S) {frames : List F}
  {r : RowState H F S}

def rowStart : RowState H F S := ⟨Slot.blank U.codec, [], []⟩

def rowStep (r : RowState H F S) : RowEvent L → RowState H F S
  | .push latents =>
    let stepped := stepRow U row sound r.slot latents
    ⟨stepped.1, r.frames ++ (row latents r.slot.kernel.1).1, r.outputs ++ [stepped.2]⟩
  | .flush =>
    let flushed := flushRow U sound r.slot
    ⟨flushed.1, r.frames, r.outputs ++ [flushed.2]⟩

/-- The latents of a step fit in the window, with what is kept back of the frames before them. -/
def rowRule (r : RowState H F S) : RowEvent L → Prop
  | .push latents => 1 ≤ latents.length ∧ latents.length < U.windowSize ∧
      min r.slot.totalFrames U.lookahead + latents.length ≤ U.windowSize
  | .flush => True

/-- The audio of a frame: its block in a window of the last frames up to some frame after it. -/
def VoiceOf (frames : List F) (i : Nat) (audio : List S) : Prop :=
  audio.length = U.hopSize ∧ ∃ n, i < n ∧ n ≤ frames.length ∧ n - min n U.windowSize ≤ i ∧
    audio = block U.hopSize (sound (fillWindow U.zero U.windowSize (frames.take n))) (i - (n - min n U.windowSize))

/-- The first frames were heard in order, each once. -/
def Heard (frames : List F) (emitted : Nat) (heard : List S) : Prop :=
  ∃ voice : Nat → List S, heard = (List.range emitted).flatMap voice ∧
    ∀ i < emitted, VoiceOf U sound frames i (voice i)

structure RowInv (r : RowState H F S) : Prop where
  total : r.slot.totalFrames = r.frames.length
  window : r.slot.kernel.2 = fillWindow U.zero U.windowSize r.frames
  ahead : r.slot.totalFrames - U.lookahead ≤ r.slot.emittedFrames
  behind : r.slot.emittedFrames ≤ r.slot.totalFrames
  /-- What is kept back is in the window. -/
  kept : min r.slot.totalFrames U.lookahead ≤ U.windowSize
  heard : Heard U sound r.frames r.slot.emittedFrames r.outputs.flatten

variable {U row sound}

theorem VoiceOf.extend {more : List F} {i : Nat} {audio : List S} (h : VoiceOf U sound frames i audio) :
    VoiceOf U sound (frames ++ more) i audio := by
  obtain ⟨hlen, n, hi, hn, hw, haudio⟩ := h
  refine ⟨hlen, n, hi, ?_, hw, ?_⟩
  · rw [List.length_append]
    omega
  · rw [List.take_append_of_le_length hn]
    exact haudio

/-- What a slice adds to what was heard. -/
theorem Heard.slice (h : RowWise U row sound) {emitted : Nat} {heard : List S}
    (hheard : Heard U sound frames emitted heard) (final : Bool) (reaches : Reaches U frames.length emitted final) :
    Heard U sound frames (sliceRow U frames.length emitted (sound (fillWindow U.zero U.windowSize frames)) final).1
      (heard ++ (sliceRow U frames.length emitted (sound (fillWindow U.zero U.windowSize frames)) final).2) := by
  unfold sliceRow
  dsimp only
  generalize hstable : (if final = true then frames.length else frames.length - U.lookahead) = stableEnd
  have hle : stableEnd ≤ frames.length := by
    rw [← hstable]
    split
    · exact Nat.le_refl _
    · exact Nat.sub_le ..
  have hreach : stableEnd ≤ emitted ∨ frames.length - min frames.length U.windowSize ≤ emitted := hstable ▸ reaches
  by_cases hdone : stableEnd ≤ emitted
  · rw [if_pos hdone, List.append_nil]
    exact hheard
  rw [if_neg hdone]
  have hstart := hreach.resolve_left hdone
  obtain ⟨voice, hvoice, hold⟩ := hheard
  let audio := sound (fillWindow U.zero U.windowSize frames)
  let windowStart := frames.length - min frames.length U.windowSize
  have hsamples : audio.length = U.windowSize * U.hopSize := h.samples _ (length_fillWindow _ _ _)
  refine ⟨fun i => if i < emitted then voice i else block U.hopSize audio (i - windowStart), ?_, fun i hi => ?_⟩
  · have hslice := slice_eq_blocks U.hopSize audio windowStart emitted (stableEnd - emitted) hstart
    rw [show emitted + (stableEnd - emitted) = stableEnd by omega] at hslice
    have hsplit : List.range stableEnd = List.range emitted ++ List.range' emitted (stableEnd - emitted) := by
      have happend := @List.range'_append_1 0 emitted (stableEnd - emitted)
      rw [Nat.zero_add, show emitted + (stableEnd - emitted) = stableEnd by omega] at happend
      rw [List.range_eq_range', List.range_eq_range', happend]
    rw [hslice, hsplit, List.flatMap_append, hvoice]
    congr 1
    · refine List.flatMap_congr fun i hi => ?_
      rw [if_pos (List.mem_range.mp hi)]
    · refine List.flatMap_congr fun i hi => ?_
      rw [if_neg (Nat.not_lt.mpr (List.mem_range'_1.mp hi).1)]
  · dsimp only
    split
    · next hlt => exact hold i hlt
    · next hge =>
      refine ⟨?_, frames.length, by omega, Nat.le_refl _, by omega, by rw [List.take_length]⟩
      have hplace : (i - windowStart) * U.hopSize + U.hopSize ≤ U.windowSize * U.hopSize := by
        rw [← Nat.succ_mul]
        refine Nat.mul_le_mul_right _ ?_
        omega
      rw [block, List.length_take, List.length_drop, hsamples]
      omega

theorem Heard.extend {more : List F} {emitted : Nat} {heard : List S} (h : Heard U sound frames emitted heard) :
    Heard U sound (frames ++ more) emitted heard := by
  obtain ⟨voice, hheard, hvoice⟩ := h
  exact ⟨voice, hheard, fun i hi => (hvoice i hi).extend⟩

/-- Where a slice leaves the row. -/
theorem sliceRow_bounds (total emitted : Nat) (audio : List S) (final : Bool)
    (ahead : total - U.lookahead ≤ emitted ∨ ¬final)
    (behind : emitted ≤ total) :
    total - U.lookahead ≤ (sliceRow U total emitted audio final).1 ∧
      (sliceRow U total emitted audio final).1 ≤ total := by
  unfold sliceRow
  dsimp only
  cases final with
  | true =>
    simp only [if_true]
    split <;> dsimp only <;> omega
  | false =>
    simp only [Bool.false_eq_true, if_false]
    split <;> dsimp only <;> omega

/-- A flush leaves nothing behind. -/
theorem sliceRow_final {total emitted : Nat} (audio : List S) (behind : emitted ≤ total) :
    (sliceRow U total emitted audio true).1 = total := by
  unfold sliceRow
  simp only [if_true]
  split
  · dsimp only
    omega
  · rfl

theorem pushWindow_eq {r : Slot (H × List F)} (total : r.totalFrames = frames.length)
    (window : r.kernel.2 = fillWindow U.zero U.windowSize frames) (more : List F) :
    pushWindow U r more = fillWindow U.zero U.windowSize (frames ++ more) := by
  rw [pushWindow, window, total, take_fillWindow, fillWindow_append]

/-- Where the rule holds, what a step needs of the window was not dropped. -/
theorem RowInv.reaches_push (h : RowInv U sound r) {latents : List L} (rule : rowRule U r (.push latents)) :
    Reaches U (r.slot.totalFrames + latents.length) r.slot.emittedFrames false := by
  obtain ⟨_, hsmall, hfit⟩ := rule
  have hahead := h.ahead
  simp only [Reaches, Bool.false_eq_true, if_false]
  omega

theorem RowInv.reaches_flush (h : RowInv U sound r) :
    Reaches U r.slot.totalFrames r.slot.emittedFrames true := by
  have hahead := h.ahead
  have hkept := h.kept
  simp only [Reaches, if_true]
  omega

theorem RowInv.start : RowInv U sound (rowStart U) where
  total := rfl
  window := by
    show List.replicate U.windowSize U.zero = _
    simp [fillWindow, rowStart]
  ahead := Nat.le_of_eq (Nat.zero_sub _)
  behind := Nat.le_refl _
  kept := (Nat.min_le_left ..).trans (Nat.zero_le _)
  heard := ⟨fun _ => [], rfl, fun _ hi => absurd hi (Nat.not_lt_zero _)⟩

theorem RowInv.step (hrow : RowWise U row sound) (h : RowInv U sound r) (e : RowEvent L)
    (rule : rowRule U r e) : RowInv U sound (rowStep U row sound r e) := by
  cases e with
  | push latents =>
    let frames := r.frames ++ (row latents r.slot.kernel.1).1
    have hlen : r.slot.totalFrames + latents.length = frames.length := by
      rw [List.length_append, hrow.frames, h.total]
    have hwindow : pushWindow U r.slot (row latents r.slot.kernel.1).1 = fillWindow U.zero U.windowSize frames :=
      pushWindow_eq h.total h.window _
    have hreach := h.reaches_push rule
    have hext : Heard U sound frames r.slot.emittedFrames r.outputs.flatten := h.heard.extend
    have hheard := hext.slice hrow false (hlen ▸ hreach)
    have hbehind := h.behind
    have hbounds := sliceRow_bounds (U := U) (r.slot.totalFrames + latents.length) r.slot.emittedFrames
      (sound (pushWindow U r.slot (row latents r.slot.kernel.1).1)) false (.inr Bool.false_ne_true) (by omega)
    refine ⟨hlen, hwindow, hbounds.1, hbounds.2, ?_, ?_⟩
    · have hfit := rule.2.2
      show min (r.slot.totalFrames + latents.length) U.lookahead ≤ U.windowSize
      omega
    · simp only [rowStep, stepRow, hwindow, hlen, List.flatten_append, List.flatten_singleton]
      exact hheard
  | flush =>
    have hheard := h.heard.slice hrow true (h.total ▸ h.reaches_flush)
    have hbounds := sliceRow_bounds (U := U) r.slot.totalFrames r.slot.emittedFrames (sound r.slot.kernel.2) true
      (.inl h.ahead) h.behind
    refine ⟨h.total, h.window, hbounds.1, hbounds.2, h.kept, ?_⟩
    simp only [rowStep, flushRow, h.window, h.total, List.flatten_append, List.flatten_singleton]
    exact hheard

/-- A row after any of its events. -/
theorem RowInv.run (hrow : RowWise U row sound) (events : List (RowEvent L))
    (rule : Along (rowStep U row sound) (rowRule U) (rowStart U) events) :
    RowInv U sound (Lib.run (rowStep U row sound) (rowStart U) events) :=
  along_invariant RowInv.start (fun _ e hinv he => hinv.step hrow e he) events rule

end Row

end SglangOmni.Models.Dots
