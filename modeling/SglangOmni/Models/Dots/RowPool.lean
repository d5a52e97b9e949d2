import SglangOmni.Models.Dots.SlotPool
import SglangOmni.Models.Dots.DecoderWindow
import SglangOmni.Lib.History

/-! The rows of the slot pool, one by one.

The eager helpers take a batch of rows. When they treat the rows of a batch alone (`RowWise`), a step of the pool does
to each stepped slot what it would do to a row by itself (`stepRow`), and nothing to the others (`step_spec`). -/
namespace SglangOmni.Models.Dots
open Lib

/-- The helpers of the inference that the pool calls. A decoder frame is an `F`, and an `H` is a hidden state. -/
structure Upstream (L H F S : Type) where
  windowSize : Nat
  /-- `_decoder_stream_lookahead`. -/
  lookahead : Nat
  hopSize : Nat
  zero : F
  hidden : H
  /-- `_decode_stream_latents`. -/
  decodeStreamLatents : List (List L × H) → List (List F × H)
  /-- `_decode_stream_window`. -/
  decodeStreamWindow : List (List F) → List (List S)

variable {L H F S : Type}

/-- The network of the pool: a row keeps its hidden state and its window. -/
def Upstream.codec (U : Upstream L H F S) : Codec L (H × List F) S where
  windowSize := U.windowSize
  lookahead := U.lookahead
  hopSize := U.hopSize
  blank := (U.hidden, List.replicate U.windowSize U.zero)
  decodeStream := fun rows =>
    let decoded := U.decodeStreamLatents (rows.map fun row => (row.2.2, row.1.1))
    let chunkSize := (decoded.head?.map fun row => row.1.length).getD 0
    match appendDecoderInputPerRow U.zero U.windowSize chunkSize (decoded.map Prod.fst) (rows.map fun row => row.1.2)
        (rows.map fun row => (row.2.1 : Int)) with
    | .error _ => none
    | .ok windows => some (((decoded.map Prod.snd).zip windows).zip (U.decodeStreamWindow windows))
  decodeWindow := fun row => (U.decodeStreamWindow [row.2]).head?

/-- The helpers treat the rows of a batch alone: `row` decodes the latents of one, a frame for each, and `sound` its
window, a hop of samples for each frame. -/
structure RowWise (U : Upstream L H F S) (row : List L → H → List F × H) (sound : List F → List S) : Prop where
  latents : ∀ batch, U.decodeStreamLatents batch = batch.map fun entry => row entry.1 entry.2
  window : ∀ windows, U.decodeStreamWindow windows = windows.map sound
  frames : ∀ latents hidden, (row latents hidden).1.length = latents.length
  samples : ∀ window, window.length = U.windowSize → (sound window).length = U.windowSize * U.hopSize

/-! ### One row -/

section Row
variable (U : Upstream L H F S) (row : List L → H → List F × H) (sound : List F → List S)

/-- `_slice_audio`, where the window is not too short: what is emitted then, and the audio. -/
def sliceRow (total emitted : Nat) (audio : List S) (final : Bool) : Nat × List S :=
  let stableEnd := if final then total else total - U.lookahead
  if stableEnd ≤ emitted then (emitted, [])
  else
    let windowStart := total - min total U.windowSize
    (stableEnd, (audio.take ((stableEnd - windowStart) * U.hopSize)).drop ((emitted - windowStart) * U.hopSize))

/-- The window of a row after new frames. -/
def pushWindow (r : Slot (H × List F)) (frames : List F) : List F :=
  fillWindow U.zero U.windowSize (r.kernel.2.take (min r.totalFrames U.windowSize) ++ frames)

/-- A step, on one row. -/
def stepRow (r : Slot (H × List F)) (latents : List L) : Slot (H × List F) × List S :=
  let decoded := row latents r.kernel.1
  let window := pushWindow U r decoded.1
  let total := r.totalFrames + latents.length
  let sliced := sliceRow U total r.emittedFrames (sound window) false
  (⟨(decoded.2, window), total, sliced.1⟩, sliced.2)

/-- A flush, on one row. -/
def flushRow (r : Slot (H × List F)) : Slot (H × List F) × List S :=
  let sliced := sliceRow U r.totalFrames r.emittedFrames (sound r.kernel.2) true
  (⟨r.kernel, r.totalFrames, sliced.1⟩, sliced.2)

/-- What the row needs of the window was not dropped. -/
def Reaches (total emitted : Nat) (final : Bool) : Prop :=
  (if final then total else total - U.lookahead) ≤ emitted ∨ total - min total U.windowSize ≤ emitted

end Row

/-! ### Slicing -/

section Slice
variable {C : Type} (U : Upstream L H F S) (codec : Codec L C S)

/-- The counters of the codec are those of the inference. -/
def SameSizes : Prop :=
  codec.windowSize = U.windowSize ∧ codec.lookahead = U.lookahead ∧ codec.hopSize = U.hopSize

variable {U codec}

theorem sliceAudio_ok (same : SameSizes U codec) (p : SlotPool C) (slot : Nat) (window : List S) (final : Bool)
    (h : Reaches U (p.slots slot).totalFrames (p.slots slot).emittedFrames final) :
    sliceAudio codec slot window final p =
      .ok (sliceRow U (p.slots slot).totalFrames (p.slots slot).emittedFrames window final).2
        (p.setSlot slot { p.slots slot with
          emittedFrames := (sliceRow U (p.slots slot).totalFrames (p.slots slot).emittedFrames window final).1 }) := by
  obtain ⟨hwindow, hlook, hhop⟩ := same
  have hself : p.setSlot slot (p.slots slot) = p := by
    unfold SlotPool.setSlot
    rw [Function.update_eq_self]
  unfold sliceAudio sliceRow
  rw [bind_apply, get_apply]
  dsimp only
  rw [hwindow, hlook, hhop]
  by_cases hdone : (if final = true then (p.slots slot).totalFrames else (p.slots slot).totalFrames - U.lookahead) ≤
      (p.slots slot).emittedFrames
  · rw [if_pos hdone, if_pos hdone, pure_apply]
    exact congrArg (EStateM.Result.ok []) hself.symm
  · have hlong : ¬(p.slots slot).emittedFrames <
        (p.slots slot).totalFrames - min (p.slots slot).totalFrames U.windowSize :=
      Nat.not_lt.mpr (h.resolve_left hdone)
    rw [if_neg hdone, if_neg hdone, if_neg hlong]
    rfl

/-- A slot that counts new frames and slices its window. -/
def countRow (U : Upstream L H F S) (stepT : Nat) (r : Slot C) (window : List S) : Slot C × List S :=
  let sliced := sliceRow U (r.totalFrames + stepT) r.emittedFrames window false
  (⟨r.kernel, r.totalFrames + stepT, sliced.1⟩, sliced.2)

/-- Slots are counted and sliced one after the other, and no slot twice. -/
theorem sliceAll_ok (same : SameSizes U codec) (stepT : Nat) (l : List (Nat × List S)) (nodup : (l.map Prod.fst).Nodup)
    (p : SlotPool C)
    (h : ∀ e ∈ l, Reaches U ((p.slots e.1).totalFrames + stepT) (p.slots e.1).emittedFrames false) :
    ∃ p', sliceAll codec stepT l p = .ok (l.map fun e => (e.1, (countRow U stepT (p.slots e.1) e.2).2)) p' ∧
      p'.freeSlots = p.freeSlots ∧ p'.inUse = p.inUse ∧
      ∀ slot, p'.slots slot = match l.lookup slot with
        | some window => (countRow U stepT (p.slots slot) window).1
        | none => p.slots slot := by
  induction l generalizing p with
  | nil => exact ⟨p, rfl, rfl, rfl, fun _ => rfl⟩
  | cons e rest ih =>
    obtain ⟨slot, window⟩ := e
    obtain ⟨hfresh, hrest⟩ := List.nodup_cons.mp nodup
    have hne : ∀ e ∈ rest, e.1 ≠ slot := fun e he heq =>
      hfresh (List.mem_map.mpr ⟨e, he, heq⟩)
    -- the head is counted, and then sliced
    let counted := p.setSlot slot { p.slots slot with totalFrames := (p.slots slot).totalFrames + stepT }
    have hcounted : counted.slots slot = { p.slots slot with totalFrames := (p.slots slot).totalFrames + stepT } :=
      Function.update_self ..
    have hslice := sliceAudio_ok same counted slot window false (by
      rw [hcounted]
      exact h (slot, window) List.mem_cons_self)
    rw [hcounted] at hslice
    let sliced := counted.setSlot slot (countRow U stepT (p.slots slot) window).1
    have hsame : ∀ other, other ≠ slot → sliced.slots other = p.slots other := fun other hother =>
      (Function.update_of_ne hother _ _).trans (Function.update_of_ne hother _ _)
    obtain ⟨p', hok, hfree, hused, hslots⟩ := ih hrest sliced fun e he => by
      rw [hsame e.1 (hne e he)]
      exact h e (List.mem_cons_of_mem _ he)
    refine ⟨p', ?_, hfree, hused, fun other => ?_⟩
    · unfold sliceAll
      rw [bind_apply, modify_apply]
      show ((sliceAudio codec slot window false >>= _ : EStateM _ _ _) counted) = _
      rw [bind_apply, hslice]
      show ((sliceAll codec stepT rest >>= _ : EStateM _ _ _) sliced) = _
      rw [bind_apply, hok]
      have hmap : rest.map (fun e => (e.1, (countRow U stepT (sliced.slots e.1) e.2).2)) =
          rest.map fun e => (e.1, (countRow U stepT (p.slots e.1) e.2).2) :=
        List.map_congr_left fun e he => by rw [hsame e.1 (hne e he)]
      rw [List.map_cons, ← hmap]
      rfl
    · rw [hslots, Dict.lookup_cons_eq]
      by_cases hother : other = slot
      · have hnone : rest.lookup other = none := (Dict.lookup_eq_none rest other).mpr (hother ▸ hfresh)
        rw [hnone, if_pos hother, hother]
        exact Function.update_self ..
      · rw [if_neg hother, hsame other hother]

theorem setKernels_slots (l : List (Nat × C)) (nodup : (l.map Prod.fst).Nodup) (p : SlotPool C) :
    (p.setKernels l).freeSlots = p.freeSlots ∧ (p.setKernels l).inUse = p.inUse ∧
      ∀ slot, (p.setKernels l).slots slot = match l.lookup slot with
        | some kernel => { p.slots slot with kernel }
        | none => p.slots slot := by
  induction l generalizing p with
  | nil => exact ⟨rfl, rfl, fun _ => rfl⟩
  | cons e rest ih =>
    obtain ⟨slot, kernel⟩ := e
    obtain ⟨hfresh, hrest⟩ := List.nodup_cons.mp nodup
    obtain ⟨hfree, hused, hslots⟩ := ih hrest (p.setSlot slot { p.slots slot with kernel })
    refine ⟨hfree, hused, fun other => ?_⟩
    rw [SlotPool.setKernels, hslots, Dict.lookup_cons_eq]
    by_cases hother : other = slot
    · have hnone : rest.lookup other = none := (Dict.lookup_eq_none rest other).mpr (hother ▸ hfresh)
      rw [hnone, if_pos hother, hother]
      exact Function.update_self ..
    · rw [if_neg hother]
      simp only [SlotPool.setSlot, Function.update_of_ne hother]

theorem lookup_map {V W : Type} (l : List (Nat × V)) (f : Nat × V → W) (k : Nat) :
    (l.map fun e => (e.1, f e)).lookup k = (l.lookup k).map fun v => f (k, v) := by
  induction l with
  | nil => rfl
  | cons e rest ih =>
    rw [List.map_cons, Dict.lookup_cons_eq, Dict.lookup_cons_eq, ih]
    by_cases hk : k = e.1
    · simp [hk]
    · simp [hk]

/-- The rows as the network left them, counted and sliced. -/
theorem stepRows_ok {V : Type} (same : SameSizes U codec) (stepT : Nat) (entries : List (Nat × V))
    (nodup : (entries.map Prod.fst).Nodup) (kernelOf : Nat × V → C) (audioOf : Nat × V → List S) (p : SlotPool C)
    (h : ∀ e ∈ entries, Reaches U ((p.slots e.1).totalFrames + stepT) (p.slots e.1).emittedFrames false) :
    ∃ p', sliceAll codec stepT (entries.map fun e => (e.1, audioOf e))
        (p.setKernels (entries.map fun e => (e.1, kernelOf e))) =
          .ok (entries.map fun e => (e.1, (countRow U stepT (p.slots e.1) (audioOf e)).2)) p' ∧
      p'.freeSlots = p.freeSlots ∧ p'.inUse = p.inUse ∧
      ∀ slot, p'.slots slot = match entries.lookup slot with
        | some v => (countRow U stepT { p.slots slot with kernel := kernelOf (slot, v) } (audioOf (slot, v))).1
        | none => p.slots slot := by
  have hfirsts : ∀ {W : Type} (f : Nat × V → W), ((entries.map fun e => (e.1, f e)).map Prod.fst).Nodup := fun f => by
    rw [List.map_map]
    exact nodup
  obtain ⟨hfree, hused, hslots⟩ := setKernels_slots _ (hfirsts kernelOf) p
  generalize p.setKernels (entries.map fun e => (e.1, kernelOf e)) = p₁ at hfree hused hslots
  have hcounters : ∀ slot, (p₁.slots slot).totalFrames = (p.slots slot).totalFrames ∧
      (p₁.slots slot).emittedFrames = (p.slots slot).emittedFrames := by
    intro slot
    rw [hslots]
    split <;> exact ⟨rfl, rfl⟩
  obtain ⟨p', hok, hfree', hused', hslots'⟩ := sliceAll_ok same stepT _ (hfirsts audioOf) p₁ fun e he => by
    obtain ⟨e', he', rfl⟩ := List.mem_map.mp he
    rw [(hcounters e'.1).1, (hcounters e'.1).2]
    exact h e' he'
  refine ⟨p', hok.trans ?_, hfree'.trans hfree, hused'.trans hused, fun slot => ?_⟩
  · rw [List.map_map]
    have hmap : ∀ e ∈ entries, (e.1, (countRow U stepT (p₁.slots e.1) (audioOf e)).2) =
        (e.1, (countRow U stepT (p.slots e.1) (audioOf e)).2) := fun e _ => by
      simp only [countRow, (hcounters e.1).1, (hcounters e.1).2]
    exact congrArg (EStateM.Result.ok · p') (List.map_congr_left hmap)
  · rw [hslots', hslots, lookup_map, lookup_map]
    cases entries.lookup slot <;> rfl

end Slice

/-! ### A step -/

section Step
variable {U : Upstream L H F S} {row : List L → H → List F × H} {sound : List F → List S}

theorem sameSizes (U : Upstream L H F S) : SameSizes U U.codec := ⟨rfl, rfl, rfl⟩

/-- A slot that can take a number of frames. -/
structure Fits (U : Upstream L H F S) (stepT : Nat) (r : Slot (H × List F)) : Prop where
  window : r.kernel.2.length = U.windowSize
  reaches : Reaches U (r.totalFrames + stepT) r.emittedFrames false

/-- The eager call, row by row. -/
theorem decodeStream_eq (h : RowWise U row sound) (p : SlotPool (H × List F)) {entries : List (Nat × List L)}
    {stepT : Nat} (hne : entries ≠ []) (uniform : ∀ e ∈ entries, e.2.length = stepT) (small : stepT < U.windowSize)
    (fits : ∀ e ∈ entries, Fits U stepT (p.slots e.1)) :
    U.codec.decodeStream (entries.map (kernelInput U.codec p)) =
      some (entries.map fun e => (((row e.2 (p.slots e.1).kernel.1).2,
        pushWindow U (p.slots e.1) (row e.2 (p.slots e.1).kernel.1).1),
        sound (pushWindow U (p.slots e.1) (row e.2 (p.slots e.1).kernel.1).1))) := by
  have hdecoded : U.decodeStreamLatents ((entries.map (kernelInput U.codec p)).map fun r => (r.2.2, r.1.1)) =
      entries.map fun e => row e.2 (p.slots e.1).kernel.1 := by
    rw [h.latents, List.map_map, List.map_map]
    rfl
  have hchunk :
      (((entries.map fun e => row e.2 (p.slots e.1).kernel.1).head?).map fun r => r.1.length).getD 0 = stepT := by
    cases entries with
    | nil => exact absurd rfl hne
    | cons e rest =>
      simp only [List.map_cons, List.head?_cons, Option.map_some, Option.getD_some]
      rw [h.frames, uniform e List.mem_cons_self]
  have happend := appendDecoderInputPerRow_eq U.zero small
    (entries.map fun e => ((row e.2 (p.slots e.1).kernel.1).1, (p.slots e.1).kernel.2,
      min (p.slots e.1).totalFrames U.windowSize))
    (fun r hr => by
      obtain ⟨e, he, rfl⟩ := List.mem_map.mp hr
      exact (fits e he).window)
    (fun r hr => by
      obtain ⟨e, he, rfl⟩ := List.mem_map.mp hr
      exact (h.frames _ _).trans (uniform e he))
    (fun r hr => by
      obtain ⟨e, he, rfl⟩ := List.mem_map.mp hr
      exact Nat.min_le_right ..)
  simp only [List.map_map, Function.comp_def] at happend
  simp only [Upstream.codec] at hdecoded ⊢
  rw [hdecoded, hchunk]
  simp only [List.map_map, Function.comp_def, kernelInput] at happend ⊢
  rw [happend]
  simp only [h.window, List.map_map, Function.comp_def, List.zip_map']
  rfl

/-- **A step of the pool**, on slots that are leased and can take the frames: each stepped slot does what its row does
by itself, and the others are left alone. -/
theorem step_spec (h : RowWise U row sound) (p : SlotPool (H × List F)) (slotLatents : Dict Nat (List L)) {stepT : Nat}
    (leased : ∀ slot ∈ slotLatents.keys, slot ∈ p.inUse) (uniform : ∀ e ∈ slotLatents.entries, e.2.length = stepT)
    (pos : 1 ≤ stepT) (small : stepT < U.windowSize)
    (fits : ∀ slot ∈ slotLatents.keys, Fits U stepT (p.slots slot)) :
    ∃ out p', SlotPool.step U.codec slotLatents p = .ok out p' ∧
      p'.freeSlots = p.freeSlots ∧ p'.inUse = p.inUse ∧
      (∀ slot, p'.slots slot = match slotLatents.get? slot with
        | some latents => (stepRow U row sound (p.slots slot) latents).1
        | none => p.slots slot) ∧
      ∀ slot, out.get? slot = (slotLatents.get? slot).map fun latents =>
        (stepRow U row sound (p.slots slot) latents).2 := by
  have hnodup : (slotLatents.entries.map Prod.fst).Nodup := slotLatents.nodup
  have hget : ∀ slot, slotLatents.get? slot = slotLatents.entries.lookup slot := fun _ => rfl
  unfold SlotPool.step
  cases hentries : slotLatents.entries with
  | nil => exact ⟨∅, p, rfl, rfl, rfl, fun slot => by rw [hget, hentries]; rfl, fun slot => by rw [hget, hentries]; rfl⟩
  | cons e rest =>
    obtain ⟨first, latents⟩ := e
    have huniform : ∀ e ∈ (first, latents) :: rest, e.2.length = stepT := hentries ▸ uniform
    have hlatents : latents.length = stepT := huniform _ List.mem_cons_self
    have hkeys : slotLatents.keys = ((first, latents) :: rest).map Prod.fst := congrArg _ hentries
    have hmem : ∀ e ∈ (first, latents) :: rest, e.1 ∈ slotLatents.keys := fun e he =>
      hkeys ▸ List.mem_map.mpr ⟨e, he, rfl⟩
    have hfits : ∀ e ∈ (first, latents) :: rest, Fits U stepT (p.slots e.1) := fun e he => fits e.1 (hmem e he)
    have hcheck : checkStep U.codec p ((first, latents) :: rest) stepT = .ok () := by
      have hlengths : (((first, latents) :: rest).any fun e => decide (e.2.length ≠ stepT)) = false :=
        List.any_eq_false.mpr fun e he => by simp [huniform e he]
      have hfree : (((first, latents) :: rest).find? fun e => decide (e.1 ∉ p.inUse)) = none :=
        List.find?_eq_none.mpr fun e he => by simpa using leased e.1 (hmem e he)
      have hsmall : ¬U.codec.windowSize ≤ stepT := Nat.not_le.mpr small
      simp only [checkStep, hlengths, Bool.false_eq_true, if_false, if_neg (Nat.not_lt.mpr pos), if_neg hsmall, hfree]
    have hdecode := decodeStream_eq h p (List.cons_ne_nil _ _) huniform small hfits
    -- the rows the network leaves, and their audio windows
    let kernelOf : Nat × List L → H × List F := fun e =>
      ((row e.2 (p.slots e.1).kernel.1).2, pushWindow U (p.slots e.1) (row e.2 (p.slots e.1).kernel.1).1)
    let audioOf : Nat × List L → List S := fun e => sound (kernelOf e).2
    have hkernels :
        slotLatents.keys.zip ((((first, latents) :: rest).map fun e => (kernelOf e, audioOf e)).map Prod.fst) =
        ((first, latents) :: rest).map fun e => (e.1, kernelOf e) := by
      rw [hkeys, List.map_map, List.zip_map']
      rfl
    have hwindows :
        slotLatents.keys.zip ((((first, latents) :: rest).map fun e => (kernelOf e, audioOf e)).map Prod.snd) =
        ((first, latents) :: rest).map fun e => (e.1, audioOf e) := by
      rw [hkeys, List.map_map, List.zip_map']
      rfl
    have hdistinct : (((first, latents) :: rest).map Prod.fst).Nodup := hentries ▸ hnodup
    obtain ⟨p', hok, hfree, hused, hslots⟩ := stepRows_ok (sameSizes U) stepT _ hdistinct kernelOf audioOf p
      fun e he => (hfits e he).reaches
    have hcount : ∀ e ∈ (first, latents) :: rest,
        countRow U stepT { p.slots e.1 with kernel := kernelOf e } (audioOf e) =
          stepRow U row sound (p.slots e.1) e.2 :=
      fun e he => by
        rw [stepRow, huniform e he]
        rfl
    have hout : ((first, latents) :: rest).map (fun e => (e.1, (countRow U stepT (p.slots e.1) (audioOf e)).2)) =
        ((first, latents) :: rest).map fun e => (e.1, (stepRow U row sound (p.slots e.1) e.2).2) :=
      List.map_congr_left fun e he => by rw [← hcount e he]; rfl
    rw [hout] at hok
    refine ⟨Dict.ofList (((first, latents) :: rest).map fun e =>
      (e.1, (stepRow U row sound (p.slots e.1) e.2).2)), p', ?_,
      hfree, hused, fun slot => ?_, fun slot => ?_⟩
    · simp only [bind_apply, get_apply, hlatents, hcheck, fromExcept, pure_apply, hdecode, set_apply]
      simp only [kernelOf, audioOf] at hkernels hwindows hok
      rw [hkernels, hwindows, hok]
      rfl
    · rw [hslots, hget, hentries]
      cases hlookup : ((first, latents) :: rest).lookup slot with
      | none => rfl
      | some v => exact congrArg Prod.fst (hcount (slot, v) ((Dict.lookup_eq_some hdistinct slot v).mp hlookup))
    · rw [Dict.get?_ofList (by rw [List.map_map]; exact hdistinct), lookup_map, hget, hentries]

end Step

end SglangOmni.Models.Dots
