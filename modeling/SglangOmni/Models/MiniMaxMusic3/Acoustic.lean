import SglangOmni.Models.MiniMaxMusic3.OnlineWindows
import SglangOmni.Lib.Raising

/-! The chunks that the acoustic scheduler accepts.

The scheduler asks each chunk for the next index and the next start. So of the chunks of a generation it accepts those
in order from the first on, and no other list of them (`accepted_in_order`). -/
namespace SglangOmni.Models.MiniMaxMusic3

variable {F S Lat Cond : Type}

/-- `AR_HIDDEN_SIZE`. -/
abbrev arHiddenSize : Nat := 4096 * 8

inductive AcousticError where
  /-- `MiniMax Music 3 acoustic chunk data must be a hidden tensor`. -/
  | notTensor
  /-- `MiniMax Music 3 acoustic hidden must be [1,T,32768], got …`. -/
  | hiddenShape (shape : List Nat)
  /-- `MiniMax Music 3 acoustic chunk metadata must be a mapping`. -/
  | metadata
  /-- `MiniMax Music 3 acoustic chunks must be ordered: expected idx=… start=…, got idx=… start=…`. -/
  | ordered (expectedIdx expectedStart gotIdx gotStart : Nat)
  /-- `MiniMax Music 3 acoustic chunk frame range does not match hidden length`. -/
  | frameRange
  /-- What the decoder raises, an interrupt for no abort too. -/
  | decoder
  deriving DecidableEq

inductive StreamData (F : Type) where
  | tensor (shape : List Nat) (hidden : List F)
  | other

structure StreamItem (F : Type) where
  data : StreamData F
  /-- None when it is no mapping. -/
  metadata : Option ChunkMetadata

inductive Decoded (S Lat Cond : Type) where
  | done (wave : List S) (latent : Lat) (condition : Cond)
  /-- `InterruptedError`. -/
  | interrupted
  | raised

/-- `decode_with_state`, on hidden frames, a seed, the index of the chunk and what the chunk before it left. -/
abbrev AcousticDecoder (F S Lat Cond : Type) : Type :=
  List F → Int → Nat → Option Lat → Option Cond → Decoded S Lat Cond

/-- `_AcousticStreamState`. -/
structure AcousticStreamState (S Lat Cond : Type) where
  waveChunks : List (List S) := []
  hiddenFrames : Nat := 0
  lastLatent : Option Lat := none
  lastCondition : Option Cond := none
  aborted : Bool := false
  nextChunkIdx : Nat := 0
  nextStartFrame : Nat := 0

/-- `crop_sample_bounds`. -/
def cropSampleBounds (window : ChunkWindow) : Nat × Nat :=
  (if window.isFirst then 0 else 344 / 4 * 512, if window.isLast then 0 else (344 - 344 / 4) * 512)

/-- `wave[:, start:stop]`, where a negative `stop` counts from the end. -/
def cropWave (wave : List S) (start : Nat) (stop : Int) : List S :=
  let stop := if stop < 0 then (stop + wave.length).toNat else stop.toNat
  (wave.take stop).drop start

/-- The checks of `on_stream_chunk`. -/
def checkChunk (s : AcousticStreamState S Lat Cond) (item : StreamItem F) :
    Except AcousticError (List F × ChunkMetadata) :=
  match item.data with
  | .other => .error .notTensor
  | .tensor shape hidden =>
    match shape with
    | [1, frames, size] =>
      if size ≠ arHiddenSize then .error (.hiddenShape shape)
      else match item.metadata with
        | none => .error .metadata
        | some m =>
          if m.chunkIdx ≠ s.nextChunkIdx ∨ m.startFrame ≠ s.nextStartFrame then
            .error (.ordered s.nextChunkIdx s.nextStartFrame m.chunkIdx m.startFrame)
          else if m.endFrame ≤ m.startFrame ∨ m.endFrame - m.startFrame ≠ frames then .error .frameRange
          else .ok (hidden, m)
    | _ => .error (.hiddenShape shape)

def onStreamChunk (decode : AcousticDecoder F S Lat Cond) (s : AcousticStreamState S Lat Cond) (item : StreamItem F) :
    Except AcousticError (AcousticStreamState S Lat Cond) := do
  let (hidden, m) ← checkChunk s item
  match decode hidden m.seed m.chunkIdx s.lastLatent s.lastCondition with
  | .raised => .error .decoder
  | .interrupted => if s.aborted then .ok s else .error .decoder
  | .done wave latent condition =>
    let crop := cropSampleBounds ⟨m.chunkIdx, 0, hidden.length, m.chunkIdx == 0, m.isFinal⟩
    let stop : Int := if crop.2 = 0 then wave.length else wave.length - crop.2
    .ok { s with
      waveChunks := s.waveChunks ++ [cropWave wave crop.1 stop]
      hiddenFrames := s.hiddenFrames + hidden.length
      lastLatent := some latent
      lastCondition := some condition
      nextChunkIdx := s.nextChunkIdx + 1
      nextStartFrame := s.nextStartFrame + arChunkHopFrames }

/-- A chunk as it arrives. -/
def HiddenChunk.item (chunk : HiddenChunk F) : StreamItem F :=
  ⟨.tensor [1, chunk.hidden.length, arHiddenSize] chunk.hidden, some chunk.metadata⟩

/-! ### The order -/

section
variable {decode : AcousticDecoder F S Lat Cond} {s : AcousticStreamState S Lat Cond}

/-- The state after some chunks. -/
structure Expects (count : Nat) (s : AcousticStreamState S Lat Cond) : Prop where
  idx : s.nextChunkIdx = count
  start : s.nextStartFrame = count * arChunkHopFrames
  aborted : s.aborted = false

theorem Expects.start_state : Expects 0 ({} : AcousticStreamState S Lat Cond) := ⟨rfl, rfl, rfl⟩

/-- What the checks let through. -/
theorem checkChunk_ok {item : StreamItem F} {found : List F × ChunkMetadata}
    (h : checkChunk s item = .ok found) : item.metadata = some found.2 ∧ found.2.chunkIdx = s.nextChunkIdx ∧
      found.2.startFrame = s.nextStartFrame := by
  unfold checkChunk at h
  split at h
  · exact nomatch h
  split at h
  · split at h
    · exact nomatch h
    split at h
    · exact nomatch h
    next m hmetadata =>
      split at h
      · exact nomatch h
      next hordered =>
        split at h
        · exact nomatch h
        have hfound := Except.ok.inj h
        rw [← hfound]
        exact ⟨hmetadata, by simpa using hordered⟩
  · exact nomatch h

/-- An accepted chunk is the next one. -/
theorem Expects.accepted {count : Nat} {s' : AcousticStreamState S Lat Cond} (h : Expects count s) {item : StreamItem F}
    (hok : onStreamChunk decode s item = .ok s') : Expects (count + 1) s' ∧
      ∃ m, item.metadata = some m ∧ m.chunkIdx = count ∧ m.startFrame = count * arChunkHopFrames := by
  unfold onStreamChunk at hok
  cases hcheck : checkChunk s item with
  | error e =>
    rw [hcheck] at hok
    exact nomatch hok
  | ok found =>
    obtain ⟨hmetadata, hidx, hstart⟩ := checkChunk_ok hcheck
    rw [hcheck] at hok
    simp only [bind, Except.bind, h.aborted, Bool.false_eq_true, if_false] at hok
    split at hok
    · exact nomatch hok
    · exact nomatch hok
    · have hnext := Except.ok.inj hok
      rw [← hnext]
      refine ⟨⟨congrArg (· + 1) h.idx, ?_, rfl⟩, found.2, hmetadata, hidx.trans h.idx, hstart.trans h.start⟩
      show s.nextStartFrame + arChunkHopFrames = (count + 1) * arChunkHopFrames
      rw [h.start, Nat.succ_mul]

/-- A list of items that is accepted has the indices and the starts in order. -/
theorem Expects.accepted_all {items : List (StreamItem F)} {count : Nat} {s' : AcousticStreamState S Lat Cond}
    (h : Expects count s) (hok : items.foldlM (onStreamChunk decode) s = .ok s') (i : Nat) (hi : i < items.length) :
    ∃ m, items[i].metadata = some m ∧ m.chunkIdx = count + i ∧ m.startFrame = (count + i) * arChunkHopFrames := by
  induction items generalizing count s i with
  | nil => exact absurd hi (Nat.not_lt_zero _)
  | cons item rest ih =>
    rw [List.foldlM_cons] at hok
    cases hstep : onStreamChunk decode s item with
    | error e =>
      rw [hstep] at hok
      exact nomatch hok
    | ok s₁ =>
      obtain ⟨hnext, hfirst⟩ := h.accepted hstep
      rw [hstep] at hok
      cases i with
      | zero => exact hfirst
      | succ i =>
        obtain ⟨m, hm, hidx, hstart⟩ := ih hnext hok i (Nat.lt_of_succ_lt_succ hi)
        rw [Nat.add_right_comm, Nat.add_assoc] at hidx hstart
        exact ⟨m, hm, hidx, hstart⟩

/-- The next chunk of a generation passes the checks. -/
theorem Expects.checkChunk {count : Nat} (h : Expects count s) (seed : Int)
    {all : List F} (hcount : count ≤ lastWindow all.length) (hpos : 0 < all.length) :
    SglangOmni.Models.MiniMaxMusic3.checkChunk s (chunkOf seed all (windowAt all.length count)).item =
      .ok ((chunkOf seed all (windowAt all.length count)).hidden,
        (chunkOf seed all (windowAt all.length count)).metadata) := by
  have hstart : count * arChunkHopFrames < all.length :=
    Nat.lt_of_le_of_lt (Nat.mul_le_mul_right _ hcount) (lastWindow_start hpos)
  have hlen : (chunkOf seed all (windowAt all.length count)).hidden.length =
      min (count * arChunkHopFrames + arChunkFrames) all.length - count * arChunkHopFrames := by
    simp only [chunkOf, windowAt, List.length_drop, List.length_take]
    omega
  have hrange : ¬(min (count * arChunkHopFrames + arChunkFrames) all.length ≤ count * arChunkHopFrames) := by
    simp only [arChunkFrames]
    omega
  simp only [SglangOmni.Models.MiniMaxMusic3.checkChunk, HiddenChunk.item, hlen]
  simp only [chunkOf, windowAt, h.idx, h.start, ne_eq, not_true, or_self, if_false, hrange]

/-- The chunks of a generation, as far as they arrived in order, are refused for no reason of their own. -/
theorem Expects.in_order {start : Nat} (h : Expects start s) (seed : Int)
    {all : List F} (hpos : 0 < all.length) (count : Nat) (hcount : start + count ≤ lastWindow all.length + 1)
    {e : AcousticError}
    (herr : ((List.range' start count).map fun i => (chunkOf seed all (windowAt all.length i)).item).foldlM
      (onStreamChunk decode) s = .error e) : e = .decoder := by
  induction count generalizing start s with
  | zero => exact nomatch herr
  | succ count ih =>
    rw [List.range'_succ, List.map_cons, List.foldlM_cons] at herr
    cases hstep : onStreamChunk decode s (chunkOf seed all (windowAt all.length start)).item with
    | ok s' =>
      rw [hstep] at herr
      exact ih (h.accepted hstep).1 (by omega) herr
    | error e' =>
      rw [hstep] at herr
      have heq : e' = e := Except.error.inj herr
      rw [← heq]
      unfold onStreamChunk at hstep
      rw [h.checkChunk seed (by omega) hpos] at hstep
      simp only [bind, Except.bind, h.aborted, Bool.false_eq_true, if_false] at hstep
      split at hstep
      · exact (Except.error.inj hstep).symm
      · exact (Except.error.inj hstep).symm
      · exact nomatch hstep

/-! ### The waveform -/

/-- `aligned_mel_length`: 44100 / 24000 * 960 / 512 mel frames for each hidden frame. -/
def alignedMelLength (frames : Nat) : Nat := max 1 (frames * 441 / 128)

/-- What the DAV makes of a chunk: 512 samples for each mel frame. -/
def SampleAligned (decode : AcousticDecoder F S Lat Cond) : Prop :=
  ∀ hidden seed idx lastLatent lastCondition wave latent condition,
    decode hidden seed idx lastLatent lastCondition = .done wave latent condition →
      wave.length = alignedMelLength hidden.length * 512

/-- `waveform_44k` of `on_stream_done`. -/
def AcousticStreamState.waveform44k (s : AcousticStreamState S Lat Cond) : List S := s.waveChunks.flatten

/-- What is left of a wave, in mel frames. -/
theorem length_cropped {wave : List S} {mel : Nat} (hwave : wave.length = mel * 512) (window : ChunkWindow)
    (hlong : window.isLast = false → 258 ≤ mel) :
    (cropWave wave (cropSampleBounds window).1 (if (cropSampleBounds window).2 = 0 then (wave.length : Int)
      else wave.length - (cropSampleBounds window).2)).length =
      ((if window.isLast then mel else mel - 258) - (if window.isFirst then 0 else 86)) * 512 := by
  have hcrop : ∀ (start : Nat) {stop : Int}, 0 ≤ stop →
      (cropWave wave start stop).length = min stop.toNat wave.length - start := by
    intro start stop h
    rw [cropWave, if_neg (Int.not_lt.mpr h), List.length_drop, List.length_take]
  obtain ⟨_, _, _, first, last⟩ := window
  cases last with
  | true =>
    rw [hcrop _ (by simp [cropSampleBounds])]
    cases first <;> simp [cropSampleBounds, hwave] <;> omega
  | false =>
    have hmel := hlong rfl
    simp only [cropSampleBounds, Bool.false_eq_true, if_false]
    rw [if_neg (show ¬(344 - 344 / 4) * 512 = 0 by decide), hcrop _ (by omega)]
    cases first <;> simp <;> omega

/-- An accepted chunk adds what is left of its wave: of a window that is not the last, 431 mel frames or 345. -/
theorem Expects.waveform {count : Nat} (h : Expects count s) (aligned : SampleAligned decode) (seed : Int)
    {all : List F}
    (hpos : 0 < all.length) (hcount : count ≤ lastWindow all.length) {s' : AcousticStreamState S Lat Cond}
    (hok : onStreamChunk decode s (chunkOf seed all (windowAt all.length count)).item = .ok s') :
    s'.waveform44k.length = s.waveform44k.length +
      ((if lastWindow all.length ≤ count then alignedMelLength (all.length - count * arChunkHopFrames) else 431) -
        (if count = 0 then 0 else 86)) * 512 := by
  have hfinal : (chunkOf seed all (windowAt all.length count)).metadata.isFinal = true ↔
    lastWindow all.length ≤ count :=
    windowAt_last
  have hlength : alignedMelLength (chunkOf seed all (windowAt all.length count)).hidden.length =
      if lastWindow all.length ≤ count then alignedMelLength (all.length - count * arChunkHopFrames) else 689 := by
    have hhidden : (chunkOf seed all (windowAt all.length count)).hidden.length =
        min (count * arChunkHopFrames + arChunkFrames) all.length - count * arChunkHopFrames := by
      simp only [chunkOf, windowAt, List.length_drop, List.length_take]
      omega
    rw [hhidden]
    split
    · next hlast => rw [Nat.min_eq_right (Nat.not_lt.mp (mt lt_lastWindow.mpr (Nat.not_lt.mpr hlast)))]
    · next hlast =>
      rw [Nat.min_eq_left (Nat.le_of_lt (lt_lastWindow.mp (Nat.not_le.mp hlast))), Nat.add_sub_cancel_left]
      rfl
  unfold onStreamChunk at hok
  rw [h.checkChunk seed hcount hpos] at hok
  simp only [bind, Except.bind, h.aborted, Bool.false_eq_true, if_false] at hok
  split at hok
  · cases hok
  · cases hok
  · next wave latent condition hdecode =>
    have hwave := aligned _ _ _ _ _ _ _ _ hdecode
    cases hok
    simp only [AcousticStreamState.waveform44k, List.flatten_append, List.length_append, List.flatten_singleton]
    rw [length_cropped hwave, hlength]
    · simp only [hfinal,
        show (chunkOf seed all (windowAt all.length count)).metadata.chunkIdx = count from rfl, beq_iff_eq]
      split <;> rfl
    · intro hnot
      rw [hlength, if_neg fun hlast => Bool.false_ne_true (hnot.symm.trans (hfinal.mpr hlast))]
      decide

/-- The waveform after the first windows, in mel frames. -/
def stitchedMel (frames : Nat) : Nat → Nat
  | 0 => 0
  | count + 1 =>
    if lastWindow frames ≤ count then (441 * frames + 60 * lastWindow frames) / 128 else 345 * (count + 1) + 86

theorem stitchedMel_succ {frames count : Nat} (hpos : 0 < frames) (hcount : count ≤ lastWindow frames) :
    stitchedMel frames (count + 1) = stitchedMel frames count +
      ((if lastWindow frames ≤ count then alignedMelLength (frames - count * arChunkHopFrames) else 431) -
        (if count = 0 then 0 else 86)) := by
  have hstart := lastWindow_start hpos
  have hlong := @lt_lastWindow frames (count - 1)
  simp only [alignedMelLength, arChunkHopFrames, arChunkFrames] at hstart hlong ⊢
  cases count with
  | zero => simp only [stitchedMel, if_true]; split <;> omega
  | succ count =>
    simp only [stitchedMel, if_neg (Nat.not_le.mpr hcount), Nat.succ_ne_zero, if_false]
    split <;> omega

/-- **The stitched waveform** of a generation: where one window joins the next, 60 / 128 of a mel frame is too much, and
nothing else is lost or repeated. -/
theorem stitched_length {decode : AcousticDecoder F S Lat Cond} (aligned : SampleAligned decode) (seed : Int)
    {all : List F}
    (hpos : 0 < all.length) {s : AcousticStreamState S Lat Cond}
    (hok : ((chunkWindows all.length).map fun w => (chunkOf seed all w).item).foldlM
      (onStreamChunk decode) {} = .ok s) :
    s.waveform44k.length = (441 * all.length + 60 * lastWindow all.length) / 128 * 512 := by
  have hall : ∀ count ≤ lastWindow all.length + 1, ∀ s : AcousticStreamState S Lat Cond,
      (((List.range count).map (windowAt all.length)).map fun w => (chunkOf seed all w).item).foldlM
          (onStreamChunk decode) {} = .ok s →
        Expects count s ∧ s.waveform44k.length = stitchedMel all.length count * 512 := by
    intro count
    induction count with
    | zero =>
      intro _ s hok
      cases hok
      exact ⟨Expects.start_state, (Nat.zero_mul _).symm⟩
    | succ count ih =>
      intro hcount s hok
      have hle := Nat.le_of_succ_le_succ hcount
      rw [List.range_succ, List.map_append, List.map_append, List.foldlM_append] at hok
      obtain ⟨t, ht, hs⟩ := Lib.bind_eq_ok.mp hok
      obtain ⟨hexpects, hlength⟩ := ih (Nat.le_of_succ_le hcount) t ht
      rw [List.map_singleton, List.map_singleton, List.foldlM_cons] at hs
      obtain ⟨u, hu, hnil⟩ := Lib.bind_eq_ok.mp hs
      cases hnil
      refine ⟨(hexpects.accepted hu).1, ?_⟩
      rw [hexpects.waveform aligned seed hpos hle hu, hlength, stitchedMel_succ hpos hle, Nat.add_mul]
  rw [chunkWindows_eq hpos] at hok
  have hlength := (hall (lastWindow all.length + 1) (Nat.le_refl _) s hok).2
  rw [hlength, stitchedMel, if_pos (Nat.le_refl _)]

/-- The sound of a chunk, as units. -/
def unitDecoder : AcousticDecoder Unit Unit Unit Unit :=
  fun hidden _ _ _ _ => .done (List.replicate (alignedMelLength hidden.length * 512) ()) () ()

def stitchUnits (frames : Nat) : Except AcousticError (AcousticStreamState Unit Unit Unit) :=
  ((chunkWindows frames).map fun w => (chunkOf 7 (List.replicate frames ()) w).item).foldlM
    (onStreamChunk unitDecoder) {}

/-- Two windows, of 200 frames and of 101: 431 mel frames of the first, and 261 of the second. -/
theorem stitched_length_two : ∃ s, stitchUnits 201 = .ok s ∧ s.waveform44k.length = (431 + 261) * 512 := by
  have aligned : SampleAligned unitDecoder := by
    intro _ _ _ _ _ _ _ _ h
    cases h
    exact List.length_replicate
  have hok : (stitchUnits 201).isOk = true := by
    rw [stitchUnits, chunkWindows_eq (by decide)]
    decide +kernel
  cases hstitched : stitchUnits 201 with
  | error e =>
    rw [hstitched] at hok
    cases hok
  | ok s =>
    have hframes : (List.replicate 201 ()).length = 201 := List.length_replicate
    have hlength := @stitched_length _ _ _ _ _ aligned 7 (List.replicate 201 ()) (by rw [hframes]; decide) s
      (by rw [hframes]; exact hstitched)
    rw [hframes] at hlength
    exact ⟨s, rfl, hlength⟩

end

/-! ### A generation, and what is accepted of it -/

/-- The chunk at a place of the whole. -/
theorem getElem?_chunks (seed : Int) {all : List F} (hpos : 0 < all.length) {i : Nat}
    (hi : i < lastWindow all.length + 1) :
    ((chunkWindows all.length).map (chunkOf seed all))[i]? = some (chunkOf seed all (windowAt all.length i)) := by
  rw [chunkWindows_eq hpos, List.map_map, List.getElem?_map, List.getElem?_range hi]
  rfl

/-- A list of chunks that is accepted is a start of the whole. -/
theorem accepted_in_order {decode : AcousticDecoder F S Lat Cond} (seed : Int) {all : List F} (hpos : 0 < all.length)
    {chunks : List (HiddenChunk F)} (hmem : ∀ chunk ∈ chunks, chunk ∈ (chunkWindows all.length).map (chunkOf seed all))
    {s' : AcousticStreamState S Lat Cond}
    (hok : (chunks.map HiddenChunk.item).foldlM (onStreamChunk decode) {} = .ok s') :
    chunks <+: (chunkWindows all.length).map (chunkOf seed all) := by
  refine List.prefix_iff_getElem?.mpr fun i hi => ?_
  obtain ⟨m, hm, hidx, _⟩ := Expects.start_state.accepted_all hok i (by rw [List.length_map]; exact hi)
  rw [List.getElem_map] at hm
  obtain ⟨w, hw, hchunk⟩ := List.mem_map.mp (hmem chunks[i] (List.getElem_mem hi))
  rw [chunkWindows_eq hpos] at hw
  obtain ⟨j, hj, rfl⟩ := List.mem_map.mp hw
  rw [← hchunk] at hm ⊢
  have hplace : j = i := by
    rw [← Option.some.inj hm, Nat.zero_add] at hidx
    exact hidx
  rw [← hplace]
  exact getElem?_chunks seed hpos (List.mem_range.mp hj)

/-- **Main theorem.** However the frames of a generation arrive, nothing is raised, and what is streamed are the windows
of all of them, in order, each once; the last one alone is final. The acoustic scheduler refuses none of them for its
checks, and of all lists of these chunks it accepts those alone that are in order from the first on. -/
theorem streamed_windows_eq_offline (seed : Int) (events : List (GenerationEvent F))
    (hpos : 1 ≤ (generatedFrames events).length) :
    ∃ g, generate seed events = .ok g ∧ g.arState.pendingChunks = [] ∧
      g.sent = (chunkWindows (generatedFrames events).length).map (chunkOf seed (generatedFrames events)) ∧
      (∀ i (hi : i < g.sent.length), g.sent[i].metadata.isFinal = true ↔ i + 1 = g.sent.length) ∧
      ∀ decode : AcousticDecoder F S Lat Cond,
        (∀ e, (g.sent.map HiddenChunk.item).foldlM (onStreamChunk decode) {} = .error e → e = .decoder) ∧
        ∀ chunks s', (∀ chunk ∈ chunks, chunk ∈ g.sent) →
          (chunks.map HiddenChunk.item).foldlM (onStreamChunk decode) {} = .ok s' → chunks <+: g.sent := by
  obtain ⟨g, hok, hpending, hsent⟩ := generate_eq seed events hpos
  refine ⟨g, hok, hpending, hsent, fun i hi => ?_, fun decode => ⟨fun e herr => ?_, fun chunks s' hmem hchunks => ?_⟩⟩
  · have hlen : g.sent.length = lastWindow (generatedFrames events).length + 1 := by
      rw [hsent, chunkWindows_eq hpos, List.length_map, List.length_map, List.length_range]
    have hget := getElem?_chunks seed hpos (hlen ▸ hi)
    rw [← hsent, List.getElem?_eq_getElem hi] at hget
    rw [Option.some.inj hget, hlen]
    show (windowAt _ i).isLast = true ↔ _
    rw [windowAt_last]
    omega
  · rw [hsent, chunkWindows_eq hpos, List.range_eq_range', List.map_map, List.map_map] at herr
    exact Expects.start_state.in_order seed hpos _ (Nat.le_of_eq (Nat.zero_add _)) herr
  · rw [hsent] at hmem ⊢
    exact accepted_in_order seed hpos hmem hchunks

/-- The frames 0 to 200, as two windows. -/
theorem streamed_windows_eq_offline_two :
    ∃ g, generate 7 ((List.range 201).map (.advance true false) ++ [.drain, .advance true true 0]) = .ok g ∧
      g.sent = (chunkWindows 201).map (chunkOf 7 (List.range 201)) ∧
      g.sent = [⟨List.range 200, ⟨0, 0, 200, false, 7⟩⟩, ⟨(List.range 101).map (100 + ·), ⟨1, 100, 201, true, 7⟩⟩] := by
  have hframes : generatedFrames ((List.range 201).map (.advance true false) ++ [.drain, .advance true true 0]) =
      List.range 201 := by decide +kernel
  obtain ⟨g, hok, _, hsent, _⟩ := @streamed_windows_eq_offline Nat Unit Unit Unit 7
    ((List.range 201).map (.advance true false) ++ [.drain, .advance true true 0])
    (by rw [hframes, List.length_range]; decide)
  rw [hframes] at hsent
  refine ⟨g, hok, hsent, hsent.trans ?_⟩
  rw [List.length_range, chunkWindows_eq (by decide)]
  decide +kernel

end SglangOmni.Models.MiniMaxMusic3
