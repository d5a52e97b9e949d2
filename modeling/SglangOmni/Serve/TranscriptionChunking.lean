import SglangOmni.Lib.Tiling

/-! Cutting a long upload into the chunks that are transcribed.

The waveform is cut at the quietest window before each boundary, and the last cut is moved back when it would leave a
tail that is too short. Lengths are in samples: `int(seconds * sample_rate)` is taken where the source takes it, and one
below 0 does what 0 does. The energies are not modelled; any window may be the quietest. -/
namespace SglangOmni.Serve.TranscriptionChunking
open Lib

/-- Half-open `[start, end)` sample range of one chunk. -/
abbrev Span := Nat × Nat

structure RMSSplitter (α : Type) where
  /-- `search_window_s`, in samples. -/
  searchSamples : Nat
  energyWindowSamples : Nat
  /-- `np.argmin` of the energies of the windows. -/
  quietest : List (List α) → Nat
  window_pos : 0 < energyWindowSamples
  quietest_lt : ∀ windows, windows ≠ [] → quietest windows < windows.length

/-- The first of the least. -/
def argmin (energies : List Nat) : Nat := energies.findIdx fun e => energies.all (e ≤ ·)

theorem argmin_lt {energies : List Nat} (h : energies ≠ []) : argmin energies < energies.length := by
  cases hmin : energies.min? with
  | none => exact absurd (List.min?_eq_none_iff.mp hmin) h
  | some least =>
    obtain ⟨hmem, hle⟩ := List.min?_eq_some_iff.mp hmin
    apply List.findIdx_lt_length_of_exists
    exact ⟨least, hmem, List.all_eq_true.mpr fun e he => decide_eq_true (hle e he)⟩

/-- The splitter that compares the windows by an energy. -/
def RMSSplitter.byEnergy {α : Type} (searchSamples energyWindowSamples : Nat) (window_pos : 0 < energyWindowSamples)
    (energy : List α → Nat) : RMSSplitter α where
  searchSamples := searchSamples
  energyWindowSamples := energyWindowSamples
  quietest windows := argmin (windows.map energy)
  window_pos := window_pos
  quietest_lt windows hne := by
    rw [← List.length_map energy]
    exact argmin_lt (by simpa using hne)

/-- `ChunkSpan`, in samples. -/
structure ChunkSpan where
  index : Nat
  startSample : Nat
  endSample : Nat
  hasSpeech : Bool

namespace RMSSplitter
variable {α : Type} (s : RMSSplitter α)

/-- The region as whole windows. -/
def windows (region : List α) (windowCount : Nat) : List (List α) :=
  (List.range windowCount).map fun i => (region.drop (i * s.energyWindowSamples)).take s.energyWindowSamples

/-- `_find_split_point`. -/
def findSplitPoint (waveform : List α) (searchStart searchEnd : Nat) : Nat :=
  let region := (waveform.take searchEnd).drop searchStart
  let windowCount := region.length / s.energyWindowSamples
  if windowCount < 1 then searchEnd
  else
    let quietest := s.quietest (s.windows region windowCount)
    searchStart + quietest * s.energyWindowSamples + s.energyWindowSamples / 2

/-- Where the loop of `split` cuts the chunk that starts at `start`. -/
def cutAfter (waveform : List α) (chunkSamples minTail start : Nat) : Nat :=
  let boundary := start + chunkSamples
  let searchStart := max (boundary - s.searchSamples) (start + 1)
  let cut := s.findSplitPoint waveform searchStart boundary
  let tailSamples := waveform.length - cut
  if 0 < tailSamples ∧ tailSamples < minTail ∧ minTail ≤ chunkSamples then max (waveform.length - minTail) (start + 1)
  else cut

/-- The quietest window lies between the ends of the search. -/
theorem findSplitPoint_within (waveform : List α) {searchStart searchEnd : Nat} (h : searchStart ≤ searchEnd) :
    searchStart ≤ s.findSplitPoint waveform searchStart searchEnd ∧
      s.findSplitPoint waveform searchStart searchEnd ≤ searchEnd := by
  unfold findSplitPoint
  dsimp only
  generalize hregion : (waveform.take searchEnd).drop searchStart = region
  have hlength : region.length ≤ searchEnd - searchStart := by
    rw [← hregion, List.length_drop, List.length_take]
    omega
  split
  · exact ⟨h, Nat.le_refl _⟩
  · next hcount =>
    generalize hn : region.length / s.energyWindowSamples = windowCount at hcount
    have hwindows : (s.windows region windowCount).length = windowCount := by simp [windows]
    have hne : s.windows region windowCount ≠ [] := by
      intro hnil
      rw [hnil] at hwindows
      exact hcount (hwindows ▸ Nat.zero_lt_one)
    have hquietest := s.quietest_lt _ hne
    rw [hwindows] at hquietest
    have hfit : windowCount * s.energyWindowSamples ≤ region.length := hn ▸ Nat.div_mul_le_self _ _
    have hlast : (s.quietest (s.windows region windowCount) + 1) * s.energyWindowSamples ≤
        windowCount * s.energyWindowSamples := Nat.mul_le_mul_right _ hquietest
    rw [Nat.succ_mul] at hlast
    omega

/-- A cut leaves something on both sides, and a chunk before it that is not too long. -/
theorem cutAfter_within (waveform : List α) {chunkSamples : Nat} (minTail start : Nat) (hchunk : 0 < chunkSamples) :
    start < s.cutAfter waveform chunkSamples minTail start ∧
      s.cutAfter waveform chunkSamples minTail start ≤ start + chunkSamples := by
  have hsearch : max (start + chunkSamples - s.searchSamples) (start + 1) ≤ start + chunkSamples := by omega
  obtain ⟨hlow, hhigh⟩ := s.findSplitPoint_within waveform hsearch
  unfold cutAfter
  dsimp only
  split
  · omega
  · omega

/-- The tail that a cut leaves is not too short, when a chunk may be as long as that. -/
theorem cutAfter_tail (waveform : List α) {chunkSamples minTail start : Nat} (hchunk : 0 < chunkSamples)
    (hrest : chunkSamples < waveform.length - start) (htail : minTail ≤ chunkSamples) :
    minTail ≤ waveform.length - s.cutAfter waveform chunkSamples minTail start := by
  have hsearch : max (start + chunkSamples - s.searchSamples) (start + 1) ≤ start + chunkSamples := by omega
  obtain ⟨_, hhigh⟩ := s.findSplitPoint_within waveform hsearch
  unfold cutAfter
  dsimp only
  split
  · omega
  · omega

/-- The loop of `split`. -/
def spansFrom (waveform : List α) (maxChunkSamples minTail start : Nat) : List Span :=
  if start < waveform.length then
    if waveform.length - start ≤ max maxChunkSamples 1 then [(start, waveform.length)]
    else
      let cut := s.cutAfter waveform (max maxChunkSamples 1) minTail start
      (start, cut) :: spansFrom waveform maxChunkSamples minTail cut
  else []
termination_by waveform.length - start
decreasing_by
  have hcut := (s.cutAfter_within waveform minTail start
    (Nat.lt_of_lt_of_le Nat.zero_lt_one (Nat.le_max_right maxChunkSamples 1))).1
  omega

def split (waveform : List α) (maxChunkSamples minTail : Nat) : List Span :=
  if waveform.length ≤ 0 then []
  else if waveform.length ≤ max maxChunkSamples 1 then [(0, waveform.length)]
  else s.spansFrom waveform maxChunkSamples minTail 0

/-- `plan_audio_chunks`, of a decoded upload; `chunkSamples` is that of the configuration, and `loud` whether a chunk
reaches the peak of speech. -/
def planAudioChunks (waveform : List α) (chunkSamples minTail : Nat) (loud : List α → Bool) : Option (List ChunkSpan) :=
  if waveform.length ≤ chunkSamples then none
  else
    some ((s.split waveform chunkSamples minTail).mapIdx fun index span =>
      ⟨index, span.1, span.2, loud ((waveform.take span.2).drop span.1)⟩)

/-! ### The spans -/

variable (waveform : List α) (maxChunkSamples minTail : Nat)

theorem spansFrom_tiles (start : Nat) (h : start ≤ waveform.length) :
    Tiles start (s.spansFrom waveform maxChunkSamples minTail start) waveform.length ∧
      ∀ span ∈ s.spansFrom waveform maxChunkSamples minTail start, span.2 - span.1 ≤ max maxChunkSamples 1 := by
  induction start using spansFrom.induct s waveform maxChunkSamples minTail with
  | case1 start hlt hshort =>
    rw [spansFrom, if_pos hlt, if_pos hshort]
    constructor
    · exact ⟨rfl, hlt, rfl⟩
    · intro span hspan
      rw [List.mem_singleton.mp hspan]
      exact hshort
  | case2 start hlt hlong cut ih =>
    obtain ⟨hprogress, hbound⟩ := s.cutAfter_within waveform minTail start
      (Nat.lt_of_lt_of_le Nat.zero_lt_one (Nat.le_max_right maxChunkSamples 1))
    obtain ⟨htiles, hsizes⟩ := ih (by omega)
    rw [spansFrom, if_pos hlt, if_neg hlong]
    constructor
    · exact ⟨rfl, hprogress, htiles⟩
    · intro span hspan
      cases List.mem_cons.mp hspan with
      | inl heq =>
        rw [heq]
        exact Nat.sub_le_iff_le_add'.mpr hbound
      | inr hspan => exact hsizes span hspan
  | case3 start hge =>
    rw [spansFrom, if_neg hge]
    exact ⟨by unfold Tiles; omega, fun _ hspan => nomatch hspan⟩

/-- The tail rule holds of the last span, since it holds of what every cut leaves. -/
theorem spansFrom_last (htail : minTail ≤ max maxChunkSamples 1) (start : Nat) (h : minTail ≤ waveform.length - start) :
    ∀ last ∈ (s.spansFrom waveform maxChunkSamples minTail start).getLast?, minTail ≤ last.2 - last.1 := by
  induction start using spansFrom.induct s waveform maxChunkSamples minTail with
  | case1 start hlt hshort =>
    rw [spansFrom, if_pos hlt, if_pos hshort]
    intro last hlast
    cases hlast
    exact h
  | case2 start hlt hlong cut ih =>
    have hleft : minTail ≤ waveform.length - cut :=
      s.cutAfter_tail waveform (by omega) (Nat.lt_of_not_le hlong) htail
    have hbound := (s.cutAfter_within waveform minTail start
      (Nat.lt_of_lt_of_le Nat.zero_lt_one (Nat.le_max_right maxChunkSamples 1))).2
    have hmore : cut < waveform.length := by omega
    have hne : s.spansFrom waveform maxChunkSamples minTail cut ≠ [] := by
      rw [spansFrom, if_pos hmore]
      split
      · exact List.cons_ne_nil _ _
      · exact List.cons_ne_nil _ _
    rw [spansFrom, if_pos hlt, if_neg hlong]
    dsimp only
    rw [List.getLast?_cons_of_ne_nil hne]
    exact ih hleft
  | case3 start hge =>
    rw [spansFrom, if_neg hge]
    exact fun _ hlast => nomatch hlast

/-- **The chunks tile the upload.** The spans are consecutive and not empty, from the first sample to the last, and none
is longer than a chunk, so that every sample is in one of them; the last is no shorter than the tail that the model asks
for, when a chunk may be as long and the upload is longer. The plan of an upload that is longer than a chunk has those
spans. -/
theorem spans_tile_upload :
    Tiles 0 (s.split waveform maxChunkSamples minTail) waveform.length ∧
    (∀ span ∈ s.split waveform maxChunkSamples minTail, span.2 - span.1 ≤ max maxChunkSamples 1) ∧
    (∀ sample < waveform.length, ∃ span ∈ s.split waveform maxChunkSamples minTail,
      (span.1 ≤ sample ∧ sample < span.2) ∧
        ∀ other ∈ s.split waveform maxChunkSamples minTail, other.1 ≤ sample ∧ sample < other.2 → other = span) ∧
    (minTail ≤ max maxChunkSamples 1 → minTail < waveform.length →
      ∀ last ∈ (s.split waveform maxChunkSamples minTail).getLast?, minTail ≤ last.2 - last.1) ∧
    ∀ loud, (s.planAudioChunks waveform maxChunkSamples minTail loud).map
        (List.map fun span => (span.startSample, span.endSample)) =
      if waveform.length ≤ maxChunkSamples then none else some (s.split waveform maxChunkSamples minTail) := by
  have htiles : Tiles 0 (s.split waveform maxChunkSamples minTail) waveform.length ∧
      ∀ span ∈ s.split waveform maxChunkSamples minTail, span.2 - span.1 ≤ max maxChunkSamples 1 := by
    unfold split
    split
    · next hempty => exact ⟨(Nat.le_zero.mp hempty).symm, fun _ hspan => nomatch hspan⟩
    split
    · next hsome hshort =>
      constructor
      · exact ⟨rfl, Nat.lt_of_not_le hsome, rfl⟩
      · intro span hspan
        rw [List.mem_singleton.mp hspan]
        exact hshort
    · exact s.spansFrom_tiles waveform maxChunkSamples minTail 0 (Nat.zero_le _)
  constructor
  · exact htiles.1
  constructor
  · exact htiles.2
  constructor
  · exact fun sample hsample => htiles.1.exists_unique sample (Nat.zero_le _) hsample
  constructor
  · intro htail hlonger
    unfold split
    split
    · exact fun _ hlast => nomatch hlast
    split
    · intro last hlast
      cases hlast
      exact Nat.le_of_lt hlonger
    · exact s.spansFrom_last waveform maxChunkSamples minTail htail 0 (Nat.le_of_lt hlonger)
  · intro loud
    unfold planAudioChunks
    split
    · rfl
    · rw [Option.map_some, List.mapIdx_eq_zipIdx_map, List.map_map]
      apply congrArg some
      show (s.split waveform maxChunkSamples minTail).zipIdx.map Prod.fst = _
      exact List.zipIdx_map_fst _ _

/-- The first cut is at the quiet sample; the second would leave three samples, and is moved back to leave four. -/
example : (RMSSplitter.byEnergy 2 1 (by decide) List.sum).split [5, 5, 0, 5, 5, 5, 5] 4 4 =
  [(0, 2), (2, 3), (3, 7)] := by
  decide +kernel

end RMSSplitter
end SglangOmni.Serve.TranscriptionChunking
