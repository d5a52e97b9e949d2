import Mathlib.Data.List.Basic

/-! Chunk boundaries of MiniMax Music 3.

`chunkWindows` cuts a number of frames into windows of one size that overlap by a half; the last one takes what is left.
The window at a place is known in closed form, and so is the place of the last one (`chunkWindows_eq`). -/
namespace SglangOmni.Models.MiniMaxMusic3

/-- `AR_CHUNK_FRAMES`. -/
abbrev arChunkFrames : Nat := 200

/-- `AR_CHUNK_HOP_FRAMES`. -/
abbrev arChunkHopFrames : Nat := 100

structure ChunkWindow where
  index : Nat
  start : Nat
  stop : Nat
  isFirst : Bool
  isLast : Bool
  deriving DecidableEq

/-- The loop of `chunk_windows`. -/
def windowsFrom (frames index start : Nat) : List ChunkWindow :=
  if start < frames then
    let stop := min (start + arChunkFrames) frames
    let window : ChunkWindow := ⟨index, start, stop, index == 0, decide (frames ≤ stop)⟩
    if frames ≤ stop then [window] else window :: windowsFrom frames (index + 1) (start + arChunkHopFrames)
  else []
termination_by frames - start
decreasing_by
  simp only [arChunkHopFrames]
  omega

def chunkWindows (frames : Nat) : List ChunkWindow :=
  if frames = 0 then []
  else if frames ≤ arChunkFrames then [⟨0, 0, frames, true, true⟩]
  else windowsFrom frames 0 0

/-! ### In closed form -/

/-- The window at a place. -/
def windowAt (frames i : Nat) : ChunkWindow :=
  ⟨i, i * arChunkHopFrames, min (i * arChunkHopFrames + arChunkFrames) frames, i == 0,
    decide (frames ≤ i * arChunkHopFrames + arChunkFrames)⟩

/-- The place of the last window. -/
def lastWindow (frames : Nat) : Nat := (frames - arChunkFrames + (arChunkHopFrames - 1)) / arChunkHopFrames

variable {frames : Nat}

/-- A window is not the last when a frame follows it. -/
theorem lt_lastWindow {i : Nat} :
    i < lastWindow frames ↔ i * arChunkHopFrames + arChunkFrames < frames := by
  simp only [lastWindow, arChunkFrames, arChunkHopFrames]
  omega

theorem lastWindow_start (h : 0 < frames) : lastWindow frames * arChunkHopFrames < frames := by
  simp only [lastWindow, arChunkFrames, arChunkHopFrames]
  omega

theorem windowAt_last {i : Nat} : (windowAt frames i).isLast = true ↔ lastWindow frames ≤ i := by
  rw [← Nat.not_lt, lt_lastWindow, Nat.not_lt]
  exact decide_eq_true_iff

/-- A window that is not the last does not depend on how many frames there are. -/
theorem windowAt_of_lt {i : Nat} (h : i < lastWindow frames) :
    windowAt frames i = ⟨i, i * arChunkHopFrames, i * arChunkHopFrames + arChunkFrames, i == 0, false⟩ := by
  have hlong := lt_lastWindow.mp h
  simp only [windowAt, Nat.min_eq_left (Nat.le_of_lt hlong), Nat.not_le.mpr hlong, decide_false]

theorem windowAt_lastWindow :
    windowAt frames (lastWindow frames) =
      ⟨lastWindow frames, lastWindow frames * arChunkHopFrames, frames, lastWindow frames == 0, true⟩ := by
  have hshort : frames ≤ lastWindow frames * arChunkHopFrames + arChunkFrames :=
    Nat.not_lt.mp fun h => absurd (lt_lastWindow.mpr h) (Nat.lt_irrefl _)
  simp only [windowAt, Nat.min_eq_right hshort, hshort, decide_true]

theorem windowsFrom_eq (h : 0 < frames) (i : Nat) (hi : i ≤ lastWindow frames) :
    windowsFrom frames i (i * arChunkHopFrames) =
      (List.range' i (lastWindow frames + 1 - i)).map (windowAt frames) := by
  have hstart : i * arChunkHopFrames < frames :=
    Nat.lt_of_le_of_lt (Nat.mul_le_mul_right _ hi) (lastWindow_start h)
  rw [windowsFrom, if_pos hstart]
  dsimp only
  rcases Nat.lt_or_eq_of_le hi with hlt | rfl
  · have hlong := lt_lastWindow.mp hlt
    have ih := windowsFrom_eq h (i + 1) hlt
    have hcount : lastWindow frames + 1 - i = lastWindow frames + 1 - (i + 1) + 1 := by omega
    have hmin := Nat.min_eq_left (Nat.le_of_lt hlong)
    rw [hmin, if_neg (Nat.not_le.mpr hlong), ← Nat.succ_mul, ih, hcount, List.range'_succ, List.map_cons,
      windowAt_of_lt hlt, decide_eq_false (Nat.not_le.mpr hlong)]
  · have hshort : frames ≤ lastWindow frames * arChunkHopFrames + arChunkFrames :=
      Nat.not_lt.mp fun h => absurd (lt_lastWindow.mpr h) (Nat.lt_irrefl _)
    rw [Nat.min_eq_right hshort, if_pos (Nat.le_refl _), Nat.add_sub_cancel_left, List.range'_one, List.map_singleton,
      windowAt_lastWindow, decide_eq_true (Nat.le_refl _)]
termination_by lastWindow frames - i

/-- **The windows**, each by its place. -/
theorem chunkWindows_eq (h : 0 < frames) :
    chunkWindows frames = (List.range (lastWindow frames + 1)).map (windowAt frames) := by
  rw [chunkWindows, if_neg (Nat.ne_of_gt h)]
  split
  · next hshort =>
    have hzero : lastWindow frames = 0 := by
      refine Nat.eq_zero_of_not_pos fun hpos => ?_
      have hlong := lt_lastWindow.mp hpos
      omega
    rw [hzero]
    simp [windowAt, hshort]
  · rw [List.range_eq_range']
    exact windowsFrom_eq h 0 (Nat.zero_le _)

end SglangOmni.Models.MiniMaxMusic3
