import SglangOmni.Models.MiniMaxMusic3.ModelRunner

/-! The windows that are streamed are those of the whole.

After each step the windows that are not the last were streamed, and the buffer has the frames from the next one on
(`ArInv`). So the flush finds the last window in the buffer, and streams it alone. -/
namespace SglangOmni.Models.MiniMaxMusic3

variable {F : Type} {all : List F}

/-- The chunk of a window of the whole. -/
def chunkOf (seed : Int) (all : List F) (window : ChunkWindow) : HiddenChunk F :=
  ⟨(all.take window.stop).drop window.start, ⟨window.index, window.start, window.stop, window.isLast, seed⟩⟩

/-- The chunks of the first windows. -/
def chunksUpTo (seed : Int) (all : List F) (count : Nat) : List (HiddenChunk F) :=
  (List.range count).map fun i => chunkOf seed all (windowAt all.length i)

structure ArInv (seed : Int) (all : List F) (sent : List (HiddenChunk F)) (s : ArState F) : Prop where
  seeded : s.seed = seed
  base : s.frames.baseFrame = s.emittedWindows * arChunkHopFrames
  frames : s.frames.frames = all.drop s.frames.baseFrame
  emitted : s.emittedWindows = lastWindow all.length
  generated : s.generatedFrames = all.length
  chunks : sent ++ s.pendingChunks = chunksUpTo seed all s.emittedWindows

/-! ### The buffer -/

/-- A range that the buffer holds. -/
theorem concatenate_eq {b : HiddenFrameBuffer F} (frames : b.frames = all.drop b.baseFrame) {start stop : Nat}
    (hstart : b.baseFrame ≤ start) (horder : start ≤ stop) (hstop : stop ≤ all.length) :
    b.concatenate start stop = .ok ((all.take stop).drop start) := by
  have hlen : b.frames.length = all.length - b.baseFrame := by
    rw [frames, List.length_drop]
  have hheld : ¬((start : Int) - b.baseFrame < 0 ∨ (stop : Int) - b.baseFrame > b.frames.length) := by omega
  have hend : ((stop : Int) - b.baseFrame).toNat = stop - b.baseFrame := by omega
  have hbegin : ((start : Int) - b.baseFrame).toNat = start - b.baseFrame := by omega
  simp only [HiddenFrameBuffer.concatenate, if_neg hheld, hend, hbegin]
  rw [frames, List.take_drop, List.drop_drop, show b.baseFrame + (stop - b.baseFrame) = stop by omega,
    show b.baseFrame + (start - b.baseFrame) = start by omega]

/-- The windows that are not the last stay what they are when frames follow. -/
theorem chunksUpTo_append (seed : Int) (all more : List F) {count : Nat} (h : count ≤ lastWindow all.length) :
    chunksUpTo seed (all ++ more) count = chunksUpTo seed all count := by
  refine List.map_congr_left fun i hi => ?_
  have hlast : i < lastWindow all.length := Nat.lt_of_lt_of_le (List.mem_range.mp hi) h
  have hlong := lt_lastWindow.mp hlast
  have hmore : i < lastWindow (all ++ more).length := by
    rw [lt_lastWindow, List.length_append]
    omega
  rw [windowAt_of_lt hlast, windowAt_of_lt hmore]
  simp only [chunkOf, List.take_append_of_le_length (Nat.le_of_lt hlong)]

theorem chunksUpTo_succ (seed : Int) (all : List F) (count : Nat) :
    chunksUpTo seed all (count + 1) = chunksUpTo seed all count ++ [chunkOf seed all (windowAt all.length count)] := by
  rw [chunksUpTo, List.range_succ, List.map_append]
  rfl

theorem ArInv.start (seed : Int) : ArInv seed ([] : List F) [] { seed } where
  seeded := rfl
  base := rfl
  frames := rfl
  emitted := by simp [lastWindow, arChunkHopFrames]
  generated := rfl
  chunks := rfl

/-! ### A step -/

/-- A frame that leaves the last window what it was. -/
theorem lastWindow_same {n : Nat} (h : n + 1 ≤ lastWindow n * arChunkHopFrames + arChunkFrames) :
    lastWindow (n + 1) = lastWindow n := by
  simp only [lastWindow, arChunkFrames, arChunkHopFrames] at h ⊢
  omega

/-- A frame that shows that the last window was not the last. -/
theorem lastWindow_succ {n : Nat} (h : lastWindow n * arChunkHopFrames + arChunkFrames < n + 1) :
    lastWindow (n + 1) = lastWindow n + 1 := by
  simp only [lastWindow, arChunkFrames, arChunkHopFrames] at h ⊢
  omega

theorem lastWindow_base (n : Nat) : lastWindow n * arChunkHopFrames ≤ n := by
  simp only [lastWindow, arChunkFrames, arChunkHopFrames]
  omega

/-- A new frame, with the window it makes ready. -/
theorem ArInv.frame {seed : Int} {sent : List (HiddenChunk F)} {s : ArState F} (h : ArInv seed all sent s)
    (x : F) : ∃ s',
      emitReadyWindow { s with frames := s.frames.append x, generatedFrames := s.generatedFrames + 1 } = .ok s' ∧
      ArInv seed (all ++ [x]) sent s' := by
  have hlen : (all ++ [x]).length = all.length + 1 := List.length_append
  have hbase : s.frames.baseFrame ≤ all.length := by
    rw [h.base, h.emitted]
    exact lastWindow_base _
  have hframes : (s.frames.append x).frames = (all ++ [x]).drop s.frames.baseFrame := by
    rw [List.drop_append_of_le_length hbase, ← h.frames]
    rfl
  have hend : (s.frames.append x).endFrame = all.length + 1 := by
    rw [HiddenFrameBuffer.endFrame, hframes, List.length_drop, hlen]
    show s.frames.baseFrame + (all.length + 1 - s.frames.baseFrame) = all.length + 1
    omega
  have hold : chunksUpTo seed (all ++ [x]) s.emittedWindows = chunksUpTo seed all s.emittedWindows :=
    chunksUpTo_append seed all [x] (Nat.le_of_eq h.emitted)
  unfold emitReadyWindow
  dsimp only
  rw [hend]
  by_cases hwait : all.length + 1 ≤ s.emittedWindows * arChunkHopFrames + arChunkFrames
  · rw [if_pos hwait]
    refine ⟨_, rfl, h.seeded, h.base, hframes, ?_, ?_, h.chunks.trans hold.symm⟩
    · rw [h.emitted] at hwait
      rw [hlen, lastWindow_same hwait]
      exact h.emitted
    · rw [hlen]
      exact congrArg (· + 1) h.generated
  · rw [if_neg hwait]
    have hready := Nat.not_le.mp hwait
    have hlast : lastWindow (all ++ [x]).length = s.emittedWindows + 1 := by
      rw [h.emitted] at hready ⊢
      rw [hlen, lastWindow_succ hready]
    have hlt : s.emittedWindows < lastWindow (all ++ [x]).length := hlast ▸ Nat.lt_succ_self _
    have hslice := concatenate_eq (b := s.frames.append x) hframes (Nat.le_of_eq h.base)
      (Nat.le_add_right _ arChunkFrames)
      (by omega)
    have hchunk : chunkOf seed (all ++ [x]) (windowAt (all ++ [x]).length s.emittedWindows) =
        ⟨((all ++ [x]).take (s.emittedWindows * arChunkHopFrames + arChunkFrames)).drop
          (s.emittedWindows * arChunkHopFrames), ⟨s.emittedWindows, s.emittedWindows * arChunkHopFrames,
            s.emittedWindows * arChunkHopFrames + arChunkFrames, false, s.seed⟩⟩ := by
      rw [windowAt_of_lt hlt, h.seeded]
      rfl
    -- a hop of frames is dropped
    have hdiscard : min (s.emittedWindows * arChunkHopFrames + arChunkHopFrames - s.frames.baseFrame)
        (s.frames.append x).frames.length = arChunkHopFrames := by
      rw [hframes, List.length_drop, hlen, h.base]
      simp only [arChunkFrames, arChunkHopFrames] at hready ⊢
      omega
    simp only [emitWindow, hslice]
    refine ⟨_, rfl, h.seeded, ?_, ?_, ?_, ?_, ?_⟩
    · show s.frames.baseFrame + min _ _ = max s.emittedWindows (s.emittedWindows + 1) * arChunkHopFrames
      rw [Nat.max_eq_right (Nat.le_succ _), Nat.succ_mul, ← h.base]
      exact congrArg _ (h.base ▸ hdiscard)
    · show (s.frames.append x).frames.drop (min _ _) = (all ++ [x]).drop (s.frames.baseFrame + min _ _)
      rw [← List.drop_drop, ← hframes]
    · show max s.emittedWindows (s.emittedWindows + 1) = _
      rw [Nat.max_eq_right (Nat.le_succ _), hlast]
    · rw [hlen]
      exact congrArg (· + 1) h.generated
    · show sent ++ (s.pendingChunks ++ [_]) = chunksUpTo seed (all ++ [x]) (max s.emittedWindows (s.emittedWindows + 1))
      rw [Nat.max_eq_right (Nat.le_succ _), chunksUpTo_succ, hold, ← h.chunks, hchunk, List.append_assoc]

/-- A step of the generation, with the frame it has. -/
theorem ArInv.next {seed : Int} {g : Generation F} (h : ArInv seed all g.sent g.arState) (e : GenerationEvent F) :
    ∃ g', g.next e = .ok g' ∧ ArInv seed (all ++ generatedFrames [e]) g'.sent g'.arState := by
  cases e with
  | drain =>
    refine ⟨g.drain, rfl, ?_⟩
    rw [show generatedFrames [GenerationEvent.drain (F := F)] = [] from rfl, List.append_nil]
    exact ⟨h.seeded, h.base, h.frames, h.emitted, h.generated, (List.append_nil _).trans h.chunks⟩
  | advance emit stopped x =>
    cases stopped with
    | true =>
      refine ⟨{ g with arState := { g.arState with finishReason := .stop } }, rfl, ?_⟩
      rw [show generatedFrames [GenerationEvent.advance emit true x] = [] by cases emit <;> rfl, List.append_nil]
      exact ⟨h.seeded, h.base, h.frames, h.emitted, h.generated, h.chunks⟩
    | false =>
      cases emit with
      | false =>
        refine ⟨g, rfl, ?_⟩
        rw [show generatedFrames [GenerationEvent.advance false false x] = [] from rfl, List.append_nil]
        exact h
      | true =>
        obtain ⟨s', hok, hinv⟩ := h.frame x
        refine ⟨{ g with arState := s' }, ?_, hinv⟩
        show (emitReadyWindow _ >>= fun arState => pure { g with arState }) = _
        rw [hok]
        rfl

/-- The steps of a generation raise nothing. -/
theorem ArInv.run {seed : Int} {g : Generation F} (h : ArInv seed all g.sent g.arState)
    (events : List (GenerationEvent F)) :
    ∃ g', events.foldlM Generation.next g = .ok g' ∧ ArInv seed (all ++ generatedFrames events) g'.sent g'.arState := by
  induction events generalizing all g with
  | nil => exact ⟨g, rfl, by simpa [generatedFrames] using h⟩
  | cons e rest ih =>
    obtain ⟨g₁, hok, hnext⟩ := h.next e
    obtain ⟨g', hrun, hinv⟩ := ih hnext
    refine ⟨g', ?_, ?_⟩
    · rw [List.foldlM_cons, hok]
      exact hrun
    · have hframes : generatedFrames (e :: rest) = generatedFrames [e] ++ generatedFrames rest := by
        simp only [generatedFrames, ← List.filterMap_append]
        rfl
      rw [hframes, ← List.append_assoc]
      exact hinv

/-! ### The flush -/

/-- What was streamed is passed over. -/
theorem flush_streamed (s : ArState F) (frames : Nat) {count : Nat} (h : count ≤ s.emittedWindows) :
    ((List.range count).map (windowAt frames)).foldlM flushWindow s = .ok s := by
  induction count with
  | zero => rfl
  | succ count ih =>
    have hpassed : flushWindow s (windowAt frames count) = .ok s := if_neg (Nat.not_le.mpr h)
    rw [List.range_succ, List.map_append, List.foldlM_append, ih (Nat.le_of_succ_le h)]
    show (flushWindow s (windowAt frames count) >>= fun s' => pure s') = _
    rw [hpassed]
    rfl

/-- The flush streams the last window. -/
theorem ArInv.finish {seed : Int} {sent : List (HiddenChunk F)} {s : ArState F} (h : ArInv seed all sent s)
    (hpos : 0 < all.length) : ∃ s', onRequestFinished s = .ok s' ∧
      sent ++ s'.pendingChunks = (chunkWindows all.length).map (chunkOf seed all) := by
  let last := windowAt all.length s.emittedWindows
  have hlast : last = ⟨s.emittedWindows, s.emittedWindows * arChunkHopFrames, all.length,
    s.emittedWindows == 0, true⟩ := by
    show windowAt all.length s.emittedWindows = _
    rw [h.emitted, windowAt_lastWindow]
  have hslice : s.frames.concatenate last.start last.stop = .ok ((all.take last.stop).drop last.start) := by
    rw [hlast]
    refine concatenate_eq h.frames (Nat.le_of_eq h.base) ?_ (Nat.le_refl _)
    rw [h.emitted]
    exact lastWindow_base _
  have hflush : flushWindow s last = .ok { s with
      pendingChunks := s.pendingChunks ++ [chunkOf seed all last]
      emittedWindows := s.emittedWindows + 1 } := by
    have hnew : s.emittedWindows ≤ last.index := Nat.le_refl _
    rw [flushWindow, if_pos hnew, emitWindow, hslice]
    simp only [hlast, chunkOf, h.seeded, if_true, Nat.max_eq_right (Nat.le_succ _)]
    rfl
  have hgenerated : s.generatedFrames ≠ 0 := by
    rw [h.generated]
    exact Nat.ne_of_gt hpos
  have hwindows : chunkWindows s.generatedFrames =
    (List.range s.emittedWindows).map (windowAt all.length) ++ [last] := by
    rw [h.generated, chunkWindows_eq hpos, ← h.emitted, List.range_succ, List.map_append]
    rfl
  refine ⟨{ s with
    pendingChunks := s.pendingChunks ++ [chunkOf seed all last]
    emittedWindows := s.emittedWindows + 1 }, ?_, ?_⟩
  · rw [onRequestFinished, if_neg hgenerated, hwindows, List.foldlM_append,
      flush_streamed s all.length (Nat.le_refl _)]
    show (flushWindow s last >>= fun s' => pure s') = _
    rw [hflush]
    rfl
  · show sent ++ (s.pendingChunks ++ [chunkOf seed all last]) = _
    rw [← List.append_assoc, h.chunks, ← h.generated, hwindows, List.map_append]
    simp only [chunksUpTo, List.map_map]
    rfl

/-- **The chunks of a generation** are those of the windows of all its frames. -/
theorem generate_eq (seed : Int) (events : List (GenerationEvent F)) (hpos : 0 < (generatedFrames events).length) :
    ∃ g, generate seed events = .ok g ∧ g.arState.pendingChunks = [] ∧
      g.sent = (chunkWindows (generatedFrames events).length).map (chunkOf seed (generatedFrames events)) := by
  obtain ⟨g, hrun, hinv⟩ := ArInv.run (g := ⟨{ seed }, []⟩) (ArInv.start seed) events
  obtain ⟨s', hfinish, hchunks⟩ := hinv.finish hpos
  refine ⟨Generation.drain { g with arState := s' }, ?_, rfl, hchunks⟩
  rw [generate, hrun]
  show (onRequestFinished g.arState >>= fun arState => pure (Generation.drain { g with arState })) = _
  rw [hfinish]
  rfl

end SglangOmni.Models.MiniMaxMusic3
