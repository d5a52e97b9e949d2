import SglangOmni.Models.MiniMaxMusic3.Chunking

/-! The hidden frames of the autoregressive stage, and the windows it streams.

A step of the runner adds at most one frame to a request. A window is streamed as soon as one more frame shows that it
is not the last, and the frames before the next window are dropped. When the request finishes, the windows that were not
streamed follow. -/
namespace SglangOmni.Models.MiniMaxMusic3

variable {F : Type}

inductive RunnerError where
  /-- `MiniMax Music 3 hidden buffer range [start, end) is unavailable; the buffer holds [base, end)`. -/
  | bufferRange (start stop baseFrame endFrame : Nat)
  /-- `MiniMax Music 3 generated zero audio frames`. -/
  | zeroFrames
  deriving DecidableEq

/-- `_HiddenFrameBuffer`. -/
structure HiddenFrameBuffer (F : Type) where
  baseFrame : Nat := 0
  frames : List F := []
  peakFrames : Nat := 0

namespace HiddenFrameBuffer

def endFrame (b : HiddenFrameBuffer F) : Nat := b.baseFrame + b.frames.length

def append (b : HiddenFrameBuffer F) (frameHidden : F) : HiddenFrameBuffer F :=
  { b with frames := b.frames ++ [frameHidden], peakFrames := max b.peakFrames (b.frames.length + 1) }

def concatenate (b : HiddenFrameBuffer F) (start stop : Nat) : Except RunnerError (List F) :=
  let relativeStart : Int := start - b.baseFrame
  let relativeEnd : Int := stop - b.baseFrame
  if relativeStart < 0 ∨ relativeEnd > b.frames.length then .error (.bufferRange start stop b.baseFrame b.endFrame)
  else .ok ((b.frames.take relativeEnd.toNat).drop relativeStart.toNat)

def discardBefore (b : HiddenFrameBuffer F) (frame : Nat) : HiddenFrameBuffer F :=
  let discard := min (frame - b.baseFrame) b.frames.length
  { b with baseFrame := b.baseFrame + discard, frames := b.frames.drop discard }

end HiddenFrameBuffer

/-- What goes along with a chunk. -/
structure ChunkMetadata where
  chunkIdx : Nat
  startFrame : Nat
  endFrame : Nat
  isFinal : Bool
  seed : Int
  deriving DecidableEq

structure HiddenChunk (F : Type) where
  hidden : List F
  metadata : ChunkMetadata
  deriving DecidableEq

inductive FinishReason where
  | length
  | stop
  deriving DecidableEq

/-- `_ARState`. -/
structure ArState (F : Type) where
  seed : Int
  frames : HiddenFrameBuffer F := {}
  emittedWindows : Nat := 0
  generatedFrames : Nat := 0
  finishReason : FinishReason := .length
  pendingChunks : List (HiddenChunk F) := []

/-- `_emit_window`. -/
def emitWindow (s : ArState F) (window : ChunkWindow) (isFinal : Bool) : Except RunnerError (ArState F) := do
  let hidden ← s.frames.concatenate window.start window.stop
  let chunk := ⟨hidden, ⟨window.index, window.start, window.stop, isFinal, s.seed⟩⟩
  pure { s with
    pendingChunks := s.pendingChunks ++ [chunk]
    emittedWindows := max s.emittedWindows (window.index + 1)
    frames := if isFinal then s.frames else s.frames.discardBefore (window.start + arChunkHopFrames) }

/-- `_emit_ready_window`. -/
def emitReadyWindow (s : ArState F) : Except RunnerError (ArState F) :=
  let start := s.emittedWindows * arChunkHopFrames
  if s.frames.endFrame ≤ start + arChunkFrames then .ok s
  else emitWindow s ⟨s.emittedWindows, start, start + arChunkFrames, s.emittedWindows == 0, false⟩ false

/-- What `_advance` does for one request. -/
def advance (emit stopped : Bool) (frameHidden : F) (s : ArState F) : Except RunnerError (ArState F) :=
  if stopped then .ok { s with finishReason := .stop }
  else if emit then
    emitReadyWindow { s with frames := s.frames.append frameHidden, generatedFrames := s.generatedFrames + 1 }
  else .ok s

/-- The loop of `on_request_finished`. -/
def flushWindow (s : ArState F) (window : ChunkWindow) : Except RunnerError (ArState F) :=
  if s.emittedWindows ≤ window.index then emitWindow s window window.isLast else .ok s

def onRequestFinished (s : ArState F) : Except RunnerError (ArState F) :=
  if s.generatedFrames = 0 then .error .zeroFrames
  else (chunkWindows s.generatedFrames).foldlM flushWindow s

/-! ### A generation -/

/-- A request, with the chunks that were streamed. -/
structure Generation (F : Type) where
  arState : ArState F
  sent : List (HiddenChunk F) := []

inductive GenerationEvent (F : Type) where
  /-- A step of the runner: after a prefill nothing is emitted, and a stop has no frame. -/
  | advance (emit stopped : Bool) (frameHidden : F)
  /-- `_drain_pending_chunks`. -/
  | drain

def Generation.drain (g : Generation F) : Generation F :=
  ⟨{ g.arState with pendingChunks := [] }, g.sent ++ g.arState.pendingChunks⟩

def Generation.next (g : Generation F) : GenerationEvent F → Except RunnerError (Generation F)
  | .advance emit stopped frameHidden => do
    let arState ← SglangOmni.Models.MiniMaxMusic3.advance emit stopped frameHidden g.arState
    pure { g with arState }
  | .drain => pure g.drain

/-- A whole generation, with the flush at its end. -/
def generate (seed : Int) (events : List (GenerationEvent F)) : Except RunnerError (Generation F) := do
  let g ← events.foldlM Generation.next ⟨{ seed }, []⟩
  let arState ← onRequestFinished g.arState
  pure (Generation.drain { g with arState })

/-- The frames that are generated. -/
def generatedFrames (events : List (GenerationEvent F)) : List F :=
  events.filterMap fun e => match e with
    | .advance true false frameHidden => some frameHidden
    | .advance _ _ _ | .drain => none

end SglangOmni.Models.MiniMaxMusic3
