import SglangOmni.Lib.DeviceStream
import SglangOmni.Lib.Dict
import SglangOmni.Lib.Raising
import SglangOmni.Lib.History

/-! `Code2WavScheduler`, with its pool of pinned slots.

A window is decoded on the device and copied into a pinned slot while the next one is decoded; the audio is taken out of
the slot when the copy is over. Slots move between the free list, the retired list, the quarantine and the requests. Any
call into torch, CUDA or the profiler may raise, and the device goes on while the scheduler works: the environment says
for each call whether it raises and how far the device got before it. All of this runs under `_state_lock`, and
`decode_delta` is cut where it has a slot of its own. The batched path makes no slots and is left out, and so are the
messages and the tombstones: any step may follow any other for any request. -/
namespace SglangOmni.Models.Qwen3Omni.Code2Wav
open Lib

/-- What one call into torch, CUDA or the profiler does. -/
structure Answer where
  raises : Bool
  /-- How many operations of the stream the device carries out before the call answers. -/
  progress : Nat
  /-- A call that raised left its operation on the stream. -/
  queued : Bool

structure Config (F α : Type) where
  streamChunkSize : Nat
  leftContextSize : Nat
  totalUpsample : Nat
  enableOutputOverlap : Bool
  cuda : Bool
  /-- The leading code of a frame is `codec_eos_token_id`. -/
  isEos : F → Bool
  model : List F → List α

/-- `_MAX_PINNED_SLOTS`. -/
def maxPinnedSlots : Nat := 32

structure PendingWindow where
  slot : Nat
  samples : Nat
  deriving DecidableEq

/-- `Code2WavStreamState`; `due_since` belongs to the batched path. -/
structure StreamState (F α : Type) where
  chunks : List F
  emitted : Nat
  audioParts : List (List α)
  streamEnabled : Option Bool
  checked : Nat
  pending : Option PendingWindow

/-- `create_stream_state`. -/
def StreamState.create {F α : Type} : StreamState F α := ⟨[], 0, [], none, 0, none⟩

/-- What `decode_delta` has in hand once it has a slot. -/
structure Window (K α : Type) where
  rid : K
  slot : Nat
  wav : List α
  /-- `end`. -/
  frames : Nat
  /-- `event_recorded`. -/
  eventRecorded : Bool

/-- Slots are numbered as they are made. -/
structure Scheduler (K F α : Type) [Device α] where
  streamStates : Dict K (StreamState F α)
  pinnedFree : List Nat
  pinnedCreated : Nat
  pinnedRetired : List Nat
  pinnedQuarantined : List Nat
  pipelineActive : Bool
  /-- `slot.buffer.numel()`. -/
  numel : Nat → Nat
  /-- The window now being handled. -/
  window : Option (Window K α)
  device : Device.State α
  /-- How many calls were made. -/
  calls : Nat
  /-- The audio that was last launched into a slot. -/
  launched : Nat → List α
  /-- The event of a slot was seen to have fired since its last use. -/
  seen : Nat → Bool

variable {K F α : Type} [DecidableEq K] [Device α]

/-- `__init__`. -/
def Scheduler.create (C : Config F α) : Scheduler K F α where
  streamStates := ∅
  pinnedFree := []
  pinnedCreated := 0
  pinnedRetired := []
  pinnedQuarantined := []
  pipelineActive := C.enableOutputOverlap && C.cuda
  numel := fun _ => 0
  window := none
  device := Device.empty
  calls := 0
  launched := fun _ => []
  seen := fun _ => false

namespace Scheduler

/-- The state of a request, as it is created when there is none. -/
def stream (s : Scheduler K F α) (r : K) : StreamState F α := (s.streamStates.get? r).getD .create

def setStream (s : Scheduler K F α) (r : K) (state : StreamState F α) : Scheduler K F α :=
  { s with streamStates := s.streamStates.set r state }

end Scheduler

abbrev Act (K F α β : Type) [Device α] := EStateM Unit (Scheduler K F α) β

section Calls
variable (env : Nat → Answer)

/-- What the next call answers, after what the device did until then. -/
def ask : Act K F α Answer := fun s =>
  .ok (env s.calls) { s with calls := s.calls + 1, device := Device.advance s.device (env s.calls).progress }

/-- A call that may raise and puts nothing on the stream. -/
def call : Act K F α Unit := do
  let answer ← ask env
  if answer.raises then throw () else pure ()

def enqueue (op : StreamOp α) : Act K F α Unit := do
  let answer ← ask env
  if answer.raises then do
    modify fun s => if answer.queued then { s with device := Device.enqueue s.device op } else s
    throw ()
  else modify fun s => { s with device := Device.enqueue s.device op }

/-- `_event_query`. -/
def eventQuery (k : Nat) : Act K F α Bool := do
  call env
  let s ← get
  if Device.fired s.device k then do
    set { s with seen := Function.update s.seen k true }
    pure true
  else pure false

/-- `_event_synchronize`. -/
def eventSynchronize (k : Nat) : Act K F α Unit := do
  call env
  modify fun s => { s with device := Device.synchronize s.device k, seen := Function.update s.seen k true }

end Calls

/-! ### The pool -/

def releaseSlot (k : Nat) : Act K F α Unit := modify fun s => { s with pinnedFree := s.pinnedFree ++ [k] }

def retireSlot (k : Nat) : Act K F α Unit := modify fun s => { s with pinnedRetired := s.pinnedRetired ++ [k] }

def quarantineSlot (k : Nat) : Act K F α Unit :=
  modify fun s => { s with pinnedQuarantined := s.pinnedQuarantined ++ [k], pipelineActive := false }

section Pool
variable (C : Config F α) (env : Nat → Answer)

/-- The loop of `_reap_retired_slots`; what it returns is still retired. -/
def reapLoop : List Nat → Act K F α (List Nat)
  | [] => pure []
  | k :: rest => do
    match ← catching (some <$> eventQuery env k) fun _ => pure none with
    | none => do
      quarantineSlot k
      reapLoop rest
    | some true => do
      releaseSlot k
      reapLoop rest
    | some false => do
      let still ← reapLoop rest
      pure (k :: still)

def reapRetiredSlots : Act K F α Unit := do
  let s ← get
  let still ← reapLoop env s.pinnedRetired
  modify fun s => { s with pinnedRetired := still }

/-- A slot off the free list, or a new one. -/
def takeSlot (samples : Nat) : Act K F α (Option Nat) := do
  let s ← get
  match s.pinnedFree.getLast? with
  | some k => do
    set { s with pinnedFree := s.pinnedFree.dropLast }
    pure (some k)
  | none =>
    if s.pinnedCreated < maxPinnedSlots then do
      call env
      call env
      modify fun s => { s with
        pinnedCreated := s.pinnedCreated + 1
        numel := Function.update s.numel s.pinnedCreated (max samples (C.streamChunkSize * C.totalUpsample)) }
      pure (some s.pinnedCreated)
    else pure none

/-- `slot.buffer = self._alloc_pinned(samples)`. -/
def growSlot (k samples : Nat) : Act K F α Unit := do
  call env
  modify fun s => { s with numel := Function.update s.numel k samples }

def acquireSlot (samples : Nat) : Act K F α (Option Nat) := do
  reapRetiredSlots env
  match ← takeSlot C env samples with
  | none => pure none
  | some k => do
    let s ← get
    if s.numel k < samples then do
      catching (growSlot env k samples) fun e => do
        releaseSlot k
        throw e
      pure (some k)
    else pure (some k)

/-! ### Windows -/

/-- The profiler is told of the first audio of a request. -/
def emitFirstAudio (r : K) : Act K F α Unit := do
  let s ← get
  if (s.stream r).audioParts.isEmpty then call env else pure ()

def appendAudio (r : K) (audio : List α) : Act K F α Unit := do
  if audio.isEmpty then pure ()
  else do
    emitFirstAudio env r
    modify fun s => s.setStream r { s.stream r with audioParts := (s.stream r).audioParts ++ [audio] }

/-- The waiting window is over: its slot goes back to the pool, and its audio to the request. -/
def flushPending (r : K) : Act K F α Unit := do
  let s ← get
  match (s.stream r).pending with
  | none => pure ()
  | some p => do
    eventSynchronize env p.slot
    call env
    let s ← get
    let audio := (Device.host s.device p.slot).take p.samples
    set (s.setStream r { s.stream r with pending := none })
    releaseSlot p.slot
    appendAudio env r audio

def scanUnchecked (r : K) : Act K F α Unit := do
  let s ← get
  if (s.stream r).chunks.length ≤ (s.stream r).checked then pure ()
  else do
    call env
    modify fun s =>
      let state := s.stream r
      let kept := state.chunks.take state.checked ++ (state.chunks.drop state.checked).filter fun codes =>
        !C.isEos codes
      s.setStream r { state with chunks := kept, checked := kept.length }

def scanWhen (due : Bool) (r : K) : Act K F α Unit := if due then scanUnchecked C env r else pure ()

/-- `wav[..., -n:]`. -/
def lastSamples (n : Nat) (wav : List α) : List α := if n = 0 then wav else wav.drop (wav.length - n)

/-- The slot for a window, after the window that waits where the pool has no other. -/
def slotForWindow (r : K) (samples : Nat) : Act K F α (Option Nat) := do
  match ← acquireSlot C env samples with
  | some k => pure (some k)
  | none => do
    let s ← get
    if (s.stream r).pending.isSome then do
      flushPending env r
      acquireSlot C env samples
    else pure none

/-- A window that is copied out at once. -/
def decodeNow (r : K) (frames : Nat) (wav : List α) : Act K F α Unit := do
  call env
  modify fun s => s.setStream r { s.stream r with emitted := frames }
  appendAudio env r wav

/-- `decode_delta`, until the window has a slot. -/
def decodeDelta (r : K) (isFinal : Bool) : Act K F α Unit := do
  scanWhen C env (C.enableOutputOverlap && isFinal) r
  let s ← get
  let state := s.stream r
  let start := state.emitted
  let frames := state.chunks.length
  if frames ≤ start then pure ()
  else do
    call env
    let wav := lastSamples ((frames - start) * C.totalUpsample)
      (C.model (state.chunks.drop (start - min C.leftContextSize start)))
    let s ← get
    if s.pipelineActive && !isFinal && decide (0 < start) && !wav.isEmpty then do
      match ← slotForWindow C env r wav.length with
      | some k => modify fun s => { s with window := some ⟨r, k, wav, frames, false⟩ }
      | none => decodeNow env r frames wav
    else decodeNow env r frames wav

/-- The copy and the record of `decode_delta`. -/
def launch (w : Window K α) : Act K F α Unit := do
  modify fun s => { s with
    launched := Function.update s.launched w.slot w.wav
    seen := Function.update s.seen w.slot false }
  catching (do
      enqueue env (.copy w.slot w.wav)
      enqueue env (.record w.slot)) fun e => do
    quarantineSlot w.slot
    modify fun s => { s with window := none }
    throw e
  catching (call env) fun e => do
    retireSlot w.slot
    modify fun s => { s with window := none }
    throw e
  modify fun s => { s with window := some { w with eventRecorded := true } }

/-- The end of `decode_delta`: the window before is flushed, and this one waits in its place. -/
def handOver (w : Window K α) : Act K F α Unit := do
  catching (flushPending env w.rid) fun e => do
    retireSlot w.slot
    modify fun s => { s with window := none }
    throw e
  modify fun s => { s.setStream w.rid { s.stream w.rid with
    pending := some ⟨w.slot, w.wav.length⟩
    emitted := w.frames } with window := none }

/-! ### Messages -/

def ingest (r : K) (codes : F) : Act K F α Unit := do
  if C.enableOutputOverlap then
    modify fun s => s.setStream r { s.stream r with chunks := (s.stream r).chunks ++ [codes] }
  else do
    call env
    modify fun s =>
      if C.isEos codes then s else s.setStream r { s.stream r with chunks := (s.stream r).chunks ++ [codes] }

/-- `_ingest_stream_item`; the checks of the item may raise before and after its flag is latched. -/
def ingestStreamItem (r : K) (codes : F) (stream : Bool) : Act K F α Unit := do
  modify fun s => s.setStream r (s.stream r)
  call env
  modify fun s => s.setStream r { s.stream r with streamEnabled := some ((s.stream r).streamEnabled.getD stream) }
  call env
  ingest C env r codes

/-- `_ready`. -/
def ready (state : StreamState F α) : Nat := state.chunks.length - state.emitted

def shouldDecode (r : K) : Act K F α Bool := do
  let s ← get
  let state := s.stream r
  scanWhen C env (C.enableOutputOverlap && decide (state.checked < state.chunks.length) &&
    decide (C.streamChunkSize ≤ ready state)) r
  let s ← get
  pure (decide (C.streamChunkSize ≤ ready (s.stream r)))

/-- The waiting window is flushed when its copy is over. -/
def flushDrained (r : K) : Act K F α Unit := do
  let s ← get
  match (s.stream r).pending with
  | none => pure ()
  | some p => if ← eventQuery env p.slot then flushPending env r else pure ()

def decodeAndEmit (r : K) : Act K F α Unit := do
  flushDrained env r
  if ← shouldDecode C env r then decodeDelta C env r false else pure ()

def onStreamChunk (r : K) (codes : F) (stream : Bool) : Act K F α Unit := do
  ingestStreamItem C env r codes stream
  decodeAndEmit C env r

/-- `release_stream_resources` on the state that was popped. -/
def clearStreamState (r : K) : Act K F α Unit := do
  let s ← get
  match s.streamStates.get? r with
  | none => pure ()
  | some state => do
    set { s with streamStates := s.streamStates.pop r }
    match state.pending with
    | none => pure ()
    | some p => retireSlot p.slot

def onStreamDone (r : K) : Act K F α Unit := do
  flushPending env r
  call env
  modify fun s => s.setStream r (s.stream r)
  decodeDelta C env r true
  let s ← get
  if (s.stream r).audioParts.isEmpty then throw () else pure ()

/-- `_handle_stream_done`; the state of an aborted request is left to the abort. -/
def handleStreamDone (r : K) (aborted : Bool) : Act K F α Unit := do
  onStreamDone C env r
  if aborted then pure () else clearStreamState r

def clearAll : List K → Act K F α Unit
  | [] => pure ()
  | r :: rest => do
    clearStreamState r
    clearAll rest

/-- The loop of `on_serving_stop`. -/
def drainLoop : List Nat → Act K F α Unit
  | [] => pure ()
  | k :: rest => do
    match ← catching (some <$> eventSynchronize env k) fun _ => pure none with
    | none => do
      modify fun s => { s with pinnedQuarantined := s.pinnedQuarantined ++ [k] }
      drainLoop rest
    | some _ => do
      releaseSlot k
      drainLoop rest

def onServingStop : Act K F α Unit := do
  let s ← get
  set { s with pinnedRetired := [] }
  drainLoop env s.pinnedRetired

/-- `_shutdown_stream_states`. -/
def shutdownStreamStates : Act K F α Unit := do
  let s ← get
  clearAll s.streamStates.keys
  onServingStop env

/-! ### Runs -/

inductive Step (K F : Type) where
  | streamChunk (r : K) (codes : F) (stream : Bool)
  /-- The window in hand is copied. -/
  | launch
  /-- The window in hand comes to wait at its request. -/
  | handOver
  | streamDone (r : K) (aborted : Bool)
  /-- From any thread, and after a message that raised. -/
  | abort (r : K)
  /-- `_next_message` reaps. -/
  | nextMessage
  | shutdown
  /-- The device carries out an operation. -/
  | device

/-- While a window is in hand the lock is held: only the window and the device go on. -/
def step (s : Scheduler K F α) : Step K F → Scheduler K F α
  | .device => { s with device := Device.tick s.device }
  | .launch =>
    match s.window with
    | some w => if w.eventRecorded then s else stateOf (launch env w s)
    | none => s
  | .handOver =>
    match s.window with
    | some w => if w.eventRecorded then stateOf (handOver env w s) else s
    | none => s
  | .streamChunk r codes stream =>
    if s.window.isSome then s else stateOf (onStreamChunk C env r codes stream s)
  | .streamDone r aborted => if s.window.isSome then s else stateOf (handleStreamDone C env r aborted s)
  | .abort r => if s.window.isSome then s else stateOf (clearStreamState r s)
  | .nextMessage => if s.window.isSome then s else stateOf (reapRetiredSlots env s)
  | .shutdown => if s.window.isSome then s else stateOf (shutdownStreamStates env s)

end Pool

end SglangOmni.Models.Qwen3Omni.Code2Wav
