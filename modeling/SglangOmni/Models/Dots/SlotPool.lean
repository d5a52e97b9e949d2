import SglangOmni.Lib.Dict
import SglangOmni.Lib.Raising
import Mathlib.Data.Finset.Basic

/-! The slot pool of the dots.tts streaming vocoder.

Each slot is a causal row over one AudioVAE. The rows age on their own, so the pool counts the frames of each; one eager
call steps several of them by the same number of frames. The network is a parameter: of a slot it keeps a value of a
type of its own, and it may raise. -/
namespace SglangOmni.Models.Dots
open Lib

/-- The AudioVAE. A latent frame is an `L`, a sample an `S`, and a `C` is what the network keeps of a row: its hidden
state and its window. -/
structure Codec (L C S : Type) where
  windowSize : Nat
  lookahead : Nat
  hopSize : Nat
  /-- A row of zeros. -/
  blank : C
  /-- The eager call on rows, the number of valid frames in their windows, and the frames of each: the rows after it
  and their audio windows. None when it raises. -/
  decodeStream : List (C × Nat × List L) → Option (List (C × List S))
  /-- `_decode_stream_window` on one row. -/
  decodeWindow : C → Option (List S)

inductive DotsError where
  /-- `dots.tts streaming vocoder admission failed: ran out of slots`. -/
  | outOfSlots
  /-- `dots.tts streaming step requires a uniform latent length`. -/
  | stepLengths
  /-- `dots.tts streaming step length must be positive`. -/
  | stepLength
  /-- `streaming step length … must be < window size …`. -/
  | stepWindow (length window : Nat)
  /-- `dots.tts streaming step referenced free slot …`. -/
  | stepFreeSlot (slot : Nat)
  /-- `dots.tts streaming flush referenced free slot …`. -/
  | flushFreeSlot (slot : Nat)
  /-- `Decoder stream window is too short for fixed-graph decoding.` -/
  | windowTooShort
  /-- What the network raises. -/
  | codec
  deriving DecidableEq

variable {L C S : Type}

structure Slot (C : Type) where
  kernel : C
  totalFrames : Nat
  emittedFrames : Nat
  deriving DecidableEq

/-- `DotsVocoderSlotPool`. -/
structure SlotPool (C : Type) where
  slots : Nat → Slot C
  /-- The next one to be handed out first. -/
  freeSlots : List Nat
  inUse : Finset Nat

section
variable (codec : Codec L C S)

def Slot.blank : Slot C := ⟨codec.blank, 0, 0⟩

namespace SlotPool

def create (numSlots : Nat) : SlotPool C where
  slots := fun _ => Slot.blank codec
  freeSlots := List.range numSlots
  inUse := ∅

def setSlot (p : SlotPool C) (slot : Nat) (v : Slot C) : SlotPool C :=
  { p with slots := Function.update p.slots slot v }

/-- `_reset_slot`. -/
def resetSlot (p : SlotPool C) (slot : Nat) : SlotPool C := p.setSlot slot (Slot.blank codec)

end SlotPool

def acquire : EStateM DotsError (SlotPool C) Nat := do
  let p ← get
  match p.freeSlots with
  | [] => throw .outOfSlots
  | slot :: rest => do
    set { p.resetSlot codec slot with freeSlots := rest, inUse := insert slot p.inUse }
    pure slot

def release (slot : Nat) : EStateM DotsError (SlotPool C) Unit :=
  modify fun p =>
    if slot ∈ p.inUse then
      { p.resetSlot codec slot with freeSlots := slot :: p.freeSlots, inUse := p.inUse.erase slot }
    else p

/-- `_slice_audio`. -/
def sliceAudio (slot : Nat) (window : List S) (final : Bool) : EStateM DotsError (SlotPool C) (List S) := do
  let p ← get
  let row := p.slots slot
  let stableEnd := if final then row.totalFrames else row.totalFrames - codec.lookahead
  if stableEnd ≤ row.emittedFrames then pure []
  else
    let windowStart := row.totalFrames - min row.totalFrames codec.windowSize
    if row.emittedFrames < windowStart then throw .windowTooShort
    else
      set (p.setSlot slot { row with emittedFrames := stableEnd })
      pure ((window.take ((stableEnd - windowStart) * codec.hopSize)).drop
        ((row.emittedFrames - windowStart) * codec.hopSize))

/-- The counting and slicing at the end of a step. -/
def sliceAll (stepT : Nat) : List (Nat × List S) → EStateM DotsError (SlotPool C) (List (Nat × List S))
  | [] => pure []
  | (slot, window) :: rest => do
    modify fun p => p.setSlot slot { p.slots slot with totalFrames := (p.slots slot).totalFrames + stepT }
    let audio ← sliceAudio codec slot window false
    let out ← sliceAll stepT rest
    pure ((slot, audio) :: out)

/-- The rows as the network left them. -/
def SlotPool.setKernels (p : SlotPool C) : List (Nat × C) → SlotPool C
  | [] => p
  | (slot, kernel) :: rest => SlotPool.setKernels (p.setSlot slot { p.slots slot with kernel }) rest

/-- What the network is given for a slot. -/
def kernelInput (p : SlotPool C) (entry : Nat × List L) : C × Nat × List L :=
  ((p.slots entry.1).kernel, min (p.slots entry.1).totalFrames codec.windowSize, entry.2)

/-- What `step` asks of its latents. -/
def checkStep (p : SlotPool C) (slotLatents : List (Nat × List L)) (stepT : Nat) : Except DotsError Unit :=
  if slotLatents.any fun entry => entry.2.length ≠ stepT then .error .stepLengths
  else if stepT < 1 then .error .stepLength
  else if codec.windowSize ≤ stepT then .error (.stepWindow stepT codec.windowSize)
  else
    match slotLatents.find? fun entry => entry.1 ∉ p.inUse with
    | some (slot, _) => .error (.stepFreeSlot slot)
    | none => .ok ()

/-- `step`, on slots and their latents. -/
def SlotPool.step (slotLatents : Dict Nat (List L)) : EStateM DotsError (SlotPool C) (Dict Nat (List S)) := do
  match slotLatents.entries with
  | [] => pure ∅
  | (slot, latents) :: rest => do
    let p ← get
    fromExcept id (checkStep codec p ((slot, latents) :: rest) latents.length)
    match codec.decodeStream (((slot, latents) :: rest).map (kernelInput codec p)) with
    | none => throw .codec
    | some rows => do
      set (p.setKernels (slotLatents.keys.zip (rows.map Prod.fst)))
      let out ← sliceAll codec latents.length (slotLatents.keys.zip (rows.map Prod.snd))
      pure (out.foldl (fun d entry => d.set entry.1 entry.2) ∅)

def flush (slot : Nat) : EStateM DotsError (SlotPool C) (List S) := do
  let p ← get
  if slot ∈ p.inUse then
    match codec.decodeWindow (p.slots slot).kernel with
    | none => throw .codec
    | some window => sliceAudio codec slot window true
  else throw (.flushFreeSlot slot)

end

end SglangOmni.Models.Dots
