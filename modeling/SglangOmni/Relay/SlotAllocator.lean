import SglangOmni.Lib.Bits
import SglangOmni.Lib.Dict
import SglangOmni.Lib.History
import Mathlib.Order.Interval.Finset.Nat

/-! The contiguous slot allocator of the CUDA IPC relay.

A pool of `slotCount` slots, handed out as runs of adjacent slots found first
fit. A call that finds no run clears one shared event and waits on it; every
release sets it. The critical section of `acquire_async` never suspends, so the
lock around it is never contended and one pass of the loop is one step.

The allocator keeps a free map and a counter and nothing else: it does not know
which runs it handed out. What was handed out is a ghost list here (`State.live`),
and each allocation remembers which of its slots have been released since. -/
namespace SglangOmni.Relay.SlotAllocator
open Lib

/-! ### The allocator -/

/-- An `asyncio.Event`: its flag, and the tasks whose waiter is still pending. -/
structure Event where
  value : Bool
  parked : List Nat
  deriving DecidableEq

/-- Setting a clear event wakes every pending waiter; setting a set one does nothing. -/
def Event.set (e : Event) : Event := if e.value then e else ⟨true, []⟩

def Event.clear (e : Event) : Event := {e with value := false}

/-- `wait` on a clear event: the task is parked until the next `set`. -/
def Event.wait (e : Event) (task : Nat) : Event := {e with parked := e.parked ++ [task]}

/-- A cancelled waiter leaves the event. -/
def Event.leave (e : Event) (task : Nat) : Event := {e with parked := e.parked.filter (· ≠ task)}

/-- Slot counts and sizes the constructor accepts. -/
structure Geometry where
  slotCount : Nat
  slotSize : Nat
  slotCount_pos : 0 < slotCount
  slotSize_pos : 0 < slotSize

structure Pool (g : Geometry) where
  free : List Bool
  freeSlots : Int
  changed : Event
  deriving DecidableEq

def Pool.create (g : Geometry) : Pool g :=
  ⟨List.replicate g.slotCount true, g.slotCount, ⟨true, []⟩⟩

/-- The scan of `_find_contiguous` from `index` on, with the run it is in. -/
def findContiguousFrom (numSlots : Nat) : List Bool → Nat → Nat → Nat → Option Nat
  | [], _, _, _ => none
  | true :: rest, index, runStart, runLen =>
    let runStart := if runLen = 0 then index else runStart
    if runLen + 1 = numSlots then some runStart
    else findContiguousFrom numSlots rest (index + 1) runStart (runLen + 1)
  | false :: rest, index, runStart, _ => findContiguousFrom numSlots rest (index + 1) runStart 0

def findContiguous (free : List Bool) (numSlots : Nat) : Option Nat :=
  findContiguousFrom numSlots free 0 0 0

structure SlotLayout where
  slotIndex : Option Nat
  freeSlots : Nat
  largestFreeRun : Nat
  freeRuns : Nat
  deriving DecidableEq

/-- The locals of the layout scan: the layout so far and the run it is in. -/
structure LayoutScan where
  layout : SlotLayout
  inRun : Bool
  runStart : Nat
  runLen : Nat

def LayoutScan.visit (numSlots : Nat) (l : LayoutScan) (index : Nat) (isFree : Bool) : LayoutScan :=
  if isFree then
    let runStart := if l.inRun then l.runStart else index
    let runLen := if l.inRun then l.runLen + 1 else 1
    { layout :=
        { slotIndex := if l.layout.slotIndex = none ∧ numSlots ≤ runLen then some runStart
            else l.layout.slotIndex
          freeSlots := l.layout.freeSlots + 1
          largestFreeRun := max l.layout.largestFreeRun runLen
          freeRuns := if l.inRun then l.layout.freeRuns else l.layout.freeRuns + 1 }
      inRun := true, runStart := runStart, runLen := runLen }
  else {l with inRun := false, runLen := 0}

def findContiguousWithLayout (free : List Bool) (numSlots : Nat) : SlotLayout :=
  ((free.zipIdx).foldl (fun l e => l.visit numSlots e.2 e.1)
    (⟨⟨none, 0, 0, 0⟩, false, 0, 0⟩ : LayoutScan)).layout

structure SlotAllocation where
  offset : Nat
  waitRounds : Nat
  freeSlotsBefore : Int
  largestFreeRunBefore : Int
  freeRunsBefore : Int
  lastFailedFreeSlots : Int
  lastFailedLargestFreeRun : Nat
  lastFailedFreeRuns : Nat
  deriving DecidableEq

/-- The locals of one `acquire_async` call. -/
structure Call where
  numSlots : Nat
  captureLayout : Bool
  waitRounds : Nat
  lastFailedFreeSlots : Int
  lastFailedLargestFreeRun : Nat
  lastFailedFreeRuns : Nat
  deriving DecidableEq

inductive Error where
  | numSlotsNotPositive
  | exceedsPool (numSlots : Int) (slotCount : Nat)
  | offsetNotAligned
  | outsidePool
  | releasedTwice
  deriving DecidableEq

def Error.message : Error → String
  | .numSlotsNotPositive => "num_slots must be positive"
  | .exceedsPool n count => s!"allocation requires {n} slots, but pool has {count}"
  | .offsetNotAligned => "offset must be slot aligned"
  | .outsidePool => "slot range is outside the pool"
  | .releasedTwice => "cuda_ipc slot released twice"

variable {g : Geometry}

/-- The checks `acquire_async` makes before its loop, and the loop's first locals. -/
def beginAcquire (g : Geometry) (numSlots : Int) (captureLayout : Bool) : Except Error Call :=
  if numSlots ≤ 0 then .error .numSlotsNotPositive
  else if numSlots > g.slotCount then .error (.exceedsPool numSlots g.slotCount)
  else .ok ⟨numSlots.toNat, captureLayout, 0, 0, 0, 0⟩

/-- One pass of the loop: an allocation, or the locals for the next pass with the
event cleared. The caller of a failed pass goes on to `wait`. -/
def acquirePass (p : Pool g) (c : Call) : (SlotAllocation ⊕ Call) × Pool g :=
  match findContiguous p.free c.numSlots with
  | some slotIndex =>
    let freeSlots := p.freeSlots - c.numSlots
    (.inl
      { offset := slotIndex * g.slotSize
        waitRounds := c.waitRounds
        freeSlotsBefore := p.freeSlots
        largestFreeRunBefore := -1
        freeRunsBefore := -1
        lastFailedFreeSlots := c.lastFailedFreeSlots
        lastFailedLargestFreeRun := c.lastFailedLargestFreeRun
        lastFailedFreeRuns := c.lastFailedFreeRuns },
      { free := setRange p.free slotIndex c.numSlots false
        freeSlots := freeSlots
        changed := if freeSlots = 0 then p.changed.clear else p.changed })
  | none =>
    let c := if c.captureLayout then
        let layout := findContiguousWithLayout p.free c.numSlots
        { c with
          lastFailedFreeSlots := p.freeSlots
          lastFailedLargestFreeRun := layout.largestFreeRun
          lastFailedFreeRuns := layout.freeRuns }
      else c
    (.inr {c with waitRounds := c.waitRounds + 1}, {p with changed := p.changed.clear})

/-- `release`: every check comes before the first write. -/
def release (p : Pool g) (offset numSlots : Int) : Except Error Unit × Pool g :=
  if numSlots ≤ 0 then (.error .numSlotsNotPositive, p)
  else if offset % g.slotSize ≠ 0 then (.error .offsetNotAligned, p)
  else
    let slotIndex := offset / g.slotSize
    if slotIndex < 0 ∨ slotIndex + numSlots > g.slotCount then (.error .outsidePool, p)
    else if (List.range' slotIndex.toNat numSlots.toNat).any (fun i => p.free.getD i false) then
      (.error .releasedTwice, p)
    else
      (.ok (),
        { free := setRange p.free slotIndex.toNat numSlots.toNat true
          freeSlots := p.freeSlots + numSlots
          changed := p.changed.set })

/-! ### Tasks -/

/-- A run that was handed out, with those of its slots that a release has given
back since. -/
structure Allocation where
  start : Nat
  numSlots : Nat
  released : Finset Nat
  deriving DecidableEq

def Allocation.slots (a : Allocation) : Finset Nat := Finset.Ico a.start (a.start + a.numSlots)

def Allocation.held (a : Allocation) : Finset Nat := a.slots \ a.released

def Allocation.giveBack (range : Finset Nat) (a : Allocation) : Allocation :=
  {a with released := a.released ∪ (range ∩ a.slots)}

/-- The pool, the calls suspended in `wait` with their locals, and (ghost) the
allocations that still hold a slot. -/
structure State (g : Geometry) where
  pool : Pool g
  calls : Dict Nat Call
  live : List Allocation
  deriving DecidableEq

def State.create (g : Geometry) : State g := ⟨Pool.create g, ∅, []⟩

inductive Action where
  | acquire (task : Nat) (numSlots : Int) (captureLayout : Bool)
  | resume (task : Nat)
  | cancel (task : Nat)
  | release (offset numSlots : Int)
  deriving DecidableEq

/-- A pass made by a task; a failed pass clears the event and so always parks. -/
def attempt (s : State g) (task : Nat) (c : Call) : State g :=
  match acquirePass s.pool c with
  | (.inl a, pool) =>
    { pool := pool
      calls := s.calls.pop task
      live := ⟨a.offset / g.slotSize, c.numSlots, ∅⟩ :: s.live }
  | (.inr c, pool) =>
    {s with pool := {pool with changed := pool.changed.wait task}, calls := s.calls.set task c}

/-- The slots `[offset / slotSize, offset / slotSize + numSlots)`. -/
def slotRange (g : Geometry) (offset numSlots : Int) : Finset Nat :=
  Finset.Ico (offset / g.slotSize).toNat ((offset / g.slotSize).toNat + numSlots.toNat)

def giveBack (range : Finset Nat) (live : List Allocation) : List Allocation :=
  (live.map (Allocation.giveBack range)).filter (fun a => a.held ≠ ∅)

def step (s : State g) : Action → State g
  | .acquire task numSlots captureLayout =>
    -- A suspended task is not the one that makes a call.
    if s.calls.contains task then s
    else match beginAcquire g numSlots captureLayout with
      | .error _ => s
      | .ok c => attempt s task c
  | .resume task =>
    match s.calls.get? task with
    | some c => if task ∈ s.pool.changed.parked then s else attempt s task c
    | none => s
  | .cancel task =>
    { s with
      pool := {s.pool with changed := s.pool.changed.leave task}
      calls := s.calls.pop task }
  | .release offset numSlots =>
    match release s.pool offset numSlots with
    | (.ok (), pool) =>
      {s with pool := pool, live := giveBack (slotRange g offset numSlots) s.live}
    | (.error _, pool) => {s with pool := pool}

end SglangOmni.Relay.SlotAllocator
