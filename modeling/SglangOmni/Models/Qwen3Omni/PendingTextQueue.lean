import SglangOmni.Lib.History
import SglangOmni.Lib.Raising
import Mathlib.Algebra.Order.Ring.Int

/-! The queue of future text rows of the Qwen3-Omni talker.

A queue keeps its rows as a head block with a cursor, a deque of later blocks and a count of the rows that are not yet
popped. Tensors are never written to, but a deque is, so queues live on a heap of deques: a copy has a deque of its own.
Rows that come to a queue that is not empty are moved to the device and the dtype of its rows. -/
namespace SglangOmni.Models.Qwen3Omni.PendingTextQueue
open Lib

/-! ### Tensors -/

/-- A row, with the device and the dtype of its tensor. -/
structure Row (D V : Type) where
  kind : D
  entries : List V
  deriving DecidableEq

/-- A 2-D tensor. -/
structure Batch (D V : Type) where
  kind : D
  width : Nat
  rows : List (List V)
  regular : ∀ row ∈ rows, row.length = width

/-- What is given as rows. -/
inductive Given (D V : Type) where
  | vector (kind : D) (entries : List V)
  | matrix (batch : Batch D V)
  /-- A tensor of no dimension, or of more than two. -/
  | other (dim : Nat)
  /-- It has no `detach`. -/
  | object

inductive Error where
  | typeError (text : String)
  | valueError (text : String)
  | indexError (text : String)
  | runtimeError (text : String)

/-- What is used of the tensor library. -/
structure Torch (D V : Type) where
  /-- `Tensor.to`, of one entry. -/
  convert : D → D → V → V
  /-- `torch.cat` with `dim=0`. -/
  cat : Batch D V → List (Batch D V) → Except String (Batch D V)
  cat_eq : ∀ first rest, (∀ b ∈ rest, b.kind = first.kind ∧ b.width = first.width) →
    ∃ whole, cat first rest = .ok whole ∧ whole.kind = first.kind ∧ whole.rows = first.rows ++ rest.flatMap Batch.rows

variable {D V : Type} (torch : Torch D V)

/-- Indexing of a sequence, from its end when the index is negative. -/
def index? {α : Type} (l : List α) (idx : Int) : Option α :=
  if 0 ≤ idx then l[idx.toNat]? else if 0 ≤ idx + l.length then l[(idx + l.length).toNat]? else none

namespace Batch

def toRows (b : Batch D V) : List (Row D V) := b.rows.map (Row.mk b.kind)

/-- `tensor[idx]`. -/
def getRow (b : Batch D V) (idx : Int) : Except Error (Row D V) :=
  match index? b.rows idx with
  | some entries => .ok ⟨b.kind, entries⟩
  | none => .error (.indexError s!"index {idx} is out of bounds for dimension 0 with size {b.rows.length}")

/-- `tensor[start:]`. -/
def drop (b : Batch D V) (start : Nat) : Batch D V where
  kind := b.kind
  width := b.width
  rows := b.rows.drop start
  regular row h := b.regular row (List.mem_of_mem_drop h)

/-- `tensor.to(device=…, dtype=…)`. -/
def toKind (b : Batch D V) (kind : D) : Batch D V where
  kind := kind
  width := b.width
  rows := b.rows.map (List.map (torch.convert b.kind kind))
  regular row h := by
    obtain ⟨row, hrow, rfl⟩ := List.mem_map.mp h
    rw [List.length_map]
    exact b.regular row hrow

end Batch

/-- `_as_rows`. -/
def asRows : Given D V → Except Error (Option (Batch D V))
  | .vector kind entries =>
    if entries.length = 0 then .ok none else .ok (some ⟨kind, entries.length, [entries], by simp⟩)
  | .matrix b =>
    if b.rows.length = 0 then .ok none
    else if b.width = 0 then .error (.valueError "pending text rows must have a non-empty hidden dimension")
    else .ok (some b)
  | .other _ => .error (.valueError "pending text rows must be a 1D row tensor or a 2D row batch")
  | .object => .error (.typeError "pending text rows must be tensors")

/-! ### The queue -/

/-- `PendingTextTensorQueue`. -/
structure Queue (D V : Type) where
  rows : Option (Batch D V) := none
  cursor : Nat := 0
  /-- Where the deque of the later blocks is. -/
  chunks : Nat
  pendingRows : Int

/-- A queue and the deques. -/
structure Mem (D V : Type) where
  self : Queue D V
  deques : List (List (Batch D V))

abbrev Program (D V α : Type) := EStateM Error (Mem D V) α

def Mem.chunks (m : Mem D V) : List (Batch D V) := m.deques[m.self.chunks]?.getD []

def Mem.setChunks (m : Mem D V) (chunks : List (Batch D V)) : Mem D V :=
  { m with deques := m.deques.set m.self.chunks chunks }

/-- `__post_init__`: the count. -/
def postInit (rows : Option (Batch D V)) (cursor : Nat) (chunks : List (Batch D V)) : Int :=
  let headRows : Int := match rows with
    | some rows => max 0 ((rows.rows.length : Int) - cursor)
    | none => 0
  headRows + (chunks.map fun chunk => (chunk.rows.length : Int)).sum

/-- A new object, whose deque has the blocks. -/
def create (deques : List (List (Batch D V))) (rows : Option (Batch D V)) (cursor : Nat) (chunks : List (Batch D V)) :
    Mem D V where
  self := { rows, cursor, chunks := deques.length, pendingRows := postInit rows cursor chunks }
  deques := deques ++ [chunks]

/-- `copy`. -/
def copy (m : Mem D V) : Mem D V := create m.deques m.self.rows m.self.cursor m.chunks

/-- `__len__`. -/
def len : Program D V Int := do
  let s ← get
  if s.self.pendingRows < 0 then throw (.valueError "__len__() should return >= 0") else pure s.self.pendingRows

/-- `__bool__`. -/
def bool : Program D V Bool := do
  let n ← len
  pure (decide (0 < n))

/-- `list(queue)`. -/
def iter : Program D V (List (Row D V)) := do
  let s ← get
  match s.self.rows with
  | none => pure []
  | some rows => pure ((rows.drop s.self.cursor).toRows ++ s.chunks.flatMap Batch.toRows)

/-- `queue[idx]`. -/
def getitem (idx : Int) : Program D V (Row D V) := do
  let s ← get
  match s.self.rows with
  | none => throw (.indexError (toString idx))
  | some rows =>
    if idx = 0 then fromExcept id (rows.getRow s.self.cursor)
    else if s.chunks.length = 0 then fromExcept id ((rows.drop s.self.cursor).getRow idx)
    else
      let whole ← fromExcept .runtimeError (torch.cat (rows.drop s.self.cursor) s.chunks)
      fromExcept id (whole.getRow idx)

/-- The head is consumed: the next block is promoted. -/
def promote (m : Mem D V) : Mem D V :=
  match m.self.rows with
  | none => m
  | some rows =>
    if rows.rows.length ≤ m.self.cursor then
      match m.chunks with
      | [] => { m with self := { m.self with rows := none, cursor := 0 } }
      | chunk :: rest => { m.setChunks rest with self := { m.self with rows := some chunk, cursor := 0 } }
    else m

def popleft : Program D V (Row D V) := do
  let row ← getitem torch 0
  modify fun m => { m with self := { m.self with cursor := m.self.cursor + 1, pendingRows := m.self.pendingRows - 1 } }
  modify promote
  pure row

/-- The rows become the head of the empty queue. -/
def restart (rows : Batch D V) (m : Mem D V) : Mem D V :=
  { m.setChunks [] with self := { m.self with rows := some rows, cursor := 0, pendingRows := rows.rows.length } }

/-- `append_rows`, of a tensor that has rows. -/
def appendBatch (rows : Batch D V) : Program D V Unit := do
  let s ← get
  match s.self.rows with
  | none => modify (restart rows)
  | some head =>
    let n ← len
    if n = 0 then modify (restart rows)
    else if rows.width ≠ head.width then
      throw (.valueError "pending text row hidden dimension must match the existing queue")
    else
      modify fun m =>
        { m.setChunks (m.chunks ++ [rows.toKind torch head.kind]) with
          self := { m.self with pendingRows := m.self.pendingRows + rows.rows.length } }

def appendRows (given : Given D V) : Program D V Unit := do
  match ← fromExcept id (asRows given) with
  | none => pure ()
  | some rows => appendBatch torch rows

def append (row : Given D V) : Program D V Unit := appendRows torch row

/-! ### Programs with queues -/

inductive Index where
  | int (idx : Int)
  /-- It is no `int`. -/
  | other

inductive Method (D V : Type) where
  | append (row : Given D V)
  | appendRows (rows : Given D V)
  | popleft
  | getitem (idx : Index)
  | iter
  | len
  | bool

inductive Answer (D V : Type) where
  | done
  | row (row : Row D V)
  | rows (rows : List (Row D V))
  | number (n : Int)
  | truth (b : Bool)
  deriving DecidableEq

def invoke : Method D V → Program D V (Answer D V)
  | .append row => do
    append torch row
    pure .done
  | .appendRows rows => do
    appendRows torch rows
    pure .done
  | .popleft => do
    let row ← popleft torch
    pure (.row row)
  | .getitem (.int idx) => do
    let row ← getitem torch idx
    pure (.row row)
  | .getitem .other => throw (.typeError "PendingTextTensorQueue indices must be integers")
  | .iter => do
    let rows ← iter
    pure (.rows rows)
  | .len => do
    let n ← len
    pure (.number n)
  | .bool => do
    let b ← bool
    pure (.truth b)

/-- What `coerce_pending_text_queue` is given. -/
inductive Source (D V : Type) where
  | none
  | queue (i : Nat)
  | tensor (tensor : Given D V)
  | iterable (items : List (Given D V))
  | object

inductive Op (D V : Type) where
  | fromTensor (tensor : Given D V)
  | coerce (value : Source D V)
  | copy (i : Nat)
  | call (i : Nat) (method : Method D V)

/-- What an operation comes to; nothing where there is no such queue. -/
abbrev Outcome (D V E : Type) := Option (Except E (Answer D V))

/-- The queues that a program holds, and the deques. -/
structure World (D V : Type) where
  queues : List (Queue D V) := []
  deques : List (List (Batch D V)) := []

/-- The new queue is held, unless making it raised. -/
def World.hold (s : World D V) : EStateM.Result Error (Mem D V) Unit → World D V × Outcome D V Error
  | .ok _ m => (⟨s.queues ++ [m.self], m.deques⟩, some (.ok .done))
  | .error exc m => (⟨s.queues, m.deques⟩, some (.error exc))

/-- `for row in value: queue.append(row)`. -/
def appendAll : List (Given D V) → Program D V Unit
  | [] => pure ()
  | row :: rest => do
    append torch row
    appendAll rest

/-- `from_tensor`. -/
def World.fromTensor (s : World D V) (tensor : Given D V) : World D V × Outcome D V Error :=
  s.hold (appendRows torch tensor (create s.deques none 0 []))

def World.copy (s : World D V) (i : Nat) : World D V × Outcome D V Error :=
  match s.queues[i]? with
  | none => (s, none)
  | some q => s.hold (.ok () (PendingTextQueue.copy ⟨q, s.deques⟩))

/-- `coerce_pending_text_queue`. -/
def World.coerce (s : World D V) : Source D V → World D V × Outcome D V Error
  | .none => s.hold (.ok () (create s.deques none 0 []))
  | .queue i => s.copy i
  | .tensor tensor => s.fromTensor torch tensor
  | .iterable items => s.hold (appendAll torch items (create s.deques none 0 []))
  | .object => (s, some (.error (.typeError ("pending text queue must be None, a tensor, a PendingTextTensorQueue, " ++
      "or an iterable of tensors"))))

def World.call (s : World D V) (i : Nat) (method : Method D V) : World D V × Outcome D V Error :=
  match s.queues[i]? with
  | none => (s, none)
  | some q =>
    match invoke torch method ⟨q, s.deques⟩ with
    | .ok answer m => (⟨s.queues.set i m.self, m.deques⟩, some (.ok answer))
    | .error exc m => (⟨s.queues.set i m.self, m.deques⟩, some (.error exc))

def step (s : World D V) : Op D V → World D V × Outcome D V Error
  | .fromTensor tensor => s.fromTensor torch tensor
  | .coerce value => s.coerce torch value
  | .copy i => s.copy i
  | .call i method => s.call torch i method

/-! ### The plain list -/

inductive ErrorClass where
  | typeError
  | valueError
  | indexError
  | runtimeError
  deriving DecidableEq

def Error.cls : Error → ErrorClass
  | .typeError _ => .typeError
  | .valueError _ => .valueError
  | .indexError _ => .indexError
  | .runtimeError _ => .runtimeError

/-- The rows that are given; there are none in an empty tensor. -/
def Given.rows : Given D V → Except ErrorClass (List (Row D V))
  | .vector kind entries => .ok (if entries.length = 0 then [] else [⟨kind, entries⟩])
  | .matrix b =>
    if b.rows.length = 0 then .ok [] else if b.width = 0 then .error .valueError else .ok b.toRows
  | .other _ => .error .valueError
  | .object => .error .typeError

/-- `Tensor.to`, of a row. -/
def Torch.row (kind : D) (row : Row D V) : Row D V := ⟨kind, row.entries.map (torch.convert row.kind kind)⟩

namespace Plain
variable (convert : D → Row D V → Row D V)

/-- Rows come to a FIFO list of rows; `convert` is what becomes of them where the list is not empty. -/
def extend : List (Row D V) → List (Row D V) → Except ErrorClass (List (Row D V))
  | l, [] => .ok l
  | [], rows => .ok rows
  | head :: l, row :: rows =>
    if row.entries.length ≠ head.entries.length then .error .valueError
    else .ok (head :: l ++ (row :: rows).map (convert head.kind))

def append (l : List (Row D V)) (given : Given D V) : Except ErrorClass (List (Row D V)) :=
  given.rows.bind (extend convert l)

def appendAll (l : List (Row D V)) : List (Given D V) → Except ErrorClass (List (Row D V))
  | [] => .ok l
  | row :: rest => (append convert l row).bind fun l => appendAll l rest

def call (l : List (Row D V)) : Method D V → Except ErrorClass (List (Row D V) × Answer D V)
  | .append row => (append convert l row).map (·, .done)
  | .appendRows rows => (append convert l rows).map (·, .done)
  | .popleft =>
    match l with
    | [] => .error .indexError
    | row :: rest => .ok (rest, .row row)
  | .getitem (.int idx) =>
    match index? l idx with
    | some row => .ok (l, .row row)
    | none => .error .indexError
  | .getitem .other => .error .typeError
  | .iter => .ok (l, .rows l)
  | .len => .ok (l, .number l.length)
  | .bool => .ok (l, .truth !l.isEmpty)

def hold (s : List (List (Row D V))) : Except ErrorClass (List (Row D V)) →
    List (List (Row D V)) × Outcome D V ErrorClass
  | .ok l => (s ++ [l], some (.ok .done))
  | .error cls => (s, some (.error cls))

def copy (s : List (List (Row D V))) (i : Nat) : List (List (Row D V)) × Outcome D V ErrorClass :=
  match s[i]? with
  | none => (s, none)
  | some l => hold s (.ok l)

def coerce (s : List (List (Row D V))) : Source D V → List (List (Row D V)) × Outcome D V ErrorClass
  | .none => hold s (.ok [])
  | .queue i => copy s i
  | .tensor tensor => hold s (append convert [] tensor)
  | .iterable items => hold s (appendAll convert [] items)
  | .object => (s, some (.error .typeError))

def step (s : List (List (Row D V))) : Op D V → List (List (Row D V)) × Outcome D V ErrorClass
  | .fromTensor tensor => hold s (append convert [] tensor)
  | .coerce value => coerce convert s value
  | .copy i => copy s i
  | .call i method =>
    match s[i]? with
    | none => (s, none)
    | some l =>
      match call convert l method with
      | .ok (l', answer) => (s.set i l', some (.ok answer))
      | .error cls => (s, some (.error cls))

end Plain

end SglangOmni.Models.Qwen3Omni.PendingTextQueue
