import SglangOmni.Comm.DataRef
import SglangOmni.Lib.Raising
import Mathlib.Algebra.Order.Group.Nat
import Mathlib.Data.Int.ModEq

/-! The packed buffer of a stage payload.

`_pack_tensors` lays the tensors of a payload one after the other, each at a multiple of its
element size, with zeros between them; `read_payload` slices the buffer by the entries. A
payload without tensors gets a buffer of one byte, since the relay carries no empty block.

Every tensor is first seen as bytes. A view under a smaller element size needs a dimension
and a last stride of 1, and `contiguous` leaves a tensor alone when it is contiguous up to
its dimensions of one element. -/
namespace SglangOmni.Comm.Packing
open Lib

/-! ### Tensors -/

/-- A tensor: its contents in row-major order, its element size and its strides. -/
structure Tensor where
  shape : List Nat
  strides : List Nat
  dtype : String
  elementSize : Nat
  device : String
  bytes : List UInt8
  elementSize_pos : 0 < elementSize
  length_bytes : bytes.length = shape.prod * elementSize

/-- The dimensions from the last one on, each of which continues the ones after it; a dimension
of one element has any stride. -/
def contiguousFrom : List (Nat × Nat) → Nat → Bool
  | [], _ => true
  | (size, stride) :: rest, expected =>
    if size = 1 then contiguousFrom rest expected
    else stride == expected && contiguousFrom rest (expected * size)

def Tensor.isContiguous (t : Tensor) : Bool :=
  t.shape.prod == 0 || contiguousFrom (t.shape.zip t.strides).reverse 1

/-- The last stride of `contiguous()`. -/
def Tensor.lastStride (t : Tensor) : Nat := if t.isContiguous then t.strides.getLast?.getD 1 else 1

/-- The tensor has a view as bytes. -/
def Tensor.Viewable (t : Tensor) : Prop := t.elementSize = 1 ∨ t.shape ≠ [] ∧ t.lastStride = 1

instance (t : Tensor) : Decidable t.Viewable := inferInstanceAs (Decidable (_ ∨ _))

inductive ViewError where
  | zeroDim
  | lastStride (stride : Nat)
  deriving DecidableEq

/-- `tensor.contiguous().view(torch.uint8).reshape(-1)`. -/
def Tensor.flat (t : Tensor) : Except ViewError (List UInt8) :=
  if t.elementSize = 1 then .ok t.bytes
  else if t.shape = [] then .error .zeroDim
  else if t.lastStride ≠ 1 then .error (.lastStride t.lastStride)
  else .ok t.bytes

/-! ### Packing -/

def padOffset (offset alignment : Nat) : Nat := (-(offset : Int) % (alignment : Int)).toNat

def Tensor.alignment (t : Tensor) : Nat := max t.elementSize 1

/-- The locals of `_pack_tensors`. -/
structure Layout where
  entries : List TensorMeta
  chunks : List (List UInt8)
  offset : Nat

def Layout.pad (l : Layout) (padding : Nat) : Layout :=
  if padding = 0 then l
  else { l with chunks := l.chunks ++ [List.replicate padding 0], offset := l.offset + padding }

def entryOf (path : String) (t : Tensor) (offset size : Nat) : TensorMeta :=
  { path, shape := t.shape.map Int.ofNat, dtype := t.dtype, device := t.device, offset, size }

def Layout.add (l : Layout) (path : String) (t : Tensor) (flat : List UInt8) : Layout :=
  { entries := l.entries ++ [entryOf path t l.offset flat.length]
    chunks := l.chunks ++ [flat]
    offset := l.offset + flat.length }

def packTensor (l : Layout) (e : String × Tensor) : Except ViewError Layout := do
  let flat ← e.2.flat
  return (l.pad (padOffset l.offset e.2.alignment)).add e.1 e.2 flat

def packTensors (tensors : Dict String Tensor) : Except ViewError (List UInt8 × List TensorMeta) := do
  let l ← tensors.entries.foldlM packTensor ⟨[], [], 0⟩
  let chunks := if l.chunks.isEmpty then l.chunks ++ [[0]] else l.chunks
  return (chunks.flatten, l.entries)

/-! ### Reading -/

/-- `_TORCH_DTYPES`, with the element sizes. -/
def torchDtypes : List (String × Nat) :=
  [("torch.bool", 1), ("torch.uint8", 1), ("torch.int8", 1), ("torch.int16", 2), ("torch.int32", 4),
    ("torch.int64", 8), ("torch.float16", 2), ("torch.bfloat16", 2), ("torch.float32", 4),
    ("torch.float64", 8), ("torch.complex64", 8), ("torch.complex128", 16)]

/-- Where a slice bound falls in a buffer; a negative one counts from the end. -/
def clampIndex (length : Nat) (index : Int) : Nat :=
  min length (if index < 0 then index + length else index).toNat

/-- `transfer_buf[entry.offset : entry.offset + entry.size]`. -/
def slice (buffer : List UInt8) (m : TensorMeta) : List UInt8 :=
  (buffer.take (clampIndex buffer.length (m.offset + m.size))).drop (clampIndex buffer.length m.offset)

inductive ReadError where
  | unsupportedDtype (dtype : String)
  | notViewable
  | notReshapable
  deriving DecidableEq

/-- What `read_payload` builds from an entry. -/
structure Restored where
  shape : List Int
  dtype : String
  bytes : List UInt8
  deriving DecidableEq

/-- The slice viewed as the dtype and reshaped. -/
def readTensor (buffer : List UInt8) (m : TensorMeta) : Except ReadError Restored :=
  match torchDtypes.lookup m.dtype with
  | none => .error (.unsupportedDtype m.dtype)
  | some size =>
    let bytes := slice buffer m
    if clampIndex buffer.length m.offset % size ≠ 0 ∨ bytes.length % size ≠ 0 then .error .notViewable
    else if (bytes.length / size : Nat) ≠ m.shape.prod then .error .notReshapable
    else .ok ⟨m.shape, m.dtype, bytes⟩

/-! ### The layout -/

/-- The entry of a tensor: the bytes of its interval are the tensor's, and reading gives the
tensor back when its dtype has a name on the wire. -/
structure Describes (buffer : List UInt8) (e : String × Tensor) (m : TensorMeta) : Prop where
  entry : ∃ offset : Nat, m = entryOf e.1 e.2 offset e.2.bytes.length
  aligned : (e.2.elementSize : Int) ∣ m.offset
  within : m.offset + m.size ≤ buffer.length
  bytes : slice buffer m = e.2.bytes
  read : torchDtypes.lookup e.2.dtype = some e.2.elementSize →
    readTensor buffer m = .ok ⟨e.2.shape.map Int.ofNat, e.2.dtype, e.2.bytes⟩

/-- A buffer and its entries lay out the tensors. -/
structure LaysOut (tensors : Dict String Tensor) (buffer : List UInt8) (entries : List TensorMeta) : Prop where
  nonempty : buffer ≠ []
  describes : List.Forall₂ (Describes buffer) tensors.entries entries
  disjoint : entries.Pairwise fun m n => m.offset + m.size ≤ n.offset

/-! ### Padding and slicing -/

theorem padOffset_dvd (offset : Nat) {alignment : Nat} (h : 0 < alignment) :
    alignment ∣ offset + padOffset offset alignment := by
  have hpos : (0 : Int) < alignment := Int.natCast_pos.mpr h
  have hnn := Int.emod_nonneg (-(offset : Int)) (ne_of_gt hpos)
  apply Int.natCast_dvd_natCast.mp
  rw [padOffset, Nat.cast_add, Int.toNat_of_nonneg hnn]
  refine ⟨-(-(offset : Int) / alignment), ?_⟩
  have := Int.mul_ediv_add_emod (-(offset : Int)) alignment
  rw [Int.mul_neg]
  omega

@[simp] theorem padOffset_zero (alignment : Nat) : padOffset 0 alignment = 0 := by simp [padOffset]

theorem clampIndex_of_le {length index : Nat} (h : index ≤ length) : clampIndex length index = index := by
  simp only [clampIndex]
  omega

variable {buffer : List UInt8}

theorem slice_entryOf (path : String) (t : Tensor) {offset size : Nat} (h : offset + size ≤ buffer.length) :
    slice buffer (entryOf path t offset size) = (buffer.take (offset + size)).drop offset := by
  show (buffer.take (clampIndex buffer.length ((offset + size : Nat) : Int))).drop
    (clampIndex buffer.length (offset : Int)) = _
  rw [clampIndex_of_le h, clampIndex_of_le (by omega)]

theorem prod_map_ofNat (shape : List Nat) : (shape.map Int.ofNat).prod = (shape.prod : Int) := by
  induction shape with
  | nil => rfl
  | cons n rest ih =>
    rw [List.map_cons, List.prod_cons, List.prod_cons, ih, Nat.cast_mul]
    rfl

theorem Tensor.flat_eq_ok (t : Tensor) (flat : List UInt8) : t.flat = .ok flat ↔ t.Viewable ∧ flat = t.bytes := by
  unfold Tensor.flat Tensor.Viewable
  by_cases hsize : t.elementSize = 1
  · simp [hsize, eq_comm]
  · by_cases hdim : t.shape = []
    · simp [hsize, hdim]
    · by_cases hstride : t.lastStride = 1
      · simp [hsize, hdim, hstride, eq_comm]
      · simp [hsize, hdim, hstride]

/-- An interval at a multiple of the element size that holds the tensor's bytes describes it. -/
theorem describes_of_bytes (path : String) (t : Tensor) {offset : Nat}
    (hdvd : t.elementSize ∣ offset) (hwithin : offset + t.bytes.length ≤ buffer.length)
    (hbytes : (buffer.take (offset + t.bytes.length)).drop offset = t.bytes) :
    Describes buffer (path, t) (entryOf path t offset t.bytes.length) where
  entry := by exact ⟨offset, rfl⟩
  aligned := by exact Int.natCast_dvd_natCast.mpr hdvd
  within := by
    show (offset : Int) + t.bytes.length ≤ buffer.length
    omega
  bytes := by rw [slice_entryOf path t hwithin, hbytes]
  read := by
    intro hd
    have hslice := (slice_entryOf path t hwithin).trans hbytes
    have hclamp : clampIndex buffer.length (entryOf path t offset t.bytes.length).offset = offset :=
      clampIndex_of_le (by omega)
    have hmod : t.bytes.length % t.elementSize = 0 := by rw [t.length_bytes, Nat.mul_mod_left]
    have hdiv : t.bytes.length / t.elementSize = t.shape.prod := by
      rw [t.length_bytes, Nat.mul_div_cancel _ t.elementSize_pos]
    have hd' : torchDtypes.lookup (entryOf path t offset t.bytes.length).dtype = some t.elementSize := hd
    simp only [readTensor, hd', hslice, hclamp]
    rw [if_neg (by simp [Nat.mod_eq_zero_of_dvd hdvd, hmod]), if_neg]
    · rfl
    · rw [hdiv]
      exact fun h => h (prod_map_ofNat t.shape).symm

/-- Bytes that are written later change no entry. -/
theorem Describes.append {e : String × Tensor} {m : TensorMeta}
    (h : Describes buffer e m) (rest : List UInt8) : Describes (buffer ++ rest) e m := by
  obtain ⟨offset, rfl⟩ := h.entry
  have hwithin : offset + e.2.bytes.length ≤ buffer.length := by
    have := h.within
    simp only [entryOf] at this
    omega
  apply describes_of_bytes e.1 e.2 (Int.natCast_dvd_natCast.mp h.aligned)
  · rw [List.length_append]
    omega
  · rw [List.take_append_of_le_length hwithin, ← slice_entryOf e.1 e.2 hwithin, h.bytes]

/-! ### The loop -/

/-- The layout of the tensors that were packed. -/
structure Layout.Holds (l : Layout) (done : List (String × Tensor)) : Prop where
  offset_eq : l.offset = l.chunks.flatten.length
  describes : List.Forall₂ (Describes l.chunks.flatten) done l.entries
  disjoint : l.entries.Pairwise fun m n => m.offset + m.size ≤ n.offset
  chunks_nil : l.chunks = [] ↔ done = []
  empty_iff : l.chunks.flatten = [] ↔ ∀ e ∈ done, e.2.bytes = []

theorem Layout.holds_nil : Layout.Holds ⟨[], [], 0⟩ [] where
  offset_eq := rfl
  describes := .nil
  disjoint := .nil
  chunks_nil := by simp
  empty_iff := by simp

theorem Layout.flatten_pad (l : Layout) (padding : Nat) :
    (l.pad padding).chunks.flatten = l.chunks.flatten ++ List.replicate padding 0 := by
  unfold Layout.pad
  split
  · next h => simp [h]
  · simp

theorem Layout.offset_pad (l : Layout) (padding : Nat) : (l.pad padding).offset = l.offset + padding := by
  unfold Layout.pad
  split
  · next h => simp [h]
  · rfl

theorem Layout.entries_pad (l : Layout) (padding : Nat) : (l.pad padding).entries = l.entries := by
  unfold Layout.pad
  split <;> rfl

variable {done : List (String × Tensor)}

theorem within_of_describes {entries : List TensorMeta} (h : List.Forall₂ (Describes buffer) done entries) :
    ∀ m ∈ entries, m.offset + m.size ≤ buffer.length := by
  induction h with
  | nil => exact fun _ h => (nomatch h)
  | cons he _ ih =>
    intro m hm
    obtain rfl | hm := List.mem_cons.mp hm
    · exact he.within
    · exact ih m hm

/-- One tensor more. -/
theorem Layout.Holds.add {l : Layout} (h : l.Holds done) (path : String) (t : Tensor) :
    ((l.pad (padOffset l.offset t.alignment)).add path t t.bytes).Holds (done ++ [(path, t)]) := by
  have halign : t.alignment = t.elementSize := Nat.max_eq_left t.elementSize_pos
  have hdvd := padOffset_dvd l.offset t.elementSize_pos
  have hflat : ((l.pad (padOffset l.offset t.alignment)).add path t t.bytes).chunks.flatten =
      (l.chunks.flatten ++ List.replicate (padOffset l.offset t.elementSize) 0) ++ t.bytes := by
    simp [Layout.add, Layout.flatten_pad, halign]
  have hlen : (l.chunks.flatten ++ List.replicate (padOffset l.offset t.elementSize) (0 : UInt8)).length =
      l.offset + padOffset l.offset t.elementSize := by
    rw [List.length_append, List.length_replicate, h.offset_eq]
  have hentries : ((l.pad (padOffset l.offset t.alignment)).add path t t.bytes).entries =
      l.entries ++ [entryOf path t (l.offset + padOffset l.offset t.elementSize) t.bytes.length] := by
    simp [Layout.add, Layout.entries_pad, Layout.offset_pad, halign]
  constructor
  · rw [hflat, List.length_append, hlen]
    show (l.pad _).offset + _ = _
    rw [Layout.offset_pad, halign]
  · rw [hflat, hentries]
    refine List.rel_append ?_ (.cons ?_ .nil)
    · refine h.describes.imp fun e m hm => ?_
      rw [List.append_assoc]
      exact hm.append _
    · refine describes_of_bytes path t hdvd ?_ ?_
      · rw [List.length_append, hlen]
      · rw [← hlen, ← List.length_append, List.take_length, List.drop_left]
  · rw [hentries, List.pairwise_append]
    refine ⟨h.disjoint, List.pairwise_singleton _ _, fun m hm n hn => ?_⟩
    rw [List.mem_singleton.mp hn]
    have := within_of_describes h.describes m hm
    have := h.offset_eq
    show m.offset + m.size ≤ ((l.offset + padOffset l.offset t.elementSize : Nat) : Int)
    omega
  · simp [Layout.add]
  · rw [hflat]
    constructor
    · intro hnil e he
      obtain ⟨hbefore, hbytes⟩ := List.append_eq_nil_iff.mp hnil
      obtain he | he := List.mem_append.mp he
      · exact h.empty_iff.mp (List.append_eq_nil_iff.mp hbefore).1 e he
      · rw [List.mem_singleton.mp he]
        exact hbytes
    · intro hall
      have hnil := h.empty_iff.mpr fun e he => hall e (List.mem_append_left _ he)
      have hbytes := hall (path, t) (List.mem_append_right _ (List.mem_singleton.mpr rfl))
      have hzero : l.offset = 0 := by rw [h.offset_eq, hnil, List.length_nil]
      rw [hnil, hzero, padOffset_zero]
      exact hbytes

theorem packTensor_of_viewable (l : Layout) {e : String × Tensor} (h : e.2.Viewable) :
    packTensor l e = .ok ((l.pad (padOffset l.offset e.2.alignment)).add e.1 e.2 e.2.bytes) := by
  rw [packTensor, (e.2.flat_eq_ok _).mpr ⟨h, rfl⟩]
  rfl

/-- The loop ends only when every tensor has a view as bytes. -/
theorem viewable_of_foldlM {l l' : Layout} {rest : List (String × Tensor)} (h : rest.foldlM packTensor l = .ok l') :
    ∀ e ∈ rest, e.2.Viewable := by
  induction rest generalizing l with
  | nil => exact fun _ h => (nomatch h)
  | cons e rest ih =>
    rw [List.foldlM_cons] at h
    obtain ⟨next, hnext, hrest⟩ := bind_eq_ok.mp h
    obtain ⟨flat, hflat, -⟩ := bind_eq_ok.mp hnext
    intro e' he'
    obtain rfl | he' := List.mem_cons.mp he'
    · exact ((e'.2.flat_eq_ok flat).mp hflat).1
    · exact ih hrest e' he'

theorem Layout.Holds.foldlM {l : Layout} (h : l.Holds done)
    {rest : List (String × Tensor)} (hview : ∀ e ∈ rest, e.2.Viewable) :
    ∃ l', rest.foldlM packTensor l = .ok l' ∧ l'.Holds (done ++ rest) := by
  induction rest generalizing l done with
  | nil => exact ⟨l, rfl, by rwa [List.append_nil]⟩
  | cons e rest ih =>
    obtain ⟨l', hl, hholds⟩ := ih (h.add e.1 e.2) fun e' he' => hview e' (List.mem_cons_of_mem e he')
    refine ⟨l', ?_, by rwa [List.append_assoc] at hholds⟩
    rw [List.foldlM_cons, packTensor_of_viewable l (hview e List.mem_cons_self)]
    exact hl

/-! ### The buffer -/

/-- What is returned once the loop is done. -/
theorem packTensors_eq {tensors : Dict String Tensor} {l : Layout}
    (h : tensors.entries.foldlM packTensor ⟨[], [], 0⟩ = .ok l) :
    packTensors tensors =
      .ok ((if l.chunks.isEmpty then l.chunks ++ [[0]] else l.chunks).flatten, l.entries) := by
  rw [packTensors, h]
  rfl

/-- **Packing lays the tensors out** in a buffer the relay can carry just when each of them has a view as
bytes and, unless there is no tensor, one of them is not empty. -/
theorem packTensors_laysOut_iff (tensors : Dict String Tensor) :
    (∃ buffer entries, packTensors tensors = .ok (buffer, entries) ∧ LaysOut tensors buffer entries) ↔
      (∀ e ∈ tensors.entries, e.2.Viewable) ∧
        (tensors.entries = [] ∨ ∃ e ∈ tensors.entries, e.2.bytes ≠ []) := by
  constructor
  · rintro ⟨buffer, entries, hpack, hlays⟩
    obtain ⟨l, hloop, -⟩ := bind_eq_ok.mp hpack
    have hview := viewable_of_foldlM hloop
    refine ⟨hview, ?_⟩
    obtain ⟨l', hl', hholds⟩ := Layout.holds_nil.foldlM hview
    rw [hloop] at hl'
    cases hl'
    rw [packTensors_eq hloop] at hpack
    cases hpack
    by_cases hnone : tensors.entries = []
    · exact Or.inl hnone
    · right
      have hchunks : l.chunks ≠ [] := fun hc => hnone (hholds.chunks_nil.mp hc)
      have hbuffer := hlays.nonempty
      rw [if_neg (by simpa using hchunks)] at hbuffer
      by_contra hall
      simp only [not_exists, not_and, not_not] at hall
      exact hbuffer (hholds.empty_iff.mpr hall)
  · rintro ⟨hview, hsome⟩
    obtain ⟨l, hloop, hholds⟩ := Layout.holds_nil.foldlM hview
    refine ⟨_, _, packTensors_eq hloop, ?_⟩
    by_cases hchunks : l.chunks = []
    · have hnone : tensors.entries = [] := hholds.chunks_nil.mp hchunks
      have hdesc := hholds.describes
      rw [List.nil_append, hnone, List.forall₂_nil_left_iff] at hdesc
      rw [hchunks, hdesc]
      exact ⟨List.cons_ne_nil _ _, by rw [hnone]; exact .nil, .nil⟩
    · rw [if_neg (by simpa using hchunks)]
      refine ⟨?_, hholds.describes, hholds.disjoint⟩
      obtain hnone | ⟨e, he, hbytes⟩ := hsome
      · exact absurd (hholds.chunks_nil.mpr hnone) hchunks
      · exact fun hnil => hbytes (hholds.empty_iff.mp hnil e he)

def emptyTensor : Tensor := ⟨[0], [1], "torch.float32", 4, "cpu", [], by decide, rfl⟩

def scalarTensor : Tensor := ⟨[], [], "torch.float32", 4, "cpu", [0, 0, 128, 63], by decide, rfl⟩

/-- A payload whose only tensor is empty gets an empty buffer, and one with a scalar tensor of
several bytes is refused. -/
theorem packTensors_fails :
    packTensors ((∅ : Dict String Tensor).set "mask" emptyTensor) =
        .ok ([], [⟨"mask", [0], "torch.float32", "cpu", 0, 0⟩]) ∧
      packTensors ((∅ : Dict String Tensor).set "scale" scalarTensor) = .error .zeroDim := ⟨rfl, rfl⟩

end SglangOmni.Comm.Packing
