import SglangOmni.Proto.Value

/-! References to data-plane objects, and their form on the wire.

`DataRef` is recursive: a reference to a stream chunk carries one for every tensor of the
chunk's metadata. The encoder leaves optional fields out; the decoder checks the type of
every field that is there. -/
namespace SglangOmni.Comm
open Proto

/-! ### Enumerations -/

inductive TransportKind where
  | localObject
  | cudaIpc
  | shm
  | mooncake
  deriving DecidableEq

def TransportKind.value : TransportKind → String
  | .localObject => "local_object"
  | .cudaIpc => "cuda_ipc"
  | .shm => "shm"
  | .mooncake => "mooncake"

def TransportKind.all : List TransportKind := [.localObject, .cudaIpc, .shm, .mooncake]

inductive DataKind where
  | stagePayload
  | streamChunk
  | streamMetadataTensor
  | kvPages
  | weightBucket
  | moeExpertPayload
  deriving DecidableEq

def DataKind.value : DataKind → String
  | .stagePayload => "stage_payload"
  | .streamChunk => "stream_chunk"
  | .streamMetadataTensor => "stream_metadata_tensor"
  | .kvPages => "kv_pages"
  | .weightBucket => "weight_bucket"
  | .moeExpertPayload => "moe_expert_payload"

def DataKind.all : List DataKind :=
  [.stagePayload, .streamChunk, .streamMetadataTensor, .kvPages, .weightBucket, .moeExpertPayload]

inductive DataLayout where
  | packedTensors
  | rawTensor
  | paged
  | bucketed
  | scatter
  deriving DecidableEq

def DataLayout.value : DataLayout → String
  | .packedTensors => "packed_tensors"
  | .rawTensor => "raw_tensor"
  | .paged => "paged"
  | .bucketed => "bucketed"
  | .scatter => "scatter"

def DataLayout.all : List DataLayout := [.packedTensors, .rawTensor, .paged, .bucketed, .scatter]

/-- The member of an enumeration with a value. -/
def member {κ : Type} (name : String) (all : List κ) (value : κ → String) (s : String) : Except PyError κ :=
  match all.find? fun k => value k = s with
  | none => .error (.valueError (s ++ " is not a valid " ++ name))
  | some k => .ok k

@[simp] theorem member_transport (k : TransportKind) (name : String) :
    member name TransportKind.all TransportKind.value k.value = .ok k := by
  cases k <;> rfl

@[simp] theorem member_kind (k : DataKind) (name : String) :
    member name DataKind.all DataKind.value k.value = .ok k := by
  cases k <;> rfl

@[simp] theorem member_layout (k : DataLayout) (name : String) :
    member name DataLayout.all DataLayout.value k.value = .ok k := by
  cases k <;> rfl

/-! ### Typed fields -/

def mustBe (key expected : String) (value : Value) : PyError :=
  .typeError (key ++ " must be " ++ expected ++ ", got " ++ value.typeName)

/-- `_required(value, key, str)`. -/
def requiredStr (d : Entries) (key : String) : Except PyError String := do
  match ← item d key with
  | .str s => .ok s
  | value => .error (mustBe key "str" value)

/-- `_required(value, key, int)`. -/
def requiredInt (d : Entries) (key : String) : Except PyError Int := do
  match ← item d key with
  | .int n => .ok n
  | value => .error (mustBe key "int" value)

/-- `_required(value, key, dict)`. -/
def requiredDict (d : Entries) (key : String) : Except PyError Entries := do
  match ← item d key with
  | .dict entries => .ok entries
  | value => .error (mustBe key "dict" value)

/-- `_required(value, key, list)`. -/
def requiredList (d : Entries) (key : String) : Except PyError (List Value) := do
  match ← item d key with
  | .list items => .ok items
  | value => .error (mustBe key "list" value)

/-- `_optional(value, key, str)`. -/
def optionalStr (d : Entries) (key : String) : Except PyError (Option String) :=
  match dictGet d key with
  | .none => .ok none
  | .str s => .ok (some s)
  | value => .error (mustBe key "str or None" value)

def ints (key : String) : List Value → Except PyError (List Int)
  | [] => .ok []
  | .int n :: rest => do
    let rest ← ints key rest
    .ok (n :: rest)
  | _ :: _ => .error (.typeError (key ++ " must be list[int]"))

/-- `_int_tuple`. -/
def intTuple (d : Entries) (key : String) : Except PyError (List Int) := do
  ints key (← requiredList d key)

/-- A field that is read only when it is there. -/
def whenPresent {β : Type} (d : Entries) (key : String) (read : Except PyError β) : Except PyError (Option β) :=
  if (d.lookup key).isSome then read.map some else .ok none

/-- The items of a list of dictionaries. -/
def asDict : Value → Except PyError Entries
  | .dict entries => .ok entries
  | value => .error (.typeError (value.typeName ++ " indices must be integers or slices, not str"))

/-! ### References -/

structure TensorMeta where
  path : String
  shape : List Int
  dtype : String
  device : String
  offset : Int
  size : Int
  deriving DecidableEq

def intList (l : List Int) : Value := .list (l.map .int)

def TensorMeta.toDict (t : TensorMeta) : Entries :=
  [("path", .str t.path), ("shape", intList t.shape), ("dtype", .str t.dtype), ("device", .str t.device),
    ("offset", .int t.offset), ("size", .int t.size)]

def TensorMeta.fromDict (value : Entries) : Except PyError TensorMeta := do
  let path ← requiredStr value "path"
  let shape ← intTuple value "shape"
  let dtype ← requiredStr value "dtype"
  let device ← requiredStr value "device"
  let offset ← requiredInt value "offset"
  let size ← requiredInt value "size"
  .ok { path, shape, dtype, device, offset, size }

structure BackendRef where
  transport : TransportKind
  info : Entries
  length : Int

def BackendRef.toDict (b : BackendRef) : Entries :=
  [("transport", .str b.transport.value), ("info", .dict b.info), ("length", .int b.length)]

def BackendRef.fromDict (value : Entries) : Except PyError BackendRef := do
  let transport ← member "TransportKind" TransportKind.all TransportKind.value (← requiredStr value "transport")
  let info ← requiredDict value "info"
  let length ← requiredInt value "length"
  .ok { transport, info, length }

/-- A `DataRef`; a `MetadataTensorRef` is its path with its reference. -/
structure DataRef where
  version : Int
  kind : DataKind
  objectId : String
  transport : TransportKind
  layout : DataLayout
  buffer : BackendRef
  header : Option String
  tensors : List TensorMeta
  shape : Option (List Int)
  dtype : Option String
  device : Option String
  offset : Option Int
  metadata : Option Entries
  metadataTensors : List (String × DataRef)

mutual

def DataRef.toDict : DataRef → Entries
  | ⟨version, kind, objectId, transport, layout, buffer, header, tensors, shape, dtype, device, offset,
      metadata, metadataTensors⟩ =>
    [("_type", .str "DataRef"), ("version", .int version), ("kind", .str kind.value),
      ("object_id", .str objectId), ("transport", .str transport.value), ("layout", .str layout.value),
      ("buffer", .dict buffer.toDict), ("tensors", .list (tensors.map fun t => .dict t.toDict)),
      ("metadata_tensors", .list (metadataTensorDicts metadataTensors))] ++
    entry "header" (header.map .str) ++ entry "shape" (shape.map intList) ++ entry "dtype" (dtype.map .str) ++
    entry "device" (device.map .str) ++ entry "offset" (offset.map .int) ++
    entry "metadata" (metadata.map .dict)

/-- `MetadataTensorRef.to_dict`, for each. -/
def metadataTensorDicts : List (String × DataRef) → List Value
  | [] => []
  | (path, ref) :: rest => .dict [("path", .str path), ("ref", .dict ref.toDict)] :: metadataTensorDicts rest

end

/-- What `MetadataTensorRef.from_dict` reads: the path, and the dictionary of the reference. -/
def pathAndRef (value : Value) : Except PyError (String × Entries) := do
  let entries ← asDict value
  let path ← requiredStr entries "path"
  let ref ← requiredDict entries "ref"
  .ok (path, ref)

variable {d : Entries} {key : String}

theorem item_ok {value : Value} (h : item d key = .ok value) :
    d.lookup key = some value := by
  unfold item at h
  split at h
  · cases h
  · next hv =>
    cases h
    exact hv

/-- A list that is a field is smaller than the dictionary. -/
theorem sizeOf_requiredList {items : List Value}
    (h : requiredList d key = .ok items) : sizeOf items < sizeOf d := by
  unfold requiredList at h
  cases hv : item d key with
  | error e =>
    rw [hv] at h
    cases h
  | ok value =>
    rw [hv] at h
    cases value with
    | list l =>
      cases h
      have := sizeOf_lookup (item_ok hv)
      simp only [Value.list.sizeOf_spec] at this
      omega
    | _ => cases h

theorem sizeOf_requiredDict {entries : Entries} (h : requiredDict d key = .ok entries) :
    sizeOf entries < sizeOf d := by
  unfold requiredDict at h
  cases hv : item d key with
  | error e =>
    rw [hv] at h
    cases h
  | ok value =>
    rw [hv] at h
    cases value with
    | dict l =>
      cases h
      have := sizeOf_lookup (item_ok hv)
      simp only [Value.dict.sizeOf_spec] at this
      omega
    | _ => cases h

theorem sizeOf_pathAndRef {value : Value} {path : String} {ref : Entries}
    (h : pathAndRef value = .ok (path, ref)) : sizeOf ref < sizeOf value := by
  unfold pathAndRef at h
  cases value with
  | dict entries =>
    simp only [asDict, bind, Except.bind] at h
    cases hp : requiredStr entries "path" with
    | error e =>
      rw [hp] at h
      cases h
    | ok p =>
      cases hr : requiredDict entries "ref" with
      | error e =>
        rw [hp, hr] at h
        cases h
      | ok r =>
        rw [hp, hr] at h
        cases h
        have := sizeOf_requiredDict hr
        simp only [Value.dict.sizeOf_spec]
        omega
  | _ => cases h

def typeTag (value : Entries) : Except PyError Unit := do
  if (← requiredStr value "_type") ≠ "DataRef" then .error (.valueError "data_ref must have _type='DataRef'")
  else .ok ()

def versionOf (value : Entries) : Except PyError Int := do
  let version ← requiredInt value "version"
  if version ≠ 1 then .error (.valueError ("unsupported DataRef version " ++ toString version)) else .ok version

def tensorMetas : List Value → Except PyError (List TensorMeta)
  | [] => .ok []
  | value :: rest => do
    let t ← TensorMeta.fromDict (← asDict value)
    let rest ← tensorMetas rest
    .ok (t :: rest)

mutual

def DataRef.fromDict (value : Entries) : Except PyError DataRef := do
  typeTag value
  let version ← versionOf value
  let kind ← member "DataKind" DataKind.all DataKind.value (← requiredStr value "kind")
  let objectId ← requiredStr value "object_id"
  let transport ← member "TransportKind" TransportKind.all TransportKind.value (← requiredStr value "transport")
  let layout ← member "DataLayout" DataLayout.all DataLayout.value (← requiredStr value "layout")
  let buffer ← BackendRef.fromDict (← requiredDict value "buffer")
  let header ← optionalStr value "header"
  let tensors ← tensorMetas (← requiredList value "tensors")
  let shape ← whenPresent value "shape" (intTuple value "shape")
  let dtype ← optionalStr value "dtype"
  let device ← optionalStr value "device"
  let offset ← whenPresent value "offset" (requiredInt value "offset")
  let metadata ← whenPresent value "metadata" (requiredDict value "metadata")
  match h : requiredList value "metadata_tensors" with
  | .error e => .error e
  | .ok items =>
    have := sizeOf_requiredList h
    let metadataTensors ← metadataTensorRefs items
    .ok { version, kind, objectId, transport, layout, buffer, header, tensors, shape, dtype, device, offset,
          metadata, metadataTensors }
termination_by sizeOf value

/-- `MetadataTensorRef.from_dict`, for each. -/
def metadataTensorRefs : List Value → Except PyError (List (String × DataRef))
  | [] => .ok []
  | value :: rest =>
    match h : pathAndRef value with
    | .error e => .error e
    | .ok (path, entries) => do
      have := sizeOf_pathAndRef h
      let ref ← DataRef.fromDict entries
      let rest ← metadataTensorRefs rest
      .ok ((path, ref) :: rest)
termination_by items => sizeOf items
decreasing_by
  · simp only [List.cons.sizeOf_spec]
    omega
  · clear * -
    simp only [List.cons.sizeOf_spec]
    omega

end

/-! ### Round trips -/

@[simp] theorem ints_map (key : String) (l : List Int) : ints key (l.map .int) = .ok l := by
  induction l with
  | nil => rfl
  | cons n rest ih => simp only [List.map_cons, ints, ih, bind, Except.bind]

/-- What the decoder finds under a key, by what is there. -/
theorem requiredStr_of {s : String} (h : d.lookup key = some (.str s)) :
    requiredStr d key = .ok s := by
  simp [requiredStr, item, h, bind, Except.bind]

theorem requiredInt_of {n : Int} (h : d.lookup key = some (.int n)) :
    requiredInt d key = .ok n := by
  simp [requiredInt, item, h, bind, Except.bind]

theorem requiredDict_of {entries : Entries} (h : d.lookup key = some (.dict entries)) :
    requiredDict d key = .ok entries := by
  simp [requiredDict, item, h, bind, Except.bind]

theorem requiredList_of {items : List Value}
    (h : d.lookup key = some (.list items)) : requiredList d key = .ok items := by
  simp [requiredList, item, h, bind, Except.bind]

theorem intTuple_of {l : List Int} (h : d.lookup key = some (intList l)) :
    intTuple d key = .ok l := by
  have hlist : requiredList d key = .ok (l.map .int) := requiredList_of h
  simp [intTuple, hlist, bind, Except.bind]

theorem optionalStr_of {s : Option String} (h : d.lookup key = s.map .str) : optionalStr d key = .ok s := by
  cases s with
  | none | some s => simp [optionalStr, dictGet, h]

theorem whenPresent_of {β : Type} {x : Option β} (toValue : β → Value)
    {read : Except PyError β} (h : d.lookup key = x.map toValue) (hread : ∀ b, x = some b → read = .ok b) :
    whenPresent d key read = .ok x := by
  cases x with
  | none => simp [whenPresent, h]
  | some b =>
    have hok : read = .ok b := hread b rfl
    simp [whenPresent, h, hok, Except.map]

theorem TensorMeta.fromDict_toDict (t : TensorMeta) : TensorMeta.fromDict t.toDict = .ok t := by
  have hpath : requiredStr t.toDict "path" = .ok t.path := requiredStr_of (by simp [toDict])
  have hshape : intTuple t.toDict "shape" = .ok t.shape := intTuple_of (by simp [toDict])
  have hdtype : requiredStr t.toDict "dtype" = .ok t.dtype := requiredStr_of (by simp [toDict])
  have hdevice : requiredStr t.toDict "device" = .ok t.device := requiredStr_of (by simp [toDict])
  have hoffset : requiredInt t.toDict "offset" = .ok t.offset := requiredInt_of (by simp [toDict])
  have hsize : requiredInt t.toDict "size" = .ok t.size := requiredInt_of (by simp [toDict])
  simp [TensorMeta.fromDict, hpath, hshape, hdtype, hdevice, hoffset, hsize, bind, Except.bind]

theorem BackendRef.fromDict_toDict (b : BackendRef) : BackendRef.fromDict b.toDict = .ok b := by
  have htransport : requiredStr b.toDict "transport" = .ok b.transport.value := requiredStr_of (by simp [toDict])
  have hinfo : requiredDict b.toDict "info" = .ok b.info := requiredDict_of (by simp [toDict])
  have hlength : requiredInt b.toDict "length" = .ok b.length := requiredInt_of (by simp [toDict])
  simp [BackendRef.fromDict, htransport, hinfo, hlength, bind, Except.bind]

theorem tensorMetas_map (tensors : List TensorMeta) :
    tensorMetas (tensors.map fun t => .dict t.toDict) = .ok tensors := by
  induction tensors with
  | nil => rfl
  | cons t rest ih =>
    simp only [List.map_cons, tensorMetas, asDict, TensorMeta.fromDict_toDict, ih, bind, Except.bind]

mutual

/-- The reference is of version 1, and so are the ones in it. -/
def DataRef.versioned : DataRef → Bool
  | ⟨version, _, _, _, _, _, _, _, _, _, _, _, _, metadataTensors⟩ =>
    version = 1 && allVersioned metadataTensors

def allVersioned : List (String × DataRef) → Bool
  | [] => true
  | (_, ref) :: rest => ref.versioned && allVersioned rest

end

theorem pathAndRef_dict (path : String) (ref : DataRef) :
    pathAndRef (.dict [("path", .str path), ("ref", .dict ref.toDict)]) = .ok (path, ref.toDict) := by
  simp [pathAndRef, asDict, requiredStr, requiredDict, item, bind, Except.bind]

mutual

theorem DataRef.fromDict_toDict : ∀ d : DataRef, d.versioned = true → DataRef.fromDict d.toDict = .ok d
  | ⟨version, kind, objectId, transport, layout, buffer, header, tensors, shape, dtype, device, offset,
      metadata, metadataTensors⟩, h => by
    simp only [DataRef.versioned, Bool.and_eq_true, decide_eq_true_eq] at h
    obtain ⟨rfl, hrefs⟩ := h
    have ih := metadataTensorRefs_dicts metadataTensors hrefs
    generalize hd : DataRef.toDict _ = d
    have hlookup : ∀ key, d.lookup key = (DataRef.toDict ⟨1, kind, objectId, transport, layout, buffer, header,
        tensors, shape, dtype, device, offset, metadata, metadataTensors⟩).lookup key := by
      intro key
      rw [← hd]
    simp only [DataRef.toDict, List.cons_append, List.nil_append, List.lookup_append, lookup_cons_literal,
      lookup_entry] at hlookup
    have htag : requiredStr d "_type" = .ok "DataRef" := requiredStr_of (by simp [hlookup])
    have hversion : requiredInt d "version" = .ok 1 := requiredInt_of (by simp [hlookup])
    have hkind : requiredStr d "kind" = .ok kind.value := requiredStr_of (by simp [hlookup])
    have hobject : requiredStr d "object_id" = .ok objectId := requiredStr_of (by simp [hlookup])
    have htransport : requiredStr d "transport" = .ok transport.value := requiredStr_of (by simp [hlookup])
    have hlayout : requiredStr d "layout" = .ok layout.value := requiredStr_of (by simp [hlookup])
    have hbuffer : requiredDict d "buffer" = .ok buffer.toDict := requiredDict_of (by simp [hlookup])
    have hheader : optionalStr d "header" = .ok header := optionalStr_of (by simp [hlookup])
    have htensors : requiredList d "tensors" = .ok (tensors.map fun t => .dict t.toDict) :=
      requiredList_of (by simp [hlookup])
    have hshape : whenPresent d "shape" (intTuple d "shape") = .ok shape :=
      whenPresent_of intList (by simp [hlookup]) fun b hb => intTuple_of (by simp [hlookup, hb])
    have hdtype : optionalStr d "dtype" = .ok dtype := optionalStr_of (by simp [hlookup])
    have hdevice : optionalStr d "device" = .ok device := optionalStr_of (by simp [hlookup])
    have hoffset : whenPresent d "offset" (requiredInt d "offset") = .ok offset :=
      whenPresent_of .int (by simp [hlookup]) fun b hb => requiredInt_of (by simp [hlookup, hb])
    have hmetadata : whenPresent d "metadata" (requiredDict d "metadata") = .ok metadata :=
      whenPresent_of .dict (by simp [hlookup]) fun b hb => requiredDict_of (by simp [hlookup, hb])
    have hitems : requiredList d "metadata_tensors" = .ok (metadataTensorDicts metadataTensors) :=
      requiredList_of (by simp [hlookup])
    rw [DataRef.fromDict]
    simp only [typeTag, versionOf, htag, hversion, hkind, hobject, htransport, hlayout, hbuffer, hheader, htensors,
      hshape, hdtype, hdevice, hoffset, hmetadata, member_kind, member_transport, member_layout,
      BackendRef.fromDict_toDict, tensorMetas_map, bind, Except.bind, ne_eq, not_true_eq_false, if_false]
    split
    · next e he =>
      rw [hitems] at he
      cases he
    · next items he =>
      rw [hitems] at he
      cases he
      simp only [ih]

theorem metadataTensorRefs_dicts : ∀ refs : List (String × DataRef), allVersioned refs = true →
    metadataTensorRefs (metadataTensorDicts refs) = .ok refs
  | [], _ => by rw [metadataTensorDicts, metadataTensorRefs]
  | (path, ref) :: rest, h => by
    simp only [allVersioned, Bool.and_eq_true] at h
    have href := DataRef.fromDict_toDict ref h.1
    have hrest := metadataTensorRefs_dicts rest h.2
    rw [metadataTensorDicts, metadataTensorRefs]
    split
    · next e he =>
      rw [pathAndRef_dict] at he
      cases he
    · next p entries he =>
      rw [pathAndRef_dict] at he
      cases he
      simp only [href, hrest, bind, Except.bind]

end

end SglangOmni.Comm
