import SglangOmni.Proto.Messages

/-! What arrives of a control message.

`codec`: a reference of version 1 is read back as it was; every message that can be encoded
can be decoded, and what arrives is the message, but for an empty map of replica bindings and
for what `msgspec` makes of the free dictionaries of a KV transfer. The encoder of a data
message and its decoder check the same conditions (`toDict_ok_iff`, `fromDict_accepts_iff`)
except for two: only the encoder looks at the replica bindings, and the decoder refuses a signal
that has a key `chunk_id`, whatever its value. -/
namespace SglangOmni.Proto
open Comm

theorem bind_ok_iff {α β : Type} {x : Except PyError α} {f : α → Except PyError β} {r : β} :
    (x >>= f) = .ok r ↔ ∃ a, x = .ok a ∧ f a = .ok r := by
  cases x with
  | error e => simp [bind, Except.bind]
  | ok a => simp [bind, Except.bind]

theorem map_ok_iff {α β : Type} {x : Except PyError α} {f : α → β} {r : β} :
    x.map f = .ok r ↔ ∃ a, x = .ok a ∧ f a = r := by
  cases x with
  | error e => simp [Except.map]
  | ok a => simp [Except.map]

variable {d : Entries} {value : Value}

theorem item_of {key : String} (h : d.lookup key = some value) :
    item d key = .ok value := by
  simp [item, h]

theorem dictGet_of {key : String} (h : d.lookup key = some value) :
    dictGet d key = value := by
  simp [dictGet, h]

/-! ### What the checks accept -/

namespace Value

/-- A non-empty string. -/
def isText : Value → Bool
  | .str s => s ≠ ""
  | _ => false

/-- A non-negative integer. -/
def isCount : Value → Bool
  | .int n => 0 ≤ n
  | _ => false

def isDict : Value → Bool
  | .dict _ => true
  | _ => false

theorem isNone_iff {value : Value} : value.isNone = true ↔ value = .none := by
  cases value <;> simp [isNone]

end Value

theorem requireStr_ok_iff {w : Value} {name : String} :
    requireStr value name = .ok w ↔ w = value ∧ value.isText = true := by
  cases value with
  | str s =>
    by_cases h : s = ""
    · simp [requireStr, Value.isText, h]
    · simp [requireStr, Value.isText, h, eq_comm]
  | _ => simp [requireStr, Value.isText]

theorem requireBool_ok_iff {name : String} {b : Bool} :
    requireBool value name = .ok b ↔ value = .bool b := by
  cases value <;> simp [requireBool]

theorem requireNonNegativeInt_ok_iff {w : Value} {name : String} :
    requireNonNegativeInt value name = .ok w ↔ w = value ∧ value.isCount = true := by
  cases value with
  | int n =>
    by_cases h : n < 0
    · simp [requireNonNegativeInt, Value.isCount, h]
    · simp [requireNonNegativeInt, Value.isCount, h, eq_comm, Int.not_lt.mp h]
  | _ => simp [requireNonNegativeInt, Value.isCount]

/-- A check that passes values on passes `None` on too. -/
theorem unlessNone_ok_iff {w : Value} {check : Except PyError Value} {p : Prop} (h : check = .ok w ↔ w = value ∧ p) :
    unlessNone value check = .ok w ↔ w = value ∧ (value = .none ∨ p) := by
  unfold unlessNone
  by_cases hn : value.isNone = true
  · have hv : value = .none := Value.isNone_iff.mp hn
    simp [hv, Value.isNone, eq_comm]
  · have hv : value ≠ .none := fun hv => hn (Value.isNone_iff.mpr hv)
    simp [hn, h, hv]

/-- What a data message may carry, whichever side looks. -/
def carriesRight (isDone : Bool) (error dataRef : Value) (hasChunkId : Bool) : Bool :=
  if isDone || !error.isNone then !(isDone && !error.isNone) && dataRef.isNone && !hasChunkId
  else dataRef.isDict

theorem checkSignal_ok_iff {subject : String} {isDone hasChunkId : Bool} {error dataRef : Value} {u : Unit} :
    checkSignal subject isDone error dataRef hasChunkId = .ok u ↔
      carriesRight isDone error dataRef hasChunkId = true := by
  unfold checkSignal carriesRight
  cases isDone <;> cases herror : error.isNone <;> cases hasChunkId <;> cases dataRef <;>
    simp [Value.isNone, Value.isDict]

/-! ### Data messages -/

/-- The fields of a dictionary, as they stand in it. -/
def DataReadyMessage.read (d : Entries) : DataReadyMessage where
  requestId := dictGet d "request_id"
  fromStage := dictGet d "from_stage"
  toStage := dictGet d "to_stage"
  dataRef := dictGet d "data_ref"
  chunkId := dictGet d "chunk_id"
  isDone := (d.lookup "is_done").getD (.bool false)
  error := dictGet d "error"
  replicaBindings := dictGet d "replica_bindings"

/-- What both sides ask of a message; they differ in what they call having a chunk id. -/
structure DataReadyMessage.WellFormed (m : DataReadyMessage) (isDone hasChunkId : Bool) : Prop where
  requestId : m.requestId.isText = true
  fromStage : m.fromStage.isText = true
  toStage : m.toStage.isText = true
  done : m.isDone = .bool isDone
  carries : carriesRight isDone m.error m.dataRef hasChunkId = true
  chunkId : m.chunkId = .none ∨ m.chunkId.isCount = true
  error : m.error = .none ∨ m.error.isText = true

/-- The encoded message. -/
def DataReadyMessage.encoded (m : DataReadyMessage) (isDone : Bool) (bindings : Entries) : Entries :=
  [("type", .str "data_ready"), ("request_id", m.requestId), ("from_stage", m.fromStage), ("to_stage", m.toStage)] ++
    entry "data_ref" (if m.dataRef.isNone then none else some m.dataRef) ++
    entry "chunk_id" (if m.chunkId.isNone then none else some m.chunkId) ++
    entry "is_done" (if isDone then some (.bool true) else none) ++
    entry "error" (if m.error.isNone then none else some m.error) ++ bindings

variable {m : DataReadyMessage}

theorem DataReadyMessage.toDict_ok_iff :
    m.toDict = .ok d ↔
      ∃ isDone bindings, m.WellFormed isDone (!m.chunkId.isNone) ∧
        bindingsEntry m.replicaBindings = .ok bindings ∧ d = m.encoded isDone bindings := by
  simp only [DataReadyMessage.toDict, bind_ok_iff, requireStr_ok_iff, requireBool_ok_iff, checkSignal_ok_iff,
    unlessNone_ok_iff requireStr_ok_iff, unlessNone_ok_iff requireNonNegativeInt_ok_iff]
  refine ⟨?_, ?_⟩
  · intro h
    obtain ⟨_, ⟨rfl, hrequest⟩, _, ⟨rfl, hfrom⟩, _, ⟨rfl, hto⟩, isDone, hdone, _, hcarries, _, ⟨rfl, hchunk⟩,
      _, ⟨rfl, herror⟩, bindings, hbindings, hd⟩ := h
    cases hd
    exact ⟨isDone, bindings, ⟨hrequest, hfrom, hto, hdone, hcarries, hchunk, herror⟩, hbindings, rfl⟩
  · intro h
    obtain ⟨isDone, bindings, hm, hbindings, rfl⟩ := h
    exact ⟨_, ⟨rfl, hm.requestId⟩, _, ⟨rfl, hm.fromStage⟩, _, ⟨rfl, hm.toStage⟩, isDone, hm.done, (), hm.carries,
      _, ⟨rfl, hm.chunkId⟩, _, ⟨rfl, hm.error⟩, bindings, hbindings, rfl⟩

theorem DataReadyMessage.fromDict_ok_iff :
    DataReadyMessage.fromDict d = .ok m ↔
      m = read d ∧ ∃ isDone, (read d).WellFormed isDone (d.lookup "chunk_id").isSome := by
  simp only [DataReadyMessage.fromDict, bind_ok_iff, requireStr_ok_iff, requireBool_ok_iff, checkSignal_ok_iff,
    unlessNone_ok_iff requireStr_ok_iff, unlessNone_ok_iff requireNonNegativeInt_ok_iff]
  refine ⟨?_, ?_⟩
  · intro h
    obtain ⟨_, ⟨rfl, hrequest⟩, _, ⟨rfl, hfrom⟩, _, ⟨rfl, hto⟩, isDone, hdone, _, ⟨rfl, herror⟩, _, hcarries,
      _, ⟨rfl, hchunk⟩, hm⟩ := h
    cases hm
    refine ⟨?_, isDone, ⟨hrequest, hfrom, hto, hdone, hcarries, hchunk, herror⟩⟩
    simp only [read, hdone]
  · intro h
    obtain ⟨rfl, isDone, hm⟩ := h
    refine ⟨_, ⟨rfl, hm.requestId⟩, _, ⟨rfl, hm.fromStage⟩, _, ⟨rfl, hm.toStage⟩, isDone, hm.done,
      _, ⟨rfl, hm.error⟩, (), hm.carries, _, ⟨rfl, hm.chunkId⟩, ?_⟩
    have hdone : (d.lookup "is_done").getD (.bool false) = .bool isDone := hm.done
    simp only [read, hdone]

/-- A signal whose dictionary has a key `chunk_id` all the same, with `None`. -/
def spareChunkId (d : Entries) : Prop :=
  d.lookup "chunk_id" = some .none ∧ ((d.lookup "is_done" = some (.bool true)) ∨ dictGet d "error" ≠ .none)

/-- The key is what tells the two sides' conditions apart. -/
theorem carriesRight_key_iff {isDone : Bool} (hdone : (d.lookup "is_done").getD (.bool false) = .bool isDone) :
    carriesRight isDone (dictGet d "error") (dictGet d "data_ref") (d.lookup "chunk_id").isSome = true ↔
      carriesRight isDone (dictGet d "error") (dictGet d "data_ref") (!(dictGet d "chunk_id").isNone) = true ∧
        ¬ spareChunkId d := by
  have hsignal : (isDone || !(dictGet d "error").isNone) = true ↔
      d.lookup "is_done" = some (.bool true) ∨ dictGet d "error" ≠ .none := by
    have herror : (dictGet d "error").isNone = false ↔ dictGet d "error" ≠ .none := by
      rw [← Bool.not_eq_true, Value.isNone_iff]
    cases hl : d.lookup "is_done" with
    | none | some value =>
      rw [hl] at hdone
      cases hdone
      simp [herror]
  unfold spareChunkId
  rw [← hsignal]
  cases hc : d.lookup "chunk_id" with
  | none => simp [dictGet, hc, Value.isNone]
  | some value =>
    by_cases hn : value = .none
    · cases hs : (isDone || !(dictGet d "error").isNone) with
      | false => simp [carriesRight, hs]
      | true => simp [carriesRight, hs, hn]
    · have hkey : (dictGet d "chunk_id").isNone = false := by
        rw [← Bool.not_eq_true, Value.isNone_iff, dictGet_of hc]
        exact hn
      simp [hkey, hn]

/-- The decoder accepts what the encoder accepts, but for the replica bindings, which only the
encoder looks at, and for a signal with a spare key. -/
theorem DataReadyMessage.fromDict_accepts_iff (d : Entries) :
    (∃ m, DataReadyMessage.fromDict d = .ok m) ↔
      (∃ e, { read d with replicaBindings := .none }.toDict = .ok e) ∧ ¬ spareChunkId d := by
  refine ⟨?_, ?_⟩
  · intro h
    obtain ⟨m, hm⟩ := h
    obtain ⟨_, isDone, hread⟩ := fromDict_ok_iff.mp hm
    obtain ⟨hcarries, hspare⟩ := (carriesRight_key_iff hread.done).mp hread.carries
    refine ⟨⟨_, toDict_ok_iff.mpr ⟨isDone, [], ⟨hread.requestId, hread.fromStage, hread.toStage, hread.done,
      hcarries, hread.chunkId, hread.error⟩, rfl, rfl⟩⟩, hspare⟩
  · intro h
    obtain ⟨⟨e, he⟩, hspare⟩ := h
    obtain ⟨isDone, _, hread, _, _⟩ := toDict_ok_iff.mp he
    have hcarries := (carriesRight_key_iff hread.done).mpr ⟨hread.carries, hspare⟩
    exact ⟨read d, fromDict_ok_iff.mpr ⟨rfl, isDone, ⟨hread.requestId, hread.fromStage, hread.toStage, hread.done,
      hcarries, hread.chunkId, hread.error⟩⟩⟩

/-! ### What arrives -/

/-- The bindings of a message on the other side: a map that is empty is left out. -/
def arrivedBindings (bindings : Value) : Value :=
  match bindingsEntry bindings with
  | .ok entries => dictGet entries "replica_bindings"
  | .error _ => .none

/-- A free dictionary on the other side. -/
def arrivedDict (rt : Runtime) (d : Entries) : Entries :=
  match rt.builtins d with
  | .ok entries => entries
  | .error _ => []

def Message.arrived (rt : Runtime) : Message → Message
  | .dataReady m => .dataReady { m with replicaBindings := arrivedBindings m.replicaBindings }
  | .submit m => .submit { m with replicaBindings := arrivedBindings m.replicaBindings }
  | .kvTransferPrepare m => .kvTransferPrepare { m with metadata := arrivedDict rt m.metadata }
  | .kvTransferReady m => .kvTransferReady { m with destinationRef := m.destinationRef.map (arrivedDict rt) }
  | m => m

/-- The data of a submit message that is no payload does not look like one. -/
def Message.untagged : Message → Bool
  | .submit { data := .other value, .. } => !tagged value
  | _ => true

theorem lookup_bindingsEntry {bindings : Value} {entries : Entries} (h : bindingsEntry bindings = .ok entries) :
    dictGet entries "replica_bindings" = arrivedBindings bindings := by
  simp only [arrivedBindings, h]

/-- The entry of the bindings has no other key. -/
theorem lookup_bindingsEntry_ne {bindings : Value} {entries : Entries} {key : String}
    (h : bindingsEntry bindings = .ok entries) (hkey : key ≠ "replica_bindings") : entries.lookup key = none := by
  unfold bindingsEntry at h
  split at h
  · obtain ⟨d, _, hd⟩ := bind_ok_iff.mp h
    cases hd
    simp [hkey]
  · cases h
    rfl

theorem DataReadyMessage.fromDict_toDict (h : m.toDict = .ok d) :
    DataReadyMessage.fromDict d = .ok { m with replicaBindings := arrivedBindings m.replicaBindings } := by
  obtain ⟨isDone, bindings, hm, hbindings, rfl⟩ := toDict_ok_iff.mp h
  have hother : ∀ key, key ≠ "replica_bindings" → bindings.lookup key = none :=
    fun key hkey => lookup_bindingsEntry_ne hbindings hkey
  have hnone : ∀ value : Value, (if value.isNone then none else some value).getD .none = value := by
    intro value
    cases value <;> rfl
  have hread : read (m.encoded isDone bindings) =
      { m with replicaBindings := arrivedBindings m.replicaBindings } := by
    have hdone := hm.done
    cases isDone <;>
      simp [read, encoded, dictGet, List.lookup_append, hother, hnone, hdone, ← lookup_bindingsEntry hbindings]
  have hkey : ((m.encoded isDone bindings).lookup "chunk_id").isSome = !m.chunkId.isNone := by
    cases hc : m.chunkId.isNone <;> simp [encoded, List.lookup_append, hother, hc]
  refine fromDict_ok_iff.mpr ⟨hread.symm, isDone, ?_⟩
  rw [hread, hkey]
  exact ⟨hm.requestId, hm.fromStage, hm.toStage, hm.done, hm.carries, hm.chunkId, hm.error⟩

theorem ackError_ok_iff {subject : String} {success : Bool} {error w : Value} :
    ackError subject success error = .ok w ↔
      w = error ∧ (if success then error.isNone = true else error.isText = true) := by
  unfold ackError
  cases success with
  | true =>
    cases error <;> simp [Value.isNone, eq_comm]
  | false => simp [requireStr_ok_iff]

theorem DataAckMessage.fromDict_toDict {m : DataAckMessage} (h : m.toDict = .ok d) :
    DataAckMessage.fromDict d = .ok m := by
  simp only [DataAckMessage.toDict, bind_ok_iff, requireStr_ok_iff, requireBool_ok_iff, ackError_ok_iff] at h
  obtain ⟨_, ⟨rfl, hrequest⟩, _, ⟨rfl, hfrom⟩, _, ⟨rfl, hto⟩, _, ⟨rfl, hobject⟩, success, hsuccess, _, ⟨rfl, herror⟩,
    hd⟩ := h
  cases hd
  simp only [DataAckMessage.fromDict, bind_ok_iff, requireStr_ok_iff, requireBool_ok_iff, ackError_ok_iff]
  have hget : (if m.error.isNone then none else some m.error).getD .none = m.error := by
    cases m.error <;> rfl
  refine ⟨success, by simp [dictGet], m.error, ⟨by simp [dictGet, hget], ?_⟩, m.requestId,
    ⟨by simp [dictGet], by simpa [dictGet] using hrequest⟩, m.fromStage,
    ⟨by simp [dictGet], by simpa [dictGet] using hfrom⟩, m.toStage, ⟨by simp [dictGet], by simpa [dictGet] using hto⟩,
    m.objectId, ⟨by simp [dictGet], by simpa [dictGet] using hobject⟩, ?_⟩
  · simpa [dictGet, hget] using herror
  · rw [← hsuccess]

theorem convertBuffers_map (buffers : List KVBufferSpec) :
    convertBuffers (buffers.map KVBufferSpec.toBuiltins) = .ok buffers := by
  induction buffers with
  | nil => rfl
  | cons b rest ih =>
    have hname : requiredStr [("name", .str b.name), ("bytes_per_page", .int b.bytesPerPage)] "name" = .ok b.name :=
      requiredStr_of (by simp)
    have hbytes : requiredInt [("name", .str b.name), ("bytes_per_page", .int b.bytesPerPage)] "bytes_per_page" =
        .ok b.bytesPerPage := requiredInt_of (by simp)
    simp only [List.map_cons, KVBufferSpec.toBuiltins, convertBuffers, asDict, hname, hbytes, bind, Except.bind]
    rw [ih]

theorem convertLayout_toBuiltins {l : KVPoolLayout} (h : l.toBuiltins = .dict d) :
    convertLayout d = .ok l := by
  cases h
  have hid : requiredStr [("layout_id", .str l.layoutId), ("page_size", .int l.pageSize),
      ("buffers", .list (l.buffers.map KVBufferSpec.toBuiltins))] "layout_id" = .ok l.layoutId :=
    requiredStr_of (by simp)
  have hsize : requiredInt [("layout_id", .str l.layoutId), ("page_size", .int l.pageSize),
      ("buffers", .list (l.buffers.map KVBufferSpec.toBuiltins))] "page_size" = .ok l.pageSize :=
    requiredInt_of (by simp)
  have hbuffers : requiredList [("layout_id", .str l.layoutId), ("page_size", .int l.pageSize),
      ("buffers", .list (l.buffers.map KVBufferSpec.toBuiltins))] "buffers" =
        .ok (l.buffers.map KVBufferSpec.toBuiltins) :=
    requiredList_of (by simp)
  simp only [convertLayout, hid, hsize, hbuffers, convertBuffers_map, bind, Except.bind]

theorem KVTransferPrepareMessage.fromDict_toDict {rt : Runtime} {m : KVTransferPrepareMessage}
    (h : m.toDict rt = .ok d) :
    KVTransferPrepareMessage.fromDict d = .ok { m with metadata := arrivedDict rt m.metadata } := by
  obtain ⟨metadata, hbuiltins, hd⟩ := bind_ok_iff.mp h
  have harrived : arrivedDict rt m.metadata = metadata := by simp only [arrivedDict, hbuiltins]
  obtain ⟨layout, hlayout⟩ : ∃ layout, m.sourceLayout.toBuiltins = .dict layout := ⟨_, rfl⟩
  cases hd
  generalize hd : [("type", Value.str "kv_transfer_prepare"), _, _, _, _, _, _, _, _, _] = d
  have hrequest : requiredStr d "request_id" = .ok m.requestId := requiredStr_of (by simp [← hd])
  have htransfer : requiredStr d "transfer_id" = .ok m.transferId := requiredStr_of (by simp [← hd])
  have hfrom : requiredStr d "from_stage" = .ok m.fromStage := requiredStr_of (by simp [← hd])
  have hto : requiredStr d "to_stage" = .ok m.toStage := requiredStr_of (by simp [← hd])
  have hsource : requiredStr d "source_pool_id" = .ok m.sourcePoolId := requiredStr_of (by simp [← hd])
  have htarget : requiredStr d "target_pool_id" = .ok m.targetPoolId := requiredStr_of (by simp [← hd])
  have hpages : intTuple d "source_page_indices" = .ok m.sourcePageIndices := intTuple_of (by simp [← hd])
  have hpool : requiredDict d "source_layout" = .ok layout := requiredDict_of (by simp [← hd, hlayout])
  have hmetadata : whenPresent d "metadata" (requiredDict d "metadata") = .ok (some metadata) := by
    refine whenPresent_of .dict (by simp [← hd]) ?_
    intro b hb
    cases hb
    exact requiredDict_of (by simp [← hd])
  simp only [fromDict, hrequest, htransfer, hfrom, hto, hsource, htarget, hpages, hpool, hmetadata, harrived,
    convertLayout_toBuiltins hlayout, bind, Except.bind, Option.getD_some]

theorem KVTransferReadyMessage.fromDict_toDict {rt : Runtime} {m : KVTransferReadyMessage} (h : m.toDict rt = .ok d) :
    KVTransferReadyMessage.fromDict d = .ok { m with destinationRef := m.destinationRef.map (arrivedDict rt) } := by
  obtain ⟨ref, hbuiltins, hd⟩ := bind_ok_iff.mp h
  have harrived : m.destinationRef.map (arrivedDict rt) = ref := by
    cases hr : m.destinationRef with
    | none =>
      rw [hr] at hbuiltins
      cases hbuiltins
      rfl
    | some entries =>
      rw [hr] at hbuiltins
      obtain ⟨sent, hsent, rfl⟩ := map_ok_iff.mp hbuiltins
      simp only [Option.map_some, arrivedDict, hsent]
  have hor : ∀ (key : String) (s : Option String) (e : Entries), e.lookup key = some (orNone (s.map .str)) →
      optionalStr e key = .ok s := by
    intro key s e he
    cases s <;> simp [optionalStr, dictGet, he, orNone]
  cases hd
  generalize hd : [("type", Value.str "kv_transfer_ready"), _, _, _, _, _, _, _, _, _] = d
  have hrequest : requiredStr d "request_id" = .ok m.requestId := requiredStr_of (by simp [← hd])
  have htransfer : requiredStr d "transfer_id" = .ok m.transferId := requiredStr_of (by simp [← hd])
  have hfrom : requiredStr d "from_stage" = .ok m.fromStage := requiredStr_of (by simp [← hd])
  have hto : requiredStr d "to_stage" = .ok m.toStage := requiredStr_of (by simp [← hd])
  have hsuccess : convertBool d "success" = .ok m.success := by
    simp [convertBool, item, ← hd, bind, Except.bind]
  have hpool : optionalStr d "destination_pool_id" = .ok m.destinationPoolId := hor _ _ _ (by simp [← hd])
  have hpages : whenPresent d "destination_page_indices" (intTuple d "destination_page_indices") =
      .ok (some m.destinationPageIndices) := by
    refine whenPresent_of intList (by simp [← hd]) ?_
    intro b hb
    cases hb
    exact intTuple_of (by simp [← hd])
  have href : optionalDict d "destination_ref" = .ok ref := by
    cases ref <;> simp [optionalDict, dictGet, ← hd, orNone]
  have herror : optionalStr d "error" = .ok m.error := hor _ _ _ (by simp [← hd])
  simp only [fromDict, hrequest, htransfer, hfrom, hto, hsuccess, hpool, hpages, href, herror, harrived, bind,
    Except.bind, Option.getD_some]

theorem StagePayload.fromDict_toDict (p : StagePayload) : StagePayload.fromDict p.toDict = .ok p := by
  have hrequest : OmniRequest.fromDict (.dict p.request.toDict) = .ok p.request := by
    simp [OmniRequest.fromDict, OmniRequest.toDict, asDict, dictGet, bind, Except.bind]
  simp [StagePayload.fromDict, StagePayload.toDict, dictGet, hrequest, bind, Except.bind]

theorem SubmitData.fromValue_toValue {data : SubmitData}
    (h : ∀ value, data = .other value → tagged value = false) : SubmitData.fromValue data.toValue = .ok data := by
  cases data with
  | payload p =>
    have htag : tagged (.dict p.toDict) = true := by simp [tagged, StagePayload.toDict]
    simp [toValue, fromValue, htag, StagePayload.fromDict_toDict, Except.map]
  | other value =>
    have htag := h value rfl
    cases value with
    | dict d => simp [toValue, fromValue, htag]
    | _ => rfl

theorem SubmitMessage.fromDict_toDict {m : SubmitMessage} (h : m.toDict = .ok d)
    (hdata : ∀ value, m.data = .other value → tagged value = false) :
    SubmitMessage.fromDict d = .ok { m with replicaBindings := arrivedBindings m.replicaBindings } := by
  obtain ⟨bindings, hbindings, hd⟩ := bind_ok_iff.mp h
  cases hd
  have hvalue : item ([("type", Value.str "submit"), ("request_id", m.requestId), ("data", m.data.toValue)] ++
      bindings) "data" = .ok m.data.toValue := item_of (by simp)
  have hrequest : item ([("type", Value.str "submit"), ("request_id", m.requestId), ("data", m.data.toValue)] ++
      bindings) "request_id" = .ok m.requestId := item_of (by simp)
  simp only [fromDict, hvalue, hrequest, SubmitData.fromValue_toValue hdata, ← lookup_bindingsEntry hbindings, bind,
    Except.bind]
  simp [dictGet]

theorem CompleteMessage.fromDict_toDict (m : CompleteMessage) : CompleteMessage.fromDict m.toDict = .ok m := by
  simp [CompleteMessage.fromDict, CompleteMessage.toDict, item, dictGet, bind, Except.bind]

theorem StreamMessage.fromDict_toDict (m : StreamMessage) : StreamMessage.fromDict m.toDict = .ok m := by
  have hchunk : (if m.chunkId.isNone then none else some m.chunkId).getD .none = m.chunkId := by
    cases m.chunkId <;> rfl
  simp [StreamMessage.fromDict, StreamMessage.toDict, item, dictGet, bind, Except.bind, hchunk]

theorem ProfilerStartMessage.fromDict_toDict (m : ProfilerStartMessage) :
    ProfilerStartMessage.fromDict m.toDict = .ok m := by
  simp [ProfilerStartMessage.fromDict, ProfilerStartMessage.toDict, item, dictGet, Value.truthy, bind, Except.bind]

/-- `dict(value or {})` of a dictionary is the dictionary. -/
theorem dictOrEmpty_dict (entries : Entries) : dictOrEmpty (.dict entries) = .ok entries := by
  cases entries <;> rfl

theorem AdminOperation.fromDict_toDict (rt : Runtime) (o : AdminOperation) :
    AdminOperation.fromDict rt (.dict o.toDict) = .ok o := by
  obtain ⟨opId, action, payload, targetStages, timeoutS⟩ := o
  cases targetStages with
  | none =>
    simp [AdminOperation.fromDict, AdminOperation.toDict, asDict, item, dictGet, bind, Except.bind, rt.str_str,
      dictOrEmpty_dict, orNone, Value.isNone]
  | some stages =>
    simp [AdminOperation.fromDict, AdminOperation.toDict, asDict, item, dictGet, bind, Except.bind, rt.str_str,
      dictOrEmpty_dict, orNone, Value.isNone, listOf, Except.map]

theorem AdminResult.fromDict_toDict (rt : Runtime) (r : AdminResult) :
    AdminResult.fromDict rt (.dict r.toDict) = .ok r := by
  have hmessage : rt.str (if Value.truthy (.str r.message) then .str r.message else .str "") = r.message := by
    by_cases h : r.message = ""
    · simp [Value.truthy, h, rt.str_str]
    · simp [Value.truthy, h, rt.str_str]
  simp [AdminResult.fromDict, AdminResult.toDict, asDict, item, dictGet, bind, Except.bind, rt.str_str,
    dictOrEmpty_dict, hmessage]
  simp [Value.truthy]

/-- Whatever can be encoded can be decoded. -/
theorem parseMessage_toDict {rt : Runtime} {m : Message} (h : m.toDict rt = .ok d)
    (hm : m.untagged = true) : parseMessage rt d = .ok (m.arrived rt) := by
  cases m with
  | dataReady m =>
    obtain ⟨_, _, _, _, hd⟩ := DataReadyMessage.toDict_ok_iff.mp h
    have htype : dictGet d "type" = .str "data_ready" := dictGet_of (by simp [hd, DataReadyMessage.encoded])
    simp only [parseMessage, htype, DataReadyMessage.fromDict_toDict h, Except.map, Message.arrived]
  | dataAck m =>
    have hback := DataAckMessage.fromDict_toDict h
    have htype : dictGet d "type" = .str "data_ack" := by
      simp only [Message.toDict, DataAckMessage.toDict, bind_ok_iff] at h
      obtain ⟨_, _, _, _, _, _, _, _, _, _, _, _, hd⟩ := h
      cases hd
      exact dictGet_of (by simp)
    simp only [parseMessage, htype, hback, Except.map, Message.arrived]
  | kvTransferPrepare m =>
    have hback := KVTransferPrepareMessage.fromDict_toDict h
    have htype : dictGet d "type" = .str "kv_transfer_prepare" := by
      obtain ⟨_, _, hd⟩ := bind_ok_iff.mp h
      cases hd
      exact dictGet_of (by simp)
    simp only [parseMessage, htype, hback, Except.map, Message.arrived]
  | kvTransferReady m =>
    have hback := KVTransferReadyMessage.fromDict_toDict h
    have htype : dictGet d "type" = .str "kv_transfer_ready" := by
      obtain ⟨_, _, hd⟩ := bind_ok_iff.mp h
      cases hd
      exact dictGet_of (by simp)
    simp only [parseMessage, htype, hback, Except.map, Message.arrived]
  | submit m =>
    have hdata : ∀ value, m.data = .other value → tagged value = false := by
      intro value hvalue
      obtain ⟨requestId, data, bindings⟩ := m
      cases hvalue
      simpa [Message.untagged] using hm
    have hback := SubmitMessage.fromDict_toDict h hdata
    have htype : dictGet d "type" = .str "submit" := by
      obtain ⟨_, _, hd⟩ := bind_ok_iff.mp h
      cases hd
      exact dictGet_of (by simp)
    simp only [parseMessage, htype, hback, Except.map, Message.arrived]
  | complete m =>
    cases h
    have htype : dictGet m.toDict "type" = .str "complete" := dictGet_of (by simp [CompleteMessage.toDict])
    simp only [parseMessage, htype, CompleteMessage.fromDict_toDict, Except.map, Message.arrived]
  | stream m =>
    cases h
    have htype : dictGet m.toDict "type" = .str "stream" := dictGet_of (by simp [StreamMessage.toDict])
    simp only [parseMessage, htype, StreamMessage.fromDict_toDict, Except.map, Message.arrived]
  | profilerStart m =>
    cases h
    have htype : dictGet m.toDict "type" = .str "profiler_start" :=
      dictGet_of (by simp [ProfilerStartMessage.toDict])
    simp only [parseMessage, htype, ProfilerStartMessage.fromDict_toDict, Except.map, Message.arrived]
  | abort requestId =>
    cases h
    simp [parseMessage, dictGet, item, Except.map, Message.arrived]
  | shutdown | profilerStop runId =>
    cases h
    simp [parseMessage, dictGet, Message.arrived]
  | admin operation =>
    cases h
    simp [parseMessage, dictGet, item, AdminOperation.fromDict_toDict, Message.arrived, bind, Except.bind]
  | adminResult result =>
    cases h
    simp [parseMessage, dictGet, item, AdminResult.fromDict_toDict, Message.arrived, bind, Except.bind]

/-- **Control message codec.** References of version 1 are read back as they were, at any depth.
Every message that can be encoded, and whose data is no dictionary that looks like a payload, can
be decoded, and what arrives is the message: the same if its bindings are a map with entries or
`None` and its free dictionaries are builtins, with `None` for an empty map. And the decoder of a
data message returns the fields of the dictionary, and accepts it just when the encoder accepts
the message of these fields, the bindings left aside, unless it is a signal with a spare key. -/
theorem codec (rt : Runtime) :
    (∀ ref : DataRef, ref.versioned = true → DataRef.fromDict ref.toDict = .ok ref) ∧
      (∀ (m : Message) (d : Entries), m.toDict rt = .ok d → m.untagged = true →
        parseMessage rt d = .ok (m.arrived rt)) ∧
      (∀ d m, DataReadyMessage.fromDict d = .ok m → m = DataReadyMessage.read d) ∧
      ∀ d, (∃ m, DataReadyMessage.fromDict d = .ok m) ↔
        (∃ e, { DataReadyMessage.read d with replicaBindings := .none }.toDict = .ok e) ∧ ¬ spareChunkId d := by
  refine ⟨DataRef.fromDict_toDict, ?_, ?_, DataReadyMessage.fromDict_accepts_iff⟩
  · intro m d h hm
    exact parseMessage_toDict h hm
  · intro d m h
    exact (DataReadyMessage.fromDict_ok_iff.mp h).1

/-- A runtime whose free dictionaries are builtins already. -/
def plainRuntime : Runtime where
  str
    | .str s => s
    | value => value.typeName
  str_str _ := rfl
  builtins := .ok

/-- The end of a stream with bindings, sent and read back. -/
theorem codec_done_signal :
    parseMessage plainRuntime
        [("type", .str "data_ready"), ("request_id", .str "r"), ("from_stage", .str "a"), ("to_stage", .str "b"),
          ("is_done", .bool true), ("replica_bindings", .dict [("b", .int 1)])] =
      .ok (.dataReady ⟨.str "r", .str "a", .str "b", .none, .none, .bool true, .none, .dict [("b", .int 1)]⟩) :=
  (codec plainRuntime).2.1
    (.dataReady ⟨.str "r", .str "a", .str "b", .none, .none, .bool true, .none, .dict [("b", .int 1)]⟩) _ rfl rfl

/-- A plain dictionary that looks like a payload arrives as one; bindings that are no map are
decoded and cannot be encoded; and a signal whose chunk id is given as `None` is refused. -/
theorem tagged_dict_arrives_as_payload :
    (∃ m d p, Message.toDict plainRuntime (.submit m) = .ok d ∧
      m.data = .other (.dict [("_type", .str "StagePayload")]) ∧
      parseMessage plainRuntime d = .ok (.submit { m with data := .payload p })) ∧
    (∃ d m e, DataReadyMessage.fromDict d = .ok m ∧ m.toDict = .error e) ∧
    ∃ d e, DataReadyMessage.fromDict d = .error e ∧ ∃ sent, (DataReadyMessage.read d).toDict = .ok sent := by
  refine ⟨?_, ?_, ?_⟩
  · exact ⟨⟨.str "r", .other (.dict [("_type", .str "StagePayload")]), .none⟩, _,
      ⟨.str "", ⟨.none, .dict [], .dict []⟩, .none⟩, rfl, rfl, rfl⟩
  · exact ⟨[("request_id", .str "r"), ("from_stage", .str "a"), ("to_stage", .str "b"), ("is_done", .bool true),
      ("replica_bindings", .int 5)], _, _, rfl, rfl⟩
  · exact ⟨[("request_id", .str "r"), ("from_stage", .str "a"), ("to_stage", .str "b"), ("is_done", .bool true),
      ("chunk_id", .none)], _, rfl, _, rfl⟩

end SglangOmni.Proto
