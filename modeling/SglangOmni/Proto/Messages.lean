import SglangOmni.Comm.DataRef

/-! Control-plane messages, and their form on the wire.

A field that is checked when a message is encoded, or only passed on, is any value; a field
that the decoder converts has its declared type. What the codecs take from outside is the
`Runtime`: Python's `str`, and what `msgspec.to_builtins` makes of a dictionary of values
that it knows nothing about. -/
namespace SglangOmni.Proto
open Comm

structure Runtime where
  str : Value → String
  str_str : ∀ s, str (.str s) = s
  builtins : Entries → Except PyError Entries

/-! ### Checks -/

/-- `_require_str`. -/
def requireStr (value : Value) (name : String) : Except PyError Value :=
  match value with
  | .str s => if s = "" then .error (.typeError (name ++ " must be a non-empty str")) else .ok (.str s)
  | _ => .error (.typeError (name ++ " must be a non-empty str"))

/-- `_require_bool`. -/
def requireBool (value : Value) (name : String) : Except PyError Bool :=
  match value with
  | .bool b => .ok b
  | _ => .error (.typeError (name ++ " must be bool"))

/-- `_require_non_negative_int`. -/
def requireNonNegativeInt (value : Value) (name : String) : Except PyError Value :=
  match value with
  | .int n => if n < 0 then .error (.typeError (name ++ " must be a non-negative int")) else .ok (.int n)
  | _ => .error (.typeError (name ++ " must be a non-negative int"))

/-- A field that is checked unless it is `None`. -/
def unlessNone (value : Value) (check : Except PyError Value) : Except PyError Value :=
  if value.isNone then .ok .none else check

/-! ### Data messages -/

structure DataReadyMessage where
  requestId : Value
  fromStage : Value
  toStage : Value
  dataRef : Value
  chunkId : Value
  isDone : Value
  error : Value
  replicaBindings : Value

/-- A signal carries nothing, anything else carries its data. -/
def checkSignal (subject : String) (isDone : Bool) (error dataRef : Value) (hasChunkId : Bool) :
    Except PyError Unit :=
  if isDone && !error.isNone then .error (.valueError "stream signal cannot be both done and error")
  else if isDone || !error.isNone then
    if !dataRef.isNone then .error (.valueError "stream signal must not carry data_ref")
    else if hasChunkId then .error (.valueError "stream signal must not carry chunk_id")
    else .ok ()
  else
    match dataRef with
    | .dict _ => .ok ()
    | value => .error (.typeError (subject ++ " must be dict for data messages, got " ++ value.typeName))

/-- The entry of `replica_bindings`: an empty map is left out. -/
def bindingsEntry (bindings : Value) : Except PyError Entries :=
  if bindings.truthy then do
    let d ← dictOf bindings
    .ok [("replica_bindings", .dict d)]
  else .ok []

def DataReadyMessage.toDict (m : DataReadyMessage) : Except PyError Entries := do
  let requestId ← requireStr m.requestId "request_id"
  let fromStage ← requireStr m.fromStage "from_stage"
  let toStage ← requireStr m.toStage "to_stage"
  let isDone ← requireBool m.isDone "is_done"
  checkSignal "DataReadyMessage.data_ref" isDone m.error m.dataRef (!m.chunkId.isNone)
  let chunkId ← unlessNone m.chunkId (requireNonNegativeInt m.chunkId "chunk_id")
  let error ← unlessNone m.error (requireStr m.error "error")
  let bindings ← bindingsEntry m.replicaBindings
  .ok
    ([("type", .str "data_ready"), ("request_id", requestId), ("from_stage", fromStage), ("to_stage", toStage)] ++
      entry "data_ref" (if m.dataRef.isNone then none else some m.dataRef) ++
      entry "chunk_id" (if chunkId.isNone then none else some chunkId) ++
      entry "is_done" (if isDone then some (.bool true) else none) ++
      entry "error" (if error.isNone then none else some error) ++ bindings)

def DataReadyMessage.fromDict (d : Entries) : Except PyError DataReadyMessage := do
  let requestId ← requireStr (dictGet d "request_id") "request_id"
  let fromStage ← requireStr (dictGet d "from_stage") "from_stage"
  let toStage ← requireStr (dictGet d "to_stage") "to_stage"
  let dataRef := dictGet d "data_ref"
  let isDone ← requireBool ((d.lookup "is_done").getD (.bool false)) "is_done"
  let error ← unlessNone (dictGet d "error") (requireStr (dictGet d "error") "error")
  checkSignal "data_ready data_ref" isDone error dataRef (d.lookup "chunk_id").isSome
  let chunkId ← unlessNone (dictGet d "chunk_id") (requireNonNegativeInt (dictGet d "chunk_id") "chunk_id")
  .ok
    { requestId, fromStage, toStage, dataRef, chunkId, isDone := .bool isDone, error
      replicaBindings := dictGet d "replica_bindings" }

structure DataAckMessage where
  requestId : Value
  fromStage : Value
  toStage : Value
  objectId : Value
  success : Value
  error : Value

/-- The error of an ack: none with a success, a text with a failure. -/
def ackError (subject : String) (success : Bool) (error : Value) : Except PyError Value :=
  if success then
    if error.isNone then .ok .none
    else .error (.valueError ("successful " ++ subject ++ " must not carry error"))
  else requireStr error "error"

def DataAckMessage.toDict (m : DataAckMessage) : Except PyError Entries := do
  let requestId ← requireStr m.requestId "request_id"
  let fromStage ← requireStr m.fromStage "from_stage"
  let toStage ← requireStr m.toStage "to_stage"
  let objectId ← requireStr m.objectId "object_id"
  let success ← requireBool m.success "success"
  let error ← ackError "data ack" success m.error
  .ok
    ([("type", .str "data_ack"), ("request_id", requestId), ("from_stage", fromStage), ("to_stage", toStage),
      ("object_id", objectId), ("success", .bool success)] ++
      entry "error" (if error.isNone then none else some error))

def DataAckMessage.fromDict (d : Entries) : Except PyError DataAckMessage := do
  let success ← requireBool (dictGet d "success") "data_ack success"
  let error ← ackError "data_ack" success (dictGet d "error")
  let requestId ← requireStr (dictGet d "request_id") "request_id"
  let fromStage ← requireStr (dictGet d "from_stage") "from_stage"
  let toStage ← requireStr (dictGet d "to_stage") "to_stage"
  let objectId ← requireStr (dictGet d "object_id") "object_id"
  .ok { requestId, fromStage, toStage, objectId, success := .bool success, error }

/-! ### KV transfers -/

structure KVBufferSpec where
  name : String
  bytesPerPage : Int
  deriving DecidableEq

structure KVPoolLayout where
  layoutId : String
  pageSize : Int
  buffers : List KVBufferSpec
  deriving DecidableEq

structure KVTransferPrepareMessage where
  requestId : String
  transferId : String
  fromStage : String
  toStage : String
  sourcePoolId : String
  targetPoolId : String
  sourcePageIndices : List Int
  sourceLayout : KVPoolLayout
  metadata : Entries

structure KVTransferReadyMessage where
  requestId : String
  transferId : String
  fromStage : String
  toStage : String
  success : Bool
  destinationPoolId : Option String
  destinationPageIndices : List Int
  destinationRef : Option Entries
  error : Option String

def orNone (value : Option Value) : Value := value.getD .none

def KVBufferSpec.toBuiltins (b : KVBufferSpec) : Value :=
  .dict [("name", .str b.name), ("bytes_per_page", .int b.bytesPerPage)]

def KVPoolLayout.toBuiltins (l : KVPoolLayout) : Value :=
  .dict [("layout_id", .str l.layoutId), ("page_size", .int l.pageSize),
    ("buffers", .list (l.buffers.map KVBufferSpec.toBuiltins))]

def KVTransferPrepareMessage.toDict (rt : Runtime) (m : KVTransferPrepareMessage) : Except PyError Entries := do
  let metadata ← rt.builtins m.metadata
  .ok [("type", .str "kv_transfer_prepare"), ("request_id", .str m.requestId),
    ("transfer_id", .str m.transferId), ("from_stage", .str m.fromStage), ("to_stage", .str m.toStage),
    ("source_pool_id", .str m.sourcePoolId), ("target_pool_id", .str m.targetPoolId),
    ("source_page_indices", intList m.sourcePageIndices), ("source_layout", m.sourceLayout.toBuiltins),
    ("metadata", .dict metadata)]

/-- The dictionary of a field that may be `None`, as builtins. -/
def optionalBuiltins (rt : Runtime) : Option Entries → Except PyError (Option Entries)
  | none => .ok none
  | some d => (rt.builtins d).map some

def KVTransferReadyMessage.toDict (rt : Runtime) (m : KVTransferReadyMessage) : Except PyError Entries := do
  let destinationRef ← optionalBuiltins rt m.destinationRef
  .ok [("type", .str "kv_transfer_ready"), ("request_id", .str m.requestId),
    ("transfer_id", .str m.transferId), ("from_stage", .str m.fromStage), ("to_stage", .str m.toStage),
    ("success", .bool m.success), ("destination_pool_id", orNone (m.destinationPoolId.map .str)),
    ("destination_page_indices", intList m.destinationPageIndices),
    ("destination_ref", orNone (destinationRef.map .dict)), ("error", orNone (m.error.map .str))]

/-! `msgspec.convert` with `strict=True`, at the types of the two messages. -/

def convertBool (d : Entries) (key : String) : Except PyError Bool := do
  match ← item d key with
  | .bool b => .ok b
  | value => .error (mustBe key "bool" value)

def convertBuffers : List Value → Except PyError (List KVBufferSpec)
  | [] => .ok []
  | value :: rest => do
    let d ← asDict value
    let name ← requiredStr d "name"
    let bytesPerPage ← requiredInt d "bytes_per_page"
    let rest ← convertBuffers rest
    .ok ({ name, bytesPerPage } :: rest)

def convertLayout (d : Entries) : Except PyError KVPoolLayout := do
  let layoutId ← requiredStr d "layout_id"
  let pageSize ← requiredInt d "page_size"
  let buffers ← convertBuffers (← requiredList d "buffers")
  .ok { layoutId, pageSize, buffers }

def optionalDict (d : Entries) (key : String) : Except PyError (Option Entries) :=
  match dictGet d key with
  | .none => .ok none
  | .dict entries => .ok (some entries)
  | value => .error (mustBe key "dict or None" value)

def KVTransferPrepareMessage.fromDict (d : Entries) : Except PyError KVTransferPrepareMessage := do
  let requestId ← requiredStr d "request_id"
  let transferId ← requiredStr d "transfer_id"
  let fromStage ← requiredStr d "from_stage"
  let toStage ← requiredStr d "to_stage"
  let sourcePoolId ← requiredStr d "source_pool_id"
  let targetPoolId ← requiredStr d "target_pool_id"
  let sourcePageIndices ← intTuple d "source_page_indices"
  let sourceLayout ← convertLayout (← requiredDict d "source_layout")
  let metadata ← whenPresent d "metadata" (requiredDict d "metadata")
  .ok
    { requestId, transferId, fromStage, toStage, sourcePoolId, targetPoolId, sourcePageIndices, sourceLayout
      metadata := metadata.getD [] }

def KVTransferReadyMessage.fromDict (d : Entries) : Except PyError KVTransferReadyMessage := do
  let requestId ← requiredStr d "request_id"
  let transferId ← requiredStr d "transfer_id"
  let fromStage ← requiredStr d "from_stage"
  let toStage ← requiredStr d "to_stage"
  let success ← convertBool d "success"
  let destinationPoolId ← optionalStr d "destination_pool_id"
  let destinationPageIndices ← whenPresent d "destination_page_indices" (intTuple d "destination_page_indices")
  let destinationRef ← optionalDict d "destination_ref"
  let error ← optionalStr d "error"
  .ok
    { requestId, transferId, fromStage, toStage, success, destinationPoolId
      destinationPageIndices := destinationPageIndices.getD [], destinationRef, error }

/-! ### Requests -/

structure OmniRequest where
  inputs : Value
  params : Value
  metadata : Value

def OmniRequest.toDict (r : OmniRequest) : Entries :=
  [("_type", .str "OmniRequest"), ("inputs", r.inputs), ("params", r.params), ("metadata", r.metadata)]

def OmniRequest.fromDict (value : Value) : Except PyError OmniRequest := do
  let d ← asDict value
  .ok
    { inputs := dictGet d "inputs", params := (d.lookup "params").getD (.dict [])
      metadata := (d.lookup "metadata").getD (.dict []) }

/-- `StagePayload`, without the fields that are not part of the wire contract. -/
structure StagePayload where
  requestId : Value
  request : OmniRequest
  data : Value

def StagePayload.toDict (p : StagePayload) : Entries :=
  [("_type", .str "StagePayload"), ("request_id", p.requestId), ("request", .dict p.request.toDict),
    ("data", p.data)]

def StagePayload.fromDict (d : Entries) : Except PyError StagePayload := do
  let request ← OmniRequest.fromDict ((d.lookup "request").getD (.dict []))
  .ok { requestId := (d.lookup "request_id").getD (.str ""), request, data := dictGet d "data" }

inductive SubmitData where
  | payload (p : StagePayload)
  | other (value : Value)

structure SubmitMessage where
  requestId : Value
  data : SubmitData
  replicaBindings : Value

def SubmitData.toValue : SubmitData → Value
  | .payload p => .dict p.toDict
  | .other value => value

/-- The dictionary is tagged as a payload. -/
def tagged (value : Value) : Bool :=
  match value with
  | .dict d =>
    match d.lookup "_type" with
    | some (.str tag) => tag = "StagePayload"
    | _ => false
  | _ => false

def SubmitData.fromValue (value : Value) : Except PyError SubmitData :=
  match value with
  | .dict d => if tagged (.dict d) then (StagePayload.fromDict d).map .payload else .ok (.other (.dict d))
  | value => .ok (.other value)

def SubmitMessage.toDict (m : SubmitMessage) : Except PyError Entries := do
  let bindings ← bindingsEntry m.replicaBindings
  .ok ([("type", .str "submit"), ("request_id", m.requestId), ("data", m.data.toValue)] ++ bindings)

def SubmitMessage.fromDict (d : Entries) : Except PyError SubmitMessage := do
  let data ← SubmitData.fromValue (← item d "data")
  let requestId ← item d "request_id"
  .ok { requestId, data, replicaBindings := dictGet d "replica_bindings" }

structure CompleteMessage where
  requestId : Value
  fromStage : Value
  success : Value
  result : Value
  error : Value

def CompleteMessage.toDict (m : CompleteMessage) : Entries :=
  [("type", .str "complete"), ("request_id", m.requestId), ("from_stage", m.fromStage), ("success", m.success),
    ("result", m.result), ("error", m.error)]

def CompleteMessage.fromDict (d : Entries) : Except PyError CompleteMessage := do
  let requestId ← item d "request_id"
  let fromStage ← item d "from_stage"
  let success ← item d "success"
  .ok { requestId, fromStage, success, result := dictGet d "result", error := dictGet d "error" }

structure StreamMessage where
  requestId : Value
  fromStage : Value
  chunk : Value
  stageId : Value
  stageName : Value
  modality : Value
  chunkId : Value

def StreamMessage.toDict (m : StreamMessage) : Entries :=
  [("type", .str "stream"), ("request_id", m.requestId), ("from_stage", m.fromStage), ("chunk", m.chunk),
    ("stage_id", m.stageId), ("stage_name", m.stageName), ("modality", m.modality)] ++
    entry "chunk_id" (if m.chunkId.isNone then none else some m.chunkId)

def StreamMessage.fromDict (d : Entries) : Except PyError StreamMessage := do
  let requestId ← item d "request_id"
  let fromStage ← item d "from_stage"
  .ok
    { requestId, fromStage, chunk := dictGet d "chunk", stageId := dictGet d "stage_id"
      stageName := dictGet d "stage_name", modality := dictGet d "modality", chunkId := dictGet d "chunk_id" }

/-! ### Administration -/

structure ProfilerStartMessage where
  runId : Value
  tracePathTemplate : Value
  eventDir : Value
  enableTorch : Bool

def ProfilerStartMessage.toDict (m : ProfilerStartMessage) : Entries :=
  [("type", .str "profiler_start"), ("run_id", m.runId), ("trace_path_template", m.tracePathTemplate),
    ("event_dir", m.eventDir), ("enable_torch", .bool m.enableTorch)]

def ProfilerStartMessage.fromDict (d : Entries) : Except PyError ProfilerStartMessage := do
  let runId ← item d "run_id"
  let tracePathTemplate ← item d "trace_path_template"
  .ok
    { runId, tracePathTemplate, eventDir := dictGet d "event_dir"
      enableTorch := ((d.lookup "enable_torch").getD (.bool true)).truthy }

structure AdminOperation where
  opId : String
  action : String
  payload : Entries
  targetStages : Option (List Value)
  timeoutS : Value

def AdminOperation.toDict (o : AdminOperation) : Entries :=
  [("op_id", .str o.opId), ("action", .str o.action), ("payload", .dict o.payload),
    ("target_stages", orNone (o.targetStages.map .list)), ("timeout_s", o.timeoutS)]

/-- `dict(value or {})`. -/
def dictOrEmpty (value : Value) : Except PyError Entries := if value.truthy then dictOf value else .ok []

def AdminOperation.fromDict (rt : Runtime) (value : Value) : Except PyError AdminOperation := do
  let data ← asDict value
  let targetStages := dictGet data "target_stages"
  let opId ← item data "op_id"
  let action ← item data "action"
  let payload ← dictOrEmpty (dictGet data "payload")
  let targetStages ← if targetStages.isNone then .ok none else (listOf targetStages).map some
  .ok { opId := rt.str opId, action := rt.str action, payload, targetStages, timeoutS := dictGet data "timeout_s" }

structure AdminResult where
  opId : String
  stage : String
  action : String
  success : Bool
  message : String
  data : Entries
  error : Value
  rank : Value
  role : Value

def AdminResult.toDict (r : AdminResult) : Entries :=
  [("op_id", .str r.opId), ("stage", .str r.stage), ("action", .str r.action), ("success", .bool r.success),
    ("message", .str r.message), ("data", .dict r.data), ("error", r.error), ("rank", r.rank), ("role", r.role)]

def AdminResult.fromDict (rt : Runtime) (value : Value) : Except PyError AdminResult := do
  let d ← asDict value
  let opId ← item d "op_id"
  let stage ← item d "stage"
  let action ← item d "action"
  let success ← item d "success"
  let message := dictGet d "message"
  let data ← dictOrEmpty (dictGet d "data")
  .ok
    { opId := rt.str opId, stage := rt.str stage, action := rt.str action, success := success.truthy
      message := rt.str (if message.truthy then message else .str ""), data, error := dictGet d "error"
      rank := dictGet d "rank", role := dictGet d "role" }

/-! ### All of them -/

inductive Message where
  | dataReady (m : DataReadyMessage)
  | dataAck (m : DataAckMessage)
  | kvTransferPrepare (m : KVTransferPrepareMessage)
  | kvTransferReady (m : KVTransferReadyMessage)
  | abort (requestId : Value)
  | complete (m : CompleteMessage)
  | stream (m : StreamMessage)
  | submit (m : SubmitMessage)
  | shutdown
  | profilerStart (m : ProfilerStartMessage)
  | profilerStop (runId : Value)
  | admin (operation : AdminOperation)
  | adminResult (result : AdminResult)

def Message.toDict (rt : Runtime) : Message → Except PyError Entries
  | .dataReady m => m.toDict
  | .dataAck m => m.toDict
  | .kvTransferPrepare m => m.toDict rt
  | .kvTransferReady m => m.toDict rt
  | .abort requestId => .ok [("type", .str "abort"), ("request_id", requestId)]
  | .complete m => .ok m.toDict
  | .stream m => .ok m.toDict
  | .submit m => m.toDict
  | .shutdown => .ok [("type", .str "shutdown")]
  | .profilerStart m => .ok m.toDict
  | .profilerStop runId => .ok [("type", .str "profiler_stop"), ("run_id", runId)]
  | .admin operation => .ok [("type", .str "admin"), ("operation", .dict operation.toDict)]
  | .adminResult result => .ok [("type", .str "admin_result"), ("result", .dict result.toDict)]

def parseMessage (rt : Runtime) (d : Entries) : Except PyError Message :=
  match dictGet d "type" with
  | .str "data_ready" => (DataReadyMessage.fromDict d).map .dataReady
  | .str "data_ack" => (DataAckMessage.fromDict d).map .dataAck
  | .str "kv_transfer_prepare" => (KVTransferPrepareMessage.fromDict d).map .kvTransferPrepare
  | .str "kv_transfer_ready" => (KVTransferReadyMessage.fromDict d).map .kvTransferReady
  | .str "abort" => (item d "request_id").map .abort
  | .str "complete" => (CompleteMessage.fromDict d).map .complete
  | .str "stream" => (StreamMessage.fromDict d).map .stream
  | .str "submit" => (SubmitMessage.fromDict d).map .submit
  | .str "shutdown" => .ok .shutdown
  | .str "profiler_start" => (ProfilerStartMessage.fromDict d).map .profilerStart
  | .str "profiler_stop" => .ok (.profilerStop (dictGet d "run_id"))
  | .str "admin" => do
    let operation ← AdminOperation.fromDict rt (← item d "operation")
    .ok (.admin operation)
  | .str "admin_result" => do
    let result ← AdminResult.fromDict rt (← item d "result")
    .ok (.adminResult result)
  | value => .error (.valueError ("Unknown message type: " ++ rt.str value))

end SglangOmni.Proto
