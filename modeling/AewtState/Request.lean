import AewtState.World

/-!
# Requests, responses and the helpers of `utils.cpp`

* `markAsFailed`, `setData` — the two writers of the response.  A failure with the nil
  transaction id carries `null` in its place.
* `getParamAsString`, … — the parameter accessors, which raise.
* `makeBroadcastRequestObject`, … — the objects a node sends to its peers and clients.
-/

set_option autoImplicit false

namespace Aewt

/-- `aewt::kernel_context`. -/
inductive Context where
  | onSession
  | onClient
  deriving DecidableEq, Repr

/-- `aewt::request`, without the references to the node and the response. -/
structure Request where
  transactionId : Uuid
  entityId : Uuid
  context : Context
  data : Object
  timestamp : Int64

/-! ## Response -/

/-- `{"transaction_id", nullptr}` for the nil id. -/
def transactionIdValue (u : Uuid) : Value :=
  if u.isNil then .null else .string u.toString

/-- A failure reply. -/
def failedData (transactionId : Uuid) (error : String) (timestamp runtime : Int64)
    (bag : List (String × String)) : Object :=
  [("transaction_id", transactionIdValue transactionId),
   ("action", .string "ack"),
   ("status", .string "failed"),
   ("message", .string error),
   ("data", .object (bag.map fun e => (e.1, .string e.2))),
   ("timestamp", .int64 timestamp),
   ("runtime", .int64 runtime)]

/-- A success reply. -/
def successData (transactionId : Uuid) (message : String) (timestamp runtime : Int64)
    (data : Object) : Object :=
  [("transaction_id", .string transactionId.toString),
   ("action", .string "ack"),
   ("status", .string "success"),
   ("message", .string message),
   ("timestamp", .int64 timestamp),
   ("runtime", .int64 runtime),
   ("data", .object data)]

def World.withResponse (w : World) (r : Response) : World := { w with response := r }

@[simp] theorem World.withResponse_state (w : World) (r : Response) :
    (w.withResponse r).state = w.state := rfl

@[simp] theorem World.withResponse_env (w : World) (r : Response) :
    (w.withResponse r).env = w.env := rfl

@[simp] theorem World.withResponse_effects (w : World) (r : Response) :
    (w.withResponse r).effects = w.effects := rfl

@[simp] theorem World.withResponse_response (w : World) (r : Response) :
    (w.withResponse r).response = r := rfl

def modifyResponse (f : Response → Response) : M Unit :=
  fun w => (.ok (), w.withResponse (f w.response))

@[simp] theorem modifyResponse_apply (f : Response → Response) (w : World) :
    modifyResponse f w = (.ok (), w.withResponse (f w.response)) := rfl

@[simp] theorem modifyResponse_bind {β : Type} (f : Response → Response) (g : Unit → M β)
    (w : World) : (modifyResponse f >>= g) w = g () (w.withResponse (f w.response)) := rfl

/-- `response::mark_as_failed`. -/
def markAsFailed (transactionId : Uuid) (error : String) (timestamp : Int64)
    (bag : List (String × String)) : M Unit := do
  let current ← now
  modifyResponse fun r => { r with
    failed := true
    data := failedData transactionId error timestamp (current - timestamp) bag
    writes := r.writes + 1 }

/-- `response::set_data`. -/
def setData (transactionId : Uuid) (message : String) (timestamp : Int64) (data : Object) :
    M Unit := do
  let current ← now
  modifyResponse fun r => { r with
    data := successData transactionId message timestamp (current - timestamp) data
    writes := r.writes + 1 }

/-- `response::mark_as_ack`. -/
def markAsAck : M Unit := modifyResponse fun r => { r with isAck := true }

/-- `response::mark_as_processed`. -/
def markAsProcessed : M Unit := modifyResponse fun r => { r with processed := true }

/-- `next`. -/
def next (request : Request) (status : String) (data : Object) : M Unit :=
  setData request.transactionId status request.timestamp data

/-- `mark_as_invalid`. -/
def markAsInvalid (request : Request) (field argument : String) : M Unit :=
  markAsFailed request.transactionId "unprocessable entity" request.timestamp
    [(field, argument)]

/-! ## Parameters -/

def getParamAsString (params : Object) (field : String) : Except Raise String :=
  params.atKey field >>= Value.asString

/-- The signed number, converted to `std::size_t`. -/
def getParamAsNumber (params : Object) (field : String) : Except Raise UInt64 :=
  params.atKey field >>= fun v => v.asInt64.map Int64.toUInt64

def getParamAsBool (params : Object) (field : String) : Except Raise Bool :=
  params.atKey field >>= Value.asBool

def getParamAsObject (params : Object) (field : String) : Except Raise Object :=
  params.atKey field >>= Value.asObject

def getParamAsId (params : Object) (field : String) : Except Raise Uuid :=
  params.atKey field >>= fun v => v.asString >>= fun s =>
    match lexicalCast s with
    | some u => .ok u
    | none => .error .badLexicalCast

def getParamsAsValue (request : Request) : Except Raise Value := request.data.atKey "params"

def getParams (request : Request) : Except Raise Object :=
  request.data.atKey "params" >>= Value.asObject

def getStatus (gate : Bool) (onTrue : String := "ok") (onFalse : String := "no effect") :
    String :=
  if gate then onTrue else onFalse

/-! ## Messages -/

/-- The shape of the objects built in `utils.cpp` and in the send path. -/
def requestObject (transactionId : Uuid) (action : String) (params : Object) : Object :=
  [("transaction_id", .string transactionId.toString), ("action", .string action),
   ("params", .object params)]

def broadcastParams (clientId : Uuid) (payload : Object) : Object :=
  [("client_id", .string clientId.toString), ("payload", .object payload)]

def publishParams (clientId : Uuid) (channel : String) (payload : Object) : Object :=
  [("client_id", .string clientId.toString), ("channel", .string channel),
   ("payload", .object payload)]

def clientParams (clientId : Uuid) : Object := [("client_id", .string clientId.toString)]

def subscriptionParams (clientId : Uuid) (channel : String) : Object :=
  [("client_id", .string clientId.toString), ("channel", .string channel)]

def sendParams (fromClientId toClientId : Uuid) (payload : Object) : Object :=
  [("from_client_id", .string fromClientId.toString),
   ("to_client_id", .string toClientId.toString), ("payload", .object payload)]

def registerParams (registered : Bool) (clientsPort sessionsPort : UInt16) : Object :=
  [("registered", .bool registered), ("clients_port", .uint64 clientsPort.toUInt64),
   ("sessions_port", .uint64 sessionsPort.toUInt64)]

def sessionParams (host : String) (sessionsPort clientsPort : UInt16) : Object :=
  [("host", .string host), ("sessions_port", .uint64 sessionsPort.toUInt64),
   ("clients_port", .uint64 clientsPort.toUInt64)]

def makeBroadcastRequestObject (request : Request) (clientId : Uuid) (payload : Object) :
    Object :=
  requestObject request.transactionId "broadcast" (broadcastParams clientId payload)

def makePublishRequestObject (request : Request) (clientId : Uuid) (channel : String)
    (payload : Object) : Object :=
  requestObject request.transactionId "publish" (publishParams clientId channel payload)

def makeJoinRequestObject (clientId : Uuid) : M Object := do
  let t ← random
  return requestObject t "join" (clientParams clientId)

def makeLeaveRequestObject (clientId : Uuid) : M Object := do
  let t ← random
  return requestObject t "leave" (clientParams clientId)

def makeSubscribeRequestObject (request : Request) (clientId : Uuid) (channel : String) :
    Object :=
  requestObject request.transactionId "subscribe" (subscriptionParams clientId channel)

def makeUnsubscribeRequestObject (request : Request) (clientId : Uuid) (channel : String) :
    Object :=
  requestObject request.transactionId "unsubscribe" (subscriptionParams clientId channel)

/-- The objects of `state::sync` have their first two members in the other order. -/
def syncObject (action : String) (params : Object) (transactionId : Uuid) : Object :=
  [("action", .string action), ("transaction_id", .string transactionId.toString),
   ("params", .object params)]

end Aewt
