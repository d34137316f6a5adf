import AewtState.Handlers

/-!
# The kernel and the connections that call it

* `kernel` — checks the envelope, dispatches on the action and returns the response.
* `Session.onRead`, `Client.onRead` — what a connection does with a frame that arrived; a
  session does not answer an acknowledgement.
* `Session.onAccept`, `Client.onAccept`, `clientListenerOnAccept`, `serverStart` — how
  connections come about, and `Client.leave` and `Session.leave` how they end.
-/

set_option autoImplicit false

namespace Aewt

def getResponse : M Response := fun w => (.ok w.response, w)

/-- The actions `kernel` knows, in the order of its comparisons. -/
def dispatch (request : Request) (action : String) : M Unit :=
  if action = "ping" then pingHandler request
  else if action = "send" then sendHandler request
  else if action = "register" then registerHandler request
  else if action = "session" then sessionHandler request
  else if action = "ack" then markAsAck
  else if action = "subscribe" then subscribeHandler request
  else if action = "is_subscribed" then isSubscribedHandler request
  else if action = "unsubscribe" then unsubscribeHandler request
  else if action = "broadcast" then broadcastHandler request
  else if action = "publish" then publishHandler request
  else if action = "join" then joinHandler request
  else if action = "leave" then leaveHandler request
  else unimplementedHandler request

/-- The object has a `transaction_id` that `is_uuid` accepts. -/
def hasTransactionId (data : Object) : Except Raise Bool :=
  if !data.contains "transaction_id" then .ok false
  else do
    let value ← data.atKey "transaction_id"
    if !value.isString then .ok false
    else do
      let s ← value.asString
      .ok (isUuid s)

/-- The body of `kernel` between the creation of the response and `mark_as_processed`. -/
def handle (data : Object) (context : Context) (entityId : Uuid) (timestamp : Int64) :
    M Unit := do
  match ← M.lift (validator data) with
  | none => do
    let transactionId ← getParamAsId data "transaction_id"
    let action ← getParamAsString data "action"
    dispatch ⟨transactionId, entityId, context, data, timestamp⟩ action
  | some entry => do
    if ← hasTransactionId data then
      let transactionId ← getParamAsId data "transaction_id"
      markAsFailed transactionId "unprocessable entity" timestamp [entry]
    else markAsFailed Uuid.nil "unprocessable entity" timestamp [entry]

/-- `kernel`. -/
def kernel (data : Object) (context : Context) (entityId : Uuid) : M Response := do
  let timestamp ← now
  modifyResponse fun _ => {}
  handle data context entityId timestamp
  markAsProcessed
  getResponse

/-! ## Frames -/

/-- A frame that arrived: its text parses to an object, or it does not. -/
inductive Frame where
  | object (data : Object)
  | other

/-- The reply to a frame that is not a JSON object.  It has no `action`. -/
def unprocessableBody (timestamp runtime : Int64) : Object :=
  [("transaction_id", .null),
   ("status", .string "failed"),
   ("message", .string "unprocessable entity"),
   ("data", .object [("body", .string "body must be json object")]),
   ("timestamp", .int64 timestamp),
   ("runtime", .int64 runtime)]

/-- `session::on_read` without an error. -/
def Session.onRead (id : Uuid) (frame : Frame) : M Unit := do
  let readAt ← now
  match frame with
  | .object data => do
    let response ← kernel data .onSession id
    if response.isAck then pure () else Session.send id (serialize response.data)
  | .other => do
    let t ← now
    Session.send id (serialize (unprocessableBody t (t - readAt)))

/-- `client::on_read` without an error. -/
def Client.onRead (id : Uuid) (frame : Frame) : M Unit := do
  let readAt ← now
  match frame with
  | .object data => do
    let response ← kernel data .onClient id
    Client.send id (serialize response.data)
  | .other => do
    let t ← now
    Client.send id (serialize (unprocessableBody t (t - readAt)))

/-! ## Connections -/

/-- `client::on_accept` or `client::on_read` with an error. -/
def Client.leave (id : Uuid) : M Unit := do
  let _ ← update (·.removeClient id)
  let _ ← leaveToSessions id

/-- `session::on_accept` or `session::on_read` with an error. -/
def Session.leave (id : Uuid) : M Unit := do
  let _ ← update (·.removeSession id)

/-- `client_listener::on_accept` without an error: the new client has the id `id`. -/
def clientListenerOnAccept (id : Uuid) : M Unit := do
  let st ← getState
  let _ ← update (·.addClient ⟨id, st.id⟩)
  let _ ← joinToSessions id

/-- The welcome that `client::on_accept` sends. -/
def Client.onAccept (id : Uuid) (runAt : Int64) : M Unit := do
  let t ← now
  let transactionId ← random
  Client.send id (serialize
    [("transaction_id", .string transactionId.toString), ("action", .string "welcome"),
     ("status", .string "success"), ("message", .string "accepted"),
     ("timestamp", .int64 t), ("runtime", .int64 (t - runAt)),
     ("data", .object [("client_id", .string id.toString)])])

/-- `aewt::session_context`; `accepting` is the source's `local`. -/
inductive SessionContext where
  | accepting
  | remote
  deriving DecidableEq, Repr

/-- The message with which a connecting node registers. -/
def registerObject (t : Uuid) (config : Config) : Object :=
  requestObject t "register"
    (registerParams config.registered config.clientsPort config.sessionsPort)

def State.setRegistered (st : State) : State :=
  { st with config := { st.config with registered := true } }

/-- `session::on_accept` without an error; `host` is the address of the remote endpoint. -/
def Session.onAccept (id : Uuid) (context : SessionContext) (host : String) : M Unit := do
  let _ ← update fun st => (st.setHost id host, true)
  match context with
  | .accepting => pure ()
  | .remote => do
    let t ← random
    let st ← getState
    let _ ← update fun st => (st.setRegistered, true)
    Session.send id (serialize (registerObject t st.config))

/-- What `server::start` does when the node is to join another. -/
def serverStart : M Unit := do
  let st ← getState
  dial st.config.remoteAddress st.config.remoteSessionsPort.toUInt64
    st.config.remoteClientsPort.toUInt64

end Aewt
