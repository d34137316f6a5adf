import AewtState.Fanout
import AewtState.Validators

/-!
# Handlers

One definition for each handler of the source, in the order of its statements: validate,
extract the parameters, act on the stores, send, set the response.  The log lines are left
out.
-/

set_option autoImplicit false

namespace Aewt

def pingHandler (request : Request) : M Unit := next request "pong" []

def unimplementedHandler (request : Request) : M Unit :=
  markAsInvalid request "action" "action attribute isn't implemented"

def broadcastHandler (request : Request) : M Unit := do
  if ← broadcastValidator request then
    let params ← getParams request
    let payload ← getParamAsObject params "payload"
    match request.context with
    | .onClient => do
      let st ← getState
      let count ← broadcastToClients request st.id request.entityId payload
      let _ ← broadcastToSessions request request.entityId payload
      next request (getStatus (0 < count)) [("count", .uint64 count)]
    | .onSession => do
      let clientId ← getParamAsId params "client_id"
      let st ← getState
      let count ← broadcastToClients request st.id clientId payload
      next request (getStatus (0 < count)) [("count", .uint64 count)]
  else pure ()

def publishHandler (request : Request) : M Unit := do
  if ← publishValidator request then
    let params ← getParams request
    let channel ← getParamAsString params "channel"
    let payload ← getParamAsObject params "payload"
    match request.context with
    | .onClient => do
      let st ← getState
      let count ← publishToClients request st.id request.entityId channel payload
      let _ ← publishToSessions request request.entityId channel payload
      next request (getStatus (0 < count)) [("count", .uint64 count)]
    | .onSession => do
      let clientId ← getParamAsId params "client_id"
      let st ← getState
      let count ← publishToClients request st.id clientId channel payload
      next request (getStatus (0 < count)) [("count", .uint64 count)]
  else pure ()

def isSubscribedHandler (request : Request) : M Unit := do
  if ← isSubscribedValidator request then
    let params ← getParams request
    let channel ← getParamAsString params "channel"
    match request.context with
    | .onClient => do
      let st ← getState
      next request (getStatus (st.isSubscribed request.entityId channel) "yes" "no") []
    | .onSession => next request "no effect" []
  else pure ()

def joinHandler (request : Request) : M Unit :=
  match request.context with
  | .onClient => next request "no effect" []
  | .onSession => do
    let params ← getParams request
    if ← idValidator request params "client_id" then
      let clientId ← getParamAsId params "client_id"
      let inserted ← update (·.addClient ⟨clientId, request.entityId⟩)
      next request (getStatus inserted) []
    else pure ()

def leaveHandler (request : Request) : M Unit :=
  match request.context with
  | .onClient => next request "no effect" []
  | .onSession => do
    let params ← getParams request
    if ← idValidator request params "client_id" then
      let clientId ← getParamAsId params "client_id"
      let removed ← update (·.removeClient clientId)
      next request (getStatus removed) []
    else pure ()

def registerHandler (request : Request) : M Unit :=
  match request.context with
  | .onClient => next request "no effect" []
  | .onSession => do
    if ← registerValidator request then
      let params ← getParams request
      let sessionsPort ← getParamAsNumber params "sessions_port"
      let clientsPort ← getParamAsNumber params "clients_port"
      let registered ← getParamAsBool params "registered"
      let st ← getState
      match st.getSession request.entityId with
      | some session => do
        -- the three setters change the session object that the map holds
        let _ ← update fun st => (st.markAsRegistered session.id sessionsPort.toUInt16
          clientsPort.toUInt16, true)
        sync session.id registered
        next request "ok" []
      | none => next request "no effect" []
    else pure ()

/-- The client path sends to the session of the target's row; the session path sends only to
a local client. -/
def sendHandler (request : Request) : M Unit := do
  if ← sendValidator request then
    let params ← getParams request
    let toClientId ← getParamAsId params "to_client_id"
    let payload ← getParamAsObject params "payload"
    match request.context with
    | .onClient => do
      let st ← getState
      match st.getClient toClientId with
      | some client =>
        if client.sessionId = st.id then do
          let t ← random
          Client.send client.id (serialize (sendObject t request.entityId client.id payload))
          next request "ok" []
        else do
          sendToSession client.sessionId request.entityId client.id payload
          next request "ok" []
      | none => next request "no effect" []
    | .onSession => do
      let fromClientId ← getParamAsId params "from_client_id"
      let st ← getState
      match st.getClient toClientId with
      | some client =>
        if client.sessionId = st.id then do
          let t ← random
          Client.send client.id (serialize (sendObject t fromClientId client.id payload))
          next request "ok" []
        else next request "no effect" []
      | none => next request "no effect" []
  else pure ()

/-- `resolver::resolve`, which raises for a name it cannot resolve. -/
def resolve (host : String) (port : UInt64) : M Unit :=
  fun w => (if w.env.resolves host port then .ok () else .error .hostNotFound, w)

/-- Resolve the address, make the session, connect (the source retries until it succeeds),
set the ports, `run(remote)` and only then enter the session in the map.  `server::start` and
`session_handler` both do this. -/
def dial (host : String) (sessionsPort clientsPort : UInt64) : M Unit := do
  resolve host sessionsPort
  let id ← random
  emit (.dial id host sessionsPort)
  let session : Session := {
    id := id
    sessionsPort := sessionsPort.toUInt16
    clientsPort := clientsPort.toUInt16 }
  let _ ← update (·.addSession session)

/-- A session with this host and these ports is in the map. -/
def isKnown (st : State) (host : String) (sessionsPort clientsPort : UInt64) : Bool :=
  st.getSessions.any fun s => s.host = host ∧ s.sessionsPort.toUInt64 = sessionsPort ∧
    s.clientsPort.toUInt64 = clientsPort

def sessionHandler (request : Request) : M Unit :=
  match request.context with
  | .onClient => next request "no effect" []
  | .onSession => do
    if ← sessionValidator request then
      let params ← getParams request
      let host ← getParamAsString params "host"
      let sessionsPort ← getParamAsNumber params "sessions_port"
      let clientsPort ← getParamAsNumber params "clients_port"
      let st ← getState
      if isKnown st host sessionsPort clientsPort then next request "no effect" []
      else do
        dial host sessionsPort clientsPort
        next request "ok" []
    else pure ()

def subscribeHandler (request : Request) : M Unit := do
  if ← subscriptionsValidator request then
    let params ← getParams request
    let channel ← getParamAsString params "channel"
    match request.context with
    | .onClient => do
      let st ← getState
      let success ← update (·.subscribe st.id request.entityId channel)
      next request (getStatus success) []
      let _ ← subscribeToSessions request request.entityId channel
    | .onSession => do
      let clientId ← getParamAsId params "client_id"
      let success ← update (·.subscribe request.entityId clientId channel)
      next request (getStatus success) []
  else pure ()

def unsubscribeHandler (request : Request) : M Unit := do
  if ← subscriptionsValidator request then
    let params ← getParams request
    let channel ← getParamAsString params "channel"
    match request.context with
    | .onClient => do
      let st ← getState
      let success ← update (·.unsubscribe st.id request.entityId channel)
      next request (getStatus success) []
      let _ ← unsubscribeToSessions request request.entityId channel
    | .onSession => do
      let clientId ← getParamAsId params "client_id"
      let success ← update (·.unsubscribe request.entityId clientId channel)
      next request (getStatus success) []
  else pure ()

end Aewt
