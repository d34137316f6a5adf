import AewtState.Kernel

/-!
# Decoding before acting

Every handler first checks and extracts, then acts.  This file splits the kernel there.

* `decode` — the first half, a function of the message, the context and the entity only: it
  raises, finds the request invalid, or yields a `Command` with every parameter decoded and
  the acting client already chosen (the connection's in context `onClient`, the parameter's in
  context `onSession`).
* `perform` — the second half.
* `handle_eq` — the kernel is `decode` followed by `perform`.

`decode` is what later proofs reason about: it does not depend on the node.
-/

set_option autoImplicit false

namespace Aewt

/-- A checked request. -/
inductive Command where
  | ping
  | ack
  | noEffect
  | send (fromClientId toClientId : Uuid) (payload : Object)
  | register (sessionsPort clientsPort : UInt64) (registered : Bool)
  | session (host : String) (sessionsPort clientsPort : UInt64)
  | subscribe (clientId : Uuid) (channel : String)
  | unsubscribe (clientId : Uuid) (channel : String)
  | isSubscribed (channel : String)
  | broadcast (clientId : Uuid) (payload : Object)
  | publish (clientId : Uuid) (channel : String) (payload : Object)
  | join (clientId : Uuid)
  | leave (clientId : Uuid)

/-! ## Acting -/

/-- Forwarding to sessions happens only for a client's request. -/
def relay (request : Request) (x : M UInt64) : M Unit :=
  match request.context with
  | .onClient => x >>= fun _ => pure ()
  | .onSession => pure ()

/-- The session id under which a request's rows are stored. -/
def owner (request : Request) (st : State) : Uuid :=
  match request.context with
  | .onClient => st.id
  | .onSession => request.entityId

def performSend (request : Request) (fromClientId toClientId : Uuid) (payload : Object) :
    M Unit := do
  let st ← getState
  match st.getClient toClientId with
  | some client =>
    if client.sessionId = st.id then do
      let t ← random
      Client.send client.id (serialize (sendObject t fromClientId client.id payload))
      next request "ok" []
    else
      match request.context with
      | .onClient => do
        sendToSession client.sessionId fromClientId client.id payload
        next request "ok" []
      | .onSession => next request "no effect" []
  | none => next request "no effect" []

def performRegister (request : Request) (sessionsPort clientsPort : UInt64)
    (registered : Bool) : M Unit := do
  let st ← getState
  match st.getSession request.entityId with
  | some session => do
    let _ ← update fun st => (st.markAsRegistered session.id sessionsPort.toUInt16
      clientsPort.toUInt16, true)
    sync session.id registered
    next request "ok" []
  | none => next request "no effect" []

def performSession (request : Request) (host : String) (sessionsPort clientsPort : UInt64) :
    M Unit := do
  let st ← getState
  if isKnown st host sessionsPort clientsPort then next request "no effect" []
  else do
    dial host sessionsPort clientsPort
    next request "ok" []

def perform (request : Request) : Command → M Unit
  | .ping => next request "pong" []
  | .ack => markAsAck
  | .noEffect => next request "no effect" []
  | .send fromClientId toClientId payload => performSend request fromClientId toClientId payload
  | .register sessionsPort clientsPort registered =>
    performRegister request sessionsPort clientsPort registered
  | .session host sessionsPort clientsPort =>
    performSession request host sessionsPort clientsPort
  | .subscribe clientId channel => do
    let st ← getState
    let success ← update (·.subscribe (owner request st) clientId channel)
    next request (getStatus success) []
    relay request (subscribeToSessions request clientId channel)
  | .unsubscribe clientId channel => do
    let st ← getState
    let success ← update (·.unsubscribe (owner request st) clientId channel)
    next request (getStatus success) []
    relay request (unsubscribeToSessions request clientId channel)
  | .isSubscribed channel => do
    let st ← getState
    next request (getStatus (st.isSubscribed request.entityId channel) "yes" "no") []
  | .broadcast clientId payload => do
    let st ← getState
    let count ← broadcastToClients request st.id clientId payload
    relay request (broadcastToSessions request clientId payload)
    next request (getStatus (0 < count)) [("count", .uint64 count)]
  | .publish clientId channel payload => do
    let st ← getState
    let count ← publishToClients request st.id clientId channel payload
    relay request (publishToSessions request clientId channel payload)
    next request (getStatus (0 < count)) [("count", .uint64 count)]
  | .join clientId => do
    let inserted ← update (·.addClient ⟨clientId, request.entityId⟩)
    next request (getStatus inserted) []
  | .leave clientId => do
    let removed ← update (·.removeClient clientId)
    next request (getStatus removed) []

/-! ## Decoding -/

/-- Raises, or the entry of the bag, or a command. -/
abbrev Verdict := Except Raise (Except (String × String) Command)

/-- Extract once the check passed. -/
def decodeWith (check : Check) (extract : Except Raise Command) : Verdict :=
  match check with
  | .error e => .error e
  | .ok (some message) => .ok (.error ("params", message))
  | .ok none => extract.map .ok

/-- The acting client: the connection's own, or the parameter `name` of a peer's message. -/
def actor (request : Request) (params : Object) (name : String) : Except Raise Uuid :=
  match request.context with
  | .onClient => .ok request.entityId
  | .onSession => getParamAsId params name

def decodeSend (request : Request) : Verdict :=
  decodeWith (sendCheck request) do
    let params ← getParams request
    let toClientId ← getParamAsId params "to_client_id"
    let payload ← getParamAsObject params "payload"
    let fromClientId ← actor request params "from_client_id"
    return .send fromClientId toClientId payload

def decodeBroadcast (request : Request) : Verdict :=
  decodeWith (broadcastCheck request) do
    let params ← getParams request
    let payload ← getParamAsObject params "payload"
    let clientId ← actor request params "client_id"
    return .broadcast clientId payload

def decodePublish (request : Request) : Verdict :=
  decodeWith (publishCheck request) do
    let params ← getParams request
    let channel ← getParamAsString params "channel"
    let payload ← getParamAsObject params "payload"
    let clientId ← actor request params "client_id"
    return .publish clientId channel payload

/-- `subscribe` and `unsubscribe` have the same parameters. -/
def decodeSubscription (request : Request) (make : Uuid → String → Command) : Verdict :=
  decodeWith (subscriptionsCheck request) do
    let params ← getParams request
    let channel ← getParamAsString params "channel"
    let clientId ← actor request params "client_id"
    return make clientId channel

def decodeIsSubscribed (request : Request) : Verdict :=
  decodeWith (isSubscribedCheck request) do
    let params ← getParams request
    let channel ← getParamAsString params "channel"
    match request.context with
    | .onClient => return .isSubscribed channel
    | .onSession => return .noEffect

/-- `join` and `leave` have the same parameters and do nothing for a client. -/
def decodeMembership (request : Request) (make : Uuid → Command) : Verdict :=
  match request.context with
  | .onClient => .ok (.ok .noEffect)
  | .onSession =>
    decodeWith (getParams request >>= fun params => idCheck params "client_id") do
      let params ← getParams request
      let clientId ← getParamAsId params "client_id"
      return make clientId

def decodeRegister (request : Request) : Verdict :=
  match request.context with
  | .onClient => .ok (.ok .noEffect)
  | .onSession =>
    decodeWith (registerCheck request) do
      let params ← getParams request
      let sessionsPort ← getParamAsNumber params "sessions_port"
      let clientsPort ← getParamAsNumber params "clients_port"
      let registered ← getParamAsBool params "registered"
      return .register sessionsPort clientsPort registered

def decodeSession (request : Request) : Verdict :=
  match request.context with
  | .onClient => .ok (.ok .noEffect)
  | .onSession =>
    decodeWith (sessionCheck request) do
      let params ← getParams request
      let host ← getParamAsString params "host"
      let sessionsPort ← getParamAsNumber params "sessions_port"
      let clientsPort ← getParamAsNumber params "clients_port"
      return .session host sessionsPort clientsPort

def decodeAction (request : Request) (action : String) : Verdict :=
  if action = "ping" then .ok (.ok .ping)
  else if action = "send" then decodeSend request
  else if action = "register" then decodeRegister request
  else if action = "session" then decodeSession request
  else if action = "ack" then .ok (.ok .ack)
  else if action = "subscribe" then decodeSubscription request .subscribe
  else if action = "is_subscribed" then decodeIsSubscribed request
  else if action = "unsubscribe" then decodeSubscription request .unsubscribe
  else if action = "broadcast" then decodeBroadcast request
  else if action = "publish" then decodePublish request
  else if action = "join" then decodeMembership request .join
  else if action = "leave" then decodeMembership request .leave
  else .ok (.error ("action", "action attribute isn't implemented"))

/-- What the kernel makes of a message before it acts. -/
inductive Decoded where
  | invalid (transactionId : Uuid) (field message : String)
  | accepted (transactionId : Uuid) (command : Command)

def decode (data : Object) (context : Context) (entityId : Uuid) : Except Raise Decoded := do
  match ← validator data with
  | none => do
    let transactionId ← getParamAsId data "transaction_id"
    let action ← getParamAsString data "action"
    match ← decodeAction ⟨transactionId, entityId, context, data, 0⟩ action with
    | .ok command => return .accepted transactionId command
    | .error entry => return .invalid transactionId entry.1 entry.2
  | some entry => do
    if ← hasTransactionId data then
      let transactionId ← getParamAsId data "transaction_id"
      return .invalid transactionId entry.1 entry.2
    else return .invalid Uuid.nil entry.1 entry.2

/-! ## The split -/

def runVerdict (request : Request) : Verdict → M Unit
  | .error e => M.lift (.error e)
  | .ok (.error entry) => markAsInvalid request entry.1 entry.2
  | .ok (.ok command) => perform request command

theorem runVerdict_decodeWith (request : Request) (check : Check)
    (extract : Except Raise Command) :
    (validate request check >>= fun passed =>
      if passed = true then M.lift extract >>= perform request else pure ()) =
    runVerdict request (decodeWith check extract) := by
  rcases check with e | (- | message)
  · simp [validate, decodeWith, runVerdict]
  · cases extract <;> simp [validate, decodeWith, runVerdict, Except.map]
  · simp [validate, decodeWith, runVerdict, markAsInvalid]

section

variable (request : Request)

theorem sendHandler_eq : sendHandler request = runVerdict request (decodeSend request) := by
  rw [decodeSend, ← runVerdict_decodeWith, sendHandler, sendValidator]
  obtain ⟨t, e, context, data, ts⟩ := request
  congr 1; funext passed
  cases passed
  · rfl
  · cases context <;> simp only [if_true, M.lift_bind, bind_assoc, liftM_eq] <;> rfl

theorem broadcastHandler_eq :
    broadcastHandler request = runVerdict request (decodeBroadcast request) := by
  rw [decodeBroadcast, ← runVerdict_decodeWith, broadcastHandler, broadcastValidator]
  obtain ⟨t, e, context, data, ts⟩ := request
  congr 1; funext passed
  cases passed
  · rfl
  · cases context <;> simp only [if_true, M.lift_bind, bind_assoc, liftM_eq, M.lift_pure,
      pure_bind, M.lift_ok_bind, perform, relay, actor]

theorem publishHandler_eq :
    publishHandler request = runVerdict request (decodePublish request) := by
  rw [decodePublish, ← runVerdict_decodeWith, publishHandler, publishValidator]
  obtain ⟨t, e, context, data, ts⟩ := request
  congr 1; funext passed
  cases passed
  · rfl
  · cases context <;> simp only [if_true, M.lift_bind, bind_assoc, liftM_eq, M.lift_pure,
      pure_bind, M.lift_ok_bind, perform, relay, actor]

theorem subscribeHandler_eq : subscribeHandler request =
    runVerdict request (decodeSubscription request .subscribe) := by
  rw [decodeSubscription, ← runVerdict_decodeWith, subscribeHandler, subscriptionsValidator]
  obtain ⟨t, e, context, data, ts⟩ := request
  congr 1; funext passed
  cases passed
  · rfl
  · cases context <;> simp only [if_true, M.lift_bind, bind_assoc, liftM_eq] <;> rfl

theorem unsubscribeHandler_eq : unsubscribeHandler request =
    runVerdict request (decodeSubscription request .unsubscribe) := by
  rw [decodeSubscription, ← runVerdict_decodeWith, unsubscribeHandler, subscriptionsValidator]
  obtain ⟨t, e, context, data, ts⟩ := request
  congr 1; funext passed
  cases passed
  · rfl
  · cases context <;> simp only [if_true, M.lift_bind, bind_assoc, liftM_eq] <;> rfl

theorem isSubscribedHandler_eq : isSubscribedHandler request =
    runVerdict request (decodeIsSubscribed request) := by
  rw [decodeIsSubscribed, ← runVerdict_decodeWith, isSubscribedHandler, isSubscribedValidator]
  obtain ⟨t, e, context, data, ts⟩ := request
  congr 1; funext passed
  cases passed
  · rfl
  · cases context <;> simp only [if_true, M.lift_bind, bind_assoc, liftM_eq] <;> rfl

/-- `join` and `leave` extract `params` before the check, which extracts it again. -/
theorem runVerdict_membership (make : Uuid → Command) (h : request.context = .onSession) :
    (M.lift (getParams request) >>= fun params =>
      validate request (idCheck params "client_id") >>= fun passed =>
        if passed = true then
          M.lift (getParamAsId params "client_id") >>= fun c => perform request (make c)
        else pure ()) =
    runVerdict request (decodeMembership request make) := by
  rw [decodeMembership, h]
  simp only
  rw [← runVerdict_decodeWith]
  cases hp : getParams request with
  | error e => rfl
  | ok params =>
    rw [M.lift_ok_bind]
    congr 1; funext passed
    cases passed
    · rfl
    · simp only [if_true, M.lift_bind, bind_assoc, M.lift_ok_bind, M.lift_pure, pure_bind]

theorem joinHandler_eq :
    joinHandler request = runVerdict request (decodeMembership request .join) := by
  obtain ⟨t, e, context, data, ts⟩ := request
  cases context
  · rw [← runVerdict_membership _ _ rfl]
    rfl
  · rfl

theorem leaveHandler_eq :
    leaveHandler request = runVerdict request (decodeMembership request .leave) := by
  obtain ⟨t, e, context, data, ts⟩ := request
  cases context
  · rw [← runVerdict_membership _ _ rfl]
    rfl
  · rfl

theorem registerHandler_eq :
    registerHandler request = runVerdict request (decodeRegister request) := by
  obtain ⟨t, e, context, data, ts⟩ := request
  cases context
  · simp only [registerHandler, decodeRegister, registerValidator]
    rw [← runVerdict_decodeWith]
    congr 1; funext passed
    cases passed
    · rfl
    · simp only [if_true, M.lift_bind, bind_assoc, liftM_eq]
      rfl
  · rfl

theorem sessionHandler_eq :
    sessionHandler request = runVerdict request (decodeSession request) := by
  obtain ⟨t, e, context, data, ts⟩ := request
  cases context
  · simp only [sessionHandler, decodeSession, sessionValidator]
    rw [← runVerdict_decodeWith]
    congr 1; funext passed
    cases passed
    · rfl
    · simp only [if_true, M.lift_bind, bind_assoc, liftM_eq]
      rfl
  · rfl

/-- Every action is decoded and then performed. -/
theorem dispatch_eq (action : String) :
    dispatch request action = runVerdict request (decodeAction request action) := by
  simp only [dispatch, decodeAction, apply_ite (runVerdict request), sendHandler_eq,
    registerHandler_eq, sessionHandler_eq, subscribeHandler_eq, isSubscribedHandler_eq,
    unsubscribeHandler_eq, broadcastHandler_eq, publishHandler_eq, joinHandler_eq,
    leaveHandler_eq]
  rfl

end

/-- Act on what was decoded. -/
def runDecoded (data : Object) (context : Context) (entityId : Uuid) (timestamp : Int64) :
    Decoded → M Unit
  | .invalid transactionId field message =>
    markAsFailed transactionId "unprocessable entity" timestamp [(field, message)]
  | .accepted transactionId command =>
    perform ⟨transactionId, entityId, context, data, timestamp⟩ command

/-- **The kernel decodes and then acts.** -/
theorem handle_eq (data : Object) (context : Context) (entityId : Uuid) (timestamp : Int64) :
    handle data context entityId timestamp =
      M.lift (decode data context entityId) >>= runDecoded data context entityId timestamp := by
  unfold handle decode
  rcases validator data with e | (- | entry)
  · rfl
  · simp only [M.lift_bind, M.lift_ok_bind, liftM_eq, bind_assoc]
    congr 1; funext transactionId
    congr 1; funext action
    rw [dispatch_eq]
    have hts : decodeAction ⟨transactionId, entityId, context, data, timestamp⟩ action =
        decodeAction ⟨transactionId, entityId, context, data, 0⟩ action := rfl
    rw [hts]
    rcases decodeAction ⟨transactionId, entityId, context, data, 0⟩ action with
      e | (entry | command)
    · rfl
    · rfl
    · rfl
  · simp only [M.lift_bind, M.lift_ok_bind, liftM_eq, bind_assoc]
    congr 1; funext known
    cases known
    · rfl
    · simp only [if_true, M.lift_bind, bind_assoc]
      rfl

end Aewt
