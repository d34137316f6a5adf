import AewtState.Request
import Mathlib.Data.List.Dedup

/-!
# Sending to sessions and clients

The members of `aewt::state` that send: fan-out to every session, to the subscribed
sessions, to the local clients, the targeted `send_to_session`, and `sync`.  Each takes a
snapshot of a store and then sends in a loop.

`sendToSessions_eq`, `sendToOthersClients_eq`, `sendToSubscribedSessions_eq`,
`sendToSession_eq` and `sync_eq` say what each leaves behind: the stores are untouched and
the texts are appended to the effects.
-/

set_option autoImplicit false

namespace Aewt

/-! ## The functions -/

def sendToSessions (data : Object) : M UInt64 := do
  let sessions := (← getState).getSessions
  let message := serialize data
  forEach sessions fun s => Session.send s.id message
  return UInt64.ofNat sessions.length

/-- `sessionId` is always the node's own id.  The result is the size of the whole store
less one, in `std::size_t`. -/
def sendToOthersClients (data : Object) (sessionId clientId : Uuid) : M UInt64 := do
  let clients := (← getState).getClients
  let message := serialize data
  forEach clients fun c =>
    if c.id = clientId ∨ c.sessionId ≠ sessionId then pure () else Client.send c.id message
  return UInt64.ofNat clients.length - 1

/-- The sessions with a subscription row on the channel, each once. -/
def receivers (st : State) (channel : String) : List Uuid :=
  ((st.subscriptions.rows.filter (·.channel = channel)).map Subscription.sessionId).dedup

def sendToSubscribedSessions (data : Object) (channel : String) : M UInt64 := do
  let st ← getState
  let receivers := receivers st channel
  if receivers.isEmpty then return 0
  else
    let message := serialize data
    forEach st.getSessions fun s =>
      if s.id ∈ receivers then Session.send s.id message else pure ()
    return UInt64.ofNat receivers.length

def broadcastToSessions (request : Request) (clientId : Uuid) (data : Object) : M UInt64 :=
  sendToSessions (makeBroadcastRequestObject request clientId data)

def broadcastToClients (request : Request) (sessionId clientId : Uuid) (data : Object) :
    M UInt64 :=
  sendToOthersClients (makeBroadcastRequestObject request clientId data) sessionId clientId

def publishToSessions (request : Request) (clientId : Uuid) (channel : String)
    (data : Object) : M UInt64 :=
  sendToSubscribedSessions (makePublishRequestObject request clientId channel data) channel

/-- The channel goes into the message; it does not select the clients. -/
def publishToClients (request : Request) (sessionId clientId : Uuid) (channel : String)
    (data : Object) : M UInt64 :=
  sendToOthersClients (makePublishRequestObject request clientId channel data) sessionId
    clientId

def joinToSessions (clientId : Uuid) : M UInt64 :=
  makeJoinRequestObject clientId >>= sendToSessions

def leaveToSessions (clientId : Uuid) : M UInt64 :=
  makeLeaveRequestObject clientId >>= sendToSessions

def subscribeToSessions (request : Request) (clientId : Uuid) (channel : String) : M UInt64 :=
  sendToSessions (makeSubscribeRequestObject request clientId channel)

def unsubscribeToSessions (request : Request) (clientId : Uuid) (channel : String) :
    M UInt64 :=
  sendToSessions (makeUnsubscribeRequestObject request clientId channel)

def sendObject (t fromClientId toClientId : Uuid) (payload : Object) : Object :=
  requestObject t "send" (sendParams fromClientId toClientId payload)

def sendToSession (sessionId fromClientId toClientId : Uuid) (payload : Object) : M Unit := do
  let sessions := (← getState).getSessions
  let t ← random
  let message := serialize (sendObject t fromClientId toClientId payload)
  forEach sessions fun s =>
    if s.id = sessionId then Session.send s.id message else pure ()

/-! ### `sync` -/

/-- The `session` object for one reported session. -/
def sessionObject (t : Uuid) (s : Session) : Object :=
  syncObject "session" (sessionParams s.host s.sessionsPort s.clientsPort) t

/-- The test the first loop of `sync` makes on each session. -/
def reportable (st : State) (id : Uuid) (s : Session) : Bool :=
  !(s.id == st.id || s.id == id || !s.registered)

def syncJoinObject (t : Uuid) (c : Client) : Object := syncObject "join" (clientParams c.id) t

def syncSubscribeObject (t : Uuid) (r : Subscription) : Object :=
  syncObject "subscribe" (subscriptionParams r.clientId r.channel) t

/-- The rows that `sync` reports: the registered sessions other than `id`, unless the peer
said it has them. -/
def reported (st : State) (id : Uuid) (registered : Bool) : List Session :=
  if registered then [] else st.getSessions.filter (reportable st id)

def syncSessions (id : Uuid) (registered : Bool) : M Unit := do
  let st ← getState
  announce id sessionObject (reported st id registered)

def localClients (st : State) : List Client := st.getClients.filter (·.sessionId = st.id)

def localSubscriptions (st : State) : List Subscription :=
  st.subscriptions.rows.filter (·.sessionId = st.id)

def syncClients (id : Uuid) : M Unit := do
  let st ← getState
  announce id syncJoinObject (localClients st)

def syncSubscriptions (id : Uuid) : M Unit := do
  let st ← getState
  announce id syncSubscribeObject (localSubscriptions st)

/-- `state::sync` on the session `id`. -/
def sync (id : Uuid) (registered : Bool) : M Unit := do
  syncSessions id registered
  syncClients id
  syncSubscriptions id

/-! ## What they send -/

/-- One text to every session of the node. -/
def toSessions (st : State) (data : Object) : List Effect :=
  st.getSessions.map fun s => .session s.id (serialize data)

/-- The local clients other than `clientId`. -/
def otherClients (st : State) (sessionId clientId : Uuid) : List Client :=
  st.getClients.filter fun c => c.id ≠ clientId ∧ c.sessionId = sessionId

def toOthersClients (st : State) (data : Object) (sessionId clientId : Uuid) : List Effect :=
  (otherClients st sessionId clientId).map fun c => .client c.id (serialize data)

def toSubscribedSessions (st : State) (data : Object) (channel : String) : List Effect :=
  (st.getSessions.filter fun s => s.id ∈ receivers st channel).map
    fun s => .session s.id (serialize data)

def toSession (st : State) (data : Object) (sessionId : Uuid) : List Effect :=
  (st.getSessions.filter fun s => s.id = sessionId).map
    fun s => .session s.id (serialize data)

theorem sendToSessions_eq (data : Object) (w : World) :
    sendToSessions data w =
      (.ok (UInt64.ofNat w.state.getSessions.length), w.emit (toSessions w.state data)) := by
  rw [sendToSessions, getState_bind]
  exact M.bind_ok (forEach_map (fun s : Session => .session s.id (serialize data)) _ w)

theorem sendToOthersClients_eq (data : Object) (s c : Uuid) (w : World) :
    sendToOthersClients data s c w =
      (.ok (UInt64.ofNat w.state.getClients.length - 1),
        w.emit (toOthersClients w.state data s c)) := by
  have hbody : (fun d : Client => if d.id = c ∨ d.sessionId ≠ s then (pure () : M Unit)
      else Client.send d.id (serialize data)) =
      fun d => if d.id ≠ c ∧ d.sessionId = s then emit (.client d.id (serialize data))
        else pure () := by
    funext d
    by_cases h1 : d.id = c <;> by_cases h2 : d.sessionId = s <;> simp [h1, h2, Client.send]
  rw [sendToOthersClients, getState_bind, hbody]
  exact M.bind_ok (forEach_filter _ (fun d : Client => .client d.id (serialize data)) _ w)

theorem mem_receivers {st : State} {ch : String} {s : Uuid} :
    s ∈ receivers st ch ↔ ∃ r ∈ st.subscriptions, r.channel = ch ∧ r.sessionId = s := by
  simp [receivers, Table.mem_def, and_assoc]

theorem sendToSubscribedSessions_eq (data : Object) (ch : String) (w : World) :
    sendToSubscribedSessions data ch w =
      (.ok (UInt64.ofNat (receivers w.state ch).length),
        w.emit (toSubscribedSessions w.state data ch)) := by
  rw [sendToSubscribedSessions, getState_bind]
  by_cases h : receivers w.state ch = []
  · simp [h, toSubscribedSessions]
  · rw [if_neg (by simpa using h)]
    exact M.bind_ok (forEach_filter _ (fun s : Session => .session s.id (serialize data)) _ w)

theorem sendToSession_eq (s f t : Uuid) (payload : Object) (w : World) :
    sendToSession s f t payload w = (.ok (), World.emit { w with drawn := w.drawn + 1 }
      (toSession w.state (sendObject (w.env.random w.drawn) f t payload) s)) := by
  rw [sendToSession, getState_bind, random_bind]
  exact forEach_filter _ (fun x : Session => .session x.id (serialize
    (sendObject (w.env.random w.drawn) f t payload))) _ _

theorem syncSessions_eq (id : Uuid) (registered : Bool) (w : World) :
    syncSessions id registered w = (.ok (), { w with
      drawn := w.drawn + (reported w.state id registered).length
      effects := w.effects ++ announced w.env.random id sessionObject w.drawn
        (reported w.state id registered) }) := by
  rw [syncSessions, getState_bind, announce_eq]

theorem syncClients_eq (id : Uuid) (w : World) : syncClients id w = (.ok (), { w with
    drawn := w.drawn + (localClients w.state).length
    effects := w.effects ++
      announced w.env.random id syncJoinObject w.drawn (localClients w.state) }) := by
  rw [syncClients, getState_bind, announce_eq]

theorem syncSubscriptions_eq (id : Uuid) (w : World) :
    syncSubscriptions id w = (.ok (), { w with
      drawn := w.drawn + (localSubscriptions w.state).length
      effects := w.effects ++ announced w.env.random id syncSubscribeObject w.drawn
        (localSubscriptions w.state) }) := by
  rw [syncSubscriptions, getState_bind, announce_eq]

/-- The texts of `sync`, when `i` ids have been drawn before. -/
def syncTexts (rnd : Nat → Uuid) (i : Nat) (st : State) (id : Uuid) (registered : Bool) :
    List Effect :=
  let ss := reported st id registered
  announced rnd id sessionObject i ss ++
    (announced rnd id syncJoinObject (i + ss.length) (localClients st) ++
      announced rnd id syncSubscribeObject (i + ss.length + (localClients st).length)
        (localSubscriptions st))

theorem sync_eq (id : Uuid) (registered : Bool) (w : World) :
    ∃ n, sync id registered w = (.ok (), World.emit { w with drawn := n }
      (syncTexts w.env.random w.drawn w.state id registered)) := by
  refine ⟨w.drawn + (reported w.state id registered).length + (localClients w.state).length +
    (localSubscriptions w.state).length, ?_⟩
  rw [sync, M.bind_ok (syncSessions_eq id registered w), M.bind_ok (syncClients_eq id _),
    syncSubscriptions_eq]
  simp [syncTexts, World.emit]

end Aewt
