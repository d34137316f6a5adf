import AewtState.Events

/-!
# The messages between nodes

* `Notice` — every kind of message that a node sends to a peer, by the function of the source
  that builds it; `Notice.object` is the object built.
* `Notice.check` — the validator of the action that the peer runs.
* `Notice.command` — what the peer is to make of it.

Principal results: `notice_decoded` — the peer's validators pass and its handler extracts what
the notice was built from; `outcome_notice` — a command sends nothing but notices on a
session.
-/

set_option autoImplicit false

namespace Aewt

/-- A message to a peer.  The first component is the request it forwards, or the fresh
transaction id. -/
inductive Notice where
  /-- `make_broadcast_request_object`. -/
  | broadcast (request : Request) (clientId : Uuid) (payload : Object)
  /-- `make_publish_request_object`. -/
  | publish (request : Request) (clientId : Uuid) (channel : String) (payload : Object)
  /-- `make_join_request_object`. -/
  | join (t clientId : Uuid)
  /-- `make_leave_request_object`. -/
  | leave (t clientId : Uuid)
  /-- `make_subscribe_request_object`. -/
  | subscribe (request : Request) (clientId : Uuid) (channel : String)
  /-- `make_unsubscribe_request_object`. -/
  | unsubscribe (request : Request) (clientId : Uuid) (channel : String)
  /-- `send_to_session`. -/
  | send (t fromClientId toClientId : Uuid) (payload : Object)
  /-- `session::on_accept`. -/
  | register (t : Uuid) (config : Config)
  /-- The three loops of `sync`. -/
  | syncSession (t : Uuid) (session : Session)
  | syncJoin (t : Uuid) (client : Client)
  | syncSubscribe (t : Uuid) (subscription : Subscription)

namespace Notice

def object : Notice → Object
  | .broadcast request c payload => makeBroadcastRequestObject request c payload
  | .publish request c channel payload => makePublishRequestObject request c channel payload
  | .join t c => requestObject t "join" (clientParams c)
  | .leave t c => requestObject t "leave" (clientParams c)
  | .subscribe request c channel => makeSubscribeRequestObject request c channel
  | .unsubscribe request c channel => makeUnsubscribeRequestObject request c channel
  | .send t f c payload => sendObject t f c payload
  | .register t config => registerObject t config
  | .syncSession t session => sessionObject t session
  | .syncJoin t client => syncJoinObject t client
  | .syncSubscribe t row => syncSubscribeObject t row

/-- What the peer reads. -/
def text (m : Notice) : Text := serialize m.object

def transactionId : Notice → Uuid
  | .broadcast request _ _ | .publish request _ _ _ | .subscribe request _ _
  | .unsubscribe request _ _ => request.transactionId
  | .join t _ | .leave t _ | .send t _ _ _ | .register t _ | .syncSession t _ | .syncJoin t _
  | .syncSubscribe t _ => t

/-- The validator of the action. -/
def check : Notice → Request → Check
  | .broadcast .. => broadcastCheck
  | .publish .. => publishCheck
  | .join .. | .leave .. | .syncJoin .. => membershipCheck
  | .subscribe .. | .unsubscribe .. | .syncSubscribe .. => subscriptionsCheck
  | .send .. => sendCheck
  | .register .. => registerCheck
  | .syncSession .. => sessionCheck

/-- What the peer is to do, with the values of the notice.  A payload arrives as parsing its
text yields it. -/
def command : Notice → Command
  | .broadcast _ c payload => .broadcast c payload.wire
  | .publish _ c channel payload => .publish c channel payload.wire
  | .join _ c => .join c
  | .leave _ c => .leave c
  | .subscribe _ c channel => .subscribe c channel
  | .unsubscribe _ c channel => .unsubscribe c channel
  | .send _ f c payload => .send f c payload.wire
  | .register _ config =>
    .register config.sessionsPort.toUInt64 config.clientsPort.toUInt64 config.registered
  | .syncSession _ session =>
    .session session.host session.sessionsPort.toUInt64 session.clientsPort.toUInt64
  | .syncJoin _ client => .join client.id
  | .syncSubscribe _ row => .subscribe row.clientId row.channel

end Notice

/-- The two builders that draw the transaction id. -/
theorem makeJoinRequestObject_eq (c : Uuid) :
    makeJoinRequestObject c = random >>= fun t => pure (Notice.join t c).object := rfl

theorem makeLeaveRequestObject_eq (c : Uuid) :
    makeLeaveRequestObject c = random >>= fun t => pure (Notice.leave t c).object := rfl

/-! ## Reading a notice -/

/-- A verdict with a command comes from a check that passed. -/
theorem decodeWith_passed {check : Check} {extract : Except Raise Command} {command : Command}
    (h : decodeWith check extract = .ok (.ok command)) : check = .ok none := by
  unfold decodeWith at h
  split at h
  · cases h
  · cases h
  · rfl

theorem decode_notice (m : Notice) (s : Uuid) :
    decode m.text .onSession s = .ok (.accepted m.transactionId m.command) := by
  cases m with
  | broadcast request c payload => exact decode_broadcast (built_requestObject _ _ _)
  | publish request c channel payload => exact decode_publish (built_requestObject _ _ _)
  | join t c => exact decode_join (built_requestObject _ _ _)
  | leave t c => exact decode_leave (built_requestObject _ _ _)
  | subscribe request c channel => exact decode_subscribe (built_requestObject _ _ _)
  | unsubscribe request c channel => exact decode_unsubscribe (built_requestObject _ _ _)
  | send t f c payload => exact decode_send (built_requestObject _ _ _)
  | register t config => exact decode_register (built_requestObject _ _ _)
  | syncSession t session => exact decode_session (built_syncObject _ _ _)
  | syncJoin t client => exact decode_join (built_syncObject _ _ _)
  | syncSubscribe t row => exact decode_subscribe (built_syncObject _ _ _)

theorem validator_notice (m : Notice) : validator m.text = .ok none := by
  rw [validator_eq_none]
  cases m with
  | broadcast | publish | join | leave | subscribe | unsubscribe | send | register =>
    have h := built_requestObject
    exact ⟨_, _, (h _ _ _).action, (h _ _ _).transactionId, isUuid_toString _⟩
  | syncSession | syncJoin | syncSubscribe =>
    have h := built_syncObject
    exact ⟨_, _, (h _ _ _).action, (h _ _ _).transactionId, isUuid_toString _⟩

/-- `join` and `leave` have one check. -/
theorem check_membership {message : Object} {t s c : Uuid} {action : String}
    (h : Built message t action (clientParams c)) :
    membershipCheck (received t s message) = .ok none := by
  have hd : decodeMembership (received t s message) Command.join = _ := decodeMembership_built h
  exact decodeWith_passed hd

/-- So do `subscribe` and `unsubscribe`. -/
theorem check_subscription {message : Object} {t s c : Uuid} {action channel : String}
    (h : Built message t action (subscriptionParams c channel)) :
    subscriptionsCheck (received t s message) = .ok none := by
  have hd : decodeSubscription (received t s message) Command.subscribe = _ :=
    decodeSubscription_built h
  exact decodeWith_passed hd

theorem check_notice (m : Notice) (s : Uuid) :
    m.check (received m.transactionId s m.text) = .ok none := by
  cases m with
  | broadcast request c payload =>
    exact decodeWith_passed (decodeBroadcast_built (built_requestObject _ _ _))
  | publish request c channel payload =>
    exact decodeWith_passed (decodePublish_built (built_requestObject _ _ _))
  | join t c => exact check_membership (built_requestObject _ _ _)
  | leave t c => exact check_membership (built_requestObject _ _ _)
  | subscribe request c channel => exact check_subscription (built_requestObject _ _ _)
  | unsubscribe request c channel => exact check_subscription (built_requestObject _ _ _)
  | send t f c payload => exact decodeWith_passed (decodeSend_built (built_requestObject _ _ _))
  | register t config =>
    exact decodeWith_passed (decodeRegister_built (built_requestObject _ _ _))
  | syncSession t session =>
    exact decodeWith_passed (decodeSession_built (built_syncObject _ _ _))
  | syncJoin t client => exact check_membership (built_syncObject _ _ _)
  | syncSubscribe t row => exact check_subscription (built_syncObject _ _ _)

/-- **A peer reads back what a node builds**: for every kind of message both validators pass and
the handler extracts the values of the notice. -/
theorem notice_decoded (m : Notice) (s : Uuid) :
    validator m.text = .ok none ∧
    m.check (received m.transactionId s m.text) = .ok none ∧
    decode m.text .onSession s = .ok (.accepted m.transactionId m.command) :=
  ⟨validator_notice m, check_notice m s, decode_notice m s⟩

/-! ## Nothing else is sent to a peer -/

section

variable {w : World} {request : Request} {s : Uuid} {text : Text}

theorem mem_relayed {e : Effect} {es : List Effect} (h : e ∈ relayed request es) :
    request.context = .onClient ∧ e ∈ es := by
  unfold relayed at h
  split at h
  · rename_i hctx
    exact ⟨hctx, h⟩
  · cases h

/-- A fan-out to sessions sends one text. -/
theorem mem_fan {xs : List Session} {T : Text}
    (h : Effect.session s text ∈ xs.map fun x => Effect.session x.id T) :
    text = T ∧ ∃ x ∈ xs, x.id = s := by
  obtain ⟨x, hx, he⟩ := List.mem_map.mp h
  cases he
  exact ⟨rfl, x, hx, rfl⟩

theorem not_mem_toOthersClients {st : State} {data : Object} {o c : Uuid} :
    Effect.session s text ∉ toOthersClients st data o c := by
  intro h
  obtain ⟨x, -, he⟩ := List.mem_map.mp h
  cases he

theorem mem_syncTexts {rnd : Nat → Uuid} {i : Nat} {st : State} {id : Uuid} {registered : Bool}
    (h : Effect.session s text ∈ syncTexts rnd i st id registered) :
    s = id ∧ ∃ m : Notice, text = m.text := by
  simp only [syncTexts, List.mem_append] at h
  rcases h with h | h | h
  · obtain ⟨t, x, -, he⟩ := mem_announced h
    cases he
    exact ⟨rfl, .syncSession t x, rfl⟩
  · obtain ⟨t, c, -, he⟩ := mem_announced h
    cases he
    exact ⟨rfl, .syncJoin t c, rfl⟩
  · obtain ⟨t, r, -, he⟩ := mem_announced h
    cases he
    exact ⟨rfl, .syncSubscribe t r, rfl⟩

/-- Every text that a command sends on a session is a notice. -/
theorem outcome_notice {command : Command}
    (h : Effect.session s text ∈ (outcome w request command).effects) :
    ∃ m : Notice, text = m.text := by
  cases command with
  | ping | ack | noEffect | isSubscribed | join | leave => cases h
  | send f t payload =>
    simp only [outcome, sendOutcome] at h
    split at h
    · split at h
      · rw [List.mem_singleton] at h
        cases h
      · split at h
        · exact ⟨.send _ _ _ _, (mem_fan h).1⟩
        · cases h
    · cases h
  | register sp cp registered =>
    simp only [outcome, registerOutcome] at h
    split at h
    · exact (mem_syncTexts h).2
    · cases h
  | session host sp cp =>
    simp only [outcome, sessionOutcome] at h
    split at h
    · cases h
    · rw [List.mem_singleton] at h
      cases h
  | subscribe c ch => exact ⟨.subscribe request c ch, (mem_fan (mem_relayed h).2).1⟩
  | unsubscribe c ch => exact ⟨.unsubscribe request c ch, (mem_fan (mem_relayed h).2).1⟩
  | broadcast c payload =>
    rcases List.mem_append.mp h with h | h
    · exact absurd h not_mem_toOthersClients
    · exact ⟨.broadcast request c payload, (mem_fan (mem_relayed h).2).1⟩
  | publish c ch payload =>
    rcases List.mem_append.mp h with h | h
    · exact absurd h not_mem_toOthersClients
    · exact ⟨.publish request c ch payload, (mem_fan (mem_relayed h).2).1⟩

end

end Aewt
