import AewtState.Command

/-!
# What a command does

`outcome` writes down, for every command, the node afterwards, what is sent and what the
response says.  `perform_spec` shows that the code does exactly that, and `kernel_cases` is
the inversion of the whole kernel: it raised before it changed anything, it rejected the
message and changed nothing, or it performed one command.

Everything proved about the kernel later is a case analysis over `outcome`.
-/

set_option autoImplicit false

namespace Aewt

/-- The node afterwards, the effects, and the message and data of the reply (`none` for an
acknowledgement). -/
structure Outcome where
  state : State
  effects : List Effect
  reply : Option (String × Object)

variable (w : World) (request : Request)

/-- Forwarding, or nothing in context `onSession`. -/
def relayed (request : Request) (es : List Effect) : List Effect :=
  match request.context with
  | .onClient => es
  | .onSession => []

def countReply (count : UInt64) : String × Object :=
  (getStatus (0 < count), [("count", .uint64 count)])

/-- The number `send_to_others_clients` returns. -/
def othersCount (st : State) : UInt64 := UInt64.ofNat st.getClients.length - 1

def sendOutcome (fromClientId toClientId : Uuid) (payload : Object) : Outcome :=
  match w.state.getClient toClientId with
  | some client =>
    if client.sessionId = w.state.id then
      ⟨w.state, [.client client.id (serialize
        (sendObject (w.env.random w.drawn) fromClientId client.id payload))],
        some ("ok", [])⟩
    else
      match request.context with
      | .onClient => ⟨w.state, toSession w.state
          (sendObject (w.env.random w.drawn) fromClientId client.id payload) client.sessionId,
          some ("ok", [])⟩
      | .onSession => ⟨w.state, [], some ("no effect", [])⟩
  | none => ⟨w.state, [], some ("no effect", [])⟩

def registerOutcome (sessionsPort clientsPort : UInt64) (registered : Bool) : Outcome :=
  match w.state.getSession request.entityId with
  | some session =>
    let st := w.state.markAsRegistered session.id sessionsPort.toUInt16 clientsPort.toUInt16
    ⟨st, syncTexts w.env.random w.drawn st session.id registered, some ("ok", [])⟩
  | none => ⟨w.state, [], some ("no effect", [])⟩

/-- The session that `dial` enters in the map. -/
def dialled (id : Uuid) (sessionsPort clientsPort : UInt64) : Session where
  id := id
  sessionsPort := sessionsPort.toUInt16
  clientsPort := clientsPort.toUInt16

def sessionOutcome (host : String) (sessionsPort clientsPort : UInt64) : Outcome :=
  if isKnown w.state host sessionsPort clientsPort then
    ⟨w.state, [], some ("no effect", [])⟩
  else
    ⟨(w.state.addSession (dialled (w.env.random w.drawn) sessionsPort clientsPort)).1,
      [.dial (w.env.random w.drawn) host sessionsPort], some ("ok", [])⟩

def outcome : Command → Outcome
  | .ping => ⟨w.state, [], some ("pong", [])⟩
  | .ack => ⟨w.state, [], none⟩
  | .noEffect => ⟨w.state, [], some ("no effect", [])⟩
  | .send fromClientId toClientId payload =>
    sendOutcome w request fromClientId toClientId payload
  | .register sessionsPort clientsPort registered =>
    registerOutcome w request sessionsPort clientsPort registered
  | .session host sessionsPort clientsPort => sessionOutcome w host sessionsPort clientsPort
  | .subscribe clientId channel =>
    let r := w.state.subscribe (owner request w.state) clientId channel
    ⟨r.1, relayed request
      (toSessions r.1 (makeSubscribeRequestObject request clientId channel)),
      some (getStatus r.2, [])⟩
  | .unsubscribe clientId channel =>
    let r := w.state.unsubscribe (owner request w.state) clientId channel
    ⟨r.1, relayed request
      (toSessions r.1 (makeUnsubscribeRequestObject request clientId channel)),
      some (getStatus r.2, [])⟩
  | .isSubscribed channel =>
    ⟨w.state, [], some (getStatus (w.state.isSubscribed request.entityId channel) "yes" "no",
      [])⟩
  | .broadcast clientId payload =>
    let data := makeBroadcastRequestObject request clientId payload
    ⟨w.state, toOthersClients w.state data w.state.id clientId ++
      relayed request (toSessions w.state data), some (countReply (othersCount w.state))⟩
  | .publish clientId channel payload =>
    let data := makePublishRequestObject request clientId channel payload
    ⟨w.state, toOthersClients w.state data w.state.id clientId ++
      relayed request (toSubscribedSessions w.state data channel),
      some (countReply (othersCount w.state))⟩
  | .join clientId =>
    let r := w.state.addClient ⟨clientId, request.entityId⟩
    ⟨r.1, [], some (getStatus r.2, [])⟩
  | .leave clientId =>
    let r := w.state.removeClient clientId
    ⟨r.1, [], some (getStatus r.2, [])⟩

variable {w request}

/-- A message to a client changes no store. -/
@[simp] theorem sendOutcome_state (f t : Uuid) (payload : Object) :
    (sendOutcome w request f t payload).state = w.state := by
  unfold sendOutcome
  cases w.state.getClient t with
  | none => rfl
  | some client =>
    simp only
    split
    · rfl
    · cases request.context <;> rfl

/-- A registration changes the session on which it came. -/
@[simp] theorem registerOutcome_state (sp cp : UInt64) (registered : Bool) :
    (registerOutcome w request sp cp registered).state =
      w.state.markAsRegistered request.entityId sp.toUInt16 cp.toUInt16 := by
  unfold registerOutcome
  cases hs : w.state.getSession request.entityId with
  | none => exact (State.markAsRegistered_of_none hs).symm
  | some session =>
    obtain ⟨-, hid⟩ := Table.find?_eq_some.mp hs
    simp only [hid]

variable (w request)

/-! ## The code does it -/

/-- The response after a command: untouched data for an acknowledgement, one write of
`data_` otherwise. -/
def Response.replied (r : Response) (transactionId : Uuid) (timestamp runtime : Int64) :
    Option (String × Object) → Response
  | none => { r with isAck := true }
  | some (message, data) => { r with
      data := successData transactionId message timestamp runtime data
      writes := r.writes + 1 }

/-- `w'` is the world after outcome `o` in `w`. -/
structure Performed (o : Outcome) (w' : World) : Prop where
  state : w'.state = o.state
  effects : w'.effects = w.effects ++ o.effects
  env : w'.env = w.env
  response : ∃ runtime, w'.response =
    w.response.replied request.transactionId request.timestamp runtime o.reply

theorem next_eq (status : String) (data : Object) :
    next request status data w = (.ok (), World.withResponse { w with ticks := w.ticks + 1 }
      { w.response with
        data := successData request.transactionId status request.timestamp
          (w.env.clock w.ticks - request.timestamp) data
        writes := w.response.writes + 1 }) := rfl

variable {w request}

/-- A computation that ends by setting the response. -/
theorem performed_next {v : World} {st : State} {es : List Effect} {status : String}
    {data : Object} (hs : v.state = st) (he : v.effects = w.effects ++ es)
    (hv : v.env = w.env) (hr : v.response = w.response) :
    ∃ w', next request status data v = (.ok (), w') ∧
      Performed w request ⟨st, es, some (status, data)⟩ w' := by
  refine ⟨_, next_eq v request status data, hs, he, hv, ?_⟩
  exact ⟨v.env.clock v.ticks - request.timestamp, by simp [Response.replied, hr]⟩

variable (w request)

theorem performSend_spec (f t : Uuid) (payload : Object) :
    ∃ w', performSend request f t payload w = (.ok (), w') ∧
      Performed w request (sendOutcome w request f t payload) w' := by
  unfold performSend sendOutcome
  rw [getState_bind]
  cases hc : w.state.getClient t with
  | none => exact performed_next rfl (by simp) rfl rfl
  | some client =>
    simp only
    split
    · rw [random_bind]
      simp only [Client.send]
      rw [emit_bind]
      exact performed_next rfl rfl rfl rfl
    · cases hctx : request.context with
      | onClient =>
        simp only
        rw [M.bind_ok (sendToSession_eq _ _ _ _ w)]
        exact performed_next rfl rfl rfl rfl
      | onSession => exact performed_next rfl (by simp) rfl rfl

theorem performRegister_spec (sp cp : UInt64) (registered : Bool) :
    ∃ w', performRegister request sp cp registered w = (.ok (), w') ∧
      Performed w request (registerOutcome w request sp cp registered) w' := by
  unfold performRegister registerOutcome
  rw [getState_bind]
  cases hs : w.state.getSession request.entityId with
  | none => exact performed_next rfl (by simp) rfl rfl
  | some session =>
    simp only
    rw [update_bind]
    obtain ⟨n, hsync⟩ := sync_eq session.id registered (w.withState
      (w.state.markAsRegistered session.id sp.toUInt16 cp.toUInt16))
    rw [M.bind_ok hsync]
    exact performed_next rfl rfl rfl rfl

theorem dial_eq (host : String) (sp cp : UInt64) (h : w.env.resolves host sp = true) :
    dial host sp cp w = (.ok (), World.withState
      (World.emit { w with drawn := w.drawn + 1 } [.dial (w.env.random w.drawn) host sp])
      (w.state.addSession (dialled (w.env.random w.drawn) sp cp)).1) := by
  have hr : resolve host sp w = (.ok (), w) := by simp [resolve, h]
  rw [dial, M.bind_ok hr]
  rfl

theorem performSession_spec (host : String) (sp cp : UInt64)
    (h : w.env.resolves host sp = true) :
    ∃ w', performSession request host sp cp w = (.ok (), w') ∧
      Performed w request (sessionOutcome w host sp cp) w' := by
  unfold performSession sessionOutcome
  rw [getState_bind]
  split
  · exact performed_next rfl (by simp) rfl rfl
  · rw [M.bind_ok (dial_eq w host sp cp h)]
    exact performed_next rfl rfl rfl rfl

/-- A name that does not resolve raises before anything changed. -/
theorem performSession_unresolved (host : String) (sp cp : UInt64)
    (h : w.env.resolves host sp = false) (hk : isKnown w.state host sp cp = false) :
    performSession request host sp cp w = (.error .hostNotFound, w) := by
  have hr : resolve host sp w = (.error .hostNotFound, w) := by simp [resolve, h]
  rw [performSession, getState_bind, if_neg (by simp [hk]), dial]
  exact M.bind_error (M.bind_error hr)

/-- A session that is known is not looked up in the resolver. -/
theorem performSession_known (host : String) (sp cp : UInt64)
    (hk : isKnown w.state host sp cp = true) :
    performSession request host sp cp w = next request "no effect" [] w := by
  rw [performSession, getState_bind]
  exact congrFun (if_pos hk) w

variable {w}

theorem relay_eq (request : Request) {x : M UInt64} {es : List Effect}
    (h : ∀ v : World, v.state = w.state → ∃ n, x v = (.ok n, v.emit es)) {v : World}
    (hv : v.state = w.state) :
    relay request x v = (.ok (), v.emit (relayed request es)) := by
  unfold relay relayed
  cases request.context with
  | onSession => simp
  | onClient =>
    obtain ⟨n, hn⟩ := h v hv
    simp only
    rw [M.bind_ok hn]
    rfl

theorem sendToSessions_of_state (data : Object) (v : World) (hv : v.state = w.state) :
    ∃ n, sendToSessions data v = (.ok n, v.emit (toSessions w.state data)) :=
  ⟨_, by rw [sendToSessions_eq, hv]⟩

theorem sendToSubscribedSessions_of_state (data : Object) (ch : String) (v : World)
    (hv : v.state = w.state) : ∃ n, sendToSubscribedSessions data ch v =
      (.ok n, v.emit (toSubscribedSessions w.state data ch)) :=
  ⟨_, by rw [sendToSubscribedSessions_eq, hv]⟩

variable {request}

/-- Sending after the response is set only adds to the effects. -/
theorem Performed.emit {o : Outcome} {w' : World} (h : Performed w request o w')
    (es : List Effect) :
    Performed w request ⟨o.state, o.effects ++ es, o.reply⟩ (w'.emit es) where
  state := h.state
  effects := by simp [h.effects]
  env := h.env
  response := h.response

variable (w request)

/-- `subscribe` and `unsubscribe`: change the store, set the response, forward. -/
theorem performSubscription_spec (f : State → State × Bool) (data : Object) :
    ∃ w', (update f >>= fun success => next request (getStatus success) [] >>= fun _ =>
        relay request (sendToSessions data)) w = (.ok (), w') ∧
      Performed w request ⟨(f w.state).1, relayed request (toSessions (f w.state).1 data),
        some (getStatus (f w.state).2, [])⟩ w' := by
  obtain ⟨v, hnext, hv⟩ : ∃ v, next request (getStatus (f w.state).2) []
      (w.withState (f w.state).1) = (.ok (), v) ∧
      Performed w request ⟨(f w.state).1, [], some (getStatus (f w.state).2, [])⟩ v :=
    performed_next rfl (by simp) rfl rfl
  have hrelay := relay_eq request (sendToSessions_of_state data)
    (hv.state.trans (World.withState_state w (f w.state).1).symm)
  rw [update_bind, M.bind_ok hnext, hrelay]
  exact ⟨_, rfl, hv.emit _⟩

/-- **Every command does what `outcome` says**, given that names resolve. -/
theorem perform_spec (command : Command)
    (h : ∀ host sp cp, command = .session host sp cp → w.env.resolves host sp = true) :
    ∃ w', perform request command w = (.ok (), w') ∧
      Performed w request (outcome w request command) w' := by
  cases command with
  | ping => exact performed_next rfl (by simp) rfl rfl
  | ack =>
    exact ⟨_, rfl, rfl, by simp [outcome], rfl, 0, rfl⟩
  | noEffect => exact performed_next rfl (by simp) rfl rfl
  | send f t payload => exact performSend_spec w request f t payload
  | register sp cp registered => exact performRegister_spec w request sp cp registered
  | session host sp cp => exact performSession_spec w request host sp cp (h host sp cp rfl)
  | subscribe c ch =>
    exact performSubscription_spec w request (·.subscribe (owner request w.state) c ch)
      (makeSubscribeRequestObject request c ch)
  | unsubscribe c ch =>
    exact performSubscription_spec w request (·.unsubscribe (owner request w.state) c ch)
      (makeUnsubscribeRequestObject request c ch)
  | isSubscribed ch => exact performed_next rfl (by simp) rfl rfl
  | broadcast c payload =>
    simp only [perform, getState_bind, broadcastToClients, broadcastToSessions]
    have hsent := sendToOthersClients_eq (makeBroadcastRequestObject request c payload)
      w.state.id c w
    have hrelay := relay_eq request (sendToSessions_of_state
      (makeBroadcastRequestObject request c payload)) (World.emit_state w (toOthersClients
        w.state (makeBroadcastRequestObject request c payload) w.state.id c))
    rw [M.bind_ok hsent, M.bind_ok hrelay]
    exact performed_next rfl (by simp) rfl rfl
  | publish c ch payload =>
    simp only [perform, getState_bind, publishToClients, publishToSessions]
    have hsent := sendToOthersClients_eq (makePublishRequestObject request c ch payload)
      w.state.id c w
    have hrelay := relay_eq request (sendToSubscribedSessions_of_state
      (makePublishRequestObject request c ch payload) ch) (World.emit_state w (toOthersClients
        w.state (makePublishRequestObject request c ch payload) w.state.id c))
    rw [M.bind_ok hsent, M.bind_ok hrelay]
    exact performed_next rfl (by simp) rfl rfl
  | join c =>
    simp only [perform, update_bind]
    exact performed_next rfl (by simp) rfl rfl
  | leave c =>
    simp only [perform, update_bind]
    exact performed_next rfl (by simp) rfl rfl

/-! ## The kernel -/

variable (data : Object) (context : Context) (entityId : Uuid)

/-- The request record `kernel` builds in the world `w`. -/
def requestOf (transactionId : Uuid) : Request :=
  ⟨transactionId, entityId, context, data, w.env.clock w.ticks⟩

/-- The world in which `kernel` handles the message: the clock was read and the response is
new. -/
def started : World := World.withResponse { w with ticks := w.ticks + 1 } {}

theorem kernel_eq : kernel data context entityId w =
    (handle data context entityId (w.env.clock w.ticks) >>= fun _ =>
      markAsProcessed >>= fun _ => getResponse) (started w) := rfl

theorem outcome_started (request : Request) (command : Command) :
    outcome (started w) request command = outcome w request command := by
  cases command <;> rfl

/-- An exception in a check or an extraction: nothing was done. -/
theorem kernel_raised {e : Raise} (h : decode data context entityId = .error e) :
    kernel data context entityId w = (.error e, started w) := by
  rw [kernel_eq, handle_eq, h]
  rfl

/-- The response to a rejected message. -/
def rejection (transactionId : Uuid) (timestamp runtime : Int64) (field message : String) :
    Response where
  failed := true
  processed := true
  data := failedData transactionId "unprocessable entity" timestamp runtime [(field, message)]
  writes := 1

/-- A rejected message: the response says so and nothing else was done. -/
theorem kernel_invalid {t : Uuid} {field message : String}
    (h : decode data context entityId = .ok (.invalid t field message)) :
    ∃ w' runtime, kernel data context entityId w =
        (.ok (rejection t (w.env.clock w.ticks) runtime field message), w') ∧
      w'.state = w.state ∧ w'.effects = w.effects ∧ w'.env = w.env := by
  rw [kernel_eq, handle_eq, h]
  exact ⟨_, _, rfl, rfl, rfl, rfl⟩

/-- The response to an accepted message. -/
def acceptance (transactionId : Uuid) (timestamp runtime : Int64)
    (reply : Option (String × Object)) : Response :=
  { Response.replied {} transactionId timestamp runtime reply with processed := true }

/-- An accepted message whose names resolve: the command was performed. -/
theorem kernel_accepted {t : Uuid} {command : Command}
    (h : decode data context entityId = .ok (.accepted t command))
    (hr : ∀ host sp cp, command = .session host sp cp → w.env.resolves host sp = true) :
    ∃ w' runtime, kernel data context entityId w =
        (.ok (acceptance t (w.env.clock w.ticks) runtime
          (outcome w (requestOf w data context entityId t) command).reply), w') ∧
      w'.state = (outcome w (requestOf w data context entityId t) command).state ∧
      w'.effects = w.effects ++
        (outcome w (requestOf w data context entityId t) command).effects ∧
      w'.env = w.env := by
  obtain ⟨v, hv, hp⟩ := perform_spec (started w) (requestOf w data context entityId t) command hr
  rw [outcome_started] at hp
  obtain ⟨runtime, hresp⟩ := hp.response
  have hh : handle data context entityId (w.env.clock w.ticks) (started w) = (.ok (), v) := by
    rw [handle_eq, h]
    exact hv
  refine ⟨v.withResponse { v.response with processed := true }, runtime, ?_, hp.state,
    hp.effects, hp.env⟩
  rw [kernel_eq, M.bind_ok hh]
  change (Except.ok { v.response with processed := true }, _) = _
  rw [hresp]
  rfl

/-- A `session` message for an unknown name: the exception comes before any change. -/
theorem kernel_unresolved {t : Uuid} {host : String} {sp cp : UInt64}
    (h : decode data context entityId = .ok (.accepted t (.session host sp cp)))
    (hr : w.env.resolves host sp = false) (hk : isKnown w.state host sp cp = false) :
    kernel data context entityId w = (.error .hostNotFound, started w) := by
  rw [kernel_eq, handle_eq, h]
  exact M.bind_error (performSession_unresolved (started w) _ host sp cp hr hk)

/-- A `session` message for a session that is known does not look at the resolver. -/
theorem kernel_known {t : Uuid} {host : String} {sp cp : UInt64}
    (h : decode data context entityId = .ok (.accepted t (.session host sp cp)))
    (hk : isKnown w.state host sp cp = true) :
    ∃ w' runtime, kernel data context entityId w =
        (.ok (acceptance t (w.env.clock w.ticks) runtime (some ("no effect", []))), w') ∧
      w'.state = w.state ∧ w'.effects = w.effects ∧ w'.env = w.env := by
  have hh : handle data context entityId (w.env.clock w.ticks) (started w) =
      next (requestOf w data context entityId t) "no effect" [] (started w) := by
    rw [handle_eq, h]
    exact performSession_known (started w) _ host sp cp hk
  rw [next_eq] at hh
  rw [kernel_eq, M.bind_ok hh]
  exact ⟨_, _, rfl, rfl, rfl, rfl⟩

/-- `w'` is `w` but for what was read from the clock and the response. -/
structure Idle (w w' : World) : Prop where
  state : w'.state = w.state
  effects : w'.effects = w.effects
  env : w'.env = w.env

theorem idle_started : Idle w (started w) := ⟨rfl, rfl, rfl⟩

/-- `w'` is the world after an accepted command. -/
structure Acted (data : Object) (context : Context) (entityId : Uuid) (transactionId : Uuid)
    (command : Command) (w w' : World) : Prop where
  state : w'.state =
    (outcome w (requestOf w data context entityId transactionId) command).state
  effects : w'.effects = w.effects ++
    (outcome w (requestOf w data context entityId transactionId) command).effects
  env : w'.env = w.env

/-- The three ways the kernel ends. -/
inductive Ended (data : Object) (context : Context) (entityId : Uuid) (w : World) : Prop where
  | raised (e : Raise) (w' : World)
      (eq : kernel data context entityId w = (.error e, w')) (idle : Idle w w')
  | rejected (t : Uuid) (field message : String) (runtime : Int64) (w' : World)
      (decoded : decode data context entityId = .ok (.invalid t field message))
      (eq : kernel data context entityId w =
        (.ok (rejection t (w.env.clock w.ticks) runtime field message), w'))
      (idle : Idle w w')
  | accepted (t : Uuid) (command : Command) (runtime : Int64) (w' : World)
      (decoded : decode data context entityId = .ok (.accepted t command))
      (eq : kernel data context entityId w =
        (.ok (acceptance t (w.env.clock w.ticks) runtime
          (outcome w (requestOf w data context entityId t) command).reply), w'))
      (acted : Acted data context entityId t command w w')

/-- **Inversion of the kernel.** -/
theorem kernel_cases : Ended data context entityId w := by
  cases hd : decode data context entityId with
  | error e => exact .raised e _ (kernel_raised w data context entityId hd) (idle_started w)
  | ok d =>
    cases d with
    | invalid t field message =>
      obtain ⟨w', runtime, hk, hs, he, hv⟩ := kernel_invalid w data context entityId hd
      exact .rejected t field message runtime w' hd hk ⟨hs, he, hv⟩
    | accepted t command =>
      by_cases hr : ∀ host sp cp, command = .session host sp cp →
          w.env.resolves host sp = true
      · obtain ⟨w', runtime, hk, hs, he, hv⟩ := kernel_accepted w data context entityId hd hr
        exact .accepted t command runtime w' hd hk ⟨hs, he, hv⟩
      · push Not at hr
        obtain ⟨host, sp, cp, rfl, hres⟩ := hr
        cases hkn : isKnown w.state host sp cp with
        | false =>
          exact .raised _ _ (kernel_unresolved w data context entityId hd
            (by simpa using hres) hkn) (idle_started w)
        | true =>
          obtain ⟨w', runtime, hk, hs, he, hv⟩ := kernel_known w data context entityId hd hkn
          have ho : outcome w (requestOf w data context entityId t) (.session host sp cp) =
              ⟨w.state, [], some ("no effect", [])⟩ := if_pos hkn
          refine .accepted t _ runtime w' hd ?_ ⟨?_, ?_, hv⟩
          · rw [ho]; exact hk
          · rw [ho]; exact hs
          · rw [ho]; simpa using he

end Aewt
