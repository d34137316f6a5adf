import AewtState.Ownership

/-!
# One frame read by a connection

* `SessionRead`, `ClientRead` — the inversion of the two `on_read` functions: what the frame
  decodes to, the node afterwards, and that everything sent is the effects of the command
  followed by at most one reply.
* `Command.action?`, `decodeAction_action` — a command is decoded from its own action.
* `Command.ByClient` — the commands a client's message can decode to.
* `Session.onRead_state`, `Client.onRead_state` — what a frame that is read makes of the node.
* `textsTo` — what is sent on one session.

Principal results: `sessionRead`, `clientRead`; `decode_byClient` — a client acts in its own
name only.
-/

set_option autoImplicit false

namespace Aewt

/-! ## Sessions -/

theorem outcome_ticked (w : World) (request : Request) (command : Command) :
    outcome w.ticked request command = outcome w request command := by
  cases command <;> rfl

/-- An answer of `on_read`: a success, or the failure of a rejected message. -/
inductive IsReply : Text → Prop where
  | success (t : Uuid) (message : String) (timestamp runtime : Int64) (data : Object) :
    IsReply (serialize (successData t message timestamp runtime data))
  | failure (t : Uuid) (message : String) (timestamp runtime : Int64)
    (bag : List (String × String)) :
    IsReply (serialize (failedData t message timestamp runtime bag))

/-- How `session::on_read` ends on the object `data`. -/
inductive SessionRead (s : Uuid) (data : Object) (w : World) : Prop where
  | raised (e : Raise) (w' : World) (eq : Session.onRead s (.object data) w = (.error e, w'))
  | rejected (t : Uuid) (field message : String) (reply : Text) (w' : World)
    (decoded : decode data .onSession s = .ok (.invalid t field message))
    (eq : Session.onRead s (.object data) w = (.ok (), w'))
    (state : w'.state = w.state)
    (effects : w'.effects = w.effects ++ [.session s reply])
    (isReply : IsReply reply)
  | accepted (t : Uuid) (command : Command) (request : Request) (replies : List Text)
    (w' : World)
    (decoded : decode data .onSession s = .ok (.accepted t command))
    (transactionId : request.transactionId = t) (entityId : request.entityId = s)
    (context : request.context = .onSession)
    (eq : Session.onRead s (.object data) w = (.ok (), w'))
    (state : w'.state = (outcome w request command).state)
    (effects : w'.effects = w.effects ++ (outcome w request command).effects ++
      replies.map (Effect.session s))
    (successes : ∀ reply ∈ replies, ∃ message timestamp runtime d,
      reply = serialize (successData t message timestamp runtime d))

theorem sessionRead (s : Uuid) (data : Object) (w : World) : SessionRead s data w := by
  cases kernel_cases w.ticked data .onSession s with
  | raised e w' eq idle => exact .raised e w' (Session.onRead_raised eq)
  | rejected t field message runtime w' decoded eq idle =>
    exact .rejected t field message (serialize (failedData t "unprocessable entity"
      (w.ticked.env.clock w.ticked.ticks) runtime [(field, message)])) _ decoded
      (Session.onRead_of_kernel eq) idle.state (by
        rw [World.emit_effects, idle.effects]
        rfl) (.failure t _ _ _ _)
  | accepted t command runtime w' decoded eq acted =>
    have hs := acted.state
    have he := acted.effects
    rw [outcome_ticked] at hs he eq
    cases ho : (outcome w (requestOf w.ticked data .onSession s t) command).reply with
    | none =>
      rw [ho] at eq
      exact .accepted t command (requestOf w.ticked data .onSession s t) [] _ decoded rfl rfl
        rfl (Session.onRead_of_kernel eq) hs (by simpa [acceptance, Response.replied] using he)
        (by simp)
    | some r =>
      rw [ho] at eq
      refine .accepted t command (requestOf w.ticked data .onSession s t)
        [serialize (successData t r.1 (w.ticked.env.clock w.ticked.ticks) runtime r.2)] _
        decoded rfl rfl rfl (Session.onRead_of_kernel eq) hs ?_ ?_
      · rw [World.emit_effects, he]
        rfl
      · intro reply hr
        rw [List.mem_singleton] at hr
        exact ⟨_, _, _, _, hr⟩

/-! ## Clients -/

/-- How `client::on_read` ends on the object `data`. -/
inductive ClientRead (c : Uuid) (data : Object) (w : World) : Prop where
  | raised (e : Raise) (w' : World) (eq : Client.onRead c (.object data) w = (.error e, w'))
  | rejected (t : Uuid) (field message : String) (reply : Text) (w' : World)
    (decoded : decode data .onClient c = .ok (.invalid t field message))
    (eq : Client.onRead c (.object data) w = (.ok (), w'))
    (state : w'.state = w.state)
    (effects : w'.effects = w.effects ++ [.client c reply])
  | accepted (t : Uuid) (command : Command) (request : Request) (reply : Text) (w' : World)
    (decoded : decode data .onClient c = .ok (.accepted t command))
    (transactionId : request.transactionId = t) (entityId : request.entityId = c)
    (context : request.context = .onClient)
    (eq : Client.onRead c (.object data) w = (.ok (), w'))
    (state : w'.state = (outcome w request command).state)
    (effects : w'.effects = w.effects ++ (outcome w request command).effects ++
      [.client c reply])
    (answers : ∀ m d, (outcome w request command).reply = some (m, d) →
      ∃ timestamp runtime, reply = serialize (successData t m timestamp runtime d))

theorem Client.onRead_object (c : Uuid) (data : Object) (w : World) :
    Client.onRead c (.object data) w = (kernel data .onClient c >>= fun response =>
      Client.send c (serialize response.data)) w.ticked := rfl

theorem Client.onRead_of_kernel {c : Uuid} {data : Object} {w v : World} {r : Response}
    (h : kernel data .onClient c w.ticked = (.ok r, v)) :
    Client.onRead c (.object data) w = (.ok (), v.emit [.client c (serialize r.data)]) := by
  rw [Client.onRead_object, M.bind_ok h]
  rfl

theorem clientRead (c : Uuid) (data : Object) (w : World) : ClientRead c data w := by
  cases kernel_cases w.ticked data .onClient c with
  | raised e w' eq idle => exact .raised e w' (by
    rw [Client.onRead_object, M.bind_error eq])
  | rejected t field message runtime w' decoded eq idle =>
    exact .rejected t field message _ _ decoded (Client.onRead_of_kernel eq) idle.state (by
      rw [World.emit_effects, idle.effects]
      rfl)
  | accepted t command runtime w' decoded eq acted =>
    have hs := acted.state
    have he := acted.effects
    rw [outcome_ticked] at hs he eq
    refine .accepted t command (requestOf w.ticked data .onClient c t) _ _ decoded rfl rfl rfl
      (Client.onRead_of_kernel eq) hs (by rw [World.emit_effects, he, World.ticked_effects]) ?_
    intro m d hr
    rw [hr]
    exact ⟨_, _, rfl⟩

/-! ## Commands and their actions -/

theorem bind_eq_ok {α β : Type} {x : Except Raise α} {f : α → Except Raise β} {b : β} :
    (x >>= f) = .ok b ↔ ∃ a, x = .ok a ∧ f a = .ok b := by
  cases x <;> simp [bind, Except.bind]

theorem decodeWith_accepted {check : Check} {extract : Except Raise Command}
    {command : Command} (h : decodeWith check extract = .ok (.ok command)) :
    extract = .ok command := by
  unfold decodeWith at h
  split at h
  · cases h
  · cases h
  · cases extract with
    | error e => cases h
    | ok c => cases h; rfl

/-- The action from which a command is decoded; several are decoded to `noEffect`. -/
def Command.action? : Command → Option String
  | .ping => some "ping"
  | .ack => some "ack"
  | .noEffect => none
  | .send _ _ _ => some "send"
  | .register _ _ _ => some "register"
  | .session _ _ _ => some "session"
  | .subscribe _ _ => some "subscribe"
  | .unsubscribe _ _ => some "unsubscribe"
  | .isSubscribed _ => some "is_subscribed"
  | .broadcast _ _ => some "broadcast"
  | .publish _ _ _ => some "publish"
  | .join _ => some "join"
  | .leave _ => some "leave"

/-- The commands of an extraction are those of the action. -/
def Extracts (action : String) (x : Except Raise Command) : Prop :=
  ∀ command name, x = .ok command → command.action? = some name → name = action

section

variable {action name : String} {command : Command}

theorem extracts_ok (h : command.action? = some action ∨ command.action? = none) :
    Extracts action (.ok command) := by
  rintro c name hc hn
  cases hc
  rcases h with h | h
  · exact Option.some.inj (hn.symm.trans h)
  · rw [h] at hn
    cases hn

theorem Extracts.bind {α : Type} {x : Except Raise α} {f : α → Except Raise Command}
    (h : ∀ a, Extracts action (f a)) : Extracts action (x >>= f) := by
  intro c name hc hn
  obtain ⟨a, -, ha⟩ := bind_eq_ok.mp hc
  exact h a c name ha hn

theorem Extracts.decodeWith {check : Check} {extract : Except Raise Command}
    (hx : Extracts action extract) (h : decodeWith check extract = .ok (.ok command))
    (hn : command.action? = some name) : name = action :=
  hx command name (decodeWith_accepted h) hn

/-- **A command is decoded from its own action.** -/
theorem decodeAction_action {request : Request}
    (h : decodeAction request action = .ok (.ok command)) (hn : command.action? = some name) :
    name = action := by
  by_cases ha : action ∈ actions
  · simp only [actions, List.mem_cons, List.not_mem_nil, or_false] at ha
    rcases ha with rfl | rfl | rfl | rfl | rfl | rfl | rfl | rfl | rfl | rfl | rfl | rfl
    · rw [decodeAction_ping] at h
      cases h
      exact (Option.some.inj hn).symm
    · rw [decodeAction_send] at h
      exact Extracts.decodeWith (.bind fun _ => .bind fun _ => .bind fun _ => .bind fun _ =>
        extracts_ok (.inl rfl)) h hn
    · rw [decodeAction_register, decodeRegister] at h
      split at h
      · cases h
        cases hn
      · exact Extracts.decodeWith (.bind fun _ => .bind fun _ => .bind fun _ => .bind fun _ =>
          extracts_ok (.inl rfl)) h hn
    · rw [decodeAction_session, decodeSession] at h
      split at h
      · cases h
        cases hn
      · exact Extracts.decodeWith (.bind fun _ => .bind fun _ => .bind fun _ => .bind fun _ =>
          extracts_ok (.inl rfl)) h hn
    · rw [decodeAction_ack] at h
      cases h
      exact (Option.some.inj hn).symm
    · rw [decodeAction_subscribe] at h
      exact Extracts.decodeWith (.bind fun _ => .bind fun _ => .bind fun _ =>
        extracts_ok (.inl rfl)) h hn
    · rw [decodeAction_isSubscribed] at h
      refine Extracts.decodeWith (.bind fun _ => .bind fun _ => ?_) h hn
      cases request.context
      · exact extracts_ok (.inr rfl)
      · exact extracts_ok (.inl rfl)
    · rw [decodeAction_unsubscribe] at h
      exact Extracts.decodeWith (.bind fun _ => .bind fun _ => .bind fun _ =>
        extracts_ok (.inl rfl)) h hn
    · rw [decodeAction_broadcast] at h
      exact Extracts.decodeWith (.bind fun _ => .bind fun _ => .bind fun _ =>
        extracts_ok (.inl rfl)) h hn
    · rw [decodeAction_publish] at h
      exact Extracts.decodeWith (.bind fun _ => .bind fun _ => .bind fun _ => .bind fun _ =>
        extracts_ok (.inl rfl)) h hn
    · rw [decodeAction_join, decodeMembership] at h
      split at h
      · cases h
        cases hn
      · exact Extracts.decodeWith (.bind fun _ => .bind fun _ => extracts_ok (.inl rfl)) h hn
    · rw [decodeAction_leave, decodeMembership] at h
      split at h
      · cases h
        cases hn
      · exact Extracts.decodeWith (.bind fun _ => .bind fun _ => extracts_ok (.inl rfl)) h hn
  · rw [decodeAction_unknown request ha] at h
    cases h

end

/-! ## Requests of a client -/

/-- The commands that a client's message decodes to: the acting client is the connection's
own. -/
inductive Command.ByClient (c : Uuid) : Command → Prop where
  | ping : ByClient c .ping
  | ack : ByClient c .ack
  | noEffect : ByClient c .noEffect
  | send (t : Uuid) (payload : Object) : ByClient c (.send c t payload)
  | subscribe (channel : String) : ByClient c (.subscribe c channel)
  | unsubscribe (channel : String) : ByClient c (.unsubscribe c channel)
  | isSubscribed (channel : String) : ByClient c (.isSubscribed channel)
  | broadcast (payload : Object) : ByClient c (.broadcast c payload)
  | publish (channel : String) (payload : Object) : ByClient c (.publish c channel payload)

section

variable {request : Request} {c : Uuid} {command : Command}

theorem actor_onClient (hctx : request.context = .onClient) {params : Object} {name : String}
    {u : Uuid} (h : actor request params name = .ok u) : u = request.entityId := by
  simp only [actor, hctx] at h
  cases h
  rfl

theorem decodeSend_byClient (hctx : request.context = .onClient)
    (h : decodeSend request = .ok (.ok command)) : command.ByClient request.entityId := by
  have hx := decodeWith_accepted h
  simp only [bind_eq_ok] at hx
  obtain ⟨params, -, t, -, payload, -, f, hf, hx⟩ := hx
  cases hx
  rw [actor_onClient hctx hf]
  exact .send t payload

theorem decodeBroadcast_byClient (hctx : request.context = .onClient)
    (h : decodeBroadcast request = .ok (.ok command)) :
    command.ByClient request.entityId := by
  have hx := decodeWith_accepted h
  simp only [bind_eq_ok] at hx
  obtain ⟨params, -, payload, -, f, hf, hx⟩ := hx
  cases hx
  rw [actor_onClient hctx hf]
  exact .broadcast payload

theorem decodePublish_byClient (hctx : request.context = .onClient)
    (h : decodePublish request = .ok (.ok command)) :
    command.ByClient request.entityId := by
  have hx := decodeWith_accepted h
  simp only [bind_eq_ok] at hx
  obtain ⟨params, -, ch, -, payload, -, f, hf, hx⟩ := hx
  cases hx
  rw [actor_onClient hctx hf]
  exact .publish ch payload

theorem decodeSubscription_byClient (hctx : request.context = .onClient)
    {make : Uuid → String → Command} (hmake : ∀ ch, (make request.entityId ch).ByClient
      request.entityId) (h : decodeSubscription request make = .ok (.ok command)) :
    command.ByClient request.entityId := by
  have hx := decodeWith_accepted h
  simp only [bind_eq_ok] at hx
  obtain ⟨params, -, ch, -, f, hf, hx⟩ := hx
  cases hx
  rw [actor_onClient hctx hf]
  exact hmake ch

theorem decodeIsSubscribed_byClient (hctx : request.context = .onClient)
    (h : decodeIsSubscribed request = .ok (.ok command)) :
    command.ByClient request.entityId := by
  have hx := decodeWith_accepted h
  simp only [bind_eq_ok, hctx] at hx
  obtain ⟨params, -, ch, -, hx⟩ := hx
  cases hx
  exact .isSubscribed ch

theorem decodeAction_byClient (hctx : request.context = .onClient) {action : String}
    (h : decodeAction request action = .ok (.ok command)) :
    command.ByClient request.entityId := by
  by_cases ha : action ∈ actions
  · simp only [actions, List.mem_cons, List.not_mem_nil, or_false] at ha
    rcases ha with rfl | rfl | rfl | rfl | rfl | rfl | rfl | rfl | rfl | rfl | rfl | rfl
    · rw [decodeAction_ping] at h
      cases h
      exact .ping
    · exact decodeSend_byClient hctx (by rwa [decodeAction_send] at h)
    · rw [decodeAction_register, decodeRegister, hctx] at h
      cases h
      exact .noEffect
    · rw [decodeAction_session, decodeSession, hctx] at h
      cases h
      exact .noEffect
    · rw [decodeAction_ack] at h
      cases h
      exact .ack
    · exact decodeSubscription_byClient hctx (fun _ => .subscribe _)
        (by rwa [decodeAction_subscribe] at h)
    · exact decodeIsSubscribed_byClient hctx (by rwa [decodeAction_isSubscribed] at h)
    · exact decodeSubscription_byClient hctx (fun _ => .unsubscribe _)
        (by rwa [decodeAction_unsubscribe] at h)
    · exact decodeBroadcast_byClient hctx (by rwa [decodeAction_broadcast] at h)
    · exact decodePublish_byClient hctx (by rwa [decodeAction_publish] at h)
    · rw [decodeAction_join, decodeMembership, hctx] at h
      cases h
      exact .noEffect
    · rw [decodeAction_leave, decodeMembership, hctx] at h
      cases h
      exact .noEffect
  · rw [decodeAction_unknown request ha] at h
    cases h

end

/-- An accepted message is a verdict of its action. -/
theorem decode_accepted {data : Object} {context : Context} {entityId t : Uuid}
    {command : Command} (h : decode data context entityId = .ok (.accepted t command)) :
    ∃ action, data.find? "action" = some (.string action) ∧
      decodeAction ⟨t, entityId, context, data, 0⟩ action = .ok (.ok command) := by
  rcases decode_cases h with ⟨action, s, u, ha, -, -, hv⟩ | ⟨_, _, _, _, -, -, hx⟩ | ⟨-, _, _, hx⟩
  · obtain ⟨rfl, hd⟩ := Verdict.of_decoded_accepted hv
    exact ⟨action, ha, hd⟩
  · cases hx
  · cases hx

/-- **A client acts in its own name.** -/
theorem decode_byClient {data : Object} {c t : Uuid} {command : Command}
    (h : decode data .onClient c = .ok (.accepted t command)) : command.ByClient c := by
  obtain ⟨action, -, ha⟩ := decode_accepted h
  exact decodeAction_byClient rfl ha

/-! ## The state after a frame -/

/-- A frame that a session read to its end left the state alone, or was a command that was
performed. -/
theorem Session.onRead_state {s : Uuid} {frame : Frame} {w w' : World}
    (h : Session.onRead s frame w = (.ok (), w')) : w'.state = w.state ∨
      ∃ data t command request, frame = .object data ∧
        decode data .onSession s = .ok (.accepted t command) ∧
        request.context = .onSession ∧ request.entityId = s ∧
        w'.state = (outcome w request command).state ∧
        (outcome w request command).effects ⊆ w'.effects := by
  cases frame with
  | other =>
    cases h
    exact .inl rfl
  | object data =>
    cases sessionRead s data w with
    | raised e v eq =>
      rw [eq] at h
      cases h
    | rejected t field message reply v decoded eq state effects isReply =>
      rw [eq] at h
      cases h
      exact .inl state
    | accepted t command request replies v decoded transactionId entityId context eq state
        effects successes =>
      rw [eq] at h
      cases h
      refine .inr ⟨data, t, command, request, rfl, decoded, context, entityId, state, ?_⟩
      rw [effects]
      exact fun e he => List.mem_append_left _ (List.mem_append_right _ he)

/-- The same for a client, whose command is in its own name. -/
theorem Client.onRead_state {c : Uuid} {frame : Frame} {w w' : World}
    (h : Client.onRead c frame w = (.ok (), w')) : w'.state = w.state ∨
      ∃ command request, command.ByClient c ∧ request.context = .onClient ∧
        request.entityId = c ∧ w'.state = (outcome w request command).state := by
  cases frame with
  | other =>
    cases h
    exact .inl rfl
  | object data =>
    cases clientRead c data w with
    | raised e v eq =>
      rw [eq] at h
      cases h
    | rejected t field message reply v decoded eq state effects =>
      rw [eq] at h
      cases h
      exact .inl state
    | accepted t command request reply v decoded transactionId entityId context eq state
        effects answers =>
      rw [eq] at h
      cases h
      exact .inr ⟨command, request, decode_byClient decoded, context, entityId, state⟩

/-! ## What is sent on one session -/

/-- The texts sent on session `s`, in order. -/
def textsTo (s : Uuid) (es : List Effect) : List Text :=
  es.filterMap fun e => match e with
    | .session s' text => if s' = s then some text else none
    | _ => none

@[simp] theorem textsTo_nil (s : Uuid) : textsTo s [] = [] := rfl

@[simp] theorem textsTo_append (s : Uuid) (es fs : List Effect) :
    textsTo s (es ++ fs) = textsTo s es ++ textsTo s fs := List.filterMap_append

@[simp] theorem textsTo_client (s c : Uuid) (text : Text) :
    textsTo s [.client c text] = [] := rfl

@[simp] theorem textsTo_session (s : Uuid) (text : Text) :
    textsTo s [.session s text] = [text] := by simp [textsTo]

theorem textsTo_toOthersClients (s : Uuid) (st : State) (data : Object) (o c : Uuid) :
    textsTo s (toOthersClients st data o c) = [] := by
  simp [textsTo, toOthersClients]

/-- One text on a session of the node, none on another. -/
theorem textsTo_sessions (s : Uuid) (text : Text) : ∀ xs : List Session,
    textsTo s (xs.map fun x => .session x.id text) =
      (xs.filter fun x => x.id = s).map fun _ => text
  | [] => rfl
  | x :: xs => by
    have ih := textsTo_sessions s text xs
    simp only [textsTo] at ih
    by_cases h : x.id = s <;> simp [textsTo, h, ih]

theorem textsTo_toSessions (s : Uuid) (st : State) (data : Object) :
    textsTo s (toSessions st data) =
      ((st.getSession s).toList.map fun _ => serialize data) := by
  rw [toSessions, textsTo_sessions, State.getSessions, Table.filter_key]
  rfl

theorem mem_textsTo_sessions {s : Uuid} {text t : Text} {xs : List Session}
    (h : t ∈ textsTo s (xs.map fun x => .session x.id text)) : t = text := by
  rw [textsTo_sessions] at h
  obtain ⟨-, -, rfl⟩ := List.mem_map.mp h
  rfl

end Aewt
