import AewtState.Transparency

/-!
# A client acts only as itself

A client's connection carries its identity; ids that the client writes into `params` are not
looked at.

* `ActsFor` — what may change in the stores.
* `Carries` — a message names the acting client.
* `Alike` — two objects that differ in the identity members of `params` at most.

Principal results: `decode_alike` — alike objects decode alike; `client_acts_as_itself` — the
stores, the messages and the answer of a client's request.
-/

set_option autoImplicit false

namespace Aewt

/-! ## Objects that differ in an identity -/

/-- The members of `params` that name somebody other than a recipient. -/
def identityMembers : List String := ["client_id", "from_client_id", "session_id"]

/-- The objects agree outside the identity members of `params`. -/
structure Alike (data data' : Object) : Prop where
  envelope : ∀ key, key ≠ "params" → data.find? key = data'.find? key
  params : data.find? "params" = data'.find? "params" ∨
    ∃ p p' : Object, data.find? "params" = some (.object p) ∧
      data'.find? "params" = some (.object p') ∧
      ∀ key, key ∉ identityMembers → p.find? key = p'.find? key

section

variable {p p' : Object} {name kind : String}

theorem atKey_congr (h : p.find? name = p'.find? name) : p.atKey name = p'.atKey name := by
  rw [Object.atKey, Object.atKey, h]

theorem contains_congr (h : p.find? name = p'.find? name) :
    p.contains name = p'.contains name := by
  rw [Object.contains, Object.contains, h]

theorem member_congr (h : p.find? name = p'.find? name) (isKind : Value → Bool) (rest : Check) :
    member p name kind isKind rest = member p' name kind isKind rest := by
  rw [member, member, contains_congr h, atKey_congr h]

theorem idCheck_congr (h : p.find? name = p'.find? name) :
    idCheck p name = idCheck p' name := by
  rw [idCheck, idCheck, atKey_congr h]
  exact member_congr h _ _

theorem getParamAsId_congr (h : p.find? name = p'.find? name) :
    getParamAsId p name = getParamAsId p' name := by
  rw [getParamAsId, getParamAsId, atKey_congr h]

theorem getParamAsString_congr (h : p.find? name = p'.find? name) :
    getParamAsString p name = getParamAsString p' name := by
  rw [getParamAsString, getParamAsString, atKey_congr h]

theorem getParamAsObject_congr (h : p.find? name = p'.find? name) :
    getParamAsObject p name = getParamAsObject p' name := by
  rw [getParamAsObject, getParamAsObject, atKey_congr h]

end

/-! ## Decoding them -/

section

variable {data data' : Object} {e t : Uuid}

theorem validator_alike (h : Alike data data') : validator data = validator data' := by
  have ha := h.envelope "action" (by decide)
  have ht := h.envelope "transaction_id" (by decide)
  rw [validator, validator, contains_congr ha, atKey_congr ha, contains_congr ht,
    atKey_congr ht]

theorem hasTransactionId_alike (h : Alike data data') :
    hasTransactionId data = hasTransactionId data' := by
  have ht := h.envelope "transaction_id" (by decide)
  rw [hasTransactionId, hasTransactionId, contains_congr ht, atKey_congr ht]

/-- The request of client `e`. -/
abbrev requested (t e : Uuid) (data : Object) : Request := ⟨t, e, .onClient, data, 0⟩

/-- A decoder that looks only at `params`, and there at none of the identity members, does not
tell alike objects apart. -/
theorem decoder_alike (decoder : Request → Verdict) (h : Alike data data')
    (same : data.find? "params" = data'.find? "params" →
      decoder (requested t e data) = decoder (requested t e data'))
    (agree : ∀ p p' : Object, data.find? "params" = some (.object p) →
      data'.find? "params" = some (.object p') →
      (∀ key, key ∉ identityMembers → p.find? key = p'.find? key) →
      decoder (requested t e data) = decoder (requested t e data')) :
    decoder (requested t e data) = decoder (requested t e data') := by
  rcases h.params with h | ⟨p, p', hp, hp', hpp⟩
  · exact same h
  · exact agree p p' hp hp' hpp

theorem getParams_of_same (h : data.find? "params" = data'.find? "params") :
    getParams (requested t e data) = getParams (requested t e data') := by
  rw [getParams, getParams, atKey_congr h]

theorem paramsObject_of_same (h : data.find? "params" = data'.find? "params") :
    paramsObject (requested t e data) = paramsObject (requested t e data') := by
  rw [paramsObject, paramsObject, getParamsAsValue, getParamsAsValue, atKey_congr h]

theorem getParams_of_object {p : Object} (h : data.find? "params" = some (.object p)) :
    getParams (requested t e data) = .ok p := by
  rw [getParams, Object.atKey_of_find? h]
  rfl

theorem paramsObject_of_object {p : Object} (h : data.find? "params" = some (.object p)) :
    paramsObject (requested t e data) = .ok p := by
  rw [paramsObject, getParamsAsValue, Object.atKey_of_find? h]
  rfl

theorem ok_bind_eq {α β : Type} (a : α) (f : α → Except Raise β) :
    (Except.ok a >>= f) = f a := rfl

theorem decodeSend_alike (h : Alike data data') :
    decodeSend (requested t e data) = decodeSend (requested t e data') := by
  refine decoder_alike decodeSend h (fun hs => ?_) fun p p' hp hp' hpp => ?_
  · simp only [decodeSend, sendCheck, paramsObject_of_same hs, getParams_of_same hs, actor]
  · have hto := hpp "to_client_id" (by decide)
    have hpayload := hpp "payload" (by decide)
    simp only [decodeSend, sendCheck, paramsObject_of_object hp, paramsObject_of_object hp',
      getParams_of_object hp, getParams_of_object hp', ok_bind_eq, member_congr hpayload,
      idCheck_congr hto, getParamAsId_congr hto, getParamAsObject_congr hpayload, actor]

theorem decodeBroadcast_alike (h : Alike data data') :
    decodeBroadcast (requested t e data) = decodeBroadcast (requested t e data') := by
  refine decoder_alike decodeBroadcast h (fun hs => ?_) fun p p' hp hp' hpp => ?_
  · simp only [decodeBroadcast, broadcastCheck, paramsObject_of_same hs, getParams_of_same hs,
      actor]
  · have hpayload := hpp "payload" (by decide)
    simp only [decodeBroadcast, broadcastCheck, paramsObject_of_object hp,
      paramsObject_of_object hp', getParams_of_object hp, getParams_of_object hp', ok_bind_eq,
      member_congr hpayload, getParamAsObject_congr hpayload, actor]

theorem decodePublish_alike (h : Alike data data') :
    decodePublish (requested t e data) = decodePublish (requested t e data') := by
  refine decoder_alike decodePublish h (fun hs => ?_) fun p p' hp hp' hpp => ?_
  · simp only [decodePublish, publishCheck, paramsObject_of_same hs, getParams_of_same hs, actor]
  · have hpayload := hpp "payload" (by decide)
    have hchannel := hpp "channel" (by decide)
    simp only [decodePublish, publishCheck, paramsObject_of_object hp,
      paramsObject_of_object hp', getParams_of_object hp, getParams_of_object hp', ok_bind_eq,
      member_congr hpayload, member_congr hchannel, getParamAsObject_congr hpayload,
      getParamAsString_congr hchannel, actor]

theorem decodeSubscription_alike (h : Alike data data') (make : Uuid → String → Command) :
    decodeSubscription (requested t e data) make =
      decodeSubscription (requested t e data') make := by
  refine decoder_alike (fun r => decodeSubscription r make) h (fun hs => ?_)
    fun p p' hp hp' hpp => ?_
  · simp only [decodeSubscription, subscriptionsCheck, paramsObject_of_same hs,
      getParams_of_same hs, actor]
  · have hchannel := hpp "channel" (by decide)
    simp only [decodeSubscription, subscriptionsCheck, paramsObject_of_object hp,
      paramsObject_of_object hp', getParams_of_object hp, getParams_of_object hp', ok_bind_eq,
      member_congr hchannel, getParamAsString_congr hchannel, actor]

theorem decodeIsSubscribed_alike (h : Alike data data') :
    decodeIsSubscribed (requested t e data) = decodeIsSubscribed (requested t e data') := by
  refine decoder_alike decodeIsSubscribed h (fun hs => ?_) fun p p' hp hp' hpp => ?_
  · simp only [decodeIsSubscribed, isSubscribedCheck, paramsObject_of_same hs,
      getParams_of_same hs]
  · have hchannel := hpp "channel" (by decide)
    simp only [decodeIsSubscribed, isSubscribedCheck, paramsObject_of_object hp,
      paramsObject_of_object hp', getParams_of_object hp, getParams_of_object hp', ok_bind_eq,
      member_congr hchannel, getParamAsString_congr hchannel]

theorem decodeAction_alike (h : Alike data data') (action : String) :
    decodeAction (requested t e data) action = decodeAction (requested t e data') action := by
  simp only [decodeAction, decodeSend_alike h, decodeBroadcast_alike h, decodePublish_alike h,
    decodeSubscription_alike h, decodeIsSubscribed_alike h]
  rfl

/-- **The identity members decide nothing.** -/
theorem decode_alike (h : Alike data data') :
    decode data .onClient e = decode data' .onClient e := by
  have ha := h.envelope "action" (by decide)
  have ht := h.envelope "transaction_id" (by decide)
  simp only [decode, validator_alike h, hasTransactionId_alike h, getParamAsId_congr ht,
    getParamAsString_congr ha, decodeAction_alike h]

end

/-! ## What a client's command does -/

/-- Only subscriptions of client `e` of this node may differ. -/
structure ActsFor (e : Uuid) (st st' : State) : Prop where
  id : st'.id = st.id
  sessions : st'.sessions = st.sessions
  clients : st'.clients = st.clients
  subscriptions : ∀ r : Subscription, ¬ (r.sessionId = st.id ∧ r.clientId = e) →
    (r ∈ st'.subscriptions ↔ r ∈ st.subscriptions)

theorem ActsFor.refl (e : Uuid) (st : State) : ActsFor e st st where
  id := rfl
  sessions := rfl
  clients := rfl
  subscriptions _ _ := Iff.rfl

theorem actsFor_subscribe (e : Uuid) (channel : String) (st : State) :
    ActsFor e st (st.subscribe st.id e channel).1 where
  id := rfl
  sessions := rfl
  clients := rfl
  subscriptions r h := by
    rw [State.mem_subscribe]
    constructor
    · rintro (hr | rfl)
      · exact hr
      · exact absurd ⟨rfl, rfl⟩ h
    · exact Or.inl

theorem actsFor_unsubscribe (e : Uuid) (channel : String) (st : State) :
    ActsFor e st (st.unsubscribe st.id e channel).1 where
  id := by simp
  sessions := by simp
  clients := by simp
  subscriptions r h := by
    rw [State.mem_unsubscribe]
    constructor
    · exact And.left
    · intro hr
      refine ⟨hr, ?_⟩
      rintro rfl
      exact h ⟨rfl, rfl⟩

/-- The member of `params` that names the acting client. -/
def actingMember (action : String) : String :=
  if action = "send" then "from_client_id" else "client_id"

/-- The message names `e` as the acting client. -/
def Carries (e : Uuid) (text : Text) : Prop :=
  ∃ action, ∃ params : Object, text.find? "action" = some (.string action) ∧
    text.find? "params" = some (.object params) ∧
    params.find? (actingMember action) = some (.string e.toString)

theorem carries_requestObject {e t : Uuid} {action : String} {params : Object}
    (h : params.find? (actingMember action) = some (.string e.toString)) :
    Carries e (serialize (requestObject t action params)) := by
  refine ⟨action, params.wire, (built_requestObject t action params).action,
    (built_requestObject t action params).params, ?_⟩
  rw [Object.find?_wire, h]
  simp

/-- What a request of client `e` is answered with, does to the stores and sends; `e` is named
in every message. -/
structure ClientOutcome (e : Uuid) (st : State) (o : Outcome) : Prop where
  acts : ActsFor e st o.state
  carries : ∀ effect ∈ o.effects, ∃ text, effect.text? = some text ∧ Carries e text

theorem carries_fan {e : Uuid} {α : Type} {as : List α} {f : α → Effect} {T : Text}
    (hT : Carries e T) (hf : ∀ a, (f a).text? = some T) :
    ∀ effect ∈ as.map f, ∃ text, effect.text? = some text ∧ Carries e text := by
  intro effect he
  obtain ⟨a, -, rfl⟩ := List.mem_map.mp he
  exact ⟨T, hf a, hT⟩

theorem carries_append {e : Uuid} {es fs : List Effect}
    (he : ∀ effect ∈ es, ∃ text, effect.text? = some text ∧ Carries e text)
    (hf : ∀ effect ∈ fs, ∃ text, effect.text? = some text ∧ Carries e text) :
    ∀ effect ∈ es ++ fs, ∃ text, effect.text? = some text ∧ Carries e text := by
  intro effect h
  rcases List.mem_append.mp h with h | h
  · exact he effect h
  · exact hf effect h

theorem outcome_client {w : World} {request : Request} {e : Uuid} {command : Command}
    (hctx : request.context = .onClient) (hc : command.ByClient e) :
    ClientOutcome e w.state (outcome w request command) := by
  have hnone : ∀ effect ∈ ([] : List Effect), ∃ text, effect.text? = some text ∧
      Carries e text := fun _ h => by cases h
  have howner : owner request w.state = w.state.id := by simp [owner, hctx]
  have hrelay : ∀ es, relayed request es = es := by simp [relayed, hctx]
  cases hc with
  | ping | ack | noEffect | isSubscribed => exact ⟨.refl e w.state, hnone⟩
  | send c payload =>
    have hT : ∀ t d, Carries e (serialize (sendObject t e d payload)) := fun t d =>
      carries_requestObject rfl
    simp only [outcome, sendOutcome, hctx]
    split
    · split
      · exact ⟨.refl e w.state, fun effect h => by
          rw [List.mem_singleton] at h
          subst h
          exact ⟨_, rfl, hT _ _⟩⟩
      · exact ⟨.refl e w.state, carries_fan (hT _ _) fun _ => rfl⟩
    · exact ⟨.refl e w.state, hnone⟩
  | subscribe channel =>
    simp only [outcome, howner, hrelay]
    exact ⟨actsFor_subscribe e channel w.state,
      carries_fan (carries_requestObject rfl) fun _ => rfl⟩
  | unsubscribe channel =>
    simp only [outcome, howner, hrelay]
    exact ⟨actsFor_unsubscribe e channel w.state,
      carries_fan (carries_requestObject rfl) fun _ => rfl⟩
  | broadcast payload =>
    simp only [outcome, hrelay]
    exact ⟨.refl e w.state, carries_append
      (carries_fan (carries_requestObject rfl) fun _ => rfl)
      (carries_fan (carries_requestObject rfl) fun _ => rfl)⟩
  | publish channel payload =>
    simp only [outcome, hrelay]
    exact ⟨.refl e w.state, carries_append
      (carries_fan (carries_requestObject rfl) fun _ => rfl)
      (carries_fan (carries_requestObject rfl) fun _ => rfl)⟩

/-! ## Two calls -/

/-- The effect without the members `keys` of its text. -/
def Effect.without (keys : List String) : Effect → Effect
  | .session id text => .session id (text.without keys)
  | .client id text => .client id (text.without keys)
  | .dial id host port => .dial id host port

/-- The response without what it read from the clock. -/
def Response.unclocked (r : Response) : Response :=
  { r with data := r.data.without ["timestamp", "runtime"] }

/-- Two calls of the kernel that agree but for clocks and fresh transaction ids; only a `send`
draws one. -/
structure SameCall (x y : Except Raise Response × World) : Prop where
  response : x.1.map Response.unclocked = y.1.map Response.unclocked
  state : x.2.state = y.2.state
  effects : x.2.effects.map (Effect.without ["transaction_id"]) =
    y.2.effects.map (Effect.without ["transaction_id"])
  fresh : x.2.effects = y.2.effects ∨ ∀ effect ∈ x.2.effects, ∃ text, effect.text? = some text ∧
    text.find? "action" = some (.string "send")

theorem unclocked_rejection (t : Uuid) (ts rt ts' rt' : Int64) (field message : String) :
    (rejection t ts rt field message).unclocked = (rejection t ts' rt' field message).unclocked :=
  rfl

theorem unclocked_acceptance (t : Uuid) (ts rt ts' rt' : Int64)
    (reply : Option (String × Object)) :
    (acceptance t ts rt reply).unclocked = (acceptance t ts' rt' reply).unclocked := by
  cases reply <;> rfl

section

variable (st : State) (env env' : Env) (t e : Uuid) (data data' : Object) (ts ts' : Int64)

/-- The fresh id of a `send` is all that depends on the environment. -/
theorem outcome_env {command : Command} (hc : command.ByClient e) {o o' : Outcome}
    (ho : o = outcome (.start env st) ⟨t, e, .onClient, data, ts⟩ command)
    (ho' : o' = outcome (.start env' st) ⟨t, e, .onClient, data', ts'⟩ command) :
    o.state = o'.state ∧ o.reply = o'.reply ∧
    o.effects.map (Effect.without ["transaction_id"]) =
      o'.effects.map (Effect.without ["transaction_id"]) ∧
    (o.effects = o'.effects ∨ ∀ effect ∈ o.effects, ∃ text, effect.text? = some text ∧
      text.find? "action" = some (.string "send")) := by
  subst ho ho'
  cases hc with
  | send c payload =>
    have hT : ∀ t d, (serialize (sendObject t e d payload)).find? "action" =
        some (.string "send") := fun t d => (built_requestObject t "send" _).action
    simp only [outcome, sendOutcome, World.start]
    cases st.getClient c with
    | none => exact ⟨rfl, rfl, rfl, .inl rfl⟩
    | some row =>
      by_cases hl : row.sessionId = st.id
      · simp only [hl, if_true]
        refine ⟨trivial, trivial, rfl, .inr fun effect h => ?_⟩
        rw [List.mem_singleton] at h
        subst h
        exact ⟨_, rfl, hT _ _⟩
      · simp only [hl, if_false]
        refine ⟨trivial, trivial, ?_, .inr fun effect h => ?_⟩
        · simp only [toSession, List.map_map]
          rfl
        · obtain ⟨x, -, rfl⟩ := List.mem_map.mp h
          exact ⟨_, rfl, hT _ _⟩
  | _ => exact ⟨rfl, rfl, rfl, .inl rfl⟩

variable {data data'}

/-- Alike requests, in any two environments. -/
theorem kernel_alike (h : Alike data data') :
    SameCall (kernel data .onClient e (.start env st))
      (kernel data' .onClient e (.start env' st)) := by
  have hsame := decode_alike (e := e) h
  cases hd : decode data .onClient e with
  | error x =>
    rw [kernel_raised (.start env st) data .onClient e hd,
      kernel_raised (.start env' st) data' .onClient e (hsame ▸ hd)]
    exact ⟨rfl, rfl, rfl, .inl rfl⟩
  | ok d =>
    cases d with
    | invalid t field message =>
      obtain ⟨w, rt, hk, hs, he, -⟩ := kernel_invalid (.start env st) data .onClient e hd
      obtain ⟨w', rt', hk', hs', he', -⟩ :=
        kernel_invalid (.start env' st) data' .onClient e (hsame ▸ hd)
      rw [hk, hk']
      exact ⟨congrArg Except.ok (unclocked_rejection _ _ _ _ _ _ _), hs.trans hs'.symm,
        congrArg _ (he.trans he'.symm), .inl (he.trans he'.symm)⟩
    | accepted t command =>
      have hc := decode_byClient hd
      have hn : ∀ host sp cp, command ≠ .session host sp cp := by
        rintro host sp cp rfl
        cases hc
      obtain ⟨w, rt, hk, hs, he, -⟩ := kernel_accepted (.start env st) data .onClient e hd
        fun host sp cp hcmd => absurd hcmd (hn host sp cp)
      obtain ⟨w', rt', hk', hs', he', -⟩ :=
        kernel_accepted (.start env' st) data' .onClient e (hsame ▸ hd)
          fun host sp cp hcmd => absurd hcmd (hn host sp cp)
      obtain ⟨hstate, hreply, heffects, hfresh⟩ :=
        outcome_env st env env' t e data data' (env.clock 0) (env'.clock 0) hc rfl rfl
      have heq : w.effects = _ := he.trans (List.nil_append _)
      have heq' : w'.effects = _ := he'.trans (List.nil_append _)
      rw [hk, hk']
      refine ⟨?_, hs.trans (hstate.trans hs'.symm), ?_, ?_⟩
      · exact (congrArg Except.ok (unclocked_acceptance _ _ _ _ _ _)).trans
          (congrArg (fun r => Except.ok (acceptance t (env'.clock 0) rt' r).unclocked) hreply)
      · rw [heq, heq']
        exact heffects
      · rw [heq, heq']
        exact hfresh

variable (data)

/-- **A client can only act as itself.**  Its request changes subscriptions of its own only,
every message names it, and the identity members that it wrote into `params` make no
difference. -/
theorem client_acts_as_itself :
    ActsFor e st (kernel data .onClient e (.start env st)).2.state ∧
    (∀ effect ∈ sent data .onClient e env st,
      ∃ text, effect.text? = some text ∧ Carries e text) ∧
    ∀ data' env', Alike data data' → SameCall (kernel data .onClient e (.start env st))
      (kernel data' .onClient e (.start env' st)) := by
  have hout : ∀ t command, decode data .onClient e = .ok (.accepted t command) →
      ClientOutcome e st (outcome (.start env st)
        (requestOf (.start env st) data .onClient e t) command) :=
    fun t command hd => outcome_client (w := .start env st) rfl (decode_byClient hd)
  refine ⟨?_, ?_, fun data' env' h => kernel_alike st env env' e h⟩
  · cases kernel_cases (.start env st) data .onClient e with
    | raised x w' eq idle =>
      rw [eq, idle.state]
      exact .refl e st
    | rejected t field message rt w' decoded eq idle =>
      rw [eq, idle.state]
      exact .refl e st
    | accepted t command rt w' decoded eq acted =>
      rw [eq, acted.state]
      exact (hout t command decoded).acts
  · intro effect he
    rw [sent] at he
    cases kernel_cases (.start env st) data .onClient e with
    | raised x w' eq idle =>
      rw [eq, idle.effects] at he
      cases he
    | rejected t field message rt w' decoded eq idle =>
      rw [eq, idle.effects] at he
      cases he
    | accepted t command rt w' decoded eq acted =>
      rw [eq, acted.effects] at he
      exact (hout t command decoded).carries effect he

end

/-- The same broadcast, with another client's id among the parameters. -/
def forgedData : Object :=
  [("action", .string "broadcast"), ("transaction_id", .string Uuid.nil.toString),
    ("params", .object [("client_id", .string secondClient.toString), ("payload", .object [])])]

theorem alike_forgedData : Alike broadcastData forgedData where
  envelope key h := by
    have hrest : ∀ v v' : Value, Object.find? [("params", v)] key =
        Object.find? [("params", v')] key := fun v v' => by
      rw [Object.find?_cons, Object.find?_cons, if_neg (Ne.symm h), if_neg (Ne.symm h)]
    unfold broadcastData forgedData
    rw [Object.find?_cons "action", Object.find?_cons "action",
      Object.find?_cons "transaction_id", Object.find?_cons "transaction_id", hrest]
  params := .inr ⟨_, _, rfl, rfl, fun key h => by
    have hk : "client_id" ≠ key := by
      rintro rfl
      exact h (by decide)
    simp [hk]⟩

/-- It is still the first client's broadcast. -/
theorem client_acts_as_itself_forged :
    Alike broadcastData forgedData ∧
    SameCall (kernel broadcastData .onClient firstClient (.start World.pair.env State.trio))
      (kernel forgedData .onClient firstClient (.start World.pair.env State.trio)) :=
  ⟨alike_forgedData, (client_acts_as_itself State.trio World.pair.env firstClient
    broadcastData).2.2 forgedData World.pair.env alike_forgedData⟩

end Aewt
