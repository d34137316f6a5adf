import AewtState.Outcome

/-!
# What the kernel makes of each kind of message

`decode` depends on the message alone, so everything about single messages is settled here.

* `validator_eq_none`, `decode_of_envelope` — the envelope, and what follows when it passes.
* `decodeAction_ping`, … — the branch that each action takes.
* `Built` — a message as a node builds it: an action, a transaction id and parameters.

Principal result: `decode_built`, which reduces the decoding of a built message by its peer to its
parameters.
-/

set_option autoImplicit false

namespace Aewt

/-! ## The envelope -/

variable {data : Object} {context : Context} {entityId : Uuid}

/-- The envelope check passes when both members are there. -/
theorem validator_eq_none : validator data = .ok none ↔
    ∃ action s, data.find? "action" = some (.string action) ∧
      data.find? "transaction_id" = some (.string s) ∧ isUuid s = true := by
  unfold validator
  obtain ha | ⟨a, ha⟩ := Option.eq_none_or_eq_some (data.find? "action")
  · simp [Object.contains, ha]
  obtain ht | ⟨t, ht⟩ := Option.eq_none_or_eq_some (data.find? "transaction_id")
  · cases a <;> simp [Object.contains, Object.atKey, ha, ht, Value.isString, bind, Except.bind]
  · cases a <;> simp [Object.contains, Object.atKey, ha, ht, Value.isString, bind, Except.bind]
    cases t <;> simp [Value.asString]

theorem validator_total (data : Object) : ∃ r, validator data = .ok r := by
  unfold validator
  obtain ha | ⟨a, ha⟩ := Option.eq_none_or_eq_some (data.find? "action")
  · simp [Object.contains, ha]
  obtain ht | ⟨t, ht⟩ := Option.eq_none_or_eq_some (data.find? "transaction_id")
  · cases a <;> simp [Object.contains, Object.atKey, ha, ht, Value.isString, bind, Except.bind]
  · cases a <;> simp [Object.contains, Object.atKey, ha, ht, Value.isString, bind, Except.bind]
    cases t <;> simp [Value.asString]
    rename_i s
    cases isUuid s <;> simp

/-- The transaction id of a message, as both readers see it. -/
def NamedBy (data : Object) (s : String) : Prop :=
  data.find? "transaction_id" = some (.string s) ∧ isUuid s = true

theorem hasTransactionId_eq (data : Object) :
    hasTransactionId data = .ok true ∧ (∃ s, NamedBy data s) ∨
    hasTransactionId data = .ok false ∧ ¬ ∃ s, NamedBy data s := by
  unfold hasTransactionId NamedBy
  cases ht : data.find? "transaction_id" with
  | none => right; simp [Object.contains, ht]
  | some t =>
    simp only [Object.contains, ht, Option.isSome_some, Bool.not_true, Bool.false_eq_true,
      if_false, Object.atKey_of_find? ht, bind, Except.bind]
    cases hk : t.isString with
    | false =>
      right
      refine ⟨rfl, ?_⟩
      rintro ⟨s, h, -⟩
      cases h; cases hk
    | true =>
      obtain ⟨s, rfl⟩ := Value.asString_ok hk
      cases hu : isUuid s with
      | false => right; simp [Value.asString, hu]
      | true => left; simp [Value.asString, hu]

theorem getParamAsString_of {params : Object} {field s : String}
    (h : params.find? field = some (.string s)) : getParamAsString params field = .ok s := by
  simp [getParamAsString, Object.atKey_of_find? h, Value.asString, bind, Except.bind]

theorem getParamAsId_of {params : Object} {field s : String}
    (h : params.find? field = some (.string s)) :
    getParamAsId params field =
      match lexicalCast s with
      | some u => .ok u
      | none => .error .badLexicalCast := by
  rw [getParamAsId, Object.atKey_of_find? h]
  rfl

theorem getParamAsId_toString {params : Object} {field : String} {u : Uuid}
    (h : params.find? field = some (.string u.toString)) :
    getParamAsId params field = .ok u := by
  rw [getParamAsId_of h, lexicalCast_toString]

theorem getParamAsObject_of {params : Object} {field : String} {o : Object}
    (h : params.find? field = some (.object o)) : getParamAsObject params field = .ok o := by
  simp [getParamAsObject, Object.atKey_of_find? h, Value.asObject, bind, Except.bind]

/-- Ports are small enough to be read as signed numbers. -/
theorem wire_port (p : UInt16) :
    (Value.uint64 p.toUInt64).wire = .int64 p.toUInt64.toInt64 := by
  have h : p.toNat < 9223372036854775808 := Nat.lt_trans p.toNat_lt (by decide)
  simp [Value.wire, h]

theorem getParamAsNumber_port {params : Object} {field : String} {p : UInt16}
    (h : params.find? field = some (.int64 p.toUInt64.toInt64)) :
    getParamAsNumber params field = .ok p.toUInt64 := by
  simp [getParamAsNumber, Object.atKey_of_find? h, Value.asInt64, bind, Except.bind, Except.map]

theorem getParamAsBool_of {params : Object} {field : String} {b : Bool}
    (h : params.find? field = some (.bool b)) : getParamAsBool params field = .ok b := by
  simp [getParamAsBool, Object.atKey_of_find? h, Value.asBool, bind, Except.bind]

theorem idCheck_toString {params : Object} {field : String} {u : Uuid}
    (h : params.find? field = some (.string u.toString)) : idCheck params field = .ok none :=
  idCheck_eq_none.mpr ⟨_, h, isUuid_toString u⟩

/-- The verdict on an action as the result of decoding. -/
def Verdict.decoded (t : Uuid) : Verdict → Except Raise Decoded
  | .error e => .error e
  | .ok (.ok command) => .ok (.accepted t command)
  | .ok (.error entry) => .ok (.invalid t entry.1 entry.2)

theorem Verdict.of_decoded_accepted {v : Verdict} {t u : Uuid} {command : Command}
    (h : v.decoded t = .ok (.accepted u command)) : u = t ∧ v = .ok (.ok command) := by
  rcases v with e | (entry | command') <;> cases h
  exact ⟨rfl, rfl⟩

theorem Verdict.of_decoded_invalid {v : Verdict} {t u : Uuid} {field message : String}
    (h : v.decoded t = .ok (.invalid u field message)) : u = t := by
  rcases v with e | (entry | command) <;> cases h
  rfl

/-- When the envelope passes, the action decides. -/
theorem decode_of_envelope {action s : String} {t : Uuid}
    (ha : data.find? "action" = some (.string action))
    (hs : NamedBy data s) (ht : lexicalCast s = some t) :
    decode data context entityId =
      (decodeAction ⟨t, entityId, context, data, 0⟩ action).decoded t := by
  have hv : validator data = .ok none := validator_eq_none.mpr ⟨action, s, ha, hs⟩
  unfold decode
  rw [hv]
  simp only [bind, Except.bind, getParamAsId_of hs.1, ht, getParamAsString_of ha]
  rcases decodeAction ⟨t, entityId, context, data, 0⟩ action with e | (entry | command) <;> rfl

/-! ## The branches -/

def actions : List String :=
  ["ping", "send", "register", "session", "ack", "subscribe", "is_subscribed", "unsubscribe",
    "broadcast", "publish", "join", "leave"]

section

variable (request : Request)

@[simp] theorem decodeAction_ping : decodeAction request "ping" = .ok (.ok .ping) := by
  simp [decodeAction]

@[simp] theorem decodeAction_send : decodeAction request "send" = decodeSend request := by
  simp [decodeAction]

@[simp] theorem decodeAction_register :
    decodeAction request "register" = decodeRegister request := by simp [decodeAction]

@[simp] theorem decodeAction_session :
    decodeAction request "session" = decodeSession request := by simp [decodeAction]

@[simp] theorem decodeAction_ack : decodeAction request "ack" = .ok (.ok .ack) := by
  simp [decodeAction]

@[simp] theorem decodeAction_subscribe :
    decodeAction request "subscribe" = decodeSubscription request .subscribe := by
  simp [decodeAction]

@[simp] theorem decodeAction_isSubscribed :
    decodeAction request "is_subscribed" = decodeIsSubscribed request := by
  simp [decodeAction]

@[simp] theorem decodeAction_unsubscribe :
    decodeAction request "unsubscribe" = decodeSubscription request .unsubscribe := by
  simp [decodeAction]

@[simp] theorem decodeAction_broadcast :
    decodeAction request "broadcast" = decodeBroadcast request := by simp [decodeAction]

@[simp] theorem decodeAction_publish :
    decodeAction request "publish" = decodePublish request := by simp [decodeAction]

@[simp] theorem decodeAction_join :
    decodeAction request "join" = decodeMembership request .join := by simp [decodeAction]

@[simp] theorem decodeAction_leave :
    decodeAction request "leave" = decodeMembership request .leave := by simp [decodeAction]

theorem decodeAction_unknown {action : String} (h : action ∉ actions) :
    decodeAction request action =
      .ok (.error ("action", "action attribute isn't implemented")) := by
  simp only [actions, List.mem_cons, List.not_mem_nil, or_false, not_or] at h
  simp [decodeAction, h]

end

/-! ## Messages that nodes build -/

/-- A built message as its peer parses it: an action, a transaction id that `to_string` wrote
and the parameters. -/
structure Built (message : Object) (t : Uuid) (action : String) (params : Object) : Prop where
  action : message.find? "action" = some (.string action)
  transactionId : message.find? "transaction_id" = some (.string t.toString)
  params : message.find? "params" = some (.object params.wire)

theorem built_requestObject (t : Uuid) (action : String) (params : Object) :
    Built (serialize (requestObject t action params)) t action params := by
  constructor <;> simp [serialize, requestObject]

theorem built_syncObject (t : Uuid) (action : String) (params : Object) :
    Built (serialize (syncObject action params t)) t action params := by
  constructor <;> simp [serialize, syncObject]

/-- A message received on the session `entityId`. -/
abbrev received (t entityId : Uuid) (message : Object) : Request :=
  ⟨t, entityId, .onSession, message, 0⟩

section

variable {message params : Object} {t : Uuid} {action : String}

/-- **Decoding a built message is decoding its parameters.** -/
theorem decode_built (h : Built message t action params) :
    decode message .onSession entityId =
      (decodeAction (received t entityId message) action).decoded t :=
  decode_of_envelope h.action ⟨h.transactionId, isUuid_toString t⟩ (lexicalCast_toString t)

theorem getParams_built (h : Built message t action params) :
    getParams (received t entityId message) = .ok params.wire := by
  simp [getParams, Object.atKey_of_find? h.params, Value.asObject, bind, Except.bind]

theorem paramsObject_built (h : Built message t action params) :
    paramsObject (received t entityId message) = .ok params.wire := by
  simp [paramsObject, getParamsAsValue, Object.atKey_of_find? h.params, Value.asObject, bind,
    Except.bind]

theorem decodeMembership_built {c : Uuid} {make : Uuid → Command}
    (h : Built message t action (clientParams c)) :
    decodeMembership (received t entityId message) make = .ok (.ok (make c)) := by
  have hf : (clientParams c).wire.find? "client_id" = some (.string c.toString) := by
    simp [clientParams]
  unfold decodeMembership decodeWith
  simp only [getParams_built h, bind, Except.bind, idCheck_toString hf,
    getParamAsId_toString hf]
  rfl

theorem decodeSubscription_built {c : Uuid} {ch : String} {make : Uuid → String → Command}
    (h : Built message t action (subscriptionParams c ch)) :
    decodeSubscription (received t entityId message) make = .ok (.ok (make c ch)) := by
  have hc : (subscriptionParams c ch).wire.find? "client_id" = some (.string c.toString) := by
    simp [subscriptionParams]
  have hch : (subscriptionParams c ch).wire.find? "channel" = some (.string ch) := by
    simp [subscriptionParams]
  have hcheck : subscriptionsCheck (received t entityId message) = .ok none := by
    simp only [subscriptionsCheck, paramsObject_built h, bind, Except.bind]
    exact member_eq_none.mpr ⟨_, hch, rfl, idCheck_toString hc⟩
  simp only [decodeSubscription, decodeWith, hcheck, getParams_built h, bind, Except.bind,
    actor, getParamAsString_of hch, getParamAsId_toString hc]
  rfl

theorem decodeBroadcast_built {c : Uuid} {payload : Object}
    (h : Built message t action (broadcastParams c payload)) :
    decodeBroadcast (received t entityId message) = .ok (.ok (.broadcast c payload.wire)) := by
  have hc : (broadcastParams c payload).wire.find? "client_id" = some (.string c.toString) := by
    simp [broadcastParams]
  have hp : (broadcastParams c payload).wire.find? "payload" = some (.object payload.wire) := by
    simp [broadcastParams]
  have hcheck : broadcastCheck (received t entityId message) = .ok none := by
    simp only [broadcastCheck, paramsObject_built h, bind, Except.bind]
    exact member_eq_none.mpr ⟨_, hp, rfl, idCheck_toString hc⟩
  simp only [decodeBroadcast, decodeWith, hcheck, getParams_built h, bind, Except.bind,
    actor, getParamAsObject_of hp, getParamAsId_toString hc]
  rfl

theorem decodePublish_built {c : Uuid} {ch : String} {payload : Object}
    (h : Built message t action (publishParams c ch payload)) :
    decodePublish (received t entityId message) = .ok (.ok (.publish c ch payload.wire)) := by
  have hc : (publishParams c ch payload).wire.find? "client_id" =
      some (.string c.toString) := by simp [publishParams]
  have hch : (publishParams c ch payload).wire.find? "channel" = some (.string ch) := by
    simp [publishParams]
  have hp : (publishParams c ch payload).wire.find? "payload" =
      some (.object payload.wire) := by simp [publishParams]
  have hcheck : publishCheck (received t entityId message) = .ok none := by
    simp only [publishCheck, paramsObject_built h, bind, Except.bind]
    exact member_eq_none.mpr ⟨_, hch, rfl, member_eq_none.mpr ⟨_, hp, rfl,
      idCheck_toString hc⟩⟩
  simp only [decodePublish, decodeWith, hcheck, getParams_built h, bind, Except.bind,
    actor, getParamAsString_of hch, getParamAsObject_of hp, getParamAsId_toString hc]
  rfl

theorem decodeSend_built {f c : Uuid} {payload : Object}
    (h : Built message t action (sendParams f c payload)) :
    decodeSend (received t entityId message) = .ok (.ok (.send f c payload.wire)) := by
  have hf : (sendParams f c payload).wire.find? "from_client_id" =
      some (.string f.toString) := by simp [sendParams]
  have hc : (sendParams f c payload).wire.find? "to_client_id" =
      some (.string c.toString) := by simp [sendParams]
  have hp : (sendParams f c payload).wire.find? "payload" = some (.object payload.wire) := by
    simp [sendParams]
  have hcheck : sendCheck (received t entityId message) = .ok none := by
    simp only [sendCheck, paramsObject_built h, bind, Except.bind]
    exact member_eq_none.mpr ⟨_, hp, rfl, Check.andThen_eq_none.mpr
      ⟨idCheck_toString hf, idCheck_toString hc⟩⟩
  simp only [decodeSend, decodeWith, hcheck, getParams_built h, bind, Except.bind,
    actor, getParamAsObject_of hp, getParamAsId_toString hc, getParamAsId_toString hf]
  rfl

theorem decodeRegister_built {registered : Bool} {cp sp : UInt16}
    (h : Built message t action (registerParams registered cp sp)) :
    decodeRegister (received t entityId message) =
      .ok (.ok (.register sp.toUInt64 cp.toUInt64 registered)) := by
  have hr : (registerParams registered cp sp).wire.find? "registered" =
      some (.bool registered) := by simp [registerParams]
  have hc : (registerParams registered cp sp).wire.find? "clients_port" =
      some (.int64 cp.toUInt64.toInt64) := by simp [registerParams, wire_port]
  have hs : (registerParams registered cp sp).wire.find? "sessions_port" =
      some (.int64 sp.toUInt64.toInt64) := by simp [registerParams, wire_port]
  have hcheck : registerCheck (received t entityId message) = .ok none := by
    simp only [registerCheck, paramsObject_built h, bind, Except.bind]
    exact member_eq_none.mpr ⟨_, hs, rfl, member_eq_none.mpr ⟨_, hc, rfl,
      member_eq_none.mpr ⟨_, hr, rfl, rfl⟩⟩⟩
  simp only [decodeRegister, decodeWith, hcheck, getParams_built h, bind, Except.bind,
    getParamAsNumber_port hs, getParamAsNumber_port hc, getParamAsBool_of hr]
  rfl

theorem decodeSession_built {host : String} {sp cp : UInt16}
    (h : Built message t action (sessionParams host sp cp)) :
    decodeSession (received t entityId message) =
      .ok (.ok (.session host sp.toUInt64 cp.toUInt64)) := by
  have hh : (sessionParams host sp cp).wire.find? "host" = some (.string host) := by
    simp [sessionParams]
  have hs : (sessionParams host sp cp).wire.find? "sessions_port" =
      some (.int64 sp.toUInt64.toInt64) := by simp [sessionParams, wire_port]
  have hc : (sessionParams host sp cp).wire.find? "clients_port" =
      some (.int64 cp.toUInt64.toInt64) := by simp [sessionParams, wire_port]
  have hcheck : sessionCheck (received t entityId message) = .ok none := by
    simp only [sessionCheck, paramsObject_built h, bind, Except.bind]
    exact member_eq_none.mpr ⟨_, hh, rfl, member_eq_none.mpr ⟨_, hs, rfl,
      member_eq_none.mpr ⟨_, hc, rfl, rfl⟩⟩⟩
  simp only [decodeSession, decodeWith, hcheck, getParams_built h, bind, Except.bind,
    getParamAsString_of hh, getParamAsNumber_port hs, getParamAsNumber_port hc]
  rfl

end

end Aewt
