import AewtState.Messages
import AewtState.Replies

/-!
# When the kernel raises

The accessors and `lexical_cast` raise, and neither the kernel nor `on_read` catches.

* `Returns` — a computation that does not raise, with `returns_bind` for sequences.
* `parameters` — for each action and context the check of its parameters and the ids and
  numbers that the handler then extracts.
* `Guarded` — the condition on a message under which no accessor raises.

Principal results: `kernel_returns_iff` — the kernel returns, with a processed response,
exactly on the guarded messages; `kernel_failed_idle` — a call that raises or answers a failure
changed no store and sent nothing.
-/

set_option autoImplicit false

namespace Aewt

/-! ## Returning -/

def Returns {α : Type} (x : Except Raise α) : Prop := ∃ a, x = .ok a

section

variable {α β : Type}

@[simp] theorem returns_ok (a : α) : Returns (.ok a) := ⟨a, rfl⟩

@[simp] theorem returns_pure (a : α) : Returns (pure a) := ⟨a, rfl⟩

@[simp] theorem not_returns_error (e : Raise) : ¬ Returns (.error e : Except Raise α) := by
  rintro ⟨a, h⟩
  cases h

@[simp] theorem ok_bind (a : α) (f : α → Except Raise β) : (Except.ok a >>= f) = f a := rfl

theorem returns_bind {x : Except Raise α} {f : α → Except Raise β} :
    Returns (x >>= f) ↔ ∃ a, x = .ok a ∧ Returns (f a) := by
  cases x with
  | error e => simp [bind, Except.bind]
  | ok a => simp [bind, Except.bind]

@[simp] theorem returns_map {f : α → β} {x : Except Raise α} :
    Returns (f <$> x) ↔ Returns x := by
  cases x with
  | error e => simp [Functor.map, Except.map]
  | ok a => simp [Functor.map, Except.map]

/-- Both steps return; the second one does so whatever the first one computed. -/
theorem returns_seq {x : Except Raise α} {f : α → Except Raise β} {q : Prop}
    (h : ∀ a, Returns (f a) ↔ q) : Returns (x >>= f) ↔ Returns x ∧ q := by
  rw [returns_bind]
  constructor
  · rintro ⟨a, rfl, hf⟩
    exact ⟨returns_ok a, (h a).mp hf⟩
  · rintro ⟨⟨a, rfl⟩, hq⟩
    exact ⟨a, rfl, (h a).mpr hq⟩

end

/-! ## Extraction -/

/-- The member is an id that `lexical_cast` accepts. -/
def Castable (params : Object) (name : String) : Prop :=
  ∃ s u, params.find? name = some (.string s) ∧ lexicalCast s = some u

/-- The member is a number that `as_int64` accepts. -/
def Signed (params : Object) (name : String) : Prop :=
  ∃ n, params.find? name = some (.int64 n)

section

variable {params : Object} {name : String}

theorem atKey_eq_ok {v : Value} :
    params.atKey name = .ok v ↔ params.find? name = some v := by
  unfold Object.atKey
  cases params.find? name <;> simp

theorem returns_getParamAsId : Returns (getParamAsId params name) ↔ Castable params name := by
  rw [getParamAsId, returns_bind]
  constructor
  · rintro ⟨v, hv, h⟩
    rw [returns_bind] at h
    obtain ⟨s, hs, h⟩ := h
    have hvs : v = .string s := by cases v <;> cases hs; rfl
    subst hvs
    cases hc : lexicalCast s with
    | none => rw [hc] at h; exact absurd h (not_returns_error _)
    | some u => exact ⟨s, u, atKey_eq_ok.mp hv, hc⟩
  · rintro ⟨s, u, hf, hc⟩
    exact ⟨_, atKey_eq_ok.mpr hf, returns_bind.mpr ⟨s, rfl, by simp [hc]⟩⟩

theorem returns_getParamAsNumber :
    Returns (getParamAsNumber params name) ↔ Signed params name := by
  rw [getParamAsNumber, returns_bind]
  constructor
  · rintro ⟨v, hv, n, h⟩
    cases v <;> simp only [Value.asInt64, Except.map] at h <;> cases h
    exact ⟨_, atKey_eq_ok.mp hv⟩
  · rintro ⟨n, hf⟩
    exact ⟨_, atKey_eq_ok.mpr hf, by simp [Value.asInt64, Except.map]⟩

theorem returns_of_bool {b : Bool} (h : params.find? name = some (.bool b)) :
    Returns (getParamAsBool params name) :=
  ⟨b, by simp [getParamAsBool, Object.atKey_of_find? h, Value.asBool, bind, Except.bind]⟩

end

/-! ## Checks -/

theorem paramsObject_eq_ok {request : Request} {params : Object} :
    paramsObject request = .ok params ↔ request.data.find? "params" = some (.object params) := by
  unfold paramsObject getParamsAsValue
  constructor
  · intro h
    cases hf : request.data.atKey "params" with
    | error e => rw [hf] at h; cases h
    | ok v =>
      rw [hf] at h
      cases v <;> cases h
      exact atKey_eq_ok.mp hf
  · intro h
    simp [Object.atKey_of_find? h, Value.asObject, bind, Except.bind]

theorem getParams_eq_ok {request : Request} {params : Object} :
    getParams request = .ok params ↔ request.data.find? "params" = some (.object params) :=
  paramsObject_eq_ok

theorem returns_member {params : Object} {name kind : String} {isKind : Value → Bool}
    {rest : Check} (h : Returns rest) : Returns (member params name kind isKind rest) := by
  cases hm : member params name kind isKind rest with
  | ok r => exact ⟨r, rfl⟩
  | error e =>
    rw [member_eq_error hm] at h
    exact absurd h (not_returns_error e)

theorem returns_idCheck (params : Object) (name : String) : Returns (idCheck params name) := by
  unfold idCheck member
  cases hf : params.find? name with
  | none => simp [Object.contains, hf]
  | some v =>
    cases v <;>
      simp [Object.contains, Object.atKey, hf, Value.isString, Value.asString, bind, Except.bind]
    split <;> simp

theorem returns_andThen {a b : Check} (ha : Returns a) (hb : Returns b) :
    Returns (a.andThen b) := by
  obtain ⟨- | m, rfl⟩ := ha
  · exact hb
  · exact ⟨_, rfl⟩

/-! ## The actions -/

/-- What the handler of an action does with its parameters. -/
structure Parameters where
  check : Request → Check
  ids : List String
  numbers : List String

/-- A peer names the acting client. -/
def actingIds : Context → List String
  | .onSession => ["client_id"]
  | .onClient => []

def membershipCheck (request : Request) : Check :=
  getParams request >>= fun params => idCheck params "client_id"

/-- The ids that `send` extracts. -/
def sendIds : Context → List String
  | .onSession => ["to_client_id", "from_client_id"]
  | .onClient => ["to_client_id"]

/-- `none` for an action that does not look at its parameters. -/
def parameters (context : Context) (action : String) : Option Parameters :=
  if action = "send" then some ⟨sendCheck, sendIds context, []⟩
  else if action = "broadcast" then some ⟨broadcastCheck, actingIds context, []⟩
  else if action = "publish" then some ⟨publishCheck, actingIds context, []⟩
  else if action = "subscribe" then some ⟨subscriptionsCheck, actingIds context, []⟩
  else if action = "unsubscribe" then some ⟨subscriptionsCheck, actingIds context, []⟩
  else if action = "is_subscribed" then some ⟨isSubscribedCheck, [], []⟩
  else match context with
    | .onClient => none
    | .onSession =>
      if action = "join" then some ⟨membershipCheck, ["client_id"], []⟩
      else if action = "leave" then some ⟨membershipCheck, ["client_id"], []⟩
      else if action = "register" then
        some ⟨registerCheck, [], ["sessions_port", "clients_port"]⟩
      else if action = "session" then
        some ⟨sessionCheck, [], ["sessions_port", "clients_port"]⟩
      else none

/-- `params` is an object and, when it passes the check, its ids and numbers can be extracted. -/
def Extractable (p : Parameters) (request : Request) : Prop :=
  ∃ params, request.data.find? "params" = some (.object params) ∧
    (p.check request = .ok none →
      (∀ name ∈ p.ids, Castable params name) ∧ ∀ name ∈ p.numbers, Signed params name)

/-- The message is one on which no accessor raises: its transaction id, if it has one, can be
read, and so can the parameters of its action. -/
def Guarded (data : Object) (context : Context) (entityId : Uuid) : Prop :=
  (∀ s, NamedBy data s → ∃ t, lexicalCast s = some t) ∧
  ∀ action s t p, data.find? "action" = some (.string action) → NamedBy data s →
    lexicalCast s = some t → parameters context action = some p →
    Extractable p ⟨t, entityId, context, data, 0⟩

section

variable (request : Request)

/-- Raising in `decodeWith`, for a check that looks at `params` first and an extraction that
needs the ids and numbers only. -/
theorem returns_decodeWith (check : Request → Check) {ids numbers : List String}
    {rest : Object → Check} {extract : Except Raise Command}
    (hcheck : check request = paramsObject request >>= rest)
    (htotal : ∀ params, Returns (rest params))
    (hextract : ∀ params, request.data.find? "params" = some (.object params) →
      rest params = .ok none → (Returns extract ↔
        (∀ name ∈ ids, Castable params name) ∧ ∀ name ∈ numbers, Signed params name)) :
    Returns (decodeWith (check request) extract) ↔
      Extractable ⟨check, ids, numbers⟩ request := by
  constructor
  · intro h
    cases hp : paramsObject request with
    | error e =>
      rw [hcheck, hp] at h
      exact absurd h (not_returns_error e)
    | ok params =>
      have hf := paramsObject_eq_ok.mp hp
      refine ⟨params, hf, fun hnone => ?_⟩
      simp only at hnone
      rw [hcheck, hp] at hnone
      apply (hextract params hf hnone).mp
      rw [hcheck, hp] at h
      change Returns (decodeWith (rest params) extract) at h
      rw [show rest params = .ok none from hnone] at h
      obtain ⟨r, hr⟩ := h
      cases hx : extract with
      | error e => simp [decodeWith, hx, Except.map] at hr
      | ok c => exact ⟨c, rfl⟩
  · rintro ⟨params, hf, h⟩
    have hp := paramsObject_eq_ok.mpr hf
    simp only at h
    rw [hcheck, hp] at h ⊢
    change Returns (decodeWith (rest params) extract)
    obtain ⟨- | m, hr⟩ := htotal params
    · obtain ⟨c, rfl⟩ := (hextract params hf hr).mpr (h hr)
      rw [hr]
      exact ⟨_, rfl⟩
    · rw [hr]
      exact ⟨_, rfl⟩

theorem returns_actor {params : Object} {name : String} :
    Returns (actor request params name) ↔
      (request.context = .onSession → Castable params name) := by
  unfold actor
  cases request.context with
  | onClient => simp
  | onSession => simp [returns_getParamAsId]

theorem forall_actingIds {context : Context} {p : String → Prop} :
    (∀ name ∈ actingIds context, p name) ↔ (context = .onSession → p "client_id") := by
  cases context <;> simp [actingIds]

theorem returns_decodeSend : Returns (decodeSend request) ↔
    Extractable ⟨sendCheck, sendIds request.context, []⟩ request := by
  refine returns_decodeWith request _ rfl (fun params => returns_member ?_) ?_
  · cases request.context
    · exact returns_andThen (returns_idCheck _ _) (returns_idCheck _ _)
    · exact returns_idCheck _ _
  · intro params hf hc
    obtain ⟨v, hv, hk, -⟩ := member_eq_none.mp hc
    obtain ⟨o, rfl⟩ := Value.asObject_ok hk
    rw [getParams_eq_ok.mpr hf, ok_bind,
      returns_seq (q := request.context = .onSession → Castable params "from_client_id"),
      returns_getParamAsId]
    · cases request.context <;> simp [sendIds]
    · intro c
      simp [getParamAsObject_of hv, returns_actor]

theorem returns_decodeBroadcast : Returns (decodeBroadcast request) ↔
    Extractable ⟨broadcastCheck, actingIds request.context, []⟩ request := by
  refine returns_decodeWith request _ rfl (fun params => returns_member ?_) ?_
  · cases request.context
    · exact returns_idCheck _ _
    · exact returns_ok _
  · intro params hf hc
    obtain ⟨v, hv, hk, -⟩ := member_eq_none.mp hc
    obtain ⟨o, rfl⟩ := Value.asObject_ok hk
    rw [forall_actingIds, ← returns_actor]
    simp [getParams_eq_ok.mpr hf, getParamAsObject_of hv]

theorem returns_decodePublish : Returns (decodePublish request) ↔
    Extractable ⟨publishCheck, actingIds request.context, []⟩ request := by
  refine returns_decodeWith request _ rfl
    (fun params => returns_member (returns_member ?_)) ?_
  · cases request.context
    · exact returns_idCheck _ _
    · exact returns_ok _
  · intro params hf hc
    obtain ⟨v, hv, hk, hc⟩ := member_eq_none.mp hc
    obtain ⟨s, rfl⟩ := Value.asString_ok hk
    obtain ⟨v', hv', hk', -⟩ := member_eq_none.mp hc
    obtain ⟨o, rfl⟩ := Value.asObject_ok hk'
    rw [forall_actingIds, ← returns_actor]
    simp [getParams_eq_ok.mpr hf, getParamAsString_of hv, getParamAsObject_of hv']

theorem returns_decodeSubscription (make : Uuid → String → Command) :
    Returns (decodeSubscription request make) ↔
      Extractable ⟨subscriptionsCheck, actingIds request.context, []⟩ request := by
  refine returns_decodeWith request _ rfl (fun params => returns_member ?_) ?_
  · cases request.context
    · exact returns_idCheck _ _
    · exact returns_ok _
  · intro params hf hc
    obtain ⟨v, hv, hk, -⟩ := member_eq_none.mp hc
    obtain ⟨s, rfl⟩ := Value.asString_ok hk
    rw [forall_actingIds, ← returns_actor]
    simp [getParams_eq_ok.mpr hf, getParamAsString_of hv]

theorem returns_decodeIsSubscribed : Returns (decodeIsSubscribed request) ↔
    Extractable ⟨isSubscribedCheck, [], []⟩ request := by
  refine returns_decodeWith request _ rfl (fun params => returns_member (returns_ok _)) ?_
  intro params hf hc
  obtain ⟨v, hv, hk, -⟩ := member_eq_none.mp hc
  obtain ⟨s, rfl⟩ := Value.asString_ok hk
  cases request.context <;> simp [getParams_eq_ok.mpr hf, getParamAsString_of hv]

theorem returns_decodeMembership (make : Uuid → Command)
    (h : request.context = .onSession) : Returns (decodeMembership request make) ↔
      Extractable ⟨membershipCheck, ["client_id"], []⟩ request := by
  unfold decodeMembership
  rw [h]
  refine returns_decodeWith request membershipCheck rfl
    (fun params => returns_idCheck params _) ?_
  intro params hf hc
  simp [getParams_eq_ok.mpr hf, returns_getParamAsId]

theorem returns_decodeRegister (h : request.context = .onSession) :
    Returns (decodeRegister request) ↔
      Extractable ⟨registerCheck, [], ["sessions_port", "clients_port"]⟩ request := by
  unfold decodeRegister
  rw [h]
  refine returns_decodeWith request _ rfl (fun params =>
    returns_member (returns_member (returns_member (returns_ok _)))) ?_
  intro params hf hc
  obtain ⟨-, -, -, hc⟩ := member_eq_none.mp hc
  obtain ⟨-, -, -, hc⟩ := member_eq_none.mp hc
  obtain ⟨v, hv, hk, -⟩ := member_eq_none.mp hc
  obtain ⟨b, rfl⟩ := Value.asBool_ok hk
  obtain ⟨c, hb⟩ := returns_of_bool hv
  rw [getParams_eq_ok.mpr hf, ok_bind, returns_seq (q := Signed params "clients_port"),
    returns_getParamAsNumber]
  · simp
  · intro n
    rw [returns_seq (q := True), returns_getParamAsNumber, and_true]
    intro m
    simp [hb]

theorem returns_decodeSession (h : request.context = .onSession) :
    Returns (decodeSession request) ↔
      Extractable ⟨sessionCheck, [], ["sessions_port", "clients_port"]⟩ request := by
  unfold decodeSession
  rw [h]
  refine returns_decodeWith request _ rfl (fun params =>
    returns_member (returns_member (returns_member (returns_ok _)))) ?_
  intro params hf hc
  obtain ⟨v, hv, hk, -⟩ := member_eq_none.mp hc
  obtain ⟨s, rfl⟩ := Value.asString_ok hk
  rw [getParams_eq_ok.mpr hf, ok_bind, getParamAsString_of hv, ok_bind,
    returns_seq (q := Signed params "clients_port"), returns_getParamAsNumber]
  · simp
  · intro n
    rw [returns_seq (q := True), returns_getParamAsNumber, and_true]
    intro m
    simp

/-- **An action raises only in the extraction of its parameters.** -/
theorem returns_decodeAction (action : String) : Returns (decodeAction request action) ↔
    ∀ p, parameters request.context action = some p → Extractable p request := by
  by_cases h : action ∈ actions
  · simp only [actions, List.mem_cons, List.not_mem_nil, or_false] at h
    rcases h with rfl | rfl | rfl | rfl | rfl | rfl | rfl | rfl | rfl | rfl | rfl | rfl
    · cases request.context <;> simp [parameters]
    · simp [parameters, returns_decodeSend]
    · cases hc : request.context
      · simp [parameters, returns_decodeRegister request hc]
      · simp [parameters, decodeRegister, hc]
    · cases hc : request.context
      · simp [parameters, returns_decodeSession request hc]
      · simp [parameters, decodeSession, hc]
    · cases request.context <;> simp [parameters]
    · simp [parameters, returns_decodeSubscription]
    · simp [parameters, returns_decodeIsSubscribed]
    · simp [parameters, returns_decodeSubscription]
    · simp [parameters, returns_decodeBroadcast]
    · simp [parameters, returns_decodePublish]
    · cases hc : request.context
      · simp [parameters, returns_decodeMembership request .join hc]
      · simp [parameters, decodeMembership, hc]
    · cases hc : request.context
      · simp [parameters, returns_decodeMembership request .leave hc]
      · simp [parameters, decodeMembership, hc]
  · rw [decodeAction_unknown request h]
    simp only [actions, List.mem_cons, List.not_mem_nil, or_false, not_or] at h
    cases request.context <;> simp [parameters, h]

end

/-! ## The kernel -/

section

variable (data : Object) (context : Context) (entityId : Uuid)

theorem returns_decoded {v : Verdict} {t : Uuid} : Returns (v.decoded t) ↔ Returns v := by
  rcases v with e | (entry | command) <;> simp [Verdict.decoded]

/-- A message that does not pass the envelope needs only its transaction id. -/
theorem returns_decode_rejected {entry : String × String}
    (h : validator data = .ok (some entry)) : Returns (decode data context entityId) ↔
      ∀ s, NamedBy data s → ∃ t, lexicalCast s = some t := by
  rcases hasTransactionId_eq data with ⟨hh, s, hs⟩ | ⟨hh, hn⟩
  · have hd : decode data context entityId = (getParamAsId data "transaction_id" >>=
        fun t => .ok (.invalid t entry.1 entry.2)) := by
      simp [decode, h, hh, bind, Except.bind, pure, Except.pure]
    rw [hd, returns_seq (q := True) (fun _ => by simp), and_true, returns_getParamAsId]
    constructor
    · rintro ⟨s', u, hs', hu⟩ s'' hs''
      rw [hs''.1] at hs'
      cases hs'
      exact ⟨u, hu⟩
    · intro hall
      obtain ⟨u, hu⟩ := hall s hs
      exact ⟨s, u, hs.1, hu⟩
  · rw [decode_unnamed entry h hn]
    simp only [returns_ok, true_iff]
    exact fun s hs => absurd ⟨s, hs⟩ hn

theorem returns_decode : Returns (decode data context entityId) ↔
    Guarded data context entityId := by
  obtain ⟨r, hr⟩ := validator_total data
  cases r with
  | some entry =>
    rw [returns_decode_rejected data context entityId hr]
    refine ⟨fun h => ⟨h, ?_⟩, fun h => h.1⟩
    intro action s t p ha hs _ _
    have hv : validator data = .ok none := validator_eq_none.mpr ⟨action, s, ha, hs⟩
    rw [hr] at hv
    cases hv
  | none =>
    obtain ⟨action, s, ha, hs⟩ := validator_eq_none.mp hr
    cases ht : lexicalCast s with
    | none =>
      have hd : decode data context entityId = .error .badLexicalCast := by
        simp [decode, hr, getParamAsId_of hs.1, ht, bind, Except.bind]
      rw [hd]
      simp only [not_returns_error, false_iff]
      intro hg
      obtain ⟨t, h⟩ := hg.1 s hs
      rw [ht] at h
      cases h
    | some t =>
      rw [decode_of_envelope ha hs ht, returns_decoded, returns_decodeAction]
      constructor
      · refine fun h => ⟨fun s' hs' => ?_, fun action' s' t' p ha' hs' ht' hp => ?_⟩
        · have : s = s' := by simpa using hs.1.symm.trans hs'.1
          exact ⟨t, this ▸ ht⟩
        · have : action = action' := by simpa using ha.symm.trans ha'
          subst this
          have : s = s' := by simpa using hs.1.symm.trans hs'.1
          subst this
          cases ht.symm.trans ht'
          exact h p hp
      · exact fun h p hp => h.2 action s t p ha hs ht hp

variable {data context}

/-- **The kernel returns, with a processed response, exactly on the guarded messages.** -/
theorem kernel_returns_iff (w : World) (hr : ∀ host port, w.env.resolves host port = true) :
    (∃ response w', kernel data context entityId w = (.ok response, w') ∧
      response.processed = true) ↔ Guarded data context entityId := by
  rw [← returns_decode data context entityId]
  constructor
  · rintro ⟨response, w', hk, -⟩
    cases hd : decode data context entityId with
    | ok d => exact returns_ok d
    | error e =>
      rw [kernel_raised w data context entityId hd] at hk
      cases hk
  · rintro ⟨d, hd⟩
    cases d with
    | invalid t field message =>
      obtain ⟨w', runtime, hk, -⟩ := kernel_invalid w data context entityId hd
      exact ⟨_, w', hk, rfl⟩
    | accepted t command =>
      obtain ⟨w', runtime, hk, -⟩ :=
        kernel_accepted w data context entityId hd (fun host sp _ _ => hr host sp)
      exact ⟨_, w', hk, rfl⟩

end

/-! ### A node in use -/

def localId : Uuid := ⟨List.replicate 16 11, rfl⟩

def remoteId : Uuid := ⟨List.replicate 16 12, rfl⟩

/-- A session to a peer, a client here, one of the peer, and a subscription of each. -/
def State.populated : State :=
  let st : State := { id := Uuid.nil }
  let st := (st.addSession { id := remoteId, registered := true }).1
  let st := (st.addClient ⟨localId, Uuid.nil⟩).1
  let st := (st.addClient ⟨⟨List.replicate 16 13, rfl⟩, remoteId⟩).1
  let st := (st.subscribe Uuid.nil localId "c").1
  (st.subscribe remoteId ⟨List.replicate 16 13, rfl⟩ "c").1

def World.populated : World := (World.initial Uuid.nil).withState State.populated

/-- A client's request on a channel. -/
def subscribing (channel : Value) : Object :=
  [("action", .string "subscribe"), ("transaction_id", .string Uuid.nil.toString),
    ("params", .object [("channel", channel)])]

theorem decode_subscribing (channel : Value) : decode (subscribing channel) .onClient localId =
    (decodeSubscription ⟨Uuid.nil, localId, .onClient, subscribing channel, 0⟩
      .subscribe).decoded Uuid.nil := by
  have hs : NamedBy (subscribing channel) Uuid.nil.toString := ⟨rfl, isUuid_toString _⟩
  rw [decode_of_envelope rfl hs (lexicalCast_toString _), decodeAction_subscribe]

/-- A subscription reaches its handler and comes back processed, so it is guarded. -/
theorem kernel_returns_iff_subscribing :
    (∃ response w', kernel (subscribing (.string "d")) .onClient localId World.populated =
      (.ok response, w') ∧ response.processed = true) ∧
    Guarded (subscribing (.string "d")) .onClient localId := by
  have hd : decode (subscribing (.string "d")) .onClient localId =
      .ok (.accepted Uuid.nil (.subscribe localId "d")) := (decode_subscribing _).trans rfl
  obtain ⟨w', runtime, hk, -⟩ :=
    kernel_accepted World.populated _ .onClient localId hd (fun _ _ _ _ => rfl)
  exact ⟨⟨_, w', hk, rfl⟩,
    (kernel_returns_iff localId World.populated fun _ _ => rfl).mp ⟨_, w', hk, rfl⟩⟩

/-- A `join` without `params` from a peer. -/
theorem kernel_raises : kernel
    [("action", .string "join"), ("transaction_id", .string Uuid.nil.toString)]
      .onSession Uuid.nil (World.initial Uuid.nil) =
    (.error (.outOfRange "params"), started (World.initial Uuid.nil)) :=
  kernel_raised (World.initial Uuid.nil) _ .onSession Uuid.nil (by
    have hs : NamedBy [("action", .string "join"),
        ("transaction_id", .string Uuid.nil.toString)] Uuid.nil.toString :=
      ⟨rfl, isUuid_toString _⟩
    rw [decode_of_envelope rfl hs (lexicalCast_toString _), decodeAction_join]
    rfl)

/-! ## What a failure leaves -/

/-- The kernel raised, or its response says that the request failed. -/
def Failed : Except Raise Response → Prop
  | .error _ => True
  | .ok response => response.failed = true

/-- The response to a command is never a failure. -/
theorem not_failed_acceptance (t : Uuid) (timestamp runtime : Int64)
    (reply : Option (String × Object)) : ¬ Failed (.ok (acceptance t timestamp runtime reply)) := by
  cases reply <;> simp [Failed, acceptance, Response.replied]

/-- **A failed request has no effect**: the stores are as before and nothing was sent. -/
theorem kernel_failed_idle (data : Object) (context : Context) (entityId : Uuid) (w : World)
    (h : Failed (kernel data context entityId w).1) :
    (kernel data context entityId w).2.state = w.state ∧
    (kernel data context entityId w).2.effects = w.effects := by
  cases kernel_cases w data context entityId with
  | raised e w' eq idle =>
    rw [eq]
    exact ⟨idle.state, idle.effects⟩
  | rejected t field message runtime w' decoded eq idle =>
    rw [eq]
    exact ⟨idle.state, idle.effects⟩
  | accepted t command runtime w' decoded eq acted =>
    rw [eq] at h
    exact absurd h (not_failed_acceptance _ _ _ _)

/-- A subscription that its handler refuses, because the channel is no string. -/
theorem kernel_failed_idle_subscribing :
    Failed (kernel (subscribing .null) .onClient localId World.populated).1 ∧
    (kernel (subscribing .null) .onClient localId World.populated).2.state = State.populated ∧
    (kernel (subscribing .null) .onClient localId World.populated).2.effects = [] := by
  have hd : decode (subscribing .null) .onClient localId =
      .ok (.invalid Uuid.nil "params" "params channel attribute must be string") :=
    (decode_subscribing _).trans rfl
  have h : Failed (kernel (subscribing .null) .onClient localId World.populated).1 := by
    obtain ⟨w', runtime, eq, -⟩ := kernel_invalid World.populated _ .onClient localId hd
    rw [eq]
    exact rfl
  exact ⟨h, kernel_failed_idle _ .onClient localId World.populated h⟩

end Aewt
