import AewtState.Request

/-!
# Validators

`validator` is the envelope check of `kernel`; the other validators check the parameters of
one action.  A parameter check (`Check`) raises, or finds the message for the first attribute
that fails, or passes; `validate` runs it and, when it found a message, marks the request as
invalid on the field `params`.

Every check except `idCheck` is built from `member`: the attribute is present, then it has the
wanted kind.
-/

set_option autoImplicit false

namespace Aewt

/-! ## The envelope -/

/-- `validator::validator`: the entry of the bag, or `none` when the object passed. -/
def validator (data : Object) : Except Raise (Option (String × String)) :=
  if !data.contains "action" then
    .ok (some ("action", "action attribute must be present"))
  else do
    let action ← data.atKey "action"
    if !action.isString then
      .ok (some ("action", "action attribute must be string"))
    else if !data.contains "transaction_id" then
      .ok (some ("transaction_id", "transaction_id attribute must be present"))
    else do
      let transactionId ← data.atKey "transaction_id"
      if !transactionId.isString then
        .ok (some ("transaction_id", "transaction_id attribute must be string"))
      else do
        let s ← transactionId.asString
        if !isUuid s then
          .ok (some ("transaction_id", "transaction_id attribute must be uuid"))
        else .ok none

/-! ## Parameters -/

/-- The outcome of a parameter check: the message of the attribute that failed, if any. -/
abbrev Check := Except Raise (Option String)

/-- `params {name} attribute must be {what}`. -/
def attributeMessage (name what : String) : String :=
  "params " ++ name ++ " attribute must be " ++ what

/-- The attribute must be present and of the kind that `isKind` tests; then `rest`. -/
def member (params : Object) (name kind : String) (isKind : Value → Bool) (rest : Check) :
    Check :=
  if !params.contains name then .ok (some (attributeMessage name "present"))
  else do
    let value ← params.atKey name
    if !isKind value then .ok (some (attributeMessage name kind)) else rest

/-- `id_validator`. -/
def idCheck (params : Object) (name : String) : Check :=
  member params name "string" Value.isString do
    let value ← params.atKey name
    let s ← value.asString
    if !isUuid s then .ok (some (attributeMessage name "uuid")) else .ok none

/-- `a && b`: the second check runs when the first passed. -/
def Check.andThen (a b : Check) : Check :=
  match a with
  | .ok none => b
  | _ => a

/-- `get_params_as_value(request).as_object()`. -/
def paramsObject (request : Request) : Except Raise Object :=
  getParamsAsValue request >>= Value.asObject

def broadcastCheck (request : Request) : Check := do
  let params ← paramsObject request
  member params "payload" "object" Value.isObject <|
    match request.context with
    | .onSession => idCheck params "client_id"
    | .onClient => .ok none

def isSubscribedCheck (request : Request) : Check := do
  let params ← paramsObject request
  member params "channel" "string" Value.isString (.ok none)

def publishCheck (request : Request) : Check := do
  let params ← paramsObject request
  member params "channel" "string" Value.isString <|
    member params "payload" "object" Value.isObject <|
      match request.context with
      | .onSession => idCheck params "client_id"
      | .onClient => .ok none

def registerCheck (request : Request) : Check := do
  let params ← paramsObject request
  member params "sessions_port" "number" Value.isNumber <|
    member params "clients_port" "number" Value.isNumber <|
      member params "registered" "boolean" Value.isBool (.ok none)

def sendCheck (request : Request) : Check := do
  let params ← paramsObject request
  member params "payload" "object" Value.isObject <|
    match request.context with
    | .onSession => (idCheck params "from_client_id").andThen (idCheck params "to_client_id")
    | .onClient => idCheck params "to_client_id"

def sessionCheck (request : Request) : Check := do
  let params ← paramsObject request
  member params "host" "string" Value.isString <|
    member params "sessions_port" "number" Value.isNumber <|
      member params "clients_port" "number" Value.isNumber (.ok none)

def subscriptionsCheck (request : Request) : Check := do
  let params ← paramsObject request
  member params "channel" "string" Value.isString <|
    match request.context with
    | .onSession => idCheck params "client_id"
    | .onClient => .ok none

/-- Run a check; a message marks the request as invalid. -/
def validate (request : Request) (check : Check) : M Bool := do
  match ← M.lift check with
  | some message => do
    markAsInvalid request "params" message
    return false
  | none => return true

def idValidator (request : Request) (params : Object) (name : String) : M Bool :=
  validate request (idCheck params name)

def broadcastValidator (request : Request) : M Bool := validate request (broadcastCheck request)

def isSubscribedValidator (request : Request) : M Bool :=
  validate request (isSubscribedCheck request)

def publishValidator (request : Request) : M Bool := validate request (publishCheck request)

def registerValidator (request : Request) : M Bool := validate request (registerCheck request)

def sendValidator (request : Request) : M Bool := validate request (sendCheck request)

def sessionValidator (request : Request) : M Bool := validate request (sessionCheck request)

def subscriptionsValidator (request : Request) : M Bool :=
  validate request (subscriptionsCheck request)

/-! ## What a passed check says -/

theorem member_eq_none {params : Object} {name kind : String} {isKind : Value → Bool}
    {rest : Check} : member params name kind isKind rest = .ok none ↔
      ∃ v, params.find? name = some v ∧ isKind v = true ∧ rest = .ok none := by
  unfold member
  cases h : params.find? name with
  | none => simp [Object.contains, h]
  | some v =>
    simp only [Object.contains, h, Option.isSome_some, Bool.not_true, Bool.false_eq_true,
      if_false, Object.atKey_of_find? h, Option.some.injEq, exists_eq_left']
    cases hk : isKind v
    · simp [bind, Except.bind, hk]
    · simp [bind, Except.bind, hk]

theorem member_eq_error {params : Object} {name kind : String} {isKind : Value → Bool}
    {rest : Check} {e : Raise} (h : member params name kind isKind rest = .error e) :
    rest = .error e := by
  unfold member at h
  cases hf : params.find? name with
  | none => simp [Object.contains, hf] at h
  | some v =>
    simp only [Object.contains, hf, Option.isSome_some, Bool.not_true, Bool.false_eq_true,
      if_false, Object.atKey_of_find? hf, bind, Except.bind] at h
    split at h
    · cases h
    · exact h

theorem idCheck_eq_none {params : Object} {name : String} :
    idCheck params name = .ok none ↔
      ∃ s, params.find? name = some (.string s) ∧ isUuid s = true := by
  unfold idCheck
  rw [member_eq_none]
  constructor
  · rintro ⟨v, hv, hk, hrest⟩
    obtain ⟨s, rfl⟩ := Value.asString_ok hk
    refine ⟨s, hv, ?_⟩
    cases hu : isUuid s
    · simp [Object.atKey_of_find? hv, Value.asString, bind, Except.bind, hu] at hrest
    · rfl
  · rintro ⟨s, hs, hu⟩
    exact ⟨_, hs, rfl, by
      simp [Object.atKey_of_find? hs, Value.asString, bind, Except.bind, hu]⟩

theorem Check.andThen_eq_none {a b : Check} :
    a.andThen b = .ok none ↔ a = .ok none ∧ b = .ok none := by
  unfold Check.andThen
  split
  · rename_i h; simp
  · rename_i h
    constructor
    · intro ha; exact absurd ha (by simpa using h)
    · intro ha; exact ha.1

end Aewt
