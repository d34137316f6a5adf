import AewtState.Raising
import Mathlib.Data.Int.Cast.Lemmas
import Mathlib.Tactic.NormNum

/-!
# Ports on the way from a message to a session

A port of a `register` or `session` message is checked to be a number, read as a signed 64-bit
integer, converted to `std::size_t` and stored in 16 bits.

* `Value.number?` — the number that a JSON value denotes, whatever its kind.
* `Survives` — the handler reads both ports, they are 16-bit numbers, and the sessions that it
  changed hold them.
* `PortNumber` — the member is an `int64` between 0 and 65535.

Principal result: `ports_survive_iff`.  `narrowed_toNat` says what a session holds instead: the
number modulo 2^16.
-/

set_option autoImplicit false

namespace Aewt

/-! ## Numbers -/

/-- The number that the 64 bits of a finite `double` denote. -/
def doubleValue (bits : UInt64) : ℚ :=
  let raw : ℕ := bits.toNat
  let exponent : ℕ := raw / 2 ^ 52 % 2 ^ 11
  let magnitude : ℚ :=
    if exponent = 0 then ((raw % 2 ^ 52 : ℕ) : ℚ) * 2 ^ (-1074 : ℤ)
    else ((2 ^ 52 + raw % 2 ^ 52 : ℕ) : ℚ) * 2 ^ ((exponent : ℤ) - 1075)
  if 2 ^ 63 ≤ raw then -magnitude else magnitude

/-- The number that a JSON value denotes. -/
def Value.number? : Value → Option ℚ
  | .int64 n => some (n.toInt : ℚ)
  | .uint64 n => some (n.toNat : ℚ)
  | .double bits => some (doubleValue bits)
  | _ => none

/-- The value denotes the 16-bit number `p`. -/
def Value.Denotes (v : Value) (p : UInt16) : Prop := v.number? = some (p.toNat : ℚ)

/-- What the conversions leave of a number: to `std::size_t` and then to 16 bits. -/
def narrowed (n : Int64) : UInt16 := n.toUInt64.toUInt16

/-- **The narrowing keeps the number modulo 2^16.** -/
theorem narrowed_toNat (n : Int64) : ((narrowed n).toNat : ℤ) = n.toInt % 2 ^ 16 := by
  have hn : n.toInt = if 2 * n.toUInt64.toNat < 2 ^ 64 then (n.toUInt64.toNat : ℤ)
      else (n.toUInt64.toNat : ℤ) - (2 ^ 64 : ℕ) := BitVec.toInt_eq_toNat_cond n.toBitVec
  have hlt : n.toUInt64.toNat < 2 ^ 64 := n.toUInt64.toNat_lt
  rw [narrowed, UInt64.toNat_toUInt16, hn]
  split <;> omega

/-- An `int64` denotes its narrowing when it fits in 16 bits. -/
theorem denotes_narrowed {n : Int64} (h : 0 ≤ n.toInt) (h' : n.toInt < 2 ^ 16) :
    (Value.int64 n).Denotes (narrowed n) := by
  have hn := narrowed_toNat n
  rw [Int.emod_eq_of_lt h h'] at hn
  rw [Value.Denotes, Value.number?, ← hn]
  norm_cast

theorem fits_of_denotes {n : Int64} {p : UInt16} (h : (Value.int64 n).Denotes p) :
    0 ≤ n.toInt ∧ n.toInt < 2 ^ 16 := by
  have hn : (n.toInt : ℚ) = ((p.toNat : ℤ) : ℚ) := by
    simpa [Value.Denotes, Value.number?] using h
  have hp : p.toNat < 2 ^ 16 := p.toNat_lt
  rw [Int.cast_inj] at hn
  omega

/-! ## Survival -/

/-- The port members of a message, each with the field of the session that keeps it. -/
def portMembers : List (String × (Session → UInt16)) :=
  [("sessions_port", Session.sessionsPort), ("clients_port", Session.clientsPort)]

/-- The member is an `int64` that fits in 16 bits. -/
def PortNumber (params : Object) (name : String) : Prop :=
  ∃ n : Int64, params.find? name = some (.int64 n) ∧ 0 ≤ n.toInt ∧ n.toInt < 2 ^ 16

/-- The member can be extracted, denotes a 16-bit number, and the sessions that `held` picks
keep this number. -/
def PortSurvives (params : Object) (name : String) (port : Session → UInt16)
    (held : Session → Prop) : Prop :=
  ∃ v n, params.find? name = some v ∧ getParamAsNumber params name = .ok n ∧
    (∃ p, v.Denotes p) ∧ ∀ x, held x → v.Denotes (port x)

/-- The handler ends, or raises because a name does not resolve, and both ports survive. -/
def Survives (params : Object) (handler : M Unit) (held : State → Session → Prop) (w : World) :
    Prop :=
  ∃ r w', handler w = (r, w') ∧ (r = .ok () ∨ r = .error .hostNotFound) ∧
    ∀ m ∈ portMembers, PortSurvives params m.1 m.2 (held w'.state)

/-- The session on which the message came. -/
def Receiving (request : Request) (st : State) (x : Session) : Prop :=
  st.getSession request.entityId = some x

/-- A session that is new since `st₀`. -/
def Entered (st₀ st : State) (x : Session) : Prop := x ∈ st.getSessions ∧ x ∉ st₀.getSessions

section

variable {params : Object} {name : String}

theorem getParamAsNumber_int64 {n : Int64} (h : params.find? name = some (.int64 n)) :
    getParamAsNumber params name = .ok n.toUInt64 := by
  simp [getParamAsNumber, Object.atKey_of_find? h, Value.asInt64, Except.map, bind, Except.bind]

/-- Only an `int64` is extracted, and only one that fits denotes a 16-bit number. -/
theorem PortSurvives.portNumber {port : Session → UInt16} {held : Session → Prop}
    (h : PortSurvives params name port held) : PortNumber params name := by
  obtain ⟨v, k, hv, hk, ⟨p, hp⟩, -⟩ := h
  obtain ⟨n, hn⟩ := returns_getParamAsNumber.mp ⟨k, hk⟩
  rw [hn] at hv
  cases hv
  exact ⟨n, hn, fits_of_denotes hp⟩

theorem portSurvives_of_narrowed {n : Int64} (hn : params.find? name = some (.int64 n))
    (h : 0 ≤ n.toInt) (h' : n.toInt < 2 ^ 16) {port : Session → UInt16} {held : Session → Prop}
    (hheld : ∀ x, held x → port x = narrowed n) : PortSurvives params name port held := by
  refine ⟨_, _, hn, getParamAsNumber_int64 hn, ⟨_, denotes_narrowed h h'⟩, fun x hx => ?_⟩
  rw [hheld x hx]
  exact denotes_narrowed h h'

theorem Survives.portNumbers {handler : M Unit} {held : State → Session → Prop} {w : World}
    (h : Survives params handler held w) : ∀ m ∈ portMembers, PortNumber params m.1 := by
  obtain ⟨r, w', -, -, hm⟩ := h
  exact fun m hmem => (hm m hmem).portNumber

theorem forall_portMembers {p : String × (Session → UInt16) → Prop} :
    (∀ m ∈ portMembers, p m) ↔
      p ("sessions_port", Session.sessionsPort) ∧ p ("clients_port", Session.clientsPort) := by
  simp [portMembers]

end

/-! ## The two handlers -/

section

variable {request : Request} {params : Object} {n m : Int64}

theorem decodeRegister_ports (hctx : request.context = .onSession)
    (hp : getParams request = .ok params) (hc : registerCheck request = .ok none)
    (hn : params.find? "sessions_port" = some (.int64 n))
    (hm : params.find? "clients_port" = some (.int64 m)) :
    ∃ b, decodeRegister request = .ok (.ok (.register n.toUInt64 m.toUInt64 b)) := by
  have hrest := hc
  rw [registerCheck, paramsObject_eq_ok.mpr (getParams_eq_ok.mp hp)] at hrest
  obtain ⟨-, -, -, hrest⟩ := member_eq_none.mp hrest
  obtain ⟨-, -, -, hrest⟩ := member_eq_none.mp hrest
  obtain ⟨v, hv, hk, -⟩ := member_eq_none.mp hrest
  obtain ⟨b, rfl⟩ := Value.asBool_ok hk
  refine ⟨b, ?_⟩
  unfold decodeRegister
  rw [hctx]
  simp only
  rw [hc, hp, ok_bind, getParamAsNumber_int64 hn, ok_bind, getParamAsNumber_int64 hm, ok_bind,
    getParamAsBool_of hv]
  rfl

theorem decodeSession_ports (hctx : request.context = .onSession)
    (hp : getParams request = .ok params) (hc : sessionCheck request = .ok none)
    (hn : params.find? "sessions_port" = some (.int64 n))
    (hm : params.find? "clients_port" = some (.int64 m)) :
    ∃ host, decodeSession request = .ok (.ok (.session host n.toUInt64 m.toUInt64)) := by
  have hrest := hc
  rw [sessionCheck, paramsObject_eq_ok.mpr (getParams_eq_ok.mp hp)] at hrest
  obtain ⟨v, hv, hk, -⟩ := member_eq_none.mp hrest
  obtain ⟨host, rfl⟩ := Value.asString_ok hk
  refine ⟨host, ?_⟩
  unfold decodeSession
  rw [hctx]
  simp only
  rw [hc, hp, ok_bind, getParamAsString_of hv, ok_bind, getParamAsNumber_int64 hn, ok_bind,
    getParamAsNumber_int64 hm]
  rfl

/-- The receiving session holds the narrowed ports after a registration. -/
theorem receiving_registered {w : World} {sp cp : UInt64} {b : Bool} {x : Session}
    (h : Receiving request (registerOutcome w request sp cp b).state x) :
    x.sessionsPort = sp.toUInt16 ∧ x.clientsPort = cp.toUInt16 := by
  rw [registerOutcome_state] at h
  obtain ⟨hx, hid⟩ := Table.find?_eq_some.mp h
  obtain ⟨y, -, hy⟩ := List.mem_map.mp hx
  split at hy
  · subst hy
    exact ⟨rfl, rfl⟩
  · rename_i hne
    subst hy
    exact absurd hid hne

/-- A session that is entered holds the narrowed ports. -/
theorem entered_dialled {w : World} {host : String} {sp cp : UInt64} {x : Session}
    (h : Entered w.state (sessionOutcome w host sp cp).state x) :
    x.sessionsPort = sp.toUInt16 ∧ x.clientsPort = cp.toUInt16 := by
  obtain ⟨hx, hnew⟩ := h
  unfold sessionOutcome at hx
  split at hx
  · exact absurd hx hnew
  · rcases Table.mem_insert.mp hx with hold | ⟨rfl, -⟩
    · exact absurd hold hnew
    · exact ⟨rfl, rfl⟩

theorem performSession_cases (w : World) (request : Request) (host : String) (sp cp : UInt64) :
    ∃ r w', performSession request host sp cp w = (r, w') ∧
      (r = .ok () ∨ r = .error .hostNotFound) ∧
      ∀ x, Entered w.state w'.state x →
        x.sessionsPort = sp.toUInt16 ∧ x.clientsPort = cp.toUInt16 := by
  by_cases hr : w.env.resolves host sp = true
  · obtain ⟨w', hw', hperf⟩ := performSession_spec w request host sp cp hr
    refine ⟨_, w', hw', Or.inl rfl, fun x hx => ?_⟩
    rw [hperf.state] at hx
    exact entered_dialled hx
  · cases hk : isKnown w.state host sp cp with
    | false =>
      refine ⟨_, w, performSession_unresolved w request host sp cp (by simpa using hr) hk,
        Or.inr rfl, fun x hx => absurd hx.1 hx.2⟩
    | true =>
      exact ⟨_, _, performSession_known w request host sp cp hk, Or.inl rfl,
        fun x hx => absurd hx.1 hx.2⟩

theorem register_survives_iff (hctx : request.context = .onSession)
    (hp : getParams request = .ok params) (hc : registerCheck request = .ok none) (w : World) :
    Survives params (registerHandler request) (Receiving request) w ↔
      ∀ m ∈ portMembers, PortNumber params m.1 := by
  refine ⟨Survives.portNumbers, fun h => ?_⟩
  obtain ⟨⟨n, hn, hn₀, hn₁⟩, ⟨m, hm, hm₀, hm₁⟩⟩ := forall_portMembers.mp h
  obtain ⟨b, hd⟩ := decodeRegister_ports hctx hp hc hn hm
  obtain ⟨w', hw', hperf⟩ := performRegister_spec w request n.toUInt64 m.toUInt64 b
  have hheld : ∀ x, Receiving request w'.state x →
      x.sessionsPort = narrowed n ∧ x.clientsPort = narrowed m := by
    intro x hx
    rw [hperf.state] at hx
    exact receiving_registered hx
  refine ⟨_, w', ?_, Or.inl rfl, forall_portMembers.mpr ⟨?_, ?_⟩⟩
  · rw [registerHandler_eq, hd]
    exact hw'
  · exact portSurvives_of_narrowed hn hn₀ hn₁ fun x hx => (hheld x hx).1
  · exact portSurvives_of_narrowed hm hm₀ hm₁ fun x hx => (hheld x hx).2

theorem session_survives_iff (hctx : request.context = .onSession)
    (hp : getParams request = .ok params) (hc : sessionCheck request = .ok none) (w : World) :
    Survives params (sessionHandler request) (Entered w.state) w ↔
      ∀ m ∈ portMembers, PortNumber params m.1 := by
  refine ⟨Survives.portNumbers, fun h => ?_⟩
  obtain ⟨⟨n, hn, hn₀, hn₁⟩, ⟨m, hm, hm₀, hm₁⟩⟩ := forall_portMembers.mp h
  obtain ⟨host, hd⟩ := decodeSession_ports hctx hp hc hn hm
  obtain ⟨r, w', hw', hr, hheld⟩ :=
    performSession_cases w request host n.toUInt64 m.toUInt64
  refine ⟨r, w', ?_, hr, forall_portMembers.mpr ⟨?_, ?_⟩⟩
  · rw [sessionHandler_eq, hd]
    exact hw'
  · exact portSurvives_of_narrowed hn hn₀ hn₁ fun x hx => (hheld x hx).1
  · exact portSurvives_of_narrowed hm hm₀ hm₁ fun x hx => (hheld x hx).2

end

/-- **When ports survive**: for every message that the validator accepts, both members have to
be `int64` numbers that fit in 16 bits. -/
theorem ports_survive_iff {request : Request} (hctx : request.context = .onSession)
    {params : Object} (hp : getParams request = .ok params) (w : World) :
    (registerCheck request = .ok none →
      (Survives params (registerHandler request) (Receiving request) w ↔
        ∀ m ∈ portMembers, PortNumber params m.1)) ∧
    (sessionCheck request = .ok none →
      (Survives params (sessionHandler request) (Entered w.state) w ↔
        ∀ m ∈ portMembers, PortNumber params m.1)) := by
  constructor
  · intro hc
    exact register_survives_iff hctx hp hc w
  · intro hc
    exact session_survives_iff hctx hp hc w

/-! ### A message with the sessions port `v` -/

def portParams (v : Value) : Object :=
  [("host", .string "127.0.0.1"), ("sessions_port", v), ("clients_port", .int64 12000),
    ("registered", .bool false)]

/-- Both validators accept it when `v` is a number. -/
def portRequest (v : Value) : Request :=
  ⟨Uuid.nil, remoteId, .onSession, [("params", .object (portParams v))], 0⟩

theorem not_portNumber_of_ge {n : Int64} (h : 2 ^ 16 ≤ n.toInt) :
    ¬ PortNumber (portParams (.int64 n)) "sessions_port" := by
  rintro ⟨m, hm, -, hlt⟩
  cases hm
  omega

/-- Port 11000 survives, on the session that receives it and on the one that is dialled. -/
theorem ports_survive_populated :
    (∃ x, Receiving (portRequest (.int64 11000)) State.populated x) ∧
    Survives (portParams (.int64 11000)) (registerHandler (portRequest (.int64 11000)))
      (Receiving (portRequest (.int64 11000))) World.populated ∧
    Survives (portParams (.int64 11000)) (sessionHandler (portRequest (.int64 11000)))
      (Entered State.populated) World.populated := by
  have hm : ∀ m ∈ portMembers, PortNumber (portParams (.int64 11000)) m.1 := by
    rw [forall_portMembers]
    exact ⟨⟨11000, rfl, by decide, by decide⟩, ⟨12000, rfl, by decide, by decide⟩⟩
  have h := @ports_survive_iff (portRequest (.int64 11000)) rfl _ rfl World.populated
  exact ⟨⟨_, rfl⟩, (h.1 rfl).mpr hm, (h.2 rfl).mpr hm⟩

/-- Port 70000 is accepted and narrowed to 4464; the number 80 written `80.0` is accepted and
makes the handler raise. -/
theorem ports_do_not_survive :
    registerCheck (portRequest (.int64 70000)) = .ok none ∧
    sessionCheck (portRequest (.int64 70000)) = .ok none ∧
    (narrowed 70000).toNat = 4464 ∧
    ¬ Survives (portParams (.int64 70000)) (registerHandler (portRequest (.int64 70000)))
      (Receiving (portRequest (.int64 70000))) World.populated ∧
    ¬ Survives (portParams (.int64 70000)) (sessionHandler (portRequest (.int64 70000)))
      (Entered State.populated) World.populated ∧
    registerCheck (portRequest (.double 0x4054000000000000)) = .ok none ∧
    doubleValue 0x4054000000000000 = 80 ∧
    registerHandler (portRequest (.double 0x4054000000000000)) World.populated =
      (.error .notInt64, World.populated) := by
  have hbig : ¬ PortNumber (portParams (.int64 70000)) "sessions_port" :=
    not_portNumber_of_ge (by decide)
  refine ⟨rfl, rfl, rfl, fun h => ?_, fun h => ?_, rfl, ?_, rfl⟩
  · exact hbig (forall_portMembers.mp h.portNumbers).1
  · exact hbig (forall_portMembers.mp h.portNumbers).1
  · have hraw : (0x4054000000000000 : UInt64).toNat = 0x4054000000000000 := rfl
    simp only [doubleValue, hraw]
    norm_num

end Aewt
