import AewtState.Identity
import AewtState.Threads

/-!
# What the status of `send` says

`send_handler` looks up the target's row and answers "ok" as soon as it found one it may route
to.  For a row learnt from a peer it then looks for that session in the map, which is another
store with another lock: the session may have been removed before, or between the two lookups.

* `Truthful` — the status matches what was sent.
* `Watch` — the threads of a node, with the store that each running handler found when it began.
* `Watch.Routed` — the condition: at its second lookup a `send` finds the session in the map.

Principal result: `sends_truthful_iff` — in a run of the threads all answers of `send` are truthful
exactly when all are routed.
-/

set_option autoImplicit false

namespace Aewt

open Serial

/-- The `message` of a response. -/
def Response.HasStatus (r : Response) (status : String) : Prop :=
  r.data.find? "message" = some (.string status)

/-- Exactly one send, on the target itself when its row is local, or for a client on the session
of the row. -/
def SentOnce (st : State) (context : Context) (target : Uuid) (es : List Effect) : Prop :=
  ∃ row ∈ st.clients, row.id = target ∧ ∃ text,
    (row.sessionId = st.id ∧ es = [.client target text]) ∨
    (context = .onClient ∧ row.sessionId ≠ st.id ∧ es = [.session row.sessionId text])

structure Truthful (st : State) (context : Context) (target : Uuid) (response : Response)
    (es : List Effect) : Prop where
  ok : response.HasStatus "ok" ↔ SentOnce st context target es
  noEffect : response.HasStatus "no effect" ↔ es = []

/-! ## One request -/

theorem hasStatus_acceptance (t : Uuid) (ts rt : Int64) (m m' : String) (data : Object) :
    (acceptance t ts rt (some (m, data))).HasStatus m' ↔ m = m' := by
  simp [Response.HasStatus, acceptance, Response.replied, successData]

section

variable {f target : Uuid} {payload : Object} {t : Uuid} {ts rt : Int64} {st : State}
  {context : Context} {es : List Effect}

/-- What a session is sent when it is in the map, and that nothing is sent otherwise. -/
theorem toSession_of_hasKey {data : Object} {s : Uuid} (h : st.sessions.hasKey s = true) :
    toSession st data s = [.session s (serialize data)] := by
  obtain ⟨x, hx, hid⟩ := Table.hasKey_iff.mp h
  have hget : st.sessions.find? s = some x := Table.find?_eq_some.mpr ⟨hx, hid⟩
  rw [toSession, State.getSessions, Table.filter_key, hget]
  simp [hid]

theorem toSession_of_not_hasKey {data : Object} {s : Uuid} (h : st.sessions.hasKey s = false) :
    toSession st data s = [] := by
  have hget : st.sessions.find? s = none :=
    Table.find?_eq_none.mpr (Table.hasKey_eq_false.mp h)
  rw [toSession, State.getSessions, Table.filter_key, hget]
  rfl

/-- "ok" and one send. -/
theorem truthful_ok (h : SentOnce st context target es) :
    Truthful st context target (acceptance t ts rt (some ("ok", []))) es where
  ok := by simp [hasStatus_acceptance, h]
  noEffect := by
    obtain ⟨row, -, -, text, ⟨-, rfl⟩ | ⟨-, -, rfl⟩⟩ := h <;> simp [hasStatus_acceptance]

/-- "no effect" and no send. -/
theorem truthful_noEffect (st : State) (context : Context) :
    Truthful st context target (acceptance t ts rt (some ("no effect", []))) [] where
  ok := by
    simp only [hasStatus_acceptance]
    refine iff_of_false (by decide) ?_
    rintro ⟨row, -, -, text, ⟨-, h⟩ | ⟨-, -, h⟩⟩ <;> cases h
  noEffect := by simp [hasStatus_acceptance]

/-- "ok" and no send. -/
theorem not_truthful_nil :
    ¬ Truthful st context target (acceptance t ts rt (some ("ok", []))) [] := by
  intro h
  have hstatus : (acceptance t ts rt (some ("ok", []))).HasStatus "ok" :=
    (hasStatus_acceptance t ts rt "ok" "ok" []).mpr rfl
  obtain ⟨row, -, -, text, ⟨-, he⟩ | ⟨-, -, he⟩⟩ := h.ok.mp hstatus <;> cases he

/-- How a `send` stands after its first lookup: it is answered, or it is to look for the session of
the row that it found. -/
inductive SendCode (st : State) (context : Context) (target : Uuid) (t : Uuid) :
    Code State Answer → Prop where
  | answered (b : Answer)
    (truthful : ∀ ts rt, Truthful st context target (acceptance t ts rt b.2) b.1) :
    SendCode st context target t (.done b)
  | looking (row : Client) (mem : row ∈ st.clients) (isTarget : row.id = target)
    (away : row.sessionId ≠ st.id) (byClient : context = .onClient) (data : Object) :
    SendCode st context target t
      (.lock id fun st' => .done (toSession st' data row.sessionId, some ("ok", [])))

/-- **The first lookup answers truthfully or leaves the second one to be made.** -/
theorem sendCode_enter (env : Env) (drawn : Nat) (request : Request) (st : State) :
    SendCode st request.context target request.transactionId
      ((codeSend env drawn request f target payload).enter st).2 := by
  simp only [codeSend, Code.enter]
  cases hrow : st.getClient target with
  | none => exact .answered _ fun ts rt => truthful_noEffect st request.context
  | some row =>
    obtain ⟨hr, hid⟩ := Table.find?_eq_some.mp hrow
    simp only
    split
    · rename_i hl
      exact .answered _ fun ts rt => truthful_ok ⟨row, hr, hid, _, .inl ⟨hl, by rw [hid]⟩⟩
    · rename_i hl
      cases hctx : request.context with
      | onClient => exact .looking row hr hid hl rfl _
      | onSession => exact .answered _ fun ts rt => truthful_noEffect st .onSession

/-- **The second lookup answers truthfully exactly when it finds the session.** -/
theorem truthful_iff_hasKey {row : Client} (hr : row ∈ st.clients) (hid : row.id = target)
    (hne : row.sessionId ≠ st.id) (hctx : context = .onClient) (st' : State) (data : Object) :
    Truthful st context target (acceptance t ts rt (some ("ok", [])))
      (toSession st' data row.sessionId) ↔ st'.sessions.hasKey row.sessionId = true := by
  cases hk : st'.sessions.hasKey row.sessionId with
  | true =>
    rw [toSession_of_hasKey hk]
    exact iff_of_true (truthful_ok ⟨row, hr, hid, _, .inr ⟨hctx, hne, rfl⟩⟩) rfl
  | false =>
    rw [toSession_of_not_hasKey hk]
    exact iff_of_false not_truthful_nil (by simp)

end

/-! ## The requests of a run -/

/-- The threads of a node.  `found` is bookkeeping: the store in which the handler that the thread
runs began. -/
structure Watch (ι : Type) where
  machine : Machine ι Work State Answer
  found : ι → State := fun _ => machine.store

namespace Watch

variable {ι : Type} [DecidableEq ι]

def step (X : Watch ι) (a : Serial.Action ι Work) : Option (Watch ι) :=
  (Serial.step Work.code X.machine a).map fun Y => {
    machine := Y
    found := match a with
      | .begin i _ => Function.update X.found i X.machine.store
      | _ => X.found }

/-- The thread runs a `send`. -/
def Sends (X : Watch ι) (i : ι) (request : Request) (target : Uuid) (c : Code State Answer) :
    Prop :=
  ∃ env drawn f payload,
    X.machine.running i = some (.request env drawn request (.send f target payload), c)

/-- Every `send` that has its answer answers truthfully. -/
def AllTruthful (X : Watch ι) : Prop :=
  ∀ i request target b, X.Sends i request target (.done b) → ∀ ts rt,
    Truthful (X.found i) request.context target
      (acceptance request.transactionId ts rt b.2) b.1

/-- The second lookup of a `send` finds the session of the target's row in the map. -/
def Routed (X : Watch ι) : Serial.Action ι Work → Prop
  | .proceed i => ∀ request target g k, X.Sends i request target (.lock g k) →
    ∀ row ∈ (X.found i).clients, row.id = target →
      X.machine.store.sessions.hasKey row.sessionId = true
  | _ => True

/-- Every running `send` stands where its first lookup put it. -/
def Inv (X : Watch ι) : Prop :=
  ∀ i request target c, X.Sends i request target c →
    (∃ b, c = .done b) ∨
      SendCode (X.found i) request.context target request.transactionId c

section

variable {X Y : Watch ι} {a : Serial.Action ι Work} {i : ι}

theorem step_eq_some : X.step a = some Y ↔
    ∃ m, Serial.step Work.code X.machine a = some m ∧ Y = {
      machine := m
      found := match a with
        | .begin i _ => Function.update X.found i X.machine.store
        | _ => X.found } := by
  unfold step
  rw [Option.map_eq_some_iff]
  exact exists_congr fun m => and_congr_right fun _ => eq_comm

omit [DecidableEq ι] in
/-- A thread runs one handler. -/
theorem Sends.unique {request request' : Request} {target target' : Uuid}
    {c c' : Code State Answer} (h : X.Sends i request target c)
    (h' : X.Sends i request' target' c') : request = request' ∧ target = target' ∧ c = c' := by
  obtain ⟨env, drawn, f, payload, hrun⟩ := h
  obtain ⟨env', drawn', f', payload', hrun'⟩ := h'
  cases hrun.symm.trans hrun'
  exact ⟨rfl, rfl, rfl⟩

omit [DecidableEq ι] in
theorem Sends.congr {request : Request} {target : Uuid} {c : Code State Answer}
    (h : Y.Sends i request target c) (hrun : Y.machine.running i = X.machine.running i) :
    X.Sends i request target c := by
  obtain ⟨env, drawn, f, payload, hi⟩ := h
  exact ⟨env, drawn, f, payload, hrun ▸ hi⟩

/-- **What a step does to the `send`s that run**: it begins one, makes the second lookup of one, or
does neither. -/
theorem Sends.of_step {request : Request} {target : Uuid} {c : Code State Answer}
    (hs : X.step a = some Y) (h : Y.Sends i request target c) :
    (Y.found i = X.machine.store ∧ (∃ j, a = .begin i j) ∧
      SendCode X.machine.store request.context target request.transactionId c) ∨
    (Y.found i = X.found i ∧ a = .proceed i ∧
      ∃ g k, X.Sends i request target (.lock g k) ∧ c = k X.machine.store) ∨
    (Y.found i = X.found i ∧ X.Sends i request target c) := by
  obtain ⟨m, hm, rfl⟩ := step_eq_some.mp hs
  cases a with
  | begin j w =>
    obtain ⟨-, rfl⟩ := Serial.step_begin.mp hm
    by_cases hi : i = j
    · subst hi
      obtain ⟨env, drawn, f, payload, hrun⟩ := h
      refine .inl ⟨Function.update_self .., ⟨w, rfl⟩, ?_⟩
      simp only [Function.update_self, Option.some.injEq, Prod.mk.injEq] at hrun
      obtain ⟨rfl, rfl⟩ := hrun
      exact sendCode_enter env drawn request X.machine.store
    · exact .inr (.inr ⟨Function.update_of_ne hi .., h.congr (Function.update_of_ne hi ..)⟩)
  | proceed j =>
    obtain ⟨w, g, k, hold, rfl⟩ := Serial.step_proceed.mp hm
    by_cases hi : i = j
    · subst hi
      obtain ⟨env, drawn, f, payload, hrun⟩ := h
      simp only [Function.update_self, Option.some.injEq, Prod.mk.injEq] at hrun
      obtain ⟨rfl, rfl⟩ := hrun
      exact .inr (.inl ⟨rfl, rfl, g, k, ⟨env, drawn, f, payload, hold⟩, rfl⟩)
    · exact .inr (.inr ⟨rfl, h.congr (Function.update_of_ne hi ..)⟩)
  | finish j =>
    obtain ⟨w, b, -, rfl⟩ := Serial.step_finish.mp hm
    by_cases hi : i = j
    · subst hi
      obtain ⟨env, drawn, f, payload, hrun⟩ := h
      simp at hrun
    · exact .inr (.inr ⟨rfl, h.congr (Function.update_of_ne hi ..)⟩)

theorem Inv.of_step (hI : X.Inv) (hs : X.step a = some Y) : Y.Inv := by
  intro i request target c h
  rcases h.of_step hs with ⟨hf, -, hc⟩ | ⟨hf, -, g, k, hold, rfl⟩ | ⟨hf, hold⟩
  · rw [hf]
    exact .inr hc
  · rcases hI i request target _ hold with ⟨b, hb⟩ | hc
    · cases hb
    · cases hc
      exact .inl ⟨_, rfl⟩
  · rw [hf]
    exact hI i request target c hold

/-- **A step leaves all answers truthful exactly when it is routed.** -/
theorem routed_iff (hI : X.Inv) (hX : X.AllTruthful) (a : Serial.Action ι Work) :
    X.Routed a ↔ ∀ Y, X.step a = some Y → Y.AllTruthful := by
  constructor
  · intro hr Y hs i request target b h ts rt
    rcases h.of_step hs with ⟨hf, -, hc⟩ | ⟨hf, rfl, g, k, hold, hb⟩ | ⟨hf, hold⟩
    · rw [hf]
      cases hc with
      | answered b truthful => exact truthful ts rt
    · rw [hf]
      rcases hI i request target _ hold with ⟨b', hb'⟩ | hc
      · cases hb'
      · cases hc with
        | looking row mem isTarget away byClient data =>
          cases hb
          exact (truthful_iff_hasKey mem isTarget away byClient _ data).mpr
            (hr request target _ _ hold row mem isTarget)
    · rw [hf]
      exact hX i request target b hold ts rt
  · intro h
    cases a with
    | begin | finish => trivial
    | proceed i =>
      intro request target g k hold row' hrow' hid'
      rcases hI i request target _ hold with ⟨b, hb⟩ | hc
      · cases hb
      · cases hc with
        | looking row mem isTarget away byClient data =>
          obtain rfl : row' = row := Table.eq_of_key hrow' mem (hid'.trans isTarget.symm)
          obtain ⟨env, drawn, f, payload, hrun⟩ := hold
          have hs := step_eq_some.mpr ⟨_, Serial.step_proceed.mpr ⟨_, _, _, hrun, rfl⟩, rfl⟩
          have htrue := h _ hs i request target _
            ⟨env, drawn, f, payload, Function.update_self ..⟩ 0 0
          exact (truthful_iff_hasKey mem isTarget away byClient _ data).mp htrue

/-- Before the threads begin anything. -/
def idle (st : State) : Watch ι where
  machine := { store := st }

omit [DecidableEq ι] in
theorem not_sends_idle {st : State} {request : Request} {target : Uuid} {c : Code State Answer} :
    ¬ (idle st : Watch ι).Sends i request target c := by
  rintro ⟨env, drawn, f, payload, hrun⟩
  cases hrun

end

/-- **The answers of `send` are truthful in every state that a run reaches exactly when every
`send` of the run is routed**: at its second lookup, the session that the target's row names is in
the map. -/
theorem sends_truthful_iff (st : State) (as : List (Serial.Action ι Work)) :
    (∀ bs Y, bs <+: as → Run.exec step (idle st) bs = some Y → Y.AllTruthful) ↔
      Run.Along step Routed (idle st) as := by
  exact Run.along_iff_reached (fun hI hs => hI.of_step hs) (fun a hI hX => routed_iff hI hX a) as
    (fun _ _ _ _ h => absurd h not_sends_idle) fun _ _ _ _ h => absurd h not_sends_idle

/-! ## A session that is removed between the lookups -/

def peer : Session := { id := ⟨List.replicate 16 23, rfl⟩ }

def sendDataParams : Object :=
  [("to_client_id", .string firstClient.toString), ("payload", .object [])]

/-- `secondClient` sends an empty object to `firstClient`. -/
def sendData : Object :=
  [("action", .string "send"), ("transaction_id", .string Uuid.nil.toString),
    ("params", .object sendDataParams)]

theorem decode_sendData : decode sendData .onClient secondClient =
    .ok (.accepted Uuid.nil (.send secondClient firstClient [])) := by
  have hto : sendDataParams.find? "to_client_id" = some (.string firstClient.toString) := rfl
  have hpayload : sendDataParams.find? "payload" = some (.object []) := rfl
  have hparams : sendData.find? "params" = some (.object sendDataParams) := rfl
  have hcheck : sendCheck (requested Uuid.nil secondClient sendData) = .ok none := by
    rw [sendCheck, paramsObject_of_object hparams, ok_bind_eq, member_eq_none]
    exact ⟨_, hpayload, rfl, idCheck_toString hto⟩
  rw [decode_of_envelope rfl ⟨rfl, isUuid_toString _⟩ (lexicalCast_toString _),
    decodeAction_send, decodeSend, hcheck, getParams_of_object hparams]
  simp only [decodeWith, ok_bind_eq, getParamAsId_toString hto, getParamAsObject_of hpayload]
  rfl

/-- The peer tells of `firstClient`. -/
def joining : Work :=
  .request World.pair.env 0 ⟨Uuid.nil, peer.id, .onSession, [], 0⟩ (.join firstClient)

def sending : Work :=
  .request World.pair.env 0 (requestOf World.pair sendData .onClient secondClient Uuid.nil)
    (.send secondClient firstClient [])

/-- One thread runs the handlers of the peer's session, the other one sends. -/
def removal : List (Serial.Action Bool Work) :=
  [.begin false (.part (.enter peer)), .finish false, .begin false joining, .finish false,
    .begin true sending, .begin false (.remove peer.id), .proceed true]

/-- The session of the target's row is removed between the two lookups of the handler that read the
message: the client is told "ok" and nothing was sent. -/
theorem send_not_truthful : decode sendData .onClient secondClient =
      .ok (.accepted Uuid.nil (.send secondClient firstClient [])) ∧
    ∃ Y : Watch Bool, Run.exec step (idle { id := Uuid.nil }) removal = some Y ∧
      ¬ Y.AllTruthful := by
  refine ⟨decode_sendData, _, rfl, fun h => ?_⟩
  exact not_truthful_nil (h true _ _ ([], some ("ok", [])) ⟨_, _, _, _, rfl⟩ 0 0)

end Watch

end Aewt
