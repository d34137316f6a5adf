import AewtState.Relay
import AewtState.Transparency
import AewtState.Lib.Serial

/-!
# Handlers on the threads of a node

The `io_context` of a node is run by several threads.  Handlers of one connection run one after
another, those of different connections at the same time: they meet at the locks of the three
stores, and each function of `aewt::state` takes the lock of one store and gives it back.

* `Work` — what runs on a strand, with the readings of its clock and of the random generator.
* `Work.code` — its critical sections in the order of the source.  What a handler sends it sends
  between the sections, except `sync`, whose loops over rows stand in one section with the
  sends.
* `Work.atomic` — what it does when it runs alone (`alone_eq_atomic`).
* `Decides` — the first section decides the reply and the only change.  The handlers of `register`
  and `session` and the destructor of a session have several sections that matter; in the serial
  run each of their sections stands by itself, as a `Part`.

Principal results: `handlers_serial` — the threads leave the stores and give the replies of a
serial run; `fanout_stable` — a session that is there all the time a handler runs is told once,
one that is away all the time is not told.
-/

set_option autoImplicit false

namespace Aewt

open Serial

/-- What a handler sent, and the message and data of its reply. -/
abbrev Answer := List Effect × Option (String × Object)

/-- One critical section of a handler that has several. -/
inductive Part where
  /-- `add_session`. -/
  | enter (session : Session)
  /-- `set_host`. -/
  | host (id : Uuid) (host : String)
  /-- The flag of the configuration. -/
  | flag
  /-- The setters of a registration. -/
  | mark (id : Uuid) (sessionsPort clientsPort : UInt16)
  /-- The two halves of `remove_state_of_session`. -/
  | dropClients (id : Uuid)
  | dropSubscriptions (id : Uuid)

def Part.apply : Part → State → State
  | .enter session, st => (st.addSession session).1
  | .host id name, st => st.setHost id name
  | .flag, st => st.setRegistered
  | .mark id sp cp, st => st.markAsRegistered id sp cp
  | .dropClients id, st => { st with clients := st.clients.keep (·.sessionId ≠ id) }
  | .dropSubscriptions id, st =>
    { st with subscriptions := st.subscriptions.keep (·.sessionId ≠ id) }

/-- `remove_state_of_session` locks twice, once for each store. -/
theorem removeStateOfSession_parts (st : State) (id : Uuid) :
    st.removeStateOfSession id =
      (Part.dropSubscriptions id).apply ((Part.dropClients id).apply st) := rfl

inductive Work where
  | request (env : Env) (drawn : Nat) (request : Request) (command : Command)
  /-- `client_listener::on_accept`. -/
  | accept (env : Env) (c : Uuid)
  /-- `client::on_read` with an error. -/
  | leave (env : Env) (c : Uuid)
  /-- `session::on_read` with an error. -/
  | remove (s : Uuid)
  /-- `session::~session`. -/
  | destroy (s : Uuid)
  | part (p : Part)

/-! ## The sections -/

section

variable (env : Env) (drawn : Nat) (request : Request)

/-- `get_sessions` and a text to each. -/
def codeSessions (sent : List Effect) (data : Object) (reply : Option (String × Object)) :
    Code State Answer :=
  .lock id fun st => .done (sent ++ toSessions st data, reply)

/-- The same for a client's request. -/
def codeRelay (sent : List Effect) (data : Object) (reply : Option (String × Object)) :
    Code State Answer :=
  match request.context with
  | .onClient => codeSessions sent data reply
  | .onSession => .done (sent, reply)

/-- `send_to_subscribed_sessions`: the receivers, and if there are any, the sessions. -/
def codeSubscribed (sent : List Effect) (data : Object) (channel : String)
    (reply : Option (String × Object)) : Code State Answer :=
  .lock id fun st =>
    if (receivers st channel).isEmpty then .done (sent, reply)
    else .lock id fun st' => .done
      (sent ++ (st'.getSessions.filter fun s => s.id ∈ receivers st channel).map
        fun s => .session s.id (serialize data), reply)

def codeSend (fromClientId toClientId : Uuid) (payload : Object) : Code State Answer :=
  .lock id fun st =>
    match st.getClient toClientId with
    | some client =>
      let data := sendObject (env.random drawn) fromClientId client.id payload
      if client.sessionId = st.id then
        .done ([.client client.id (serialize data)], some ("ok", []))
      else
        match request.context with
        | .onClient => .lock id fun st' =>
          .done (toSession st' data client.sessionId, some ("ok", []))
        | .onSession => .done ([], some ("no effect", []))
    | none => .done ([], some ("no effect", []))

/-- The last two loops of `sync`. -/
def codeRows (id : Uuid) (i : Nat) (sent : List Effect) : Code State Answer :=
  .lock (fun st => st) fun st => .lock (fun st => st) fun st' => .done
    (sent ++ (announced env.random id syncJoinObject i (localClients st) ++
      announced env.random id syncSubscribeObject (i + (localClients st).length)
        (localSubscriptions st')), some ("ok", []))

def codeRegister (sessionsPort clientsPort : UInt64) (registered : Bool) : Code State Answer :=
  .lock id fun st =>
    match st.getSession request.entityId with
    | some session =>
      .lock (·.markAsRegistered session.id sessionsPort.toUInt16 clientsPort.toUInt16) fun _ =>
        if registered then codeRows env session.id drawn []
        else .lock id fun st' =>
          let rows := st'.getSessions.filter (reportable st' session.id)
          codeRows env session.id (drawn + rows.length)
            (announced env.random session.id sessionObject drawn rows)
    | none => .done ([], some ("no effect", []))

end

def codeOf (env : Env) (drawn : Nat) (request : Request) : Command → Code State Answer
  | .ping => .done ([], some ("pong", []))
  | .ack => .done ([], none)
  | .noEffect => .done ([], some ("no effect", []))
  | .send f t payload => codeSend env drawn request f t payload
  | .register sp cp registered => codeRegister env drawn request sp cp registered
  | .session host sp cp =>
    .lock id fun st =>
      if isKnown st host sp cp then .done ([], some ("no effect", []))
      else .lock (fun st => (st.addSession (dialled (env.random drawn) sp cp)).1) fun _ =>
        .done ([.dial (env.random drawn) host sp], some ("ok", []))
  | .subscribe c ch =>
    .lock (fun st => (st.subscribe (owner request st) c ch).1) fun st =>
      codeRelay request [] (makeSubscribeRequestObject request c ch)
        (some (getStatus (st.subscribe (owner request st) c ch).2, []))
  | .unsubscribe c ch =>
    .lock (fun st => (st.unsubscribe (owner request st) c ch).1) fun st =>
      codeRelay request [] (makeUnsubscribeRequestObject request c ch)
        (some (getStatus (st.unsubscribe (owner request st) c ch).2, []))
  | .isSubscribed ch =>
    .lock id fun st =>
      .done ([], some (getStatus (st.isSubscribed request.entityId ch) "yes" "no", []))
  | .broadcast c payload =>
    .lock id fun st =>
      codeRelay request (toOthersClients st (makeBroadcastRequestObject request c payload) st.id c)
        (makeBroadcastRequestObject request c payload) (some (countReply (othersCount st)))
  | .publish c ch payload =>
    .lock id fun st =>
      let sent := toOthersClients st (makePublishRequestObject request c ch payload) st.id c
      match request.context with
      | .onClient => codeSubscribed sent (makePublishRequestObject request c ch payload) ch
        (some (countReply (othersCount st)))
      | .onSession => .done (sent, some (countReply (othersCount st)))
  | .join c =>
    .lock (fun st => (st.addClient ⟨c, request.entityId⟩).1) fun st =>
      .done ([], some (getStatus (st.addClient ⟨c, request.entityId⟩).2, []))
  | .leave c =>
    .lock (fun st => (st.removeClient c).1) fun st =>
      .done ([], some (getStatus (st.removeClient c).2, []))

def Work.code : Work → Code State Answer
  | .request env drawn r command => codeOf env drawn r command
  | .accept env c =>
    .lock (fun st => (st.addClient ⟨c, st.id⟩).1) fun _ =>
      codeSessions [] (requestObject (env.random 0) "join" (clientParams c)) none
  | .leave env c =>
    .lock (fun st => (st.removeClient c).1) fun _ =>
      codeSessions [] (requestObject (env.random 0) "leave" (clientParams c)) none
  | .remove s => .lock (fun st => (st.removeSession s).1) fun _ => .done ([], none)
  | .destroy s =>
    .lock (Part.dropClients s).apply fun _ =>
      .lock (Part.dropSubscriptions s).apply fun _ => .done ([], none)
  | .part p => .lock p.apply fun _ => .done ([], none)

/-! ## Without other threads -/

/-- What it does when nothing else runs. -/
def Work.atomic : Work → State → Outcome
  | .request env drawn r command, st =>
    outcome { env := env, state := st, drawn := drawn } r command
  | .accept env c, st =>
    let r := st.addClient ⟨c, st.id⟩
    ⟨r.1, toSessions r.1 (requestObject (env.random 0) "join" (clientParams c)), none⟩
  | .leave env c, st =>
    let r := st.removeClient c
    ⟨r.1, toSessions r.1 (requestObject (env.random 0) "leave" (clientParams c)), none⟩
  | .remove s, st => ⟨(st.removeSession s).1, [], none⟩
  | .destroy s, st => ⟨st.removeStateOfSession s, [], none⟩
  | .part p, st => ⟨p.apply st, [], none⟩

section

variable {st : State} {env : Env} {drawn : Nat} {request : Request}

theorem alone_codeRelay (sent : List Effect) (data : Object) (reply : Option (String × Object)) :
    (codeRelay request sent data reply).alone st =
      (st, sent ++ relayed request (toSessions st data), reply) := by
  unfold codeRelay relayed
  cases request.context with
  | onClient => rfl
  | onSession => simp [Code.alone]

theorem alone_codeSubscribed (sent : List Effect) (data : Object) (ch : String)
    (reply : Option (String × Object)) :
    (codeSubscribed sent data ch reply).alone st =
      (st, sent ++ toSubscribedSessions st data ch, reply) := by
  rw [codeSubscribed, Code.alone]
  by_cases h : receivers st ch = []
  · simp [h, Code.alone, toSubscribedSessions]
  · rw [if_neg (by simpa using h)]
    rfl

theorem alone_codeSend (f t : Uuid) (payload : Object) :
    (codeSend env drawn request f t payload).alone st =
      (st, (sendOutcome { env := env, state := st, drawn := drawn } request f t payload).effects,
        (sendOutcome { env := env, state := st, drawn := drawn } request f t payload).reply) := by
  simp only [codeSend, Code.alone, sendOutcome, id]
  cases st.getClient t with
  | none => rfl
  | some client =>
    simp only
    split
    · rfl
    · cases request.context <;> rfl

theorem alone_codeRegister (sp cp : UInt64) (registered : Bool) :
    (codeRegister env drawn request sp cp registered).alone st =
      ((registerOutcome { env := env, state := st, drawn := drawn } request sp cp registered).state,
        (registerOutcome { env := env, state := st, drawn := drawn } request sp cp
          registered).effects,
        (registerOutcome { env := env, state := st, drawn := drawn } request sp cp
          registered).reply) := by
  simp only [codeRegister, Code.alone, registerOutcome, id]
  cases st.getSession request.entityId with
  | none => rfl
  | some session =>
    cases registered <;> simp [Code.alone, codeRows, syncTexts, reported, announced]

/-- **The sections one after another are the handler.** -/
theorem alone_eq_atomic (j : Work) (st : State) :
    j.code.alone st = ((j.atomic st).state, (j.atomic st).effects, (j.atomic st).reply) := by
  cases j with
  | accept | leave | remove | destroy | part => rfl
  | request env drawn request command =>
    cases command with
    | ping | ack | noEffect | isSubscribed | join | leave => rfl
    | send f t payload =>
      simp only [Work.code, codeOf, Work.atomic, outcome, alone_codeSend, sendOutcome_state]
    | register sp cp registered => exact alone_codeRegister sp cp registered
    | session host sp cp =>
      simp only [Work.code, codeOf, Code.alone, Work.atomic, outcome, sessionOutcome, id]
      split <;> rfl
    | subscribe c ch | unsubscribe c ch =>
      simp only [Work.code, codeOf, Code.alone, alone_codeRelay, Work.atomic, outcome,
        List.nil_append]
    | broadcast c payload =>
      simp only [Work.code, codeOf, Code.alone, alone_codeRelay, Work.atomic, outcome, id]
    | publish c ch payload =>
      simp only [Work.code, codeOf, Code.alone, Work.atomic, outcome, relayed, id]
      cases request.context with
      | onClient => exact alone_codeSubscribed _ _ _ _
      | onSession => simp [Code.alone]

end

/-- **The kernel on an accepted message**, when nothing else runs. -/
theorem kernel_alone {w : World} {data : Object} {context : Context} {entityId t : Uuid}
    {command : Command} (hd : decode data context entityId = .ok (.accepted t command))
    (hr : ∀ host sp cp, command = .session host sp cp → w.env.resolves host sp = true) :
    ∃ runtime w', kernel data context entityId w = (.ok (acceptance t (w.env.clock w.ticks) runtime
        ((Work.request w.env w.drawn (requestOf w data context entityId t) command).code.alone
          w.state).2.2), w') ∧
      w'.effects = w.effects ++ ((Work.request w.env w.drawn
        (requestOf w data context entityId t) command).code.alone w.state).2.1 := by
  obtain ⟨w', runtime, hk, -, he, -⟩ := kernel_accepted w data context entityId hd hr
  have hout : outcome { env := w.env, state := w.state, drawn := w.drawn }
      (requestOf w data context entityId t) command =
      outcome w (requestOf w data context entityId t) command := by
    cases command <;> rfl
  rw [alone_eq_atomic, Work.atomic, hout]
  exact ⟨runtime, w', hk, he⟩

/-! ## Any number of threads -/

/-- The first section decides. -/
def Work.Decides : Work → Prop
  | .request _ _ _ (.register _ _ _) => False
  | .request _ _ _ (.session _ _ _) => False
  | .destroy _ => False
  | _ => True

section

variable {request : Request} {sent : List Effect} {data : Object}
  {reply : Option (String × Object)}

theorem settled_codeRelay : (codeRelay request sent data reply).Settled Prod.snd reply := by
  unfold codeRelay
  cases request.context with
  | onClient => exact fun st => ⟨rfl, rfl⟩
  | onSession => rfl

theorem settled_codeSubscribed {ch : String} :
    (codeSubscribed sent data ch reply).Settled Prod.snd reply := by
  refine fun st => ⟨rfl, ?_⟩
  dsimp only
  split
  · rfl
  · exact fun st' => ⟨rfl, rfl⟩

theorem commits_codeSend (env : Env) (drawn : Nat) (f t : Uuid) (payload : Object) :
    (codeSend env drawn request f t payload).CommitsTo Prod.snd fun st =>
      (st,
        (sendOutcome { env := env, state := st, drawn := drawn } request f t payload).reply) := by
  refine fun st => ⟨rfl, ?_⟩
  simp only [sendOutcome]
  cases st.getClient t with
  | none => rfl
  | some client =>
    simp only
    split
    · rfl
    · cases request.context with
      | onClient => exact fun st' => ⟨rfl, rfl⟩
      | onSession => rfl

/-- **The first section of these handlers decides the stores and the reply.** -/
theorem commits_of_decides {j : Work} (h : j.Decides) :
    j.code.CommitsTo Prod.snd fun st => ((j.atomic st).state, (j.atomic st).reply) := by
  cases j with
  | accept | leave => exact fun st => ⟨rfl, fun st' => ⟨rfl, rfl⟩⟩
  | remove | part => exact fun st => ⟨rfl, rfl⟩
  | destroy => cases h
  | request env drawn request command =>
    cases command with
    | register | session => cases h
    | ping | ack | noEffect => exact fun st => rfl
    | isSubscribed | join | leave => exact fun st => ⟨rfl, rfl⟩
    | send f t payload =>
      simp only [Work.code, codeOf, Work.atomic, outcome, sendOutcome_state]
      exact commits_codeSend env drawn f t payload
    | subscribe | unsubscribe | broadcast => exact fun st => ⟨rfl, settled_codeRelay⟩
    | publish c ch payload =>
      refine fun st => ⟨rfl, ?_⟩
      dsimp only
      cases request.context with
      | onClient => exact settled_codeSubscribed
      | onSession => rfl

end

/-- The handlers that decide in their first section. -/
def handlers : Handlers {j : Work // j.Decides} State Answer (Option (String × Object)) where
  code j := j.1.code
  reply := Prod.snd
  serial j st := ((j.1.atomic st).state, (j.1.atomic st).reply)
  commits j := commits_of_decides j.2

/-- **Whatever the threads do at the same time, it could have been done one after another.**
The stores are those of the serial run in which each handler stands where it began, and so are
the replies; a handler that is still sending has its reply already. -/
theorem handlers_serial {ι : Type} [DecidableEq ι] (st : State)
    {as : List (Serial.Action ι {j : Work // j.Decides})}
    {X : Machine ι {j : Work // j.Decides} State Answer}
    (hX : Run.exec (Serial.step handlers.code) { store := st } as = some X) :
    let R := (begun as).foldl (serve handlers.serial) { store := st }
    X.store = R.store ∧ ∀ i,
      (X.running i = none → R.replies i = handlers.replies X i) ∧
      ∀ j c, X.running i = some (j, c) → ∃ r, R.replies i = handlers.replies X i ++ [(j, r)] ∧
        c.Settled Prod.snd r := by
  have hagrees := Handlers.exec_agrees (Handlers.agrees_start st) hX
  refine ⟨hagrees.store, fun i => ⟨fun hrun => ?_, fun j c hrun => ?_⟩⟩
  · exact (Handlers.ahead_of_none hrun).mp (hagrees.ahead i)
  · exact (Handlers.ahead_of_some hrun).mp (hagrees.ahead i)

/-- Two strands: `l` begins while `b` is before its second section, and goes first. -/
def crossing {J : Type} (b l : J) : List (Serial.Action Bool J) :=
  [.begin true b, .begin false l, .proceed false, .proceed true, .finish true, .finish false]

def broadcastWork : {j : Work // j.Decides} :=
  ⟨.request World.pair.env 0 publication (.broadcast firstClient []), trivial⟩

def leaveWork : {j : Work // j.Decides} := ⟨.leave World.pair.env secondClient, trivial⟩

/-- A broadcast, during which the other client leaves. -/
theorem handlers_serial_leave :
    ∃ X : Machine Bool {j : Work // j.Decides} State Answer,
      Run.exec (Serial.step handlers.code) { store := State.trio }
        (crossing broadcastWork leaveWork) = some X ∧
      handlers.replies X true = [(broadcastWork, some (countReply 1))] := by
  obtain ⟨X, hX, hrun⟩ : ∃ X : Machine Bool {j : Work // j.Decides} State Answer,
      Run.exec (Serial.step handlers.code) { store := State.trio }
        (crossing broadcastWork leaveWork) = some X ∧ X.running true = none := ⟨_, rfl, rfl⟩
  refine ⟨X, hX, ?_⟩
  rw [← ((handlers_serial State.trio hX).2 true).1 hrun]
  rfl

/-! ## Who is told -/

/-- The text that is sent to the sessions. -/
def Work.notice : Work → Option Text
  | .request _ _ r command =>
    match r.context, command with
    | .onClient, .subscribe c ch => some (serialize (makeSubscribeRequestObject r c ch))
    | .onClient, .unsubscribe c ch => some (serialize (makeUnsubscribeRequestObject r c ch))
    | .onClient, .broadcast c payload =>
      some (serialize (makeBroadcastRequestObject r c payload))
    | .onClient, .publish c ch payload =>
      some (serialize (makePublishRequestObject r c ch payload))
    | _, _ => none
  | .accept env c => some (serialize (requestObject (env.random 0) "join" (clientParams c)))
  | .leave env c => some (serialize (requestObject (env.random 0) "leave" (clientParams c)))
  | _ => none

/-- The session is one that it is for, as the stores are. -/
def Work.Reaches (s : Uuid) (st : State) : Work → Prop
  | .request _ _ _ (.publish _ ch _) => st.sessions.hasKey s = true ∧ s ∈ receivers st ch
  | _ => st.sessions.hasKey s = true

section

variable {s : Uuid} {st : State} {data : Object} {request : Request} {sent : List Effect}
  {reply : Option (String × Object)} {j : Work} {text : Text}

theorem filter_session (h : st.sessions.hasKey s = true) :
    ∃ x, st.getSessions.filter (fun x => x.id = s) = [x] ∧ x.id = s := by
  obtain ⟨x, hx, hid⟩ := Table.hasKey_iff.mp h
  have hget : st.sessions.find? s = some x := Table.find?_eq_some.mpr ⟨hx, hid⟩
  exact ⟨x, by rw [State.getSessions, Table.filter_key, hget]; rfl, hid⟩

theorem filter_session_of_absent (h : st.sessions.hasKey s = false) :
    st.getSessions.filter (fun x => x.id = s) = [] := by
  rw [State.getSessions, Table.filter_key, Table.find?_eq_none.mpr (Table.hasKey_eq_false.mp h)]
  rfl

theorem textsTo_toSessions_of_hasKey (h : st.sessions.hasKey s = true) :
    textsTo s (toSessions st data) = [serialize data] := by
  obtain ⟨x, hx, -⟩ := filter_session h
  rw [toSessions, textsTo_sessions, hx]
  rfl

theorem textsTo_toSessions_of_absent (h : st.sessions.hasKey s = false) :
    textsTo s (toSessions st data) = [] := by
  rw [toSessions, textsTo_sessions, filter_session_of_absent h]
  rfl

/-- The session is told when it is there, whatever was sent before to clients. -/
theorem yields_codeRelay (hctx : request.context = .onClient) (hsent : textsTo s sent = []) :
    (codeRelay request sent data reply).Yields (fun st => st.sessions.hasKey s = true)
      fun b => textsTo s b.1 = [serialize data] := by
  unfold codeRelay
  rw [hctx]
  intro st hst
  change textsTo s (sent ++ toSessions st data) = _
  rw [textsTo_append, hsent, textsTo_toSessions_of_hasKey hst, List.nil_append]

theorem yields_codeRelay_of_absent (hsent : textsTo s sent = []) :
    (codeRelay request sent data reply).Yields (fun st => st.sessions.hasKey s = false)
      fun b => textsTo s b.1 = [] := by
  unfold codeRelay
  cases request.context with
  | onSession => exact hsent
  | onClient =>
    intro st hst
    change textsTo s (sent ++ toSessions st data) = _
    rw [textsTo_append, hsent, textsTo_toSessions_of_absent hst]
    rfl

/-- Between the two sections of a publication other subscriptions may come and go. -/
theorem yields_codeSubscribed {ch : String} (hsent : textsTo s sent = []) :
    (codeSubscribed sent data ch reply).Yields
      (fun st => st.sessions.hasKey s = true ∧ s ∈ receivers st ch)
      fun b => textsTo s b.1 = [serialize data] := by
  intro st hst
  have hne : (receivers st ch).isEmpty = false := by
    rw [List.isEmpty_eq_false_iff]
    exact List.ne_nil_of_mem hst.2
  dsimp only
  rw [hne]
  intro st' hst'
  obtain ⟨x, hx, hid⟩ := filter_session hst'.1
  change textsTo s (sent ++ _) = _
  rw [textsTo_append, hsent, textsTo_sessions, List.filter_comm, hx]
  simp [hid, hst.2]

theorem yields_codeSubscribed_of_absent {ch : String} (hsent : textsTo s sent = []) :
    (codeSubscribed sent data ch reply).Yields (fun st => st.sessions.hasKey s = false)
      fun b => textsTo s b.1 = [] := by
  intro st hst
  dsimp only
  split
  · exact hsent
  · intro st' hst'
    change textsTo s (sent ++ _) = _
    rw [textsTo_append, hsent, textsTo_sessions, List.filter_comm, filter_session_of_absent hst']
    rfl

theorem yields_reached (hj : j.notice = some text) :
    j.code.Yields (fun st => j.Reaches s st) fun b => textsTo s b.1 = [text] := by
  cases j with
  | remove | destroy | part => cases hj
  | accept | leave =>
    cases hj
    exact fun _ _ st hst => textsTo_toSessions_of_hasKey hst
  | request env drawn request command =>
    cases hctx : request.context with
    | onSession => simp [Work.notice, hctx] at hj
    | onClient =>
      simp only [Work.notice, hctx] at hj
      cases command with
      | subscribe | unsubscribe =>
        cases hj
        exact fun _ _ => yields_codeRelay hctx rfl
      | broadcast =>
        cases hj
        exact fun st _ => yields_codeRelay hctx (textsTo_toOthersClients ..)
      | publish =>
        cases hj
        intro st _
        dsimp only
        rw [hctx]
        exact yields_codeSubscribed (textsTo_toOthersClients ..)
      | _ => cases hj

theorem yields_absent (hj : j.notice = some text) :
    j.code.Yields (fun st => st.sessions.hasKey s = false) fun b => textsTo s b.1 = [] := by
  cases j with
  | remove | destroy | part => cases hj
  | accept | leave =>
    exact fun _ _ st hst => textsTo_toSessions_of_absent hst
  | request env drawn request command =>
    cases hctx : request.context with
    | onSession => simp [Work.notice, hctx] at hj
    | onClient =>
      simp only [Work.notice, hctx] at hj
      cases command with
      | subscribe | unsubscribe => exact fun _ _ => yields_codeRelay_of_absent rfl
      | broadcast => exact fun st _ => yields_codeRelay_of_absent (textsTo_toOthersClients ..)
      | publish =>
        intro st _
        dsimp only
        rw [hctx]
        exact yields_codeSubscribed_of_absent (textsTo_toOthersClients ..)
      | _ => cases hj

end

/-- **Whoever is there all the time is told once, whoever is away all the time is not told**,
whatever handlers run meanwhile on the other threads. -/
theorem fanout_stable {ι : Type} [DecidableEq ι] {X Y : Machine ι Work State Answer}
    {as : List (Serial.Action ι Work)} {i : ι} {j : Work} {text : Text} (s : Uuid)
    (hj : j.notice = some text) (hfree : X.running i = none)
    (hX : Run.exec (Serial.step Work.code) X as = some Y) :
    ∃ new, Y.results i = X.results i ++ new ∧
      (Run.Along (Serial.step Work.code) (fun Z _ => j.Reaches s Z.store) X as →
        ∀ b, (j, b) ∈ new → textsTo s b.1 = [text]) ∧
      (Run.Along (Serial.step Work.code) (fun Z _ => Z.store.sessions.hasKey s = false) X as →
        ∀ b, (j, b) ∈ new → textsTo s b.1 = []) := by
  obtain ⟨new, hnew⟩ := exec_results hX i
  refine ⟨new, hnew, fun hal b hb => ?_, fun hal b hb => ?_⟩
  · exact exec_yields (yields_reached hj) hfree hX hal hnew hb
  · exact exec_yields (yields_absent hj) hfree hX hal hnew hb

/-- The session is told of the broadcast, although a client leaves before it is sent. -/
theorem fanout_stable_leave : ∃ (Y : Machine Bool Work State Answer) (b : Answer),
    Run.exec (Serial.step Work.code) { store := State.trio }
      (crossing broadcastWork.1 leaveWork.1) = some Y ∧
    Y.results true = [(broadcastWork.1, b)] ∧ textsTo secondClient b.1 =
      [serialize (makeBroadcastRequestObject publication firstClient [])] := by
  obtain ⟨Y, b, hY, hb⟩ : ∃ (Y : Machine Bool Work State Answer) (b : Answer),
      Run.exec (Serial.step Work.code) { store := State.trio }
        (crossing broadcastWork.1 leaveWork.1) = some Y ∧
      Y.results true = [(broadcastWork.1, b)] := ⟨_, _, rfl, rfl⟩
  refine ⟨Y, b, hY, hb, ?_⟩
  obtain ⟨new, hnew, hthere, -⟩ := fanout_stable (i := true) (j := broadcastWork.1)
    secondClient rfl rfl hY
  have hnew : new = [(broadcastWork.1, b)] := by simpa [hb] using hnew.symm
  refine hthere ?_ b (by rw [hnew]; exact List.mem_singleton_self _)
  change Run.Along (Serial.step Work.code)
    (fun Z _ => Z.store.sessions.hasKey secondClient = true) _ _
  decide +kernel

end Aewt
