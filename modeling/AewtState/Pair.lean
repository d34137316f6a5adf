import AewtState.Events
import AewtState.Lib.Announce
import AewtState.Lib.Run
import Mathlib.Logic.Function.Basic

/-!
# Two nodes in small steps

The opener connects a session to the acceptor while clients come and go at both nodes and both
have sessions to other nodes, with the rows of these.  The nodes run several threads, so a handler
is cut where other handlers can run in between.

* `Change` — what a client does to the rows: the store update, and the text about it.
* `Stage` — how far a `register_handler` is: the session is marked, and then the three loops of
  `sync` run one after another.
* `Third` — a handler of a session to another node.  It tells of clients of other nodes only.
* `Pair.step` — a client's handler stores, `look`s at the sessions and `send`s; a session is
  entered in the map, opens (`shake`), is accepted and reads.

Texts of one session are read in the order in which they were posted; `session::send` drops a
text while the session is not open.

Principal results: `clientListenerOnAccept_change`, `leave_change`, `outcome_change` and
`onRead_register` — run without interruption, the pieces are the handlers of the source.
-/

set_option autoImplicit false

namespace Aewt

/-! ## What clients do -/

/-- What a client does to its node's rows. -/
inductive Change where
  | connect
  | leave
  | subscribe (channel : String)
  | unsubscribe (channel : String)

namespace Change

/-- The store function that the client's handler calls. -/
def apply (st : State) (c : Uuid) : Change → State
  | connect => (st.addClient ⟨c, st.id⟩).1
  | leave => (st.removeClient c).1
  | subscribe channel => (st.subscribe st.id c channel).1
  | unsubscribe channel => (st.unsubscribe st.id c channel).1

/-- The message that it then sends to every session. -/
def object (t c : Uuid) : Change → Object
  | connect => requestObject t "join" (clientParams c)
  | leave => requestObject t "leave" (clientParams c)
  | subscribe channel => requestObject t "subscribe" (subscriptionParams c channel)
  | unsubscribe channel => requestObject t "unsubscribe" (subscriptionParams c channel)

def key (c : Uuid) : Change → Key
  | connect => .client c
  | leave => .client c
  | subscribe channel => .subscription c channel
  | unsubscribe channel => .subscription c channel

def value : Change → Bool
  | connect => true
  | leave => false
  | subscribe _ => true
  | unsubscribe _ => false

@[simp] theorem key_about (c : Uuid) (u : Change) : (u.key c).about = c := by
  cases u <;> rfl

@[simp] theorem apply_id (st : State) (c : Uuid) (u : Change) : (u.apply st c).id = st.id := by
  cases u <;> simp [apply]

@[simp] theorem apply_sessions (st : State) (c : Uuid) (u : Change) :
    (u.apply st c).sessions = st.sessions := by
  cases u <;> simp [apply]

/-- The text says what happened to the store. -/
theorem updateOf_object (s t c : Uuid) (u : Change) :
    updateOf s (serialize (u.object t c)) = some (u.key c, u.value) := by
  cases u with
  | connect => exact updateOf_accepted (decode_join (built_requestObject _ _ _))
  | leave => exact updateOf_accepted (decode_leave (built_requestObject _ _ _))
  | subscribe ch => exact updateOf_accepted (decode_subscribe (built_requestObject _ _ _))
  | unsubscribe ch => exact updateOf_accepted (decode_unsubscribe (built_requestObject _ _ _))

/-- The store update sets one local row, when the client's row is the node's own. -/
theorem holds_apply {st : State} {c : Uuid} {u : Change}
    (hown : ∀ row ∈ st.clients, row.id = c → row.sessionId = st.id) (s : Uuid) (k : Key) :
    (u.apply st c).Holds s k ↔
      if s = st.id then Replica.update (some (u.key c, u.value)) k (st.Holds s k)
      else st.Holds s k := by
  split
  · rename_i hs
    subst hs
    cases u with
    | connect => exact holds_addClient hown
    | leave => exact holds_removeClient
    | subscribe ch => exact holds_subscribe
    | unsubscribe ch => exact holds_unsubscribe
  · rename_i hs
    cases u with
    | connect => exact (keeps_addClient c).holds hs k
    | leave => exact (keeps_removeClient hown).holds hs k
    | subscribe ch => exact (keeps_subscribe c ch).holds hs k
    | unsubscribe ch => exact (keeps_unsubscribe c ch).holds hs k

end Change

/-! ## The handlers are made of these pieces -/

section

variable {env : Env} {st : State} {c : Uuid}

theorem clientListenerOnAccept_change :
    ∃ w, clientListenerOnAccept c (.start env st) = (.ok (), w) ∧
      w.state = Change.connect.apply st c ∧
      w.effects = toSessions w.state (Change.connect.object (env.random 0) c) :=
  ⟨_, clientListenerOnAccept_eq c env st, rfl, rfl⟩

theorem leave_change :
    ∃ w, Client.leave c (.start env st) = (.ok (), w) ∧
      w.state = Change.leave.apply st c ∧
      w.effects = toSessions w.state (Change.leave.object (env.random 0) c) :=
  ⟨_, Client.leave_eq c env st, rfl, rfl⟩

/-- The change that a client's command makes. -/
def Command.change : Command → Option Change
  | .subscribe _ channel => some (.subscribe channel)
  | .unsubscribe _ channel => some (.unsubscribe channel)
  | _ => none

theorem outcome_change {w : World} {request : Request} {command : Command} {u : Change}
    (hctx : request.context = .onClient) (hby : command.ByClient c)
    (hu : command.change = some u) :
    (outcome w request command).state = u.apply w.state c ∧
    (outcome w request command).effects =
      toSessions (u.apply w.state c) (u.object request.transactionId c) := by
  cases hby <;> cases hu <;>
    exact ⟨by simp [outcome, owner, hctx, Change.apply],
      by simp [outcome, owner, relayed, hctx, Change.apply, Change.object,
        makeSubscribeRequestObject, makeUnsubscribeRequestObject]⟩

end

/-- What `register_handler` and `session::on_read` do after `sync`. -/
def answerRegister (request : Request) : M Unit := do
  next request "ok" []
  markAsProcessed
  let response ← getResponse
  if response.isAck then pure () else Session.send request.entityId (serialize response.data)

theorem onRead_register {s t : Uuid} {text : Text} {sp cp : UInt64} {registered : Bool}
    {w : World} {row : Session}
    (hd : decode text .onSession s = .ok (.accepted t (.register sp cp registered)))
    (hs : w.state.getSession s = some row) :
    Session.onRead s (.object text) w = (do
      let _ ← now
      let timestamp ← now
      modifyResponse fun _ => {}
      let _ ← update fun st => (st.markAsRegistered s sp.toUInt16 cp.toUInt16, true)
      syncSessions s registered
      syncClients s
      syncSubscriptions s
      answerRegister ⟨t, s, .onSession, text, timestamp⟩) w := by
  have hid : row.id = s := (Table.find?_eq_some.mp hs).2
  subst hid
  rw [Session.onRead_object]
  simp only [kernel, handle_eq, hd, M.lift_ok_bind, runDecoded, perform, performRegister,
    bind_assoc, now_bind, modifyResponse_bind]
  rw [getState_bind]
  split
  · rename_i row' hrow
    cases hs.symm.trans hrow
    simp only [sync, answerRegister, bind_assoc]
    rfl
  · rename_i hrow
    cases hs.symm.trans hrow

/-! ## The two nodes -/

inductive Side where
  | opener
  | acceptor
  deriving DecidableEq

namespace Side

def other : Side → Side
  | opener => acceptor
  | acceptor => opener

def context : Side → SessionContext
  | opener => .remote
  | acceptor => .accepting

@[simp] theorem other_other (a : Side) : a.other.other = a := by cases a <;> rfl

@[simp] theorem other_ne (a : Side) : a.other ≠ a := by cases a <;> simp [other]

@[simp] theorem ne_other (a : Side) : a ≠ a.other := a.other_ne.symm

end Side

/-- How far a client's handler is after its store update: before it reads the sessions, or
after it, when `told` says whether the session was among them. -/
inductive Fan where
  | look (u : Change) (t : Uuid)
  | send (u : Change) (t : Uuid) (told : Bool)

/-- What a session's `register_handler` does next. -/
inductive Stage where
  | idle
  | sessions (request : Request) (registered : Bool)
  | clients (request : Request)
  | subscriptions (request : Request)
  | answer (request : Request)

/-- What happens on a session to a third node.  The handlers send on that session and to clients
only, so they run at once. -/
inductive Third where
  /-- `add_session`. -/
  | enter (session : Session)
  /-- `session::on_accept`. -/
  | accept (s : Uuid) (context : SessionContext) (host : String)
  /-- `session::on_read`. -/
  | read (s : Uuid) (frame : Frame)
  /-- `session::on_accept` or `session::on_read` with an error. -/
  | remove (s : Uuid)
  /-- `session::~session`. -/
  | destroy (s : Uuid)

namespace Third

def id : Third → Uuid
  | enter session => session.id
  | accept s _ _ => s
  | read s _ => s
  | remove s => s
  | destroy s => s

def code : Third → M Unit
  | enter session => do let _ ← update (·.addSession session)
  | accept s context host => Session.onAccept s context host
  | read s frame => Session.onRead s frame
  | remove s => Session.leave s
  | destroy s => do let _ ← update fun st => (st.removeStateOfSession s, true)

/-- A node tells of its own clients. -/
def Tells (away : Uuid → Bool) : Third → Prop
  | read s (.object text) => (updateOf s text).all (fun u => away u.1.about) = true
  | _ => True

instance (away : Uuid → Bool) : ∀ h, Decidable (Tells away h)
  | read _ (.object _) => inferInstanceAs (Decidable (_ = true))
  | read _ .other | enter _ | accept _ _ _ | remove _ | destroy _ =>
    inferInstanceAs (Decidable True)

end Third

/-- `home`, `away` and `synced` are bookkeeping: the node a client connected to, the clients of
third nodes, and the stores whose snapshot has been sent. -/
structure Pair where
  /-- The session object of each side. -/
  session : Side → Session
  node : Side → State
  opened : Side → Bool
  reading : Side → Bool
  stage : Side → Stage
  /-- The texts on their way to each side. -/
  wire : Side → List Text
  fan : Uuid → Option Fan
  home : Uuid → Option Side
  away : Uuid → Bool
  synced : Side → Store → Bool

namespace Pair

inductive Action where
  | connect (a : Side) (c t : Uuid)
  | request (c : Uuid) (data : Object)
  | leave (c t : Uuid)
  | look (c : Uuid)
  | send (c : Uuid)
  | enter (a : Side)
  | shake (a : Side)
  | accept (a : Side) (host : String) (env : Env)
  | deliver (a : Side) (env : Env)
  | advance (a : Side) (env : Env)
  | third (a : Side) (h : Third) (env : Env)

variable (X : Pair)

/-- The id of a side's session. -/
def sid (a : Side) : Uuid := (X.session a).id

/-- The session is in the side's map. -/
def knows (a : Side) : Bool := (X.node a).sessions.hasKey (X.sid a)

def setNode (a : Side) (st : State) : Pair :=
  { X with node := Function.update X.node a st }

def setWire (a : Side) (ts : List Text) : Pair :=
  { X with wire := Function.update X.wire a ts }

def setFan (c : Uuid) (f : Option Fan) : Pair :=
  { X with fan := Function.update X.fan c f }

/-- `session::send` at one side: texts are dropped while the session is not open. -/
def post (a : Side) (ts : List Text) : Pair :=
  if X.opened a then X.setWire a.other (X.wire a.other ++ ts) else X

/-- Run a piece of a handler at one side. -/
def run (a : Side) (env : Env) (x : M Unit) : Option Pair :=
  match x (.start env (X.node a)) with
  | (.ok (), w) => some ((X.setNode a w.state).post a (textsTo (X.sid a) w.effects))
  | (.error _, _) => none

/-- A client's handler updates the store. -/
def start (a : Side) (c : Uuid) (u : Change) (t : Uuid) : Pair :=
  (X.setNode a (u.apply (X.node a) c)).setFan c (some (.look u t))

/-- The client is connected to this side and its last handler has ended. -/
def Ready (a : Side) (c : Uuid) : Prop :=
  X.home c = some a ∧ (X.node a).Holds (X.node a).id (.client c) ∧ (X.fan c).isNone = true

instance (a : Side) (c : Uuid) : Decidable (X.Ready a c) :=
  inferInstanceAs (Decidable (_ ∧ _ ∈ (X.node a).clients.rows ∧ _))

/-- The acceptor's session runs once it is in the map, and the opener's handshake ends after
the acceptor's. -/
def mayOpen : Side → Bool
  | .acceptor => X.knows .acceptor
  | .opener => X.opened .acceptor

def setStage (a : Side) (stage : Stage) : Pair :=
  { X with stage := Function.update X.stage a stage }

/-- `session::on_read` up to the first piece of `register_handler`. -/
def read (a : Side) (env : Env) (text : Text) : Option Pair :=
  match decode text .onSession (X.sid a) with
  | .ok (.accepted t (.register sp cp registered)) =>
    if X.knows a then
      some (setStage (X.setNode a
          ((X.node a).markAsRegistered (X.sid a) sp.toUInt16 cp.toUInt16)) a
        (.sessions ⟨t, X.sid a, .onSession, text, env.clock 0⟩ registered))
    else X.run a env (Session.onRead (X.sid a) (.object text))
  | _ => X.run a env (Session.onRead (X.sid a) (.object text))

/-- The snapshot of a store has been sent. -/
def markSynced (a : Side) (store : Store) : Pair :=
  { X with synced := Function.update X.synced a (Function.update (X.synced a) store true) }

def sideOf (c : Uuid) (f : Side → Option Pair) : Option Pair :=
  match X.home c with
  | some a => f a
  | none => none

def step (X : Pair) : Action → Option Pair
  | .connect a c t =>
    if X.home c = none ∧ X.away c = false then
      some (start { X with home := Function.update X.home c (some a) } a c .connect t)
    else none
  | .request c data => X.sideOf c fun a =>
    if X.Ready a c then
      match decode data .onClient c with
      | .ok (.accepted t command) => command.change.map fun u => X.start a c u t
      | _ => none
    else none
  | .leave c t => X.sideOf c fun a =>
    if X.Ready a c then some (X.start a c .leave t) else none
  | .look c => X.sideOf c fun a =>
    match X.fan c with
    | some (.look u t) => some (X.setFan c (some (.send u t (X.knows a))))
    | _ => none
  | .send c => X.sideOf c fun a =>
    match X.fan c with
    | some (.send u t told) =>
      some ((X.setFan c none).post a (if told then [serialize (u.object t c)] else []))
    | _ => none
  | .enter a =>
    if X.knows a then none
    else some (X.setNode a ((X.node a).addSession (X.session a)).1)
  | .shake a =>
    if X.opened a = false ∧ X.mayOpen a then
      some { X with opened := Function.update X.opened a true }
    else none
  | .accept a host env =>
    if X.opened a ∧ X.reading a = false then
      (X.run a env (Session.onAccept (X.sid a) a.context host)).map fun Y =>
        { Y with reading := Function.update X.reading a true }
    else none
  | .deliver a env =>
    match X.reading a, X.stage a, X.wire a with
    | true, .idle, text :: texts =>
      read (X.setWire a texts) a env text
    | _, _, _ => none
  | .advance a env =>
    match X.stage a with
    | .idle => none
    | .sessions request registered =>
      (X.run a env (syncSessions (X.sid a) registered)).map (·.setStage a (.clients request))
    | .clients request => (X.run a env (syncClients (X.sid a))).map fun Y =>
      (Y.setStage a (.subscriptions request)).markSynced a .clients
    | .subscriptions request => (X.run a env (syncSubscriptions (X.sid a))).map fun Y =>
      (Y.setStage a (.answer request)).markSynced a .subscriptions
    | .answer request => (X.run a env (answerRegister request)).map (·.setStage a .idle)
  | .third a h env =>
    if h.id ≠ X.sid a ∧ h.id ≠ (X.node a).id ∧ h.Tells X.away then X.run a env h.code else none

end Pair

end Aewt
