import AewtState.Dialling
import AewtState.Ownership
import AewtState.Threads

/-!
# The life of a connection

The listeners of a node accept connections and start a handshake on each.  `on_accept` starts
the first read, `on_read` handles a frame and starts the next; on an error neither starts
anything, and the connection leaves its store.

* `Line` — a connection: of a client, or of a session.
* `Op` — what a connection waits for.  Its writing side has an operation of its own, which may be
  outstanding at the same time (`Outbox`, `Sender`).
* `Line.onAccepted`, `Line.onHandshake`, `Line.onRead` — the handlers, with the operations that
  they start on their connection.
* `Lines` — a node and the operations that were started and have not completed.  Nothing in it
  keeps two reads of one connection apart.
* `Lines.step` — an operation completes and its handler runs.  A session that a handler dials
  has its handshake started; a handler that raises ends the process, so it has no step.
* `news` — what the sessions were sent about the coming and going of a client.

Principal results: `onAccepted_spec`, `goesOn_onHandshake`, `goesOn_onRead` and `ends_leave` — what
the handlers leave in the stores and start on their connection.
-/

set_option autoImplicit false

namespace Aewt

/-- An asynchronous operation of a connection other than `async_write`. -/
inductive Op where
  | handshake
  | read
  deriving DecidableEq

structure Line where
  context : Context
  id : Uuid
  deriving DecidableEq

/-! ## Handlers -/

namespace Line

/-- `client_listener::on_accept` and `session_listener::on_accept`, with `run`. -/
def onAccepted (l : Line) : M (List Op) :=
  match l.context with
  | .onClient => clientListenerOnAccept l.id >>= fun _ => pure [.handshake]
  | .onSession => update (·.addSession { id := l.id }) >>= fun _ => pure [.handshake]

/-- What a connection does on an error. -/
def leave (l : Line) : M (List Op) :=
  match l.context with
  | .onClient => Client.leave l.id >>= fun _ => pure []
  | .onSession => Session.leave l.id >>= fun _ => pure []

/-- `client::on_accept` and `session::on_accept`. -/
def onHandshake (l : Line) (context : SessionContext) (host : String) (runAt : Int64) :
    Bool → M (List Op)
  | true => l.leave
  | false =>
    match l.context with
    | .onClient => Client.onAccept l.id runAt >>= fun _ => pure [.read]
    | .onSession => Session.onAccept l.id context host >>= fun _ => pure [.read]

/-- `client::on_read` and `session::on_read`; no frame is an error. -/
def onRead (l : Line) : Option Frame → M (List Op)
  | none => l.leave
  | some frame =>
    match l.context with
    | .onClient => Client.onRead l.id frame >>= fun _ => pure [.read]
    | .onSession => Session.onRead l.id frame >>= fun _ => pure [.read]

end Line

/-- `accepted`, `dialled` and `sent` are bookkeeping: where the connections came from, and what the
handlers of each sent. -/
structure Lines where
  state : State
  /-- The operations of a connection that were started and have not completed. -/
  ops : Line → List Op := fun _ => []
  accepted : List Line := []
  dialled : List Uuid := []
  sent : List (Line × List Effect) := []

namespace Lines

inductive Action where
  | accept (l : Line) (env : Env)
  | handshake (l : Line) (context : SessionContext) (host : String) (runAt : Int64) (ec : Bool)
    (env : Env)
  | read (l : Line) (result : Option Frame) (env : Env)
  /-- `session::~session`. -/
  | destroy (s : Uuid)

/-- The ids that are in use. -/
def given (X : Lines) : List Uuid := X.state.id :: (X.dialled ++ X.accepted.map Line.id)

/-- The operation completes. -/
def complete (X : Lines) (l : Line) (op : Op) : Lines :=
  { X with ops := Function.update X.ops l ((X.ops l).erase op) }

/-- The operations after a handler started some and dialled some sessions. -/
def started (X : Lines) (l : Line) (ops : List Op) (ids : List Uuid) (m : Line) : List Op :=
  X.ops m ++ (if m = l then ops else []) ++
    if m.context = .onSession ∧ m.id ∈ ids then [.handshake] else []

/-- Run a handler.  The sessions that it makes get fresh ids. -/
def handle (X : Lines) (l : Line) (env : Env) (x : M (List Op)) : Option Lines :=
  match x (.start env X.state) with
  | (.ok ops, w) =>
    if ∀ id ∈ dials w.effects, id ∉ X.given then
      some { X with
        state := w.state
        ops := X.started l ops (dials w.effects)
        dialled := dials w.effects ++ X.dialled
        sent := X.sent ++ [(l, w.effects)] }
    else none
  | (.error _, _) => none

def step (X : Lines) : Action → Option Lines
  | .accept l env =>
    if l.id ∈ X.given then none
    else { X with accepted := l :: X.accepted }.handle l env l.onAccepted
  | .handshake l context host runAt ec env =>
    if .handshake ∈ X.ops l then
      (X.complete l .handshake).handle l env (l.onHandshake context host runAt ec)
    else none
  | .read l result env =>
    if .read ∈ X.ops l then (X.complete l .read).handle l env (l.onRead result) else none
  | .destroy s =>
    if s ≠ X.state.id ∧ X.ops ⟨.onSession, s⟩ = [] ∧ X.state.sessions.hasKey s = false then
      some { X with state := X.state.removeStateOfSession s }
    else none

/-- A node on which nothing happened yet. -/
def initial (id : Uuid) (config : Config) : Lines := { state := { id := id, config := config } }

end Lines

/-! ## What the sessions are told -/

/-- The text says that client `c` came (true) or went (false). -/
def announces (s c : Uuid) (text : Text) : Option Bool :=
  match updateOf s text with
  | some (.client d, b) => if d = c then some b else none
  | _ => none

/-- What the connection of client `c` told the session about it. -/
def news (s c : Uuid) (sent : List (Line × List Effect)) : List Bool :=
  (sent.flatMap fun e => if e.1 = ⟨.onClient, c⟩ then textsTo s e.2 else []).filterMap
    (announces s c)

section

variable {s c : Uuid} {l : Line} {es : List Effect}

@[simp] theorem news_nil : news s c [] = [] := rfl

theorem news_of_ne (h : l ≠ ⟨.onClient, c⟩) : news s c [(l, es)] = [] := by simp [news, h]

theorem news_self :
    news s c [(⟨.onClient, c⟩, es)] = (textsTo s es).filterMap (announces s c) := by simp [news]

/-- One text that says so, to a session in the map. -/
theorem news_toSessions {st : State} {data : Object} {b : Bool}
    (hs : st.sessions.hasKey s = true)
    (hu : updateOf s (serialize data) = some (.client c, b)) :
    news s c [(⟨.onClient, c⟩, toSessions st data)] = [b] := by
  rw [news_self, textsTo_toSessions_of_hasKey hs]
  simp [announces, hu]

theorem announces_forwarded {text : Text} (h : Forwarded text) : announces s c text = none := by
  obtain ⟨m, hm, rfl⟩ := h
  have hu : updateOf s m.text = m.command.update := updateOf_accepted (decode_notice m s)
  unfold announces
  rw [hu]
  cases m with
  | broadcast | publish | subscribe | unsubscribe | send => rfl
  | join | leave | register | syncSession | syncJoin | syncSubscribe => cases hm

end

/-! ## What a handler does to the rows -/

namespace Line

variable {l : Line} {st : State} {env : Env} {w : World} {ops : List Op}

/-- The handler started a read. -/
structure GoesOn (l : Line) (st : State) (w : World) : Prop where
  id : w.state.id = st.id
  clients : ∀ row ∈ w.state.clients, row ∈ st.clients ∨ row.sessionId = l.id
  sessions : ∀ s, s ∉ dials w.effects → w.state.sessions.hasKey s = st.sessions.hasKey s

/-- The handler started nothing, and the rows of its connection are gone. -/
structure Ends (l : Line) (st : State) (w : World) : Prop where
  id : w.state.id = st.id
  clients : ∀ row : Client, row ∈ w.state.clients ↔
    row ∈ st.clients ∧ (l.context = .onClient → row.id ≠ l.id)
  sessions : ∀ s, w.state.sessions.hasKey s = true ↔
    st.sessions.hasKey s = true ∧ (l.context = .onSession → s ≠ l.id)
  dials : dials w.effects = []

@[simp] theorem dials_toSessions (st : State) (data : Object) :
    Aewt.dials (toSessions st data) = [] := by
  simp [Aewt.dials, toSessions]

theorem bind_pure_eq {α : Type} {x : M Unit} {a b : α} {v w : World} :
    (x >>= fun _ => pure a) v = (.ok b, w) ↔ x v = (.ok (), w) ∧ a = b := by
  constructor
  · intro h
    rcases hx : x v with ⟨e | u, v'⟩
    · rw [M.bind_error hx] at h
      cases h
    · rw [M.bind_ok hx] at h
      cases h
      exact ⟨rfl, rfl⟩
  · rintro ⟨hx, rfl⟩
    rw [M.bind_ok hx]
    rfl

/-- The connection enters its store. -/
def stored (l : Line) (st : State) : State :=
  match l.context with
  | .onClient => (st.addClient ⟨l.id, st.id⟩).1
  | .onSession => (st.addSession { id := l.id }).1

theorem onAccepted_spec (h : l.onAccepted (.start env st) = (.ok ops, w)) :
    ops = [.handshake] ∧ w.state = l.stored st ∧ Aewt.dials w.effects = [] ∧
      ∀ s c, st.sessions.hasKey s = true →
        news s c [(l, w.effects)] = if l = ⟨.onClient, c⟩ then [true] else [] := by
  obtain ⟨context, c⟩ := l
  cases context with
  | onClient =>
    obtain ⟨hw, hops⟩ := bind_pure_eq.mp h
    rw [clientListenerOnAccept_eq] at hw
    cases hw
    refine ⟨hops.symm, rfl, by simp [World.start], fun s d hs => ?_⟩
    split
    · rename_i heq
      cases heq
      exact news_toSessions hs (updateOf_accepted (decode_join (built_requestObject _ _ _)))
    · exact news_of_ne ‹_›
  | onSession =>
    cases h
    exact ⟨rfl, rfl, rfl, fun s d _ => by simp [news]⟩

theorem ends_leave (h : l.leave (.start env st) = (.ok ops, w)) : ops = [] ∧ l.Ends st w ∧
    ∀ s c, st.sessions.hasKey s = true →
      news s c [(l, w.effects)] = if l = ⟨.onClient, c⟩ then [false] else [] := by
  obtain ⟨context, c⟩ := l
  cases context with
  | onClient =>
    obtain ⟨hw, rfl⟩ := bind_pure_eq.mp h
    rw [Client.leave_eq] at hw
    cases hw
    refine ⟨rfl, ⟨rfl, fun row => ?_, fun s => ?_, by simp [World.start]⟩, fun s d hs => ?_⟩
    · simp [State.mem_removeClient, World.start]
    · simp [World.start]
    · split
      · rename_i heq
        cases heq
        exact news_toSessions hs (updateOf_accepted (decode_leave (built_requestObject _ _ _)))
      · exact news_of_ne ‹_›
  | onSession =>
    obtain ⟨hw, rfl⟩ := bind_pure_eq.mp h
    cases hw
    refine ⟨rfl, ⟨rfl, fun row => ?_, fun s => ?_, rfl⟩, fun s d _ => by simp [news]⟩
    · change row ∈ st.clients ↔ _
      simp
    change (st.removeSession c).1.sessions.hasKey s = true ↔ _
    by_cases hs : s = c
    · subst hs
      have hgone : (st.removeSession s).1.sessions.hasKey s = false :=
        Table.hasKey_keep_self st.sessions s
      simp [hgone]
    · have hkept : (st.removeSession c).1.sessions.hasKey s = st.sessions.hasKey s :=
        Table.hasKey_keep_of_ne hs
      simp [hkept, hs]

/-- A handshake that succeeded. -/
theorem goesOn_onHandshake {context : SessionContext} {host : String} {runAt : Int64}
    (h : l.onHandshake context host runAt false (.start env st) = (.ok ops, w)) :
    ops = [.read] ∧ l.GoesOn st w ∧ w.state.clients = st.clients ∧
      ∀ s c, news s c [(l, w.effects)] = [] := by
  obtain ⟨lctx, c⟩ := l
  cases lctx with
  | onClient =>
    obtain ⟨hw, rfl⟩ := bind_pure_eq.mp h
    cases hw
    refine ⟨rfl, ⟨rfl, fun row hrow => .inl hrow, fun s _ => rfl⟩, rfl, fun s d => ?_⟩
    simp [news, World.start]
  | onSession =>
    obtain ⟨hw, rfl⟩ := bind_pure_eq.mp h
    have hsame : w.state.id = st.id ∧ w.state.clients = st.clients := by
      cases context <;> cases hw <;> exact ⟨rfl, rfl⟩
    exact ⟨rfl, ⟨hsame.1, fun row hrow => .inl (hsame.2 ▸ hrow), fun s _ => hasKey_onAccept hw⟩,
      hsame.2, fun s d => news_of_ne (by simp)⟩

/-- A frame that was read. -/
theorem goesOn_onRead {frame : Frame}
    (h : l.onRead (some frame) (.start env st) = (.ok ops, w)) :
    ops = [.read] ∧ l.GoesOn st w ∧ ∀ s c, news s c [(l, w.effects)] = [] := by
  obtain ⟨context, c⟩ := l
  cases context with
  | onClient =>
    obtain ⟨hw, rfl⟩ := bind_pure_eq.mp h
    refine ⟨rfl, ⟨(addsUnder_clientRead hw).id, fun row hrow => .inl ?_, fun s _ => ?_⟩,
      fun s d => ?_⟩
    · rcases Client.onRead_state hw with hs | ⟨command, request, hc, hcc, -, hs⟩
      · rw [hs] at hrow
        exact hrow
      · rw [hs, (outcome_client hcc hc).acts.clients] at hrow
        exact hrow
    · rw [clientRead_sessions hw]
      rfl
    · by_cases hd : c = d
      · subst hd
        obtain ⟨es, hes, hforward, -⟩ := effects_of_request hw
        rw [news_self, List.filterMap_eq_nil_iff]
        intro text ht
        rw [hes, World.start, List.nil_append, mem_textsTo] at ht
        exact announces_forwarded (hforward s text ht)
      · exact news_of_ne (by simpa using hd)
  | onSession =>
    obtain ⟨hw, rfl⟩ := bind_pure_eq.mp h
    have hadds := addsUnder_onRead hw
    exact ⟨rfl, ⟨hadds.id, hadds.clients, fun s hs => hasKey_onRead hw hs⟩,
      fun s d => news_of_ne (by simp)⟩

/-- A message that evicts nobody leaves the rows of other owners. -/
theorem keeps_onRead {frame : Frame} (hl : l.id ≠ st.id)
    (hcalm : l.context = .onSession → ∀ data, frame = .object data → ¬ Evicts data l.id st)
    (h : l.onRead (some frame) (.start env st) = (.ok ops, w)) {row : Client}
    (hrow : row ∈ st.clients) (hown : row.sessionId = st.id) : row ∈ w.state.clients := by
  unfold onRead at h
  cases hctx : l.context with
  | onClient =>
    rw [hctx] at h
    obtain ⟨hw, rfl⟩ := bind_pure_eq.mp h
    rcases Client.onRead_state hw with hs | ⟨command, request, hc, hcc, -, hs⟩
    · exact hs ▸ hrow
    · rw [hs, (outcome_client hcc hc).acts.clients]
      exact hrow
  | onSession =>
    rw [hctx] at h
    obtain ⟨hw, rfl⟩ := bind_pure_eq.mp h
    rcases Session.onRead_state hw with hs | ⟨data, t, command, request, rfl, hd, hcc, hid, hs, -⟩
    · exact hs ▸ hrow
    · have hkeeps := outcome_keeps (.start env st) request hcc command
        (by
          rw [hid]
          intro he
          cases command with
          | leave c => exact hcalm hctx data rfl ⟨t, c, hd, he⟩
          | _ => exact he)
      rw [hs]
      refine (hkeeps.clients row ?_).mpr hrow
      rw [hid, hown]
      exact Ne.symm hl

end Line

end Aewt
