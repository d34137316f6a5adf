import AewtState.Uuid
import AewtState.Lib.Table

/-!
# The stores of a node

`State` is the data of `aewt::state`: its id, its configuration and the three stores, each
behind its own lock in the source.

* `sessions_` is a map from the session id; `clients_` has a unique index on the client id
  (the second unique index, on client and session, is implied by it); `subscriptions_` has a
  unique index on the whole row.  Each is a `Table` with that key.
* A `Session` is the part of the session object that handlers read and write.
* The functions carry the names of the source and return the new state with the flag the
  source returns.
-/

set_option autoImplicit false

namespace Aewt

/-- `aewt::session`: the other end of a connection to another node. -/
structure Session where
  id : Uuid
  sessionsPort : UInt16 := 0
  clientsPort : UInt16 := 0
  host : String := ""
  registered : Bool := false

/-- `aewt::client`: a client row, owned by the session it was learnt from, or by the node
itself when the session id is the node's id. -/
structure Client where
  id : Uuid
  sessionId : Uuid
  deriving DecidableEq

/-- `aewt::subscription`. -/
structure Subscription where
  sessionId : Uuid
  clientId : Uuid
  channel : String
  deriving DecidableEq

/-- The composite key of `subscriptions_by_session_client_channel` is the whole row. -/
abbrev Subscription.row (r : Subscription) : Subscription := r

/-- `aewt::config`: the fields that the modelled functions read. -/
structure Config where
  sessionsPort : UInt16 := 11000
  clientsPort : UInt16 := 12000
  remoteAddress : String := "127.0.0.1"
  remoteSessionsPort : UInt16 := 9000
  remoteClientsPort : UInt16 := 10000
  registered : Bool := false

/-- `aewt::state`. -/
structure State where
  id : Uuid
  config : Config := {}
  sessions : Table Session.id := Table.empty _
  clients : Table Client.id := Table.empty _
  subscriptions : Table Subscription.row := Table.empty _

namespace State

def getSessions (st : State) : List Session := st.sessions.rows

def getClients (st : State) : List Client := st.clients.rows

def getSession (st : State) (id : Uuid) : Option Session := st.sessions.find? id

def getClient (st : State) (id : Uuid) : Option Client := st.clients.find? id

/-- `sessions_.emplace`: an entry with the same id stays. -/
def addSession (st : State) (s : Session) : State × Bool :=
  let r := st.sessions.insert s
  ({ st with sessions := r.1 }, r.2)

def removeSession (st : State) (id : Uuid) : State × Bool :=
  ({ st with sessions := st.sessions.keep (·.id ≠ id) }, st.sessions.hasKey id)

def addClient (st : State) (c : Client) : State × Bool :=
  let r := st.clients.insert c
  ({ st with clients := r.1 }, r.2)

/-- Erases by the client id alone, whatever session the row belongs to. -/
def removeClient (st : State) (clientId : Uuid) : State × Bool :=
  ({ st with clients := st.clients.keep (·.id ≠ clientId) }, st.clients.hasKey clientId)

def subscribe (st : State) (sessionId clientId : Uuid) (channel : String) : State × Bool :=
  let r := st.subscriptions.insert ⟨sessionId, clientId, channel⟩
  ({ st with subscriptions := r.1 }, r.2)

def unsubscribe (st : State) (sessionId clientId : Uuid) (channel : String) : State × Bool :=
  if st.subscriptions.hasKey ⟨sessionId, clientId, channel⟩ then
    ({ st with subscriptions :=
        st.subscriptions.keep (· ≠ ⟨sessionId, clientId, channel⟩) }, true)
  else (st, false)

/-- The query ignores the session of the row. -/
def isSubscribed (st : State) (clientId : Uuid) (channel : String) : Bool :=
  st.subscriptions.rows.any fun r => r.clientId = clientId ∧ r.channel = channel

/-- What `~session` calls: the rows of the session leave both stores. -/
def removeStateOfSession (st : State) (id : Uuid) : State :=
  { st with
    clients := st.clients.keep (·.sessionId ≠ id)
    subscriptions := st.subscriptions.keep (·.sessionId ≠ id) }

/-- `set_sessions_port`, `set_clients_port` and `mark_as_registered` on one session object,
which the map and the handler share. -/
def markAsRegistered (st : State) (id : Uuid) (sessionsPort clientsPort : UInt16) : State :=
  { st with
    sessions := st.sessions.adjust id
      (fun s => { s with
        sessionsPort := sessionsPort, clientsPort := clientsPort, registered := true })
      (fun _ => rfl) }

/-- `set_host`, as `session::on_accept` does it. -/
def setHost (st : State) (id : Uuid) (host : String) : State :=
  { st with sessions := st.sessions.adjust id (fun s => { s with host := host }) fun _ => rfl }

/-! ## What each function leaves alone -/

variable (st : State)

@[simp] theorem addSession_id (s : Session) : (st.addSession s).1.id = st.id := rfl
@[simp] theorem addSession_clients (s : Session) :
    (st.addSession s).1.clients = st.clients := rfl
@[simp] theorem addSession_subscriptions (s : Session) :
    (st.addSession s).1.subscriptions = st.subscriptions := rfl

@[simp] theorem addClient_id (c : Client) : (st.addClient c).1.id = st.id := rfl
@[simp] theorem addClient_sessions (c : Client) :
    (st.addClient c).1.sessions = st.sessions := rfl
@[simp] theorem addClient_subscriptions (c : Client) :
    (st.addClient c).1.subscriptions = st.subscriptions := rfl

@[simp] theorem removeClient_id (c : Uuid) : (st.removeClient c).1.id = st.id := rfl
@[simp] theorem removeClient_sessions (c : Uuid) :
    (st.removeClient c).1.sessions = st.sessions := rfl
@[simp] theorem removeClient_subscriptions (c : Uuid) :
    (st.removeClient c).1.subscriptions = st.subscriptions := rfl

@[simp] theorem subscribe_id (s c : Uuid) (ch : String) :
    (st.subscribe s c ch).1.id = st.id := rfl
@[simp] theorem subscribe_sessions (s c : Uuid) (ch : String) :
    (st.subscribe s c ch).1.sessions = st.sessions := rfl
@[simp] theorem subscribe_clients (s c : Uuid) (ch : String) :
    (st.subscribe s c ch).1.clients = st.clients := rfl

@[simp] theorem unsubscribe_id (s c : Uuid) (ch : String) :
    (st.unsubscribe s c ch).1.id = st.id := by
  unfold unsubscribe; split <;> rfl
@[simp] theorem unsubscribe_sessions (s c : Uuid) (ch : String) :
    (st.unsubscribe s c ch).1.sessions = st.sessions := by
  unfold unsubscribe; split <;> rfl
@[simp] theorem unsubscribe_clients (s c : Uuid) (ch : String) :
    (st.unsubscribe s c ch).1.clients = st.clients := by
  unfold unsubscribe; split <;> rfl

@[simp] theorem markAsRegistered_id (s : Uuid) (p q : UInt16) :
    (st.markAsRegistered s p q).id = st.id := rfl
@[simp] theorem markAsRegistered_clients (s : Uuid) (p q : UInt16) :
    (st.markAsRegistered s p q).clients = st.clients := rfl
@[simp] theorem markAsRegistered_subscriptions (s : Uuid) (p q : UInt16) :
    (st.markAsRegistered s p q).subscriptions = st.subscriptions := rfl

@[simp] theorem setHost_id (s : Uuid) (h : String) : (st.setHost s h).id = st.id := rfl
@[simp] theorem setHost_clients (s : Uuid) (h : String) :
    (st.setHost s h).clients = st.clients := rfl
@[simp] theorem setHost_subscriptions (s : Uuid) (h : String) :
    (st.setHost s h).subscriptions = st.subscriptions := rfl

/-! ## What each function changes -/

variable {st}

theorem mem_addClient {c d : Client} :
    d ∈ (st.addClient c).1.clients ↔
      d ∈ st.clients ∨ (d = c ∧ st.clients.hasKey c.id = false) := Table.mem_insert

theorem mem_removeClient {c : Uuid} {d : Client} :
    d ∈ (st.removeClient c).1.clients ↔ d ∈ st.clients ∧ d.id ≠ c := by
  simp [removeClient]

theorem mem_subscribe {s c : Uuid} {ch : String} {r : Subscription} :
    r ∈ (st.subscribe s c ch).1.subscriptions ↔
      r ∈ st.subscriptions ∨ r = ⟨s, c, ch⟩ := by
  rw [show (st.subscribe s c ch).1.subscriptions = (st.subscriptions.insert ⟨s, c, ch⟩).1
    from rfl, Table.mem_insert]
  constructor
  · rintro (h | ⟨h, -⟩)
    · exact Or.inl h
    · exact Or.inr h
  · rintro (h | rfl)
    · exact Or.inl h
    · cases hk : st.subscriptions.hasKey ⟨s, c, ch⟩ with
      | false => exact Or.inr ⟨rfl, rfl⟩
      | true =>
        obtain ⟨r, hr, rfl⟩ := Table.hasKey_iff.mp hk
        exact Or.inl hr

theorem mem_unsubscribe {s c : Uuid} {ch : String} {r : Subscription} :
    r ∈ (st.unsubscribe s c ch).1.subscriptions ↔
      r ∈ st.subscriptions ∧ r ≠ ⟨s, c, ch⟩ := by
  unfold unsubscribe
  split
  · simp
  · rename_i h
    have hk := Table.hasKey_eq_false.mp (Bool.eq_false_iff.mpr h)
    constructor
    · intro hr
      exact ⟨hr, hk r hr⟩
    · exact fun hr => hr.1

theorem subscribe_snd (s c : Uuid) (ch : String) :
    (st.subscribe s c ch).2 = !st.subscriptions.hasKey ⟨s, c, ch⟩ := Table.insert_snd _ _

theorem unsubscribe_snd (s c : Uuid) (ch : String) :
    (st.unsubscribe s c ch).2 = st.subscriptions.hasKey ⟨s, c, ch⟩ := by
  unfold unsubscribe
  split
  · rename_i h
    exact h.symm
  · rename_i h
    exact (Bool.eq_false_iff.mpr h).symm

theorem isSubscribed_iff {c : Uuid} {ch : String} :
    st.isSubscribed c ch = true ↔
      ∃ r ∈ st.subscriptions, r.clientId = c ∧ r.channel = ch := by
  simp [isSubscribed, Table.mem_def]

theorem markAsRegistered_of_none {s : Uuid} {p q : UInt16} (h : st.getSession s = none) :
    st.markAsRegistered s p q = st := by
  have hkey : st.sessions.hasKey s = false :=
    Table.hasKey_eq_false.mpr (Table.find?_eq_none.mp h)
  rw [markAsRegistered, Table.adjust_of_hasKey_false _ _ hkey]

/-- The session that registers. -/
theorem mem_markAsRegistered_self {p q : UInt16} {t : Session} (h : t ∈ st.sessions) :
    { t with sessionsPort := p, clientsPort := q, registered := true } ∈
      (st.markAsRegistered t.id p q).sessions :=
  List.mem_map.mpr ⟨t, h, if_pos rfl⟩

/-- Another session's row in the map is the same row after a registration. -/
theorem mem_markAsRegistered_of_ne {s : Uuid} {p q : UInt16} {t : Session} (h : t.id ≠ s) :
    t ∈ (st.markAsRegistered s p q).sessions ↔ t ∈ st.sessions := by
  simp only [markAsRegistered]
  rw [Table.mem_adjust_of_ne _ h]

/-- And after another session's handshake. -/
theorem mem_setHost_of_ne {s : Uuid} {host : String} {t : Session} (h : t.id ≠ s) :
    t ∈ (st.setHost s host).sessions ↔ t ∈ st.sessions := by
  simp only [setHost]
  rw [Table.mem_adjust_of_ne _ h]

end State

end Aewt
