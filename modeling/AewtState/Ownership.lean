import AewtState.Publish

/-!
# Whose rows a peer's message changes

A row of the client and subscription stores belongs to the session it was learnt from, or to
the node when its session id is the node's own.

* `Keeps` — the frame property for session `s`: rows of any other owner and the entries of the
  other sessions stay as they are.
* `Evicts` — the message is a `leave` for a client of another owner.

Principal results: `outcome_keeps` — every command but that `leave` keeps to the rows of its
session; `kernel_keeps_iff` — so the kernel keeps exactly when the message does not evict.
-/

set_option autoImplicit false

namespace Aewt

/-- Nothing that belongs to another owner than the session `s` changed from `st` to `st'`. -/
structure Keeps (s : Uuid) (st st' : State) : Prop where
  clients : ∀ row : Client, row.sessionId ≠ s → (row ∈ st'.clients ↔ row ∈ st.clients)
  subscriptions : ∀ row : Subscription, row.sessionId ≠ s →
    (row ∈ st'.subscriptions ↔ row ∈ st.subscriptions)
  sessions : ∀ other ∈ st.sessions, other.id ≠ s → st'.getSession other.id = some other

theorem Keeps.refl (s : Uuid) (st : State) : Keeps s st st where
  clients _ _ := Iff.rfl
  subscriptions _ _ := Iff.rfl
  sessions _ h _ := Table.find?_eq_some.mpr ⟨h, rfl⟩

/-- The command removes the client row of another owner. -/
def Command.Evicts (s : Uuid) (st : State) : Command → Prop
  | .leave c => ∃ row ∈ st.clients, row.id = c ∧ row.sessionId ≠ s
  | _ => False

/-! ## The stores -/

section

variable {st : State} {s : Uuid}

theorem keeps_addClient (c : Uuid) : Keeps s st (st.addClient ⟨c, s⟩).1 where
  clients row h := by
    rw [State.mem_addClient]
    constructor
    · rintro (hr | ⟨rfl, -⟩)
      · exact hr
      · exact absurd rfl h
    · exact Or.inl
  subscriptions _ _ := Iff.rfl
  sessions := (Keeps.refl s st).sessions

theorem keeps_removeClient {c : Uuid} (h : ∀ row ∈ st.clients, row.id = c → row.sessionId = s) :
    Keeps s st (st.removeClient c).1 where
  clients row hs := by
    rw [State.mem_removeClient]
    exact ⟨fun hr => hr.1, fun hr => ⟨hr, fun hc => hs (h row hr hc)⟩⟩
  subscriptions _ _ := Iff.rfl
  sessions := (Keeps.refl s st).sessions

theorem keeps_subscribe (c : Uuid) (ch : String) : Keeps s st (st.subscribe s c ch).1 where
  clients _ _ := Iff.rfl
  subscriptions row h := by
    rw [State.mem_subscribe]
    constructor
    · rintro (hr | rfl)
      · exact hr
      · exact absurd rfl h
    · exact Or.inl
  sessions := (Keeps.refl s st).sessions

theorem keeps_unsubscribe (c : Uuid) (ch : String) : Keeps s st (st.unsubscribe s c ch).1 where
  clients _ _ := by rw [State.unsubscribe_clients]
  subscriptions row h := by
    rw [State.mem_unsubscribe]
    refine ⟨fun hr => hr.1, fun hr => ⟨hr, ?_⟩⟩
    rintro rfl
    exact h rfl
  sessions other ho hs := by
    rw [State.getSession, State.unsubscribe_sessions]
    exact (Keeps.refl s st).sessions other ho hs

theorem keeps_markAsRegistered (p q : UInt16) : Keeps s st (st.markAsRegistered s p q) where
  clients _ _ := Iff.rfl
  subscriptions _ _ := Iff.rfl
  sessions _ ho hs :=
    Table.find?_eq_some.mpr ⟨(State.mem_markAsRegistered_of_ne hs).mpr ho, rfl⟩

/-- An entry with the same id would stay, so the new session cannot displace another. -/
theorem keeps_addSession (x : Session) : Keeps s st (st.addSession x).1 where
  clients _ _ := Iff.rfl
  subscriptions _ _ := Iff.rfl
  sessions _ ho _ := Table.find?_eq_some.mpr ⟨Table.mem_insert.mpr (Or.inl ho), rfl⟩

end

/-! ## The commands -/

/-- **Every command of a peer keeps to the rows of its session, unless it evicts.** -/
theorem outcome_keeps (w : World) (request : Request) (hctx : request.context = .onSession)
    (command : Command) (h : ¬ command.Evicts request.entityId w.state) :
    Keeps request.entityId w.state (outcome w request command).state := by
  have howner : owner request w.state = request.entityId := by simp [owner, hctx]
  cases command with
  | send f t payload =>
    simp only [outcome, sendOutcome_state]
    exact Keeps.refl _ _
  | register sp cp registered =>
    simp only [outcome, registerOutcome_state]
    exact keeps_markAsRegistered _ _
  | session host sp cp =>
    simp only [outcome, sessionOutcome]
    split
    · exact Keeps.refl _ _
    · exact keeps_addSession _
  | subscribe c ch =>
    simp only [outcome, howner]
    exact keeps_subscribe c ch
  | unsubscribe c ch =>
    simp only [outcome, howner]
    exact keeps_unsubscribe c ch
  | join c => exact keeps_addClient c
  | leave c =>
    refine keeps_removeClient fun row hrow hc => ?_
    by_contra hs
    exact h ⟨row, hrow, hc, hs⟩
  | ping | ack | noEffect | isSubscribed _ | broadcast _ _ | publish _ _ _ =>
    exact Keeps.refl _ _

theorem outcome_evicts (w : World) (request : Request) (command : Command)
    (h : command.Evicts request.entityId w.state) :
    ¬ Keeps request.entityId w.state (outcome w request command).state := by
  cases command with
  | leave c =>
    obtain ⟨row, hrow, hc, hs⟩ := h
    intro hk
    have hmem := (hk.clients row hs).mpr hrow
    simp only [outcome, State.mem_removeClient] at hmem
    exact hmem.2 hc
  | _ => exact absurd h id

/-! ## The kernel -/

/-- The message is an accepted `leave` that names a client row of another owner. -/
def Evicts (data : Object) (s : Uuid) (st : State) : Prop :=
  ∃ t c, decode data .onSession s = .ok (.accepted t (.leave c)) ∧
    ∃ row ∈ st.clients, row.id = c ∧ row.sessionId ≠ s

/-- **A peer's message changes only the rows of its session, exactly when it does not evict.** -/
theorem kernel_keeps_iff (data : Object) (s : Uuid) (w : World) :
    Keeps s w.state (kernel data .onSession s w).2.state ↔ ¬ Evicts data s w.state := by
  cases kernel_cases w data .onSession s with
  | raised e w' eq idle =>
    rw [eq, idle.state]
    refine iff_of_true (Keeps.refl s w.state) ?_
    rintro ⟨t, c, hd, -⟩
    obtain ⟨w'', runtime, hk, -⟩ := kernel_accepted w data .onSession s hd (by simp)
    rw [eq] at hk
    cases hk
  | rejected t field message runtime w' decoded eq idle =>
    rw [eq, idle.state]
    refine iff_of_true (Keeps.refl s w.state) ?_
    rintro ⟨t', c, hd, -⟩
    rw [decoded] at hd
    cases hd
  | accepted t command runtime w' decoded eq acted =>
    rw [eq, acted.state]
    constructor
    · rintro hk ⟨t', c, hd, hrow⟩
      rw [decoded] at hd
      cases hd
      exact outcome_evicts w (requestOf w data .onSession s t) (.leave c) hrow hk
    · intro hn
      refine outcome_keeps w (requestOf w data .onSession s t) rfl command ?_
      intro he
      cases command with
      | leave c => exact hn ⟨t, c, decoded, he⟩
      | _ => exact he

/-! ## An eviction -/

/-- What a peer sends to make a node forget `firstClient`. -/
def eviction : Object :=
  [("transaction_id", .string Uuid.nil.toString), ("action", .string "leave"),
    ("params", .object (clientParams firstClient))]

/-- A `leave` from the session `secondClient` removes a local client of the node. -/
theorem kernel_evicts :
    ¬ Keeps secondClient World.pair.state
      (kernel eviction .onSession secondClient World.pair).2.state := by
  have hb : Built eviction Uuid.nil "leave" (clientParams firstClient) := by
    constructor <;> rfl
  have hd : decode eviction .onSession secondClient =
      .ok (.accepted Uuid.nil (.leave firstClient)) := by
    rw [decode_built hb, decodeAction_leave, decodeMembership_built hb]
    rfl
  obtain ⟨w', runtime, hk, hs, -⟩ := kernel_accepted World.pair eviction .onSession secondClient hd
    (by simp)
  rw [hk, hs]
  have hrow : (⟨firstClient, Uuid.nil⟩ : Client) ∈ World.pair.state.clients := by
    rw [Table.mem_def]
    decide
  have hother : Uuid.nil ≠ secondClient := by decide
  exact outcome_evicts World.pair (requestOf World.pair eviction .onSession secondClient Uuid.nil)
    (.leave firstClient) ⟨_, hrow, rfl, hother⟩

end Aewt
