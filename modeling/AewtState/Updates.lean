import AewtState.Reading
import AewtState.Lib.Replica

/-!
# Replicated rows and the messages about them

* `Key`, `State.Holds` — the rows a node replicates to its peers, without their owner.
* `Command.update`, `updateOf` — what a command, or the text it arrives in, says about them.

Principal results: `outcome_holds` — a peer's command applies its update to the rows of its
session; `clientOutcome_holds`, `clientOutcome_posted` — a client's command applies its update
to the local rows and posts the same update on every session.
-/

set_option autoImplicit false

namespace Aewt

/-! ## Replicated rows -/

/-- A row of the client or the subscription store, without its owner. -/
inductive Key where
  | client (c : Uuid)
  | subscription (c : Uuid) (channel : String)
  deriving DecidableEq

/-- The client a row is about. -/
def Key.about : Key → Uuid
  | .client c => c
  | .subscription c _ => c

/-- The two stores of replicated rows. -/
inductive Store where
  | clients
  | subscriptions
  deriving DecidableEq

def Key.store : Key → Store
  | .client _ => .clients
  | .subscription _ _ => .subscriptions

/-- The node stores the row for the owner `s`. -/
def State.Holds (st : State) (s : Uuid) : Key → Prop
  | .client c => ⟨c, s⟩ ∈ st.clients
  | .subscription c channel => ⟨s, c, channel⟩ ∈ st.subscriptions

/-- The rows that `sync` reads are the node's own. -/
theorem exists_localClients {st : State} {k : Key} :
    (∃ row ∈ localClients st, Key.client row.id = k) ↔
      k.store = .clients ∧ st.Holds st.id k := by
  constructor
  · rintro ⟨⟨rid, rs⟩, hrow, rfl⟩
    obtain ⟨hr, hs⟩ := List.mem_filter.mp hrow
    simp only [decide_eq_true_eq] at hs
    subst hs
    exact ⟨rfl, hr⟩
  · rintro ⟨hF, hh⟩
    cases k with
    | subscription c ch => cases hF
    | client c => exact ⟨_, List.mem_filter.mpr ⟨hh, by simp⟩, rfl⟩

theorem exists_localSubscriptions {st : State} {k : Key} :
    (∃ row ∈ localSubscriptions st, Key.subscription row.clientId row.channel = k) ↔
      k.store = .subscriptions ∧ st.Holds st.id k := by
  constructor
  · rintro ⟨⟨rs, rc, rch⟩, hrow, rfl⟩
    obtain ⟨hr, hs⟩ := List.mem_filter.mp hrow
    simp only [decide_eq_true_eq] at hs
    subst hs
    exact ⟨rfl, hr⟩
  · rintro ⟨hF, hh⟩
    cases k with
    | client c => cases hF
    | subscription c ch => exact ⟨_, List.mem_filter.mpr ⟨hh, by simp⟩, rfl⟩

/-- What a command says about a row: that it is there, or that it is not. -/
def Command.update : Command → Option (Key × Bool)
  | .join c => some (.client c, true)
  | .leave c => some (.client c, false)
  | .subscribe c channel => some (.subscription c channel, true)
  | .unsubscribe c channel => some (.subscription c channel, false)
  | _ => none

/-- What a text says when it is read on session `s`. -/
def updateOf (s : Uuid) (text : Text) : Option (Key × Bool) :=
  match decode text .onSession s with
  | .ok (.accepted _ command) => command.update
  | _ => none

theorem updateOf_accepted {s t : Uuid} {text : Text} {command : Command}
    (h : decode text .onSession s = .ok (.accepted t command)) :
    updateOf s text = command.update := by
  simp [updateOf, h]

theorem updateOf_reply {text : Text} (h : IsReply text) (s : Uuid) : updateOf s text = none := by
  cases h with
  | success t message timestamp runtime data =>
    rw [updateOf_accepted (decode_success t s message timestamp runtime data)]
    rfl
  | failure t message timestamp runtime bag =>
    by_cases ht : t = Uuid.nil
    · subst ht
      simp [updateOf, decode_failed_nil]
    · rw [updateOf_accepted (decode_failed ht s message timestamp runtime bag)]
      rfl

/-- Keeping the rows of other owners is keeping what the node holds for them. -/
theorem Keeps.holds {s s' : Uuid} {st st' : State} (h : Keeps s st st') (hs : s' ≠ s)
    (k : Key) : st'.Holds s' k ↔ st.Holds s' k := by
  cases k with
  | client c => exact h.clients ⟨c, s'⟩ hs
  | subscription c channel => exact h.subscriptions ⟨s', c, channel⟩ hs

section

variable {st : State} {s c : Uuid} {k : Key}

theorem holds_addClient (hown : ∀ row ∈ st.clients, row.id = c → row.sessionId = s) :
    (st.addClient ⟨c, s⟩).1.Holds s k ↔
      (if Key.client c = k then true = true else st.Holds s k) := by
  cases k with
  | subscription d channel => simp [State.Holds]
  | client d =>
    simp only [State.Holds, State.mem_addClient, Client.mk.injEq, Key.client.injEq]
    by_cases hd : c = d
    · subst hd
      simp only [and_self, true_and, if_true, iff_true]
      cases hk : st.clients.hasKey c with
      | false => exact Or.inr rfl
      | true =>
        obtain ⟨row, hrow, hid⟩ := Table.hasKey_iff.mp hk
        have hs := hown row hrow hid
        subst hid hs
        exact Or.inl hrow
    · simp [hd, Ne.symm hd]

theorem holds_removeClient :
    (st.removeClient c).1.Holds s k ↔
      (if Key.client c = k then false = true else st.Holds s k) := by
  cases k with
  | subscription d channel => simp [State.Holds]
  | client d =>
    simp only [State.Holds, State.mem_removeClient, Key.client.injEq]
    by_cases hd : c = d
    · simp [hd]
    · simp [hd, Ne.symm hd]

theorem holds_subscribe {channel : String} : (st.subscribe s c channel).1.Holds s k ↔
    (if Key.subscription c channel = k then true = true else st.Holds s k) := by
  cases k with
  | client d => simp [State.Holds]
  | subscription d ch =>
    simp only [State.Holds, State.mem_subscribe, Subscription.mk.injEq, Key.subscription.injEq]
    by_cases hd : c = d ∧ channel = ch
    · simp [hd]
    · simp only [hd, if_false, true_and, or_iff_left_iff_imp]
      rintro ⟨rfl, rfl⟩
      exact absurd ⟨rfl, rfl⟩ hd

theorem holds_unsubscribe {channel : String} : (st.unsubscribe s c channel).1.Holds s k ↔
    (if Key.subscription c channel = k then false = true else st.Holds s k) := by
  cases k with
  | client d => simp [State.Holds]
  | subscription d ch =>
    simp only [State.Holds, State.mem_unsubscribe, Subscription.mk.injEq, ne_eq, true_and,
      Key.subscription.injEq]
    by_cases hd : c = d ∧ channel = ch
    · simp [hd]
    · simp only [hd, if_false, and_iff_left_iff_imp]
      rintro - ⟨rfl, rfl⟩
      exact hd ⟨rfl, rfl⟩

/-- What a node holds depends on the two stores only. -/
theorem holds_congr {st' : State} (hc : st'.clients = st.clients)
    (hs : st'.subscriptions = st.subscriptions) : st'.Holds s k ↔ st.Holds s k := by
  cases k with
  | client d => simp only [State.Holds, hc]
  | subscription d ch => simp only [State.Holds, hs]

end

/-- A command without an update leaves the two stores alone. -/
theorem outcome_rows (w : World) (request : Request) {command : Command}
    (h : command.update = none) :
    (outcome w request command).state.clients = w.state.clients ∧
    (outcome w request command).state.subscriptions = w.state.subscriptions := by
  cases command with
  | send f t payload => simp [outcome]
  | register sp cp registered => simp [outcome]
  | session host sp cp =>
    simp only [outcome, sessionOutcome]
    split <;> exact ⟨rfl, rfl⟩
  | subscribe c ch | unsubscribe c ch => cases h
  | join c | leave c => cases h
  | ping | ack | noEffect | isSubscribed _ | broadcast _ _ | publish _ _ _ => exact ⟨rfl, rfl⟩

theorem outcome_holds_idle (w : World) (request : Request) {command : Command}
    (h : command.update = none) (s : Uuid) (k : Key) :
    (outcome w request command).state.Holds s k ↔ w.state.Holds s k :=
  holds_congr (outcome_rows w request h).1 (outcome_rows w request h).2

/-- **A peer's command applies its update to the rows of its session.** -/
theorem outcome_holds (w : World) {request : Request} (hctx : request.context = .onSession)
    {command : Command}
    (hown : ∀ c, command = .join c → ∀ row ∈ w.state.clients, row.id = c →
      row.sessionId = request.entityId) (k : Key) :
    (outcome w request command).state.Holds request.entityId k ↔
      Replica.update command.update k (w.state.Holds request.entityId k) := by
  have howner : owner request w.state = request.entityId := by simp [owner, hctx]
  cases command with
  | join c => exact holds_addClient (hown c rfl)
  | leave c => exact holds_removeClient
  | subscribe c ch =>
    simp only [outcome, howner]
    exact holds_subscribe
  | unsubscribe c ch =>
    simp only [outcome, howner]
    exact holds_unsubscribe
  | send | register | session | ping | ack | noEffect | isSubscribed | broadcast | publish =>
    exact outcome_holds_idle w request rfl _ k

/-! ## The messages -/

section

variable {message : Object} {t c s : Uuid}

theorem decode_join (h : Built message t "join" (clientParams c)) :
    decode message .onSession s = .ok (.accepted t (.join c)) := by
  rw [decode_built h, decodeAction_join, decodeMembership_built h]
  rfl

theorem decode_leave (h : Built message t "leave" (clientParams c)) :
    decode message .onSession s = .ok (.accepted t (.leave c)) := by
  rw [decode_built h, decodeAction_leave, decodeMembership_built h]
  rfl

theorem decode_subscribe {ch : String}
    (h : Built message t "subscribe" (subscriptionParams c ch)) :
    decode message .onSession s = .ok (.accepted t (.subscribe c ch)) := by
  rw [decode_built h, decodeAction_subscribe, decodeSubscription_built h]
  rfl

theorem decode_unsubscribe {ch : String}
    (h : Built message t "unsubscribe" (subscriptionParams c ch)) :
    decode message .onSession s = .ok (.accepted t (.unsubscribe c ch)) := by
  rw [decode_built h, decodeAction_unsubscribe, decodeSubscription_built h]
  rfl

theorem decode_register {registered : Bool} {cp sp : UInt16}
    (h : Built message t "register" (registerParams registered cp sp)) :
    decode message .onSession s =
      .ok (.accepted t (.register sp.toUInt64 cp.toUInt64 registered)) := by
  rw [decode_built h, decodeAction_register, decodeRegister_built h]
  rfl

theorem decode_session {host : String} {sp cp : UInt16}
    (h : Built message t "session" (sessionParams host sp cp)) :
    decode message .onSession s =
      .ok (.accepted t (.session host sp.toUInt64 cp.toUInt64)) := by
  rw [decode_built h, decodeAction_session, decodeSession_built h]
  rfl

theorem decode_broadcast {payload : Object}
    (h : Built message t "broadcast" (broadcastParams c payload)) :
    decode message .onSession s = .ok (.accepted t (.broadcast c payload.wire)) := by
  rw [decode_built h, decodeAction_broadcast, decodeBroadcast_built h]
  rfl

theorem decode_publish {ch : String} {payload : Object}
    (h : Built message t "publish" (publishParams c ch payload)) :
    decode message .onSession s = .ok (.accepted t (.publish c ch payload.wire)) := by
  rw [decode_built h, decodeAction_publish, decodePublish_built h]
  rfl

theorem decode_send {f : Uuid} {payload : Object}
    (h : Built message t "send" (sendParams f c payload)) :
    decode message .onSession s = .ok (.accepted t (.send f c payload.wire)) := by
  rw [decode_built h, decodeAction_send, decodeSend_built h]
  rfl

end

/-! ## Requests of a client -/

section

variable (w : World) {request : Request} {c : Uuid} {command : Command}

/-- A client's command leaves the sessions alone. -/
theorem clientOutcome_sessions (h : command.ByClient c) :
    (outcome w request command).state.sessions = w.state.sessions := by
  cases h with
  | send t payload => simp [outcome]
  | unsubscribe ch => simp [outcome]
  | ping | ack | noEffect | subscribe _ | isSubscribed _ | broadcast _ | publish _ _ => rfl

theorem outcome_id : (outcome w request command).state.id = w.state.id := by
  cases command with
  | send f t payload => simp [outcome]
  | register sp cp registered => simp [outcome]
  | session host sp cp =>
    simp only [outcome, sessionOutcome]
    split <;> rfl
  | unsubscribe d ch => simp [outcome]
  | ping | ack | noEffect | subscribe _ _ | isSubscribed _ | broadcast _ _ | publish _ _ _
  | join _ | leave _ => rfl

/-- **A client's command applies its update to the local rows** and to no others. -/
theorem clientOutcome_holds (hctx : request.context = .onClient) (h : command.ByClient c)
    (s : Uuid) (k : Key) : (outcome w request command).state.Holds s k ↔
      if s = w.state.id then Replica.update command.update k (w.state.Holds s k)
      else w.state.Holds s k := by
  have howner : owner request w.state = w.state.id := by simp [owner, hctx]
  cases h with
  | subscribe ch =>
    simp only [outcome, howner]
    split
    · rename_i hs
      rw [hs]
      exact holds_subscribe
    · rename_i hs
      exact (keeps_subscribe c ch).holds hs k
  | unsubscribe ch =>
    simp only [outcome, howner]
    split
    · rename_i hs
      rw [hs]
      exact holds_unsubscribe
    · rename_i hs
      exact (keeps_unsubscribe c ch).holds hs k
  | send | ping | ack | noEffect | isSubscribed | broadcast | publish =>
    refine (outcome_holds_idle w request rfl s k).trans ?_
    split <;> exact Iff.rfl

/-- What a client's command sends on a session is about that client, and it is a forwarded
message, not a reply. -/
theorem clientOutcome_text (hctx : request.context = .onClient) (h : command.ByClient c)
    {s s' : Uuid} {text : Text}
    (ht : text ∈ textsTo s (outcome w request command).effects) :
    updateOf s' text = command.update := by
  cases h with
  | subscribe ch =>
    simp only [outcome, relayed, hctx] at ht
    rw [mem_textsTo_sessions ht]
    exact updateOf_accepted (decode_subscribe (built_requestObject _ _ _))
  | unsubscribe ch =>
    simp only [outcome, relayed, hctx] at ht
    rw [mem_textsTo_sessions ht]
    exact updateOf_accepted (decode_unsubscribe (built_requestObject _ _ _))
  | broadcast payload =>
    simp only [outcome, relayed, hctx, textsTo_append, textsTo_toOthersClients,
      List.nil_append] at ht
    rw [mem_textsTo_sessions ht]
    have hb := built_requestObject request.transactionId "broadcast" (broadcastParams c payload)
    have hu := updateOf_accepted (decode_broadcast (s := s') hb)
    exact hu
  | publish ch payload =>
    simp only [outcome, relayed, hctx, textsTo_append, textsTo_toOthersClients,
      List.nil_append] at ht
    rw [mem_textsTo_sessions ht]
    have hb := built_requestObject request.transactionId "publish" (publishParams c ch payload)
    have hu := updateOf_accepted (decode_publish (s := s') hb)
    exact hu
  | send t payload =>
    simp only [outcome, sendOutcome, hctx] at ht
    cases hc : w.state.getClient t with
    | none => simp [hc] at ht
    | some client =>
      simp only [hc] at ht
      split at ht
      · simp at ht
      · rw [mem_textsTo_sessions ht]
        have hb := built_requestObject (w.env.random w.drawn) "send"
          (sendParams c client.id payload)
        have hu := updateOf_accepted (decode_send (s := s') hb)
        exact hu
  | ping | ack | noEffect | isSubscribed => simp [outcome] at ht

/-- **A client's command posts its update once on every session of the node.** -/
theorem clientOutcome_posted (hctx : request.context = .onClient) (h : command.ByClient c)
    (hu : command.update ≠ none) {s : Uuid} (hs : w.state.sessions.hasKey s = true) :
    ∃ text, textsTo s (outcome w request command).effects = [text] := by
  obtain ⟨x, hx, hid⟩ := Table.hasKey_iff.mp hs
  have hget : w.state.sessions.find? s = some x := Table.find?_eq_some.mpr ⟨hx, hid⟩
  cases h with
  | subscribe ch =>
    refine ⟨serialize (makeSubscribeRequestObject request c ch), ?_⟩
    simp only [outcome, relayed, hctx, textsTo_toSessions]
    rw [State.getSession, State.subscribe_sessions, hget]
    rfl
  | unsubscribe ch =>
    refine ⟨serialize (makeUnsubscribeRequestObject request c ch), ?_⟩
    simp only [outcome, relayed, hctx, textsTo_toSessions]
    rw [State.getSession, State.unsubscribe_sessions, hget]
    rfl
  | send | ping | ack | noEffect | isSubscribed | broadcast | publish => exact absurd rfl hu

end

end Aewt
