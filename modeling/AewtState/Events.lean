import AewtState.Updates

/-!
# What one handler does to the replicated rows

The two kinds of handler that run on a node, each described by what other nodes can notice:
the rows and the texts sent on the sessions.

* `ClientEvent` — a handler of a client connection: at most one update of a local row about
  that client, posted once on every session.
* `SessionEvent` — a handler of a session: the update of the text, applied to the rows of that
  session; what it sends only repeats local rows.

Principal results: `clientEvent_connect`, `clientEvent_request`, `clientEvent_disconnect` and
`sessionEvent` — the handlers of the source are such events.
-/

set_option autoImplicit false

namespace Aewt

/-- The world in which a handler of a node starts. -/
def World.start (env : Env) (st : State) : World where
  env := env
  state := st

/-! ## Client connections -/

/-- A handler of client `c` took the node from `st` to `w`, with the update `u`. -/
structure ClientEvent (st : State) (w : World) (c : Uuid) (u : Option (Key × Bool)) : Prop where
  id : w.state.id = st.id
  sessions : w.state.sessions = st.sessions
  about : ∀ k b, u = some (k, b) → k.about = c
  holds : ∀ s k, w.state.Holds s k ↔
    if s = st.id then Replica.update u k (st.Holds s k) else st.Holds s k
  texts : ∀ s s', ∀ text ∈ textsTo s w.effects, updateOf s' text = u
  posted : u ≠ none → ∀ s, st.sessions.hasKey s = true → ∃ text, textsTo s w.effects = [text]

/-- Applying what a client's handler posted on a session is applying its update. -/
theorem ClientEvent.after {st : State} {w : World} {c : Uuid} {u : Option (Key × Bool)}
    (h : ClientEvent st w c u) {s : Uuid} (hs : st.sessions.hasKey s = true) (s' : Uuid)
    (k : Key) (p : Prop) :
    Replica.after (updateOf s') k p (textsTo s w.effects) = Replica.update u k p := by
  by_cases hu : u = none
  · subst hu
    refine Replica.after_idle fun m hm b => ?_
    rw [h.texts s s' m hm]
    simp
  · obtain ⟨text, htext⟩ := h.posted hu s hs
    have hm : text ∈ textsTo s w.effects := by simp [htext]
    rw [htext, Replica.after_cons, Replica.after_nil, Replica.apply, h.texts s s' text hm]

section

variable {env : Env} {st : State} {c : Uuid} {w : World}

/-- A message to every session says the same on each of them. -/
theorem texts_toSessions {st' : State} {data : Object} {u : Option (Key × Bool)}
    (h : ∀ s', updateOf s' (serialize data) = u) (s s' : Uuid) :
    ∀ text ∈ textsTo s (toSessions st' data), updateOf s' text = u := by
  intro text ht
  rw [mem_textsTo_sessions ht]
  exact h s'

theorem posted_toSessions {st' : State} (hs : st'.sessions = st.sessions) (data : Object)
    {s : Uuid} (h : st.sessions.hasKey s = true) :
    ∃ text, textsTo s (toSessions st' data) = [text] := by
  obtain ⟨x, hx, hid⟩ := Table.hasKey_iff.mp h
  have hget : st.sessions.find? s = some x := Table.find?_eq_some.mpr ⟨hx, hid⟩
  exact ⟨serialize data, by rw [textsTo_toSessions, State.getSession, hs, hget]; rfl⟩

theorem joinToSessions_eq (c : Uuid) (w : World) : joinToSessions c w =
    (.ok (UInt64.ofNat w.state.getSessions.length), World.emit { w with drawn := w.drawn + 1 }
      (toSessions w.state (requestObject (w.env.random w.drawn) "join" (clientParams c)))) :=
  sendToSessions_eq (requestObject (w.env.random w.drawn) "join" (clientParams c))
    { w with drawn := w.drawn + 1 }

theorem leaveToSessions_eq (c : Uuid) (w : World) : leaveToSessions c w =
    (.ok (UInt64.ofNat w.state.getSessions.length), World.emit { w with drawn := w.drawn + 1 }
      (toSessions w.state (requestObject (w.env.random w.drawn) "leave" (clientParams c)))) :=
  sendToSessions_eq (requestObject (w.env.random w.drawn) "leave" (clientParams c))
    { w with drawn := w.drawn + 1 }

/-- `client_listener::on_accept` stores the client and then tells the sessions. -/
theorem clientListenerOnAccept_eq (c : Uuid) (env : Env) (st : State) :
    clientListenerOnAccept c (.start env st) = (.ok (), World.emit
      { World.start env (st.addClient ⟨c, st.id⟩).1 with drawn := 1 }
      (toSessions (st.addClient ⟨c, st.id⟩).1
        (requestObject (env.random 0) "join" (clientParams c)))) := by
  rw [clientListenerOnAccept, getState_bind, update_bind, M.bind_ok (joinToSessions_eq c _)]
  rfl

/-- A client that fails is erased and then the sessions are told. -/
theorem Client.leave_eq (c : Uuid) (env : Env) (st : State) :
    Client.leave c (.start env st) = (.ok (), World.emit
      { World.start env (st.removeClient c).1 with drawn := 1 }
      (toSessions (st.removeClient c).1
        (requestObject (env.random 0) "leave" (clientParams c)))) := by
  rw [Client.leave, update_bind, M.bind_ok (leaveToSessions_eq c _)]
  rfl

/-- A client that is not stored yet connects. -/
theorem clientEvent_connect (hnew : ∀ row ∈ st.clients, row.id ≠ c)
    (h : clientListenerOnAccept c (.start env st) = (.ok (), w)) :
    ClientEvent st w c (some (.client c, true)) := by
  rw [clientListenerOnAccept_eq] at h
  cases h
  have hupd : ∀ s', updateOf s' (serialize (requestObject (env.random 0) "join"
      (clientParams c))) = some (.client c, true) :=
    fun s' => updateOf_accepted (decode_join (built_requestObject _ _ _))
  refine ⟨rfl, rfl, ?_, ?_, fun s s' => texts_toSessions hupd s s', fun _ s hs =>
    posted_toSessions rfl _ hs⟩
  · rintro k b hk
    cases hk
    rfl
  · intro s k
    split
    · rename_i hs
      rw [hs]
      exact holds_addClient fun row hrow hid => absurd hid (hnew row hrow)
    · rename_i hs
      exact (keeps_addClient c).holds hs k

/-- A client whose rows are all local disconnects. -/
theorem clientEvent_disconnect (hown : ∀ row ∈ st.clients, row.id = c → row.sessionId = st.id)
    (h : Client.leave c (.start env st) = (.ok (), w)) :
    ClientEvent st w c (some (.client c, false)) := by
  rw [Client.leave_eq] at h
  cases h
  have hupd : ∀ s', updateOf s' (serialize (requestObject (env.random 0) "leave"
      (clientParams c))) = some (.client c, false) :=
    fun s' => updateOf_accepted (decode_leave (built_requestObject _ _ _))
  refine ⟨rfl, rfl, ?_, ?_, fun s s' => texts_toSessions hupd s s', fun _ s hs =>
    posted_toSessions rfl _ hs⟩
  · rintro k b hk
    cases hk
    rfl
  · intro s k
    split
    · rename_i hs
      rw [hs]
      exact holds_removeClient
    · rename_i hs
      exact (keeps_removeClient hown).holds hs k

/-- A client's request, whatever it is. -/
theorem clientEvent_request {frame : Frame}
    (h : Client.onRead c frame (.start env st) = (.ok (), w)) : ∃ u, ClientEvent st w c u := by
  have hidle : ∀ w : World, w.state = st → (∀ s, textsTo s w.effects = []) →
      ClientEvent st w c none := by
    intro w hs ht
    refine ⟨by rw [hs], by rw [hs], by simp, fun s k => ?_, fun s s' text hm => ?_, by simp⟩
    · rw [hs]
      split <;> exact Iff.rfl
    · simp [ht] at hm
  cases frame with
  | other =>
    cases h
    exact ⟨none, hidle _ rfl fun s => rfl⟩
  | object data =>
    cases clientRead c data (.start env st) with
    | raised e w' eq =>
      rw [eq] at h
      cases h
    | rejected t field message reply w' decoded eq state effects =>
      rw [eq] at h
      cases h
      refine ⟨none, hidle _ state fun s => ?_⟩
      rw [effects, textsTo_append]
      rfl
    | accepted t command request reply w' decoded transactionId entityId context eq state
        effects answers =>
      rw [eq] at h
      cases h
      have hby : command.ByClient c := decode_byClient decoded
      have htexts : ∀ s, textsTo s w.effects =
          textsTo s (outcome (.start env st) request command).effects := by
        intro s
        rw [effects, textsTo_append, textsTo_append]
        simp [World.start]
      refine ⟨command.update, by rw [state, outcome_id]; rfl,
        by rw [state, clientOutcome_sessions _ hby]; rfl, ?_, fun s k => ?_, fun s s' text hm => ?_,
        fun hu s hs => ?_⟩
      · intro k b hk
        cases hby <;> cases hk <;> rfl
      · rw [state]
        exact clientOutcome_holds (.start env st) context hby s k
      · rw [htexts] at hm
        exact clientOutcome_text (.start env st) context hby hm
      · rw [htexts]
        exact clientOutcome_posted (.start env st) context hby hu hs

end

/-! ## Sessions -/

/-- A handler of session `s` read `text` and took the node from `st` to `w`. -/
structure SessionEvent (st : State) (w : World) (s : Uuid) (text : Text) : Prop where
  id : w.state.id = st.id
  sessions : ∀ x, st.sessions.hasKey x = true → w.state.sessions.hasKey x = true
  holds : ∀ k, w.state.Holds s k ↔ Replica.apply (updateOf s) k (st.Holds s k) text
  others : ∀ x ≠ s, ∀ k, w.state.Holds x k ↔ st.Holds x k
  texts : ∀ x s', ∀ m ∈ textsTo x w.effects, ∀ k b, updateOf s' m = some (k, b) →
    b = true ∧ st.Holds st.id k

/-- What a session's handler posts does not change the presence of a row that agrees with the
node. -/
theorem SessionEvent.after {st : State} {w : World} {s : Uuid} {text : Text}
    (h : SessionEvent st w s text) (x s' : Uuid) {k : Key} {p : Prop}
    (hp : p ↔ st.Holds st.id k) :
    Replica.after (updateOf s') k p (textsTo x w.effects) ↔ st.Holds st.id k :=
  Replica.after_confirmed (fun m hm b hu => h.texts x s' m hm k b hu) hp

section

variable {w : World} {request : Request} {command : Command}

/-- A session's handler keeps the sessions of the node. -/
theorem outcome_hasKey {x : Uuid} (h : w.state.sessions.hasKey x = true) :
    (outcome w request command).state.sessions.hasKey x = true := by
  cases command with
  | send f t payload => simpa [outcome] using h
  | register sp cp registered => simpa [outcome, State.markAsRegistered] using h
  | session host sp cp =>
    simp only [outcome, sessionOutcome]
    split
    · exact h
    · obtain ⟨y, hy, hid⟩ := Table.hasKey_iff.mp h
      exact Table.hasKey_iff.mpr ⟨y, Table.mem_insert.mpr (Or.inl hy), hid⟩
  | unsubscribe d ch => simpa [outcome] using h
  | ping | ack | noEffect | subscribe _ _ | isSubscribed _ | broadcast _ _ | publish _ _ _
  | join _ | leave _ => exact h

theorem mem_textsTo {x : Uuid} {m : Text} {es : List Effect} :
    m ∈ textsTo x es ↔ Effect.session x m ∈ es := by
  simp only [textsTo, List.mem_filterMap]
  constructor
  · rintro ⟨e, he, hm⟩
    cases e with
    | session y text =>
      simp only at hm
      split at hm
      · rename_i hy
        cases hm
        subst hy
        exact he
      · cases hm
    | client c text => cases hm
    | dial d host port => cases hm
  · intro h
    exact ⟨_, h, by simp⟩

/-- A report of a session says nothing about rows. -/
theorem updateOf_sessionObject (s' t : Uuid) (row : Session) :
    updateOf s' (serialize (sessionObject t row)) = none := by
  exact updateOf_accepted (decode_session (built_syncObject t _ _))

theorem updateOf_syncJoinObject (s' t : Uuid) (row : Client) :
    updateOf s' (serialize (syncJoinObject t row)) = some (.client row.id, true) :=
  updateOf_accepted (decode_join (built_syncObject t "join" _))

theorem updateOf_syncSubscribeObject (s' t : Uuid) (row : Subscription) :
    updateOf s' (serialize (syncSubscribeObject t row)) =
      some (.subscription row.clientId row.channel, true) :=
  updateOf_accepted (decode_subscribe (built_syncObject t "subscribe" _))

/-- Everything that `sync` sends about rows repeats a local row. -/
theorem syncTexts_local {rnd : Nat → Uuid} {i : Nat} {st : State} {id x s' : Uuid} {r : Bool}
    {m : Text} (hm : m ∈ textsTo x (syncTexts rnd i st id r)) {k : Key} {b : Bool}
    (hu : updateOf s' m = some (k, b)) : b = true ∧ st.Holds st.id k := by
  rw [mem_textsTo, syncTexts] at hm
  rcases List.mem_append.mp hm with hm | hm
  · obtain ⟨t, row, -, he⟩ := mem_announced hm
    cases he
    rw [updateOf_sessionObject] at hu
    cases hu
  rcases List.mem_append.mp hm with hm | hm
  · obtain ⟨t, row, hrow, he⟩ := mem_announced hm
    cases he
    rw [updateOf_syncJoinObject] at hu
    cases hu
    exact ⟨rfl, (exists_localClients.mp ⟨row, hrow, rfl⟩).2⟩
  · obtain ⟨t, row, hrow, he⟩ := mem_announced hm
    cases he
    rw [updateOf_syncSubscribeObject] at hu
    cases hu
    exact ⟨rfl, (exists_localSubscriptions.mp ⟨row, hrow, rfl⟩).2⟩

/-- A peer's command sends nothing on a session unless it registers one. -/
theorem outcome_silent (hctx : request.context = .onSession)
    (h : ∀ sp cp r, command = .register sp cp r → w.state.getSession request.entityId = none)
    (x : Uuid) : textsTo x (outcome w request command).effects = [] := by
  cases command with
  | send f t payload =>
    simp only [outcome, sendOutcome, hctx]
    cases w.state.getClient t with
    | none => rfl
    | some client =>
      simp only
      split <;> rfl
  | register sp cp registered => simp [outcome, registerOutcome, h sp cp registered rfl]
  | session host sp cp =>
    simp only [outcome, sessionOutcome]
    split <;> rfl
  | broadcast c payload =>
    simp [outcome, relayed, hctx, textsTo_toOthersClients]
  | publish c ch payload =>
    simp [outcome, relayed, hctx, textsTo_toOthersClients]
  | subscribe c ch => simp [outcome, relayed, hctx]
  | unsubscribe c ch => simp [outcome, relayed, hctx]
  | ping | ack | noEffect | isSubscribed _ | join _ | leave _ => simp [outcome]

/-- A peer's command sends on a session only what `sync` reports. -/
theorem outcome_texts (hctx : request.context = .onSession) {x s' : Uuid} {m : Text}
    (hm : m ∈ textsTo x (outcome w request command).effects) {k : Key} {b : Bool}
    (hu : updateOf s' m = some (k, b)) : b = true ∧ w.state.Holds w.state.id k := by
  by_cases h : ∀ sp cp r, command = .register sp cp r →
      w.state.getSession request.entityId = none
  · rw [outcome_silent hctx h] at hm
    cases hm
  · push Not at h
    obtain ⟨sp, cp, r, rfl, hs⟩ := h
    obtain ⟨session, hs⟩ := Option.ne_none_iff_exists'.mp hs
    simp only [outcome, registerOutcome, hs] at hm
    obtain ⟨hb, hh⟩ := syncTexts_local hm hu
    exact ⟨hb, (holds_congr rfl rfl).mp hh⟩

end

/-- **A session's handler is a `SessionEvent`**, when the client that the text is about is
stored, if at all, for this session. -/
theorem sessionEvent {env : Env} {st : State} {s : Uuid} {text : Text} {w : World}
    (hown : ∀ k b, updateOf s text = some (k, b) → ∀ row ∈ st.clients, row.id = k.about →
      row.sessionId = s)
    (h : Session.onRead s (.object text) (.start env st) = (.ok (), w)) :
    SessionEvent st w s text := by
  cases sessionRead s text (.start env st) with
  | raised e w' eq =>
    rw [eq] at h
    cases h
  | rejected t field message reply w' decoded eq state effects isReply =>
    rw [eq] at h
    cases h
    have hu : updateOf s text = none := by simp [updateOf, decoded]
    rw [World.start] at state effects
    refine ⟨by rw [state], by rw [state]; simp, fun k => ?_, fun x _ k => by rw [state],
      fun x s' m hm k b hk => ?_⟩
    · rw [state, Replica.apply_none hu]
    · rw [effects, List.nil_append, mem_textsTo, List.mem_singleton] at hm
      cases hm
      rw [updateOf_reply isReply] at hk
      cases hk
  | accepted t command request replies w' decoded transactionId entityId context eq state
      effects successes =>
    rw [eq] at h
    cases h
    have hu : updateOf s text = command.update := updateOf_accepted decoded
    have hevict : ¬ command.Evicts request.entityId st := by
      rw [entityId]
      cases command with
      | leave c =>
        rintro ⟨row, hrow, hid, hne⟩
        exact hne (hown (.client c) false hu row hrow hid)
      | _ => exact id
    have hjoin : ∀ c, command = .join c → ∀ row ∈ st.clients, row.id = c →
        row.sessionId = request.entityId := by
      rintro c rfl row hrow hid
      rw [entityId]
      exact hown (.client c) true hu row hrow hid
    refine ⟨by rw [state, outcome_id]; rfl, fun x hx => ?_, fun k => ?_, fun x hx k => ?_,
      fun x s' m hm k b hk => ?_⟩
    · rw [state]
      exact outcome_hasKey hx
    · have hh := outcome_holds (.start env st) context hjoin k
      rw [state, Replica.apply, hu]
      rw [entityId] at hh
      exact hh
    · rw [state]
      have hkeep := outcome_keeps (.start env st) request context command hevict
      rw [entityId] at hkeep
      exact hkeep.holds hx k
    · rw [effects, textsTo_append, textsTo_append, List.append_assoc] at hm
      rcases List.mem_append.mp hm with hm | hm
      · simp [World.start] at hm
      rcases List.mem_append.mp hm with hm | hm
      · exact outcome_texts context hm hk
      · rw [mem_textsTo, List.mem_map] at hm
        obtain ⟨reply, hr, he⟩ := hm
        cases he
        obtain ⟨msg, ts, rt, d, rfl⟩ := successes _ hr
        rw [updateOf_reply (.success t msg ts rt d)] at hk
        cases hk

end Aewt
