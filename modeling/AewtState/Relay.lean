import AewtState.Notices

/-!
# What a handler passes on

* `Forwarded` — the texts that a node sends to its sessions for a request of a client.
* `outcome_onSession`, `kernel_onSession` — a message from a peer is not passed on: the kernel
  sends to no session but the one it reads from, and to that one only the texts of `sync`.
* `effects_of_request` — what a request of a client sends: forwarded texts, at most one on each
  session (`outcome_once`), and texts to clients.
* `effects_of_forwarded`, `effects_of_reply` — what the peer sends when it reads a forwarded
  text, and what a node sends when it reads an answer.
-/

set_option autoImplicit false

namespace Aewt

/-- A notice that is built from a request of a client. -/
def Notice.FromClient : Notice → Prop
  | .broadcast .. | .publish .. | .subscribe .. | .unsubscribe .. | .send .. => True
  | _ => False

/-- A text that forwards a request of a client. -/
def Forwarded (text : Text) : Prop := ∃ m : Notice, m.FromClient ∧ text = m.text

/-! ## Messages of a peer -/

section

variable {w : World} {request : Request} {command : Command}

theorem outcome_onSession (hctx : request.context = .onSession) {id : Uuid} {text : Text}
    (h : Effect.session id text ∈ (outcome w request command).effects) :
    id = request.entityId ∧ ∃ sp cp registered st,
      command = .register sp cp registered ∧
      Effect.session id text ∈ syncTexts w.env.random w.drawn st request.entityId registered := by
  by_cases hr : ∀ sp cp r, command = .register sp cp r →
      w.state.getSession request.entityId = none
  · have hsilent := outcome_silent hctx hr id
    rw [← mem_textsTo, hsilent] at h
    cases h
  · push Not at hr
    obtain ⟨sp, cp, registered, rfl, hs⟩ := hr
    obtain ⟨session, hs⟩ := Option.ne_none_iff_exists'.mp hs
    have hid : session.id = request.entityId := (Table.find?_eq_some.mp hs).2
    simp only [outcome, registerOutcome, hs] at h
    have hfrom := (mem_syncTexts h).1
    rw [hid] at h hfrom
    exact ⟨hfrom, sp, cp, registered, _, rfl, h⟩

end

/-- What the kernel appends to the effects when it handles `data` from session `s`. -/
theorem kernel_onSession (w : World) (data : Object) (s : Uuid) :
    ∃ es, (kernel data .onSession s w).2.effects = w.effects ++ es ∧
      ∀ id text, Effect.session id text ∈ es →
        id = s ∧ data.find? "action" = some (.string "register") ∧
        ∃ st registered,
          Effect.session id text ∈ syncTexts w.env.random w.drawn st s registered := by
  cases kernel_cases w data .onSession s with
  | raised e w' eq idle => exact ⟨[], by rw [eq, idle.effects, List.append_nil], by simp⟩
  | rejected t field message runtime w' decoded eq idle =>
    exact ⟨[], by rw [eq, idle.effects, List.append_nil], by simp⟩
  | accepted t command runtime w' decoded eq acted =>
    refine ⟨_, by rw [eq]; exact acted.effects, ?_⟩
    intro id text h
    obtain ⟨hid, sp, cp, registered, st, rfl, hsync⟩ := outcome_onSession rfl h
    obtain ⟨action, haction, hdecoded⟩ := decode_accepted decoded
    rw [← decodeAction_action hdecoded rfl] at haction
    exact ⟨hid, haction, st, registered, hsync⟩

/-! ## What the peer does with a forwarded text -/

section

variable {s : Uuid} {text : Text} {w w' : World}

/-- An answer is read as an acknowledgement or rejected. -/
theorem decode_reply (h : IsReply text) (s : Uuid) :
    (∃ t, decode text .onSession s = .ok (.accepted t .ack)) ∨
    ∃ t field message, decode text .onSession s = .ok (.invalid t field message) := by
  cases h with
  | success t message timestamp runtime data =>
    exact .inl ⟨t, decode_success t s message timestamp runtime data⟩
  | failure t message timestamp runtime bag =>
    by_cases ht : t = Uuid.nil
    · subst ht
      exact .inr ⟨_, _, _, decode_failed_nil s message timestamp runtime bag⟩
    · exact .inl ⟨t, decode_failed ht s message timestamp runtime bag⟩

/-- A node that reads an answer sends at most an answer, on the same session. -/
theorem effects_of_reply (h : IsReply text)
    (hr : Session.onRead s (.object text) w = (.ok (), w')) :
    ∃ replies : List Text, w'.effects = w.effects ++ replies.map (Effect.session s) ∧
      ∀ reply ∈ replies, IsReply reply := by
  cases sessionRead s text w with
  | raised e v eq =>
    rw [eq] at hr
    cases hr
  | rejected t field message reply v decoded eq state effects isReply =>
    rw [eq] at hr
    cases hr
    refine ⟨[reply], effects, fun r hmem => ?_⟩
    rw [List.mem_singleton.mp hmem]
    exact isReply
  | accepted t command request replies v decoded transactionId entityId context eq state
      effects successes =>
    rw [eq] at hr
    cases hr
    have hack : command = .ack := by
      rcases decode_reply h s with ⟨t', ht⟩ | ⟨t', field, message, ht⟩ <;>
        rw [ht] at decoded <;> cases decoded
      rfl
    subst hack
    refine ⟨replies, by rw [effects]; simp [outcome], fun r hmem => ?_⟩
    obtain ⟨message, timestamp, runtime, d, rfl⟩ := successes r hmem
    exact .success t message timestamp runtime d

/-- What a forwarded text makes a node do, apart from the answer, concerns clients only. -/
theorem outcome_clients {m : Notice} (hm : m.FromClient) {request : Request}
    (hctx : request.context = .onSession) {e : Effect}
    (he : e ∈ (outcome w request m.command).effects) : ∃ c T, e = .client c T := by
  have hnone : ∀ es : List Effect, relayed request es = [] := by
    intro es
    simp [relayed, hctx]
  have hothers : ∀ {data : Object} {o c : Uuid}, e ∈ toOthersClients w.state data o c →
      ∃ c T, e = .client c T := by
    intro data o c h
    obtain ⟨row, -, rfl⟩ := List.mem_map.mp h
    exact ⟨row.id, _, rfl⟩
  cases m with
  | broadcast r c payload =>
    simp only [Notice.command, outcome, hnone, List.append_nil] at he
    exact hothers he
  | publish r c ch payload =>
    simp only [Notice.command, outcome, hnone, List.append_nil] at he
    exact hothers he
  | subscribe r c ch | unsubscribe r c ch =>
    simp only [Notice.command, outcome, hnone] at he
    cases he
  | send t f c payload =>
    simp only [Notice.command, outcome, sendOutcome, hctx] at he
    split at he
    · split at he
      · exact ⟨_, _, List.mem_singleton.mp he⟩
      · cases he
    · cases he
  | join | leave | register | syncSession | syncJoin | syncSubscribe => cases hm

/-- A node that reads a forwarded text sends to clients and answers on the same session. -/
theorem effects_of_forwarded (h : Forwarded text)
    (hr : Session.onRead s (.object text) w = (.ok (), w')) :
    ∃ es, ∃ replies : List Text,
      w'.effects = w.effects ++ es ++ replies.map (Effect.session s) ∧
      (∀ e ∈ es, ∃ c T, e = .client c T) ∧ ∀ reply ∈ replies, IsReply reply := by
  obtain ⟨m, hm, rfl⟩ := h
  have hd := decode_notice m s
  cases sessionRead s m.text w with
  | raised e v eq =>
    rw [eq] at hr
    cases hr
  | rejected t field message reply v decoded eq state effects isReply =>
    rw [hd] at decoded
    cases decoded
  | accepted t command request replies v decoded transactionId entityId context eq state
      effects successes =>
    rw [eq] at hr
    cases hr
    rw [hd] at decoded
    cases decoded
    refine ⟨_, replies, effects, fun e he => outcome_clients hm context he, fun r hmem => ?_⟩
    obtain ⟨message, timestamp, runtime, d, rfl⟩ := successes r hmem
    exact .success _ message timestamp runtime d

end

/-! ## Requests of a client -/

section

variable {w : World} {request : Request} {command : Command} {c : Uuid}

theorem outcome_forwarded (hc : command.ByClient c) {s : Uuid} {text : Text}
    (h : Effect.session s text ∈ (outcome w request command).effects) : Forwarded text := by
  cases hc with
  | ping | ack | noEffect | isSubscribed => cases h
  | send t payload =>
    simp only [outcome, sendOutcome] at h
    split at h
    · split at h
      · simp at h
      · split at h
        · exact ⟨.send _ _ _ _, trivial, (mem_fan h).1⟩
        · cases h
    · cases h
  | subscribe ch =>
    exact ⟨.subscribe request c ch, trivial, (mem_fan (mem_relayed h).2).1⟩
  | unsubscribe ch =>
    exact ⟨.unsubscribe request c ch, trivial, (mem_fan (mem_relayed h).2).1⟩
  | broadcast payload =>
    rcases List.mem_append.mp h with h | h
    · exact absurd h not_mem_toOthersClients
    · exact ⟨.broadcast request c payload, trivial, (mem_fan (mem_relayed h).2).1⟩
  | publish ch payload =>
    rcases List.mem_append.mp h with h | h
    · exact absurd h not_mem_toOthersClients
    · exact ⟨.publish request c ch payload, trivial, (mem_fan (mem_relayed h).2).1⟩

/-- A selection of the sessions has at most one text for each. -/
theorem textsTo_selected (s : Uuid) (st : State) (p : Session → Bool) (text : Text) :
    (textsTo s ((st.getSessions.filter p).map fun x => .session x.id text)).length ≤ 1 := by
  rw [textsTo_sessions, List.length_map, List.filter_comm]
  calc ((st.getSessions.filter fun x => x.id = s).filter p).length
      ≤ (st.getSessions.filter fun x => x.id = s).length := List.length_filter_le _ _
    _ ≤ 1 := by
      rw [State.getSessions, Table.filter_key]
      cases st.sessions.find? s <;> simp

theorem outcome_once (hc : command.ByClient c) (s : Uuid) :
    (textsTo s (outcome w request command).effects).length ≤ 1 := by
  have hall : ∀ (st : State) (data : Object), (textsTo s (toSessions st data)).length ≤ 1 := by
    intro st data
    rw [textsTo_toSessions]
    cases st.getSession s <;> simp
  have hrelayed : ∀ es : List Effect, (textsTo s es).length ≤ 1 →
      (textsTo s (relayed request es)).length ≤ 1 := by
    intro es h
    unfold relayed
    split
    · exact h
    · simp
  cases hc with
  | ping | ack | noEffect | isSubscribed => simp [outcome]
  | send t payload =>
    simp only [outcome, sendOutcome]
    split
    · split
      · simp
      · split
        · exact textsTo_selected s w.state _ _
        · simp
    · simp
  | subscribe ch | unsubscribe ch => exact hrelayed _ (hall _ _)
  | broadcast payload =>
    simp only [outcome, textsTo_append, textsTo_toOthersClients, List.nil_append]
    exact hrelayed _ (hall _ _)
  | publish ch payload =>
    simp only [outcome, textsTo_append, textsTo_toOthersClients, List.nil_append]
    exact hrelayed _ (textsTo_selected s w.state _ _)

/-- What a frame of a client makes its node send to sessions. -/
theorem effects_of_request {frame : Frame} {w w' : World}
    (h : Client.onRead c frame w = (.ok (), w')) :
    ∃ es, w'.effects = w.effects ++ es ∧
      (∀ s text, Effect.session s text ∈ es → Forwarded text) ∧
      ∀ s, (textsTo s es).length ≤ 1 := by
  cases frame with
  | other =>
    cases h
    exact ⟨[.client c _], rfl, by simp, by simp⟩
  | object data =>
    cases clientRead c data w with
    | raised e v eq =>
      rw [eq] at h
      cases h
    | rejected t field message reply v decoded eq state effects =>
      rw [eq] at h
      cases h
      exact ⟨_, effects, by simp, by simp⟩
    | accepted t command request reply v decoded transactionId entityId context eq state
        effects answers =>
      rw [eq] at h
      cases h
      have hc := decode_byClient decoded
      refine ⟨_, by rw [effects, List.append_assoc], fun s text hmem => ?_, fun s => ?_⟩
      · rcases List.mem_append.mp hmem with hmem | hmem
        · exact outcome_forwarded hc hmem
        · simp at hmem
      · rw [textsTo_append, textsTo_client, List.append_nil]
        exact outcome_once hc s

end

end Aewt
