import AewtState.Pair
import AewtState.Publish

/-!
# What the pieces of a handler do to the rows

* `Piece` — a piece of a handler of one session: it applies the texts that it read to the rows of
  that session and may report local rows on it.
* `Aside` — a handler of a session to a third node, which tells of that node's clients only.

Principal results: `piece_onRead`, `piece_syncClients` and `piece_syncSubscriptions` — the pieces
of the session's own handlers; `aside_code` and `Aside.piece` — a handler of another session is a
piece that reads and reports nothing.
-/

set_option autoImplicit false

namespace Aewt

/-! ## Pieces of handlers -/

/-- A piece of a handler of session `s` that applies the texts it `read` to the rows of the
session, and reports the local rows in `F` on it.  It may add rows about the clients in `E` to
other sessions. -/
structure Piece (E : Uuid → Bool) (st : State) (w : World) (s : Uuid) (read : List Text)
    (F : Key → Prop) : Prop where
  id : w.state.id = st.id
  sessions : st.sessions.hasKey s = true → w.state.sessions.hasKey s = true
  holds : ∀ k, w.state.Holds s k ↔ Replica.after (updateOf s) k (st.Holds s k) read
  own : st.id ≠ s → ∀ k, w.state.Holds st.id k ↔ st.Holds st.id k
  others : ∀ x ≠ s, ∀ k, w.state.Holds x k → st.Holds x k ∨ E k.about = true
  texts : ∀ s', ∀ m ∈ textsTo s w.effects, ∀ k b, updateOf s' m = some (k, b) →
    b = true ∧ F k ∧ st.Holds st.id k
  all : ∀ s' k, F k → st.Holds st.id k → ∃ m ∈ textsTo s w.effects, updateOf s' m = some (k, true)

section

variable {E : Uuid → Bool} {st : State} {w : World} {s : Uuid} {read : List Text}
  {F : Key → Prop}

/-- Reading what a piece posts adds the reported rows. -/
theorem Piece.after (h : Piece E st w s read F) (s' : Uuid) (k : Key) (p : Prop) :
    Replica.after (updateOf s') k p (textsTo s w.effects) ↔ p ∨ (F k ∧ st.Holds st.id k) := by
  rw [Replica.after_announced fun m hm k' b hu => (h.texts s' m hm k' b hu).1]
  refine or_congr Iff.rfl ⟨?_, fun hF => h.all s' k hF.1 hF.2⟩
  rintro ⟨m, hm, hu⟩
  exact (h.texts s' m hm k true hu).2

/-- A piece that changes no row and says nothing about rows. -/
theorem Piece.silent (hid : w.state.id = st.id) (hs : st.sessions.hasKey s = true →
    w.state.sessions.hasKey s = true) (hc : w.state.clients = st.clients)
    (hsub : w.state.subscriptions = st.subscriptions)
    (hr : ∀ m ∈ read, updateOf s m = none)
    (ht : ∀ s', ∀ m ∈ textsTo s w.effects, updateOf s' m = none) :
    Piece E st w s read fun _ => False where
  id := hid
  sessions := hs
  holds k := by
    have hidle : Replica.Idle (updateOf s) k read := by
      intro m hm b
      rw [hr m hm]
      simp
    rw [Replica.after_idle hidle]
    exact holds_congr hc hsub
  own _ _ := holds_congr hc hsub
  others _ _ _ hh := .inl ((holds_congr hc hsub).mp hh)
  texts s' m hm k b hu := by
    rw [ht s' m hm] at hu
    cases hu
  all _ _ hF := hF.elim

theorem updateOf_registerObject (s t : Uuid) (config : Config) :
    updateOf s (serialize (registerObject t config)) = none :=
  updateOf_accepted (decode_register (built_requestObject _ _ _))

theorem piece_onAccept {context : SessionContext} {host : String} {env : Env}
    (h : Session.onAccept s context host (.start env st) = (.ok (), w)) :
    Piece E st w s [] fun _ => False := by
  cases context with
  | accepting =>
    cases h
    exact .silent rfl (by simp [State.setHost, World.start]) rfl rfl (by simp)
      (fun _ m hm => by cases hm)
  | remote =>
    cases h
    refine .silent rfl (by simp [State.setHost, State.setRegistered, World.start]) rfl rfl
      (by simp) (fun s' m hm => ?_)
    rw [mem_textsTo, World.emit_effects] at hm
    cases List.mem_singleton.mp hm
    exact updateOf_registerObject _ _ _

theorem piece_syncSessions {registered : Bool} {env : Env}
    (h : syncSessions s registered (.start env st) = (.ok (), w)) :
    Piece E st w s [] fun _ => False := by
  rw [syncSessions_eq] at h
  cases h
  refine .silent rfl id rfl rfl (by simp) (fun s' m hm => ?_)
  rw [mem_textsTo] at hm
  obtain ⟨t, row, -, he⟩ := mem_announced hm
  cases he
  exact updateOf_sessionObject s' t row

/-- A loop of `sync` over rows. -/
theorem piece_announce {α : Type} {make : Uuid → α → Object} {rows : List α} {key : α → Key}
    {env : Env} (h : announce s make rows (.start env st) = (.ok (), w))
    (hu : ∀ s' t row, updateOf s' (serialize (make t row)) = some (key row, true))
    (hr : ∀ k, (∃ row ∈ rows, key row = k) ↔ F k ∧ st.Holds st.id k) : Piece E st w s [] F := by
  rw [announce_eq] at h
  cases h
  refine ⟨rfl, id, fun _ => Iff.rfl, fun _ _ => Iff.rfl, fun _ _ _ => .inl,
    fun s' m hm k b hk => ?_, fun s' k hF hh => ?_⟩
  · rw [mem_textsTo] at hm
    obtain ⟨t, row, hrow, he⟩ := mem_announced hm
    cases he
    rw [hu] at hk
    cases hk
    exact ⟨rfl, (hr _).mp ⟨row, hrow, rfl⟩⟩
  · obtain ⟨row, hrow, rfl⟩ := (hr k).mpr ⟨hF, hh⟩
    obtain ⟨t, ht⟩ := announced_of_mem env.random s make 0 hrow
    exact ⟨_, mem_textsTo.mpr ht, hu s' t row⟩

theorem piece_syncClients {env : Env} (h : syncClients s (.start env st) = (.ok (), w)) :
    Piece E st w s [] (·.store = .clients) := by
  rw [syncClients, getState_bind] at h
  exact piece_announce h updateOf_syncJoinObject fun _ => exists_localClients

theorem piece_syncSubscriptions {env : Env}
    (h : syncSubscriptions s (.start env st) = (.ok (), w)) :
    Piece E st w s [] (·.store = .subscriptions) := by
  rw [syncSubscriptions, getState_bind] at h
  exact piece_announce h updateOf_syncSubscribeObject fun _ => exists_localSubscriptions

theorem piece_answerRegister {request : Request} {env : Env}
    (h : answerRegister request (.start env st) = (.ok (), w)) :
    Piece E st w s [] fun _ => False := by
  cases h
  refine .silent rfl id rfl rfl (by simp) (fun s' m hm => ?_)
  rw [mem_textsTo] at hm
  cases List.mem_singleton.mp hm
  exact updateOf_reply (.success _ _ _ _ _) s'

/-- A text that does not register a known session is read in one piece. -/
theorem piece_onRead {env : Env} {text : Text}
    (hown : ∀ k b, updateOf s text = some (k, b) → ∀ row ∈ st.clients, row.id = k.about →
      row.sessionId = s)
    (hreg : ∀ t sp cp r, decode text .onSession s = .ok (.accepted t (.register sp cp r)) →
      st.getSession s = none)
    (h : Session.onRead s (.object text) (.start env st) = (.ok (), w)) :
    Piece E st w s [text] fun _ => False := by
  have he := sessionEvent hown h
  refine ⟨he.id, he.sessions s, he.holds, fun hid => he.others _ hid,
    fun x hx k hh => .inl ((he.others x hx k).mp hh), fun s' m hm k b hu => ?_,
    fun _ _ hF => hF.elim⟩
  exfalso
  cases sessionRead s text (.start env st) with
  | raised e w' eq =>
    rw [eq] at h
    cases h
  | rejected t field message reply w' decoded eq state effects isReply =>
    rw [eq] at h
    cases h
    rw [effects, World.start, List.nil_append, mem_textsTo, List.mem_singleton] at hm
    cases hm
    rw [updateOf_reply isReply] at hu
    cases hu
  | accepted t command request replies w' decoded transactionId entityId context eq state
      effects successes =>
    rw [eq] at h
    cases h
    have hsilent : textsTo s (outcome (.start env st) request command).effects = [] :=
      outcome_silent context (by
        rintro sp cp r rfl
        rw [entityId]
        exact hreg t sp cp r decoded) s
    rw [effects, World.start, List.nil_append, textsTo_append] at hm
    change m ∈ textsTo s (outcome (.start env st) request command).effects ++ _ at hm
    rw [hsilent, List.nil_append, mem_textsTo, List.mem_map] at hm
    obtain ⟨reply, hr, hm⟩ := hm
    cases hm
    obtain ⟨msg, ts, rt, d, rfl⟩ := successes _ hr
    rw [updateOf_reply (.success t msg ts rt d)] at hu
    cases hu

/-- `register_handler` marks the session. -/
theorem piece_mark (st : State) {text : Text} {t : Uuid} {sp cp : UInt64} {r : Bool} (p q : UInt16)
    (hd : decode text .onSession s = .ok (.accepted t (.register sp cp r))) (env : Env) :
    Piece E st (.start env (st.markAsRegistered s p q)) s [text] fun _ => False :=
  .silent rfl (by simp [State.markAsRegistered, World.start]) rfl rfl
    (fun m hm => by
      rw [List.mem_singleton] at hm
      subst hm
      exact updateOf_accepted hd)
    (fun _ m hm => by cases hm)

end

/-! ## Sessions to other nodes -/

/-- A handler of session `g` whose peer tells of clients in `E`. -/
structure Aside (E : Uuid → Bool) (g : Uuid) (st : State) (w : World) : Prop where
  id : w.state.id = st.id
  sessions : ∀ x ≠ g, st.sessions.hasKey x = true → w.state.sessions.hasKey x = true
  rows : ∀ x ≠ g, ∀ k, E k.about = false → (w.state.Holds x k ↔ st.Holds x k)
  kept : ∀ x ≠ g, ∀ k, w.state.Holds x k → st.Holds x k
  added : ∀ k, w.state.Holds g k → st.Holds g k ∨ E k.about = true
  silent : ∀ x ≠ g, textsTo x w.effects = []

section

variable {E : Uuid → Bool} {g : Uuid} {st : State} {w : World}

/-- A handler that changes no row. -/
theorem Aside.same (hid : w.state.id = st.id)
    (hs : ∀ x ≠ g, st.sessions.hasKey x = true → w.state.sessions.hasKey x = true)
    (hc : w.state.clients = st.clients) (hsub : w.state.subscriptions = st.subscriptions)
    (ht : ∀ x ≠ g, textsTo x w.effects = []) : Aside E g st w where
  id := hid
  sessions := hs
  rows _ _ _ _ := holds_congr hc hsub
  kept _ _ _ := (holds_congr hc hsub).mp
  added _ hh := .inl ((holds_congr hc hsub).mp hh)
  silent := ht

/-- Where the third node's clients have no row, the handler is a piece of the session `s`. -/
theorem Aside.piece (h : Aside E g st w) {s : Uuid} (hs : s ≠ g) (hid : st.id ≠ g)
    (hown : ∀ k, E k.about = true → ¬ st.Holds st.id k ∧ ¬ st.Holds s k) :
    Piece E st w s [] fun _ => False := by
  have hsame : ∀ x ≠ g, (∀ k, E k.about = true → ¬ st.Holds x k) → ∀ k,
      (w.state.Holds x k ↔ st.Holds x k) := by
    intro x hx hnone k
    cases hE : E k.about with
    | false => exact h.rows x hx k hE
    | true => exact ⟨h.kept x hx k, fun hh => absurd hh (hnone k hE)⟩
  refine ⟨h.id, h.sessions s hs, hsame s hs fun k hE => (hown k hE).2,
    fun _ => hsame _ hid fun k hE => (hown k hE).1, fun x _ k hh => ?_,
    fun s' m hm => ?_, fun _ _ hF => hF.elim⟩
  · by_cases hx : x = g
    · subst hx
      exact h.added k hh
    · exact .inl (h.kept x hx k hh)
  · rw [h.silent s hs] at hm
    cases hm

theorem textsTo_session_of_ne {x : Uuid} (hx : x ≠ g) (text : Text) :
    textsTo x [.session g text] = [] := by
  simp [textsTo, Ne.symm hx]

theorem textsTo_eq_nil {x : Uuid} {es : List Effect}
    (h : ∀ text, Effect.session x text ∉ es) : textsTo x es = [] :=
  List.eq_nil_iff_forall_not_mem.mpr fun text ht => h text (mem_textsTo.mp ht)

/-- `sync` sends on its session. -/
theorem textsTo_syncTexts_of_ne {x : Uuid} (hx : x ≠ g) (rnd : Nat → Uuid) (i : Nat) (st : State)
    (r : Bool) : textsTo x (syncTexts rnd i st g r) = [] := by
  refine textsTo_eq_nil fun text he => ?_
  rw [syncTexts, List.mem_append, List.mem_append] at he
  rcases he with he | he | he
  all_goals
    obtain ⟨t, row, -, heq⟩ := mem_announced he
    cases heq
    exact hx rfl

/-- A peer's command sends on its own session. -/
theorem outcome_textsTo_of_ne {w : World} {request : Request} {command : Command}
    (hctx : request.context = .onSession) {x : Uuid} (hx : x ≠ request.entityId) :
    textsTo x (outcome w request command).effects = [] := by
  by_cases h : ∀ sp cp r, command = .register sp cp r →
      w.state.getSession request.entityId = none
  · exact outcome_silent hctx h x
  · push Not at h
    obtain ⟨sp, cp, r, rfl, hs⟩ := h
    obtain ⟨session, hs⟩ := Option.ne_none_iff_exists'.mp hs
    have hid : session.id = request.entityId := (Table.find?_eq_some.mp hs).2
    simp only [outcome, registerOutcome, hs]
    rw [hid]
    exact textsTo_syncTexts_of_ne hx _ _ _ _

/-- A command changes rows about one client. -/
theorem outcome_holds_of_ne {w : World} {request : Request} {command : Command} {k : Key}
    (h : ∀ u, command.update = some u → k.about ≠ u.1.about) (x : Uuid) :
    (outcome w request command).state.Holds x k ↔ w.state.Holds x k := by
  cases command with
  | join c =>
    cases k with
    | subscription d ch => simp [outcome, State.Holds]
    | client d =>
      have hd : d ≠ c := h _ rfl
      simp [outcome, State.Holds, State.mem_addClient, hd]
  | leave c =>
    have hk : Key.client c ≠ k := fun hk => h _ rfl (by rw [← hk])
    exact holds_removeClient.trans (by rw [if_neg hk])
  | subscribe c ch =>
    cases k with
    | client d => simp [outcome, State.Holds]
    | subscription d ch' =>
      have hd : d ≠ c := h _ rfl
      simp [outcome, State.Holds, State.mem_subscribe, hd]
  | unsubscribe c ch =>
    cases k with
    | client d => simp [outcome, State.Holds]
    | subscription d ch' =>
      have hd : d ≠ c := h _ rfl
      simp [outcome, State.Holds, State.mem_unsubscribe, hd]
  | send | register | session | ping | ack | noEffect | isSubscribed | broadcast | publish =>
    exact outcome_holds_idle w request rfl x k

/-- A peer's command adds no row to another owner. -/
theorem outcome_holds_kept {w : World} {request : Request} {command : Command}
    (hctx : request.context = .onSession) {x : Uuid} (hx : x ≠ request.entityId) {k : Key}
    (hh : (outcome w request command).state.Holds x k) : w.state.Holds x k := by
  by_cases he : command.Evicts request.entityId w.state
  · cases command with
    | leave c =>
      rw [show (outcome w request (.leave c)).state = (w.state.removeClient c).1 from rfl,
        holds_removeClient] at hh
      split at hh
      · cases hh
      · exact hh
    | _ => exact he.elim
  · exact ((outcome_keeps w request hctx command he).holds hx k).mp hh

theorem aside_read {frame : Frame} {env : Env}
    (ht : Third.Tells E (.read g frame))
    (h : Session.onRead g frame (.start env st) = (.ok (), w)) : Aside E g st w := by
  cases frame with
  | other =>
    cases h
    exact .same rfl (fun _ _ => id) rfl rfl fun x hx => textsTo_session_of_ne hx _
  | object text =>
    cases sessionRead g text (.start env st) with
    | raised e w' eq =>
      rw [eq] at h
      cases h
    | rejected t field message reply w' decoded eq state effects isReply =>
      rw [eq] at h
      cases h
      have hst : w.state = st := state
      refine .same (by rw [hst]) (by simp [hst]) (by rw [hst]) (by rw [hst]) fun x hx => ?_
      rw [effects]
      exact textsTo_session_of_ne hx reply
    | accepted t command request replies w' decoded transactionId entityId context eq state
        effects successes =>
      rw [eq] at h
      cases h
      subst entityId
      have hup : ∀ u, command.update = some u → E u.1.about = true := by
        intro u hu
        have ht : (updateOf request.entityId text).all (fun u => E u.1.about) = true := ht
        rw [updateOf_accepted decoded, hu] at ht
        exact ht
      refine ⟨by rw [state, outcome_id]; rfl, fun x _ hk => ?_, fun x _ k hE => ?_,
        fun x hx k hh => ?_, fun k hh => ?_, fun x hx => ?_⟩
      · rw [state]
        exact outcome_hasKey hk
      · rw [state]
        refine outcome_holds_of_ne (fun u hu hk => ?_) x
        rw [hk, hup u hu] at hE
        cases hE
      · rw [state] at hh
        exact outcome_holds_kept (w := .start env st) context hx hh
      · rw [state] at hh
        by_cases hu : ∀ u, command.update = some u → k.about ≠ u.1.about
        · exact .inl ((outcome_holds_of_ne hu _).mp hh)
        · push Not at hu
          obtain ⟨u, hu, hk⟩ := hu
          exact .inr (by rw [hk, hup u hu])
      · rw [effects, textsTo_append, textsTo_append, outcome_textsTo_of_ne context hx]
        refine List.append_eq_nil_iff.mpr ⟨rfl, textsTo_eq_nil fun text he => ?_⟩
        obtain ⟨reply, -, heq⟩ := List.mem_map.mp he
        cases heq
        exact hx rfl

/-- **A handler of a session to a third node.** -/
theorem aside_code {h : Third} {env : Env} (ht : h.Tells E)
    (hw : h.code (.start env st) = (.ok (), w)) : Aside E h.id st w := by
  cases h with
  | enter session =>
    cases hw
    refine .same rfl (fun x _ hx => ?_) rfl rfl fun _ _ => rfl
    obtain ⟨y, hy, hid⟩ := Table.hasKey_iff.mp hx
    exact Table.hasKey_iff.mpr ⟨y, Table.mem_insert.mpr (.inl hy), hid⟩
  | accept s context host =>
    cases context with
    | accepting =>
      cases hw
      exact .same rfl (by simp [State.setHost, World.start]) rfl rfl fun _ _ => rfl
    | remote =>
      cases hw
      exact .same rfl (by simp [State.setHost, State.setRegistered, World.start]) rfl rfl
        fun x hx => textsTo_session_of_ne hx _
  | read s frame => exact aside_read ht hw
  | remove s =>
    cases hw
    refine .same rfl (fun x hx hk => ?_) rfl rfl fun _ _ => rfl
    exact (Table.hasKey_keep_of_ne hx).trans hk
  | destroy s =>
    cases hw
    have hkeep : ∀ x ≠ s, ∀ k, ((st.removeStateOfSession s).Holds x k ↔ st.Holds x k) := by
      intro x hx k
      cases k <;> simp [State.Holds, State.removeStateOfSession, hx]
    refine ⟨rfl, fun _ _ => id, fun x hx k _ => hkeep x hx k, fun x hx k => (hkeep x hx k).mp,
      fun k hh => ?_, fun _ _ => rfl⟩
    cases k <;> simp [State.Holds, State.removeStateOfSession, Third.id, World.withState,
      World.start] at hh

end

end Aewt
