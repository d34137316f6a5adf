import AewtState.Dialling

/-!
# The same session message twice

`session_handler` looks for a session with the host string and the port numbers of the message.
What it stores is not that: the ports are narrowed to 16 bits, and `on_accept` writes the address
of the remote endpoint as the host.

* `Dialling.Event` — what can happen between the two messages: the actions of `Dialling`, and
  the handshakes of the other sessions.
* `Evolves` — what a handler does to the entry of one session in the map.
* `Tracks`, `Opened` — the entry has the host that the session object has, which is the address
  once the handshake is done.

Principal result: `repeated_iff` — the second message is without effect exactly when the address
is the host string and the session holds the numbers of the message, or another session has
both.
-/

set_option autoImplicit false

namespace Aewt

/-! ## Handling the message -/

/-- The message is answered "no effect", and no session is made or entered. -/
def NoEffect (data : Object) (s : Uuid) (w : World) : Prop :=
  ∃ response w', kernel data .onSession s w = (.ok response, w') ∧
    response.data.find? "message" = some (.string "no effect") ∧
    w'.state.sessions = w.state.sessions ∧ dials w'.effects = dials w.effects

/-- The session holds both numbers. -/
def Session.HoldsPorts (x : Session) (sessionsPort clientsPort : UInt64) : Prop :=
  x.sessionsPort.toUInt64 = sessionsPort ∧ x.clientsPort.toUInt64 = clientsPort

theorem isKnown_iff {st : State} {host : String} {sp cp : UInt64} :
    isKnown st host sp cp = true ↔ ∃ x ∈ st.sessions, x.host = host ∧ x.HoldsPorts sp cp := by
  simp [isKnown, State.getSessions, Table.mem_def, Session.HoldsPorts]

/-- A `session` message is without effect when such a session is known. -/
theorem noEffect_iff {data : Object} {s t : Uuid} {host : String} {sp cp : UInt64} {w : World}
    (hd : decode data .onSession s = .ok (.accepted t (.session host sp cp))) :
    NoEffect data s w ↔ isKnown w.state host sp cp = true := by
  constructor
  · rintro ⟨response, w', hk, hm, -, -⟩
    by_contra hknown
    have hunknown : isKnown w.state host sp cp = false := by simpa using hknown
    by_cases hr : w.env.resolves host sp = true
    · obtain ⟨v, runtime, hv, -⟩ := kernel_accepted w data .onSession s hd (by
        rintro host' sp' cp' he
        cases he
        exact hr)
      have hreply : (outcome w (requestOf w data .onSession s t) (.session host sp cp)).reply =
          some ("ok", []) := by
        simp only [outcome, sessionOutcome, if_neg hknown]
      rw [hreply, hk] at hv
      cases hv
      have hok : Value.string "ok" = .string "no effect" := Option.some.inj hm
      injection hok with hok
      exact absurd hok (by decide)
    · rw [kernel_unresolved w data .onSession s hd (by simpa using hr) hunknown] at hk
      cases hk
  · intro hknown
    obtain ⟨v, runtime, hv, hs, he, -⟩ := kernel_known w data .onSession s hd hknown
    exact ⟨_, v, hv, rfl, by rw [hs], by rw [he]⟩

theorem toUInt16_holds {n : UInt64} : n.toUInt16.toUInt64 = n ↔ n.toNat < 2 ^ 16 := by
  rw [← UInt64.toNat_inj, UInt16.toNat_toUInt64, UInt64.toNat_toUInt16]
  omega

/-! ## One entry of the map -/

/-- The entry `s` keeps its host and, unless `r`, its ports. -/
def Evolves (s : Uuid) (r : Prop) (st st' : State) : Prop :=
  ∀ x ∈ st'.sessions, x.id = s → ∃ y ∈ st.sessions, y.id = s ∧ x.host = y.host ∧
    (¬ r → x.sessionsPort = y.sessionsPort ∧ x.clientsPort = y.clientsPort)

/-- The frame is a `register` message on the session `s`. -/
def Frame.Registers (s : Uuid) (frame : Frame) : Prop :=
  ∃ data t sp cp registered, frame = .object data ∧
    decode data .onSession s = .ok (.accepted t (.register sp cp registered))

section

variable {s : Uuid} {r : Prop} {st st' : State}

theorem Evolves.of_mem (h : ∀ x ∈ st'.sessions, x.id = s → x ∈ st.sessions) :
    Evolves s r st st' :=
  fun x hx hid => ⟨x, h x hx hid, hid, rfl, fun _ => ⟨rfl, rfl⟩⟩

theorem Evolves.of_sessions (h : st'.sessions = st.sessions) : Evolves s r st st' :=
  .of_mem fun _ hx _ => h ▸ hx

theorem evolves_addSession {session : Session} (h : session.id ≠ s) :
    Evolves s r st (st.addSession session).1 :=
  .of_mem fun x hx hid => by
    rcases Table.mem_insert.mp hx with hx | ⟨rfl, -⟩
    · exact hx
    · exact absurd hid h

theorem evolves_removeSession (u : Uuid) : Evolves s r st (st.removeSession u).1 :=
  .of_mem fun _ hx _ => (Table.mem_keep.mp hx).1

theorem evolves_setHost {u : Uuid} (h : u ≠ s) (host : String) :
    Evolves s r st (st.setHost u host) :=
  .of_mem fun _ hx hid => (State.mem_setHost_of_ne (hid ▸ h.symm)).mp hx

theorem evolves_markAsRegistered (u : Uuid) (p q : UInt16) (hr : u = s → r) :
    Evolves s r st (st.markAsRegistered u p q) := by
  intro x hx hid
  obtain ⟨y, hy, hxy⟩ := List.mem_map.mp hx
  split at hxy
  · rename_i hu
    subst hxy
    exact ⟨y, hy, hid, rfl, fun hn => absurd (hr (hu.symm.trans hid)) hn⟩
  · subst hxy
    exact ⟨y, hy, hid, rfl, fun _ => ⟨rfl, rfl⟩⟩

/-- Only a registration of the session itself changes its entry. -/
theorem evolves_outcome {w : World} {request : Request} {command : Command}
    (hd : s ∉ dials (outcome w request command).effects)
    (hr : ∀ sp cp registered, command = .register sp cp registered → request.entityId = s → r) :
    Evolves s r w.state (outcome w request command).state := by
  cases command with
  | send f target payload => exact .of_sessions (by simp [outcome])
  | register sp cp registered =>
    simp only [outcome, registerOutcome_state]
    exact evolves_markAsRegistered _ _ _ (hr sp cp registered rfl)
  | session host sp cp =>
    simp only [outcome, sessionOutcome] at hd ⊢
    split at hd
    · rename_i hk
      rw [if_pos hk]
      exact .of_sessions rfl
    · rename_i hk
      rw [if_neg hk]
      refine evolves_addSession ?_
      rintro rfl
      exact hd (by simp [dials, dialled])
  | unsubscribe c channel => exact .of_sessions (by simp [outcome])
  | _ => exact .of_sessions rfl

theorem evolves_onRead {u : Uuid} {frame : Frame} {w w' : World}
    (h : Session.onRead u frame w = (.ok (), w')) (hd : s ∉ dials w'.effects)
    (hr : u = s → frame.Registers s → r) : Evolves s r w.state w'.state := by
  rcases Session.onRead_state h with hst | ⟨data, t, command, request, rfl, hdec, -, rfl, hst, he⟩
  · rw [hst]
    exact .of_sessions rfl
  · rw [hst]
    refine evolves_outcome (fun hm => hd (List.filterMap_subset _ he hm)) ?_
    rintro sp cp registered rfl hid
    exact hr hid ⟨data, t, sp, cp, registered, rfl, hid ▸ hdec⟩

end

/-! ## Between the two messages -/

namespace Dialling

/-- The handler has connected for a message with these ports. -/
def connected (st : State) (id : Uuid) (sessionsPort clientsPort : UInt64) : Dialling :=
  ⟨st, dialled id sessionsPort clientsPort, .connected, .idle⟩

inductive Event where
  | action (a : Action)
  /-- `session::on_accept` of another session. -/
  | otherOpened (u : Uuid) (context : SessionContext) (host : String) (env : Env)

def stepEvent (X : Dialling) : Event → Option Dialling
  | .action a => X.step a
  | .otherOpened u context host env =>
    if u = X.session.id then none else X.handle env (Session.onAccept u context host)

/-- The session `s` is sent a `register` message. -/
def Event.Registers (s : Uuid) : Event → Prop
  | .action (.read frame _) => frame.Registers s
  | .action (.otherRead u frame _) => u = s ∧ frame.Registers s
  | _ => False

/-- Without anything in between, the two steps of the handler are what it does in one. -/
theorem exec_connected {w : World} {host : String} {sp cp : UInt64}
    (h : isKnown w.state host sp cp = false) :
    Run.exec stepEvent (connected w.state (w.env.random w.drawn) sp cp)
        [.action .run, .action .enter] =
      some ⟨(sessionOutcome w host sp cp).state, dialled (w.env.random w.drawn) sp cp, .entered,
        .handshake⟩ := by
  have hs : (sessionOutcome w host sp cp).state =
      (w.state.addSession (dialled (w.env.random w.drawn) sp cp)).1 := by
    rw [sessionOutcome, if_neg (by simp [h])]
  rw [hs]
  rfl

/-- What an event does to the session object and its entry. -/
inductive Traced (X Y : Dialling) (r : Prop) : Prop where
  | ran (connected : X.handler = .connected) (handler : Y.handler = .running)
    (phase : Y.phase = .handshake) (session : Y.session = X.session)
    (state : Y.state = X.state)
  | entered (handler : Y.handler = .entered) (phase : Y.phase = X.phase)
    (session : Y.session = X.session) (state : Y.state = (X.state.addSession X.session).1)
  | opened (address : String) (handshake : X.phase = .handshake) (handler : Y.handler = X.handler)
    (phase : Y.phase = .reading) (session : Y.session = { X.session with host := address })
    (sessions : Y.state.sessions = (X.state.setHost X.session.id address).sessions)
  | quiet (handler : Y.handler = X.handler)
    (phase : Y.phase = X.phase ∨ (X.phase ≠ .idle ∧ Y.phase = .ended))
    (session : Y.session = X.session) (state : Evolves X.session.id r X.state Y.state)

section

variable {X Y : Dialling} {env : Env} {x : M Unit} {r : Prop}

theorem traced_handle (hY : X.handle env x = some Y)
    (hx : ∀ w, x (.start env X.state) = (.ok (), w) → X.session.id ∉ dials w.effects →
      Evolves X.session.id r X.state w.state) : Traced X Y r := by
  obtain ⟨w, hw, hd, rfl⟩ := handle_eq_some.mp hY
  exact .quiet rfl (.inl rfl) rfl (hx w hw hd)

/-- The session leaves the map with an error. -/
theorem traced_leave (hp : X.phase ≠ .idle)
    (hY : (X.handle env (Session.leave X.session.id)).map (fun Y => { Y with phase := .ended }) =
      some Y) : Traced X Y r := by
  obtain ⟨Z, hZ, rfl⟩ := Option.map_eq_some_iff.mp hY
  obtain ⟨w, hw, hd, rfl⟩ := handle_eq_some.mp hZ
  cases hw
  exact .quiet rfl (.inr ⟨hp, rfl⟩) rfl (evolves_removeSession _)

theorem traced_step {a : Action} (hr : Event.Registers X.session.id (.action a) → r)
    (h : X.step a = some Y) : Traced X Y r := by
  cases a with
  | run =>
    simp only [step] at h
    split at h
    · rename_i hc
      cases h
      exact .ran hc rfl rfl rfl rfl
    · cases h
  | enter =>
    simp only [step] at h
    split at h
    · cases h
      exact .entered rfl rfl rfl rfl
    · cases h
  | refused env =>
    simp only [step] at h
    split at h
    · rename_i hp
      exact traced_leave (by simp [hp]) h
    · cases h
  | accepted address env =>
    simp only [step] at h
    split at h
    · rename_i hp
      obtain ⟨Z, hZ, rfl⟩ := Option.map_eq_some_iff.mp h
      obtain ⟨w, hw, hd, rfl⟩ := handle_eq_some.mp hZ
      exact .opened address hp rfl rfl rfl (onAccept_sessions hw)
    · cases h
  | read frame env =>
    simp only [step] at h
    split at h
    · exact traced_handle h fun w hw hd => evolves_onRead hw hd fun _ => hr
    · cases h
  | closed env =>
    simp only [step] at h
    split at h
    · rename_i hp
      exact traced_leave (by simp [hp]) h
    · cases h
  | otherRead u frame env =>
    exact traced_handle h fun w hw hd => evolves_onRead hw hd fun hu hf => hr ⟨hu, hf⟩
  | otherEntered other =>
    simp only [step] at h
    split at h
    · cases h
    · rename_i hne
      cases h
      exact .quiet rfl (.inl rfl) rfl (evolves_addSession hne)
  | otherLeft u env =>
    simp only [step] at h
    split at h
    · cases h
    · refine traced_handle h fun w hw _ => ?_
      cases hw
      exact evolves_removeSession u
  | clientRead c frame env =>
    exact traced_handle h fun w hw _ => .of_sessions (clientRead_sessions hw)
  | clientAccepted c env =>
    refine traced_handle h fun w hw _ => ?_
    rw [clientListenerOnAccept_eq] at hw
    cases hw
    exact .of_sessions rfl
  | clientLeft c env =>
    refine traced_handle h fun w hw _ => ?_
    rw [Client.leave_eq] at hw
    cases hw
    exact .of_sessions rfl

/-- **What an event does**, one case for each way the session object is concerned. -/
theorem traced_event {e : Event} (hr : e.Registers X.session.id → r)
    (h : X.stepEvent e = some Y) : Traced X Y r := by
  cases e with
  | action a => exact traced_step hr h
  | otherOpened u context host env =>
    simp only [stepEvent] at h
    split at h
    · cases h
    · rename_i hne
      refine traced_handle h fun w hw _ => ?_
      have hkeep : Evolves X.session.id r X.state (X.state.setHost u host) :=
        evolves_setHost hne host
      intro x hx
      rw [onAccept_sessions hw] at hx
      exact hkeep x hx

/-! ## The entry of the session -/

/-- The object is `x₀` but for the host, and an entry of it in the map has its host and, unless
`r`, the ports of `x₀`. -/
structure Tracks (x₀ : Session) (r : Prop) (X : Dialling) : Prop where
  session : X.session = { x₀ with host := X.session.host }
  host : ∀ x ∈ X.state.sessions, x.id = X.session.id → x.host = X.session.host
  ports : ¬ r → ∀ x ∈ X.state.sessions, x.id = X.session.id →
    x.sessionsPort = x₀.sessionsPort ∧ x.clientsPort = x₀.clientsPort
  started : X.handler = .connected → X.phase = .idle

/-- The handshake is done and wrote `address`. -/
structure Opened (address : String) (X : Dialling) : Prop where
  host : X.session.host = address
  phase : X.phase ≠ .handshake
  handler : X.handler ≠ .connected

variable {x₀ : Session} {address : String}

theorem tracks_connected {st : State} {id : Uuid} (h : st.sessions.hasKey id = false)
    (sp cp : UInt64) : (connected st id sp cp).Tracks (dialled id sp cp) r where
  session := rfl
  host x hx hid := absurd hid (Table.hasKey_eq_false.mp h x hx)
  ports _ x hx hid := absurd hid (Table.hasKey_eq_false.mp h x hx)
  started _ := rfl

theorem Tracks.id (h : X.Tracks x₀ r) : X.session.id = x₀.id := by
  rw [h.session]

theorem Tracks.of_traced (h : X.Tracks x₀ r) (ht : Traced X Y r) : Y.Tracks x₀ r := by
  cases ht with
  | ran connected handler phase session state =>
    refine ⟨?_, ?_, ?_, ?_⟩
    · rw [session]
      exact h.session
    · rw [session, state]
      exact h.host
    · rw [session, state]
      exact h.ports
    · simp [handler]
  | entered handler phase session state =>
    refine ⟨?_, ?_, fun hn => ?_, ?_⟩
    · rw [session]
      exact h.session
    · rw [session, state]
      intro x hx hid
      rcases Table.mem_insert.mp hx with hx | ⟨rfl, -⟩
      · exact h.host x hx hid
      · rfl
    · rw [session, state]
      intro x hx hid
      rcases Table.mem_insert.mp hx with hx | ⟨rfl, -⟩
      · exact h.ports hn x hx hid
      · rw [h.session]
        exact ⟨rfl, rfl⟩
    · simp [handler]
  | opened address handshake handler phase session sessions =>
    -- the entry is the one from before with the address as its host
    have hrow : ∀ x ∈ Y.state.sessions, x.id = X.session.id →
        ∃ y ∈ X.state.sessions, y.id = X.session.id ∧ { y with host := address } = x := by
      rw [sessions]
      intro x hx hid
      obtain ⟨y, hy, hxy⟩ := List.mem_map.mp hx
      split at hxy
      · rename_i hu
        exact ⟨y, hy, hu, hxy⟩
      · rename_i hu
        subst hxy
        exact absurd hid hu
    refine ⟨?_, ?_, fun hn => ?_, fun hc => ?_⟩
    · rw [session, h.session]
    · rw [session]
      intro x hx hid
      obtain ⟨y, hy, hyid, rfl⟩ := hrow x hx hid
      rfl
    · rw [session]
      intro x hx hid
      obtain ⟨y, hy, hyid, rfl⟩ := hrow x hx hid
      exact h.ports hn y hy hyid
    · have hidle := h.started (handler.symm.trans hc)
      rw [handshake] at hidle
      cases hidle
  | quiet handler phase session state =>
    refine ⟨?_, ?_, fun hn => ?_, fun hc => ?_⟩
    · rw [session]
      exact h.session
    · rw [session]
      intro x hx hid
      obtain ⟨y, hy, hyid, hhost, -⟩ := state x hx hid
      rw [hhost]
      exact h.host y hy hyid
    · rw [session]
      intro x hx hid
      obtain ⟨y, hy, hyid, -, hports⟩ := state x hx hid
      rw [(hports hn).1, (hports hn).2]
      exact h.ports hn y hy hyid
    · have hidle := h.started (handler.symm.trans hc)
      rcases phase with hp | ⟨hp, -⟩
      · exact hp.trans hidle
      · exact absurd hidle hp

/-- The handshake is not done again. -/
theorem Opened.of_traced (h : X.Opened address) (ht : Traced X Y r) : Y.Opened address := by
  cases ht with
  | ran connected => exact absurd connected h.handler
  | entered handler phase session state =>
    exact ⟨by rw [session]; exact h.host, by rw [phase]; exact h.phase, by simp [handler]⟩
  | opened address' handshake => exact absurd handshake h.phase
  | quiet handler phase session state =>
    refine ⟨by rw [session]; exact h.host, ?_, by rw [handler]; exact h.handler⟩
    rcases phase with hp | ⟨-, hp⟩
    · rw [hp]
      exact h.phase
    · simp [hp]

theorem Tracks.accepted (h : X.Tracks x₀ r)
    (hY : X.stepEvent (.action (.accepted address env)) = some Y) : Y.Opened address := by
  simp only [stepEvent, step] at hY
  split at hY
  · rename_i hp
    obtain ⟨Z, hZ, rfl⟩ := Option.map_eq_some_iff.mp hY
    obtain ⟨w, hw, hd, rfl⟩ := handle_eq_some.mp hZ
    refine ⟨rfl, by simp, fun hc => ?_⟩
    have hidle := h.started hc
    rw [hp] at hidle
    cases hidle
  · cases hY

/-! ## The second message -/

/-- A run after which `r` holds if the session was sent a `register` message. -/
theorem tracks_exec {es : List Event} (hr : ∀ e ∈ es, e.Registers x₀.id → r)
    (h : X.Tracks x₀ r) (hY : Run.exec stepEvent X es = some Y) : Y.Tracks x₀ r :=
  Run.exec_invariant_along (C := fun _ e => e.Registers x₀.id → r)
    (fun hI hC hs => hI.of_traced (traced_event (by rwa [hI.id]) hs)) h
    (Run.along_of_forall X hr) hY

theorem opened_exec {es : List Event} (h : X.Tracks x₀ True)
    (hY : Run.exec stepEvent X es = some Y) (he : .action (.accepted address env) ∈ es) :
    Y.Opened address := by
  obtain ⟨as, bs, rfl⟩ := List.append_of_mem he
  obtain ⟨Z, hZ, hrest⟩ := Run.exec_append.mp hY
  obtain ⟨Z', hZ', hrest⟩ := Run.exec_cons.mp hrest
  have hT : Z.Tracks x₀ True := tracks_exec (fun _ _ _ => trivial) h hZ
  exact Run.exec_invariant (I := Opened address)
    (fun hI hs => hI.of_traced (traced_event (fun _ => trivial) hs)) (hT.accepted hZ') hrest

/-- The session in the map holds both numbers. -/
def HoldsPorts (X : Dialling) (sessionsPort clientsPort : UInt64) : Prop :=
  ∃ x ∈ X.state.sessions, x.id = X.session.id ∧ x.HoldsPorts sessionsPort clientsPort

/-- Another session in the map has the host and both numbers. -/
def OtherKnown (X : Dialling) (host : String) (sessionsPort clientsPort : UInt64) : Prop :=
  ∃ x ∈ X.state.sessions, x.id ≠ X.session.id ∧ x.host = host ∧
    x.HoldsPorts sessionsPort clientsPort

/-- What is found for the host is the session, by its address, or another one. -/
theorem Opened.isKnown_iff (h : X.Opened address) (hT : X.Tracks x₀ r) {host : String}
    {sp cp : UInt64} : isKnown X.state host sp cp = true ↔
      (address = host ∧ X.HoldsPorts sp cp) ∨ X.OtherKnown host sp cp := by
  rw [Aewt.isKnown_iff]
  constructor
  · rintro ⟨x, hx, hhost, hports⟩
    by_cases hid : x.id = X.session.id
    · refine .inl ⟨?_, x, hx, hid, hports⟩
      rw [← h.host, ← hT.host x hx hid, hhost]
    · exact .inr ⟨x, hx, hid, hhost, hports⟩
  · rintro (⟨rfl, x, hx, hid, hports⟩ | ⟨x, hx, -, hhost, hports⟩)
    · exact ⟨x, hx, (hT.host x hx hid).trans h.host, hports⟩
    · exact ⟨x, hx, hhost, hports⟩

/-- The ports of the first message are those of the second one when they fit in 16 bits. -/
theorem Tracks.holdsPorts_iff {id : Uuid} {sp cp : UInt64}
    (h : X.Tracks (dialled id sp cp) False) (hmap : X.InMap) :
    X.HoldsPorts sp cp ↔ sp.toNat < 2 ^ 16 ∧ cp.toNat < 2 ^ 16 := by
  obtain ⟨x, hx, hid⟩ := Table.hasKey_iff.mp hmap
  have hwide : ∀ y ∈ X.state.sessions, y.id = X.session.id →
      (y.HoldsPorts sp cp ↔ sp.toNat < 2 ^ 16 ∧ cp.toNat < 2 ^ 16) := by
    intro y hy hyid
    obtain ⟨hp, hq⟩ := h.ports not_false y hy hyid
    rw [Session.HoldsPorts, hp, hq]
    exact and_congr toUInt16_holds toUInt16_holds
  constructor
  · rintro ⟨y, hy, hyid, hports⟩
    exact (hwide y hy hyid).mp hports
  · intro hfit
    exact ⟨x, hx, hid, (hwide x hx hid).mpr hfit⟩

/-- **When the second message is without effect.**  The first one connected, the handshake
wrote `address`, and the session is still in the map: then it is the session's address that has
to be the host string, and the session's ports the numbers, unless another session has them.
The ports are those of the first message until the session is sent a `register` message. -/
theorem repeated_iff {data : Object} {s t id : Uuid} {host : String} {sp cp : UInt64}
    {st : State} {es : List Event}
    (hd : decode data .onSession s = .ok (.accepted t (.session host sp cp)))
    (hnew : st.sessions.hasKey id = false)
    (hY : Run.exec stepEvent (connected st id sp cp) es = some Y)
    (haccepted : .action (.accepted address env) ∈ es) (hmap : Y.InMap) (env' : Env) :
    (NoEffect data s (.start env' Y.state) ↔
      (address = host ∧ Y.HoldsPorts sp cp) ∨ Y.OtherKnown host sp cp) ∧
    ((∀ e ∈ es, ¬ e.Registers id) →
      (Y.HoldsPorts sp cp ↔ sp.toNat < 2 ^ 16 ∧ cp.toNat < 2 ^ 16)) := by
  have hT : (connected st id sp cp).Tracks (dialled id sp cp) True := tracks_connected hnew sp cp
  have hopened := opened_exec hT hY haccepted
  constructor
  · rw [noEffect_iff hd]
    exact hopened.isKnown_iff (tracks_exec (fun _ _ _ => trivial) hT hY)
  · intro hr
    exact (tracks_exec hr (tracks_connected hnew sp cp) hY).holdsPorts_iff hmap

end

/-! ### An address and a name -/

/-- A peer reports a session at `host`. -/
def report (host : String) : Text :=
  serialize (requestObject Uuid.nil "session" (sessionParams host 11000 12000))

theorem decode_report (host : String) (s : Uuid) : decode (report host) .onSession s =
    .ok (.accepted Uuid.nil (.session host 11000 12000)) :=
  Aewt.decode_session (built_requestObject _ _ _)

/-- The handler enters the session, whose handshake then succeeds. -/
def handshake : List Event :=
  [.action .run, .action .enter, .action (.accepted "127.0.0.1" World.pair.env)]

/-- The node had nothing in its stores. -/
def alone : Dialling := connected { id := Uuid.nil } Node.peerId 11000 12000

/-- The report names the address. -/
theorem repeated_address : ∃ Y, Run.exec stepEvent alone handshake = some Y ∧ Y.InMap ∧
    NoEffect (report "127.0.0.1") Uuid.nil (.start World.pair.env Y.state) := by
  have heval : ((Run.exec stepEvent alone handshake).any fun Y => decide Y.InMap) = true := by
    decide +kernel
  simp only [Option.any_eq_true, decide_eq_true_eq] at heval
  obtain ⟨Y, hY, hmap⟩ := heval
  have h := repeated_iff (decode_report "127.0.0.1" Uuid.nil) rfl hY
    (List.mem_of_getElem? (i := 2) rfl) hmap World.pair.env
  have hports := h.2 (by simp [handshake, Event.Registers])
  exact ⟨Y, hY, hmap, h.1.mpr (.inl ⟨rfl, hports.mpr ⟨by decide, by decide⟩⟩)⟩

/-- The report names the host, and the second one is not recognised. -/
theorem not_repeated_name : ∃ Y, Run.exec stepEvent alone handshake = some Y ∧ Y.InMap ∧
    ¬ NoEffect (report "localhost") Uuid.nil (.start World.pair.env Y.state) := by
  have heval : ((Run.exec stepEvent alone handshake).any fun Y =>
      decide (Y.InMap ∧ isKnown Y.state "localhost" 11000 12000 = false)) = true := by
    decide +kernel
  simp only [Option.any_eq_true, decide_eq_true_eq] at heval
  obtain ⟨Y, hY, hmap, hunknown⟩ := heval
  refine ⟨Y, hY, hmap, fun h => ?_⟩
  have hknown := (noEffect_iff (decode_report "localhost" Uuid.nil)).mp h
  exact absurd (hunknown.symm.trans hknown) (by decide)

end Dialling

end Aewt
