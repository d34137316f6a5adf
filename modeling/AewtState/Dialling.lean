import AewtState.Lifetime

/-!
# A session that ends while it is being entered

`session_handler` starts the new session (`run(remote)`) and then enters it in the map.  From the
start on, the session's own events run on its own strand and may remove it from the map.

* `Dialling` — the node, the new session, how far the handler is and how far the session is.
* `Dialling.step` — the last two steps of the handler, the events of the session, and whatever
  else the node does.
* `EntersFirst` — an event that ends the session comes after `add_session`.

Principal result: `ended_removed_iff` — when all of them have run, the ended session has left
the map exactly when it was entered first.
-/

set_option autoImplicit false

namespace Aewt

/-! ## Which sessions are in the map -/

theorem hasKey_outcome {w : World} {request : Request} {command : Command} {s : Uuid}
    (h : s ∉ dials (outcome w request command).effects) :
    (outcome w request command).state.sessions.hasKey s = w.state.sessions.hasKey s := by
  cases command with
  | send f target payload => simp [outcome]
  | register sp cp registered => simp [outcome, State.markAsRegistered]
  | session host sp cp =>
    simp only [outcome, sessionOutcome] at h ⊢
    split at h
    · rename_i hk
      rw [if_pos hk]
    · rename_i hk
      rw [if_neg hk]
      refine Table.hasKey_insert_of_ne ?_
      rintro rfl
      exact h (by simp [dials, dialled])
  | unsubscribe c channel => simp [outcome]
  | _ => rfl

theorem hasKey_onRead {s u : Uuid} {frame : Frame} {w w' : World}
    (h : Session.onRead u frame w = (.ok (), w')) (hs : s ∉ dials w'.effects) :
    w'.state.sessions.hasKey s = w.state.sessions.hasKey s := by
  rcases Session.onRead_state h with hst | ⟨-, -, command, request, -, -, -, -, hst, he⟩
  · rw [hst]
  · rw [hst]
    exact hasKey_outcome fun hm => hs (List.filterMap_subset _ he hm)

/-- A client's request leaves the sessions alone. -/
theorem clientRead_sessions {c : Uuid} {frame : Frame} {w w' : World}
    (h : Client.onRead c frame w = (.ok (), w')) : w'.state.sessions = w.state.sessions := by
  rcases Client.onRead_state h with hs | ⟨command, request, hc, hctx, -, hs⟩
  · rw [hs]
  · rw [hs, (outcome_client hctx hc).acts.sessions]

theorem onAccept_sessions {u : Uuid} {context : SessionContext} {host : String} {w w' : World}
    (h : Session.onAccept u context host w = (.ok (), w')) :
    w'.state.sessions = (w.state.setHost u host).sessions := by
  cases context <;> cases h <;> rfl

theorem hasKey_onAccept {s u : Uuid} {context : SessionContext} {host : String} {w w' : World}
    (h : Session.onAccept u context host w = (.ok (), w')) :
    w'.state.sessions.hasKey s = w.state.sessions.hasKey s := by
  rw [onAccept_sessions h]
  simp [State.setHost]

/-! ## The two strands -/

/-- How far `session_handler` is: connected, started the session, entered it in the map. -/
inductive Progress where
  | connected
  | running
  | entered
  deriving DecidableEq

/-- How far the new session is. -/
inductive Phase where
  | idle
  | handshake
  | reading
  | ended
  deriving DecidableEq

structure Dialling where
  state : State
  /-- The session object. -/
  session : Session
  handler : Progress
  phase : Phase

namespace Dialling

inductive Action where
  /-- `run(remote)`. -/
  | run
  /-- `add_session`. -/
  | enter
  /-- `session::on_accept` with an error. -/
  | refused (env : Env)
  /-- `session::on_accept`. -/
  | accepted (host : String) (env : Env)
  /-- `session::on_read`. -/
  | read (frame : Frame) (env : Env)
  /-- `session::on_read` with an error. -/
  | closed (env : Env)
  /-- Another session of the node reads a frame, comes or goes. -/
  | otherRead (u : Uuid) (frame : Frame) (env : Env)
  | otherEntered (other : Session)
  | otherLeft (u : Uuid) (env : Env)
  /-- A client of the node makes a request, comes or goes. -/
  | clientRead (c : Uuid) (frame : Frame) (env : Env)
  | clientAccepted (c : Uuid) (env : Env)
  | clientLeft (c : Uuid) (env : Env)

/-- Run a handler.  No session that it makes has the id of this one. -/
def handle (X : Dialling) (env : Env) (x : M Unit) : Option Dialling :=
  match x (.start env X.state) with
  | (.ok (), w) =>
    if X.session.id ∈ dials w.effects then none else some { X with state := w.state }
  | (.error _, _) => none

def step (X : Dialling) : Action → Option Dialling
  | .run =>
    if X.handler = .connected then some { X with handler := .running, phase := .handshake }
    else none
  | .enter =>
    if X.handler = .running then
      some { X with handler := .entered, state := (X.state.addSession X.session).1 }
    else none
  | .refused env =>
    if X.phase = .handshake then
      (X.handle env (Session.leave X.session.id)).map fun Y => { Y with phase := .ended }
    else none
  | .accepted host env =>
    if X.phase = .handshake then
      (X.handle env (Session.onAccept X.session.id .remote host)).map fun Y =>
        { Y with phase := .reading, session := { X.session with host := host } }
    else none
  | .read frame env =>
    if X.phase = .reading then X.handle env (Session.onRead X.session.id frame) else none
  | .closed env =>
    if X.phase = .reading then
      (X.handle env (Session.leave X.session.id)).map fun Y => { Y with phase := .ended }
    else none
  | .otherRead u frame env => X.handle env (Session.onRead u frame)
  | .otherEntered other =>
    if other.id = X.session.id then none
    else some { X with state := (X.state.addSession other).1 }
  | .otherLeft u env => if u = X.session.id then none else X.handle env (Session.leave u)
  | .clientRead c frame env => X.handle env (Client.onRead c frame)
  | .clientAccepted c env => X.handle env (clientListenerOnAccept c)
  | .clientLeft c env => X.handle env (Client.leave c)

/-- `session_handler` has connected and made the session object. -/
structure Initial (X : Dialling) : Prop where
  handler : X.handler = .connected
  phase : X.phase = .idle
  unknown : X.state.sessions.hasKey X.session.id = false

/-- The session is in the map. -/
def InMap (X : Dialling) : Prop := X.state.sessions.hasKey X.session.id = true

instance (X : Dialling) : Decidable X.InMap := inferInstanceAs (Decidable (_ = true))

/-- The event ends the session. -/
def Action.Ends (a : Action) : Prop :=
  match a with
  | .refused _ | .closed _ => True
  | _ => False

instance (a : Action) : Decidable a.Ends := by
  unfold Action.Ends
  split <;> infer_instance

/-- An event that ends the session comes after `add_session`. -/
def EntersFirst (X : Dialling) (a : Action) : Prop := a.Ends → X.handler = .entered

instance (X : Dialling) (a : Action) : Decidable (X.EntersFirst a) :=
  inferInstanceAs (Decidable (_ → _))

/-! ## One step -/

/-- The kinds of step. -/
inductive Stepped (X Y : Dialling) : Action → Prop where
  | ran (connected : X.handler = .connected) (handler : Y.handler = .running)
    (phase : Y.phase = .handshake) (inMap : Y.InMap ↔ X.InMap) : Stepped X Y .run
  | entered (running : X.handler = .running) (handler : Y.handler = .entered)
    (phase : Y.phase = X.phase) (inMap : Y.InMap) : Stepped X Y .enter
  | ended (a : Action) (ends : a.Ends) (alive : X.phase = .handshake ∨ X.phase = .reading)
    (handler : Y.handler = X.handler) (phase : Y.phase = .ended) (inMap : ¬ Y.InMap) :
    Stepped X Y a
  | other (a : Action) (ends : ¬ a.Ends) (handler : Y.handler = X.handler)
    (phase : Y.phase = X.phase ∨ (X.phase = .handshake ∧ Y.phase = .reading))
    (inMap : Y.InMap ↔ X.InMap) : Stepped X Y a

section

variable {X Y : Dialling} {env : Env} {x : M Unit}

theorem handle_eq_some : X.handle env x = some Y ↔
    ∃ w, x (.start env X.state) = (.ok (), w) ∧ X.session.id ∉ dials w.effects ∧
      Y = { X with state := w.state } := by
  unfold handle
  rcases x (.start env X.state) with ⟨e | u, w⟩
  · simp
  · constructor
    · intro h
      simp only at h
      split at h
      · cases h
      · rename_i hd
        cases h
        exact ⟨w, rfl, hd, rfl⟩
    · rintro ⟨w', hw, hd, rfl⟩
      cases hw
      exact if_neg hd

/-- A handler that leaves this session's entry alone. -/
theorem inMap_handle (hY : X.handle env x = some Y)
    (hx : ∀ w, x (.start env X.state) = (.ok (), w) → X.session.id ∉ dials w.effects →
      w.state.sessions.hasKey X.session.id = X.state.sessions.hasKey X.session.id) :
    Y.handler = X.handler ∧ Y.phase = X.phase ∧
      (Y.state.sessions.hasKey X.session.id = true ↔ X.InMap) ∧ Y.session = X.session := by
  obtain ⟨w, hw, hd, rfl⟩ := handle_eq_some.mp hY
  exact ⟨rfl, rfl, by simp only [InMap, hx w hw hd], rfl⟩

/-- An event that ends the session takes it out of the map. -/
theorem inMap_leave (hY : X.handle env (Session.leave X.session.id) = some Y) :
    Y.handler = X.handler ∧ ¬ Y.InMap := by
  obtain ⟨w, hw, hd, rfl⟩ := handle_eq_some.mp hY
  cases hw
  refine ⟨rfl, ?_⟩
  have hgone := Table.hasKey_keep_self X.state.sessions X.session.id
  exact fun h => absurd (hgone.symm.trans h) (by decide)

theorem step_cases {a : Action} (h : X.step a = some Y) : Stepped X Y a := by
  have hother : ∀ {env : Env} {x : M Unit} {a : Action}, ¬ a.Ends → X.handle env x = some Y →
      (∀ w, x (.start env X.state) = (.ok (), w) → X.session.id ∉ dials w.effects →
        w.state.sessions.hasKey X.session.id = X.state.sessions.hasKey X.session.id) →
      Stepped X Y a := by
    intro env x a ha hY hx
    obtain ⟨hhandler, hphase, hmap, hsession⟩ := inMap_handle hY hx
    exact .other a ha hhandler (.inl hphase) (by rwa [InMap, hsession])
  cases a with
  | run =>
    simp only [step] at h
    split at h
    · rename_i hc
      cases h
      exact .ran hc rfl rfl Iff.rfl
    · cases h
  | enter =>
    simp only [step] at h
    split at h
    · rename_i hr
      cases h
      exact .entered hr rfl rfl (Table.hasKey_insert_self X.state.sessions X.session)
    · cases h
  | refused env =>
    simp only [step] at h
    split at h
    · rename_i hp
      obtain ⟨Z, hZ, rfl⟩ := Option.map_eq_some_iff.mp h
      obtain ⟨hhandler, hmap⟩ := inMap_leave hZ
      exact .ended _ trivial (.inl hp) hhandler rfl hmap
    · cases h
  | accepted host env =>
    simp only [step] at h
    split at h
    · rename_i hp
      obtain ⟨Z, hZ, rfl⟩ := Option.map_eq_some_iff.mp h
      obtain ⟨hhandler, hphase, hmap, hsession⟩ := inMap_handle hZ fun w hw _ =>
        hasKey_onAccept hw
      exact .other _ id hhandler (.inr ⟨hp, rfl⟩) hmap
    · cases h
  | read frame env =>
    simp only [step] at h
    split at h
    · exact hother id h fun w hw hd => hasKey_onRead hw hd
    · cases h
  | closed env =>
    simp only [step] at h
    split at h
    · rename_i hp
      obtain ⟨Z, hZ, rfl⟩ := Option.map_eq_some_iff.mp h
      obtain ⟨hhandler, hmap⟩ := inMap_leave hZ
      exact .ended _ trivial (.inr hp) hhandler rfl hmap
    · cases h
  | otherRead u frame env => exact hother id h fun w hw hd => hasKey_onRead hw hd
  | otherEntered other =>
    simp only [step] at h
    split at h
    · cases h
    · rename_i hne
      cases h
      refine .other _ id rfl (.inl rfl) ?_
      have hkey := Table.hasKey_insert_of_ne (t := X.state.sessions) (Ne.symm hne)
      exact iff_of_eq (congrArg (· = true) hkey)
  | otherLeft u env =>
    simp only [step] at h
    split at h
    · cases h
    · rename_i hne
      refine hother id h fun w hw _ => ?_
      cases hw
      exact Table.hasKey_keep_of_ne (Ne.symm hne)
  | clientRead c frame env =>
    refine hother id h fun w hw _ => ?_
    rw [clientRead_sessions hw]
    rfl
  | clientAccepted c env =>
    refine hother id h fun w hw _ => ?_
    rw [clientListenerOnAccept_eq] at hw
    cases hw
    rfl
  | clientLeft c env =>
    refine hother id h fun w hw _ => ?_
    rw [Client.leave_eq] at hw
    cases hw
    rfl

/-! ## Two kinds of run -/

/-- The session is in the map from `add_session` until it ends, and never after. -/
structure Kept (X : Dialling) : Prop where
  before : X.phase ≠ .ended → (X.InMap ↔ X.handler = .entered)
  after : X.phase = .ended → X.handler = .entered ∧ ¬ X.InMap
  started : X.handler = .connected ↔ X.phase = .idle

/-- The session ended before it was entered. -/
structure Lost (X : Dialling) : Prop where
  phase : X.phase = .ended
  running : X.handler ≠ .connected
  inMap : X.InMap ↔ X.handler = .entered

theorem Initial.kept (h : X.Initial) : X.Kept where
  before _ := by simp [InMap, h.unknown, h.handler]
  after hp := by simp [h.phase] at hp
  started := by simp [h.handler, h.phase]

/-- A step in the right order keeps the right kind. -/
theorem Kept.of_step (h : X.Kept) {a : Action} (hf : X.EntersFirst a) (hY : X.step a = some Y) :
    Y.Kept := by
  cases step_cases hY with
  | ran connected handler phase inMap =>
    have hp : X.phase = .idle := h.started.mp connected
    have hb := h.before (by simp [hp])
    refine ⟨fun _ => ?_, fun hp' => by simp [phase] at hp', by simp [handler, phase]⟩
    rw [inMap, hb, connected, handler]
    simp
  | entered running handler phase inMap =>
    have hne : X.phase ≠ .ended := by
      intro hp
      have he := (h.after hp).1
      rw [running] at he
      cases he
    refine ⟨fun _ => iff_of_true inMap handler, fun hp => absurd (phase.symm.trans hp) hne, ?_⟩
    rw [handler, phase, ← h.started, running]
    simp
  | ended a ends alive handler phase inMap =>
    have he : X.handler = .entered := hf ends
    refine ⟨fun hp => absurd phase hp, fun _ => ⟨handler.trans he, inMap⟩, ?_⟩
    simp [handler, he, phase]
  | other a ends handler phase inMap =>
    rcases phase with hp | ⟨hp, hp'⟩
    · exact ⟨by rw [hp, inMap, handler]; exact h.before,
        by rw [hp, inMap, handler]; exact h.after, by rw [hp, handler]; exact h.started⟩
    · have hs := h.started
      have hb := h.before (by simp [hp])
      refine ⟨fun _ => by rw [inMap, handler]; exact hb, fun he => by simp [hp'] at he, ?_⟩
      rw [handler, hs, hp, hp']
      simp

/-- A step in the wrong order loses the session. -/
theorem Kept.lost (h : X.Kept) {a : Action} (hf : ¬ X.EntersFirst a) (hY : X.step a = some Y) :
    Y.Lost := by
  simp only [EntersFirst, Classical.not_imp] at hf
  obtain ⟨ha, hne⟩ := hf
  cases step_cases hY with
  | ran => exact absurd ha id
  | entered => exact absurd ha id
  | ended a ends alive handler phase inMap =>
    refine ⟨phase, ?_, by rw [handler]; exact iff_of_false inMap hne⟩
    rw [handler]
    intro hc
    have hp := h.started.mp hc
    rcases alive with hp' | hp' <;> rw [hp] at hp' <;> cases hp'
  | other a ends => exact absurd ha ends

theorem Lost.of_step (h : X.Lost) {a : Action} (hY : X.step a = some Y) : Y.Lost := by
  cases step_cases hY with
  | ran connected => exact absurd connected h.running
  | entered running handler phase inMap =>
    exact ⟨phase.trans h.phase, by simp [handler], iff_of_true inMap handler⟩
  | ended a ends alive =>
    rcases alive with hp | hp <;> rw [h.phase] at hp <;> cases hp
  | other a ends handler phase inMap =>
    rcases phase with hp | ⟨hp, -⟩
    · exact ⟨hp.trans h.phase, handler ▸ h.running, by rw [inMap, handler]; exact h.inMap⟩
    · rw [h.phase] at hp
      cases hp

/-- Every run is of one of the two kinds. -/
theorem kept_or_lost : ∀ {as : List Action} {X Y : Dialling}, X.Kept →
    Run.exec step X as = some Y →
    Run.Along step EntersFirst X as ∧ Y.Kept ∨ ¬ Run.Along step EntersFirst X as ∧ Y.Lost
  | [], X, Y, h, hY => by
    cases hY
    exact .inl ⟨trivial, h⟩
  | a :: as, X, Y, h, hY => by
    obtain ⟨Z, hZ, hY⟩ := Run.exec_cons.mp hY
    by_cases hf : X.EntersFirst a
    · rcases kept_or_lost (h.of_step hf hZ) hY with ⟨hal, hk⟩ | ⟨hal, hl⟩
      · exact .inl ⟨Run.along_cons hZ hf hal, hk⟩
      · exact .inr ⟨fun hc => hal (hc.2 Z hZ), hl⟩
    · exact .inr ⟨fun hc => hf hc.1,
        Run.exec_invariant (fun hl hs => Lost.of_step hl hs) (h.lost hf hZ) hY⟩

/-- **When the handler has entered the session and the session has ended, it has left the map
exactly when it was entered before it ended.** -/
theorem ended_removed_iff {as : List Action} (h : X.Initial) (hY : Run.exec step X as = some Y)
    (hentered : Y.handler = .entered) (hended : Y.phase = .ended) :
    ¬ Y.InMap ↔ Run.Along step EntersFirst X as := by
  rcases kept_or_lost h.kept hY with ⟨hal, hk⟩ | ⟨hal, hl⟩
  · exact iff_of_true (hk.after hended).2 hal
  · exact iff_of_false (not_not_intro (hl.inMap.mpr hentered)) hal

end

/-! ## Both orders -/

/-- A node that is about to start the session `peerId`. -/
def dialling : Dialling :=
  ⟨{ id := Uuid.nil }, { id := Node.peerId, sessionsPort := 11000, clientsPort := 12000 },
    .connected, .idle⟩

theorem initial_dialling : dialling.Initial := ⟨rfl, rfl, rfl⟩

/-- The handshake fails after the session was entered. -/
theorem ended_removed_refused : ∃ Y,
    Run.exec step dialling [.run, .enter, .refused World.pair.env] = some Y ∧
    Y.handler = .entered ∧ Y.phase = .ended ∧ ¬ Y.InMap := by
  have heval : ((Run.exec step dialling [.run, .enter, .refused World.pair.env]).any fun Y =>
      decide (Y.handler = .entered ∧ Y.phase = .ended)) = true := by decide +kernel
  have horder : Run.Along step EntersFirst dialling [.run, .enter, .refused World.pair.env] := by
    decide +kernel
  simp only [Option.any_eq_true, decide_eq_true_eq] at heval
  obtain ⟨Y, hY, hentered, hended⟩ := heval
  exact ⟨Y, hY, hentered, hended,
    (ended_removed_iff initial_dialling hY hentered hended).mpr horder⟩

/-- The handshake fails before: the session stays in the map. -/
theorem ended_not_removed : ∃ Y,
    Run.exec step dialling [.run, .refused World.pair.env, .enter] = some Y ∧
    Y.handler = .entered ∧ Y.phase = .ended ∧ Y.InMap := by
  have heval : ((Run.exec step dialling [.run, .refused World.pair.env, .enter]).any fun Y =>
      decide (Y.handler = .entered ∧ Y.phase = .ended ∧ Y.InMap)) = true := by decide +kernel
  simp only [Option.any_eq_true, decide_eq_true_eq] at heval
  exact heval

end Dialling

end Aewt
