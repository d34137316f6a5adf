import AewtState.Identity
import AewtState.Lib.Run

/-!
# How long rows live

A session object is made, entered in the map, serves frames, is removed from the map when its
connection ends, and is destroyed when nothing refers to it any more.  Only the destructor
purges its rows.

* `Node` — a node with its session objects: those that are not destroyed, those with a handler
  running, and every id given out so far.
* `Node.step` — the events of the node in any order.  A handler of a session may still run
  after the session was removed.  A handler that raises ends the process, so it has no step.
  Rows change in one section of a handler, so a handler is one step; what it sends may depend on
  lookups between which others run, and is not looked at here.
* `Node.Inv` — every row belongs to the node itself or to a session that is not destroyed.

Principal result: `rows_of_live` — the invariant holds in every run, and a destroyed session
has no rows ever after.
-/

set_option autoImplicit false

namespace Aewt

/-! ## Rows that a handler adds -/

/-- New rows have the session id `s`. -/
structure AddsUnder (s : Uuid) (st st' : State) : Prop where
  id : st'.id = st.id
  clients : ∀ row ∈ st'.clients, row ∈ st.clients ∨ row.sessionId = s
  subscriptions : ∀ row ∈ st'.subscriptions, row ∈ st.subscriptions ∨ row.sessionId = s

section

variable {s : Uuid} {st st' : State}

theorem AddsUnder.same (hid : st'.id = st.id) (hc : st'.clients = st.clients)
    (hr : st'.subscriptions = st.subscriptions) : AddsUnder s st st' where
  id := hid
  clients _ h := .inl (hc ▸ h)
  subscriptions _ h := .inl (hr ▸ h)

theorem addsUnder_addClient (c : Uuid) : AddsUnder s st (st.addClient ⟨c, s⟩).1 where
  id := rfl
  clients row h := by
    rcases State.mem_addClient.mp h with h | ⟨rfl, -⟩
    · exact .inl h
    · exact .inr rfl
  subscriptions _ h := .inl h

theorem addsUnder_removeClient (c : Uuid) : AddsUnder s st (st.removeClient c).1 where
  id := rfl
  clients _ h := .inl (State.mem_removeClient.mp h).1
  subscriptions _ h := .inl h

theorem addsUnder_subscribe (c : Uuid) (channel : String) :
    AddsUnder s st (st.subscribe s c channel).1 where
  id := rfl
  clients _ h := .inl h
  subscriptions row h := by
    rcases State.mem_subscribe.mp h with h | rfl
    · exact .inl h
    · exact .inr rfl

theorem addsUnder_unsubscribe (c : Uuid) (channel : String) :
    AddsUnder s st (st.unsubscribe s c channel).1 where
  id := by simp
  clients _ h := .inl (by simpa using h)
  subscriptions _ h := .inl (State.mem_unsubscribe.mp h).1

end

/-- A message of a session adds rows of that session only, a request of a client rows of the
node. -/
theorem outcome_addsUnder (w : World) (request : Request) (command : Command)
    (h : request.context = .onClient → command.ByClient request.entityId) :
    AddsUnder (owner request w.state) w.state (outcome w request command).state := by
  cases command with
  | ping | ack | noEffect | isSubscribed | broadcast | publish => exact .same rfl rfl rfl
  | send f t payload =>
    simp only [outcome, sendOutcome_state]
    exact .same rfl rfl rfl
  | register sp cp registered =>
    simp only [outcome, registerOutcome_state]
    exact .same rfl rfl rfl
  | session host sp cp =>
    simp only [outcome, sessionOutcome]
    split <;> exact .same rfl rfl rfl
  | subscribe c channel => exact addsUnder_subscribe c channel
  | unsubscribe c channel => exact addsUnder_unsubscribe c channel
  | join c =>
    have hctx : request.context = .onSession := by
      cases hc : request.context with
      | onSession => rfl
      | onClient => cases h hc
    have ho : owner request w.state = request.entityId := by simp [owner, hctx]
    rw [ho]
    exact addsUnder_addClient c
  | leave c => exact addsUnder_removeClient c

theorem addsUnder_onRead {s : Uuid} {frame : Frame} {w w' : World}
    (h : Session.onRead s frame w = (.ok (), w')) : AddsUnder s w.state w'.state := by
  rcases Session.onRead_state h with hs | ⟨-, -, command, request, -, -, hctx, rfl, hs, -⟩
  · rw [hs]
    exact .same rfl rfl rfl
  · have hadds := outcome_addsUnder w request command (by simp [hctx])
    rw [hs]
    rwa [owner, hctx] at hadds

theorem addsUnder_clientRead {c : Uuid} {frame : Frame} {w w' : World}
    (h : Client.onRead c frame w = (.ok (), w')) : AddsUnder w.state.id w.state w'.state := by
  rcases Client.onRead_state h with hs | ⟨command, request, hc, hctx, rfl, hs⟩
  · rw [hs]
    exact .same rfl rfl rfl
  · have hadds := outcome_addsUnder w request command fun _ => hc
    rw [hs]
    rwa [owner, hctx] at hadds

/-! ## The node and its session objects -/

/-- The ids of the sessions that a handler made. -/
def dials (es : List Effect) : List Uuid :=
  es.filterMap fun e => match e with
    | .dial id _ _ => some id
    | _ => none

structure Node where
  state : State
  /-- The session objects that are not destroyed. -/
  live : List Uuid := []
  /-- Those with a handler running. -/
  busy : List Uuid := []
  /-- Every id given out so far, the node's own among them. -/
  given : List Uuid := [state.id]

namespace Node

inductive Action where
  /-- A session object with a fresh id. -/
  | create (s : Uuid)
  /-- `add_session`. -/
  | enter (session : Session)
  /-- `session::on_accept`. -/
  | opened (s : Uuid) (context : SessionContext) (host : String) (env : Env)
  /-- A handler of the session is called. -/
  | start (s : Uuid)
  /-- The handler reads a frame and returns. -/
  | read (s : Uuid) (frame : Frame) (env : Env)
  /-- `session::on_accept` or `session::on_read` with an error. -/
  | remove (s : Uuid) (env : Env)
  /-- `session::~session`. -/
  | destroy (s : Uuid)
  /-- `client_listener::on_accept`. -/
  | accept (c : Uuid) (env : Env)
  /-- `client::on_read`. -/
  | request (c : Uuid) (frame : Frame) (env : Env)
  /-- `client::on_accept` or `client::on_read` with an error. -/
  | disconnect (c : Uuid) (env : Env)

/-- Run a handler.  The sessions that it makes get fresh ids. -/
def handle (X : Node) (env : Env) (x : M Unit) : Option Node :=
  match x (.start env X.state) with
  | (.ok (), w) =>
    if ∀ id ∈ dials w.effects, id ∉ X.given then
      some { X with
        state := w.state
        live := dials w.effects ++ X.live
        given := dials w.effects ++ X.given }
    else none
  | (.error _, _) => none

/-- The map and running handlers hold references to a session object. -/
def Referenced (X : Node) (s : Uuid) : Prop := s ∈ X.busy ∨ X.state.sessions.hasKey s = true

instance (X : Node) (s : Uuid) : Decidable (X.Referenced s) := inferInstanceAs (Decidable (_ ∨ _))

def step (X : Node) : Action → Option Node
  | .create s =>
    if s ∈ X.given then none
    else some { X with live := s :: X.live, given := s :: X.given }
  | .enter session =>
    if session.id ∈ X.live then some { X with state := (X.state.addSession session).1 } else none
  | .opened s context host env =>
    if s ∈ X.live then X.handle env (Session.onAccept s context host) else none
  | .start s => if s ∈ X.live then some { X with busy := s :: X.busy } else none
  | .read s frame env =>
    if s ∈ X.busy then
      (X.handle env (Session.onRead s frame)).map fun Y => { Y with busy := Y.busy.erase s }
    else none
  | .remove s env => if s ∈ X.live then X.handle env (Session.leave s) else none
  | .destroy s =>
    if s ∈ X.live ∧ ¬ X.Referenced s then
      some { X with
        state := X.state.removeStateOfSession s
        live := X.live.filter (· ≠ s) }
    else none
  | .accept c env => X.handle env (clientListenerOnAccept c)
  | .request c frame env => X.handle env (Client.onRead c frame)
  | .disconnect c env => X.handle env (Client.leave c)

/-- A node on which nothing happened yet. -/
def initial (id : Uuid) (config : Config) : Node := { state := { id := id, config := config } }

/-! ## The invariant -/

/-- Every row belongs to the node itself or to a session object that is not destroyed. -/
structure RowsLive (X : Node) : Prop where
  clients : ∀ row ∈ X.state.clients, row.sessionId = X.state.id ∨ row.sessionId ∈ X.live
  subscriptions : ∀ row ∈ X.state.subscriptions,
    row.sessionId = X.state.id ∨ row.sessionId ∈ X.live

structure Inv (X : Node) : Prop extends RowsLive X where
  own : X.state.id ∈ X.given
  notLive : X.state.id ∉ X.live
  given : ∀ s ∈ X.live, s ∈ X.given
  busy : ∀ s ∈ X.busy, s ∈ X.live

theorem inv_initial (id : Uuid) (config : Config) : (initial id config).Inv where
  clients _ h := absurd h (Table.not_mem_empty _)
  subscriptions _ h := absurd h (Table.not_mem_empty _)
  own := List.mem_singleton_self id
  notLive := List.not_mem_nil
  given _ h := by cases h
  busy _ h := by cases h

section

variable {X Y : Node} {s : Uuid} {env : Env} {x : M Unit}

theorem handle_eq_some : X.handle env x = some Y ↔
    ∃ w, x (.start env X.state) = (.ok (), w) ∧ (∀ id ∈ dials w.effects, id ∉ X.given) ∧
      Y = { X with
        state := w.state
        live := dials w.effects ++ X.live
        given := dials w.effects ++ X.given } := by
  unfold handle
  rcases x (.start env X.state) with ⟨e | u, w⟩
  · simp
  · constructor
    · intro h
      simp only at h
      by_cases hf : ∀ id ∈ dials w.effects, id ∉ X.given
      · rw [if_pos hf] at h
        cases h
        exact ⟨w, rfl, hf, rfl⟩
      · rw [if_neg hf] at h
        cases h
    · rintro ⟨w', hw, hf, rfl⟩
      cases hw
      exact if_pos hf

/-- A handler that adds rows of the node or of a live session keeps the invariant. -/
theorem Inv.of_handle (h : X.Inv) (hs : s = X.state.id ∨ s ∈ X.live)
    (hx : ∀ w, x (.start env X.state) = (.ok (), w) → AddsUnder s X.state w.state)
    (hY : X.handle env x = some Y) : Y.Inv := by
  obtain ⟨w, hw, hf, rfl⟩ := handle_eq_some.mp hY
  have hadds := hx w hw
  have hold : ∀ u, u = X.state.id ∨ u ∈ X.live →
      u = w.state.id ∨ u ∈ dials w.effects ++ X.live := by
    rintro u (hu | hu)
    · exact .inl (hu.trans hadds.id.symm)
    · exact .inr (List.mem_append_right _ hu)
  constructor
  · constructor
    · intro row hrow
      rcases hadds.clients row hrow with hrow | hrow
      · exact hold _ (h.clients row hrow)
      · exact hold _ (hrow ▸ hs)
    · intro row hrow
      rcases hadds.subscriptions row hrow with hrow | hrow
      · exact hold _ (h.subscriptions row hrow)
      · exact hold _ (hrow ▸ hs)
  · rw [hadds.id]
    exact List.mem_append_right _ h.own
  · rw [hadds.id]
    intro hm
    rcases List.mem_append.mp hm with hm | hm
    · exact hf _ hm h.own
    · exact h.notLive hm
  · intro u hu
    rcases List.mem_append.mp hu with hu | hu
    · exact List.mem_append_left _ hu
    · exact List.mem_append_right _ (h.given u hu)
  · intro u hu
    exact List.mem_append_right _ (h.busy u hu)

/-- The destructor purges the rows of its session and no others. -/
theorem Inv.of_destroy (h : X.Inv) (hb : s ∉ X.busy) : Inv { X with
    state := X.state.removeStateOfSession s
    live := X.live.filter (· ≠ s) } := by
  have hold : ∀ u, (u = X.state.id ∨ u ∈ X.live) → u ≠ s →
      u = X.state.id ∨ u ∈ X.live.filter (· ≠ s) := by
    rintro u (hu | hu) hne
    · exact .inl hu
    · exact .inr (List.mem_filter.mpr ⟨hu, by simpa using hne⟩)
  constructor
  · constructor
    · intro row hrow
      obtain ⟨hrow, hne⟩ := Table.mem_keep.mp hrow
      exact hold _ (h.clients row hrow) (by simpa using hne)
    · intro row hrow
      obtain ⟨hrow, hne⟩ := Table.mem_keep.mp hrow
      exact hold _ (h.subscriptions row hrow) (by simpa using hne)
  · exact h.own
  · intro hm
    exact h.notLive (List.mem_filter.mp hm).1
  · intro u hu
    exact h.given u (List.mem_filter.mp hu).1
  · intro u hu
    refine List.mem_filter.mpr ⟨h.busy u hu, ?_⟩
    have hne : u ≠ s := by
      rintro rfl
      exact hb hu
    simpa using hne

theorem step_destroy : X.step (.destroy s) = some Y ↔
    (s ∈ X.live ∧ ¬ X.Referenced s) ∧ Y = { X with
      state := X.state.removeStateOfSession s
      live := X.live.filter (· ≠ s) } := by
  simp only [step]
  split
  · rename_i h
    simp only [h, true_and, Option.some.injEq, not_false_eq_true]
    exact ⟨Eq.symm, Eq.symm⟩
  · rename_i h
    simp [h]

/-- The kinds of step: the handlers are one kind. -/
inductive Stepped (X : Node) : Node → Prop where
  | created (u : Uuid) (fresh : u ∉ X.given) :
    Stepped X { X with live := u :: X.live, given := u :: X.given }
  | entered (session : Session) : Stepped X { X with state := (X.state.addSession session).1 }
  | started (u : Uuid) (live : u ∈ X.live) : Stepped X { X with busy := u :: X.busy }
  | handled (u : Uuid) (env : Env) (x : M Unit) (Z : Node) (busy : List Uuid)
    (own : u = X.state.id ∨ u ∈ X.busy)
    (adds : ∀ w, x (.start env X.state) = (.ok (), w) → AddsUnder u X.state w.state)
    (ran : X.handle env x = some Z) (rest : ∀ v ∈ busy, v ∈ Z.busy) :
    Stepped X { Z with busy := busy }
  | destroyed (u : Uuid) (idle : u ∉ X.busy) : Stepped X { X with
      state := X.state.removeStateOfSession u
      live := X.live.filter (· ≠ u) }

theorem step_cases {a : Action} (h : X.step a = some Y) : Stepped X Y := by
  have hhandled : ∀ {env : Env} {x : M Unit} {Z : Node}, X.handle env x = some Z →
      (∀ w, x (.start env X.state) = (.ok (), w) → AddsUnder X.state.id X.state w.state) →
      Stepped X Z :=
    fun hZ hx => .handled _ _ _ _ _ (.inl rfl) hx hZ fun _ hv => hv
  cases a with
  | create u =>
    simp only [step] at h
    split at h
    · cases h
    · rename_i hu
      cases h
      exact .created u hu
  | enter session =>
    simp only [step] at h
    split at h
    · cases h
      exact .entered session
    · cases h
  | opened u context host env =>
    simp only [step] at h
    split at h
    · refine hhandled h fun w hw => ?_
      cases context <;> cases hw <;> exact .same rfl rfl rfl
    · cases h
  | start u =>
    simp only [step] at h
    split at h
    · rename_i hu
      cases h
      exact .started u hu
    · cases h
  | read u frame env =>
    simp only [step] at h
    split at h
    · rename_i hu
      obtain ⟨Z, hZ, rfl⟩ := Option.map_eq_some_iff.mp h
      exact .handled u env _ Z _ (.inr hu) (fun w hw => addsUnder_onRead hw) hZ
        fun v hv => List.mem_of_mem_erase hv
    · cases h
  | remove u env =>
    simp only [step] at h
    split at h
    · refine hhandled h fun w hw => ?_
      cases hw
      exact .same rfl rfl rfl
    · cases h
  | destroy u =>
    obtain ⟨⟨-, hr⟩, rfl⟩ := step_destroy.mp h
    exact .destroyed u fun hb => hr (.inl hb)
  | accept c env =>
    refine hhandled h fun w hw => ?_
    rw [clientListenerOnAccept_eq] at hw
    cases hw
    exact addsUnder_addClient c
  | request c frame env => exact hhandled h fun w hw => addsUnder_clientRead hw
  | disconnect c env =>
    refine hhandled h fun w hw => ?_
    rw [Client.leave_eq] at hw
    cases hw
    exact addsUnder_removeClient c

/-- **Every event keeps the invariant.** -/
theorem Inv.of_step (h : X.Inv) {a : Action} (hY : X.step a = some Y) : Y.Inv := by
  cases step_cases hY with
  | created u fresh =>
    refine ⟨⟨fun row hr => (h.clients row hr).imp_right (List.mem_cons_of_mem u),
      fun row hr => (h.subscriptions row hr).imp_right (List.mem_cons_of_mem u)⟩,
      List.mem_cons_of_mem u h.own, ?_, ?_, fun v hv => List.mem_cons_of_mem u (h.busy v hv)⟩
    · intro hm
      rcases List.mem_cons.mp hm with hm | hm
      · exact fresh (hm ▸ h.own)
      · exact h.notLive hm
    · intro v hv
      rcases List.mem_cons.mp hv with rfl | hv
      · exact List.mem_cons_self
      · exact List.mem_cons_of_mem u (h.given v hv)
  | entered session =>
    exact ⟨⟨h.clients, h.subscriptions⟩, h.own, h.notLive, h.given, h.busy⟩
  | started u live =>
    refine ⟨⟨h.clients, h.subscriptions⟩, h.own, h.notLive, h.given, fun v hv => ?_⟩
    rcases List.mem_cons.mp hv with rfl | hv
    · exact live
    · exact h.busy v hv
  | handled u env x Z busy own adds ran rest =>
    have hI := h.of_handle (own.imp_right (h.busy u)) adds ran
    exact ⟨⟨hI.clients, hI.subscriptions⟩, hI.own, hI.notLive, hI.given,
      fun v hv => hI.busy v (rest v hv)⟩
  | destroyed u idle => exact h.of_destroy idle

theorem Inv.of_run {as : List Action} (h : X.Inv) (hY : Run.exec step X as = some Y) : Y.Inv :=
  Run.exec_invariant (fun hI hs => hI.of_step hs) h hY

/-! ## After the destructor -/

/-- The id was given out and its session is destroyed. -/
structure Gone (s : Uuid) (X : Node) : Prop where
  given : s ∈ X.given
  dead : s ∉ X.live
  other : s ≠ X.state.id

/-- The id is never given out again. -/
theorem Gone.of_step (h : Gone s X) {a : Action} (hY : X.step a = some Y) : Gone s Y := by
  cases step_cases hY with
  | created u fresh =>
    refine ⟨List.mem_cons_of_mem u h.given, fun hm => ?_, h.other⟩
    rcases List.mem_cons.mp hm with rfl | hm
    · exact fresh h.given
    · exact h.dead hm
  | entered session => exact ⟨h.given, h.dead, h.other⟩
  | started u live => exact ⟨h.given, h.dead, h.other⟩
  | handled u env x Z busy own adds ran rest =>
    obtain ⟨w, hw, hf, rfl⟩ := handle_eq_some.mp ran
    refine ⟨List.mem_append_right _ h.given, fun hm => ?_, ?_⟩
    · rcases List.mem_append.mp hm with hm | hm
      · exact hf s hm h.given
      · exact h.dead hm
    · rw [(adds w hw).id]
      exact h.other
  | destroyed u idle => exact ⟨h.given, fun hm => h.dead (List.mem_filter.mp hm).1, h.other⟩

/-- A session that is gone has no rows. -/
theorem Gone.no_rows (h : Gone s X) (hI : X.Inv) :
    (∀ row ∈ X.state.clients, row.sessionId ≠ s) ∧
    ∀ row ∈ X.state.subscriptions, row.sessionId ≠ s := by
  constructor
  · rintro row hrow rfl
    exact (hI.clients row hrow).elim h.other h.dead
  · rintro row hrow rfl
    exact (hI.subscriptions row hrow).elim h.other h.dead

end

/-- **Rows live exactly as long as their session.**  In every run of a node every row belongs to
the node or to a session that is not destroyed; the destructor of a session removes its rows and
no others, and no row with its id appears later. -/
theorem rows_of_live (id : Uuid) (config : Config) {as : List Action} {X : Node}
    (hX : Run.exec step (initial id config) as = some X) :
    X.RowsLive ∧ ∀ s Y, X.step (.destroy s) = some Y →
      (∀ row, row ∈ Y.state.clients ↔ row ∈ X.state.clients ∧ row.sessionId ≠ s) ∧
      (∀ row, row ∈ Y.state.subscriptions ↔
        row ∈ X.state.subscriptions ∧ row.sessionId ≠ s) ∧
      ∀ bs Z, Run.exec step Y bs = some Z →
        (∀ row ∈ Z.state.clients, row.sessionId ≠ s) ∧
        ∀ row ∈ Z.state.subscriptions, row.sessionId ≠ s := by
  have hI : X.Inv := (inv_initial id config).of_run hX
  refine ⟨hI.toRowsLive, fun s Y hY => ?_⟩
  have hIY : Y.Inv := hI.of_step hY
  obtain ⟨⟨hs, hr⟩, rfl⟩ := step_destroy.mp hY
  refine ⟨fun row => ?_, fun row => ?_, fun bs Z hZ => ?_⟩
  · simp [State.removeStateOfSession]
  · simp [State.removeStateOfSession]
  · have hgone : Gone s { X with
        state := X.state.removeStateOfSession s
        live := X.live.filter (· ≠ s) } := by
      refine ⟨hI.given s hs, fun hm => ?_, ?_⟩
      · simpa using (List.mem_filter.mp hm).2
      · intro he
        exact hI.notLive (he ▸ hs)
    exact (Run.exec_invariant (fun h ha => Gone.of_step h ha) hgone hZ).no_rows (hIY.of_run hZ)

/-! ## A session that told of a client -/

def peerId : Uuid := ⟨List.replicate 16 7, rfl⟩

/-- A session comes, reads a `join` and fails. -/
def lifetime : List Action :=
  [.create peerId, .enter { id := peerId }, .start peerId,
    .read peerId (.object (Notice.join Uuid.nil firstClient).text) World.pair.env,
    .remove peerId World.pair.env]

theorem exec_lifetime : ((Run.exec step (initial Uuid.nil {}) lifetime).any fun X =>
    decide (⟨firstClient, peerId⟩ ∈ X.state.clients.rows) && (X.step (.destroy peerId)).isSome) =
    true := by
  decide +kernel

/-- The client's row is there until the session is destroyed. -/
theorem rows_of_live_lifetime : ∃ X Y, Run.exec step (initial Uuid.nil {}) lifetime = some X ∧
    ⟨firstClient, peerId⟩ ∈ X.state.clients ∧ X.step (.destroy peerId) = some Y ∧
    X.RowsLive ∧ ⟨firstClient, peerId⟩ ∉ Y.state.clients := by
  have heval := exec_lifetime
  simp only [Option.any_eq_true, Bool.and_eq_true, decide_eq_true_eq, Option.isSome_iff_exists]
    at heval
  obtain ⟨X, hX, hrow, Y, hY⟩ := heval
  obtain ⟨hlive, hdestroy⟩ := rows_of_live Uuid.nil {} hX
  exact ⟨X, Y, hX, hrow, hY, hlive, fun h => (((hdestroy peerId Y hY).1 _).mp h).2 rfl⟩

end Node

end Aewt
