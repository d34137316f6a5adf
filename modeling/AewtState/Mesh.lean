import AewtState.Notices
import AewtState.Lib.Run
import Mathlib.Logic.Function.Basic

/-!
# How the nodes of a cluster connect

A node starts, connects to the node it was pointed at and registers there; a register handler
reports the sessions it finds registered; a session handler looks for a session with the node
reported and connects when it finds none.

* `Sites` — the nodes, each with its own address.
* `End` — one end of a session.
* `Mesh` — the session objects of every node, what is on its way to each end and what every
  handler still has to do.
* `Mesh.step` — a start, a connect, an `add_session`, an `on_accept`, the part of a handler that
  sets the flag or looks for a session, the snapshot of `sync`, and each test of its loop.

The steps of handlers of different sessions interleave in any way.  Clients and subscriptions
do not matter here and are left out, and so are the answers, which change nothing.

Principal result: `step_cases` — the seven kinds of step, each with what it needs.
-/

set_option autoImplicit false

namespace Aewt

/-- The nodes that may take part, and what each is started with. -/
structure Sites (N : Type) where
  id : N → Uuid
  host : N → String
  config : N → Config
  unregistered : ∀ n, (config n).registered = false
  host_ne : ∀ n, host n ≠ ""
  port_ne : ∀ n, (config n).sessionsPort ≠ 0
  injective : ∀ {n m}, host n = host m →
    (config n).sessionsPort = (config m).sessionsPort → n = m

/-- One end of a session, and where the other one is. -/
structure End (N : Type) where
  context : SessionContext
  node : N
  id : Uuid
  peer : N
  peerId : Uuid
  deriving DecidableEq

def SessionContext.other : SessionContext → SessionContext
  | .accepting => .remote
  | .remote => .accepting

namespace End

variable {N : Type} (r : End N)

def other : End N := ⟨r.context.other, r.peer, r.peerId, r.node, r.id⟩

@[simp] theorem other_node : r.other.node = r.peer := rfl
@[simp] theorem other_peer : r.other.peer = r.node := rfl
@[simp] theorem other_id : r.other.id = r.peerId := rfl
@[simp] theorem other_context : r.other.context = r.context.other := rfl

@[simp] theorem other_other : r.other.other = r := by
  obtain ⟨c, n, x, m, y⟩ := r
  cases c <;> rfl

end End

/-- What runs a handler: the main thread of a node, or the strand of a session. -/
inductive Worker (N : Type) where
  | main (n : N)
  | strand (r : End N)
  deriving DecidableEq

def Worker.node {N : Type} : Worker N → N
  | .main n => n
  | .strand r => r.node

@[simp] theorem Worker.node_main {N : Type} (n : N) : (Worker.main n).node = n := rfl
@[simp] theorem Worker.node_strand {N : Type} (r : End N) : (Worker.strand r).node = r.node := rfl

/-- What a handler has still to do. -/
inductive Job (N : Type) where
  /-- The snapshot of `sync`. -/
  | sync
  /-- The tests of `sync`, for these sessions. -/
  | test (rest : List Uuid)
  | connect (host : String) (sessionsPort clientsPort : UInt64)
  /-- `add_session`, for the session that was made. -/
  | enter (r : End N)
  deriving DecidableEq

structure Task (N : Type) where
  worker : Worker N
  job : Job N
  deriving DecidableEq

namespace Sites

variable {N : Type} (S : Sites N)

/-- The report of a session with node `k`, as its reader takes it. -/
def naming (k : N) : Command :=
  .session (S.host k) (S.config k).sessionsPort.toUInt64 (S.config k).clientsPort.toUInt64

/-- To connect to node `k`. -/
def dial (k : N) : Job N :=
  .connect (S.host k) (S.config k).sessionsPort.toUInt64 (S.config k).clientsPort.toUInt64

end Sites

structure Mesh (N : Type) where
  started : List N
  listening : List N
  /-- The session objects of each node, in the map or not. -/
  objects : N → State
  ends : List (End N) := []
  /-- The ends that are in `sessions_`. -/
  inMap : List (End N) := []
  /-- The ends whose `on_accept` has run. -/
  up : List (End N) := []
  /-- The texts on their way to an end. -/
  wire : End N → List Notice := fun _ => []
  tasks : List (Task N) := []

/-- The cluster before any node joins. -/
def Sites.founded {N : Type} (S : Sites N) (f : N) : Mesh N where
  started := [f]
  listening := [f]
  objects n := { id := S.id n, config := S.config n }

inductive Mesh.Action (N : Type) where
  /-- `server::start` of node `n`, which is to join `e`. -/
  | start (n e : N)
  /-- The connect of `server::start` or `session_handler` reaches node `m`; the new session has
  id `x` here and `y` there. -/
  | connect (w : Worker N) (host : String) (sessionsPort clientsPort : UInt64) (m : N) (x y : Uuid)
  /-- `add_session`. -/
  | enter (w : Worker N) (r : End N)
  /-- `session::on_accept`; `t` is the id it draws. -/
  | accept (r : End N) (t : Uuid)
  /-- `session::on_read`, up to the flag or the search. -/
  | read (r : End N)
  /-- `sync` takes the sessions of the map. -/
  | snapshot (r : End N)
  /-- `sync` tests session `s`; `t` is the id it draws if it reports it. -/
  | test (r : End N) (s : Uuid) (rest : List Uuid) (t : Uuid)

namespace Mesh

variable {N : Type} [DecidableEq N] (S : Sites N) (X : Mesh N)

/-- The node as its handlers see it. -/
def map (n : N) : State :=
  { X.objects n with
    sessions := (X.objects n).sessions.keep fun s =>
      X.inMap.any fun r => r.node = n ∧ r.id = s.id }

def modify (n : N) (f : State → State) : Mesh N :=
  { X with objects := Function.update X.objects n (f (X.objects n)) }

/-- A text is sent to the end `r`. -/
def deliver (r : End N) (m : Notice) : Mesh N :=
  { X with wire := Function.update X.wire r (X.wire r ++ [m]) }

def assign (ts : List (Task N)) : Mesh N := { X with tasks := X.tasks ++ ts }

/-- A task is done, or done so far that others take its place. -/
def proceed (t : Task N) (ts : List (Task N)) : Mesh N :=
  { X with tasks := X.tasks.erase t ++ ts }

/-- The rest of `sync`'s loop. -/
def testing (r : End N) (rest : List Uuid) : List (Task N) :=
  if rest = [] then [] else [⟨.strand r, .test rest⟩]

/-- The id is not in use at the node. -/
def Unused (n : N) (x : Uuid) : Prop := x ≠ S.id n ∧ ∀ r ∈ X.ends, r.node = n → r.id ≠ x

instance (n : N) (x : Uuid) : Decidable (X.Unused S n x) := inferInstanceAs (Decidable (_ ∧ _))

/-- No handler of the end is running. -/
def Free (r : End N) : Prop := ∀ t ∈ X.tasks, t.worker ≠ .strand r

instance (r : End N) : Decidable (X.Free r) := inferInstanceAs (Decidable (∀ _ ∈ _, _))

/-! ## The steps -/

def starts (n e : N) : Mesh N :=
  { X.assign [⟨.main n, S.dial e⟩] with started := X.started ++ [n] }

/-- The opener makes the session, sets its ports and runs it; the listener of the other node
enters its own end in the map before it runs it. -/
def connects (t : Task N) (r : End N) (sessionsPort clientsPort : UInt64) : Mesh N :=
  { ((X.modify r.node fun st => (st.addSession (dialled r.id sessionsPort clientsPort)).1).modify
      r.peer fun st => (st.addSession { id := r.peerId }).1).proceed t [⟨t.worker, .enter r⟩] with
    ends := X.ends ++ [r, r.other]
    inMap := X.inMap ++ [r.other] }

/-- A node listens when it has entered its first session. -/
def enters (w : Worker N) (r : End N) : Mesh N :=
  { X.proceed ⟨w, .enter r⟩ [] with
    inMap := X.inMap ++ [r]
    listening := match w with
      | .main n => X.listening ++ [n]
      | .strand _ => X.listening }

/-- The node after `on_accept`. -/
def accepted (r : End N) (st : State) : State :=
  match r.context with
  | .accepting => st.setHost r.id (S.host r.peer)
  | .remote => (st.setHost r.id (S.host r.peer)).setRegistered

/-- The opener registers. -/
def accepts (r : End N) (t : Uuid) : Mesh N :=
  { X.modify r.node (accepted S r) with
    up := X.up ++ [r]
    wire := match r.context with
      | .accepting => X.wire
      | .remote => (X.deliver r.other (.register t (X.objects r.node).config)).wire }

/-- The address to connect to, when the text is a report and no session is found for it. -/
def missed (r : End N) : Command → Option (Job N)
  | .session host sessionsPort clientsPort =>
    if isKnown (X.map r.node) host sessionsPort clientsPort then none
    else some (.connect host sessionsPort clientsPort)
  | _ => none

/-- The sync that follows a registration. -/
def syncing (r : End N) (registered : Bool) : List (Task N) :=
  if registered then [] else [⟨.strand r, .sync⟩]

/-- The next text has been read. -/
def pop (r : End N) : Mesh N := { X with wire := Function.update X.wire r (X.wire r).tail }

/-- `register_handler` has found the session of the text. -/
def registers (r : End N) (session : Session) (sessionsPort clientsPort : UInt64)
    (registered : Bool) : Mesh N :=
  ((X.pop r).modify r.node (·.markAsRegistered session.id sessionsPort.toUInt16
    clientsPort.toUInt16)).assign (syncing r registered)

def reads (r : End N) (command : Command) : Mesh N :=
  match command with
  | .register sessionsPort clientsPort registered =>
    match (X.map r.node).getSession r.id with
    | some session => X.registers r session sessionsPort clientsPort registered
    | none => X.pop r
  | command => (X.pop r).assign ((X.missed r command).map (Task.mk (.strand r))).toList

/-- The report of a session that passes the test. -/
def report (r : End N) (s t : Uuid) : Mesh N :=
  match (X.objects r.node).getSession s with
  | some session =>
    if reportable (X.objects r.node) r.id session then X.deliver r.other (.syncSession t session)
    else X
  | none => X

/-! ### What a handler leaves alone -/

section

variable (r : End N) (command : Command) (s t : Uuid)

@[simp] theorem reads_started : (X.reads r command).started = X.started := by
  unfold reads
  split
  · split <;> rfl
  · rfl

@[simp] theorem reads_ends : (X.reads r command).ends = X.ends := by
  unfold reads
  split
  · split <;> rfl
  · rfl

@[simp] theorem reads_up : (X.reads r command).up = X.up := by
  unfold reads
  split
  · split <;> rfl
  · rfl

@[simp] theorem reads_wire : (X.reads r command).wire = (X.pop r).wire := by
  unfold reads
  split
  · split <;> rfl
  · rfl

@[simp] theorem report_started : (X.report r s t).started = X.started := by
  unfold report
  split
  · split <;> rfl
  · rfl

@[simp] theorem report_ends : (X.report r s t).ends = X.ends := by
  unfold report
  split
  · split <;> rfl
  · rfl

@[simp] theorem report_up : (X.report r s t).up = X.up := by
  unfold report
  split
  · split <;> rfl
  · rfl

@[simp] theorem report_tasks : (X.report r s t).tasks = X.tasks := by
  unfold report
  split
  · split <;> rfl
  · rfl

@[simp] theorem report_objects : (X.report r s t).objects = X.objects := by
  unfold report
  split
  · split <;> rfl
  · rfl

end

/-! ### The step function -/

def step : Action N → Option (Mesh N)
  | .start n e => if n ∉ X.started ∧ e ∈ X.listening then some (X.starts S n e) else none
  | .connect w host sp cp m x y =>
    if (⟨w, .connect host sp cp⟩ ∈ X.tasks ∧ m ∈ X.listening) ∧
        (S.host m = host ∧ (S.config m).sessionsPort.toUInt64 = sp) ∧
        X.Unused S w.node x ∧ X.Unused S m y ∧ ¬ (w.node = m ∧ x = y) then
      some (X.connects ⟨w, .connect host sp cp⟩ ⟨.remote, w.node, x, m, y⟩ sp cp)
    else none
  | .enter w r => if ⟨w, .enter r⟩ ∈ X.tasks then some (X.enters w r) else none
  | .accept r t => if r ∈ X.ends ∧ r ∉ X.up then some (X.accepts S r t) else none
  | .read r =>
    match X.wire r with
    | m :: _ => if r ∈ X.up ∧ X.Free r then some (X.reads r m.command) else none
    | [] => none
  | .snapshot r =>
    if ⟨.strand r, .sync⟩ ∈ X.tasks then
      some (X.proceed ⟨.strand r, .sync⟩ (testing r ((X.map r.node).getSessions.map Session.id)))
    else none
  | .test r s rest t =>
    if ⟨.strand r, .test (s :: rest)⟩ ∈ X.tasks then
      some ((X.report r s t).proceed ⟨.strand r, .test (s :: rest)⟩ (testing r rest))
    else none

/-- The steps, each with what it needs. -/
inductive Stepped : Action N → Mesh N → Prop where
  | start (n e : N) (new : n ∉ X.started) (member : e ∈ X.listening) :
    Stepped (.start n e) (X.starts S n e)
  | connect (w : Worker N) (m : N) (x y : Uuid) (cp : UInt64)
    (task : ⟨w, .connect (S.host m) (S.config m).sessionsPort.toUInt64 cp⟩ ∈ X.tasks)
    (member : m ∈ X.listening) (here : X.Unused S w.node x) (there : X.Unused S m y)
    (apart : ¬ (w.node = m ∧ x = y)) :
    Stepped (.connect w (S.host m) (S.config m).sessionsPort.toUInt64 cp m x y)
      (X.connects ⟨w, .connect (S.host m) (S.config m).sessionsPort.toUInt64 cp⟩
        ⟨.remote, w.node, x, m, y⟩ (S.config m).sessionsPort.toUInt64 cp)
  | enter (w : Worker N) (r : End N) (task : ⟨w, .enter r⟩ ∈ X.tasks) :
    Stepped (.enter w r) (X.enters w r)
  | accept (r : End N) (t : Uuid) (made : r ∈ X.ends) (down : r ∉ X.up) :
    Stepped (.accept r t) (X.accepts S r t)
  | read (r : End N) (m : Notice) (ms : List Notice) (wire : X.wire r = m :: ms) (up : r ∈ X.up)
    (free : X.Free r) : Stepped (.read r) (X.reads r m.command)
  | snapshot (r : End N) (task : ⟨.strand r, .sync⟩ ∈ X.tasks) :
    Stepped (.snapshot r)
      (X.proceed ⟨.strand r, .sync⟩ (testing r ((X.map r.node).getSessions.map Session.id)))
  | test (r : End N) (s : Uuid) (rest : List Uuid) (t : Uuid)
    (task : ⟨.strand r, .test (s :: rest)⟩ ∈ X.tasks) :
    Stepped (.test r s rest t)
      ((X.report r s t).proceed ⟨.strand r, .test (s :: rest)⟩ (testing r rest))

variable {S X} in
theorem step_cases {Y : Mesh N} {a : Action N} (h : X.step S a = some Y) : X.Stepped S a Y := by
  cases a with
  | start n e =>
    simp only [step, Option.ite_none_right_eq_some, Option.some.injEq] at h
    obtain ⟨⟨hn, he⟩, rfl⟩ := h
    exact .start n e hn he
  | connect w host sp cp m x y =>
    simp only [step, Option.ite_none_right_eq_some, Option.some.injEq] at h
    obtain ⟨⟨⟨ht, hm⟩, ⟨rfl, rfl⟩, hx, hy, hne⟩, rfl⟩ := h
    exact .connect w m x y cp ht hm hx hy hne
  | enter w r =>
    simp only [step, Option.ite_none_right_eq_some, Option.some.injEq] at h
    obtain ⟨ht, rfl⟩ := h
    exact .enter w r ht
  | accept r t =>
    simp only [step, Option.ite_none_right_eq_some, Option.some.injEq] at h
    obtain ⟨⟨hr, hup⟩, rfl⟩ := h
    exact .accept r t hr hup
  | read r =>
    simp only [step] at h
    split at h
    · rename_i m ms hw
      simp only [Option.ite_none_right_eq_some, Option.some.injEq] at h
      obtain ⟨⟨hup, hfree⟩, rfl⟩ := h
      exact .read r m ms hw hup hfree
    · cases h
  | snapshot r =>
    simp only [step, Option.ite_none_right_eq_some, Option.some.injEq] at h
    obtain ⟨ht, rfl⟩ := h
    exact .snapshot r ht
  | test r s rest t =>
    simp only [step, Option.ite_none_right_eq_some, Option.some.injEq] at h
    obtain ⟨ht, rfl⟩ := h
    exact .test r s rest t ht

end Mesh

end Aewt
