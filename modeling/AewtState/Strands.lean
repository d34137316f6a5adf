import AewtState.Relay
import AewtState.Outbox
import AewtState.Lib.Run
import Mathlib.Logic.Function.Basic

/-!
# Strands

The nodes of a cluster with every queue that a text passes.  Each connection of a node, to a
client or to a session of another node, runs its handlers one after another on its strand.

* `Topology` — which session ends share a socket.  Any number of nodes, cycles, several sockets
  between two nodes and session ends without a peer are allowed; sessions made in the course of
  a run are in it from the start and unused until then.
* `Network` — for every strand the frames not yet read, what the running handler has still to
  send, the texts posted to the strand, the write queue and the texts written.
* `Network.step` — a client sends a frame, `on_read` starts, a running handler sends one text,
  a posted `on_send` runs, a write completes.
* `View` — the same without the queues inside a connection: what is on its way to a strand and
  what was sent on it.
* `Network.outbox` — the write queue of a strand as the outbox of its connection.

A handler that starts is given what it finds in the stores.  Other handlers change them all the
time, but a handler reads each store once (a registration also looks up its own session, which
it does not report), so what it sends is what it would have sent alone in some state of the
stores.  Which state is left open, and what is proved holds for all of them.  A handler that
raises ends the process and has no step.

Principal results: `view_step` — a step of the network is a step of the view or none; `outbox_run` —
the texts that a strand writes go through `on_send` and `on_write` of its connection.
-/

set_option autoImplicit false

namespace Aewt

/-- A connection of a node: to a client, or one end of a session. -/
structure Strand (N : Type) where
  node : N
  context : Context
  id : Uuid
  deriving DecidableEq

structure Topology (N : Type) where
  id : N → Uuid
  /-- The other end of a session. -/
  links : N → Uuid → Option (N × Uuid)
  symm : ∀ {n s m s'}, links n s = some (m, s') → links m s' = some (n, s)

/-- The request that caused something, by the client's strand and its number there, and how many
handlers ran in between.  The nodes do not see it. -/
structure Origin (N : Type) where
  client : Strand N
  index : Nat
  hops : Nat
  deriving DecidableEq

def Origin.next {N : Type} (o : Origin N) : Origin N := { o with hops := o.hops + 1 }

/-- Something with the request that caused it, if one did. -/
structure Traced (N α : Type) where
  origin : Option (Origin N)
  value : α

namespace Traced

variable {N α β : Type}

def map (f : α → β) (x : Traced N α) : Traced N β := ⟨x.origin, f x.value⟩

@[simp] theorem map_origin (f : α → β) (x : Traced N α) : (x.map f).origin = x.origin := rfl

@[simp] theorem map_value (f : α → β) (x : Traced N α) : (x.map f).value = f x.value := rfl

end Traced

structure Network (N : Type) where
  inbox : Strand N → List (Traced N Frame) := fun _ => []
  /-- What the handler that runs on the strand has still to send. -/
  pending : Strand N → List (Traced N Effect) := fun _ => []
  /-- The calls of `on_send` that were posted. -/
  posts : Strand N → List (Traced N Text) := fun _ => []
  /-- `queue_`; its first text is being written. -/
  queue : Strand N → List (Traced N Text) := fun _ => []
  written : Strand N → List (Traced N Text) := fun _ => []
  /-- How many frames the client has sent. -/
  issued : Strand N → Nat := fun _ => 0
  /-- What handlers sent, each with the strand it ran on. -/
  log : List (Strand N × Traced N Effect) := []

inductive Network.Action (N : Type) where
  /-- A client sends a frame. -/
  | request (n : N) (c : Uuid) (frame : Frame)
  /-- Something that no request caused is sent: a welcome, a registration, a client that comes
  or goes. -/
  | announce (t : Strand N) (text : Text)
  /-- `on_read`. -/
  | read (t : Strand N) (env : Env) (st : State)
  /-- The running handler calls `send`. -/
  | post (t : Strand N)
  | onSend (t : Strand N)
  | onWrite (t : Strand N)

/-- `on_read` of a connection. -/
def Strand.onRead {N : Type} (t : Strand N) (frame : Frame) : M Unit :=
  match t.context with
  | .onClient => Client.onRead t.id frame
  | .onSession => Session.onRead t.id frame

/-- The strand to which a handler of node `n` posts, and the text. -/
def Effect.destination {N : Type} (n : N) : Effect → Option (Strand N × Text)
  | .session s text => some (⟨n, .onSession, s⟩, text)
  | .client c text => some (⟨n, .onClient, c⟩, text)
  | .dial _ _ _ => none

section

variable {N α : Type} [DecidableEq N]

/-- Put an element at the end of the queue of strand `t`. -/
def push (f : Strand N → List α) (t : Strand N) (a : α) : Strand N → List α :=
  Function.update f t (f t ++ [a])

variable (f : Strand N → List α) (t : Strand N) (a : α)

@[simp] theorem push_self : push f t a t = f t ++ [a] := Function.update_self ..

theorem push_of_ne {u : Strand N} (h : u ≠ t) : push f t a u = f u := Function.update_of_ne h ..

theorem mem_push {u : Strand N} {x : α} : x ∈ push f t a u ↔ x ∈ f u ∨ u = t ∧ x = a := by
  by_cases h : u = t
  · subst h
    simp
  · simp [push_of_ne f t a h, h]

end

/-- The strand at the other end of a session. -/
def Topology.peer {N : Type} (G : Topology N) (t : Strand N) : Option (Strand N) :=
  match t.context with
  | .onClient => none
  | .onSession => (G.links t.node t.id).map fun e => ⟨e.1, .onSession, e.2⟩

namespace Network

variable {N : Type} [DecidableEq N] (G : Topology N)

/-- A handler that read a frame with this origin sends the effects in turn. -/
def caused (o : Option (Origin N)) (es : List Effect) : List (Traced N Effect) :=
  es.map (Traced.mk (o.map Origin.next))

/-- `send` posts `on_send` to the strand. -/
def send (X : Network N) (x : Option (Strand N × Text)) (o : Option (Origin N)) : Network N :=
  match x with
  | some (t, text) => { X with posts := push X.posts t ⟨o, text⟩ }
  | none => X

/-- The frame comes out at the other end of the socket. -/
def arrive (X : Network N) (t : Strand N) (x : Traced N Text) : Network N :=
  match G.peer t with
  | some u => { X with inbox := push X.inbox u (x.map Frame.object) }
  | none => X

def step (X : Network N) : Action N → Option (Network N)
  | .request n c frame =>
    let t : Strand N := ⟨n, .onClient, c⟩
    some { X with
      inbox := push X.inbox t ⟨some ⟨t, X.issued t, 0⟩, frame⟩
      issued := Function.update X.issued t (X.issued t + 1) }
  | .announce t text => some (X.send (some (t, text)) none)
  | .read t env st =>
    match X.inbox t, X.pending t with
    | f :: fs, [] =>
      if st.id = G.id t.node then
        match t.onRead f.value (.start env st) with
        | (.ok (), w) => some { X with
            inbox := Function.update X.inbox t fs
            pending := Function.update X.pending t (caused f.origin w.effects) }
        | (.error _, _) => none
      else none
    | _, _ => none
  | .post t =>
    match X.pending t with
    | e :: es => some (send { X with
        pending := Function.update X.pending t es
        log := X.log ++ [(t, e)] } (e.value.destination t.node) e.origin)
    | [] => none
  | .onSend t =>
    match X.posts t with
    | x :: xs => some { X with
        posts := Function.update X.posts t xs
        queue := push X.queue t x }
    | [] => none
  | .onWrite t =>
    match X.queue t with
    | x :: xs => some (arrive G { X with
        queue := Function.update X.queue t xs
        written := push X.written t x } t x)
    | [] => none

/-! ## The view -/

/-- A text put on a strand's way out. -/
def outgoing (X : Network N) (t : Strand N) : List (Traced N Text) := X.queue t ++ X.posts t

end Network

/-- What is on its way to a strand, what was sent on it, and what its running handler has still
to send. -/
@[ext]
structure View (N : Type) where
  mail : Strand N → List (Traced N Frame)
  pending : Strand N → List (Traced N Effect)
  sent : Strand N → List (Traced N Text)
  issued : Strand N → Nat
  log : List (Strand N × Traced N Effect)

def Network.view {N : Type} (G : Topology N) (X : Network N) : View N where
  mail t := X.inbox t ++ ((G.peer t).toList.flatMap X.outgoing).map (Traced.map Frame.object)
  pending := X.pending
  sent t := X.written t ++ X.outgoing t
  issued := X.issued
  log := X.log

namespace View

variable {N : Type} [DecidableEq N] (G : Topology N)

/-- A text is sent on the strand `t`. -/
def send (V : View N) (x : Option (Strand N × Text)) (o : Option (Origin N)) : View N :=
  match x with
  | some (t, text) => { V with
      sent := push V.sent t ⟨o, text⟩
      mail := match G.peer t with
        | some u => push V.mail u ⟨o, .object text⟩
        | none => V.mail }
  | none => V

/-- The handler on `t` takes a frame, which leaves `fs`, and will send `es`. -/
def start (V : View N) (t : Strand N) (fs : List (Traced N Frame))
    (es : List (Traced N Effect)) : View N :=
  { V with
    mail := Function.update V.mail t fs
    pending := Function.update V.pending t es }

/-- The handler on `t` sends its next effect. -/
def post (V : View N) (t : Strand N) (e : Traced N Effect) (es : List (Traced N Effect)) :
    View N :=
  send G { V with
    pending := Function.update V.pending t es
    log := V.log ++ [(t, e)] } (e.value.destination t.node) e.origin

/-- The steps of a view. -/
inductive Step (V : View N) : View N → Prop where
  | quiet : Step V V
  | request (t : Strand N) (frame : Frame) (client : t.context = .onClient) : Step V { V with
      mail := push V.mail t ⟨some ⟨t, V.issued t, 0⟩, frame⟩
      issued := Function.update V.issued t (V.issued t + 1) }
  | announce (t : Strand N) (text : Text) : Step V (V.send G (some (t, text)) none)
  | read (t : Strand N) (f : Traced N Frame) (fs : List (Traced N Frame)) (env : Env)
    (st : State) (w : World) (mail : V.mail t = f :: fs) (idle : V.pending t = [])
    (eq : t.onRead f.value (.start env st) = (.ok (), w)) :
    Step V (V.start t fs (Network.caused f.origin w.effects))
  | post (t : Strand N) (e : Traced N Effect) (es : List (Traced N Effect))
    (pending : V.pending t = e :: es) : Step V (V.post G t e es)

end View

namespace Topology

variable {N : Type} (G : Topology N)

theorem peer_symm {t u : Strand N} (h : G.peer t = some u) : G.peer u = some t := by
  obtain ⟨n, context, s⟩ := t
  unfold peer at h
  cases context with
  | onClient => cases h
  | onSession =>
    obtain ⟨⟨m, s'⟩, hl, rfl⟩ := Option.map_eq_some_iff.mp h
    simp [peer, G.symm hl]

theorem context_of_peer {t u : Strand N} (h : G.peer t = some u) : t.context = .onSession := by
  unfold peer at h
  cases hc : t.context with
  | onSession => rfl
  | onClient =>
    rw [hc] at h
    cases h

theorem peer_onClient {t : Strand N} (h : t.context = .onClient) : G.peer t = none := by
  simp [peer, h]

end Topology

namespace Network

variable {N : Type} (G : Topology N)

theorem view_mail_of_peer (X : Network N) {t u : Strand N} (h : G.peer t = some u) :
    (X.view G).mail t = X.inbox t ++ (X.outgoing u).map (Traced.map Frame.object) := by
  simp [view, h]

theorem view_mail_of_none (X : Network N) {t : Strand N} (h : G.peer t = none) :
    (X.view G).mail t = X.inbox t := by
  simp [view, h]

/-- The mail of a strand is what it was, when the inbox and the other end's way out are. -/
theorem view_mail_congr {X Y : Network N} {t : Strand N} (hi : Y.inbox t = X.inbox t)
    (ho : ∀ u, G.peer u = some t → Y.outgoing u = X.outgoing u) :
    (Y.view G).mail t = (X.view G).mail t := by
  cases hp : G.peer t with
  | none => rw [view_mail_of_none G X hp, view_mail_of_none G Y hp, hi]
  | some u =>
    rw [view_mail_of_peer G X hp, view_mail_of_peer G Y hp, hi, ho u (G.peer_symm hp)]

variable [DecidableEq N]

/-- `send` as the view sees it. -/
theorem view_send (X : Network N) (x : Option (Strand N × Text)) (o : Option (Origin N)) :
    (X.send x o).view G = (X.view G).send G x o := by
  rcases x with - | ⟨t, text⟩
  · rfl
  refine View.ext (funext fun u => ?_) rfl (funext fun u => ?_) rfl rfl
  · by_cases hu : G.peer t = some u
    · rw [view_mail_of_peer G _ (G.peer_symm hu)]
      simp [View.send, hu, view_mail_of_peer G X (G.peer_symm hu), send, outgoing, Traced.map]
    · have hsame : (View.send G (X.view G) (some (t, text)) o).mail u = (X.view G).mail u := by
        cases hp : G.peer t with
        | none => simp [View.send, hp]
        | some v =>
          simp only [View.send, hp]
          exact push_of_ne _ _ _ fun h => hu (by rw [hp, h])
      rw [hsame]
      refine view_mail_congr G rfl fun v hv => ?_
      have hne : v ≠ t := by
        rintro rfl
        exact hu hv
      simp [outgoing, send, push_of_ne _ _ _ hne]
  · by_cases hu : u = t
    · subst hu
      simp [view, View.send, send, outgoing]
    · simp [view, View.send, send, outgoing, push_of_ne _ _ _ hu]

/-- Moving a text from the posts to the write queue leaves the view as it is. -/
theorem view_onSend (X : Network N) {t : Strand N} {x : Traced N Text} {xs : List (Traced N Text)}
    (h : X.posts t = x :: xs) :
    view G { X with posts := Function.update X.posts t xs, queue := push X.queue t x } =
      X.view G := by
  have hout : ∀ u, outgoing { X with
      posts := Function.update X.posts t xs, queue := push X.queue t x } u = X.outgoing u := by
    intro u
    by_cases hu : u = t
    · subst hu
      simp [outgoing, h]
    · simp [outgoing, push_of_ne _ _ _ hu, Function.update_of_ne hu]
  refine View.ext (funext fun u => view_mail_congr G rfl fun v _ => hout v) rfl
    (funext fun u => ?_) rfl rfl
  change X.written u ++ outgoing _ u = X.written u ++ X.outgoing u
  rw [hout u]

section

variable (X : Network N) (t : Strand N) (x : Traced N Text)

@[simp] theorem arrive_pending : (X.arrive G t x).pending = X.pending := by
  unfold arrive
  split <;> rfl

@[simp] theorem arrive_posts : (X.arrive G t x).posts = X.posts := by
  unfold arrive
  split <;> rfl

@[simp] theorem arrive_queue : (X.arrive G t x).queue = X.queue := by
  unfold arrive
  split <;> rfl

@[simp] theorem arrive_written : (X.arrive G t x).written = X.written := by
  unfold arrive
  split <;> rfl

@[simp] theorem arrive_issued : (X.arrive G t x).issued = X.issued := by
  unfold arrive
  split <;> rfl

@[simp] theorem arrive_log : (X.arrive G t x).log = X.log := by
  unfold arrive
  split <;> rfl

theorem arrive_inbox_of_ne {u : Strand N} (h : G.peer t ≠ some u) :
    (X.arrive G t x).inbox u = X.inbox u := by
  unfold arrive
  split
  · rename_i v hv
    exact push_of_ne _ _ _ fun he => h (by rw [hv, he])
  · rfl

end

/-- So does writing a text to a socket: it stays on its way to the other end. -/
theorem view_onWrite (X : Network N) {t : Strand N} {x : Traced N Text}
    {xs : List (Traced N Text)} (h : X.queue t = x :: xs) :
    view G (arrive G { X with
        queue := Function.update X.queue t xs, written := push X.written t x } t x) =
      X.view G := by
  have hother : ∀ u, u ≠ t → outgoing (arrive G { X with
      queue := Function.update X.queue t xs, written := push X.written t x } t x) u =
        X.outgoing u := by
    intro u hu
    simp [outgoing, Function.update_of_ne hu]
  refine View.ext (funext fun u => ?_) (arrive_pending ..) (funext fun u => ?_)
    (arrive_issued ..) (arrive_log ..)
  · by_cases hu : G.peer t = some u
    · rw [view_mail_of_peer G _ (G.peer_symm hu), view_mail_of_peer G X (G.peer_symm hu)]
      simp [arrive, hu, outgoing, h]
    · refine view_mail_congr G (arrive_inbox_of_ne G _ t x hu) fun v hv => hother v ?_
      rintro rfl
      exact hu hv
  · change written _ u ++ outgoing _ u = X.written u ++ X.outgoing u
    by_cases hu : u = t
    · subst hu
      simp [outgoing, h]
    · rw [hother u hu, arrive_written]
      exact congrArg (· ++ X.outgoing u) (push_of_ne _ _ _ hu)

/-- A client's frame goes to the end of its mail. -/
theorem view_request (X : Network N) {t : Strand N} (h : t.context = .onClient)
    (f : Traced N Frame) (k : Nat) :
    view G { X with
      inbox := push X.inbox t f, issued := Function.update X.issued t k } =
    { X.view G with
      mail := push (X.view G).mail t f
      issued := Function.update X.issued t k } := by
  refine View.ext (funext fun u => ?_) rfl rfl rfl rfl
  by_cases hu : u = t
  · subst hu
    refine (view_mail_of_none G _ (G.peer_onClient h)).trans ?_
    change push X.inbox u f u = push (X.view G).mail u f u
    rw [push_self, push_self, view_mail_of_none G X (G.peer_onClient h)]
  · refine Eq.trans (b := (X.view G).mail u) ?_ (push_of_ne _ _ _ hu).symm
    exact view_mail_congr G (push_of_ne _ _ _ hu) fun _ _ => rfl

/-- Reading takes the first frame of the mail. -/
theorem view_read (X : Network N) {t : Strand N} {f : Traced N Frame}
    {fs : List (Traced N Frame)} (h : X.inbox t = f :: fs) (es : List (Traced N Effect)) :
    ∃ rest, (X.view G).mail t = f :: rest ∧
      view G { X with
        inbox := Function.update X.inbox t fs, pending := Function.update X.pending t es } =
      (X.view G).start t rest es := by
  refine ⟨fs ++ ((G.peer t).toList.flatMap X.outgoing).map (Traced.map Frame.object), ?_, ?_⟩
  · simp [view, h]
  · refine View.ext (funext fun u => ?_) rfl rfl rfl rfl
    by_cases hu : u = t
    · subst hu
      simp only [view, View.start, Function.update_self]
      rfl
    · refine Eq.trans (b := (X.view G).mail u) ?_ (Function.update_of_ne hu ..).symm
      exact view_mail_congr G (Function.update_of_ne hu ..) fun _ _ => rfl

/-- **A step of the network is a step of its view.** -/
theorem view_step {X Y : Network N} {a : Action N} (h : X.step G a = some Y) :
    (X.view G).Step G (Y.view G) := by
  cases a with
  | request n c frame =>
    cases h
    rw [view_request G X rfl]
    exact .request ⟨n, .onClient, c⟩ frame rfl
  | announce t text =>
    cases h
    rw [view_send]
    exact .announce t text
  | read t env st =>
    simp only [step] at h
    split at h
    · rename_i f fs hi hp
      split at h
      · split at h
        · rename_i w hw
          cases h
          obtain ⟨rest, hmail, hview⟩ := view_read G X hi (caused f.origin w.effects)
          rw [hview]
          exact .read t f rest env st w hmail hp hw
        · cases h
      · cases h
    · cases h
  | post t =>
    simp only [step] at h
    split at h
    · rename_i e es hp
      cases h
      rw [view_send]
      exact .post t e es hp
    · cases h
  | onSend t =>
    simp only [step] at h
    split at h
    · rename_i x xs hp
      cases h
      rw [view_onSend G X hp]
      exact .quiet
    · cases h
  | onWrite t =>
    simp only [step] at h
    split at h
    · rename_i x xs hq
      cases h
      rw [view_onWrite G X hq]
      exact .quiet
    · cases h

/-- **What every step of the view preserves holds after a run of the network.** -/
theorem view_invariant {I : View N → Prop} (hstep : ∀ {V W : View N}, I V → V.Step G W → I W)
    {X Y : Network N} {as : List (Action N)} (hI : I (X.view G))
    (h : Run.exec (step G) X as = some Y) : I (Y.view G) :=
  Run.exec_invariant (fun hI hs => hstep hI (view_step G hs)) hI h

end Network

/-! ## The outbox of a strand -/

/-- The kind of connection whose handlers run on the strand. -/
def Strand.connection {N : Type} (t : Strand N) : Connection :=
  match t.context with
  | .onClient => .client
  | .onSession => .session

namespace Network

/-- The write queue of a strand, and what it wrote. -/
def outbox {N : Type} (X : Network N) (t : Strand N) : Outbox (Traced N Text) where
  queue := X.queue t
  outstanding := (X.queue t).head?.toList
  completed := X.written t

section

variable {N : Type} {X Y : Network N} {t : Strand N}

theorem outbox_chained : (X.outbox t).Chained := rfl

theorem outbox_congr (hq : Y.queue t = X.queue t) (hw : Y.written t = X.written t) :
    Y.outbox t = X.outbox t := by
  simp [outbox, hq, hw]

/-- An outbox whose front is being written is that of its strand. -/
theorem eq_outbox {o : Outbox (Traced N Text)} (h : o.Chained) (hq : o.queue = X.queue t)
    (hw : o.completed = X.written t) : o = X.outbox t := by
  obtain ⟨queue, outstanding, completed⟩ := o
  cases hq
  cases hw
  exact congrArg (Outbox.mk _ · _) h

end

variable {N : Type} [DecidableEq N] {G : Topology N} {X Y : Network N} {t u : Strand N}

/-- **A posted text goes through `on_send` of its connection**, and the other strands wait. -/
theorem outbox_onSend (h : X.step G (.onSend t) = some Y) : ∃ x xs, X.posts t = x :: xs ∧
    Y.outbox t = t.connection.onSend x (X.outbox t) ∧ ∀ u ≠ t, Y.outbox u = X.outbox u := by
  simp only [step] at h
  split at h
  · rename_i x xs hp
    cases h
    obtain ⟨hchained, hqueue, hcompleted⟩ :=
      Outbox.onSend_spec (outbox_chained (X := X) (t := t)) x
    refine ⟨x, xs, hp, ?_, fun u hu => outbox_congr (push_of_ne _ _ _ hu) rfl⟩
    rw [Outbox.onSend_eq]
    symm
    refine eq_outbox hchained (hqueue.trans ?_) ?_
    · exact (push_self X.queue t x).symm
    · exact hcompleted
  · cases h

/-- **A write that completes goes through `on_write` of its connection.** -/
theorem outbox_onWrite (h : X.step G (.onWrite t) = some Y) : ∃ x xs, X.queue t = x :: xs ∧
    Y.outbox t = t.connection.onWrite false ⟨x :: xs, [], X.written t ++ [x]⟩ ∧
    ∀ u ≠ t, Y.outbox u = X.outbox u := by
  simp only [step] at h
  split at h
  · rename_i x xs hq
    cases h
    obtain ⟨hchained, hqueue, hcompleted⟩ := Outbox.onWrite_spec
      (o := ⟨x :: xs, [], X.written t ++ [x]⟩) rfl rfl
    refine ⟨x, xs, hq, ?_, fun u hu => outbox_congr ?_ ?_⟩
    · rw [Outbox.onWrite_eq]
      symm
      refine eq_outbox hchained (hqueue.trans ?_) (hcompleted.trans ?_)
      · rw [arrive_queue]
        exact (Function.update_self t xs X.queue).symm
      · rw [arrive_written]
        exact (push_self X.written t x).symm
    · rw [arrive_queue]
      exact Function.update_of_ne hu ..
    · rw [arrive_written]
      exact push_of_ne _ _ _ hu
  · cases h

theorem send_queue (x : Option (Strand N × Text)) (o : Option (Origin N)) :
    (X.send x o).queue = X.queue := by
  unfold send
  split <;> rfl

theorem send_written (x : Option (Strand N × Text)) (o : Option (Origin N)) :
    (X.send x o).written = X.written := by
  unfold send
  split <;> rfl

/-- **A step is one handler of the outbox of a strand, or leaves it as it is.** -/
theorem outbox_step {a : Action N} (h : X.step G a = some Y) (t : Strand N) :
    Y.outbox t = X.outbox t ∨
      ∃ b, Outbox.step t.connection (X.outbox t) b = some (Y.outbox t) := by
  cases a with
  | request n c frame =>
    cases h
    exact .inl rfl
  | announce u text =>
    cases h
    exact .inl (outbox_congr rfl rfl)
  | read u env st =>
    simp only [step] at h
    split at h
    · split at h
      · split at h
        · cases h
          exact .inl rfl
        · cases h
      · cases h
    · cases h
  | post u =>
    simp only [step] at h
    split at h
    · cases h
      exact .inl (outbox_congr (by rw [send_queue]) (by rw [send_written]))
    · cases h
  | onSend u =>
    obtain ⟨x, xs, -, heq, hother⟩ := outbox_onSend h
    by_cases htu : t = u
    · subst htu
      exact .inr ⟨.send x, congrArg some heq.symm⟩
    · exact .inl (hother t htu)
  | onWrite u =>
    obtain ⟨x, xs, hq, heq, hother⟩ := outbox_onWrite h
    by_cases htu : t = u
    · subst htu
      refine .inr ⟨.written 0, ?_⟩
      simp [Outbox.step, outbox, hq, ← heq]
    · exact .inl (hother t htu)

/-- **What a strand writes in a run, the handlers of its connection write.** -/
theorem outbox_run {as : List (Action N)} (h : Run.exec (step G) X as = some Y) (t : Strand N) :
    ∃ bs, Run.exec (Outbox.step t.connection) (X.outbox t) bs = some (Y.outbox t) := by
  refine Run.exec_invariant (I := fun Z =>
    ∃ bs, Run.exec (Outbox.step t.connection) (X.outbox t) bs = some (Z.outbox t)) ?_ ⟨[], rfl⟩ h
  rintro Z a W ⟨bs, hbs⟩ hs
  rcases outbox_step hs t with heq | ⟨b, hb⟩
  · exact ⟨bs, by rw [heq, hbs]⟩
  · exact ⟨bs ++ [b], Run.exec_append.mpr ⟨_, hbs, Run.exec_cons.mpr ⟨_, hb, rfl⟩⟩⟩

end Network

end Aewt
