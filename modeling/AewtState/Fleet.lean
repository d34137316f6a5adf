import AewtState.Lines
import AewtState.Publishing

/-!
# The nodes with their stores and their queues

The nodes of a cluster once their sessions are up, as they run: a handler reads the stores of its
node as they are, and what it sends goes out text by text, through the strands and the write
queues, while other handlers run.

* `Fleet` — the nodes, the network between them, and for every client the operation that its
  connection waits for.  `home` and `dropped` are bookkeeping: the node a client connected to, and
  the texts that `client::send` dropped.
* `Fleet.step` — a client comes, is accepted, sends a frame or fails; a handler reads a frame, sends
  one text, or looks up the subscribed sessions; a posted `on_send` runs; a write completes.
* `Fleet.Scene` — the same without the queues inside a connection.

A handler takes effect in the stores when it starts; it changes them in one place at most, and
reads what decides its texts there, but for a publish.  The sessions of a node stay what they are.
A handler that raises ends the process and has no step.

Principal result: `scene_step` — a step of the fleet is a step of its scene.
-/

set_option autoImplicit false

namespace Aewt

structure Fleet (N : Type) where
  node : N → State
  net : Network N := {}
  /-- What the connection of a client waits for. -/
  op : Uuid → Option Op := fun _ => none
  home : Uuid → Option N := fun _ => none
  /-- What a handler that reads no frame has still to send. -/
  notices : Strand N → List Effect := fun _ => []
  /-- The publish whose subscribed sessions the handler has still to look up. -/
  due : Strand N → Option (Traced N Publishing) := fun _ => none
  dropped : Strand N → List (Traced N Text) := fun _ => []

inductive Fleet.Action (N : Type) where
  /-- `client_listener::on_accept`. -/
  | connect (n : N) (c : Uuid) (env : Env)
  /-- `client::on_accept`. -/
  | accept (n : N) (c : Uuid) (runAt : Int64) (env : Env)
  /-- `client::on_accept` or `client::on_read` with an error. -/
  | fail (n : N) (c : Uuid) (env : Env)
  /-- A client sends a frame. -/
  | request (n : N) (c : Uuid) (frame : Frame)
  /-- `on_read`. -/
  | read (t : Strand N) (env : Env)
  /-- A handler that reads no frame calls `send`. -/
  | announce (t : Strand N)
  /-- A handler that reads a frame calls `send`. -/
  | post (t : Strand N)
  /-- `send_to_subscribed_sessions` looks up the sessions. -/
  | lookup (t : Strand N)
  | onSend (t : Strand N)
  | onWrite (t : Strand N)

/-- The strand of a client. -/
abbrev Strand.client {N : Type} (n : N) (c : Uuid) : Strand N := ⟨n, .onClient, c⟩

/-- One end of a session. -/
abbrev Strand.session {N : Type} (n : N) (s : Uuid) : Strand N := ⟨n, .onSession, s⟩

namespace Fleet

variable {N : Type}

/-- No handler runs on the strand. -/
def Idle (X : Fleet N) (t : Strand N) : Prop :=
  X.notices t = [] ∧ X.net.pending t = [] ∧ X.due t = none

instance (X : Fleet N) (t : Strand N) : Decidable (X.Idle t) :=
  decidable_of_iff ((X.notices t).isEmpty = true ∧ (X.net.pending t).isEmpty = true ∧
    (X.due t).isNone = true) (by simp [Idle])

variable [DecidableEq N]

/-- `is_open()`: the handshake is done and the connection has not failed.  The sessions are up. -/
def IsOpen (X : Fleet N) (t : Strand N) : Prop :=
  t.context = .onClient → X.home t.id = some t.node ∧ X.op t.id = some .read

instance (X : Fleet N) (t : Strand N) : Decidable (X.IsOpen t) :=
  inferInstanceAs (Decidable (_ → _))

/-- `send`, called on node `n`, posts `on_send` to an open connection. -/
def send (X : Fleet N) (n : N) (e : Traced N Effect) : Fleet N :=
  match e.value.destination n with
  | some (u, text) =>
    if X.IsOpen u then { X with net := X.net.send (some (u, text)) e.origin }
    else { X with dropped := push X.dropped u ⟨e.origin, text⟩ }
  | none => X

/-- A handler that reads no frame starts. -/
def handle (X : Fleet N) (t : Strand N) (op : Option Op) (env : Env) (x : M Unit) :
    Option (Fleet N) :=
  if X.Idle t then
    match x (.start env (X.node t.node)) with
    | (.ok (), w) => some { X with
        node := Function.update X.node t.node w.state
        op := Function.update X.op t.id op
        notices := Function.update X.notices t w.effects }
    | (.error _, _) => none
  else none

variable (G : Topology N)

def step (X : Fleet N) : Action N → Option (Fleet N)
  | .connect n c env =>
    if X.home c = none then
      ({ X with home := Function.update X.home c (some n) } : Fleet N).handle (.client n c)
        (some .handshake) env (clientListenerOnAccept c)
    else none
  | .accept n c runAt env =>
    if X.home c = some n ∧ X.op c = some .handshake then
      X.handle (.client n c) (some .read) env (Client.onAccept c runAt)
    else none
  | .fail n c env =>
    if X.home c = some n ∧ X.op c ≠ none then X.handle (.client n c) none env (Client.leave c)
    else none
  | .request n c frame =>
    if X.home c = some n then
      (X.net.step G (.request n c frame)).map fun net => { X with net := net }
    else none
  | .read t env =>
    match X.net.inbox t with
    | f :: fs =>
      if X.Idle t ∧ X.IsOpen t then
        match t.onRead f.value (.start env (X.node t.node)) with
        | (.ok (), w) =>
          let first := t.cut f.value (X.node t.node) w
          some { X with
            node := Function.update X.node t.node first.1.state
            net := { X.net with
              inbox := Function.update X.net.inbox t fs
              pending := Function.update X.net.pending t
                (Network.caused f.origin first.1.effects) }
            due := Function.update X.due t (first.2.map (Traced.mk f.origin)) }
        | (.error _, _) => none
      else none
    | [] => none
  | .lookup t =>
    match X.due t with
    | some p =>
      if X.notices t = [] ∧ X.net.pending t = [] then
        some { X with
          net := { X.net with
            pending := Function.update X.net.pending t
              (Network.caused p.origin (p.value.effects (X.node t.node))) }
          due := Function.update X.due t none }
      else none
    | none => none
  | .announce t =>
    match X.notices t with
    | e :: es =>
      some (send { X with notices := Function.update X.notices t es } t.node ⟨none, e⟩)
    | [] => none
  | .post t =>
    match X.net.pending t with
    | e :: es =>
      if X.notices t = [] then
        some (send { X with
          net := { X.net with pending := Function.update X.net.pending t es } } t.node e)
      else none
    | [] => none
  | .onSend t => (X.net.step G (.onSend t)).map fun net => { X with net := net }
  | .onWrite t => (X.net.step G (.onWrite t)).map fun net => { X with net := net }

/-! ## The scene -/

/-- What is on its way to a strand, what was sent on it or dropped, and what its handler has still
to do, each with the request that caused it. -/
@[ext]
structure Scene (N : Type) where
  node : N → State
  op : Uuid → Option Op
  home : Uuid → Option N
  waiting : Strand N → List (Traced N Effect)
  due : Strand N → Option (Traced N Publishing)
  mail : Strand N → List (Traced N Frame)
  sent : Strand N → List (Traced N Text)
  dropped : Strand N → List (Traced N Text)
  issued : Strand N → Nat

namespace Scene

/-- The connection of the strand is open. -/
def IsOpen (S : Scene N) (t : Strand N) : Prop :=
  t.context = .onClient → S.home t.id = some t.node ∧ S.op t.id = some .read

instance (S : Scene N) (t : Strand N) : Decidable (S.IsOpen t) :=
  inferInstanceAs (Decidable (_ → _))

/-- The handler on `t`, which reads a frame with this origin or none, has `es` to send. -/
def awaits (S : Scene N) (t : Strand N) (o : Option (Origin N)) (es : List Effect) : Scene N :=
  { S with waiting := Function.update S.waiting t (Network.caused o es) }

/-- The handler on `t` starts. -/
def starts (S : Scene N) (t : Strand N) (o : Option (Origin N)) (w : World) : Scene N :=
  { S.awaits t o w.effects with node := Function.update S.node t.node w.state }

/-- A text is sent, or dropped if the connection is not open. -/
def deliver (S : Scene N) (x : Option (Strand N × Text)) (o : Option (Origin N)) : Scene N :=
  match x with
  | some (t, text) =>
    if S.IsOpen t then { S with
      sent := push S.sent t ⟨o, text⟩
      mail := match G.peer t with
        | some u => push S.mail u ⟨o, .object text⟩
        | none => S.mail }
    else { S with dropped := push S.dropped t ⟨o, text⟩ }
  | none => S

/-- The handler on `t` sends its next effect. -/
def sends (S : Scene N) (t : Strand N) (e : Traced N Effect) (es : List (Traced N Effect)) :
    Scene N :=
  deliver G { S with waiting := Function.update S.waiting t es } (e.value.destination t.node)
    e.origin

section

variable (S : Scene N) (t : Strand N) (e : Traced N Effect) (es : List (Traced N Effect))

/-- What a text that is sent leaves as it is. -/
theorem deliver_frame (x : Option (Strand N × Text)) (o : Option (Origin N)) :
    (S.deliver G x o).node = S.node ∧ (S.deliver G x o).op = S.op ∧
      (S.deliver G x o).home = S.home ∧ (S.deliver G x o).waiting = S.waiting ∧
      (S.deliver G x o).due = S.due ∧ (S.deliver G x o).issued = S.issued := by
  unfold deliver
  split
  · split <;> exact ⟨rfl, rfl, rfl, rfl, rfl, rfl⟩
  · exact ⟨rfl, rfl, rfl, rfl, rfl, rfl⟩

@[simp] theorem sends_node : (S.sends G t e es).node = S.node := (deliver_frame ..).1

@[simp] theorem sends_op : (S.sends G t e es).op = S.op := (deliver_frame ..).2.1

@[simp] theorem sends_home : (S.sends G t e es).home = S.home := (deliver_frame ..).2.2.1

@[simp] theorem sends_waiting :
    (S.sends G t e es).waiting = Function.update S.waiting t es := (deliver_frame ..).2.2.2.1

@[simp] theorem sends_due : (S.sends G t e es).due = S.due := (deliver_frame ..).2.2.2.2.1

@[simp] theorem sends_issued : (S.sends G t e es).issued = S.issued :=
  (deliver_frame ..).2.2.2.2.2

end

/-- The steps of a scene. -/
inductive Step (S : Scene N) : Action N → Scene N → Prop where
  | connect {n : N} {c : Uuid} {env : Env} {w : World} (fresh : S.home c = none)
    (idle : S.waiting (.client n c) = [])
    (eq : clientListenerOnAccept c (.start env (S.node n)) = (.ok (), w)) :
    Step S (.connect n c env) { S.starts (.client n c) none w with
      home := Function.update S.home c (some n)
      op := Function.update S.op c (some .handshake) }
  | accept {n : N} {c : Uuid} {runAt : Int64} {env : Env} {w : World}
    (home : S.home c = some n) (op : S.op c = some .handshake)
    (idle : S.waiting (.client n c) = [])
    (eq : Client.onAccept c runAt (.start env (S.node n)) = (.ok (), w)) :
    Step S (.accept n c runAt env) { S.starts (.client n c) none w with
      op := Function.update S.op c (some .read) }
  | fail {n : N} {c : Uuid} {env : Env} {w : World} (home : S.home c = some n)
    (op : S.op c ≠ none) (idle : S.waiting (.client n c) = [])
    (eq : Client.leave c (.start env (S.node n)) = (.ok (), w)) :
    Step S (.fail n c env) { S.starts (.client n c) none w with op := Function.update S.op c none }
  | request {n : N} {c : Uuid} {frame : Frame} (home : S.home c = some n) :
    Step S (.request n c frame) { S with
      mail := push S.mail (.client n c) ⟨some ⟨.client n c, S.issued (.client n c), 0⟩, frame⟩
      issued := Function.update S.issued (.client n c) (S.issued (.client n c) + 1) }
  | read {t : Strand N} {env : Env} {f : Traced N Frame} {fs : List (Traced N Frame)} {w : World}
    (opened : S.IsOpen t) (idle : S.waiting t = []) (free : S.due t = none)
    (mail : S.mail t = f :: fs) (eq : t.onRead f.value (.start env (S.node t.node)) = (.ok (), w)) :
    Step S (.read t env) { S.starts t f.origin (t.cut f.value (S.node t.node) w).1 with
      mail := Function.update S.mail t fs
      due := Function.update S.due t
        ((t.cut f.value (S.node t.node) w).2.map (Traced.mk f.origin)) }
  | lookup {t : Strand N} {p : Traced N Publishing} (due : S.due t = some p)
    (idle : S.waiting t = []) :
    Step S (.lookup t) { S.awaits t p.origin (p.value.effects (S.node t.node)) with
      due := Function.update S.due t none }
  | announce {t : Strand N} {e : Traced N Effect} {es : List (Traced N Effect)}
    (waiting : S.waiting t = e :: es) : Step S (.announce t) (S.sends G t e es)
  | post {t : Strand N} {e : Traced N Effect} {es : List (Traced N Effect)}
    (waiting : S.waiting t = e :: es) : Step S (.post t) (S.sends G t e es)
  | onSend {t : Strand N} : Step S (.onSend t) S
  | onWrite {t : Strand N} : Step S (.onWrite t) S

end Scene

/-- The scene of a fleet whose network looks like `V`. -/
def stage (X : Fleet N) (V : View N) : Scene N where
  node := X.node
  op := X.op
  home := X.home
  waiting t := Network.caused none (X.notices t) ++ V.pending t
  due := X.due
  mail := V.mail
  sent := V.sent
  dropped := X.dropped
  issued := V.issued

def scene (X : Fleet N) : Scene N := X.stage (X.net.view G)

section

variable {G} (X : Fleet N) {V : View N} {t : Strand N}

/-- A handler that reads no frame starts. -/
theorem stage_handle (hn : X.notices t = []) (hp : V.pending t = []) (w : World) :
    stage { X with
        node := Function.update X.node t.node w.state
        notices := Function.update X.notices t w.effects } V = (X.stage V).starts t none w := by
  refine Scene.ext rfl rfl rfl (funext fun u => ?_) rfl rfl rfl rfl rfl
  by_cases hu : u = t
  · subst hu
    simp [stage, Scene.starts, Scene.awaits, hp]
  · simp [stage, Scene.starts, Scene.awaits, Function.update_of_ne hu]

/-- A handler that reads a frame has something to send. -/
theorem stage_awaits (hn : X.notices t = []) (o : Option (Origin N)) (es : List Effect) :
    X.stage { V with pending := Function.update V.pending t (Network.caused o es) } =
      (X.stage V).awaits t o es := by
  refine Scene.ext rfl rfl rfl (funext fun u => ?_) rfl rfl rfl rfl rfl
  by_cases hu : u = t
  · subst hu
    simp [stage, Scene.awaits, hn, Network.caused]
  · simp [stage, Scene.awaits, Function.update_of_ne hu]

/-- `send` as the scene sees it. -/
theorem scene_send (n : N) (e : Traced N Effect) :
    (X.send n e).scene G = (X.scene G).deliver G (e.value.destination n) e.origin := by
  unfold send Scene.deliver
  split
  · rename_i u text _
    by_cases ho : X.IsOpen u
    · have ho' : (X.scene G).IsOpen u := ho
      rw [if_pos ho, if_pos ho']
      exact congrArg X.stage (Network.view_send G X.net (some (u, text)) e.origin)
    · have ho' : ¬ (X.scene G).IsOpen u := ho
      rw [if_neg ho, if_neg ho']
      rfl
  · rfl

/-- A handler that reads no frame sends its next text. -/
theorem scene_announce {e : Effect} {es : List Effect} (hn : X.notices t = e :: es) :
    (send { X with notices := Function.update X.notices t es } t.node ⟨none, e⟩).scene G =
      (X.scene G).sends G t ⟨none, e⟩ (Network.caused none es ++ X.net.pending t) := by
  rw [scene_send, Scene.sends]
  congr 1
  refine Scene.ext rfl rfl rfl (funext fun u => ?_) rfl rfl rfl rfl rfl
  by_cases hu : u = t
  · subst hu
    simp [scene, stage, Network.view]
  · simp [scene, stage, Function.update_of_ne hu]

/-- A handler that reads a frame sends its next text. -/
theorem scene_post {e : Traced N Effect} {es : List (Traced N Effect)} (hn : X.notices t = []) :
    (send { X with net := { X.net with pending := Function.update X.net.pending t es } }
      t.node e).scene G = (X.scene G).sends G t e es := by
  rw [scene_send, Scene.sends]
  congr 1
  refine Scene.ext rfl rfl rfl (funext fun u => ?_) rfl rfl rfl rfl rfl
  by_cases hu : u = t
  · subst hu
    simp [scene, stage, Network.view, hn, Network.caused]
  · simp [scene, stage, Network.view, Function.update_of_ne hu]

end

/-! ## Steps -/

variable {G} {X Y : Fleet N} {t : Strand N}

omit [DecidableEq N] in
theorem waiting_of_idle (hn : X.notices t = []) (hp : X.net.pending t = []) :
    (X.scene G).waiting t = [] := by
  have hpending : (X.net.view G).pending t = [] := hp
  simp [scene, stage, Network.caused, hn, hpending]

/-- A handler that reads no frame starts in the scene. -/
theorem handle_scene {op : Option Op} {env : Env} {x : M Unit}
    (h : X.handle t op env x = some Y) : (X.scene G).waiting t = [] ∧
    ∃ w, x (.start env (X.node t.node)) = (.ok (), w) ∧
      Y.scene G = { (X.scene G).starts t none w with op := Function.update X.op t.id op } := by
  unfold handle at h
  split at h
  · rename_i hidle
    split at h
    · rename_i w hw
      cases h
      exact ⟨waiting_of_idle hidle.1 hidle.2.1, w, hw,
        congrArg (fun S : Scene N => { S with op := Function.update X.op t.id op })
          (stage_handle X hidle.1 hidle.2.1 w)⟩
    · cases h
  · cases h

/-- **A step of the fleet is a step of its scene.** -/
theorem scene_step {a : Action N} (h : X.step G a = some Y) :
    (X.scene G).Step G a (Y.scene G) := by
  cases a with
  | connect n c env =>
    simp only [step] at h
    split at h
    · rename_i hc
      obtain ⟨hidle, w, hw, hY⟩ := handle_scene (G := G) h
      rw [hY]
      exact .connect hc hidle hw
    · cases h
  | accept n c runAt env =>
    simp only [step] at h
    split at h
    · rename_i hc
      obtain ⟨hidle, w, hw, hY⟩ := handle_scene (G := G) h
      rw [hY]
      exact .accept hc.1 hc.2 hidle hw
    · cases h
  | fail n c env =>
    simp only [step] at h
    split at h
    · rename_i hc
      obtain ⟨hidle, w, hw, hY⟩ := handle_scene (G := G) h
      rw [hY]
      exact .fail hc.1 hc.2 hidle hw
    · cases h
  | request n c frame =>
    simp only [step] at h
    split at h
    · rename_i hc
      cases h
      have hview := Network.view_request G X.net (t := .client n c) rfl
        ⟨some ⟨.client n c, X.net.issued (.client n c), 0⟩, frame⟩
        (X.net.issued (.client n c) + 1)
      have hY := congrArg X.stage hview
      exact Eq.subst (motive := (X.scene G).Step G (.request n c frame)) hY.symm (.request hc)
    · cases h
  | read t env =>
    simp only [step] at h
    split at h
    · rename_i f fs hf
      split at h
      · rename_i hopen
        split at h
        · rename_i w hw
          cases h
          obtain ⟨rest, hmail, hview⟩ := Network.view_read G X.net hf
            (Network.caused f.origin (t.cut f.value (X.node t.node) w).1.effects)
          refine Eq.subst (motive := (X.scene G).Step G (.read t env)) ?_
            (.read hopen.2 (waiting_of_idle hopen.1.1 hopen.1.2.1) hopen.1.2.2 hmail hw)
          have hstage := stage_awaits X (V := X.net.view G) hopen.1.1 f.origin
            (t.cut f.value (X.node t.node) w).1.effects
          refine Scene.ext rfl rfl rfl (congrArg Scene.waiting hstage).symm rfl ?_ ?_ rfl ?_
          · exact (congrArg View.mail hview).symm
          · exact (congrArg View.sent hview).symm
          · exact (congrArg View.issued hview).symm
        · cases h
      · cases h
    · cases h
  | lookup t =>
    simp only [step] at h
    split at h
    · rename_i p hp
      split at h
      · rename_i hidle
        cases h
        refine Eq.subst (motive := (X.scene G).Step G (.lookup t)) ?_
          (.lookup hp (waiting_of_idle hidle.1 hidle.2))
        exact congrArg (fun S : Scene N => { S with due := Function.update X.due t none })
          (stage_awaits X (V := X.net.view G) hidle.1 p.origin
            (p.value.effects (X.node t.node))).symm
      · cases h
    · cases h
  | announce t =>
    simp only [step] at h
    split at h
    · rename_i e es hn
      cases h
      rw [scene_announce X hn]
      refine .announce ?_
      simp [scene, stage, Network.view, Network.caused, hn]
    · cases h
  | post t =>
    simp only [step] at h
    split at h
    · rename_i e es hp
      split at h
      · rename_i hn
        cases h
        rw [scene_post X hn]
        refine .post ?_
        simp [scene, stage, Network.view, Network.caused, hn, hp]
      · cases h
    · cases h
  | onSend t =>
    obtain ⟨net, hnet, rfl⟩ := Option.map_eq_some_iff.mp h
    simp only [Network.step] at hnet
    split at hnet
    · rename_i x xs hx
      cases hnet
      have hY := congrArg X.stage (Network.view_onSend G X.net hx)
      exact Eq.subst (motive := (X.scene G).Step G (.onSend t)) hY.symm .onSend
    · cases hnet
  | onWrite t =>
    obtain ⟨net, hnet, rfl⟩ := Option.map_eq_some_iff.mp h
    simp only [Network.step] at hnet
    split at hnet
    · rename_i x xs hx
      cases hnet
      have hY := congrArg X.stage (Network.view_onWrite G X.net hx)
      exact Eq.subst (motive := (X.scene G).Step G (.onWrite t)) hY.symm .onWrite
    · cases hnet

end Fleet

end Aewt
