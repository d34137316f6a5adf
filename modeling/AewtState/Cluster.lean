import AewtState.Events
import AewtState.Lib.Run
import Mathlib.Logic.Function.Basic

/-!
# A cluster of nodes

Nodes whose sessions are connected in pairs, the texts in flight between them, and the clients
that connect, send requests and leave.

* `Cluster` — the nodes, for every session end the texts on their way to it, and what clients
  were sent.  `tag`, `tags` and `home` are bookkeeping that the nodes do not see: the request
  that caused a text, and the node a client connected to.
* `Cluster.step` — one handler of one node runs to its end.  `deliver` reads any text in
  flight; a run is `InOrder` when it always reads the first one, as a WebSocket does.
* `Mesh` — every two nodes share exactly one open session.

A handler that raises ends the process, so it has no step.

Principal results: `step_connect`, `step_request`, `step_disconnect`, `step_deliver` — each kind of
step is given by what the node stored and sent.
-/

set_option autoImplicit false

namespace Aewt

/-- A text in flight. -/
structure Packet where
  tag : Nat
  text : Text

/-- One `client::send`. -/
structure Sent (N : Type) where
  node : N
  client : Uuid
  tag : Nat
  text : Text

structure Cluster (N : Type) where
  /-- The other end of a session. -/
  links : N → Uuid → Option (N × Uuid)
  node : N → State
  wire : N → Uuid → List Packet
  log : List (Sent N)
  tags : Nat
  home : Uuid → Option N

inductive Action (N : Type) where
  | connect (n : N) (c : Uuid) (env : Env)
  | request (n : N) (c : Uuid) (frame : Frame) (env : Env)
  | disconnect (n : N) (c : Uuid) (env : Env)
  | deliver (n : N) (s : Uuid) (i : Nat) (env : Env)

def clientTexts (es : List Effect) : List (Uuid × Text) :=
  es.filterMap fun e => match e with
    | .client c text => some (c, text)
    | _ => none

@[simp] theorem clientTexts_append (es fs : List Effect) :
    clientTexts (es ++ fs) = clientTexts es ++ clientTexts fs := List.filterMap_append

namespace Cluster

variable {N : Type} [DecidableEq N]

/-- What node `n` put on the wire to the session end `(m, s)`. -/
def posted (links : N → Uuid → Option (N × Uuid)) (n : N) (tag : Nat) (es : List Effect)
    (m : N) (s : Uuid) : List Packet :=
  match links m s with
  | some (j, s') => if j = n then (textsTo s' es).map (Packet.mk tag) else []
  | none => []

/-- The cluster after node `n` ended in the world `w`. -/
def perform (X : Cluster N) (n : N) (tag : Nat) (w : World) : Cluster N :=
  { X with
    node := Function.update X.node n w.state
    wire := fun m s => X.wire m s ++ posted X.links n tag w.effects m s
    log := X.log ++ (clientTexts w.effects).map fun e => ⟨n, e.1, tag, e.2⟩ }

/-- The text with index `i` is taken off the wire. -/
def take (X : Cluster N) (n : N) (s : Uuid) (i : Nat) : Cluster N :=
  { X with wire := fun m s' => if m = n ∧ s' = s then (X.wire m s').eraseIdx i else X.wire m s' }

/-- A local client of the node. -/
def Local (X : Cluster N) (n : N) (c : Uuid) : Prop :=
  (X.node n).Holds (X.node n).id (.client c)

instance (X : Cluster N) (n : N) (c : Uuid) : Decidable (X.Local n c) :=
  inferInstanceAs (Decidable (_ ∈ (X.node n).clients.rows))

/-- Run a handler of node `n`. -/
def handle (X : Cluster N) (n : N) (tag : Nat) (env : Env) (x : M Unit) : Option (Cluster N) :=
  match x (.start env (X.node n)) with
  | (.ok (), w) => some (X.perform n tag w)
  | (.error _, _) => none

/-- A new tag for what a client causes. -/
def tagged (X : Cluster N) (n : N) (env : Env) (x : M Unit) : Option (Cluster N) :=
  (X.handle n X.tags env x).map fun Y => { Y with tags := X.tags + 1 }

def step (X : Cluster N) : Action N → Option (Cluster N)
  | .connect n c env =>
    if X.home c = none then
      (X.tagged n env (clientListenerOnAccept c)).map fun Y =>
        { Y with home := Function.update X.home c (some n) }
    else none
  | .request n c frame env =>
    if X.Local n c then X.tagged n env (Client.onRead c frame) else none
  | .disconnect n c env =>
    if X.Local n c then X.tagged n env (Client.leave c) else none
  | .deliver n s i env =>
    match (X.wire n s)[i]? with
    | none => none
    | some p => (X.take n s i).handle n p.tag env (Session.onRead s (.object p.text))

/-- Sessions deliver in the order of sending. -/
def InOrder : Action N → Prop
  | .deliver _ _ i _ => i = 0
  | _ => True

/-- The ends of the sessions are paired up, one pair for every two nodes. -/
structure Paired (links : N → Uuid → Option (N × Uuid)) : Prop where
  symm : ∀ {n s m s'}, links n s = some (m, s') → links m s' = some (n, s)
  irrefl : ∀ {n s m s'}, links n s = some (m, s') → n ≠ m
  total : ∀ {n m}, n ≠ m → ∃ s s', links n s = some (m, s')
  unique : ∀ {n m s t s' t'}, links n s = some (m, s') → links n t = some (m, t') → s = t

/-- Every two nodes share exactly one open session. -/
structure Mesh (X : Cluster N) : Prop extends Paired X.links where
  known : ∀ {n s e}, X.links n s = some e → (X.node n).sessions.hasKey s = true
  fresh : ∀ {n s e}, X.links n s = some e → s ≠ (X.node n).id

/-! ## Simplification -/

section

variable (X : Cluster N) (n : N) (tag : Nat) (w : World)

@[simp] theorem perform_links : (X.perform n tag w).links = X.links := rfl
@[simp] theorem perform_tags : (X.perform n tag w).tags = X.tags := rfl
@[simp] theorem perform_home : (X.perform n tag w).home = X.home := rfl
theorem perform_node (m : N) :
    (X.perform n tag w).node m = if m = n then w.state else X.node m := by
  by_cases h : m = n
  · subst h
    simp [perform]
  · simp [perform, h]

theorem perform_id {w : World} (h : w.state.id = (X.node n).id) (m : N) :
    ((X.perform n tag w).node m).id = (X.node m).id := by
  rw [perform_node]
  split
  · rename_i hm
    rw [hm, h]
  · rfl

@[simp] theorem take_links (s : Uuid) (i : Nat) : (X.take n s i).links = X.links := rfl
@[simp] theorem take_node (s : Uuid) (i : Nat) : (X.take n s i).node = X.node := rfl
@[simp] theorem take_log (s : Uuid) (i : Nat) : (X.take n s i).log = X.log := rfl
@[simp] theorem take_tags (s : Uuid) (i : Nat) : (X.take n s i).tags = X.tags := rfl
@[simp] theorem take_home (s : Uuid) (i : Nat) : (X.take n s i).home = X.home := rfl

end

theorem handle_eq_some {X Y : Cluster N} {n : N} {tag : Nat} {env : Env} {x : M Unit} :
    X.handle n tag env x = some Y ↔
      ∃ w, x (.start env (X.node n)) = (.ok (), w) ∧ Y = X.perform n tag w := by
  unfold handle
  rcases x (.start env (X.node n)) with ⟨e | u, w⟩
  · simp
  · constructor
    · intro h
      cases h
      exact ⟨w, rfl, rfl⟩
    · rintro ⟨w', hw, rfl⟩
      cases hw
      rfl

section

variable {X Y : Cluster N} {n : N} {env : Env}

theorem tagged_eq_some {x : M Unit} : X.tagged n env x = some Y ↔
    ∃ w, x (.start env (X.node n)) = (.ok (), w) ∧
      Y = { X.perform n X.tags w with tags := X.tags + 1 } := by
  simp only [tagged, Option.map_eq_some_iff, handle_eq_some]
  constructor
  · rintro ⟨Z, ⟨w, hw, rfl⟩, rfl⟩
    exact ⟨w, hw, rfl⟩
  · rintro ⟨w, hw, rfl⟩
    exact ⟨_, ⟨w, hw, rfl⟩, rfl⟩

theorem step_connect {c : Uuid} : X.step (.connect n c env) = some Y ↔
    X.home c = none ∧ ∃ w, clientListenerOnAccept c (.start env (X.node n)) = (.ok (), w) ∧
      Y = { X.perform n X.tags w with
        home := Function.update X.home c (some n), tags := X.tags + 1 } := by
  simp only [step]
  split
  · rename_i h
    simp only [h, true_and, Option.map_eq_some_iff, tagged_eq_some]
    constructor
    · rintro ⟨Z, ⟨w, hw, rfl⟩, rfl⟩
      exact ⟨w, hw, rfl⟩
    · rintro ⟨w, hw, rfl⟩
      exact ⟨_, ⟨w, hw, rfl⟩, rfl⟩
  · rename_i h
    simp [h]

theorem step_request {c : Uuid} {frame : Frame} : X.step (.request n c frame env) = some Y ↔
    X.Local n c ∧ ∃ w, Client.onRead c frame (.start env (X.node n)) = (.ok (), w) ∧
      Y = { X.perform n X.tags w with tags := X.tags + 1 } := by
  simp only [step]
  split
  · rename_i h
    simp only [h, true_and, tagged_eq_some]
  · rename_i h
    simp [h]

theorem step_disconnect {c : Uuid} : X.step (.disconnect n c env) = some Y ↔
    X.Local n c ∧ ∃ w, Client.leave c (.start env (X.node n)) = (.ok (), w) ∧
      Y = { X.perform n X.tags w with tags := X.tags + 1 } := by
  simp only [step]
  split
  · rename_i h
    simp only [h, true_and, tagged_eq_some]
  · rename_i h
    simp [h]

theorem step_deliver {s : Uuid} {i : Nat} : X.step (.deliver n s i env) = some Y ↔
    ∃ p, (X.wire n s)[i]? = some p ∧
      ∃ w, Session.onRead s (.object p.text) (.start env (X.node n)) = (.ok (), w) ∧
        Y = (X.take n s i).perform n p.tag w := by
  simp only [step]
  cases h : (X.wire n s)[i]? with
  | none => simp
  | some p =>
    simp only [handle_eq_some, Option.some.injEq, exists_eq_left']
    rfl

end

end Cluster

end Aewt
