import AewtState.Fleet

/-!
# The fleet without its bookkeeping

What the nodes store, what their handlers have still to do and what they have still to read, without
the requests that caused it and without what was sent.

* `Fleet.Picture` — a scene seen so, and its steps.

Principal result: `picture_step` — a step of the fleet is a step of its picture.
-/

set_option autoImplicit false

namespace Aewt

namespace Fleet

variable {N : Type} [DecidableEq N] (G : Topology N)

/-- A scene without the requests that caused what is in it, and without what was sent. -/
@[ext]
structure Picture (N : Type) where
  node : N → State
  op : Uuid → Option Op
  home : Uuid → Option N
  waiting : Strand N → List Effect
  due : Strand N → Option Publishing
  mail : Strand N → List Frame

namespace Picture

/-- The handler on `t` has `es` to send. -/
def awaits (P : Picture N) (t : Strand N) (es : List Effect) : Picture N :=
  { P with waiting := Function.update P.waiting t es }

/-- The handler on `t` starts. -/
def starts (P : Picture N) (t : Strand N) (w : World) : Picture N :=
  { P.awaits t w.effects with node := Function.update P.node t.node w.state }

/-- A text is sent: one that is dropped comes to no session. -/
def deliver (P : Picture N) (x : Option (Strand N × Text)) : Picture N :=
  match x with
  | some (t, text) => { P with
      mail := match G.peer t with
        | some u => push P.mail u (.object text)
        | none => P.mail }
  | none => P

/-- The handler on `t` sends its next effect. -/
def sends (P : Picture N) (t : Strand N) (e : Effect) (es : List Effect) : Picture N :=
  deliver G { P with waiting := Function.update P.waiting t es } (e.destination t.node)

section

variable (P : Picture N) (t : Strand N) (e : Effect) (es : List Effect)

@[simp] theorem sends_node : (P.sends G t e es).node = P.node := by
  unfold sends deliver
  split <;> rfl

@[simp] theorem sends_op : (P.sends G t e es).op = P.op := by
  unfold sends deliver
  split <;> rfl

@[simp] theorem sends_home : (P.sends G t e es).home = P.home := by
  unfold sends deliver
  split <;> rfl

@[simp] theorem sends_waiting :
    (P.sends G t e es).waiting = Function.update P.waiting t es := by
  unfold sends deliver
  split <;> rfl

@[simp] theorem sends_due : (P.sends G t e es).due = P.due := by
  unfold sends deliver
  split <;> rfl

end

/-- The steps of a picture. -/
inductive Step (P : Picture N) : Action N → Picture N → Prop where
  | connect {n : N} {c : Uuid} {env : Env} {w : World} (fresh : P.home c = none)
    (idle : P.waiting (.client n c) = [])
    (eq : clientListenerOnAccept c (.start env (P.node n)) = (.ok (), w)) :
    Step P (.connect n c env) { P.starts (.client n c) w with
      home := Function.update P.home c (some n)
      op := Function.update P.op c (some .handshake) }
  | accept {n : N} {c : Uuid} {runAt : Int64} {env : Env} {w : World}
    (home : P.home c = some n) (op : P.op c = some .handshake)
    (idle : P.waiting (.client n c) = [])
    (eq : Client.onAccept c runAt (.start env (P.node n)) = (.ok (), w)) :
    Step P (.accept n c runAt env) { P.starts (.client n c) w with
      op := Function.update P.op c (some .read) }
  | fail {n : N} {c : Uuid} {env : Env} {w : World} (home : P.home c = some n)
    (op : P.op c ≠ none) (idle : P.waiting (.client n c) = [])
    (eq : Client.leave c (.start env (P.node n)) = (.ok (), w)) :
    Step P (.fail n c env) { P.starts (.client n c) w with op := Function.update P.op c none }
  | request {n : N} {c : Uuid} {frame : Frame} (home : P.home c = some n) :
    Step P (.request n c frame) { P with mail := push P.mail (.client n c) frame }
  | read {t : Strand N} {env : Env} {f : Frame} {fs : List Frame} {w : World}
    (opened : t.context = .onClient → P.home t.id = some t.node ∧ P.op t.id = some .read)
    (idle : P.waiting t = []) (mail : P.mail t = f :: fs)
    (eq : t.onRead f (.start env (P.node t.node)) = (.ok (), w)) :
    Step P (.read t env) { P.starts t (t.cut f (P.node t.node) w).1 with
      mail := Function.update P.mail t fs
      due := Function.update P.due t (t.cut f (P.node t.node) w).2 }
  | lookup {t : Strand N} {p : Publishing} (due : P.due t = some p) (idle : P.waiting t = []) :
    Step P (.lookup t) { P.awaits t (p.effects (P.node t.node)) with
      due := Function.update P.due t none }
  | announce {t : Strand N} {e : Effect} {es : List Effect} (waiting : P.waiting t = e :: es) :
    Step P (.announce t) (P.sends G t e es)
  | post {t : Strand N} {e : Effect} {es : List Effect} (waiting : P.waiting t = e :: es) :
    Step P (.post t) (P.sends G t e es)
  | onSend {t : Strand N} : Step P (.onSend t) P
  | onWrite {t : Strand N} : Step P (.onWrite t) P

end Picture

/-- Forget which requests caused what. -/
def Scene.erase (S : Scene N) : Picture N where
  node := S.node
  op := S.op
  home := S.home
  waiting t := (S.waiting t).map Traced.value
  due t := (S.due t).map Traced.value
  mail t := (S.mail t).map Traced.value

def picture (X : Fleet N) : Picture N := (X.scene G).erase

section

variable {G} {α : Type} (f : Strand N → List (Traced N α)) (t : Strand N)

theorem values_update (as : List (Traced N α)) :
    (fun u => (Function.update f t as u).map Traced.value) =
      Function.update (fun u => (f u).map Traced.value) t (as.map Traced.value) :=
  funext fun u => Function.apply_update (fun _ => List.map Traced.value) f t as u

theorem values_push (a : Traced N α) :
    (fun u => (push f t a u).map Traced.value) =
      push (fun u => (f u).map Traced.value) t a.value := by
  rw [push, values_update, List.map_append]
  rfl

theorem value_update (f : Strand N → Option (Traced N α)) (a : Option (Traced N α)) :
    (fun u => (Function.update f t a u).map Traced.value) =
      Function.update (fun u => (f u).map Traced.value) t (a.map Traced.value) :=
  funext fun u => Function.apply_update (fun _ => Option.map Traced.value) f t a u

variable (S : Scene N)

omit [DecidableEq N] in
theorem values_caused (o : Option (Origin N)) (es : List Effect) :
    (Network.caused o es).map Traced.value = es := by
  simp [Network.caused, Function.comp_def]

theorem erase_awaits (o : Option (Origin N)) (es : List Effect) :
    (S.awaits t o es).erase = S.erase.awaits t es := by
  have hwaiting := values_update S.waiting t (Network.caused o es)
  rw [values_caused] at hwaiting
  exact Picture.ext rfl rfl rfl hwaiting rfl rfl

theorem erase_starts (o : Option (Origin N)) (w : World) :
    (S.starts t o w).erase = S.erase.starts t w :=
  congrArg (fun P : Picture N => { P with node := Function.update S.node t.node w.state })
    (erase_awaits t S o w.effects)

theorem erase_deliver (x : Option (Strand N × Text)) (o : Option (Origin N)) :
    (S.deliver G x o).erase = S.erase.deliver G x := by
  rcases x with - | ⟨u, text⟩
  · rfl
  simp only [Scene.deliver, Picture.deliver]
  split
  · refine Picture.ext rfl rfl rfl rfl rfl ?_
    simp only [Scene.erase]
    cases G.peer u with
    | none => rfl
    | some v => exact values_push ..
  · rename_i ho
    -- only the connections of clients are ever closed
    have hc : u.context = .onClient := by
      by_contra hc
      exact ho fun h => absurd h hc
    rw [G.peer_onClient hc]
    rfl

theorem erase_sends (e : Traced N Effect) (es : List (Traced N Effect)) :
    (S.sends G t e es).erase = S.erase.sends G t e.value (es.map Traced.value) := by
  rw [Scene.sends, erase_deliver, Picture.sends]
  congr 1
  exact Picture.ext rfl rfl rfl (values_update ..) rfl rfl

end

variable {G}

/-- **A step of a scene is a step of its picture.** -/
theorem Scene.Step.erase {S T : Scene N} {a : Action N} (h : S.Step G a T) :
    S.erase.Step G a T.erase := by
  have hidle : ∀ {t}, S.waiting t = [] → S.erase.waiting t = [] := fun h =>
    congrArg (List.map Traced.value) h
  have hcons : ∀ {t e es}, S.waiting t = e :: es →
      S.erase.waiting t = e.value :: es.map Traced.value := fun h =>
    congrArg (List.map Traced.value) h
  cases h with
  | connect fresh idle eq =>
    refine Eq.subst (motive := S.erase.Step G _) ?_ (Picture.Step.connect fresh (hidle idle) eq)
    rw [← erase_starts _ S none]
    rfl
  | accept home op idle eq =>
    refine Eq.subst (motive := S.erase.Step G _) ?_ (Picture.Step.accept home op (hidle idle) eq)
    rw [← erase_starts _ S none]
    rfl
  | fail home op idle eq =>
    refine Eq.subst (motive := S.erase.Step G _) ?_ (Picture.Step.fail home op (hidle idle) eq)
    rw [← erase_starts _ S none]
    rfl
  | request home =>
    rename_i n c frame
    refine Eq.subst (motive := S.erase.Step G _) ?_ (Picture.Step.request home)
    exact Picture.ext rfl rfl rfl rfl rfl (values_push S.mail (.client n c) ⟨_, frame⟩).symm
  | read opened idle free mail eq =>
    rename_i t env f fs w
    refine Eq.subst (motive := S.erase.Step G _) ?_
      (Picture.Step.read opened (hidle idle) (congrArg (List.map Traced.value) mail) eq)
    have hdue := value_update t S.due
      ((t.cut f.value (S.node t.node) w).2.map (Traced.mk f.origin))
    rw [Option.map_map, show Traced.value ∘ Traced.mk f.origin = id from rfl, Option.map_id] at hdue
    exact Picture.ext rfl rfl rfl
      (congrArg Picture.waiting (erase_starts t S f.origin _)).symm hdue.symm
      (values_update ..).symm
  | lookup due idle =>
    rename_i t p
    refine Eq.subst (motive := S.erase.Step G _) ?_
      (Picture.Step.lookup (congrArg (Option.map Traced.value) due) (hidle idle))
    exact Picture.ext rfl rfl rfl
      (congrArg Picture.waiting (erase_awaits t S p.origin _)).symm
      (value_update t S.due none).symm rfl
  | announce waiting =>
    rw [erase_sends]
    exact .announce (hcons waiting)
  | post waiting =>
    rw [erase_sends]
    exact .post (hcons waiting)
  | onSend => exact .onSend
  | onWrite => exact .onWrite

variable {X Y : Fleet N} {t : Strand N}

omit [DecidableEq N] in
theorem picture_waiting (hn : X.notices t = []) (hp : X.net.pending t = []) :
    (X.picture G).waiting t = [] := congrArg (List.map Traced.value) (waiting_of_idle hn hp)

/-- **A step of the fleet is a step of its picture.** -/
theorem picture_step {a : Action N} (h : X.step G a = some Y) :
    (X.picture G).Step G a (Y.picture G) :=
  (scene_step h).erase

end Fleet

end Aewt
