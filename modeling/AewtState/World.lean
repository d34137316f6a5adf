import AewtState.Json
import AewtState.Store

/-!
# Handler computations

A handler of the source runs against a node: it reads clocks and random ids, changes the
stores, sets the response and sends texts, and a library call inside it may raise.

* `World` — the node together with the response under construction and everything sent so
  far (`effects`); `Env` fixes the clock readings, the random ids and the resolver.
* `M` — a computation that may raise.  What was done before the exception stays done.
* `forEach` — the loops of the source; `forEach_filter` and `announce_eq` say what the two
  kinds of loop send.
-/

set_option autoImplicit false

namespace Aewt

/-- The text of a JSON object, represented by the object that parsing it yields. -/
abbrev Text := Object

def serialize (data : Object) : Text := data.wire

/-- What a handler does outside the stores. -/
inductive Effect where
  /-- `session::send` on the session with this id. -/
  | session (id : Uuid) (text : Text)
  /-- `client::send` on the client with this id. -/
  | client (id : Uuid) (text : Text)
  /-- Resolve, connect and `run(remote)` on a new session. -/
  | dial (id : Uuid) (host : String) (port : UInt64)

/-- `aewt::response`.  `writes` counts the assignments of `data_`; the source has no such
counter. -/
structure Response where
  failed : Bool := false
  processed : Bool := false
  isAck : Bool := false
  data : Object := []
  writes : Nat := 0

/-- What the handlers read from outside the node. -/
structure Env where
  random : Nat → Uuid
  clock : Nat → Int64
  resolves : String → UInt64 → Bool

structure World where
  env : Env
  state : State
  drawn : Nat := 0
  ticks : Nat := 0
  response : Response := {}
  effects : List Effect := []

def M (α : Type) : Type := World → Except Raise α × World

instance : Monad M where
  pure a w := (.ok a, w)
  bind x f w :=
    match x w with
    | (.ok a, w') => f a w'
    | (.error e, w') => (.error e, w')

namespace M

variable {α β : Type}

@[simp] theorem pure_apply (a : α) (w : World) : (pure a : M α) w = (.ok a, w) := rfl

theorem bind_ok {x : M α} {f : α → M β} {w w' : World} {a : α} (h : x w = (.ok a, w')) :
    (x >>= f) w = f a w' := by
  simp only [bind, h]

theorem bind_error {x : M α} {f : α → M β} {w w' : World} {e : Raise}
    (h : x w = (.error e, w')) : (x >>= f) w = (.error e, w') := by
  simp only [bind, h]

/-- A library call that may raise. -/
def lift (x : Except Raise α) : M α := fun w => (x, w)

@[simp] theorem lift_ok_bind (a : α) (f : α → M β) : (lift (.ok a) >>= f) = f a := rfl

@[simp] theorem lift_error_bind (e : Raise) (f : α → M β) :
    (lift (.error e) >>= f) = lift (.error e) := rfl

@[simp] theorem lift_pure (a : α) : lift (pure a) = pure a := rfl

@[simp] theorem lift_apply (x : Except Raise α) (w : World) : lift x w = (x, w) := rfl

instance : LawfulMonad M := LawfulMonad.mk' M
  (by
    intro α x
    funext w
    change (match x w with
      | (.ok a, w') => (pure (id a) : M α) w'
      | (.error e, w') => (Except.error e, w')) = x w
    cases x w with
    | mk r w' => cases r <;> rfl)
  (fun _ _ => rfl)
  (by
    intro α β γ x f g
    funext w
    simp only [bind]
    cases x w with
    | mk r w' => cases r <;> rfl)

theorem lift_bind (x : Except Raise α) (f : α → Except Raise β) :
    lift (x >>= f) = lift x >>= fun a => lift (f a) := by
  cases x <;> rfl

end M

instance : MonadLift (Except Raise) M := ⟨M.lift⟩

@[simp] theorem liftM_eq {α : Type} (x : Except Raise α) : (liftM x : M α) = M.lift x := rfl

/-! ## Primitives -/

def World.emit (w : World) (es : List Effect) : World := { w with effects := w.effects ++ es }

def World.withState (w : World) (st : State) : World := { w with state := st }

/-- `random_generator()()`. -/
def random : M Uuid := fun w => (.ok (w.env.random w.drawn), { w with drawn := w.drawn + 1 })

/-- `system_clock::now().time_since_epoch().count()`. -/
def now : M Int64 := fun w => (.ok (w.env.clock w.ticks), { w with ticks := w.ticks + 1 })

def getState : M State := fun w => (.ok w.state, w)

/-- Run a store function and keep its new state. -/
def update (f : State → State × Bool) : M Bool :=
  fun w => (.ok (f w.state).2, w.withState (f w.state).1)

def emit (e : Effect) : M Unit := fun w => (.ok (), w.emit [e])

/-- `session::send`. -/
def Session.send (id : Uuid) (data : Text) : M Unit := emit (.session id data)

/-- `client::send`. -/
def Client.send (id : Uuid) (data : Text) : M Unit := emit (.client id data)

section

variable {β : Type}

@[simp] theorem random_bind (f : Uuid → M β) (w : World) :
    (random >>= f) w = f (w.env.random w.drawn) { w with drawn := w.drawn + 1 } := rfl

@[simp] theorem now_bind (f : Int64 → M β) (w : World) :
    (now >>= f) w = f (w.env.clock w.ticks) { w with ticks := w.ticks + 1 } := rfl

@[simp] theorem getState_bind (f : State → M β) (w : World) :
    (getState >>= f) w = f w.state w := rfl

@[simp] theorem update_bind (g : State → State × Bool) (f : Bool → M β) (w : World) :
    (update g >>= f) w = f (g w.state).2 (w.withState (g w.state).1) := rfl

@[simp] theorem emit_bind (e : Effect) (f : Unit → M β) (w : World) :
    (emit e >>= f) w = f () (w.emit [e]) := rfl

end

@[simp] theorem emit_apply (e : Effect) (w : World) : emit e w = (.ok (), w.emit [e]) := rfl

@[simp] theorem World.emit_nil (w : World) : w.emit [] = w := by
  simp [World.emit]

@[simp] theorem World.emit_emit (w : World) (es fs : List Effect) :
    (w.emit es).emit fs = w.emit (es ++ fs) := by
  simp [World.emit]

@[simp] theorem World.emit_state (w : World) (es : List Effect) :
    (w.emit es).state = w.state := rfl

@[simp] theorem World.emit_env (w : World) (es : List Effect) : (w.emit es).env = w.env := rfl

@[simp] theorem World.emit_response (w : World) (es : List Effect) :
    (w.emit es).response = w.response := rfl

@[simp] theorem World.emit_effects (w : World) (es : List Effect) :
    (w.emit es).effects = w.effects ++ es := rfl

@[simp] theorem World.withState_state (w : World) (st : State) :
    (w.withState st).state = st := rfl

@[simp] theorem World.withState_env (w : World) (st : State) :
    (w.withState st).env = w.env := rfl

@[simp] theorem World.withState_response (w : World) (st : State) :
    (w.withState st).response = w.response := rfl

@[simp] theorem World.withState_effects (w : World) (st : State) :
    (w.withState st).effects = w.effects := rfl

/-! ## Loops -/

/-- `for (const auto &a : as) f(a)`. -/
def forEach {α : Type} : List α → (α → M Unit) → M Unit
  | [], _ => pure ()
  | a :: as, f => f a >>= fun _ => forEach as f

/-- A loop that sends once for every element that passes a test. -/
theorem forEach_filter {α : Type} (p : α → Prop) [DecidablePred p] (f : α → Effect) :
    ∀ (as : List α) (w : World),
    forEach as (fun a => if p a then emit (f a) else pure ()) w =
      (.ok (), w.emit ((as.filter fun a => p a).map f))
  | [], w => by simp [forEach]
  | a :: as, w => by
    have ih := forEach_filter p f as
    by_cases h : p a <;> simp only [forEach, h, if_true, if_false]
    · rw [emit_bind, ih]; simp [h]
    · rw [pure_bind, ih]; simp [h]

/-- A loop that sends once for every element. -/
theorem forEach_map {α : Type} (f : α → Effect) (as : List α) (w : World) :
    forEach as (fun a => emit (f a)) w = (.ok (), w.emit (as.map f)) := by
  have h := forEach_filter (fun _ => True) f as w
  simpa using h

/-- The three loops of `state::sync`: one text on session `id` for every row, each with a
fresh transaction id. -/
def announce {α : Type} (id : Uuid) (make : Uuid → α → Object) (as : List α) : M Unit :=
  forEach as fun a => random >>= fun t => Session.send id (serialize (make t a))

/-- What `announce` sends when `i` ids have been drawn before. -/
def announced {α : Type} (rnd : Nat → Uuid) (id : Uuid) (make : Uuid → α → Object) :
    Nat → List α → List Effect
  | _, [] => []
  | i, a :: as => .session id (serialize (make (rnd i) a)) :: announced rnd id make (i + 1) as

theorem announce_eq {α : Type} (id : Uuid) (make : Uuid → α → Object) :
    ∀ (as : List α) (w : World), announce id make as w = (.ok (), { w with
      drawn := w.drawn + as.length
      effects := w.effects ++ announced w.env.random id make w.drawn as })
  | [], w => by simp [announce, forEach, announced]
  | a :: as, w => by
    have ih := announce_eq id make as
    have hstep : announce id make (a :: as) w = announce id make as
        (World.emit { w with drawn := w.drawn + 1 }
          [.session id (serialize (make (w.env.random w.drawn) a))]) := rfl
    rw [hstep, ih]
    simp [World.emit, announced, Nat.add_comm, Nat.add_left_comm]

theorem mem_announced {α : Type} {rnd : Nat → Uuid} {id : Uuid} {make : Uuid → α → Object}
    {e : Effect} : ∀ {as : List α} {i : Nat}, e ∈ announced rnd id make i as →
    ∃ t, ∃ a ∈ as, e = .session id (serialize (make t a))
  | [], _, h => by cases h
  | a :: as, i, h => by
    rcases List.mem_cons.mp h with rfl | h
    · exact ⟨rnd i, a, List.mem_cons_self, rfl⟩
    · obtain ⟨t, b, hb, rfl⟩ := mem_announced h
      exact ⟨t, b, List.mem_cons_of_mem _ hb, rfl⟩

theorem announced_of_mem {α : Type} (rnd : Nat → Uuid) (id : Uuid) (make : Uuid → α → Object)
    {a : α} : ∀ {as : List α} (i : Nat), a ∈ as →
    ∃ t, Effect.session id (serialize (make t a)) ∈ announced rnd id make i as
  | b :: as, i, h => by
    rcases List.mem_cons.mp h with rfl | h
    · exact ⟨rnd i, List.mem_cons_self⟩
    · obtain ⟨t, ht⟩ := announced_of_mem rnd id make (i + 1) h
      exact ⟨t, List.mem_cons_of_mem _ ht⟩

end Aewt
