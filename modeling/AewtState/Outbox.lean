import AewtState.Store
import AewtState.Lib.Fifo

/-!
# The outgoing queue of a connection

`send` posts the message to the strand of the connection, where `on_send` queues it and starts
a write when the queue was empty; `on_write` drops the front and starts the next write.

* `Outbox` — the queue, the writes that were started and have not completed, and the messages
  whose write completed.  Nothing in it keeps two writes apart.
* `Session.onSend`, `Session.onWrite`, `Client.onSend`, `Client.onWrite` — the handlers.  A
  client looks at its socket before it starts a write, a session does not.
* `Outbox.step` — one handler, in any order.

Principal results: `Outbox.step_refines` — the queue is a first-in first-out channel whose
front is the one write outstanding; `Outbox.in_order`.
-/

set_option autoImplicit false

namespace Aewt

variable {μ : Type}

/-- `queue_`, and what the connection did with it. -/
structure Outbox (μ : Type) where
  queue : List μ := []
  /-- The messages of the writes that were started and have not completed. -/
  outstanding : List μ := []
  completed : List μ := []

/-! ## Handlers -/

/-- `async_write(buffer(*queue_.front()))`. -/
def Outbox.writeFront (o : Outbox μ) : Outbox μ :=
  match o.queue with
  | [] => o
  | front :: _ => { o with outstanding := o.outstanding ++ [front] }

def Session.onSend (m : μ) (o : Outbox μ) : Outbox μ :=
  let o := { o with queue := o.queue ++ [m] }
  if 1 < o.queue.length then o else o.writeFront

def Session.onWrite (failed : Bool) (o : Outbox μ) : Outbox μ :=
  if failed then o
  else
    let o := { o with queue := o.queue.drop 1 }
    if o.queue.isEmpty then o else o.writeFront

/-- The socket of a client is optional (`none`) and open or closed. -/
def Client.onSend (socket : Option Bool) (m : μ) (o : Outbox μ) : Outbox μ :=
  let o := { o with queue := o.queue ++ [m] }
  if 1 < o.queue.length then o
  else if socket = some true then o.writeFront
  else o

def Client.onWrite (socket : Option Bool) (failed : Bool) (o : Outbox μ) : Outbox μ :=
  if failed then o
  else
    let o := { o with queue := o.queue.drop 1 }
    if !o.queue.isEmpty && socket.isSome then
      if socket = some true then o.writeFront else o
    else o

/-- The two kinds of connection, each with an open socket. -/
inductive Connection where
  | session
  | client

def Connection.onSend : Connection → μ → Outbox μ → Outbox μ
  | .session => Session.onSend
  | .client => Client.onSend (some true)

def Connection.onWrite : Connection → Bool → Outbox μ → Outbox μ
  | .session => Session.onWrite
  | .client => Client.onWrite (some true)

namespace Outbox

inductive Action (μ : Type) where
  | send (m : μ)
  /-- The write at this place among the outstanding ones completes. -/
  | written (i : Nat)

def step (connection : Connection) (o : Outbox μ) : Action μ → Option (Outbox μ)
  | .send m => some (connection.onSend m o)
  | .written i =>
    match o.outstanding[i]? with
    | none => none
    | some m => some (connection.onWrite false
        { o with outstanding := o.outstanding.eraseIdx i, completed := o.completed ++ [m] })

/-- The messages passed to `on_send`. -/
def sent : List (Action μ) → List μ
  | [] => []
  | .send m :: as => m :: sent as
  | .written _ :: as => sent as

/-! ## The invariant -/

/-- The write that is outstanding is the one of the front. -/
def Chained (o : Outbox μ) : Prop := o.outstanding = o.queue.head?.toList

theorem chained_writeFront {o : Outbox μ} (h : o.outstanding = []) : o.writeFront.Chained := by
  unfold writeFront Chained
  split <;> simp_all

@[simp] theorem writeFront_queue (o : Outbox μ) : o.writeFront.queue = o.queue := by
  unfold writeFront
  split <;> rfl

@[simp] theorem writeFront_completed (o : Outbox μ) :
    o.writeFront.completed = o.completed := by
  unfold writeFront
  split <;> rfl

/-- With an open socket a client's handlers are those of a session. -/
theorem onSend_eq (connection : Connection) (m : μ) (o : Outbox μ) :
    connection.onSend m o = Session.onSend m o := by
  cases connection <;> rfl

theorem onWrite_eq (connection : Connection) (failed : Bool) (o : Outbox μ) :
    connection.onWrite failed o = Session.onWrite failed o := by
  cases connection with
  | session => rfl
  | client =>
    show Client.onWrite (some true) failed o = Session.onWrite failed o
    unfold Client.onWrite Session.onWrite
    cases failed
    · cases (o.queue.drop 1).isEmpty <;> simp
    · rfl

/-- What the handlers do to an outbox whose front is being written. -/
theorem onSend_spec {o : Outbox μ} (h : o.Chained) (m : μ) :
    (Session.onSend m o).Chained ∧ (Session.onSend m o).queue = o.queue ++ [m] ∧
      (Session.onSend m o).completed = o.completed := by
  unfold Session.onSend
  cases hq : o.queue with
  | nil =>
    have ho : o.outstanding = [] := by
      rw [Chained, hq] at h
      exact h
    rw [if_neg (by simp)]
    exact ⟨chained_writeFront ho, by simp, by simp⟩
  | cons front rest =>
    -- a write of the front is outstanding already
    rw [if_pos (by simp)]
    refine ⟨?_, rfl, rfl⟩
    rw [Chained, hq] at h
    exact h

theorem onWrite_spec {o : Outbox μ} {m : μ} {rest : List μ} (ho : o.outstanding = [])
    (hq : o.queue = m :: rest) :
    (Session.onWrite false o).Chained ∧ (Session.onWrite false o).queue = rest ∧
      (Session.onWrite false o).completed = o.completed := by
  unfold Session.onWrite
  rw [hq, if_neg (by simp)]
  cases rest with
  | nil => exact ⟨ho, rfl, rfl⟩
  | cons front rest =>
    rw [if_neg (by simp)]
    exact ⟨chained_writeFront ho, by simp, by simp⟩

/-! ## The channel -/

/-- The channel that an outbox stands for. -/
def channel (o : Outbox μ) : Fifo μ := ⟨o.completed, o.queue⟩

def Action.onChannel : Action μ → Fifo.Action μ
  | .send m => .push m
  | .written _ => .pop

/-- **One handler is one step of the channel**, and the front is being written again. -/
theorem step_refines {connection : Connection} {o o' : Outbox μ} {a : Action μ}
    (h : o.Chained) (hs : step connection o a = some o') :
    o'.Chained ∧ o.channel.step a.onChannel = some o'.channel := by
  cases a with
  | send m =>
    cases hs
    rw [onSend_eq]
    obtain ⟨hchained, hqueue, hcompleted⟩ := onSend_spec h m
    refine ⟨hchained, ?_⟩
    simp [channel, Action.onChannel, Fifo.step, hqueue, hcompleted]
  | written i =>
    obtain ⟨queue, outstanding, completed⟩ := o
    have hout : outstanding = queue.head?.toList := h
    subst hout
    cases queue with
    | nil => cases hs
    | cons front rest =>
      -- only the write of the front is outstanding, so it is the one that completed
      cases i with
      | succ i => cases hs
      | zero =>
        cases hs
        rw [onWrite_eq]
        show (Session.onWrite false ⟨front :: rest, [], completed ++ [front]⟩).Chained ∧
          some (Fifo.mk (completed ++ [front]) rest) =
            some (Session.onWrite false ⟨front :: rest, [], completed ++ [front]⟩).channel
        obtain ⟨hchained, hqueue, hcompleted⟩ := onWrite_spec
          (o := ⟨front :: rest, [], completed ++ [front]⟩) rfl rfl
        refine ⟨hchained, ?_⟩
        rw [channel, hqueue, hcompleted]

/-- A run of the handlers is a run of the channel. -/
theorem exec_refines {connection : Connection} {as : List (Action μ)} {o o' : Outbox μ}
    (h : o.Chained) (hr : Run.exec (step connection) o as = some o') :
    o'.Chained ∧
      Run.exec Fifo.step o.channel (as.map Action.onChannel) = some o'.channel := by
  induction as generalizing o with
  | nil =>
    cases hr
    exact ⟨h, rfl⟩
  | cons a as ih =>
    obtain ⟨p, hp, hr⟩ := Run.exec_cons.mp hr
    obtain ⟨hchained, hstep⟩ := step_refines h hp
    obtain ⟨hend, hrun⟩ := ih hchained hr
    exact ⟨hend, Run.exec_cons.mpr ⟨p.channel, hstep, hrun⟩⟩

theorem pushed_onChannel : ∀ as : List (Action μ),
    Fifo.pushed (as.map Action.onChannel) = sent as
  | [] => rfl
  | .send m :: as => congrArg (m :: ·) (pushed_onChannel as)
  | .written _ :: as => pushed_onChannel as

/-- **Messages leave once and in order, one write at a time.** -/
theorem in_order (connection : Connection) {as : List (Action μ)} {o : Outbox μ}
    (h : Run.exec (step connection) {} as = some o) :
    o.outstanding.length ≤ 1 ∧ (o.outstanding.length = 1 ↔ o.queue ≠ []) ∧
      (∀ m ∈ o.outstanding, o.queue.head? = some m) ∧ o.completed ++ o.queue = sent as := by
  obtain ⟨hchained, hrun⟩ := exec_refines (o := {}) rfl h
  have hflow := Fifo.exec_delivered hrun
  rw [pushed_onChannel] at hflow
  rw [hchained]
  refine ⟨?_, ?_, ?_, hflow⟩
  · cases o.queue <;> simp
  · cases o.queue <;> simp
  · intro m hm
    simpa using hm

/-- Two messages, the first written while the second waits. -/
theorem in_order_two : ∃ o : Outbox Nat,
    Run.exec (step .client) {} [.send 1, .send 2, .written 0] = some o ∧
      o.outstanding.length ≤ 1 ∧ (o.outstanding.length = 1 ↔ o.queue ≠ []) ∧
      (∀ m ∈ o.outstanding, o.queue.head? = some m) ∧ o.completed ++ o.queue = [1, 2] := by
  have hrun : Run.exec (step .client) {} [.send 1, .send 2, .written 0] =
      some (⟨[2], [2], [1]⟩ : Outbox Nat) := rfl
  exact ⟨⟨[2], [2], [1]⟩, hrun, in_order .client hrun⟩

end Outbox

end Aewt
