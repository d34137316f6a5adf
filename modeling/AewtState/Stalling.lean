import AewtState.Outbox

/-!
# Connections that break

`send` takes a message while the socket is open and posts `on_send` to the strand; the socket
may be closed before that runs, and a write may fail.  A failed `on_write` returns before it
drops the front, so the front stays and every later `on_send` finds the queue occupied.

* `Sender` — an outbox with the calls of `on_send` that were posted and the socket.
* `Sender.step` — a message, a posted `on_send`, a write that completes or fails, and the end of
  the socket, in any order.  A write may still complete when the socket is closed.
* `Stalled` — something is queued and nothing is being written.

Principal result: `written_in_order` — whatever breaks, what was written is the beginning of what
`send` took, one write at a time; only a failure or a closed socket keeps the rest back, and a
stalled queue is never written again.
-/

set_option autoImplicit false

namespace Aewt

variable {μ : Type}

def Connection.onSendAt (opened : Bool) : Connection → μ → Outbox μ → Outbox μ
  | .session => Session.onSend
  | .client => Client.onSend (some opened)

def Connection.onWriteAt (opened : Bool) : Connection → Bool → Outbox μ → Outbox μ
  | .session => Session.onWrite
  | .client => Client.onWrite (some opened)

structure Sender (μ : Type) where
  outbox : Outbox μ := {}
  /-- The calls of `on_send` that were posted. -/
  posted : List μ := []
  opened : Bool := true

namespace Sender

inductive Action (μ : Type) where
  | send (m : μ)
  | onSend
  /-- The write at this place among the outstanding ones completes or fails. -/
  | onWrite (i : Nat) (failed : Bool)
  | close

def step (connection : Connection) (X : Sender μ) : Action μ → Option (Sender μ)
  | .send m => some (if X.opened then { X with posted := X.posted ++ [m] } else X)
  | .onSend =>
    match X.posted with
    | [] => none
    | m :: ms => some { X with
        outbox := connection.onSendAt X.opened m X.outbox
        posted := ms }
  | .onWrite i failed =>
    match X.outbox.outstanding[i]? with
    | none => none
    | some m => some { X with
        outbox := connection.onWriteAt X.opened failed { X.outbox with
          outstanding := X.outbox.outstanding.eraseIdx i
          completed := if failed then X.outbox.completed else X.outbox.completed ++ [m] } }
  | .close => some { X with opened := false }

/-- The messages that `send` took: those before the socket was closed. -/
def taken : List (Action μ) → List μ
  | [] => []
  | .send m :: as => m :: taken as
  | .close :: _ => []
  | _ :: as => taken as

/-- The action breaks the connection. -/
def Action.Breaks : Action μ → Prop
  | .onWrite _ failed => failed = true
  | .close => True
  | _ => False

end Sender

namespace Outbox

/-- Something is queued and nothing is being written. -/
def Stalled (o : Outbox μ) : Prop := o.outstanding = [] ∧ o.queue ≠ []

/-- At most the front is being written. -/
def Fronted (o : Outbox μ) : Prop := o.Chained ∨ o.Stalled

theorem Fronted.cases {o : Outbox μ} (h : o.Fronted) :
    o.outstanding = [] ∨ ∃ m rest, o.queue = m :: rest ∧ o.outstanding = [m] := by
  rcases h with h | ⟨h, -⟩
  · cases hq : o.queue with
    | nil =>
      rw [Chained, hq] at h
      exact .inl h
    | cons m rest =>
      rw [Chained, hq] at h
      exact .inr ⟨m, rest, rfl, h⟩
  · exact .inl h

/-- What both kinds of `on_send` do to the queue. -/
theorem onSendAt_spec (connection : Connection) (opened : Bool) (m : μ) (o : Outbox μ) :
    (connection.onSendAt opened m o).queue = o.queue ++ [m] ∧
      (connection.onSendAt opened m o).completed = o.completed := by
  cases connection with
  | session =>
    simp only [Connection.onSendAt, Session.onSend]
    split <;> simp
  | client =>
    simp only [Connection.onSendAt, Client.onSend]
    split
    · simp
    · split <;> simp

/-- A queue that is occupied is left to the write under way, if there is one. -/
theorem onSendAt_occupied (connection : Connection) (opened : Bool) (m : μ) {o : Outbox μ}
    (h : o.queue ≠ []) : (connection.onSendAt opened m o).outstanding = o.outstanding := by
  have hlen : 1 < (o.queue ++ [m]).length := by
    have hpos := List.length_pos_of_ne_nil h
    simp only [List.length_append, List.length_singleton]
    omega
  cases connection with
  | session =>
    simp only [Connection.onSendAt, Session.onSend]
    rw [if_pos hlen]
  | client =>
    simp only [Connection.onSendAt, Client.onSend]
    rw [if_pos hlen]

/-- An empty queue: the write is started, unless a client's socket is closed. -/
theorem onSendAt_empty (connection : Connection) (opened : Bool) (m : μ) {o : Outbox μ}
    (hq : o.queue = []) (ho : o.outstanding = []) :
    (connection.onSendAt opened m o).outstanding = [m] ∨
      opened = false ∧ (connection.onSendAt opened m o).outstanding = [] := by
  cases connection with
  | session => simp [Connection.onSendAt, Session.onSend, writeFront, hq, ho]
  | client =>
    cases opened with
    | true => simp [Connection.onSendAt, Client.onSend, writeFront, hq, ho]
    | false => simp [Connection.onSendAt, Client.onSend, hq, ho]

/-- `on_write` after the write of the front. -/
theorem onWriteAt_spec (connection : Connection) (opened : Bool) {o : Outbox μ}
    {m : μ} {rest : List μ} (hq : o.queue = m :: rest) (ho : o.outstanding = []) :
    (connection.onWriteAt opened false o).queue = rest ∧
      (connection.onWriteAt opened false o).completed = o.completed ∧
      ((connection.onWriteAt opened false o).outstanding = rest.head?.toList ∨
        opened = false ∧ (connection.onWriteAt opened false o).outstanding = []) := by
  cases connection with
  | session =>
    cases rest <;> simp [Connection.onWriteAt, Session.onWrite, writeFront, hq, ho]
  | client =>
    cases opened <;> cases rest <;>
      simp [Connection.onWriteAt, Client.onWrite, writeFront, hq, ho]

theorem onWriteAt_failed (connection : Connection) (opened : Bool) (o : Outbox μ) :
    connection.onWriteAt opened true o = o := by
  cases connection <;> rfl

end Outbox

namespace Sender

open Outbox

/-- What was taken, in the order of its way out. -/
def flow (X : Sender μ) : List μ := X.outbox.completed ++ X.outbox.queue ++ X.posted

section

variable {connection : Connection} {X Y : Sender μ}

/-- The kinds of step, when at most the front is being written. -/
inductive Stepped (connection : Connection) (X : Sender μ) : Action μ → Sender μ → Prop where
  | took (m : μ) (opened : X.opened = true) :
    Stepped connection X (.send m) { X with posted := X.posted ++ [m] }
  | refused (m : μ) (closed : X.opened = false) : Stepped connection X (.send m) X
  | queued (m : μ) (ms : List μ) (posted : X.posted = m :: ms) :
    Stepped connection X .onSend
      { X with outbox := connection.onSendAt X.opened m X.outbox, posted := ms }
  | wrote (m : μ) (rest : List μ) (queue : X.outbox.queue = m :: rest) :
    Stepped connection X (.onWrite 0 false) { X with
      outbox := connection.onWriteAt X.opened false
        ⟨m :: rest, [], X.outbox.completed ++ [m]⟩ }
  | failed (m : μ) (rest : List μ) (queue : X.outbox.queue = m :: rest) :
    Stepped connection X (.onWrite 0 true)
      { X with outbox := ⟨m :: rest, [], X.outbox.completed⟩ }
  | closed : Stepped connection X .close { X with opened := false }

theorem step_cases (h : X.outbox.Fronted) {a : Action μ} (hs : step connection X a = some Y) :
    Stepped connection X a Y := by
  cases a with
  | send m =>
    simp only [step] at hs
    split at hs
    · rename_i ho
      cases hs
      exact .took m ho
    · rename_i ho
      cases hs
      exact .refused m (by simpa using ho)
  | onSend =>
    cases hp : X.posted with
    | nil =>
      rw [step, hp] at hs
      cases hs
    | cons m ms =>
      rw [step, hp] at hs
      cases hs
      exact .queued m ms hp
  | onWrite i failed =>
    obtain ⟨⟨queue, outstanding, completed⟩, posted, opened⟩ := X
    rcases h.cases with ho | ⟨m, rest, hq, ho⟩
    · subst ho
      cases hs
    · -- only the write of the front is outstanding, so it is the one that ended
      cases hq
      cases ho
      cases i with
      | succ i => cases hs
      | zero =>
        cases hs
        cases failed with
        | true =>
          rw [onWriteAt_failed]
          exact .failed (X := ⟨⟨m :: rest, [m], completed⟩, posted, opened⟩) m rest rfl
        | false => exact .wrote (X := ⟨⟨m :: rest, [m], completed⟩, posted, opened⟩) m rest rfl
  | close =>
    cases hs
    exact .closed

/-- One write at a time, and it is the front's. -/
theorem fronted_step (h : X.outbox.Fronted) {a : Action μ}
    (hs : step connection X a = some Y) : Y.outbox.Fronted := by
  cases step_cases h hs with
  | took | refused | closed => exact h
  | queued m ms hp =>
    obtain ⟨hqueue, -⟩ := onSendAt_spec connection X.opened m X.outbox
    by_cases hq : X.outbox.queue = []
    · have ho : X.outbox.outstanding = [] := by
        rcases h with h | ⟨h, -⟩
        · rw [h, hq]
          rfl
        · exact h
      rcases onSendAt_empty connection X.opened m hq ho with hout | ⟨-, hout⟩
      · exact .inl (by rw [Chained, hout, hqueue, hq]; rfl)
      · exact .inr ⟨hout, by simp [hqueue]⟩
    · have hout := onSendAt_occupied connection X.opened m hq
      rcases h with h | ⟨h, -⟩
      · refine .inl ?_
        rw [Chained, hout, hqueue, h, List.head?_append_of_ne_nil _ hq]
      · exact .inr ⟨hout.trans h, by simp [hqueue]⟩
  | wrote m rest hq =>
    obtain ⟨hqueue, -, hout⟩ := onWriteAt_spec connection X.opened
      (o := ⟨m :: rest, [], X.outbox.completed ++ [m]⟩) rfl rfl
    rcases hout with hout | ⟨-, hout⟩
    · exact .inl (by rw [Chained, hout, hqueue])
    · cases rest with
      | nil => exact .inl (by rw [Chained, hout, hqueue]; rfl)
      | cons m' rest => exact .inr ⟨hout, by simp [hqueue]⟩
  | failed m rest hq => exact .inr ⟨rfl, List.cons_ne_nil _ _⟩

/-- Nothing that was taken is lost, doubled or overtaken. -/
theorem flow_step (h : X.outbox.Fronted) {a : Action μ} (hs : step connection X a = some Y)
    (as : List (Action μ)) :
    X.flow ++ (if X.opened then taken (a :: as) else []) =
      Y.flow ++ if Y.opened then taken as else [] := by
  cases step_cases h hs with
  | took m ho => simp [flow, taken, ho]
  | refused m ho => simp [ho]
  | queued m ms hp =>
    obtain ⟨hqueue, hcompleted⟩ := onSendAt_spec connection X.opened m X.outbox
    simp [flow, hqueue, hcompleted, hp, taken]
  | wrote m rest hq =>
    obtain ⟨hqueue, hcompleted, -⟩ := onWriteAt_spec connection X.opened
      (o := ⟨m :: rest, [], X.outbox.completed ++ [m]⟩) rfl rfl
    simp [flow, hqueue, hcompleted, hq, taken]
  | failed m rest hq => simp [flow, hq, taken]
  | closed => simp [flow, taken]

/-- While nothing breaks the front is being written. -/
theorem chained_step (h : X.outbox.Chained) (ho : X.opened = true) {a : Action μ}
    (ha : ¬ a.Breaks) (hs : step connection X a = some Y) :
    Y.outbox.Chained ∧ Y.opened = true := by
  cases step_cases (.inl h) hs with
  | took | refused => exact ⟨h, ho⟩
  | queued m ms hp =>
    refine ⟨?_, ho⟩
    obtain ⟨hqueue, -⟩ := onSendAt_spec connection X.opened m X.outbox
    by_cases hq : X.outbox.queue = []
    · have hnone : X.outbox.outstanding = [] := by
        rw [h, hq]
        rfl
      rcases onSendAt_empty connection X.opened m hq hnone with hout | ⟨hc, -⟩
      · rw [Chained, hout, hqueue, hq]
        rfl
      · rw [ho] at hc
        cases hc
    · rw [Chained, onSendAt_occupied connection X.opened m hq, hqueue, h,
        List.head?_append_of_ne_nil _ hq]
  | wrote m rest hq =>
    refine ⟨?_, ho⟩
    obtain ⟨hqueue, -, hout⟩ := onWriteAt_spec connection X.opened
      (o := ⟨m :: rest, [], X.outbox.completed ++ [m]⟩) rfl rfl
    rcases hout with hout | ⟨hc, -⟩
    · rw [Chained, hout, hqueue]
    · rw [ho] at hc
      cases hc
  | failed => exact absurd rfl ha
  | closed => exact absurd trivial ha

/-- A stalled queue stays so. -/
theorem stalled_step (h : X.outbox.Stalled) {a : Action μ}
    (hs : step connection X a = some Y) :
    Y.outbox.Stalled ∧ Y.outbox.completed = X.outbox.completed := by
  cases a with
  | send m =>
    cases hs
    cases X.opened <;> exact ⟨h, rfl⟩
  | onSend =>
    cases step_cases (.inr h) hs with
    | queued m ms hp =>
      obtain ⟨hqueue, hcompleted⟩ := onSendAt_spec connection X.opened m X.outbox
      exact ⟨⟨(onSendAt_occupied connection X.opened m h.2).trans h.1, by simp [hqueue]⟩,
        hcompleted⟩
  | onWrite i failed =>
    rw [step, h.1] at hs
    cases hs
  | close =>
    cases hs
    exact ⟨h, rfl⟩

theorem stalled_run (h : X.outbox.Stalled) {as : List (Action μ)}
    (hX : Run.exec (step connection) X as = some Y) :
    Y.outbox.Stalled ∧ Y.outbox.completed = X.outbox.completed :=
  Run.exec_invariant
    (I := fun Z : Sender μ => Z.outbox.Stalled ∧ Z.outbox.completed = X.outbox.completed)
    (fun hI hs => ⟨(stalled_step hI.1 hs).1, (stalled_step hI.1 hs).2.trans hI.2⟩) ⟨h, rfl⟩ hX

theorem flow_run : ∀ {as : List (Action μ)} {X : Sender μ}, X.outbox.Fronted →
    Run.exec (step connection) X as = some Y →
    Y.flow = X.flow ++ if X.opened then taken as else []
  | [], X, _, hX => by
    cases hX
    simp [taken]
  | a :: as, X, h, hX => by
    obtain ⟨Z, hZ, hX⟩ := Run.exec_cons.mp hX
    rw [flow_run (fronted_step h hZ) hX, flow_step h hZ as]

/-- **What a connection has written is the beginning of what `send` took**, whatever failed or
was closed meanwhile. -/
theorem written_in_order (connection : Connection) {as : List (Action μ)} {X : Sender μ}
    (hX : Run.exec (step connection) {} as = some X) :
    X.outbox.completed ++ X.outbox.queue ++ X.posted = taken as ∧
    X.outbox.outstanding.length ≤ 1 ∧
    (∀ m ∈ X.outbox.outstanding, X.outbox.queue.head? = some m) ∧
    (X.posted = [] → X.outbox.outstanding = [] →
      X.outbox.completed = taken as ∨ X.outbox.Stalled) ∧
    (X.outbox.Stalled → (∃ a ∈ as, a.Breaks) ∧
      ∀ bs Y, Run.exec (step connection) X bs = some Y →
        Y.outbox.Stalled ∧ Y.outbox.completed = X.outbox.completed) := by
  have hstart : ({} : Sender μ).outbox.Chained := rfl
  have hfront : X.outbox.Fronted := Run.exec_invariant (I := fun Z : Sender μ => Z.outbox.Fronted)
    (fun hI hs => fronted_step hI hs) (.inl hstart) hX
  have hflow : X.flow = taken as := by
    rw [flow_run (.inl hstart) hX]
    rfl
  refine ⟨hflow, ?_, ?_, fun hp ho => ?_, fun hst => ⟨?_, fun bs Y hY => stalled_run hst hY⟩⟩
  · rcases hfront.cases with ho | ⟨m, rest, -, ho⟩ <;> simp [ho]
  · intro m hm
    rcases hfront.cases with ho | ⟨m', rest, hq, ho⟩
    · rw [ho] at hm
      cases hm
    · rw [ho] at hm
      rw [hq, List.mem_singleton.mp hm]
      rfl
  · by_cases hq : X.outbox.queue = []
    · refine .inl ?_
      rw [← hflow, flow, hq, hp, List.append_nil, List.append_nil]
    · exact .inr ⟨ho, hq⟩
  · by_contra hnone
    push Not at hnone
    have hchained := Run.exec_invariant_along
      (I := fun Z : Sender μ => Z.outbox.Chained ∧ Z.opened = true)
      (C := fun _ a => ¬ a.Breaks) (fun hI ha hs => chained_step hI.1 hI.2 ha hs)
      ⟨hstart, rfl⟩ (Run.along_of_forall _ hnone) hX
    have hhead := hchained.1
    rw [Chained, hst.1] at hhead
    cases hq : X.outbox.queue with
    | nil => exact hst.2 hq
    | cons m rest =>
      rw [hq] at hhead
      cases hhead

/-- The second write fails: the third message, sent afterwards, is not written. -/
theorem written_in_order_failure : ∃ X : Sender Nat,
    Run.exec (step .session) {} [.send 1, .send 2, .onSend, .onSend, .onWrite 0 false,
      .onWrite 0 true, .send 3, .onSend] = some X ∧
    X.outbox.completed = [1] ∧
    X.outbox.completed ++ X.outbox.queue ++ X.posted = [1, 2, 3] ∧ X.outbox.Stalled := by
  have hX : Run.exec (step .session) {} [.send 1, .send 2, .onSend, .onSend, .onWrite 0 false,
      .onWrite 0 true, .send 3, .onSend] = some (⟨⟨[2, 3], [], [1]⟩, [], true⟩ : Sender Nat) := rfl
  obtain ⟨hflow, -, -, hend, -⟩ := written_in_order .session hX
  exact ⟨_, hX, rfl, hflow, (hend rfl rfl).resolve_left (by decide)⟩

end

end Sender

end Aewt
