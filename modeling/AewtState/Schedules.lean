import AewtState.Threads
import AewtState.Subscribing
import AewtState.Lines

/-!
# Which subscriptions there are does not depend on the schedule

The handlers of one connection run in the order of its strand; how those of different
connections interleave is up to the threads.  A row of the subscriptions is changed by one
strand only: a local row by its client's, a row of a session by the session's.

* `Work.On` — what runs on the strand of a connection.
* `Work.row` — what a handler does to a row; `owner` — the strand that changes the row.

Principal result: `schedules_agree` — two runs in which every strand runs the same handlers end
with the same subscriptions, and so with the same answers and the same receivers of a
publication.
-/

set_option autoImplicit false

namespace Aewt

open Serial

/-- The work is one of the strand of `l`, on the node `id`: a request or a message that it
read, what it does as a whole, or the end of a session's rows. -/
def Work.On (id : Uuid) (l : Line) : Work → Prop
  | .request _ _ r command => r.context = l.context ∧ r.entityId = l.id ∧
    match l.context with
    | .onClient => command.ByClient l.id
    | .onSession => l.id ≠ id
  | .part (.dropSubscriptions s) => l = ⟨.onSession, s⟩ ∧ s ≠ id
  | _ => True

/-- What the work does to the row: it sets it, clears it or leaves it alone. -/
def Work.row (id : Uuid) (row : Subscription) : Work → Option (Subscription × Bool)
  | .request _ _ r command =>
    command.row (match r.context with | .onClient => id | .onSession => r.entityId)
  | .part (.dropSubscriptions s) => if row.sessionId = s then some (row, false) else none
  | _ => none

/-- The strand that changes the row. -/
def Subscription.strand (id : Uuid) (row : Subscription) : Line :=
  if row.sessionId = id then ⟨.onClient, row.clientId⟩ else ⟨.onSession, row.sessionId⟩

namespace Work

variable {w : Work} {st : State} {row : Subscription}

theorem atomic_id (w : Work) (st : State) : (w.atomic st).state.id = st.id := by
  cases w with
  | request env drawn r command => exact outcome_id _
  | part p => cases p <;> rfl
  | accept | leave | remove | destroy => rfl

theorem mem_keep_row {s : Uuid} : row ∈ (st.subscriptions.keep (·.sessionId ≠ s)) ↔
    Replica.update (if row.sessionId = s then some (row, false) else none) row
      (row ∈ st.subscriptions) := by
  rw [Table.mem_keep]
  by_cases h : row.sessionId = s
  · simp [h]
  · simp [h]

theorem atomic_row {w : Work} (hw : w.Decides) (st : State) (row : Subscription) :
    row ∈ (w.atomic st).state.subscriptions ↔
      Replica.update (w.row st.id row) row (row ∈ st.subscriptions) := by
  cases w with
  | request env drawn r command => exact outcome_row _ r command row
  | destroy s => exact hw.elim
  | part p =>
    cases p with
    | dropSubscriptions s => exact mem_keep_row
    | enter | host | flag | mark | dropClients => exact Iff.rfl
  | accept | leave | remove => exact Iff.rfl

/-- Only the strand of the row changes it. -/
theorem strand_of_row {id : Uuid} {l : Line} {b : Bool} (hon : w.On id l)
    (h : w.row id row = some (row, b)) : l = row.strand id := by
  obtain ⟨context, lid⟩ := l
  cases w with
  | request env drawn r command =>
    obtain ⟨hctx, hid, hby⟩ := hon
    simp only [Work.row, hctx] at h
    cases context with
    | onClient =>
      have hby : command.ByClient lid := hby
      cases hby <;> cases h <;> simp [Subscription.strand]
    | onSession =>
      have hne : lid ≠ id := hby
      have hid : r.entityId = lid := hid
      cases command <;> cases h <;> simp [Subscription.strand, hid, hne]
  | part p =>
    cases p with
    | dropSubscriptions s =>
      obtain ⟨hl, hne⟩ := hon
      rw [hl]
      simp only [Work.row] at h
      split at h
      · rename_i hs
        simp [Subscription.strand, hs, hne]
      · cases h
    | enter | host | flag | mark | dropClients => cases h
  | accept | leave | remove | destroy => cases h

end Work

/-- The row after a serial run, as the last handler about it left it. -/
theorem mem_served (row : Subscription) : ∀ (es : List (Line × {w : Work // w.Decides}))
    (R : Served Line {w : Work // w.Decides} State (Option (String × Object))),
    row ∈ (es.foldl (serve handlers.serial) R).store.subscriptions ↔
      Replica.after (fun e => e.2.1.row R.store.id row) row (row ∈ R.store.subscriptions) es
  | [], _ => Iff.rfl
  | e :: es, R => by
    have hid : (serve handlers.serial R e).store.id = R.store.id := Work.atomic_id e.2.1 R.store
    have hrow : row ∈ (serve handlers.serial R e).store.subscriptions ↔
        Replica.update (e.2.1.row R.store.id row) row (row ∈ R.store.subscriptions) :=
      Work.atomic_row e.2.2 R.store row
    rw [List.foldl_cons, mem_served row es, hid, propext hrow]
    exact Iff.rfl

/-- What a serial run does to a row is what the strand of the row does. -/
theorem mem_served_strand {st : State} {es : List (Line × {w : Work // w.Decides})}
    (hon : ∀ e ∈ es, e.2.1.On st.id e.1) (row : Subscription) :
    row ∈ (es.foldl (serve handlers.serial) { store := st }).store.subscriptions ↔
      Replica.after (fun e => e.2.1.row st.id row) row (row ∈ st.subscriptions)
        (es.filter fun e => e.1 = row.strand st.id) := by
  rw [mem_served, Replica.after_filter]
  intro e he b hb
  exact decide_eq_true (Work.strand_of_row (hon e he) hb)

/-- **The subscriptions depend on what every connection asked, not on the schedule.** -/
theorem schedules_agree {st : State}
    {as as' : List (Serial.Action Line {w : Work // w.Decides})}
    {X X' : Machine Line {w : Work // w.Decides} State Answer}
    (hX : Run.exec (Serial.step handlers.code) { store := st } as = some X)
    (hX' : Run.exec (Serial.step handlers.code) { store := st } as' = some X')
    (hon : ∀ e ∈ begun as, e.2.1.On st.id e.1)
    (hsame : ∀ l, (begun as).filter (fun e => e.1 = l) = (begun as').filter fun e => e.1 = l) :
    (∀ row, row ∈ X.store.subscriptions ↔ row ∈ X'.store.subscriptions) ∧
    (∀ c ch, X.store.isSubscribed c ch = X'.store.isSubscribed c ch) ∧
    ∀ ch s, s ∈ receivers X.store ch ↔ s ∈ receivers X'.store ch := by
  have hon' : ∀ e ∈ begun as', e.2.1.On st.id e.1 := by
    intro e he
    have hmem : e ∈ (begun as').filter fun x => x.1 = e.1 := List.mem_filter.mpr ⟨he, by simp⟩
    rw [← hsame e.1] at hmem
    exact hon e (List.mem_filter.mp hmem).1
  have hrows : ∀ row, row ∈ X.store.subscriptions ↔ row ∈ X'.store.subscriptions := by
    intro row
    rw [(Handlers.exec_agrees (Handlers.agrees_start st) hX).store,
      (Handlers.exec_agrees (Handlers.agrees_start st) hX').store,
      mem_served_strand hon, mem_served_strand hon', hsame]
  refine ⟨hrows, fun c ch => ?_, fun ch s => ?_⟩
  · rw [Bool.eq_iff_iff, State.isSubscribed_iff, State.isSubscribed_iff]
    simp only [hrows]
  · simp only [mem_receivers, hrows]

/-- `c` asks for the news. -/
def newsWork (c : Uuid) : {w : Work // w.Decides} :=
  ⟨.request World.pair.env 0 ⟨Uuid.nil, c, .onClient, [], 0⟩ (.subscribe c "news"), trivial⟩

/-- One client subscribes, then another. -/
def newsInTurn (c d : Uuid) : List (Serial.Action Line {w : Work // w.Decides}) :=
  [.begin ⟨.onClient, c⟩ (newsWork c), .begin ⟨.onClient, d⟩ (newsWork d)]

/-- The machine after the two subscriptions. -/
def afterNews (c d : Uuid) : Machine Line {w : Work // w.Decides} State Answer :=
  (Run.exec (Serial.step handlers.code) { store := World.pair.state } (newsInTurn c d)).getD
    { store := World.pair.state }

/-- Two clients subscribe, one after the other or the other way round. -/
theorem schedules_agree_news :
    (afterNews firstClient secondClient).store.subscriptions.rows ≠
      (afterNews secondClient firstClient).store.subscriptions.rows ∧
    ∀ row, row ∈ (afterNews firstClient secondClient).store.subscriptions ↔
      row ∈ (afterNews secondClient firstClient).store.subscriptions := by
  have hX : Run.exec (Serial.step handlers.code) { store := World.pair.state }
      (newsInTurn firstClient secondClient) = some (afterNews firstClient secondClient) := rfl
  have hX' : Run.exec (Serial.step handlers.code) { store := World.pair.state }
      (newsInTurn secondClient firstClient) = some (afterNews secondClient firstClient) := rfl
  refine ⟨by decide +kernel, (schedules_agree hX hX' ?_ ?_).1⟩
  · intro e he
    simp only [begun, newsInTurn, List.filterMap_cons, List.filterMap_nil, List.mem_cons,
      List.not_mem_nil, or_false] at he
    rcases he with rfl | rfl <;> exact ⟨rfl, rfl, .subscribe "news"⟩
  · intro l
    have hne : firstClient ≠ secondClient := by decide
    by_cases hl : (⟨.onClient, firstClient⟩ : Line) = l
    · subst hl
      simp [begun, newsInTurn, hne.symm]
    · by_cases hl' : (⟨.onClient, secondClient⟩ : Line) = l <;> simp [begun, newsInTurn, hl, hl']

end Aewt
