import AewtState.FullMesh
import AewtState.Lib.Rank
import Mathlib.Algebra.BigOperators.Group.Finset.Piecewise
import Mathlib.Algebra.Order.BigOperators.Group.Finset
import Mathlib.Algebra.Ring.Nat
import Mathlib.Data.Fintype.BigOperators
import Mathlib.Data.Fintype.Pi

/-!
# What is left to do in a mesh

* `Unaided` — every action but a start.
* `Weights`, `Weights.total` — a way to count what is still to do, and the count.
* `Trade` — the kinds of step, each with what it takes away and what it leaves to do.
* `Flagged` — whoever is told of other nodes has registered before, so it does not ask for a sync
  again.

Principal result: `trade_step` — every unaided step is a trade, whatever is counted.
-/

set_option autoImplicit false

namespace Aewt

namespace Mesh

variable {N : Type}

/-- No node is started. -/
def Unaided : Action N → Prop
  | .start _ _ => False
  | _ => True

instance : DecidablePred (Unaided (N := N))
  | .start _ _ => .isFalse id
  | .connect .. | .enter .. | .accept .. | .read .. | .snapshot .. | .test .. => .isTrue trivial

/-! ## Counting what is to do -/

/-- What everything that is still to do counts. -/
structure Weights where
  sync : ℕ
  /-- For each session to test. -/
  test : ℕ
  /-- To connect, for a main thread. -/
  main : ℕ
  /-- To connect, for a strand. -/
  dial : ℕ
  enter : ℕ
  /-- A registration on its way, by its flag. -/
  register : Bool → ℕ
  /-- The report of a session. -/
  naming : ℕ
  /-- An opener that is not up, by the flag of its node. -/
  opener : Bool → ℕ
  acceptor : ℕ
  opener_le : opener true ≤ opener false

namespace Weights

variable (c : Weights)

def task : Task N → ℕ
  | ⟨_, .sync⟩ => c.sync
  | ⟨_, .test rest⟩ => c.test * rest.length
  | ⟨.main _, .connect _ _ _⟩ => c.main
  | ⟨.strand _, .connect _ _ _⟩ => c.dial
  | ⟨_, .enter _⟩ => c.enter

def tasks (ts : List (Task N)) : ℕ := (ts.map c.task).sum

def text (m : Notice) : ℕ :=
  match m.command with
  | .register _ _ b => c.register b
  | .session _ _ _ => c.naming
  | _ => 0

def texts (ms : List Notice) : ℕ := (ms.map c.text).sum

/-- The handshake of an end, by the flag of its node. -/
def handshake (r : End N) (flag : Bool) : ℕ :=
  match r.context with
  | .remote => c.opener flag
  | .accepting => c.acceptor

variable [DecidableEq N]

/-- What is to do at an end: read its texts, and finish its handshake. -/
def atEnd (X : Mesh N) (r : End N) : ℕ :=
  c.texts (X.wire r) +
    if X.up.any fun q => q = r then 0 else c.handshake r (X.objects r.node).config.registered

theorem atEnd_eq (X : Mesh N) (r : End N) : c.atEnd X r = c.texts (X.wire r) +
    if r ∈ X.up then 0 else c.handshake r (X.objects r.node).config.registered := by
  simp [atEnd]

def total (X : Mesh N) : ℕ := c.tasks X.tasks + ∑ r ∈ X.ends.toFinset, c.atEnd X r

end Weights

/-- The kinds of step, by what they take up. -/
inductive Trade where
  | main (flag : Bool)
  | dial
  | enter
  | acceptor
  | opener (flag : Bool)
  | register (flag : Bool)
  | naming
  | snapshot (n : ℕ)
  | test

/-- What the step takes away. -/
def Trade.lost (c : Weights) : Trade → ℕ
  | .main _ => c.main
  | .dial => c.dial
  | .enter => c.enter
  | .acceptor => c.acceptor
  | .opener flag => c.opener flag
  | .register flag => c.register flag
  | .naming => c.naming
  | .snapshot _ => c.sync
  | .test => c.test

/-- What it leaves to do at most. -/
def Trade.gained (c : Weights) : Trade → ℕ
  | .main flag => c.enter + c.opener flag + c.acceptor
  | .dial => c.enter + c.opener true + c.acceptor
  | .enter => 0
  | .acceptor => 0
  | .opener flag => c.register flag
  | .register flag => if flag then 0 else c.sync
  | .naming => c.dial
  | .snapshot n => c.test * n
  | .test => c.naming

/-- The syncs that are still to come. -/
def syncs : Weights where
  sync := 1
  test := 0
  main := 1
  dial := 0
  enter := 0
  register flag := if flag then 0 else 1
  naming := 0
  opener flag := if flag then 0 else 1
  acceptor := 0
  opener_le := by decide

/-- The steps that are still to come when no sync takes a snapshot. -/
def work : Weights where
  sync := 1
  test := 8
  main := 6
  dial := 6
  enter := 1
  register _ := 2
  naming := 7
  opener _ := 3
  acceptor := 1
  opener_le := le_refl _

/-- No step makes a sync to come, and one that does not make them fewer leaves less to do. -/
theorem Trade.lower (t : Trade) : t.gained syncs ≤ t.lost syncs ∧
    (t.gained syncs < t.lost syncs ∨ t.gained work < t.lost work) := by
  cases t with
  | main flag | opener flag | register flag => cases flag <;> decide
  | snapshot n => exact ⟨by simp [gained, syncs], .inl (by simp [gained, lost, syncs])⟩
  | _ => decide

/-! ## What one step changes -/

section

variable (c : Weights)

@[simp] theorem tasks_append (ts us : List (Task N)) :
    c.tasks (ts ++ us) = c.tasks ts + c.tasks us := by
  simp [Weights.tasks]

@[simp] theorem tasks_singleton (t : Task N) : c.tasks [t] = c.task t := by
  simp [Weights.tasks]

theorem tasks_proceed [DecidableEq N] {X : Mesh N} {t : Task N} (ht : t ∈ X.tasks)
    (ts : List (Task N)) :
    c.tasks (X.proceed t ts).tasks + c.task t = c.tasks X.tasks + c.tasks ts := by
  have hperm := ((List.perm_cons_erase ht).map c.task).sum_eq
  rw [List.map_cons, List.sum_cons] at hperm
  simp only [proceed, Weights.tasks, List.map_append, List.sum_append]
  omega

theorem tasks_testing (r : End N) (rest : List Uuid) :
    c.tasks (testing r rest) = c.test * rest.length := by
  unfold testing
  split
  · rename_i h
    simp [h, Weights.tasks]
  · simp [Weights.task]

end

variable {S : Sites N} [DecidableEq N] {X Y : Mesh N} {a : Action N}

/-- The flag of a node is never taken back. -/
theorem flag_step (hY : X.step S a = some Y) {n : N}
    (hn : (X.objects n).config.registered = true) : (Y.objects n).config.registered = true :=
  (config_step hY n).mpr (.inl hn)

/-- It is as it was, unless an opener comes up. -/
theorem flag_eq (hY : X.step S a = some Y) {n : N}
    (ha : ∀ r t, a = .accept r t → r.node ≠ n) :
    (Y.objects n).config.registered = (X.objects n).config.registered := by
  rw [Bool.eq_iff_iff, config_step hY n]
  refine or_iff_left ?_
  rintro ⟨r, t, hr, hn, -⟩
  exact ha r t hr hn

/-- Whoever is told of other nodes has registered. -/
structure Flagged (S : Sites N) (X : Mesh N) : Prop where
  naming : ∀ r, ∀ m ∈ X.wire r, ∀ k, m.command = S.naming k →
    (X.objects r.node).config.registered = true
  dial : ∀ r k, ⟨.strand r, S.dial k⟩ ∈ X.tasks → (X.objects r.node).config.registered = true
  syncing : ∀ r j, ⟨.strand r, j⟩ ∈ X.tasks → (j = .sync ∨ ∃ rest, j = .test rest) →
    (X.objects r.peer).config.registered = true
  register : ∀ r, ∀ m ∈ X.wire r, ∀ sp cp b, m.command = .register sp cp b →
    (X.objects r.peer).config.registered = true

omit [DecidableEq N] in
theorem flagged_founded (S : Sites N) (f : N) : Flagged S (S.founded f) where
  naming _ _ hm := by cases hm
  dial _ _ ht := by cases ht
  syncing _ _ ht := by cases ht
  register _ _ hm := by cases hm

theorem Flagged.of_step (hf : Flagged S X) (h : Sound S X) (hY : X.step S a = some Y) :
    Flagged S Y where
  naming r m hm k hk := by
    rcases mem_wire_step h hY hm with hm | hm
    · exact flag_step hY (hf.naming r m hm k hk)
    · rw [hk] at hm
      generalize hc : S.naming k = c at hm
      cases hm with
      | register => cases hc
      | report p q rest t task made here ne registered =>
        exact flag_step hY (hf.syncing p _ task (.inr ⟨_, rfl⟩))
  dial r k ht := by
    rcases mem_tasks_step h hY ht with ht | ht
    · exact flag_step hY (hf.dial r k ht)
    · generalize htask : (⟨.strand r, S.dial k⟩ : Task N) = t at ht
      cases ht with
      | dial r' m k' sent command =>
        simp only [Task.mk.injEq, Worker.strand.injEq] at htask
        obtain ⟨rfl, -⟩ := htask
        exact flag_step hY (hf.naming r m sent k' command)
      | start => cases htask
      | _ => simp [Sites.dial] at htask
  syncing r j ht hj := by
    rcases mem_tasks_step h hY ht with ht | ht
    · exact flag_step hY (hf.syncing r j ht hj)
    · generalize htask : (⟨.strand r, j⟩ : Task N) = t at ht
      cases ht with
      | start => cases htask
      | enter a' w r' =>
        cases htask
        rcases hj with hj | ⟨rest, hj⟩ <;> cases hj
      | sync r' m sp cp sent command =>
        cases htask
        exact flag_step hY (hf.register r m sent sp cp false command)
      | dial r' m k sent command =>
        cases htask
        rcases hj with hj | ⟨rest, hj⟩ <;> cases hj
      | snapshot r' rest task =>
        cases htask
        exact flag_step hY (hf.syncing r _ task (.inl rfl))
      | test r' s rest t task =>
        cases htask
        exact flag_step hY (hf.syncing r _ task (.inr ⟨_, rfl⟩))
  register r m hm sp cp b hb := by
    rcases mem_wire_step h hY hm with hm | hm
    · exact flag_step hY (hf.register r m hm sp cp b hb)
    · rw [hb] at hm
      generalize hc : Command.register sp cp b = c at hm
      cases hm with
      | report => cases hc
      | register p t made down context =>
        -- the opener has set the flag of its own node by sending
        exact (config_step hY p.node).mpr (.inr ⟨p, t, rfl, rfl, context⟩)

/-! ## Every step is a trade -/

section

variable (c : Weights)

theorem atEnd_congr {q : End N} (hw : Y.wire q = X.wire q) (hu : q ∈ Y.up ↔ q ∈ X.up)
    (hf : (Y.objects q.node).config.registered = (X.objects q.node).config.registered) :
    c.atEnd Y q = c.atEnd X q := by
  simp only [Weights.atEnd_eq, hw, hu, hf]

/-- A step that changes tasks alone. -/
theorem total_of_tasks {d e : ℕ} (he : Y.ends = X.ends)
    (hq : ∀ q ∈ X.ends, c.atEnd Y q = c.atEnd X q)
    (ht : c.tasks Y.tasks + d ≤ c.tasks X.tasks + e) : c.total Y + d ≤ c.total X + e := by
  have hsum : ∑ q ∈ X.ends.toFinset, c.atEnd Y q = ∑ q ∈ X.ends.toFinset, c.atEnd X q :=
    Finset.sum_congr rfl fun q hm => hq q (List.mem_toFinset.mp hm)
  simp only [Weights.total, he, hsum]
  omega

/-- A step that takes something at one end, and leaves something at another. -/
theorem total_of_ends {r s : End N} {d e u v : ℕ} (he : Y.ends = X.ends) (hr : r ∈ X.ends)
    (hq : ∀ q ∈ X.ends, c.atEnd Y q + (if q = r then d else 0) ≤
      c.atEnd X q + (if q = s then e else 0))
    (ht : c.tasks Y.tasks + u ≤ c.tasks X.tasks + v) :
    c.total Y + (d + u) ≤ c.total X + (e + v) := by
  have hsum := Run.sum_shift (List.mem_toFinset.mpr hr)
    fun q hm => hq q (List.mem_toFinset.mp hm)
  simp only [Weights.total, he]
  omega

theorem texts_cons (m : Notice) (ms : List Notice) :
    c.texts (m :: ms) = c.text m + c.texts ms := by
  simp [Weights.texts]

theorem texts_deliver (r q : End N) (m : Notice) :
    c.texts ((X.deliver r m).wire q) = c.texts (X.wire q) + if q = r then c.text m else 0 := by
  by_cases hq : q = r
  · subst hq
    simp [deliver, Weights.texts]
  · simp [deliver, hq]

theorem texts_pop {r : End N} {m : Notice} {ms : List Notice} (hw : X.wire r = m :: ms)
    (q : End N) :
    c.texts ((X.pop r).wire q) + (if q = r then c.text m else 0) = c.texts (X.wire q) := by
  by_cases hq : q = r
  · subst hq
    simp [pop, hw, texts_cons, Nat.add_comm]
  · simp [pop, hq]

omit [DecidableEq N] in
/-- Nothing is on its way to an end that was not made. -/
theorem wire_of_not_mem (h : Sound S X) {r : End N} (hr : r ∉ X.ends) : X.wire r = [] := by
  rw [List.eq_nil_iff_forall_not_mem]
  intro m hm
  generalize hc : m.command = d
  have hsaid := h.wire r m hm
  rw [hc] at hsaid
  cases hsaid with
  | register made => exact hr made
  | naming made => exact hr made

theorem atEnd_of_not_mem (h : Sound S X) {r : End N} (hr : r ∉ X.ends) :
    c.atEnd X r = c.handshake r (X.objects r.node).config.registered := by
  have hup : r ∉ X.up := fun hu => hr (h.up r hu)
  simp [Weights.atEnd_eq, Weights.texts, wire_of_not_mem h hr, hup]

/-- The flags of all nodes are as they were. -/
theorem flags_connects (t : Task N) (r : End N) (sp cp : UInt64) (n : N) :
    ((X.connects t r sp cp).objects n).config.registered =
      (X.objects n).config.registered := by
  have hfirst := objects_modify (X := X) State.config
    (fun st => (st.addSession (dialled r.id sp cp)).1) (fun _ => rfl) r.node n
  have hsecond := objects_modify
    (X := X.modify r.node fun st => (st.addSession (dialled r.id sp cp)).1) State.config
    (fun st => (st.addSession { id := r.peerId }).1) (fun _ => rfl) r.peer n
  exact congrArg Config.registered (hsecond.trans hfirst)

/-- A connect leaves an `add_session` and two handshakes. -/
theorem total_connects (h : Sound S X) {t : Task N} (ht : t ∈ X.tasks) {r : End N}
    (hr : r ∉ X.ends) (ho : r.other ∉ X.ends) (hc : r.context = .remote) (sp cp : UInt64) :
    c.total (X.connects t r sp cp) + c.task t =
      c.total X + (c.enter + c.opener (X.objects r.node).config.registered + c.acceptor) := by
  have hne : r ≠ r.other := by
    intro heq
    have := congrArg End.context heq
    rw [End.other_context, hc] at this
    cases this
  have hold : ∀ q, c.atEnd (X.connects t r sp cp) q = c.atEnd X q :=
    fun q => atEnd_congr c rfl Iff.rfl (flags_connects t r sp cp q.node)
  have hends : (X.connects t r sp cp).ends.toFinset =
      insert r (insert r.other X.ends.toFinset) := by
    ext q
    simp only [connects, List.mem_toFinset, List.mem_append, List.mem_cons, List.not_mem_nil,
      or_false, Finset.mem_insert]
    tauto
  have hsum : ∑ q ∈ (X.connects t r sp cp).ends.toFinset, c.atEnd (X.connects t r sp cp) q =
      c.opener (X.objects r.node).config.registered +
        (c.acceptor + ∑ q ∈ X.ends.toFinset, c.atEnd X q) := by
    rw [hends, Finset.sum_insert (by simp [hne, hr]), Finset.sum_insert (by simp [ho]),
      Finset.sum_congr rfl fun q _ => hold q, hold, hold, atEnd_of_not_mem c h hr,
      atEnd_of_not_mem c h ho]
    simp [Weights.handshake, hc, SessionContext.other]
  have htasks := tasks_proceed c ht [⟨t.worker, .enter r⟩]
  rw [tasks_singleton] at htasks
  have htask : c.task (⟨t.worker, .enter r⟩ : Task N) = c.enter := by
    rcases t with ⟨_ | _, _⟩ <;> rfl
  have heq : (X.connects t r sp cp).tasks = (X.proceed t [⟨t.worker, .enter r⟩]).tasks := rfl
  simp only [Weights.total, hsum, heq]
  omega

omit [DecidableEq N] in
/-- A handshake is no longer once the node counts as registered. -/
theorem handshake_le (r : End N) {b b' : Bool} (hb : b = true → b' = true) :
    c.handshake r b' ≤ c.handshake r b := by
  unfold Weights.handshake
  split
  · cases b
    · cases b'
      · exact le_refl _
      · exact c.opener_le
    · rw [hb rfl]
  · exact le_refl _

/-- `on_accept` finishes a handshake, and the opener registers. -/
theorem total_accepts {r : End N} {t : Uuid} (hY : X.step S (.accept r t) = some Y) :
    ∃ k : Trade, ∀ c : Weights, c.total Y + k.lost c ≤ c.total X + k.gained c := by
  have hflag : ∀ q : End N, (X.objects q.node).config.registered = true →
      (Y.objects q.node).config.registered = true := fun q => flag_step hY
  cases step_cases hY with
  | accept _ _ made down =>
    have hup : ∀ q : End N, q ≠ r → (q ∈ (X.accepts S r t).up ↔ q ∈ X.up) := by
      intro q hq
      simp [accepts, hq]
    have hnew : r ∈ (X.accepts S r t).up := by simp [accepts]
    cases hc : r.context with
    | accepting =>
      refine ⟨.acceptor, fun c => ?_⟩
      refine total_of_ends c (s := r) (d := c.acceptor) (e := 0) (u := 0) (v := 0) rfl made ?_
        (le_refl _)
      intro q hq
      have hwire : (X.accepts S r t).wire q = X.wire q := by simp only [accepts, hc]
      by_cases hqr : q = r
      · subst hqr
        simp [Weights.atEnd_eq, hwire, hnew, down, Weights.handshake, hc]
      · have hle := handshake_le c q (hflag q)
        simp only [Weights.atEnd_eq, hwire, hup q hqr, hqr, if_false]
        split <;> omega
    | remote =>
      refine ⟨.opener (X.objects r.node).config.registered, fun c => ?_⟩
      set flag := (X.objects r.node).config.registered with hflagr
      refine total_of_ends c (s := r.other) (d := c.opener flag) (e := c.register flag)
        (u := 0) (v := 0) rfl made ?_ (le_refl _)
      intro q hq
      have hwire : c.texts ((X.accepts S r t).wire q) =
          c.texts (X.wire q) + if q = r.other then c.register flag else 0 := by
        simp only [accepts, hc]
        exact texts_deliver c r.other q _
      simp only [Weights.atEnd_eq, hwire]
      by_cases hqr : q = r
      · subst hqr
        simp only [hnew, down, if_true, if_false, Weights.handshake, hc, ← hflagr]
        omega
      · have hle := handshake_le c q (hflag q)
        simp only [hup q hqr, hqr, if_false]
        split <;> split <;> omega

/-- Reading a text. -/
theorem total_reads (h : Sound S X) {r : End N} (hY : X.step S (.read r) = some Y) :
    ∃ k : Trade, ∀ c : Weights, c.total Y + k.lost c ≤ c.total X + k.gained c := by
  have hflag : ∀ q : End N, (Y.objects q.node).config.registered =
      (X.objects q.node).config.registered := fun q => flag_eq hY (by simp)
  cases step_cases hY with
  | read _ m ms wire up free =>
    have hpop : ∀ (c : Weights) (q : End N),
        c.atEnd (X.reads r m.command) q + (if q = r then c.text m else 0) = c.atEnd X q := by
      intro c q
      have htexts := texts_pop c wire q
      simp only [Weights.atEnd_eq, reads_wire, reads_up, hflag]
      omega
    have htrade : ∀ (c : Weights) {e : ℕ},
        c.tasks (X.reads r m.command).tasks ≤ c.tasks X.tasks + e →
          c.total (X.reads r m.command) + c.text m ≤ c.total X + e := by
      intro c e ht
      have hends := total_of_ends c (s := r) (d := c.text m) (e := 0) (u := 0) (v := e)
        (reads_ends ..) (h.up r up) (fun q _ => by simp [hpop c q]) ht
      simpa using hends
    have hsaid := h.wire r m (wire ▸ List.mem_cons_self)
    generalize hc : m.command = d at hsaid htrade
    cases hsaid with
    | register made context b =>
      refine ⟨.register b, fun c => ?_⟩
      obtain ⟨s, -, heq⟩ := h.reads_register made context (S.config r.peer).sessionsPort.toUInt64
        (S.config r.peer).clientsPort.toUInt64 b
      have htasks : c.tasks (X.reads r (.register (S.config r.peer).sessionsPort.toUInt64
          (S.config r.peer).clientsPort.toUInt64 b)).tasks ≤
          c.tasks X.tasks + Trade.gained c (.register b) := by
        rw [heq]
        change c.tasks (X.tasks ++ syncing r b) ≤ _
        rw [tasks_append]
        cases b <;> simp [syncing, Trade.gained, Weights.tasks, Weights.task]
      simpa [Weights.text, hc, Trade.lost] using htrade c htasks
    | naming made context k known =>
      refine ⟨.naming, fun c => ?_⟩
      have htasks : c.tasks (X.reads r (S.naming k)).tasks ≤ c.tasks X.tasks + c.dial := by
        rcases h.reads_naming (r := r) (k := k) with heq | ⟨heq, -⟩
        · rw [heq]
          change c.tasks (X.tasks ++ [⟨.strand r, S.dial k⟩]) ≤ _
          rw [tasks_append, tasks_singleton]
          exact le_refl _
        · rw [heq]
          change c.tasks (X.tasks ++ []) ≤ _
          rw [List.append_nil]
          exact Nat.le_add_right _ _
      have htext : c.text m = c.naming := by simp only [Weights.text, hc, Sites.naming]
      simpa [htext, Trade.lost, Trade.gained] using htrade c htasks

/-- One test of `sync`'s loop. -/
theorem total_tests (h : Sound S X) {r : End N} {s : Uuid} {rest : List Uuid} {t : Uuid}
    (ht : ⟨.strand r, .test (s :: rest)⟩ ∈ X.tasks) (c : Weights) :
    c.total ((X.report r s t).proceed ⟨.strand r, .test (s :: rest)⟩ (testing r rest)) + c.test ≤
      c.total X + c.naming := by
  obtain ⟨hr, -⟩ := h.syncing_end ht (.inr ⟨_, rfl⟩)
  set Y := (X.report r s t).proceed ⟨.strand r, .test (s :: rest)⟩ (testing r rest)
  have htasks : c.tasks Y.tasks + c.test = c.tasks X.tasks := by
    have hproceed : c.tasks Y.tasks + c.task _ = _ :=
      tasks_proceed (X := X.report r s t) c (by rwa [report_tasks]) (testing r rest)
    rw [tasks_testing, report_tasks] at hproceed
    have htask : c.task (⟨.strand r, .test (s :: rest)⟩ : Task N) =
        c.test * rest.length + c.test := by
      simp [Weights.task, Nat.mul_add]
    omega
  have htexts : ∀ q, c.texts (Y.wire q) ≤
      c.texts (X.wire q) + if q = r.other then c.naming else 0 := by
    intro q
    change c.texts ((X.report r s t).wire q) ≤ _
    rcases h.report_cases hr s t with heq | ⟨p, hp, hn, rfl, hne, hreg⟩
    · rw [heq]
      exact Nat.le_add_right _ _
    · obtain ⟨m, hm, heq⟩ := h.report_of_registered hr hp hn hne hreg t
      have htext : c.text m = c.naming := by simp only [Weights.text, hm, Sites.naming]
      rw [heq, texts_deliver, htext]
  have hends := total_of_ends (X := X) (Y := Y) c (s := r.other) (d := 0) (e := c.naming)
    (u := c.test) (v := 0) (report_ends ..) hr (fun q _ => ?_) (by omega)
  · omega
  · have hobj : Y.objects = X.objects := report_objects ..
    have hup : Y.up = X.up := report_up ..
    have := htexts q
    simp only [Weights.atEnd_eq, hobj, hup, ite_self]
    omega

/-- **Every step is a trade**, whatever is counted. -/
theorem trade_step (h : Sound S X) (hf : Flagged S X) (hY : X.step S a = some Y)
    (ha : Unaided a) : ∃ k : Trade, ∀ c : Weights,
      c.total Y + k.lost c ≤ c.total X + k.gained c := by
  cases a with
  | start n e => exact ha.elim
  | accept r t => exact total_accepts hY
  | read r => exact total_reads h hY
  | connect w host sp cp m x y =>
    cases step_cases hY with
    | connect _ _ _ _ _ task member here there apart =>
      obtain rfl := h.connect_eq task
      set r : End N := ⟨.remote, w.node, x, m, y⟩ with hr
      have hnot : r ∉ X.ends := fun hm => here.2 r hm rfl rfl
      have hother : r.other ∉ X.ends := fun hm => there.2 r.other hm rfl rfl
      cases w with
      | main n =>
        exact ⟨.main (X.objects n).config.registered, fun c =>
          (total_connects c h task hnot hother rfl _ _).le⟩
      | strand q =>
        refine ⟨.dial, fun c => ?_⟩
        have htotal := (total_connects c h task hnot hother rfl
          (S.config m).sessionsPort.toUInt64 (S.config m).clientsPort.toUInt64).le
        have hflag : (X.objects r.node).config.registered = true := hf.dial q m task
        rwa [hflag] at htotal
  | enter w r =>
    cases step_cases hY with
    | enter _ _ task =>
      refine ⟨.enter, fun c => total_of_tasks c rfl (fun q _ => rfl) ?_⟩
      have htasks := tasks_proceed c task []
      have htask : c.task (⟨w, .enter r⟩ : Task N) = c.enter := by cases w <;> rfl
      rw [htask] at htasks
      exact htasks.le
  | snapshot r =>
    cases step_cases hY with
    | snapshot _ task =>
      refine ⟨.snapshot ((X.map r.node).getSessions.map Session.id).length, fun c =>
        total_of_tasks c rfl (fun q _ => rfl) ?_⟩
      have htasks := tasks_proceed c task
        (testing r ((X.map r.node).getSessions.map Session.id))
      rw [tasks_testing] at htasks
      exact htasks.le
  | test r s rest t =>
    cases step_cases hY with
    | test _ _ _ _ task => exact ⟨.test, total_tests h task⟩

end

end Mesh

end Aewt
