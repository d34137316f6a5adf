import AewtState.Soundness

/-!
# What one step adds to a mesh

* `Makes`, `Sends`, `Assigns` — the ends, texts and tasks that are new after a step, each with
  what it comes from.
* `Tells` — that an end was told of a node: the report is on its way, or its handler is to
  connect, or the two nodes have a session.

Principal results: `mem_ends_step`, `mem_wire_step`, `mem_tasks_step`, `registered_step` — there
is nothing else; `Tells.of_step` — an end that was told stays so.
-/

set_option autoImplicit false

namespace Aewt

namespace Mesh

variable {N : Type} (S : Sites N)

/-- A connect makes two ends. -/
inductive Makes (X : Mesh N) (q : End N) : Prop where
  | opener (w : Worker N) (task : ⟨w, S.dial q.peer⟩ ∈ X.tasks) (here : q.node = w.node)
    (context : q.context = .remote)
  | acceptor (w : Worker N) (task : ⟨w, S.dial q.node⟩ ∈ X.tasks) (there : q.peer = w.node)
    (context : q.context = .accepting)

/-- A text is sent to an end by its other end: a registration, or the report of a registered
session. -/
inductive Sends (X : Mesh N) : Action N → End N → Command → Prop where
  | register (r : End N) (t : Uuid) (made : r ∈ X.ends) (down : r ∉ X.up)
    (context : r.context = .remote) : Sends X (.accept r t) r.other
      (.register (X.objects r.node).config.sessionsPort.toUInt64
        (X.objects r.node).config.clientsPort.toUInt64 (X.objects r.node).config.registered)
  | report (r q : End N) (rest : List Uuid) (t : Uuid)
    (task : ⟨.strand r, .test (q.id :: rest)⟩ ∈ X.tasks) (made : q ∈ X.ends)
    (here : q.node = r.node) (ne : q ≠ r) (registered : X.Registered q) :
    Sends X (.test r q.id rest t) r.other (S.naming q.peer)

/-- A task comes from a start, from a text or from another task. -/
inductive Assigns (X : Mesh N) : Action N → Task N → Prop where
  | start (n e : N) (new : n ∉ X.started) : Assigns X (.start n e) ⟨.main n, S.dial e⟩
  | enter (a : Action N) (w : Worker N) (r : End N) : Assigns X a ⟨w, .enter r⟩
  | sync (r : End N) (m : Notice) (sp cp : UInt64) (sent : m ∈ X.wire r)
    (command : m.command = .register sp cp false) : Assigns X (.read r) ⟨.strand r, .sync⟩
  | dial (r : End N) (m : Notice) (k : N) (sent : m ∈ X.wire r)
    (command : m.command = S.naming k) : Assigns X (.read r) ⟨.strand r, S.dial k⟩
  | snapshot (r : End N) (rest : List Uuid) (task : ⟨.strand r, .sync⟩ ∈ X.tasks) :
    Assigns X (.snapshot r) ⟨.strand r, .test rest⟩
  | test (r : End N) (s : Uuid) (rest : List Uuid) (t : Uuid)
    (task : ⟨.strand r, .test (s :: rest)⟩ ∈ X.tasks) :
    Assigns X (.test r s rest t) ⟨.strand r, .test rest⟩

variable {S} [DecidableEq N] {X Y : Mesh N} {a : Action N}

/-! ## What is new -/

theorem ends_step (hY : X.step S a = some Y) : X.ends ⊆ Y.ends := by
  cases step_cases hY with
  | connect w m x y cp => exact List.subset_append_left _ _
  | read r m => rw [reads_ends]; exact List.Subset.refl _
  | test r s rest t =>
    change X.ends ⊆ (X.report r s t).ends
    rw [report_ends]
    exact List.Subset.refl _
  | _ => exact List.Subset.refl _

theorem started_step (hY : X.step S a = some Y) : X.started ⊆ Y.started := by
  cases step_cases hY with
  | start n e => exact List.subset_append_left _ _
  | read r m => rw [reads_started]; exact List.Subset.refl _
  | test r s rest t =>
    change X.started ⊆ (X.report r s t).started
    rw [report_started]
    exact List.Subset.refl _
  | _ => exact List.Subset.refl _

theorem up_step (hY : X.step S a = some Y) : X.up ⊆ Y.up := by
  cases step_cases hY with
  | accept r t => exact List.subset_append_left _ _
  | read r m => rw [reads_up]; exact List.Subset.refl _
  | test r s rest t =>
    change X.up ⊆ (X.report r s t).up
    rw [report_up]
    exact List.Subset.refl _
  | _ => exact List.Subset.refl _

theorem mem_ends_step (h : Sound S X) (hY : X.step S a = some Y) {q : End N} (hq : q ∈ Y.ends) :
    q ∈ X.ends ∨ Makes S X q := by
  cases step_cases hY with
  | connect w m x y cp task =>
    obtain rfl := h.connect_eq task
    rcases List.mem_append.mp hq with hq | hq
    · exact .inl hq
    · rcases List.mem_cons.mp hq with rfl | hq
      · exact .inr (.opener w task rfl rfl)
      · rw [List.mem_singleton] at hq
        subst hq
        exact .inr (.acceptor w task rfl rfl)
  | read r m => exact .inl (by rwa [reads_ends] at hq)
  | test r s rest t =>
    change q ∈ (X.report r s t).ends at hq
    exact .inl (by rwa [report_ends] at hq)
  | _ => exact .inl hq

theorem mem_up_step (hY : X.step S a = some Y) {q : End N} (hq : q ∈ Y.up) :
    q ∈ X.up ∨ q ∈ X.ends ∧ q ∉ X.up ∧ ∃ t, a = .accept q t := by
  cases step_cases hY with
  | accept r t made down =>
    rcases List.mem_append.mp hq with hq | hq
    · exact .inl hq
    · rw [List.mem_singleton] at hq
      subst hq
      exact .inr ⟨made, down, t, rfl⟩
  | read r m => exact .inl (by rwa [reads_up] at hq)
  | test r s rest t =>
    change q ∈ (X.report r s t).up at hq
    exact .inl (by rwa [report_up] at hq)
  | _ => exact .inl hq

omit [DecidableEq N] in
theorem mem_deliver [DecidableEq N] {r q : End N} {m m' : Notice}
    (h : m' ∈ (X.deliver r m).wire q) :
    m' ∈ X.wire q ∨ q = r ∧ m' = m := by
  by_cases hq : q = r
  · subst hq
    simp only [deliver, Function.update_self, List.mem_append, List.mem_singleton] at h
    exact h.imp_right fun h => ⟨rfl, h⟩
  · simp only [deliver, Function.update_of_ne hq] at h
    exact .inl h

theorem mem_pop {r q : End N} {m : Notice} (h : m ∈ (X.pop r).wire q) : m ∈ X.wire q := by
  by_cases hq : q = r
  · subst hq
    simp only [pop, Function.update_self] at h
    exact List.mem_of_mem_tail h
  · simpa only [pop, Function.update_of_ne hq] using h

theorem mem_wire_step (h : Sound S X) (hY : X.step S a = some Y) {q : End N} {m : Notice}
    (hm : m ∈ Y.wire q) : m ∈ X.wire q ∨ Sends S X a q m.command := by
  cases step_cases hY with
  | accept r t made down =>
    cases hc : r.context with
    | accepting =>
      simp only [accepts, hc] at hm
      exact .inl hm
    | remote =>
      simp only [accepts, hc] at hm
      rcases mem_deliver hm with hm | ⟨rfl, rfl⟩
      · exact .inl hm
      · exact .inr (.register r t made down hc)
  | read r m' =>
    rw [reads_wire] at hm
    exact .inl (mem_pop hm)
  | test r s rest t task =>
    obtain ⟨hr, -⟩ := h.syncing_end task (.inr ⟨_, rfl⟩)
    change m ∈ (X.report r s t).wire q at hm
    rcases h.report_cases hr s t with heq | ⟨p, hp, hn, rfl, hne, hreg⟩
    · rw [heq] at hm
      exact .inl hm
    · obtain ⟨m', hm', heq⟩ := h.report_of_registered hr hp hn hne hreg t
      rw [heq] at hm
      rcases mem_deliver hm with hm | ⟨rfl, rfl⟩
      · exact .inl hm
      · rw [hm']
        exact .inr (.report r p rest t task hp hn hne hreg)
  | _ => exact .inl hm

theorem mem_tasks_step (h : Sound S X) (hY : X.step S a = some Y) {t : Task N}
    (ht : t ∈ Y.tasks) : t ∈ X.tasks ∨ Assigns S X a t := by
  cases step_cases hY with
  | start n e new =>
    rcases List.mem_append.mp ht with ht | ht
    · exact .inl ht
    · rw [List.mem_singleton] at ht
      subst ht
      exact .inr (.start n e new)
  | connect w m x y cp task =>
    rcases List.mem_append.mp ht with ht | ht
    · exact .inl (List.mem_of_mem_erase ht)
    · rw [List.mem_singleton] at ht
      subst ht
      exact .inr (.enter _ w _)
  | enter w r =>
    rcases List.mem_append.mp ht with ht | ht
    · exact .inl (List.mem_of_mem_erase ht)
    · cases ht
  | accept r t => exact .inl ht
  | read r m ms wire =>
    have hm : m ∈ X.wire r := wire ▸ List.mem_cons_self
    have hsaid := h.wire r m hm
    generalize hc : m.command = c at hsaid ht
    cases hsaid with
    | register made context b =>
      obtain ⟨s, -, heq⟩ := h.reads_register made context
        (S.config r.peer).sessionsPort.toUInt64 (S.config r.peer).clientsPort.toUInt64 b
      rw [heq] at ht
      rcases List.mem_append.mp ht with ht | ht
      · exact .inl ht
      · cases b with
        | true => cases ht
        | false =>
          simp only [syncing, Bool.false_eq_true, if_false, List.mem_singleton] at ht
          subst ht
          exact .inr (.sync r m _ _ hm hc)
    | naming made context k known =>
      rcases h.reads_naming (r := r) (k := k) with heq | ⟨heq, -⟩
      · rw [heq] at ht
        rcases List.mem_append.mp ht with ht | ht
        · exact .inl ht
        · rw [List.mem_singleton] at ht
          subst ht
          exact .inr (.dial r m k hm hc)
      · rw [heq] at ht
        rcases List.mem_append.mp ht with ht | ht
        · exact .inl ht
        · cases ht
  | snapshot r task =>
    rcases List.mem_append.mp ht with ht | ht
    · exact .inl (List.mem_of_mem_erase ht)
    · unfold testing at ht
      split at ht
      · cases ht
      · rw [List.mem_singleton] at ht
        subst ht
        exact .inr (.snapshot r _ task)
  | test r s rest t task =>
    rcases List.mem_append.mp ht with ht | ht
    · rw [report_tasks] at ht
      exact .inl (List.mem_of_mem_erase ht)
    · unfold testing at ht
      split at ht
      · cases ht
      · rw [List.mem_singleton] at ht
        subst ht
        exact .inr (.test r s rest t task)

/-! ## Flags -/

/-- Changing rows without their flags. -/
theorem registered_adjust {n : N} {id : Uuid} {f : Session → Session}
    (hf : ∀ s, (f s).id = s.id) {st : State}
    (hst : st.sessions = (X.objects n).sessions.adjust id f hf)
    (hY : Y.objects = Function.update X.objects n st)
    (hflag : ∀ s, (f s).registered = s.registered) (q : End N) :
    Y.Registered q ↔ X.Registered q := by
  unfold Registered
  rw [hY]
  by_cases hn : q.node = n
  · rw [hn, Function.update_self, hst]
    constructor
    · rintro ⟨s, hs, hid, hreg⟩
      obtain ⟨s', hs', rfl⟩ := Table.mem_adjust.mp hs
      refine ⟨s', hs', ?_, ?_⟩
      · split at hid
        · rwa [hf] at hid
        · exact hid
      · split at hreg
        · rwa [hflag] at hreg
        · exact hreg
    · rintro ⟨s, hs, hid, hreg⟩
      refine ⟨_, Table.mem_adjust.mpr ⟨s, hs, rfl⟩, ?_, ?_⟩
      · split
        · rwa [hf]
        · exact hid
      · split
        · rwa [hflag]
        · exact hreg
  · rw [Function.update_of_ne hn]

/-- `mark_as_registered`. -/
theorem registered_registers (h : Sound S X) {r q : End N} (hr : r ∈ X.ends) (hq : q ∈ X.ends)
    {s : Session} (hid : s.id = r.id) (sp cp : UInt64) (b : Bool) :
    (X.registers r s sp cp b).Registered q ↔ X.Registered q ∨ q = r := by
  have hobj : (X.registers r s sp cp b).objects = Function.update X.objects r.node
      ((X.objects r.node).markAsRegistered s.id sp.toUInt16 cp.toUInt16) := rfl
  unfold Registered
  rw [hobj]
  by_cases hn : q.node = r.node
  · rw [hn, Function.update_self, hid]
    constructor
    · rintro ⟨x, hx, hxid, hreg⟩
      by_cases hxr : x.id = r.id
      · exact .inr (h.unique q hq r hr hn (hxid.symm.trans hxr))
      · exact .inl ⟨x, (State.mem_markAsRegistered_of_ne hxr).mp hx, hxid, hreg⟩
    · have hself : ∀ x ∈ (X.objects r.node).sessions, x.id = r.id →
          ∃ y ∈ ((X.objects r.node).markAsRegistered r.id sp.toUInt16 cp.toUInt16).sessions,
            y.id = r.id ∧ y.registered = true := by
        intro x hx hxr
        rw [← hxr]
        exact ⟨_, State.mem_markAsRegistered_self hx, rfl, rfl⟩
      rintro (⟨x, hx, hxid, hreg⟩ | rfl)
      · by_cases hxr : x.id = r.id
        · obtain ⟨y, hy, hyid, hyreg⟩ := hself x hx hxr
          exact ⟨y, hy, hyid.trans (hxr.symm.trans hxid), hyreg⟩
        · exact ⟨x, (State.mem_markAsRegistered_of_ne hxr).mpr hx, hxid, hreg⟩
      · obtain ⟨x, hx, hrow⟩ := h.object q hr
        exact hself x hx hrow.id
  · rw [Function.update_of_ne hn]
    refine (or_iff_left ?_).symm
    rintro rfl
    exact hn rfl

/-- A flag is set by reading a registration, and by nothing else. -/
theorem registered_step (h : Sound S X) (hY : X.step S a = some Y) {q : End N} (hq : q ∈ Y.ends) :
    Y.Registered q ↔ X.Registered q ∨ a = .read q ∧ ∃ m ∈ (X.wire q).head?, ∃ sp cp b,
      m.command = .register sp cp b := by
  cases step_cases hY with
  | connect w m x y cp task member here there apart =>
    simp only [reduceCtorEq, false_and, or_false]
    have hobj := fun {k s} => mem_objects_connects h
      ⟨w, .connect (S.host m) (S.config m).sessionsPort.toUInt64 cp⟩ ⟨.remote, w.node, x, m, y⟩
      (S.config m).sessionsPort.toUInt64 cp here there apart (k := k) (s := s)
    constructor
    · rintro ⟨s, hs, hid, hreg⟩
      rcases hobj.mp hs with hs | ⟨-, rfl⟩ | ⟨-, rfl⟩
      · exact ⟨s, hs, hid, hreg⟩
      · cases hreg
      · cases hreg
    · rintro ⟨s, hs, hid, hreg⟩
      exact ⟨s, hobj.mpr (.inl hs), hid, hreg⟩
  | accept r t made down =>
    simp only [reduceCtorEq, false_and, or_false]
    have hst : (accepted S r (X.objects r.node)).sessions = (X.objects r.node).sessions.adjust r.id
        (fun s => { s with host := S.host r.peer }) fun _ => rfl := by
      unfold accepted
      split <;> rfl
    exact registered_adjust _ hst rfl (fun _ => rfl) q
  | read r m ms wire up free =>
    rw [reads_ends] at hq
    have hhead : (X.wire r).head? = some m := by rw [wire]; rfl
    have hsaid := h.wire r m (wire ▸ List.mem_cons_self)
    generalize hc : m.command = c at hsaid ⊢
    cases hsaid with
    | register made context b =>
      obtain ⟨s, hid, heq⟩ := h.reads_register made context (S.config r.peer).sessionsPort.toUInt64
        (S.config r.peer).clientsPort.toUInt64 b
      rw [heq, registered_registers h made hq hid]
      refine or_congr_right ⟨?_, ?_⟩
      · rintro rfl
        exact ⟨rfl, m, hhead, _, _, _, hc⟩
      · rintro ⟨ha, -⟩
        cases ha
        rfl
    | naming made context k known =>
      have hno : ¬ (Action.read r = .read q ∧ ∃ m ∈ (X.wire q).head?, ∃ sp cp b,
          m.command = .register sp cp b) := by
        rintro ⟨ha, m', hm', sp, cp, b, hreg⟩
        cases ha
        rw [hhead] at hm'
        cases hm'
        rw [hc] at hreg
        cases hreg
      rw [or_iff_left hno]
      rcases h.reads_naming (r := r) (k := k) with heq | ⟨heq, -⟩
      · rw [heq]
        rfl
      · rw [heq]
        rfl
  | test r s rest t task =>
    simp only [reduceCtorEq, false_and, or_false]
    unfold Registered proceed
    rw [report_objects]
  | start | enter | snapshot =>
    simp only [reduceCtorEq, false_and, or_false]
    rfl

theorem registers_config (r : End N) (s : Session) (sp cp : UInt64) (b : Bool) (n : N) :
    ((X.registers r s sp cp b).objects n).config = (X.objects n).config :=
  objects_modify (X := X.pop r) State.config
    (·.markAsRegistered s.id sp.toUInt16 cp.toUInt16) (fun _ => rfl) r.node n

/-- A node counts as registered from its first `on_accept` as an opener. -/
theorem config_step (hY : X.step S a = some Y) (n : N) :
    (Y.objects n).config.registered = true ↔ (X.objects n).config.registered = true ∨
      ∃ r t, a = .accept r t ∧ r.node = n ∧ r.context = .remote := by
  cases step_cases hY with
  | connect w m x y cp =>
    simp only [reduceCtorEq, false_and, exists_false, or_false]
    have hfirst := objects_modify (X := X) State.config (fun st => (st.addSession (dialled x
      (S.config m).sessionsPort.toUInt64 cp)).1) (fun _ => rfl) w.node n
    have hsecond := objects_modify (X := X.modify w.node fun st => (st.addSession (dialled x
      (S.config m).sessionsPort.toUInt64 cp)).1) State.config
      (fun st => (st.addSession { id := y }).1) (fun _ => rfl) m n
    exact iff_of_eq (congrArg (fun c => c.registered = true) (hsecond.trans hfirst))
  | accept r t made down =>
    have hobj : (X.accepts S r t).objects n =
        if n = r.node then accepted S r (X.objects r.node) else X.objects n := by
      simp [accepts, modify, Function.update_apply]
    rw [hobj]
    by_cases hn : n = r.node
    · subst hn
      rw [if_pos rfl]
      cases hc : r.context with
      | accepting => simp [accepted, hc, State.setHost]
      | remote => simp [accepted, hc, State.setRegistered]
    · rw [if_neg hn]
      refine (or_iff_left ?_).symm
      rintro ⟨r', t', ha, rfl, -⟩
      cases ha
      exact hn rfl
  | read r m ms wire up free =>
    simp only [reduceCtorEq, false_and, exists_false, or_false]
    have heq : ((X.reads r m.command).objects n).config = (X.objects n).config := by
      unfold reads
      split
      · split
        · exact registers_config ..
        · rfl
      · rfl
    rw [heq]
  | test r s rest t task =>
    simp only [reduceCtorEq, false_and, exists_false, or_false]
    unfold proceed
    rw [report_objects]
  | start | enter | snapshot =>
    simp only [reduceCtorEq, false_and, exists_false, or_false]
    rfl

/-! ## Being told of a node -/

/-- The end `r` was told of node `k`. -/
def Tells (S : Sites N) (X : Mesh N) (r : End N) (k : N) : Prop :=
  (∃ m ∈ X.wire r, m.command = S.naming k) ∨ ⟨.strand r, S.dial k⟩ ∈ X.tasks ∨
    ∃ q ∈ X.ends, q.node = r.node ∧ q.peer = k

/-- The handler of the end `r` has still to test `q`. -/
def Tests (X : Mesh N) (r q : End N) : Prop :=
  ⟨.strand r, .sync⟩ ∈ X.tasks ∨ ∃ rest, ⟨.strand r, .test rest⟩ ∈ X.tasks ∧ q.id ∈ rest

/-- The task that a step takes up. -/
def Action.task : Action N → Option (Task N)
  | .connect w host sp cp _ _ _ => some ⟨w, .connect host sp cp⟩
  | .enter w r => some ⟨w, .enter r⟩
  | .snapshot r => some ⟨.strand r, .sync⟩
  | .test r s rest _ => some ⟨.strand r, .test (s :: rest)⟩
  | _ => none

/-- Every other task is still to do. -/
theorem task_step (h : Sound S X) (hY : X.step S a = some Y) {t : Task N} (ht : t ∈ X.tasks)
    (ha : a.task ≠ some t) : t ∈ Y.tasks := by
  have hproceed : ∀ {Z : Mesh N} {u : Task N} {us : List (Task N)}, Z.tasks = X.tasks →
      some u ≠ some t → t ∈ (Z.proceed u us).tasks := by
    intro Z u us hZ hne
    refine List.mem_append_left _ ((List.mem_erase_of_ne ?_).mpr (hZ ▸ ht))
    rintro rfl
    exact hne rfl
  cases step_cases hY with
  | start n e => exact List.mem_append_left _ ht
  | connect w m x y cp => exact hproceed (Z := X) rfl ha
  | enter w r => exact hproceed (Z := X) rfl ha
  | accept r t => exact ht
  | read r m ms wire up free =>
    have hsaid := h.wire r m (wire ▸ List.mem_cons_self)
    generalize m.command = c at hsaid ⊢
    cases hsaid with
    | register made context b =>
      obtain ⟨s, -, heq⟩ := h.reads_register made context
        (S.config r.peer).sessionsPort.toUInt64 (S.config r.peer).clientsPort.toUInt64 b
      rw [heq]
      exact List.mem_append_left _ ht
    | naming made context k known =>
      rcases h.reads_naming (r := r) (k := k) with heq | ⟨heq, -⟩
      · rw [heq]
        exact List.mem_append_left _ ht
      · rw [heq]
        exact List.mem_append_left _ ht
  | snapshot r => exact hproceed (Z := X) rfl ha
  | test r s rest t => exact hproceed (report_tasks ..) ha

/-- A text waits until it is read. -/
theorem wire_step (hY : X.step S a = some Y) {r : End N} {m : Notice} (hm : m ∈ X.wire r) :
    m ∈ Y.wire r ∨ a = .read r ∧ m ∈ (X.wire r).head? := by
  have hdeliver : ∀ {q : End N} {u : Notice}, m ∈ (X.deliver q u).wire r := by
    intro q u
    by_cases hq : r = q
    · subst hq
      simpa [deliver] using .inl hm
    · simpa [deliver, Function.update_of_ne hq] using hm
  cases step_cases hY with
  | accept q t =>
    refine .inl ?_
    cases hc : q.context with
    | accepting =>
      simp only [accepts, hc]
      exact hm
    | remote =>
      simp only [accepts, hc]
      exact hdeliver
  | read q u us wire =>
    rw [reads_wire]
    by_cases hq : r = q
    · subst hq
      rw [wire] at hm ⊢
      rcases List.mem_cons.mp hm with rfl | hm
      · exact .inr ⟨rfl, rfl⟩
      · exact .inl (by simpa [pop, wire] using hm)
    · exact .inl (by simpa [pop, Function.update_of_ne hq] using hm)
  | test q s rest t task =>
    refine .inl ?_
    change m ∈ (X.report q s t).wire r
    unfold report
    split
    · split
      · exact hdeliver
      · exact hm
    · exact hm
  | _ => exact .inl hm

theorem Tells.of_step (h : Sound S X) (hY : X.step S a = some Y) {r : End N} {k : N}
    (ht : X.Tells S r k) : Y.Tells S r k := by
  rcases ht with ⟨m, hm, hc⟩ | ht | ⟨q, hq, hn, hp⟩
  · rcases wire_step hY hm with hm | ⟨rfl, hm⟩
    · exact .inl ⟨m, hm, hc⟩
    · cases step_cases hY with
      | read _ u us wire =>
        rw [wire] at hm
        cases hm
        rw [hc]
        rcases h.reads_naming (r := r) (k := k) with heq | ⟨heq, q, hq, hqk⟩
        · refine .inr (.inl ?_)
          rw [heq]
          exact List.mem_append_right _ (List.mem_singleton_self _)
        · refine .inr (.inr ⟨q, ?_, hqk⟩)
          rwa [reads_ends]
  · by_cases ha : a.task = some ⟨.strand r, S.dial k⟩
    · cases step_cases hY with
      | connect w m x y cp task =>
        simp only [Action.task, Sites.dial, Option.some.injEq, Task.mk.injEq,
          Job.connect.injEq] at ha
        obtain ⟨rfl, hh, hp, -⟩ := ha
        obtain rfl := S.injective hh (UInt16.toUInt64_inj.mp hp)
        exact .inr (.inr ⟨_, List.mem_append_right _ List.mem_cons_self, rfl, rfl⟩)
      | _ => simp [Action.task, Sites.dial] at ha
    · exact .inr (.inl (task_step h hY ht ha))
  · exact .inr (.inr ⟨q, ends_step hY hq, hn, hp⟩)

/-- A handler that has to test a registered session will report it. -/
theorem Tests.of_step (h : Sound S X) (hY : X.step S a = some Y) {r q : End N} (hr : r ∈ X.ends)
    (hq : q ∈ X.ends) (hn : q.node = r.node) (hne : q ≠ r) (hreg : X.Registered q)
    (ht : X.Tests r q) : Y.Tests r q ∨ Y.Tells S r.other q.peer := by
  have hmap : q.id ∈ (X.map r.node).getSessions.map Session.id := by
    obtain ⟨s, hs, -, hrow⟩ := h.row_of_registered hq hreg
    have hin := h.accepting q hq (h.accepting_of_registered hq hreg)
    exact List.mem_map.mpr ⟨s, mem_map.mpr ⟨hn ▸ hs, q, hin, hn, hrow.id.symm⟩, hrow.id⟩
  rcases ht with ht | ⟨rest, ht, hmem⟩
  · by_cases ha : a.task = some ⟨.strand r, .sync⟩
    · cases step_cases hY with
      | snapshot r' task =>
        cases ha
        refine .inl (.inr ⟨_, List.mem_append_right _ ?_, hmap⟩)
        unfold testing
        rw [if_neg (List.ne_nil_of_mem hmap)]
        exact List.mem_singleton_self _
      | _ => cases ha
    · exact .inl (.inl (task_step h hY ht ha))
  · by_cases ha : a.task = some ⟨.strand r, .test rest⟩
    · cases step_cases hY with
      | test r' s rest' t task =>
        cases ha
        rcases List.mem_cons.mp hmem with rfl | hmem
        · obtain ⟨m, hm, heq⟩ := h.report_of_registered hr hq hn hne hreg t
          refine .inr (.inl ⟨m, ?_, hm⟩)
          change m ∈ (X.report r q.id t).wire r.other
          rw [heq]
          simp [deliver]
        · refine .inl (.inr ⟨rest', List.mem_append_right _ ?_, hmem⟩)
          unfold testing
          rw [if_neg (List.ne_nil_of_mem hmem)]
          exact List.mem_singleton_self _
      | _ => cases ha
    · exact .inl (.inr ⟨rest, task_step h hY ht ha, hmem⟩)

end Mesh

end Aewt
