import AewtState.Growth
import AewtState.Links

/-!
# Who is connected when everything has been handled

* `Founded` — nobody is ever told of the founder, and the founder connects to nobody.
* `Star` — when every node joins at the founder: a node that registered there is told of every
  other such node or the other is told of it, or a handler of the founder has still to test it.
* `Settled` — nothing is left to do; `FullMesh` — every two nodes have a session.

Principal result: `full_mesh_iff` — a settled run ends in a full mesh exactly when every node
joined at the founder.
-/

set_option autoImplicit false

namespace Aewt

namespace Mesh

variable {N : Type}

/-- Every text was read, every handshake is done and no handler runs. -/
structure Settled (X : Mesh N) : Prop where
  tasks : X.tasks = []
  up : ∀ r ∈ X.ends, r ∈ X.up
  wire : ∀ r ∈ X.ends, X.wire r = []

/-- Every two nodes have a session, which is in the maps of both. -/
def FullMesh [DecidableEq N] (X : Mesh N) : Prop :=
  ∀ n ∈ X.started, ∀ m ∈ X.started, n ≠ m → ∃ r ∈ X.ends, r.node = n ∧ r.peer = m ∧
    (X.map n).sessions.hasKey r.id = true ∧ (X.map m).sessions.hasKey r.peerId = true

/-- A node that joins does so at the founder. -/
def JoinsAt (f : N) (_ : Mesh N) : Action N → Prop
  | .start _ e => e = f
  | _ => True

instance [DecidableEq N] (f : N) (X : Mesh N) (a : Action N) : Decidable (JoinsAt f X a) :=
  match a with
  | .start _ e => inferInstanceAs (Decidable (e = f))
  | .connect .. | .enter .. | .accept .. | .read .. | .snapshot .. | .test .. => .isTrue trivial

variable (S : Sites N)

/-- The founder opens no session, and nobody is told of it. -/
structure Founded (f : N) (X : Mesh N) : Prop where
  started : f ∈ X.started
  accepts : ∀ r ∈ X.ends, r.node = f → r.context = .accepting
  main : ∀ n k, ⟨.main n, S.dial k⟩ ∈ X.tasks → n ≠ f
  naming : ∀ r, ∀ m ∈ X.wire r, ∀ k, m.command = S.naming k → k ≠ f
  dial : ∀ r k, ⟨.strand r, S.dial k⟩ ∈ X.tasks → k ≠ f

variable {S} [DecidableEq N] {X Y : Mesh N} {a : Action N} {f : N}

omit [DecidableEq N] in
theorem founded_founded (S : Sites N) (f : N) : Founded S f (S.founded f) where
  started := List.mem_singleton_self f
  accepts _ hr := by cases hr
  main _ _ ht := by cases ht
  naming _ _ hm := by cases hm
  dial _ _ ht := by cases ht

omit [DecidableEq N] in
/-- Who connects is not the founder. -/
theorem Founded.dialler (hf : Founded S f X) (h : Sound S X) {w : Worker N} {k : N}
    (ht : ⟨w, S.dial k⟩ ∈ X.tasks) : w.node ≠ f := by
  obtain ⟨-, -, -, ⟨n, -, rfl⟩ | ⟨r, hr, hc, rfl⟩⟩ := (h.task _ ht).connect
  · exact hf.main n k ht
  · intro hn
    rw [hf.accepts r hr hn] at hc
    cases hc

theorem Founded.of_step (hf : Founded S f X) (h : Sound S X) (hY : X.step S a = some Y) :
    Founded S f Y where
  started := started_step hY hf.started
  accepts r hr hn := by
    rcases mem_ends_step h hY hr with hr | hr
    · exact hf.accepts r hr hn
    · cases hr with
      | opener w task here context => exact absurd (here.symm.trans hn) (hf.dialler h task)
      | acceptor w task there context => exact context
  main n k ht := by
    rcases mem_tasks_step h hY ht with ht | ht
    · exact hf.main n k ht
    · generalize htask : (⟨.main n, S.dial k⟩ : Task N) = t at ht
      cases ht with
      | start n' e new =>
        simp only [Task.mk.injEq, Worker.main.injEq] at htask
        obtain ⟨rfl, -⟩ := htask
        rintro rfl
        exact new hf.started
      | enter a' w r => simp [Sites.dial] at htask
      | _ => cases htask
  naming r m hm k hk := by
    rcases mem_wire_step h hY hm with hm | hm
    · exact hf.naming r m hm k hk
    · rw [hk] at hm
      generalize hc : S.naming k = c at hm
      cases hm with
      | register => cases hc
      | report p q rest t task made here ne registered =>
        obtain rfl := naming_injective hc
        intro hn
        have hother := hf.accepts q.other (h.other q made) hn
        rw [End.other_context, h.accepting_of_registered made registered] at hother
        cases hother
  dial r k ht := by
    rcases mem_tasks_step h hY ht with ht | ht
    · exact hf.dial r k ht
    · generalize htask : (⟨.strand r, S.dial k⟩ : Task N) = t at ht
      cases ht with
      | dial r' m k' sent command =>
        simp only [Task.mk.injEq, dial_inj] at htask
        obtain ⟨-, rfl⟩ := htask
        exact hf.naming _ m sent _ command
      | start => cases htask
      | _ => simp [Sites.dial] at htask

/-! ## A node that does not join at the founder -/

/-- Node `n` has no session with the founder and will not have one. -/
structure Stray (S : Sites N) (f n : N) (X : Mesh N) : Prop where
  started : n ∈ X.started
  ends : ∀ r ∈ X.ends, r.node = n → r.peer ≠ f
  main : ∀ k, ⟨.main n, S.dial k⟩ ∈ X.tasks → k ≠ f

theorem Stray.of_step {n : N} (hs : Stray S f n X) (hf : Founded S f X) (h : Sound S X)
    (hY : X.step S a = some Y) : Stray S f n Y where
  started := started_step hY hs.started
  ends r hr hn := by
    rcases mem_ends_step h hY hr with hr | hr
    · exact hs.ends r hr hn
    · cases hr with
      | opener w task here context =>
        rcases w with k | q
        · exact hs.main _ ((here.symm.trans hn : k = n) ▸ task)
        · exact hf.dial q _ task
      | acceptor w task there context => exact there ▸ hf.dialler h task
  main k ht := by
    rcases mem_tasks_step h hY ht with ht | ht
    · exact hs.main k ht
    · generalize htask : (⟨.main n, S.dial k⟩ : Task N) = t at ht
      cases ht with
      | start n' e new =>
        simp only [Task.mk.injEq, Worker.main.injEq] at htask
        obtain ⟨rfl, -⟩ := htask
        exact absurd hs.started new
      | enter a' w r => simp [Sites.dial] at htask
      | _ => cases htask

/-- A node that is started at another node is one. -/
theorem stray_start {n e : N} (he : e ≠ f) (h : Sound S X)
    (hY : X.step S (.start n e) = some Y) : n ∉ X.started ∧ Stray S f n Y := by
  cases step_cases hY with
  | start _ _ new member =>
    refine ⟨new, ⟨?_, ?_, ?_⟩⟩
    · exact List.mem_append_right _ (List.mem_singleton_self n)
    · intro r hr hn
      exact absurd (hn ▸ h.started r hr) new
    · intro k ht
      rcases List.mem_append.mp ht with ht | ht
      · obtain ⟨-, -, -, ⟨k', hk', hw⟩ | ⟨r, -, -, hw⟩⟩ := (h.task _ ht).connect
        · cases hw
          exact absurd hk' new
        · cases hw
      · simp only [List.mem_singleton, Task.mk.injEq, dial_inj, true_and] at ht
        exact ht ▸ he

theorem Stray.not_fullMesh {n : N} (hs : Stray S f n X) (hf : Founded S f X) (hn : n ≠ f) :
    ¬ X.FullMesh := by
  intro hmesh
  obtain ⟨r, hr, hrn, hrf, -⟩ := hmesh n hs.started f hf.started hn
  exact hs.ends r hr hrn hrf

/-- Whoever ends in a full mesh joined at the founder. -/
theorem joinsAt_of_fullMesh (h : Sound S X) (hf : Founded S f X) {as : List (Action N)}
    (hY : Run.exec (step S) X as = some Y) (hmesh : Y.FullMesh) :
    Run.Along (step S) (JoinsAt f) X as := by
  induction as generalizing X with
  | nil => exact trivial
  | cons a as ih =>
    obtain ⟨Z, hZ, hrest⟩ := Run.exec_cons.mp hY
    refine Run.along_cons hZ ?_ (ih (h.of_step hZ) (hf.of_step h hZ) hrest)
    cases a with
    | start n e =>
      by_contra he
      obtain ⟨hn, hstray⟩ := stray_start he h hZ
      have hne : n ≠ f := by
        rintro rfl
        exact hn hf.started
      have hend := Run.exec_invariant
        (I := fun X => Sound S X ∧ Founded S f X ∧ Stray S f n X)
        (fun hI hs => ⟨hI.1.of_step hs, hI.2.1.of_step hI.1 hs, hI.2.2.of_step hI.2.1 hI.1 hs⟩)
        ⟨h.of_step hZ, hf.of_step h hZ, hstray⟩ hrest
      exact hend.2.2.not_fullMesh hend.2.1 hne hmesh
    | _ => trivial

/-! ## Every node joins at the founder -/

/-- The node has opened its session with the founder and registered there. -/
def Joined (f n : N) (X : Mesh N) : Prop :=
  ∃ r ∈ X.up, r.node = n ∧ r.peer = f ∧ r.context = .remote

/-- Of two ends that are registered at one node, one was told of the other's node or will be. -/
def Introduced (S : Sites N) (X : Mesh N) (r q : End N) : Prop :=
  X.Tells S r.other q.peer ∨ X.Tests r q

theorem Introduced.of_step {r q : End N} (hi : X.Introduced S r q) (h : Sound S X)
    (hY : X.step S a = some Y) (hr : r ∈ X.ends) (hq : q ∈ X.ends) (hn : q.node = r.node)
    (hne : q ≠ r) (hreg : X.Registered q) : Y.Introduced S r q := by
  rcases hi with ht | ht
  · exact .inl (ht.of_step h hY)
  · exact (ht.of_step h hY hr hq hn hne hreg).symm

structure Star (S : Sites N) (f : N) (X : Mesh N) : Prop where
  main : ∀ n k, ⟨.main n, S.dial k⟩ ∈ X.tasks → k = f
  ties : ∀ n, n ≠ f → X.ties S n f = if n ∈ X.started then 1 else 0
  config : ∀ n, n ≠ f → ((X.objects n).config.registered = true ↔ Joined f n X)
  opener : ∀ r ∈ X.ends, r.context = .remote → r.peer ≠ f → Joined f r.node X
  dial : ∀ r k, ⟨.strand r, S.dial k⟩ ∈ X.tasks → Joined f r.node X
  naming : ∀ r, ∀ m ∈ X.wire r, ∀ k, m.command = S.naming k → Joined f r.node X
  syncing : ∀ r j, ⟨.strand r, j⟩ ∈ X.tasks → (j = .sync ∨ ∃ rest, j = .test rest) →
    r.node = f ∧ r.other ∈ X.up
  register : ∀ r, ∀ m ∈ X.wire r, ∀ sp cp b, m.command = .register sp cp b →
    (b = false ↔ r.node = f) ∧ r.other ∈ X.up
  registering : ∀ r ∈ X.up, r.peer = f → r.context = .remote →
    (∃ m ∈ X.wire r.other, ∃ sp cp b, m.command = .register sp cp b) ∨ X.Registered r.other
  introduced : ∀ r ∈ X.ends, ∀ q ∈ X.ends, r ≠ q → r.node = f → q.node = f →
    X.Registered r → X.Registered q → X.Introduced S r q ∨ X.Introduced S q r

theorem star_founded (S : Sites N) (f : N) : Star S f (S.founded f) where
  main _ _ ht := by cases ht
  ties n hn := by simp [ties, links, dialling, Sites.founded, hn]
  config n _ := by
    simp only [Sites.founded, S.unregistered, Bool.false_eq_true, false_iff]
    rintro ⟨r, hr, -⟩
    cases hr
  opener _ hr := by cases hr
  dial _ _ ht := by cases ht
  naming _ _ hm := by cases hm
  syncing _ _ ht := by cases ht
  register _ _ hm := by cases hm
  registering _ hr := by cases hr
  introduced _ hr := by cases hr

omit [DecidableEq N] in
/-- An end whose other end is at the founder is an opener. -/
theorem Founded.opener (hf : Founded S f X) (h : Sound S X) {r : End N} (hr : r ∈ X.ends)
    (hp : r.peer = f) : r.context = .remote := by
  have hother := hf.accepts r.other (h.other r hr) hp
  cases hc : r.context with
  | remote => rfl
  | accepting =>
    rw [End.other_context, hc] at hother
    cases hother

theorem Joined.of_step {n : N} (hj : Joined f n X) (hY : X.step S a = some Y) : Joined f n Y := by
  obtain ⟨r, hr, hrest⟩ := hj
  exact ⟨r, up_step hY hr, hrest⟩

omit [DecidableEq N] in
theorem eq_of_countP_le_one [DecidableEq N] {p : End N → Bool} {rs : List (End N)}
    (hle : rs.countP p ≤ 1) {r q : End N} (hr : r ∈ rs) (hq : q ∈ rs) (hpr : p r = true)
    (hpq : p q = true) : r = q := by
  by_contra hne
  have hperm := (List.perm_cons_erase hr).countP_eq p
  rw [List.countP_cons_of_pos hpr] at hperm
  have hpos : 0 < (rs.erase r).countP p :=
    List.countP_pos_iff.mpr ⟨q, (List.mem_erase_of_ne (Ne.symm hne)).mpr hq, hpq⟩
  omega

namespace Star

/-- A node opens one session with the founder. -/
theorem opener_unique (hs : Star S f X) (hf : Founded S f X) (h : Sound S X)
    {r q : End N} (hr : r ∈ X.ends) (hq : q ∈ X.ends) (hn : r.node = q.node)
    (hrf : r.peer = f) (hqf : q.peer = f) : r = q := by
  have hne : r.node ≠ f := by
    intro hnf
    have hc := hf.accepts r hr hnf
    rw [hf.opener h hr hrf] at hc
    cases hc
  have hlinks : X.links r.node f ≤ 1 := by
    have hle := links_le_ties (S := S) (X := X) r.node f
    rw [hs.ties r.node hne] at hle
    split at hle <;> omega
  exact eq_of_countP_le_one hlinks hr hq (by simp [hrf]) (by simp [hn, hqf])

/-- The flag of a node that opens a session says whether this is its first. -/
theorem registered_iff (hs : Star S f X) (hf : Founded S f X) (h : Sound S X)
    {r : End N} (hr : r ∈ X.ends) (hc : r.context = .remote)
    (hdown : r ∉ X.up) : (X.objects r.node).config.registered = false ↔ r.peer = f := by
  have hne : r.node ≠ f := by
    intro hnf
    rw [hf.accepts r hr hnf] at hc
    cases hc
  rw [Bool.eq_false_iff, ne_eq, hs.config r.node hne]
  constructor
  · intro hj
    by_contra hp
    exact hj (hs.opener r hr hc hp)
  · rintro hp ⟨q, hq, hqn, hqf, -⟩
    have heq := hs.opener_unique hf h hr (h.up q hq) hqn.symm hp hqf
    exact hdown (heq ▸ hq)

/-- A start at the founder makes the node's one tie with it. -/
theorem ties_of_step (hs : Star S f X) (hf : Founded S f X) (h : Sound S X)
    (ha : JoinsAt f X a) (hY : X.step S a = some Y) (n : N) (hn : n ≠ f) :
    Y.ties S n f = if n ∈ Y.started then 1 else 0 := by
  have hstep := ties_step h hY hn
  have hX := hs.ties n hn
  have hkeep : ¬ (X.Opens S n f a ∨ X.Opens S f n a) → Y.started = X.started →
      Y.ties S n f = if n ∈ Y.started then 1 else 0 := by
    intro ho hst
    rw [hstep, if_neg ho, hX, hst, Nat.add_zero]
  cases step_cases hY with
  | start k e new member =>
    obtain rfl : e = f := ha
    by_cases hk : k = n
    · subst hk
      have hopens : X.Opens S k e (.start k e) := ⟨rfl, rfl⟩
      have hnew : k ∈ (X.starts S k e).started :=
        List.mem_append_right _ (List.mem_singleton_self k)
      rw [hstep, if_pos (.inl hopens), ties_of_new h new, if_pos hnew]
    · have hopens : ¬ (X.Opens S n e (.start k e) ∨ X.Opens S e n (.start k e)) := by
        rintro (⟨hkn, -⟩ | ⟨-, hen⟩)
        · exact hk hkn
        · exact hn hen.symm
      have hmem : n ∈ (X.starts S k e).started ↔ n ∈ X.started := by
        simp [Mesh.starts, Ne.symm hk]
      rw [hstep, if_neg hopens, hX]
      simp only [hmem, Nat.add_zero]
  | read r m ms wire up free =>
    refine hkeep ?_ (reads_started ..)
    have hm : m ∈ X.wire r := wire ▸ List.mem_cons_self
    have hmisses : X.misses r = X.missed r m.command := by simp only [misses, wire]
    have hnaming : ∀ k, X.misses r = some (S.dial k) →
        k ≠ f ∧ r.context = .remote := by
      intro k hk
      rw [hmisses] at hk
      have hsaid := h.wire r m hm
      generalize hc : m.command = c at hsaid hk
      cases hsaid with
      | register => cases hk
      | naming made context l known =>
        rcases h.missed_naming (r := r) (k := l) with heq | ⟨heq, -⟩
        · rw [heq, Option.some.injEq, dial_inj] at hk
          exact ⟨hk ▸ hf.naming r m hm l hc, context⟩
        · rw [heq] at hk
          cases hk
    rintro (⟨-, hk⟩ | ⟨hr, hk⟩)
    · exact (hnaming f hk).1 rfl
    · have hc := hf.accepts r (h.up r up) hr
      rw [(hnaming n hk).2] at hc
      cases hc
  | test r s rest t task => exact hkeep (by simp [Opens]) (report_started ..)
  | _ => exact hkeep (by simp [Opens]) rfl

theorem config_of_step (hs : Star S f X) (hY : X.step S a = some Y) (n : N) (hn : n ≠ f) :
    (Y.objects n).config.registered = true ↔ Joined f n Y := by
  rw [config_step hY, hs.config n hn]
  constructor
  · rintro (hj | ⟨r, t, rfl, rfl, hc⟩)
    · exact hj.of_step hY
    · cases step_cases hY with
      | accept _ _ made down =>
        by_cases hp : r.peer = f
        · exact ⟨r, List.mem_append_right _ (List.mem_singleton_self r), rfl, hp, hc⟩
        · exact (hs.opener r made hc hp).of_step hY
  · rintro ⟨r, hr, hrn, hp, hc⟩
    rcases mem_up_step hY hr with hr | ⟨-, -, t, rfl⟩
    · exact .inl ⟨r, hr, hrn, hp, hc⟩
    · exact .inr ⟨r, t, rfl, hrn, hc⟩

theorem opener_of_step (hs : Star S f X) (h : Sound S X)
    (hY : X.step S a = some Y) (r : End N) (hr : r ∈ Y.ends)
    (hc : r.context = .remote) (hp : r.peer ≠ f) : Joined f r.node Y := by
  rcases mem_ends_step h hY hr with hr | hr
  · exact (hs.opener r hr hc hp).of_step hY
  · cases hr with
    | opener w task here context =>
      rcases w with k | q
      · exact absurd (hs.main k _ task) hp
      · have hj := hs.dial q _ task
        rw [here]
        exact hj.of_step hY
    | acceptor w task there context =>
      rw [context] at hc
      cases hc

theorem dial_of_step (hs : Star S f X) (h : Sound S X)
    (hY : X.step S a = some Y) (r : End N) (k : N)
    (ht : ⟨.strand r, S.dial k⟩ ∈ Y.tasks) : Joined f r.node Y := by
  rcases mem_tasks_step h hY ht with ht | ht
  · exact (hs.dial r k ht).of_step hY
  · generalize htask : (⟨.strand r, S.dial k⟩ : Task N) = t at ht
    cases ht with
    | dial r' m k' sent command =>
      simp only [Task.mk.injEq, Worker.strand.injEq] at htask
      obtain ⟨rfl, -⟩ := htask
      exact (hs.naming r m sent k' command).of_step hY
    | start => cases htask
    | _ => simp [Sites.dial] at htask

theorem syncing_of_step (hs : Star S f X) (h : Sound S X)
    (hY : X.step S a = some Y) (r : End N) (j : Job N)
    (ht : ⟨.strand r, j⟩ ∈ Y.tasks) (hj : j = .sync ∨ ∃ rest, j = .test rest) :
    r.node = f ∧ r.other ∈ Y.up := by
  have hold : r.node = f ∧ r.other ∈ X.up → r.node = f ∧ r.other ∈ Y.up :=
    fun hr => ⟨hr.1, up_step hY hr.2⟩
  rcases mem_tasks_step h hY ht with ht | ht
  · exact hold (hs.syncing r j ht hj)
  · generalize htask : (⟨.strand r, j⟩ : Task N) = t at ht
    cases ht with
    | start => cases htask
    | enter a' w r' =>
      cases htask
      rcases hj with hj | ⟨rest, hj⟩ <;> cases hj
    | sync r' m sp cp sent command =>
      cases htask
      obtain ⟨hb, hup⟩ := hs.register r m sent sp cp false command
      exact hold ⟨hb.mp rfl, hup⟩
    | dial r' m k sent command =>
      cases htask
      rcases hj with hj | ⟨rest, hj⟩ <;> cases hj
    | snapshot r' rest task =>
      cases htask
      exact hold (hs.syncing r _ task (.inl rfl))
    | test r' s rest t task =>
      cases htask
      exact hold (hs.syncing r _ task (.inr ⟨_, rfl⟩))

theorem naming_of_step (hs : Star S f X) (h : Sound S X)
    (hY : X.step S a = some Y) (r : End N) (m : Notice) (hm : m ∈ Y.wire r)
    (k : N) (hk : m.command = S.naming k) : Joined f r.node Y := by
  rcases mem_wire_step h hY hm with hm | hm
  · exact (hs.naming r m hm k hk).of_step hY
  · rw [hk] at hm
    generalize hc : S.naming k = c at hm
    cases hm with
    | register => cases hc
    | report p q rest t task made here ne registered =>
      obtain ⟨-, hpc⟩ := h.syncing_end task (.inr ⟨_, rfl⟩)
      obtain ⟨hn, hup⟩ := hs.syncing p _ task (.inr ⟨_, rfl⟩)
      exact Joined.of_step ⟨p.other, hup, rfl, hn, by simp [hpc, SessionContext.other]⟩ hY

theorem register_of_step (hs : Star S f X) (hf : Founded S f X) (h : Sound S X)
    (hY : X.step S a = some Y) (r : End N) (m : Notice) (hm : m ∈ Y.wire r)
    (sp cp : UInt64) (b : Bool) (hb : m.command = .register sp cp b) :
    (b = false ↔ r.node = f) ∧ r.other ∈ Y.up := by
  rcases mem_wire_step h hY hm with hm | hm
  · obtain ⟨hiff, hup⟩ := hs.register r m hm sp cp b hb
    exact ⟨hiff, up_step hY hup⟩
  · rw [hb] at hm
    generalize hc : Command.register sp cp b = c at hm
    cases hm with
    | report => cases hc
    | register p t made down context =>
      cases hc
      refine ⟨hs.registered_iff hf h made context down, ?_⟩
      cases step_cases hY with
      | accept => exact List.mem_append_right _ (by simp)

theorem registering_of_step (hs : Star S f X) (h : Sound S X)
    (hY : X.step S a = some Y) (r : End N) (hr : r ∈ Y.up)
    (hp : r.peer = f) (hc : r.context = .remote) :
    (∃ m ∈ Y.wire r.other, ∃ sp cp b, m.command = .register sp cp b) ∨
      Y.Registered r.other := by
  rcases mem_up_step hY hr with hr | ⟨-, -, t, rfl⟩
  · have hother : r.other ∈ Y.ends := ends_step hY (h.other r (h.up r hr))
    have hreg := registered_step h hY hother
    rcases hs.registering r hr hp hc with ⟨m, hm, sp, cp, b, hb⟩ | hold
    · rcases wire_step hY hm with hm | ⟨ha, hhead⟩
      · exact .inl ⟨m, hm, sp, cp, b, hb⟩
      · exact .inr (hreg.mpr (.inr ⟨ha, m, hhead, sp, cp, b, hb⟩))
    · exact .inr (hreg.mpr (.inl hold))
  · refine .inl ?_
    cases step_cases hY with
    | accept =>
      refine ⟨.register t (X.objects r.node).config, ?_, _, _, _, rfl⟩
      simp [Mesh.accepts, hc, Mesh.deliver]

/-- The founder syncs with whoever registers. -/
theorem sync_of_read (hs : Star S f X) (hf : Founded S f X) (h : Sound S X)
    {r : End N} (hY : X.step S (.read r) = some Y) (hn : r.node = f)
    {m : Notice} (hm : m ∈ (X.wire r).head?) {sp cp : UInt64} {b : Bool}
    (hb : m.command = .register sp cp b) : ⟨.strand r, .sync⟩ ∈ Y.tasks := by
  cases step_cases hY with
  | read _ u us wire up free =>
    rw [wire] at hm
    cases hm
    have hmem : m ∈ X.wire r := wire ▸ List.mem_cons_self
    obtain rfl := (hs.register r m hmem sp cp b hb).1.mpr hn
    have hr := h.up r up
    obtain ⟨x, -, heq⟩ := h.reads_register hr (hf.accepts r hr hn) sp cp false
    rw [hb, heq]
    exact List.mem_append_right _ (List.mem_singleton_self _)

theorem introduced_of_step (hs : Star S f X) (hf : Founded S f X) (h : Sound S X)
    (hY : X.step S a = some Y) (r : End N) (hr : r ∈ Y.ends) (q : End N)
    (hq : q ∈ Y.ends) (hne : r ≠ q) (hrf : r.node = f) (hqf : q.node = f)
    (hrr : Y.Registered r) (hqr : Y.Registered q) :
    Y.Introduced S r q ∨ Y.Introduced S q r := by
  have hmem : ∀ p ∈ Y.ends, X.Registered p → p ∈ X.ends := by
    rintro p hp ⟨s, hs, hid, -⟩
    obtain ⟨p', hp', hn, hid'⟩ := h.row p.node s hs
    obtain rfl := (h.of_step hY).unique p' (ends_step hY hp') p hp hn (hid'.trans hid)
    exact hp'
  rcases (registered_step h hY hr).mp hrr with hrX | ⟨rfl, m, hm, sp, cp, b, hb⟩
  · rcases (registered_step h hY hq).mp hqr with hqX | ⟨rfl, m, hm, sp, cp, b, hb⟩
    · have hrE := hmem r hr hrX
      have hqE := hmem q hq hqX
      rcases hs.introduced r hrE q hqE hne hrf hqf hrX hqX with hi | hi
      · exact .inl (hi.of_step h hY hrE hqE (hqf.trans hrf.symm) hne.symm hqX)
      · exact .inr (hi.of_step h hY hqE hrE (hrf.trans hqf.symm) hne hrX)
    · exact .inr (.inr (.inl (hs.sync_of_read hf h hY hqf hm hb)))
  · exact .inl (.inr (.inl (hs.sync_of_read hf h hY hrf hm hb)))

theorem of_step (hs : Star S f X) (hf : Founded S f X) (h : Sound S X)
    (ha : JoinsAt f X a) (hY : X.step S a = some Y) : Star S f Y where
  main n k ht := by
    rcases mem_tasks_step h hY ht with ht | ht
    · exact hs.main n k ht
    · generalize htask : (⟨.main n, S.dial k⟩ : Task N) = t at ht
      cases ht with
      | start n' e new =>
        simp only [Task.mk.injEq, dial_inj] at htask
        exact htask.2.trans ha
      | enter a' w r => simp [Sites.dial] at htask
      | _ => cases htask
  ties := hs.ties_of_step hf h ha hY
  config := hs.config_of_step hY
  opener := hs.opener_of_step h hY
  dial := hs.dial_of_step h hY
  naming := hs.naming_of_step h hY
  syncing := hs.syncing_of_step h hY
  register := hs.register_of_step hf h hY
  registering := hs.registering_of_step h hY
  introduced := hs.introduced_of_step hf h hY

end Star

/-! ## When everything has been handled -/

omit [DecidableEq N] in
/-- A session that is done is in the map. -/
theorem Settled.hasKey [DecidableEq N] (hd : X.Settled) (h : Sound S X) {r : End N}
    (hr : r ∈ X.ends) : (X.map r.node).sessions.hasKey r.id = true := by
  have hin : r ∈ X.inMap := by
    by_contra hn
    obtain ⟨w, hw⟩ := h.entering r hr hn
    rw [hd.tasks] at hw
    cases hw
  obtain ⟨s, hs, hrow⟩ := h.object r hr
  exact Table.hasKey_iff.mpr ⟨s, mem_map.mpr ⟨hs, r, hin, rfl, hrow.id.symm⟩, hrow.id⟩

/-- Two nodes are linked, from either side. -/
theorem Settled.linked (hd : X.Settled) (h : Sound S X) {n m : N} {r : End N} (hr : r ∈ X.ends)
    (hnode : r.node = n ∧ r.peer = m ∨ r.node = m ∧ r.peer = n) :
    ∃ r ∈ X.ends, r.node = n ∧ r.peer = m ∧ (X.map n).sessions.hasKey r.id = true ∧
      (X.map m).sessions.hasKey r.peerId = true := by
  have hkey := hd.hasKey h hr
  have hother := hd.hasKey h (h.other r hr)
  rcases hnode with ⟨rfl, rfl⟩ | ⟨rfl, rfl⟩
  · exact ⟨r, hr, rfl, rfl, hkey, hother⟩
  · exact ⟨r.other, h.other r hr, rfl, rfl, hother, hkey⟩

/-- Every node but the founder has opened a session with it. -/
theorem Star.founder_linked (hs : Star S f X) (hd : X.Settled) {n : N} (hn : n ∈ X.started)
    (hne : n ≠ f) : ∃ r ∈ X.ends, r.node = n ∧ r.peer = f := by
  have hone := hs.ties n hne
  have hconnected : X.Connected := by
    intro t ht
    rw [hd.tasks] at ht
    cases ht
  rw [if_pos hn, ties_of_connected hconnected] at hone
  have hpos : 0 < X.links n f := by omega
  obtain ⟨r, hr, hp⟩ := List.countP_pos_iff.mp hpos
  exact ⟨r, hr, by simpa using hp⟩

omit [DecidableEq N] in
/-- Who was introduced has connected. -/
theorem Settled.introduced (hd : X.Settled) (h : Sound S X) {r q : End N} (hr : r ∈ X.ends)
    (hi : X.Introduced S r q) : ∃ x ∈ X.ends, x.node = r.peer ∧ x.peer = q.peer := by
  rcases hi with (⟨m, hm, -⟩ | ht | hx) | ht | ⟨rest, ht, -⟩
  · rw [hd.wire r.other (h.other r hr)] at hm
    cases hm
  · rw [hd.tasks] at ht
    cases ht
  · exact hx
  · rw [hd.tasks] at ht
    cases ht
  · rw [hd.tasks] at ht
    cases ht

/-- Every node that connected to the founder is registered there. -/
theorem Star.registered (hs : Star S f X) (hf : Founded S f X) (h : Sound S X) (hd : X.Settled)
    {r : End N} (hr : r ∈ X.ends) (hrf : r.peer = f) : X.Registered r.other := by
  rcases hs.registering r (hd.up r hr) hrf (hf.opener h hr hrf) with ⟨u, hu, -⟩ | hreg
  · rw [hd.wire r.other (h.other r hr)] at hu
    cases hu
  · exact hreg

theorem Star.fullMesh (hs : Star S f X) (hf : Founded S f X) (h : Sound S X) (hd : X.Settled) :
    X.FullMesh := by
  intro n hn m hm hne
  by_cases hnf : n = f
  · subst hnf
    obtain ⟨r, hr, hrn, hrf⟩ := hs.founder_linked hd hm (Ne.symm hne)
    exact hd.linked h hr (.inr ⟨hrn, hrf⟩)
  by_cases hmf : m = f
  · subst hmf
    obtain ⟨r, hr, hrn, hrf⟩ := hs.founder_linked hd hn hne
    exact hd.linked h hr (.inl ⟨hrn, hrf⟩)
  obtain ⟨r, hr, rfl, hrf⟩ := hs.founder_linked hd hn hnf
  obtain ⟨q, hq, rfl, hqf⟩ := hs.founder_linked hd hm hmf
  have hreg : ∀ p ∈ X.ends, p.peer = f → X.Registered p.other := fun p hp hpf =>
    hs.registered hf h hd hp hpf
  have hro := h.other r hr
  have hqo := h.other q hq
  have hother : r.other ≠ q.other := by
    intro heq
    exact hne (congrArg End.peer heq)
  rcases hs.introduced r.other hro q.other hqo hother hrf hqf (hreg r hr hrf) (hreg q hq hqf)
    with hi | hi
  · obtain ⟨x, hx, hxn, hxm⟩ := hd.introduced h hro hi
    exact hd.linked h hx (.inl ⟨hxn, hxm⟩)
  · obtain ⟨x, hx, hxn, hxm⟩ := hd.introduced h hqo hi
    exact hd.linked h hx (.inr ⟨hxn, hxm⟩)

/-- **When everything has been handled, every two nodes have a session exactly when every node
joined at the founder.** -/
theorem full_mesh_iff {as : List (Action N)} (hY : Run.exec (step S) (S.founded f) as = some Y)
    (hd : Y.Settled) : Y.FullMesh ↔ Run.Along (step S) (JoinsAt f) (S.founded f) as := by
  have h0 : Sound S (S.founded f) := sound_founded S f
  constructor
  · exact joinsAt_of_fullMesh h0 (founded_founded S f) hY
  · intro hal
    have hend := Run.exec_invariant_along
      (I := fun X => Sound S X ∧ Founded S f X ∧ Star S f X)
      (fun hI ha hs => ⟨hI.1.of_step hs, hI.2.1.of_step hI.1 hs,
        hI.2.2.of_step hI.2.1 hI.1 ha hs⟩)
      ⟨h0, founded_founded S f, star_founded S f⟩ hal hY
    exact hend.2.2.fullMesh hend.2.1 hend.1 hd

/-! ## Three nodes -/

/-- In turn, and each at the founder. -/
theorem full_mesh_inTurn : ∃ Y,
    Run.exec (step office) (office.founded 0) inTurn = some Y ∧ Y.started = [0, 1, 2] ∧
      Y.FullMesh := by
  have heval : ((Run.exec (step office) (office.founded 0) inTurn).any fun Y =>
      decide (Y.started = [0, 1, 2] ∧ Y.tasks = [] ∧ (∀ r ∈ Y.ends, r ∈ Y.up) ∧
        ∀ r ∈ Y.ends, (Y.wire r).isEmpty = true)) = true := by decide +kernel
  have hjoins : Run.Along (step office) (JoinsAt 0) (office.founded 0) inTurn := by
    decide +kernel
  simp only [Option.any_eq_true, decide_eq_true_eq, List.isEmpty_iff] at heval
  obtain ⟨Y, hY, hstarted, htasks, hup, hwire⟩ := heval
  exact ⟨Y, hY, hstarted, (full_mesh_iff hY ⟨htasks, hup, hwire⟩).mpr hjoins⟩

/-- In a chain the third node is told of nobody. -/
theorem not_full_mesh_inChain : ∃ Y,
    Run.exec (step office) (office.founded 0) inChain = some Y ∧ Y.Settled ∧
      0 ∈ Y.started ∧ 2 ∈ Y.started ∧ Y.links 2 0 = 0 ∧ ¬ Y.FullMesh := by
  have heval : ((Run.exec (step office) (office.founded 0) inChain).any fun Y =>
      decide (Y.tasks = [] ∧ (∀ r ∈ Y.ends, r ∈ Y.up) ∧
        (∀ r ∈ Y.ends, (Y.wire r).isEmpty = true) ∧ 0 ∈ Y.started ∧ 2 ∈ Y.started ∧
        Y.links 2 0 = 0)) = true := by decide +kernel
  simp only [Option.any_eq_true, decide_eq_true_eq, List.isEmpty_iff] at heval
  obtain ⟨Y, hY, htasks, hup, hwire, hzero, htwo, hlinks⟩ := heval
  refine ⟨Y, hY, ⟨htasks, hup, hwire⟩, hzero, htwo, hlinks, fun hmesh => ?_⟩
  obtain ⟨r, hr, hn, hm, -⟩ := hmesh 2 htwo 0 hzero (by decide)
  exact List.countP_eq_zero.mp hlinks r hr (by simp [hn, hm])

end Mesh

end Aewt
