import AewtState.Trades
import AewtState.Lib.Rank
import Mathlib.Data.Fintype.EquivFin
import Mathlib.Data.Prod.Lex

/-!
# A cluster that nobody joins any more settles

* `rank` — the syncs to come, and then the work to do.
* `Begun` — a node that does not listen yet has a main thread that will.

Principal results: `cluster_settles` — no run without a start goes on forever, and when no step is
left everything has been handled; `full_mesh_reached` — when every node joined at the founder,
every run ends in a full mesh.
-/

set_option autoImplicit false

namespace Aewt

namespace Mesh

variable {N : Type} {S : Sites N} [DecidableEq N] {X Y : Mesh N} {a : Action N}

/-! ## Every run ends -/

/-- The syncs to come, and then the work to do. -/
def rank (X : Mesh N) : Lex (ℕ × ℕ) := toLex (syncs.total X, work.total X)

/-- **Every step that is not a start leaves less to do.** -/
theorem rank_lt (h : Sound S X) (hf : Flagged S X) (hY : X.step S a = some Y) (ha : Unaided a) :
    rank Y < rank X := by
  obtain ⟨k, hk⟩ := trade_step h hf hY ha
  obtain ⟨hle, hlt⟩ := k.lower
  have hsyncs := hk syncs
  have hwork := hk work
  rw [rank, rank, Prod.Lex.toLex_lt_toLex]
  omega

theorem ends_of_sound (h : Sound S X) (hf : Flagged S X) : Run.Ends (step S) Unaided X := by
  refine Run.ends_of_rank (I := fun X => Sound S X ∧ Flagged S X) wellFounded_lt rank ?_ ⟨h, hf⟩
  intro X a Y hI ha hY
  exact ⟨⟨hI.1.of_step hY, hI.2.of_step hI.1 hY⟩, rank_lt hI.1 hI.2 hY ha⟩

/-! ## A step is left until everything has been handled -/

/-- What waits can go on. -/
structure Begun (S : Sites N) (X : Mesh N) : Prop where
  target : ∀ n e, ⟨.main n, S.dial e⟩ ∈ X.tasks → e ∈ X.listening
  listening : ∀ n ∈ X.started, n ∈ X.listening ∨ ∃ j, ⟨.main n, j⟩ ∈ X.tasks
  testing : ∀ w rest, ⟨w, .test rest⟩ ∈ X.tasks → rest ≠ []

omit [DecidableEq N] in
theorem begun_founded (S : Sites N) (f : N) : Begun S (S.founded f) where
  target _ _ ht := by cases ht
  listening _ hn := .inl hn
  testing _ _ ht := by cases ht

theorem listening_step (hY : X.step S a = some Y) : X.listening ⊆ Y.listening := by
  cases step_cases hY with
  | enter w r =>
    rcases w with n | q
    · exact List.subset_append_left _ _
    · exact List.Subset.refl _
  | read r m =>
    have heq : (X.reads r m.command).listening = X.listening := by
      unfold reads
      split
      · split <;> rfl
      · rfl
    rw [heq]
    exact List.Subset.refl _
  | test r s rest t =>
    have heq : (X.report r s t).listening = X.listening := by
      unfold report
      split
      · split <;> rfl
      · rfl
    change X.listening ⊆ (X.report r s t).listening
    rw [heq]
    exact List.Subset.refl _
  | _ => exact List.Subset.refl _

omit [DecidableEq N] in
theorem ne_nil_of_testing {w : Worker N} {r : End N} {rest rest' : List Uuid}
    (ht : ⟨w, .test rest⟩ ∈ testing r rest') : rest ≠ [] := by
  unfold testing at ht
  split at ht
  · cases ht
  · rename_i hne
    rw [List.mem_singleton] at ht
    cases ht
    exact hne

theorem Begun.of_step (hb : Begun S X) (h : Sound S X) (hY : X.step S a = some Y) :
    Begun S Y where
  target n e ht := by
    rcases mem_tasks_step h hY ht with ht | ht
    · exact listening_step hY (hb.target n e ht)
    · generalize htask : (⟨.main n, S.dial e⟩ : Task N) = t at ht
      cases ht with
      | start n' e' new =>
        simp only [Task.mk.injEq, dial_inj] at htask
        obtain ⟨-, rfl⟩ := htask
        cases step_cases hY with
        | start _ _ _ member => exact member
      | enter a' w r => simp [Sites.dial] at htask
      | _ => cases htask
  listening n hn := by
    by_cases hX : n ∈ X.started
    · rcases hb.listening n hX with hl | ⟨j, hj⟩
      · exact .inl (listening_step hY hl)
      · by_cases ha : a.task = some ⟨.main n, j⟩
        · -- the main thread goes on to its `add_session`, and then it listens
          cases step_cases hY with
          | connect w m x y cp task =>
            cases ha
            exact .inr ⟨_, List.mem_append_right _ (List.mem_singleton_self _)⟩
          | enter w r task =>
            cases ha
            exact .inl (List.mem_append_right _ (List.mem_singleton_self n))
          | _ => cases ha
        · exact .inr ⟨j, task_step h hY hj ha⟩
    · cases step_cases hY with
      | start k e =>
        rcases List.mem_append.mp hn with hn | hn
        · exact absurd hn hX
        · rw [List.mem_singleton] at hn
          subst hn
          exact .inr ⟨_, List.mem_append_right _ (List.mem_singleton_self _)⟩
      | read r m =>
        rw [reads_started] at hn
        exact absurd hn hX
      | test r s rest t =>
        change n ∈ (X.report r s t).started at hn
        rw [report_started] at hn
        exact absurd hn hX
      | _ => exact absurd hn hX
  testing w rest ht := by
    rcases mem_tasks_step h hY ht with hold | hnew
    · exact hb.testing w rest hold
    · generalize htask : (⟨w, .test rest⟩ : Task N) = t at hnew
      cases hnew with
      | snapshot r rest' task =>
        cases htask
        cases step_cases hY with
        | snapshot =>
          rcases List.mem_append.mp ht with ht | ht
          · exact hb.testing _ _ (List.mem_of_mem_erase ht)
          · exact ne_nil_of_testing ht
      | test r s rest' t task =>
        cases htask
        cases step_cases hY with
        | test =>
          rcases List.mem_append.mp ht with ht | ht
          · rw [report_tasks] at ht
            exact hb.testing _ _ (List.mem_of_mem_erase ht)
          · exact ne_nil_of_testing ht
      | start | enter | sync | dial => simp [Sites.dial] at htask

omit [DecidableEq N] in
/-- There are more ids than any shorter list holds. -/
theorem exists_uuid_not_mem (xs : List Uuid) (hxs : xs.length < 256 ^ 16) : ∃ x, x ∉ xs := by
  by_contra hall
  push Not at hall
  let f : (Fin 16 → Fin 256) → { x // x ∈ xs.toFinset } := fun g =>
    ⟨⟨List.ofFn fun i => UInt8.ofFin (g i), by simp⟩, List.mem_toFinset.mpr (hall _)⟩
  have hf : Function.Injective f := by
    intro g g' heq
    simp only [f, Subtype.mk.injEq, Uuid.mk.injEq, List.ofFn_inj] at heq
    funext i
    exact congrArg UInt8.toFin (congrFun heq i)
  have hcard := Fintype.card_le_of_injective f hf
  rw [Fintype.card_fun, Fintype.card_fin, Fintype.card_fin, Fintype.card_coe] at hcard
  exact absurd (hcard.trans (List.toFinset_card_le xs)) (Nat.not_le.mpr hxs)

/-- There are ids left at every two nodes. -/
def HasIds (S : Sites N) (X : Mesh N) : Prop :=
  ∀ n m, ∃ x y, X.Unused S n x ∧ X.Unused S m y ∧ x ≠ y

omit [DecidableEq N] in
theorem hasIds_of_length (hX : X.ends.length + 2 < 256 ^ 16) : X.HasIds S := by
  intro n m
  obtain ⟨x, hx⟩ := exists_uuid_not_mem (S.id n :: X.ends.map End.id) (by simp; omega)
  obtain ⟨y, hy⟩ := exists_uuid_not_mem (x :: S.id m :: X.ends.map End.id) (by simp; omega)
  simp only [List.mem_cons, List.mem_map, not_or, not_exists, not_and] at hx hy
  exact ⟨x, y, ⟨hx.1, fun r hr _ => hx.2 r hr⟩, ⟨hy.2.1, fun r hr _ => hy.2.2 r hr⟩,
    Ne.symm hy.1⟩

/-- **A stuck cluster has handled everything.** -/
theorem settled_of_stuck (h : Sound S X) (hb : Begun S X) (hids : X.HasIds S)
    (hstuck : Run.Stuck (step S) Unaided X) : X.Settled := by
  have hconnect : ∀ w k, k ∈ X.listening → (⟨w, S.dial k⟩ : Task N) ∉ X.tasks := by
    intro w k hk ht
    obtain ⟨x, y, hx, hy, hne⟩ := hids w.node k
    have hnone := hstuck (.connect w (S.host k) (S.config k).sessionsPort.toUInt64
      (S.config k).clientsPort.toUInt64 k x y) trivial
    cases hnone.symm.trans (if_pos ⟨⟨ht, hk⟩, ⟨rfl, rfl⟩, hx, hy, fun heq => hne heq.2⟩)
  have henter : ∀ w r, (⟨w, .enter r⟩ : Task N) ∉ X.tasks := by
    intro w r ht
    have hnone := hstuck (.enter w r) trivial
    cases hnone.symm.trans (if_pos ht)
  have hlistening : ∀ n ∈ X.started, n ∈ X.listening := by
    intro n hn
    rcases hb.listening n hn with hl | ⟨j, hj⟩
    · exact hl
    · exfalso
      generalize htask : (⟨.main n, j⟩ : Task N) = t at hj
      cases h.task t hj with
      | start n' k here known =>
        cases htask
        exact hconnect _ k (hb.target _ k hj) hj
      | enter w r => exact henter w r hj
      | _ => cases htask
  have htasks : X.tasks = [] := by
    rw [List.eq_nil_iff_forall_not_mem]
    intro t ht
    cases h.task t ht with
    | start n k here known => exact hconnect _ k (hlistening k known) ht
    | dial r k made context known => exact hconnect _ k (hlistening k known) ht
    | enter w r => exact henter w r ht
    | sync r =>
      have hnone := hstuck (.snapshot r) trivial
      cases hnone.symm.trans (if_pos ht)
    | test r rest =>
      obtain ⟨s, rest', rfl⟩ := List.exists_cons_of_ne_nil (hb.testing _ rest ht)
      have hnone := hstuck (.test r s rest' s) trivial
      cases hnone.symm.trans (if_pos ht)
  have hup : ∀ r ∈ X.ends, r ∈ X.up := by
    intro r hr
    by_contra hdown
    have hnone := hstuck (.accept r r.id) trivial
    cases hnone.symm.trans (if_pos ⟨hr, hdown⟩)
  refine ⟨htasks, hup, fun r hr => ?_⟩
  have hfree : X.Free r := by
    intro t ht
    rw [htasks] at ht
    cases ht
  have hnone := hstuck (.read r) trivial
  simp only [step] at hnone
  split at hnone
  · rw [if_pos ⟨hup r hr, hfree⟩] at hnone
    cases hnone
  · assumption

/-- When everything has been handled, no step is left. -/
theorem Settled.stuck (hd : X.Settled) (h : Sound S X) : Run.Stuck (step S) Unaided X := by
  intro a ha
  rw [Option.eq_none_iff_forall_ne_some]
  intro Y hY
  have htask : ∀ t, t ∉ X.tasks := by
    intro t ht
    rw [hd.tasks] at ht
    cases ht
  cases step_cases hY with
  | start => exact ha
  | connect _ _ _ _ _ task => exact htask _ task
  | enter _ _ task => exact htask _ task
  | accept r _ made down => exact down (hd.up r made)
  | read r m ms wire up =>
    rw [hd.wire r (h.up r up)] at wire
    cases wire
  | snapshot _ task => exact htask _ task
  | test _ _ _ _ task => exact htask _ task

/-! ## Runs -/

/-- What holds from the founding on. -/
structure Live (S : Sites N) (X : Mesh N) : Prop where
  sound : Sound S X
  flagged : Flagged S X
  begun : Begun S X

omit [DecidableEq N] in
theorem live_founded (S : Sites N) (f : N) : Live S (S.founded f) :=
  ⟨sound_founded S f, flagged_founded S f, begun_founded S f⟩

theorem Live.of_step (h : Live S X) (hY : X.step S a = some Y) : Live S Y :=
  ⟨h.sound.of_step hY, h.flagged.of_step h.sound hY, h.begun.of_step h.sound hY⟩

theorem Live.of_run {as : List (Action N)} (h : Live S X)
    (hY : Run.exec (step S) X as = some Y) : Live S Y :=
  Run.exec_invariant (I := Live S) (fun hI hs => hI.of_step hs) h hY

theorem Live.settled (h : Live S X) (hlen : X.ends.length + 2 < 256 ^ 16)
    (hstuck : Run.Stuck (step S) Unaided X) : X.Settled :=
  settled_of_stuck h.sound h.begun (hasIds_of_length hlen) hstuck

omit [DecidableEq N] in
theorem joinsAt_of_unaided {f : N} (ha : Unaided a) : JoinsAt f X a := by
  cases a with
  | start => exact ha.elim
  | _ => trivial

theorem started_unaided (hY : X.step S a = some Y) (ha : Unaided a) : Y.started = X.started := by
  cases step_cases hY with
  | start => exact ha.elim
  | read r m => exact reads_started ..
  | test r s rest t => exact report_started ..
  | _ => rfl

/-- **Left to itself, a cluster settles.**  Whatever it has reached, no run without further
starts goes on forever; and where such a run is stuck, everything has been handled. -/
theorem cluster_settles {f : N} {as : List (Action N)}
    (hX : Run.exec (step S) (S.founded f) as = some X) :
    Run.Ends (step S) Unaided X ∧ ∀ bs Y, Run.exec (step S) X bs = some Y →
      Y.ends.length + 2 < 256 ^ 16 → (Run.Stuck (step S) Unaided Y ↔ Y.Settled) := by
  have h := (live_founded S f).of_run hX
  refine ⟨ends_of_sound h.sound h.flagged, fun bs Y hY hlen => ?_⟩
  have hend := h.of_run hY
  exact ⟨hend.settled hlen, fun hd => hd.stuck hend.sound⟩

/-- Two nodes that joined at the same time, and what is left to do then. -/
theorem atOnce_settled : ∃ X Y,
    Run.exec (step office) (office.founded 0) (atOnce.take 10) = some X ∧
      Run.exec (step office) X (atOnce.drop 10) = some Y ∧
      (∀ b ∈ atOnce.drop 10, Unaided b) ∧ Y.ends.length = 8 ∧ Y.Settled := by
  have heval : ((Run.exec (step office) (office.founded 0) (atOnce.take 10)).any fun X =>
      (Run.exec (step office) X (atOnce.drop 10)).any fun Y =>
        decide (Y.ends.length = 8 ∧ Y.tasks = [] ∧ (∀ r ∈ Y.ends, r ∈ Y.up) ∧
          ∀ r ∈ Y.ends, (Y.wire r).isEmpty = true)) = true := by decide +kernel
  simp only [Option.any_eq_true, decide_eq_true_eq, List.isEmpty_iff] at heval
  obtain ⟨X, hX, Y, hY, hlen, htasks, hup, hwire⟩ := heval
  have hbs : ∀ b ∈ atOnce.drop 10, Unaided b := by decide +kernel
  exact ⟨X, Y, hX, hY, hbs, hlen, htasks, hup, hwire⟩

theorem cluster_settles_atOnce : ∃ X Y,
    Run.exec (step office) (office.founded 0) (atOnce.take 10) = some X ∧
      Run.exec (step office) X (atOnce.drop 10) = some Y ∧
      Run.Ends (step office) Unaided X ∧ Run.Stuck (step office) Unaided Y := by
  obtain ⟨X, Y, hX, hY, -, hlen, hd⟩ := atOnce_settled
  obtain ⟨hends, hiff⟩ := cluster_settles hX
  exact ⟨X, Y, hX, hY, hends, (hiff _ Y hY (by rw [hlen]; decide)).mpr hd⟩

/-- **A cluster whose nodes all joined at the founder becomes a full mesh**, whatever it has
reached and in whatever order it goes on: every two nodes have an open session in both maps, and
the founder has marked every node that connected to it as registered. -/
theorem full_mesh_reached {f : N} {as : List (Action N)}
    (hX : Run.exec (step S) (S.founded f) as = some X)
    (hal : Run.Along (step S) (JoinsAt f) (S.founded f) as) :
    (∃ bs Y, (∀ b ∈ bs, Unaided b) ∧ Run.exec (step S) X bs = some Y ∧
      Run.Stuck (step S) Unaided Y) ∧
    ∀ bs Y, (∀ b ∈ bs, Unaided b) → Run.exec (step S) X bs = some Y →
      Run.Stuck (step S) Unaided Y → Y.ends.length + 2 < 256 ^ 16 →
        Y.started = X.started ∧ Y.FullMesh ∧
          ∀ r ∈ Y.ends, r ∈ Y.up ∧ (r.peer = f → Y.Registered r.other) := by
  have hX' := Run.exec_invariant_along (I := fun X => Live S X ∧ Founded S f X ∧ Star S f X)
    (fun hI ha hs => ⟨hI.1.of_step hs, hI.2.1.of_step hI.1.sound hs,
      hI.2.2.of_step hI.2.1 hI.1.sound ha hs⟩)
    ⟨live_founded S f, founded_founded S f, star_founded S f⟩ hal hX
  refine ⟨(ends_of_sound hX'.1.sound hX'.1.flagged).exists_stuck,
    fun bs Y hbs hY hstuck hlen => ?_⟩
  have hend := Run.exec_invariant_along
    (I := fun Z => (Live S Z ∧ Founded S f Z ∧ Star S f Z) ∧ Z.started = X.started)
    (C := fun _ b => Unaided b)
    (fun hI ha hs => ⟨⟨hI.1.1.of_step hs, hI.1.2.1.of_step hI.1.1.sound hs,
      hI.1.2.2.of_step hI.1.2.1 hI.1.1.sound (joinsAt_of_unaided ha) hs⟩,
      (started_unaided hs ha).trans hI.2⟩)
    ⟨hX', rfl⟩ (Run.along_of_forall X hbs) hY
  obtain ⟨⟨hl, hf, hs⟩, hstarted⟩ := hend
  have hd := hl.settled hlen hstuck
  exact ⟨hstarted, hs.fullMesh hf hl.sound hd,
    fun r hr => ⟨hd.up r hr, hs.registered hf hl.sound hd hr⟩⟩

theorem full_mesh_reached_atOnce : ∃ X Y,
    Run.exec (step office) (office.founded 0) (atOnce.take 10) = some X ∧
      Run.exec (step office) X (atOnce.drop 10) = some Y ∧ ¬ X.FullMesh ∧ Y.FullMesh := by
  obtain ⟨X, Y, hX, hY, hbs, hlen, hd⟩ := atOnce_settled
  have hjoins : Run.Along (step office) (JoinsAt 0) (office.founded 0) (atOnce.take 10) := by
    decide +kernel
  have hsound : Sound office Y := sound_of_run (Run.exec_append.mpr ⟨X, hX, hY⟩)
  have hmesh := (full_mesh_reached hX hjoins).2 _ Y hbs hY (hd.stuck hsound)
    (by rw [hlen]; decide)
  refine ⟨X, Y, hX, hY, ?_, hmesh.2.1⟩
  have hlinks : ((Run.exec (step office) (office.founded 0) (atOnce.take 10)).any fun X =>
      decide (1 ∈ X.started ∧ 2 ∈ X.started ∧ X.links 1 2 = 0)) = true := by decide +kernel
  simp only [hX, Option.any_some, decide_eq_true_eq] at hlinks
  obtain ⟨hone, htwo, hnone⟩ := hlinks
  intro hfull
  obtain ⟨r, hr, hn, hp, -⟩ := hfull 1 hone 2 htwo (by decide)
  exact List.countP_eq_zero.mp hnone r hr (by simp [hn, hp])

end Mesh

end Aewt
