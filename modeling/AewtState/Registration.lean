import AewtState.Convergence

/-!
# The registration of the opener

The opener registers when its session opens, and the acceptor answers the registration with
`sync`.

* `Pair.Progress` — the stores that the acceptor's `register_handler` has left behind are synced.
* `Pair.Registered` — once the opener's session is open, its registration is on its way or was
  handled.

Principal result: `Pair.Registered.step` — every step keeps this.
-/

set_option autoImplicit false

namespace Aewt

namespace Pair

variable {X Y : Pair} {a b : Side}

/-! ## The registration -/

/-- The text registers the session on which it is read. -/
def Registers (text : Text) : Prop :=
  ∀ s, ∃ t sp cp r, decode text .onSession s = .ok (.accepted t (.register sp cp r))

/-- The stores that the acceptor's handler has left behind are synced. -/
def Progress (X : Pair) : Prop :=
  match X.stage .acceptor with
  | .sessions _ _ => True
  | .clients _ => True
  | .subscriptions _ => X.synced .acceptor .clients = true
  | .answer _ => ∀ store, X.synced .acceptor store = true
  | .idle => ∀ store, X.synced .acceptor store = true

/-- The opener's registration is on its way or was handled. -/
structure Registered (X : Pair) : Prop where
  entered : X.opened .acceptor = true → X.knows .acceptor = true
  busy : X.stage .acceptor ≠ .idle → X.Progress
  sent : X.reading .opener = true → (∃ text ∈ X.wire .acceptor, Registers text) ∨ X.Progress

theorem Progress.congr (h : X.Progress) (hs : Y.stage .acceptor = X.stage .acceptor)
    (hy : Y.synced .acceptor = X.synced .acceptor) : Y.Progress := by
  unfold Progress at h ⊢
  rwa [hs, hy]

/-- A step that neither reads at the acceptor nor accepts the opener's session. -/
theorem Registered.same (h : X.Registered)
    (hk : X.knows .acceptor = true → Y.knows .acceptor = true)
    (ho : Y.opened .acceptor = true → X.opened .acceptor = true ∨ X.knows .acceptor = true)
    (hw : ∀ text ∈ X.wire .acceptor, text ∈ Y.wire .acceptor)
    (hr : Y.reading .opener = X.reading .opener) (hs : Y.stage .acceptor = X.stage .acceptor)
    (hy : Y.synced .acceptor = X.synced .acceptor) : Y.Registered where
  entered hb := hk ((ho hb).elim h.entered id)
  busy hb := (h.busy (by rwa [hs] at hb)).congr hs hy
  sent hb := by
    rcases h.sent (by rwa [hr] at hb) with ⟨text, ht, hreg⟩ | hp
    · exact Or.inl ⟨text, hw text ht, hreg⟩
    · exact Or.inr (hp.congr hs hy)

theorem mem_wire_post {ts : List Text} {text : Text} (h : text ∈ X.wire b) :
    text ∈ (X.post a ts).wire b := by
  rcases side_cases a b with rfl | rfl
  · rwa [post_wire_self]
  · rw [post_wire_other]
    exact List.mem_append_left _ h

theorem mem_wire_after {rest : List Text} {w : World} {text : Text}
    (h : text ∈ (X.setWire a rest).wire b) : text ∈ (X.after a rest w).wire b :=
  mem_wire_post (X := (X.setWire a rest).setNode a w.state) h

/-- A piece of a handler that reads nothing at the acceptor. -/
theorem Registered.after (h : X.Registered) {w : World} {rest read : List Text}
    {F : Key → Prop} (hp : Piece X.away (X.node a) w (X.sid a) read F)
    (hw : ∀ text ∈ X.wire .acceptor, text ∈ (X.setWire a rest).wire .acceptor) :
    (X.after a rest w).Registered :=
  h.same (knows_after hp) (by rw [after_opened]; exact Or.inl)
    (fun text ht => mem_wire_after (hw text ht)) (by rw [after_reading]) (by rw [after_stage])
    (by rw [after_synced])

theorem registers_onAccept {s : Uuid} {host : String} {env : Env} {st : State} {w : World}
    (h : Session.onAccept s .remote host (.start env st) = (.ok (), w)) :
    ∃ text ∈ textsTo s w.effects, Registers text := by
  cases h
  exact ⟨_, mem_textsTo.mpr (List.mem_singleton.mpr rfl), fun s =>
    ⟨_, _, _, _, decode_register (built_requestObject _ _ _)⟩⟩

theorem Registered.accept (h : X.Registered) {host : String} {env : Env}
    (hs : X.step (.accept a host env) = some Y) : Y.Registered := by
  obtain ⟨ho, w, hw, rfl⟩ := step_accept hs
  have hp := piece_onAccept (E := X.away) hw
  have hafter : (X.after a (X.wire a) w).Registered := h.after hp (by simp)
  cases a with
  | acceptor => exact hafter.same id Or.inl (fun _ => id) (by simp) rfl rfl
  | opener =>
    refine ⟨hafter.entered, hafter.busy, fun _ => Or.inl ?_⟩
    obtain ⟨text, ht, hreg⟩ := registers_onAccept hw
    refine ⟨text, ?_, hreg⟩
    change text ∈ (X.after .opener (X.wire .opener) w).wire Side.opener.other
    rw [after_wire_other, if_pos ho]
    exact List.mem_append_right _ ht

theorem Registered.deliver (h : X.Registered) (hG : X.Good) {env : Env}
    (hs : X.step (.deliver a env) = some Y) : Y.Registered := by
  obtain ⟨hr, -, text, rest, hwire, ⟨t, sp, cp, r, hd, hk, rfl⟩ | ⟨w, hw, hreg, rfl⟩⟩ :=
    step_deliver hs
  · have hp := piece_mark (E := X.away) (X.node a) sp.toUInt16 cp.toUInt16 hd env
    cases a with
    | opener => exact (h.after hp (fun _ => id)).same id Or.inl (fun _ => id) rfl rfl rfl
    | acceptor => exact ⟨fun _ => knows_after hp hk, fun _ => trivial, fun _ => Or.inr trivial⟩
  · have hp := piece_onRead (E := X.away) (hG.owned.rows_of_text (by simp [hwire]))
      (fun t sp cp r hd =>
        Table.find?_eq_none.mpr (Table.hasKey_eq_false.mp (hreg t sp cp r hd))) hw
    cases a with
    | opener => exact h.after hp (fun _ => id)
    | acceptor =>
      -- the session is known, so the text is no registration
      have hk := h.entered (hG.busy.reading _ hr)
      have hnot : ¬ Registers text := by
        intro hreg'
        obtain ⟨t, sp, cp, r, hd⟩ := hreg' (X.sid .acceptor)
        exact absurd hk (by simp [hreg t sp cp r hd])
      refine ⟨fun _ => knows_after hp hk, fun hb => ?_, fun hb => ?_⟩
      · rw [after_stage] at hb
        exact (h.busy hb).congr (by rw [after_stage]) (by rw [after_synced])
      · rw [after_reading] at hb
        rcases h.sent hb with ⟨text', ht', hreg'⟩ | hprog
        · rw [hwire] at ht'
          rcases List.mem_cons.mp ht' with rfl | ht'
          · exact absurd hreg' hnot
          · exact Or.inl ⟨text', by rwa [after_wire_self], hreg'⟩
        · exact Or.inr (hprog.congr (by rw [after_stage]) (by rw [after_synced]))

@[simp] theorem setStage_stage_self (stage : Stage) : (X.setStage a stage).stage a = stage :=
  Function.update_self _ _ _
@[simp] theorem setStage_synced (stage : Stage) : (X.setStage a stage).synced = X.synced := rfl
@[simp] theorem markSynced_stage (store : Store) : (X.markSynced a store).stage = X.stage := rfl
theorem markSynced_synced_self (store : Store) : (X.markSynced a store).synced a =
    Function.update (X.synced a) store true := Function.update_self _ _ _

/-- The silent pieces lie before the loops over rows and after them. -/
theorem Progress.silent (h : X.stage .acceptor ≠ .idle → X.Progress) {stage : Stage}
    (next : (∃ request r, X.stage .acceptor = .sessions request r ∧ stage = .clients request) ∨
      ∃ request, X.stage .acceptor = .answer request ∧ stage = .idle)
    (hs : Y.stage .acceptor = stage) (hy : Y.synced .acceptor = X.synced .acceptor) :
    Y.Progress := by
  unfold Progress
  rw [hs, hy]
  obtain ⟨request, r, -, rfl⟩ | ⟨request, hx, rfl⟩ := next
  · trivial
  · have hp := h (by simp [hx])
    unfold Progress at hp
    rwa [hx] at hp

/-- A loop over rows syncs its store. -/
theorem Progress.sync (h : X.stage .acceptor ≠ .idle → X.Progress) {stage : Stage}
    {store : Store}
    (next : (∃ request, X.stage .acceptor = .clients request ∧ store = .clients ∧
        stage = .subscriptions request) ∨
      ∃ request, X.stage .acceptor = .subscriptions request ∧ store = .subscriptions ∧
        stage = .answer request)
    (hs : Y.stage .acceptor = stage)
    (hy : Y.synced .acceptor = Function.update (X.synced .acceptor) store true) :
    Y.Progress := by
  unfold Progress
  rw [hs, hy]
  obtain ⟨request, -, rfl, rfl⟩ | ⟨request, hx, rfl, rfl⟩ := next
  · exact Function.update_self _ _ _
  · have hp := h (by simp [hx])
    unfold Progress at hp
    rw [hx] at hp
    rintro (_ | _)
    · exact (Function.update_of_ne (by simp) _ _).trans hp
    · exact Function.update_self _ _ _

theorem Registered.advance (h : X.Registered) {env : Env}
    (hs : X.step (.advance a env) = some Y) : Y.Registered := by
  cases step_advance hs with
  | silent w stage piece next eq =>
    subst eq
    have hafter : (X.after a (X.wire a) w).Registered := h.after piece (by simp)
    cases a with
    | opener => exact hafter.same id Or.inl (fun _ => id) rfl rfl rfl
    | acceptor =>
      have hprog := Progress.silent h.busy next
        (Y := (X.after .acceptor (X.wire .acceptor) w).setStage .acceptor stage) (by simp)
        (by simp)
      exact ⟨hafter.entered, fun _ => hprog, fun _ => Or.inr hprog⟩
  | sync w store stage piece next eq =>
    subst eq
    have hafter : (X.after a (X.wire a) w).Registered := h.after piece (by simp)
    cases a with
    | opener => exact hafter.same id Or.inl (fun _ => id) rfl rfl rfl
    | acceptor =>
      have hprog := Progress.sync h.busy next
        (Y := ((X.after .acceptor (X.wire .acceptor) w).setStage .acceptor stage).markSynced
          .acceptor store) (by simp) (by simp [markSynced_synced_self])
      exact ⟨hafter.entered, fun _ => hprog, fun _ => Or.inr hprog⟩

theorem Registered.step (h : X.Registered) (hG : X.Good) {action : Action}
    (hs : X.step action = some Y) : Y.Registered := by
  have hstart : ∀ {Z : Pair} {a : Side} {c t : Uuid} {u : Change}, Z.Registered →
      (Z.start a c u t).Registered := fun hZ =>
    hZ.same (fun hk => (knows_start _).trans hk) Or.inl (fun _ => id) rfl rfl rfl
  cases action with
  | connect a c t =>
    obtain ⟨-, rfl⟩ := step_connect hs
    exact hstart (h.same id Or.inl (fun _ => id) rfl rfl rfl)
  | request c data =>
    obtain ⟨a, u, t, -, rfl⟩ := step_request hs
    exact hstart h
  | leave c t =>
    obtain ⟨a, -, rfl⟩ := step_leave hs
    exact hstart h
  | look c =>
    obtain ⟨a, u, t, -, -, rfl⟩ := step_look hs
    exact h.same id Or.inl (fun _ => id) rfl rfl rfl
  | send c =>
    obtain ⟨a, u, t, told, -, -, rfl⟩ := step_send hs
    have hfan : (X.setFan c none).Registered := h.same id Or.inl (fun _ => id) rfl rfl rfl
    exact hfan.same (by simp) (by rw [post_opened]; exact Or.inl) (fun _ => mem_wire_post)
      (by simp) (by simp) (by simp)
  | enter a =>
    obtain ⟨w, hp, hw⟩ := piece_enter X a
    rw [step_enter hs, hw]
    exact h.after hp (by simp)
  | shake a =>
    obtain ⟨ho, rfl⟩ := step_shake hs
    refine h.same id (fun hb => ?_) (fun _ => id) rfl rfl rfl
    cases a with
    | opener => exact Or.inl hb
    | acceptor => exact Or.inr ho
  | accept a host env => exact h.accept hs
  | deliver a env => exact h.deliver hG hs
  | advance a env => exact h.advance hs
  | third a g env =>
    obtain ⟨hg, w, hw, rfl⟩ := step_third hs
    exact h.after (hG.owned.third hg hw) (by simp)

end Pair

end Aewt
