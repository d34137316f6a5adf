import AewtState.Cells

/-!
# A step of the two nodes, seen from one row

* `Pair.Advance` — what the next piece of `register_handler` does.
* `Pair.Good` — what holds of every reachable state, whatever was lost.

Principal result: `Pair.Good.step` — a step of the two nodes is a `Move` of every cell.
-/

set_option autoImplicit false

namespace Aewt

namespace Pair

open Announce (Cell Move)

variable {X Y : Pair} {a b : Side} {k : Key}

/-! ## Inversion of a step -/

section

variable {c t : Uuid} {env : Env}

theorem sideOf_eq_some {f : Side → Option Pair} :
    X.sideOf c f = some Y ↔ ∃ a, X.home c = some a ∧ f a = some Y := by
  unfold sideOf
  cases X.home c <;> simp

theorem step_connect (h : X.step (.connect a c t) = some Y) :
    (X.home c = none ∧ X.away c = false) ∧
    Y = start { X with home := Function.update X.home c (some a) } a c .connect t := by
  simp only [step] at h
  split at h
  · cases h
    exact ⟨‹_›, rfl⟩
  · cases h

theorem step_request {data : Object} (h : X.step (.request c data) = some Y) :
    ∃ a u t, X.Ready a c ∧ Y = X.start a c u t := by
  simp only [step, sideOf_eq_some] at h
  obtain ⟨a, -, h⟩ := h
  split at h
  · split at h
    · obtain ⟨u, -, rfl⟩ := Option.map_eq_some_iff.mp h
      exact ⟨a, u, _, ‹_›, rfl⟩
    · cases h
  · cases h

theorem step_leave (h : X.step (.leave c t) = some Y) :
    ∃ a, X.Ready a c ∧ Y = X.start a c .leave t := by
  simp only [step, sideOf_eq_some] at h
  obtain ⟨a, -, h⟩ := h
  split at h
  · cases h
    exact ⟨a, ‹_›, rfl⟩
  · cases h

theorem step_look (h : X.step (.look c) = some Y) : ∃ a u t, X.home c = some a ∧
    X.fan c = some (.look u t) ∧ Y = X.setFan c (some (.send u t (X.knows a))) := by
  simp only [step, sideOf_eq_some] at h
  obtain ⟨a, ha, h⟩ := h
  split at h
  · cases h
    exact ⟨a, _, _, ha, ‹_›, rfl⟩
  · cases h

theorem step_send (h : X.step (.send c) = some Y) : ∃ a u t told, X.home c = some a ∧
    X.fan c = some (.send u t told) ∧ Y = (X.setFan c none).post a
      (if told = true then [serialize (u.object t c)] else []) := by
  simp only [step, sideOf_eq_some] at h
  obtain ⟨a, ha, h⟩ := h
  split at h
  · cases h
    exact ⟨a, _, _, _, ha, ‹_›, rfl⟩
  · cases h

theorem step_enter (h : X.step (.enter a) = some Y) :
    Y = X.setNode a ((X.node a).addSession (X.session a)).1 := by
  simp only [step] at h
  split at h
  · cases h
  · cases h
    rfl

theorem step_shake (h : X.step (.shake a) = some Y) :
    X.mayOpen a = true ∧ Y = { X with opened := Function.update X.opened a true } := by
  simp only [step] at h
  split at h
  · rename_i ho
    cases h
    exact ⟨ho.2, rfl⟩
  · cases h

theorem step_accept {host : String} (h : X.step (.accept a host env) = some Y) :
    X.opened a = true ∧
    ∃ w, Session.onAccept (X.sid a) a.context host (.start env (X.node a)) = (.ok (), w) ∧
      Y = { X.after a (X.wire a) w with reading := Function.update X.reading a true } := by
  simp only [step] at h
  split at h
  · rename_i ho
    obtain ⟨Z, hZ, rfl⟩ := Option.map_eq_some_iff.mp h
    obtain ⟨w, hw, rfl⟩ := run_eq_some.mp hZ
    exact ⟨ho.1, w, hw, rfl⟩
  · cases h

/-- `deliver` reads a registration of a known session up to its first piece, and any other text
at once. -/
theorem step_deliver (h : X.step (.deliver a env) = some Y) :
    X.reading a = true ∧ X.stage a = .idle ∧ ∃ text rest, X.wire a = text :: rest ∧
    ((∃ t sp cp r, decode text .onSession (X.sid a) = .ok (.accepted t (.register sp cp r)) ∧
        X.knows a = true ∧
        Y = (X.after a rest (.start env ((X.node a).markAsRegistered (X.sid a) sp.toUInt16
          cp.toUInt16))).setStage a (.sessions ⟨t, X.sid a, .onSession, text, env.clock 0⟩ r)) ∨
      ∃ w, Session.onRead (X.sid a) (.object text) (.start env (X.node a)) = (.ok (), w) ∧
        (∀ t sp cp r, decode text .onSession (X.sid a) = .ok (.accepted t (.register sp cp r)) →
          X.knows a = false) ∧ Y = X.after a rest w) := by
  simp only [step] at h
  split at h
  · rename_i text rest hr hs hw
    refine ⟨hr, hs, text, rest, hw, ?_⟩
    unfold read at h
    split at h
    · rename_i t sp cp r hd
      split at h
      · rename_i hk
        cases h
        refine Or.inl ⟨t, sp, cp, r, hd, hk, ?_⟩
        simp only [after, World.start, textsTo, List.filterMap_nil, post_nil]
        rfl
      · rename_i hk
        obtain ⟨w, hw, rfl⟩ := run_setWire.mp h
        exact Or.inr ⟨w, hw, fun _ _ _ _ _ => Bool.eq_false_iff.mpr hk, rfl⟩
    · rename_i hd
      obtain ⟨w, hw, rfl⟩ := run_setWire.mp h
      exact Or.inr ⟨w, hw, fun t sp cp r hd' => absurd hd' (hd t sp cp r), rfl⟩
  · cases h

theorem step_third {g : Third} (h : X.step (.third a g env) = some Y) :
    (g.id ≠ X.sid a ∧ g.id ≠ (X.node a).id ∧ g.Tells X.away) ∧
    ∃ w, g.code (.start env (X.node a)) = (.ok (), w) ∧ Y = X.after a (X.wire a) w := by
  simp only [step] at h
  split at h
  · exact ⟨‹_›, run_eq_some.mp h⟩
  · cases h

/-- The pieces of `register_handler` after the first one. -/
inductive Advance (X : Pair) (a : Side) (Y : Pair) : Prop where
  | silent (w : World) (stage : Stage)
    (piece : Piece X.away (X.node a) w (X.sid a) [] fun _ => False)
    (next : (∃ request r, X.stage a = .sessions request r ∧ stage = .clients request) ∨
      (∃ request, X.stage a = .answer request ∧ stage = .idle))
    (eq : Y = (X.after a (X.wire a) w).setStage a stage)
  | sync (w : World) (store : Store) (stage : Stage)
    (piece : Piece X.away (X.node a) w (X.sid a) [] (·.store = store))
    (next : (∃ request, X.stage a = .clients request ∧ store = .clients ∧
        stage = .subscriptions request) ∨
      (∃ request, X.stage a = .subscriptions request ∧ store = .subscriptions ∧
        stage = .answer request))
    (eq : Y = ((X.after a (X.wire a) w).setStage a stage).markSynced a store)

theorem step_advance (h : X.step (.advance a env) = some Y) : X.Advance a Y := by
  simp only [step] at h
  split at h
  · cases h
  · obtain ⟨Z, hZ, rfl⟩ := Option.map_eq_some_iff.mp h
    obtain ⟨w, hw, rfl⟩ := run_eq_some.mp hZ
    exact .silent w _ (piece_syncSessions hw) (Or.inl ⟨_, _, ‹_›, rfl⟩) rfl
  · obtain ⟨Z, hZ, rfl⟩ := Option.map_eq_some_iff.mp h
    obtain ⟨w, hw, rfl⟩ := run_eq_some.mp hZ
    exact .sync w _ _ (piece_syncClients hw) (Or.inl ⟨_, ‹_›, rfl, rfl⟩) rfl
  · obtain ⟨Z, hZ, rfl⟩ := Option.map_eq_some_iff.mp h
    obtain ⟨w, hw, rfl⟩ := run_eq_some.mp hZ
    exact .sync w _ _ (piece_syncSubscriptions hw) (Or.inr ⟨_, ‹_›, rfl, rfl⟩) rfl
  · obtain ⟨Z, hZ, rfl⟩ := Option.map_eq_some_iff.mp h
    obtain ⟨w, hw, rfl⟩ := run_eq_some.mp hZ
    exact .silent w _ (piece_answerRegister hw) (Or.inr ⟨_, ‹_›, rfl⟩) rfl

end

/-! ## Every step is a move of every cell -/

/-- A side reads and runs `register_handler` only on an open session. -/
structure Busy (X : Pair) : Prop where
  reading : ∀ a, X.reading a = true → X.opened a = true
  stage : ∀ a, X.stage a ≠ .idle → X.knows a = true ∧ X.opened a = true

/-- What holds of every reachable state, whatever was lost. -/
structure Good (X : Pair) : Prop where
  owned : X.Owned
  busy : X.Busy

section

variable {rest read : List Text} {w : World} {F : Key → Prop}

theorem knows_after (h : Piece X.away (X.node a) w (X.sid a) read F) (hk : X.knows b = true) :
    (X.after a rest w).knows b = true := by
  rcases side_cases a b with rfl | rfl
  · simp only [knows, after_node_self, after_sid]
    exact h.sessions hk
  · simp only [knows, after_node_other, after_sid]
    exact hk

end

theorem Busy.grow (hB : X.Busy) (hk : ∀ b, X.knows b = true → Y.knows b = true)
    (ho : ∀ b, X.opened b = true → Y.opened b = true)
    (hr : ∀ b, Y.reading b = true → X.opened b = true)
    (hs : ∀ b, Y.stage b ≠ .idle → X.stage b ≠ .idle ∨ X.knows b = true ∧ X.opened b = true) :
    Y.Busy where
  reading b hb := ho b (hr b hb)
  stage b hb :=
    have hkb : X.knows b = true ∧ X.opened b = true := (hs b hb).elim (hB.stage b) id
    ⟨hk b hkb.1, ho b hkb.2⟩

/-- A session enters the map in one silent piece. -/
theorem piece_enter (X : Pair) (a : Side) : ∃ w,
    Piece X.away (X.node a) w (X.sid a) [] (fun _ => False) ∧
    X.setNode a ((X.node a).addSession (X.session a)).1 = X.after a (X.wire a) w := by
  refine ⟨.start ⟨fun _ => Uuid.nil, fun _ => 0, fun _ _ => true⟩
    ((X.node a).addSession (X.session a)).1, .silent rfl (fun hx => ?_) rfl rfl (by simp)
    (fun _ m hm => by cases hm), ?_⟩
  · obtain ⟨y, hy, hid⟩ := Table.hasKey_iff.mp hx
    exact Table.hasKey_iff.mpr ⟨y, Table.mem_insert.mpr (Or.inl hy), hid⟩
  · simp only [after, setWire_self, World.start, textsTo, List.filterMap_nil, post_nil]

/-- A handler of a session to a third node is a silent piece. -/
theorem Owned.third (hO : X.Owned) {g : Third} {env : Env} {w : World}
    (hg : g.id ≠ X.sid a ∧ g.id ≠ (X.node a).id ∧ g.Tells X.away)
    (hw : g.code (.start env (X.node a)) = (.ok (), w)) :
    Piece X.away (X.node a) w (X.sid a) [] fun _ => False := by
  obtain ⟨hsid, hid, ht⟩ := hg
  refine (aside_code ht hw).piece hsid.symm hid.symm fun k hE => ⟨fun hh => ?_, fun hh => ?_⟩
  · exact absurd hE (by simp [hO.not_away hh (.inl rfl)])
  · exact absurd hE (by simp [hO.not_away hh (.inr rfl)])

theorem knows_start {c t : Uuid} {u : Change} (b : Side) :
    (X.start a c u t).knows b = X.knows b := by
  have hnode : ((X.start a c u t).node b).sessions = (X.node b).sessions := by
    rcases side_cases a b with rfl | rfl
    · exact (congrArg State.sessions (Function.update_self _ _ _)).trans
        (Change.apply_sessions _ _ _)
    · exact congrArg State.sessions (Function.update_of_ne a.other_ne _ _)
  simp only [knows, hnode]
  rfl

theorem Good.start (hG : X.Good) {c t : Uuid} {u : Change} (hc : X.home c = some a) :
    (X.start a c u t).Good :=
  ⟨owned_start hG.owned hc, hG.busy.grow (fun b hb => (knows_start b).trans hb) (fun _ => id)
    hG.busy.reading fun _ => Or.inl⟩

/-- **A step of the two nodes is a move of every cell.** -/
theorem Good.step (hG : X.Good) {action : Action} (hs : X.step action = some Y) :
    Y.Good ∧ ∀ b k, Move (X.Loses b action) (X.cell b k) (Y.cell b k) := by
  have hO := hG.owned
  have hB := hG.busy
  cases action with
  | connect a c t =>
    obtain ⟨⟨hc, haw⟩, rfl⟩ := step_connect hs
    have hO' := hO.connect hc haw a
    have hG' : Good { X with home := Function.update X.home c (some a) } :=
      ⟨hO', hB.reading, hB.stage⟩
    have hhome : Function.update X.home c (some a) c = some a := Function.update_self _ _ _
    refine ⟨hG'.start hhome, fun b k => ?_⟩
    rw [← cell_connect hO hc a b k]
    exact move_start hO' hhome (hO.fans c hc) b k _
  | request c data =>
    obtain ⟨a, u, t, ⟨hc, -, hf⟩, rfl⟩ := step_request hs
    exact ⟨hG.start hc, fun b k => move_start hO hc (Option.isNone_iff_eq_none.mp hf) b k _⟩
  | leave c t =>
    obtain ⟨a, ⟨hc, -, hf⟩, rfl⟩ := step_leave hs
    exact ⟨hG.start hc, fun b k => move_start hO hc (Option.isNone_iff_eq_none.mp hf) b k _⟩
  | look c =>
    obtain ⟨a, u, t, hc, hf, rfl⟩ := step_look hs
    exact ⟨⟨hO.setFan hc _, hB.reading, hB.stage⟩, move_look hc hf⟩
  | send c =>
    obtain ⟨a, u, t, told, hc, hf, rfl⟩ := step_send hs
    refine ⟨⟨(hO.setFan hc none).post fun text ht s k v hu => ?_, ?_, ?_⟩, move_send hc hf⟩
    · split at ht
      · cases List.mem_singleton.mp ht
        rw [Change.updateOf_object, Option.some.injEq, Prod.mk.injEq] at hu
        rw [← hu.1, Change.key_about]
        exact hc
      · cases ht
    · intro b
      rw [post_reading, post_opened]
      exact hB.reading b
    · intro b
      rw [post_stage, post_knows, post_opened]
      exact hB.stage b
  | enter a =>
    obtain ⟨w, hp, hw⟩ := piece_enter X a
    rw [step_enter hs, hw]
    have hwire : X.wire a = [] ++ X.wire a := rfl
    refine ⟨⟨owned_after hO hp hwire, hB.grow (fun _ => knows_after hp) ?_ ?_ ?_⟩,
      fun b k => move_silent hO hp hwire b k _⟩
    · simp
    · simpa using hB.reading
    · simp only [after_stage]
      exact fun _ => Or.inl
  | shake a =>
    obtain ⟨-, rfl⟩ := step_shake hs
    have hopen : ∀ b, X.opened b = true → Function.update X.opened a true b = true := by
      intro b hb
      by_cases hba : b = a
      · rw [hba, Function.update_self]
      · rwa [Function.update_of_ne hba]
    exact ⟨⟨⟨hO.fresh, hO.away, hO.rows, hO.wires, hO.fans⟩, fun b hb => hopen b (hB.reading b hb),
      fun b hb => ⟨(hB.stage b hb).1, hopen b (hB.stage b hb).2⟩⟩,
      fun b k => .of_same rfl rfl rfl id (hopen b) rfl⟩
  | accept a host env =>
    obtain ⟨ho, w, hw, rfl⟩ := step_accept hs
    have hp := piece_onAccept (E := X.away) hw
    have hwire : X.wire a = [] ++ X.wire a := rfl
    have hO' := owned_after hO hp hwire
    refine ⟨⟨⟨hO'.fresh, hO'.away, hO'.rows, hO'.wires, hO'.fans⟩,
      hB.grow (fun _ => knows_after hp) (by simp) (fun b hb => ?_) ?_⟩,
      fun b k => move_silent hO hp hwire b k _⟩
    · by_cases hba : b = a
      · rw [hba, ho]
      · exact hB.reading b ((Function.update_of_ne hba _ _).symm.trans hb)
    · simp only [after_stage]
      exact fun _ => Or.inl
  | deliver a env =>
    obtain ⟨hr, -, text, rest, hwire, ⟨t, sp, cp, r, hd, hk, rfl⟩ | ⟨w, hw, hreg, rfl⟩⟩ :=
      step_deliver hs
    · have hp := piece_mark (E := X.away) (X.node a) sp.toUInt16 cp.toUInt16 hd env
      have hO' := owned_after hO hp hwire
      refine ⟨⟨⟨hO'.fresh, hO'.away, hO'.rows, hO'.wires, hO'.fans⟩,
        hB.grow (fun _ => knows_after hp) ?_ ?_ fun b hb => ?_⟩,
        fun b k => move_silent hO hp hwire b k _⟩
      · simp [setStage]
      · simpa [setStage] using hB.reading
      · by_cases hba : b = a
        · rw [hba]
          exact Or.inr ⟨hk, hB.reading a hr⟩
        · refine Or.inl fun hx => hb ?_
          exact (Function.update_of_ne hba _ _).trans (by rw [after_stage, hx])
    · have hmem : text ∈ X.wire a := by simp [hwire]
      have hp := piece_onRead (E := X.away) (hO.rows_of_text hmem) (fun t sp cp r hd =>
        Table.find?_eq_none.mpr (Table.hasKey_eq_false.mp (hreg t sp cp r hd))) hw
      refine ⟨⟨owned_after hO hp hwire, hB.grow (fun _ => knows_after hp) ?_ ?_ ?_⟩,
        fun b k => move_silent hO hp hwire b k _⟩
      · simp
      · simpa using hB.reading
      · simp only [after_stage]
        exact fun _ => Or.inl
  | advance a env =>
    have hwire : X.wire a = [] ++ X.wire a := rfl
    have hidle : X.stage a ≠ .idle := by
      intro hi
      simp [Pair.step, hi] at hs
    obtain ⟨hk, ho⟩ := hB.stage a hidle
    cases step_advance hs with
    | silent w stage piece next eq =>
      subst eq
      have hO' := owned_after hO piece hwire
      refine ⟨⟨⟨hO'.fresh, hO'.away, hO'.rows, hO'.wires, hO'.fans⟩,
        hB.grow (fun _ => knows_after piece) ?_ ?_ fun b hb => ?_⟩,
        fun b k => move_silent hO piece hwire b k _⟩
      · simp [setStage]
      · simpa [setStage] using hB.reading
      · by_cases hba : b = a
        · rw [hba]
          exact Or.inl hidle
        · refine Or.inl fun hx => hb ?_
          exact (Function.update_of_ne hba _ _).trans (by rw [after_stage, hx])
    | sync w store stage piece next eq =>
      subst eq
      have hO' := owned_after hO piece hwire
      refine ⟨⟨⟨hO'.fresh, hO'.away, hO'.rows, hO'.wires, hO'.fans⟩,
        hB.grow (fun _ => knows_after piece) ?_ ?_ fun b hb => ?_⟩,
        fun b k => move_sync hO piece hk ho b k _⟩
      · simp [setStage, markSynced]
      · simpa [setStage, markSynced] using hB.reading
      · by_cases hba : b = a
        · rw [hba]
          exact Or.inl hidle
        · refine Or.inl fun hx => hb ?_
          exact (Function.update_of_ne hba _ _).trans (by rw [after_stage, hx])
  | third a g env =>
    obtain ⟨hg, w, hw, rfl⟩ := step_third hs
    have hp := hO.third hg hw
    have hwire : X.wire a = [] ++ X.wire a := rfl
    refine ⟨⟨owned_after hO hp hwire, hB.grow (fun _ => knows_after hp) ?_ ?_ ?_⟩,
      fun b k => move_silent hO hp hwire b k _⟩
    · simp
    · simpa using hB.reading
    · simp only [after_stage]
      exact fun _ => Or.inl

end Pair

end Aewt
