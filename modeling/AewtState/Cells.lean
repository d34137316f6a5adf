import AewtState.Pieces

/-!
# One row of the two nodes

* `Pair.cell` — one row of one side as an announced fact: whether the node stores it, and
  whether the other node will when it has read what is on its way.
* `Pair.Owned` — rows, texts and unfinished handlers belong to the side a client connected to,
  the rows of other sessions to clients of third nodes.

Principal results: `move_silent`, `move_sync`, `move_start`, `move_look` and `move_send` — a piece
of a handler is a `Move` of every cell; `owned_after`, `owned_start` — ownership stays.
-/

set_option autoImplicit false

namespace Aewt

def Fan.change : Fan → Change
  | .look u _ => u
  | .send u _ _ => u

/-- The sessions were read without the listener. -/
def Fan.untold : Fan → Bool
  | .look _ _ => false
  | .send _ _ told => !told

def Fan.todo : Fan → Announce.Todo
  | .look u _ => .look u.value
  | .send u _ told => .send u.value told

namespace Pair

open Announce (Cell Move)

variable {X Y : Pair} {a b : Side} {k : Key}

/-! ## Cells -/

/-- How far the update of a row is. -/
def todo (X : Pair) (a : Side) (k : Key) : Option Announce.Todo :=
  if X.home k.about = some a then
    match X.fan k.about with
    | some f => if f.change.key k.about = k then some f.todo else none
    | none => none
  else none

/-- What the side will hold of the other side's row when it has read its wire. -/
def mirrored (X : Pair) (a : Side) (k : Key) : Prop :=
  Replica.after (updateOf (X.sid a)) k ((X.node a).Holds (X.sid a) k) (X.wire a)

/-- A local row of one side, announced to the other. -/
def cell (X : Pair) (a : Side) (k : Key) : Cell where
  store := (X.node a).Holds (X.node a).id k
  remote := X.mirrored a.other k
  todo := X.todo a k
  known := X.knows a
  opened := X.opened a
  synced := X.synced a k.store

/-- The announcement that the step loses, if it does. -/
def Loses (X : Pair) (a : Side) : Action → Prop
  | .look c => X.home c = some a ∧ X.knows a = false
  | .send c => X.home c = some a ∧ (X.opened a = false ∨ (X.fan c).any Fan.untold = true)
  | _ => False

instance (X : Pair) (a : Side) : ∀ action, Decidable (X.Loses a action)
  | .look _ => inferInstanceAs (Decidable (_ ∧ _))
  | .send _ => inferInstanceAs (Decidable (_ ∧ _))
  | .connect _ _ _ | .request _ _ | .leave _ _ | .enter _ | .shake _ | .accept _ _ _
  | .deliver _ _ | .advance _ _ | .third _ _ _ => inferInstanceAs (Decidable False)

/-- Everything belongs to the side that its client connected to, or to a third node. -/
structure Owned (X : Pair) : Prop where
  fresh : ∀ a, X.sid a ≠ (X.node a).id
  away : ∀ c, X.away c = true → X.home c = none
  rows : ∀ a s k, (X.node a).Holds s k →
    (s = (X.node a).id ∧ X.home k.about = some a) ∨
      (s = X.sid a ∧ X.home k.about = some a.other) ∨
      (s ≠ (X.node a).id ∧ s ≠ X.sid a ∧ X.away k.about = true)
  wires : ∀ a, ∀ text ∈ X.wire a, ∀ k b, updateOf (X.sid a) text = some (k, b) →
    X.home k.about = some a.other
  fans : ∀ c, X.home c = none → X.fan c = none

/-- The rows of other sessions are about clients that connected to neither side. -/
theorem Owned.not_away (h : X.Owned) {s : Uuid} (hh : (X.node a).Holds s k)
    (hs : s = (X.node a).id ∨ s = X.sid a) : X.away k.about = false := by
  rw [Bool.eq_false_iff]
  intro haw
  have hn := h.away _ haw
  rcases h.rows a s k hh with ⟨-, hm⟩ | ⟨-, hm⟩ | ⟨hid, hsid, -⟩
  · rw [hn] at hm
    cases hm
  · rw [hn] at hm
    cases hm
  · exact hs.elim hid hsid

/-- A local row is about a client of the side. -/
theorem Owned.home_of_local (h : X.Owned) (hh : (X.node a).Holds (X.node a).id k) :
    X.home k.about = some a := by
  rcases h.rows a _ k hh with ⟨-, hm⟩ | ⟨hs, -⟩ | ⟨hs, -⟩
  · exact hm
  · exact absurd hs.symm (h.fresh a)
  · exact absurd rfl hs

/-- The row of a client of the side is the side's own. -/
theorem Owned.rows_of_home (h : X.Owned) {c : Uuid} (hc : X.home c = some a) :
    ∀ row ∈ (X.node a).clients, row.id = c → row.sessionId = (X.node a).id := by
  rintro row hrow rfl
  rcases h.rows a row.sessionId (.client row.id) hrow with ⟨hs, -⟩ | ⟨-, hm⟩ | ⟨-, -, haw⟩
  · exact hs
  · simp [Key.about, hc] at hm
  · cases hc.symm.trans (h.away _ haw)

/-- A text about a client is read where the client's row, if any, is the session's. -/
theorem Owned.rows_of_text (h : X.Owned) {text : Text} (ht : text ∈ X.wire a) (k : Key)
    (b : Bool) (hu : updateOf (X.sid a) text = some (k, b)) :
    ∀ row ∈ (X.node a).clients, row.id = k.about → row.sessionId = X.sid a := by
  intro row hrow hid
  have hm := h.wires a text ht k b hu
  rcases h.rows a row.sessionId (.client row.id) hrow with ⟨-, hm'⟩ | ⟨hs, -⟩ | ⟨-, -, haw⟩
  · rw [show (Key.client row.id).about = k.about from hid, hm] at hm'
    simp at hm'
  · exact hs
  · rw [show (Key.client row.id).about = k.about from hid] at haw
    cases hm.symm.trans (h.away _ haw)

/-! ## What one side's piece does to the cells -/

theorem side_cases (a b : Side) : b = a ∨ b = a.other := by
  cases a <;> cases b <;> simp [Side.other]

section

variable {st : State} {ts : List Text}

@[simp] theorem post_session : (X.post a ts).session = X.session := by
  unfold post; split <;> rfl
@[simp] theorem post_node : (X.post a ts).node = X.node := by
  unfold post; split <;> rfl
@[simp] theorem post_fan : (X.post a ts).fan = X.fan := by
  unfold post; split <;> rfl
@[simp] theorem post_home : (X.post a ts).home = X.home := by
  unfold post; split <;> rfl
@[simp] theorem post_away : (X.post a ts).away = X.away := by
  unfold post; split <;> rfl
@[simp] theorem post_opened : (X.post a ts).opened = X.opened := by
  unfold post; split <;> rfl
@[simp] theorem post_reading : (X.post a ts).reading = X.reading := by
  unfold post; split <;> rfl
@[simp] theorem post_stage : (X.post a ts).stage = X.stage := by
  unfold post; split <;> rfl
@[simp] theorem post_synced : (X.post a ts).synced = X.synced := by
  unfold post; split <;> rfl
@[simp] theorem post_sid : (X.post a ts).sid b = X.sid b := by simp [sid]
@[simp] theorem post_knows : (X.post a ts).knows b = X.knows b := by simp [knows]

@[simp] theorem post_wire_self : (X.post a ts).wire a = X.wire a := by
  unfold post
  split
  · exact Function.update_of_ne a.ne_other _ _
  · rfl

theorem post_wire_other : (X.post a ts).wire a.other =
    X.wire a.other ++ if X.opened a = true then ts else [] := by
  unfold post
  split
  · exact Function.update_self _ _ _
  · simp

@[simp] theorem post_nil : X.post a [] = X := by
  unfold post
  split
  · simp [setWire]
  · rfl

@[simp] theorem setWire_self : X.setWire a (X.wire a) = X := by simp [setWire]
@[simp] theorem setWire_wire_self : (X.setWire a ts).wire a = ts := Function.update_self _ _ _
@[simp] theorem setWire_wire_other : (X.setWire a ts).wire a.other = X.wire a.other :=
  Function.update_of_ne a.other_ne _ _
@[simp] theorem setWire_node : (X.setWire a ts).node = X.node := rfl
@[simp] theorem setNode_node_self : (X.setNode a st).node a = st := Function.update_self _ _ _
@[simp] theorem setNode_node_other : (X.setNode a st).node a.other = X.node a.other :=
  Function.update_of_ne a.other_ne _ _

end

/-- The two nodes after a piece of a handler of side `a`, which leaves `rest` to be read. -/
def after (X : Pair) (a : Side) (rest : List Text) (w : World) : Pair :=
  ((X.setWire a rest).setNode a w.state).post a (textsTo (X.sid a) w.effects)

theorem run_setWire {env : Env} {x : M Unit} {rest : List Text} :
    (X.setWire a rest).run a env x = some Y ↔
      ∃ w, x (.start env (X.node a)) = (.ok (), w) ∧ Y = X.after a rest w := by
  unfold run after
  rw [setWire_node]
  rcases x (.start env (X.node a)) with ⟨e | u, w⟩
  · simp
  · constructor
    · intro h
      cases h
      exact ⟨w, rfl, rfl⟩
    · rintro ⟨w', hw, rfl⟩
      cases hw
      rfl

theorem run_eq_some {env : Env} {x : M Unit} : X.run a env x = some Y ↔
    ∃ w, x (.start env (X.node a)) = (.ok (), w) ∧ Y = X.after a (X.wire a) w := by
  rw [← run_setWire, setWire_self]

section

variable {w : World} {read rest : List Text} {F : Key → Prop}

@[simp] theorem after_session : (X.after a rest w).session = X.session := by
  simp [after, setNode, setWire]
@[simp] theorem after_fan : (X.after a rest w).fan = X.fan := by simp [after, setNode, setWire]
@[simp] theorem after_home : (X.after a rest w).home = X.home := by simp [after, setNode, setWire]
@[simp] theorem after_away : (X.after a rest w).away = X.away := by simp [after, setNode, setWire]
@[simp] theorem after_opened : (X.after a rest w).opened = X.opened := by
  simp [after, setNode, setWire]
@[simp] theorem after_reading : (X.after a rest w).reading = X.reading := by
  simp [after, setNode, setWire]
@[simp] theorem after_stage : (X.after a rest w).stage = X.stage := by
  simp [after, setNode, setWire]
@[simp] theorem after_synced : (X.after a rest w).synced = X.synced := by
  simp [after, setNode, setWire]
@[simp] theorem after_sid : (X.after a rest w).sid b = X.sid b := by simp [sid]
@[simp] theorem after_node_self : (X.after a rest w).node a = w.state := by simp [after]
@[simp] theorem after_node_other : (X.after a rest w).node a.other = X.node a.other := by
  simp [after]
@[simp] theorem after_wire_self : (X.after a rest w).wire a = rest := by
  simp [after, setNode]

theorem after_wire_other : (X.after a rest w).wire a.other =
    X.wire a.other ++ if X.opened a = true then textsTo (X.sid a) w.effects else [] := by
  rw [after, post_wire_other]
  simp only [setNode, setWire, Function.update_of_ne a.other_ne]
  rfl

theorem todo_congr (hh : Y.home = X.home) (hf : Y.fan = X.fan) : Y.todo a k = X.todo a k := by
  simp only [todo, hh, hf]

/-- A piece of one side leaves the rows of the other side and their announcements alone. -/
theorem cell_after_other (h : Piece X.away (X.node a) w (X.sid a) read F)
    (hw : X.wire a = read ++ rest) : (X.after a rest w).cell a.other k = X.cell a.other k := by
  have hmirror : (X.after a rest w).mirrored a k = X.mirrored a k := by
    simp only [mirrored, after_sid, after_node_self, after_wire_self, hw, Replica.after_append]
    rw [propext (h.holds k)]
  simp only [cell, Side.other_other, hmirror, todo_congr after_home after_fan, knows, after_sid,
    after_node_other, after_opened, after_synced]

theorem cell_after_self (hO : X.Owned) (h : Piece X.away (X.node a) w (X.sid a) read F) :
    (X.after a rest w).cell a k = { X.cell a k with
      known := w.state.sessions.hasKey (X.sid a)
      remote := if X.opened a = true then (X.cell a k).remote ∨ (F k ∧ (X.cell a k).store)
        else (X.cell a k).remote } := by
  have hstore : w.state.Holds (X.node a).id k = (X.node a).Holds (X.node a).id k :=
    propext (h.own (hO.fresh a).symm k)
  have hmirror : (X.after a rest w).mirrored a.other k = if X.opened a = true then
      X.mirrored a.other k ∨ (F k ∧ (X.node a).Holds (X.node a).id k)
      else X.mirrored a.other k := by
    simp only [mirrored, after_sid, after_node_other, after_wire_other]
    split
    · rw [Replica.after_append, propext (h.after _ k _)]
    · simp
  simp only [cell, hmirror, todo_congr after_home after_fan, knows, after_sid, after_node_self,
    after_opened, after_synced, h.id, hstore]

/-- A piece that reports nothing. -/
theorem move_silent (hO : X.Owned) (h : Piece X.away (X.node a) w (X.sid a) read fun _ => False)
    (hw : X.wire a = read ++ rest) (b : Side) (k : Key) (lossy : Prop) :
    Move lossy (X.cell b k) ((X.after a rest w).cell b k) := by
  rcases side_cases a b with rfl | rfl
  · rw [cell_after_self hO h]
    refine .of_same rfl ?_ rfl h.sessions id rfl
    simp
  · rw [cell_after_other h hw]
    exact .of_same rfl rfl rfl id id rfl

/-- A loop of `sync` reports the rows of its store. -/
theorem move_sync {store : Store} (hO : X.Owned)
    (h : Piece X.away (X.node a) w (X.sid a) [] (·.store = store))
    (hk : X.knows a = true) (ho : X.opened a = true) (b : Side) (k : Key) (lossy : Prop) :
    Move lossy (X.cell b k) (((X.after a (X.wire a) w).markSynced a store).cell b k) := by
  have hsynced : ((X.after a (X.wire a) w).markSynced a store).cell b k =
      { (X.after a (X.wire a) w).cell b k with
        synced := if b = a ∧ k.store = store then true else X.synced b k.store } := by
    ext
    case synced =>
      rcases side_cases a b with rfl | rfl
      · by_cases hs : k.store = store
        · simp [cell, markSynced, hs]
        · simp [cell, markSynced, hs]
      · simp [cell, markSynced]
    all_goals rfl
  rw [hsynced]
  rcases side_cases a b with rfl | rfl
  · rw [cell_after_self hO h]
    by_cases hs : k.store = store
    · have hmove : Move lossy (X.cell b k) _ := .sync hk ho
      convert hmove using 2
      · simp [ho, hs]
      · rw [show (X.cell b k).known = true from hk]
        exact h.sessions hk
      · simp [hs]
    · refine .of_same rfl ?_ rfl h.sessions id ?_
      · simp [hs]
      · simp [hs, cell]
  · rw [cell_after_other h (List.nil_append _).symm]
    refine .of_same rfl rfl rfl id id ?_
    simp [cell]

theorem owned_after (hO : X.Owned) (h : Piece X.away (X.node a) w (X.sid a) read F)
    (hw : X.wire a = read ++ rest) : (X.after a rest w).Owned := by
  refine ⟨fun b => ?_, by simpa using hO.away, fun b s k hh => ?_, fun b text ht k v hu => ?_,
    fun c hc => ?_⟩
  · rw [after_sid]
    rcases side_cases a b with rfl | rfl
    · rw [after_node_self, h.id]
      exact hO.fresh b
    · rw [after_node_other]
      exact hO.fresh _
  · rw [after_home, after_sid, after_away]
    rcases side_cases a b with rfl | rfl
    · rw [after_node_self] at hh ⊢
      rw [h.id]
      by_cases hs : s = X.sid b
      · subst hs
        rw [h.holds] at hh
        rcases Replica.of_after hh with hh | ⟨m, hm, hu⟩
        · exact hO.rows b _ k hh
        · exact Or.inr (Or.inl ⟨rfl, hO.wires b m (by simp [hw, hm]) k true hu⟩)
      · by_cases hid : s = (X.node b).id
        · subst hid
          exact hO.rows b _ k ((h.own (hO.fresh b).symm k).mp hh)
        · rcases h.others s hs k hh with hh | haw
          · exact hO.rows b s k hh
          · exact Or.inr (Or.inr ⟨hid, hs, haw⟩)
    · rw [after_node_other] at hh ⊢
      exact hO.rows _ s k hh
  · rw [after_home]
    rw [after_sid] at hu
    rcases side_cases a b with rfl | rfl
    · rw [after_wire_self] at ht
      exact hO.wires b text (by simp [hw, ht]) k v hu
    · rw [after_wire_other] at ht
      rcases List.mem_append.mp ht with ht | ht
      · exact hO.wires _ text ht k v hu
      · split at ht
        · rw [Side.other_other]
          exact hO.home_of_local (h.texts _ text ht k v hu).2.2
        · cases ht
  · rw [after_home] at hc
    rw [after_fan]
    exact hO.fans c hc

end

/-! ## What a client's handler does to the cells -/

section

variable {c t : Uuid} {u : Change}

theorem todo_eq_none (hc : X.fan c = none) (hk : k.about = c) : X.todo a k = none := by
  simp [todo, hk, hc]

/-- A client of the other side has no handler here. -/
theorem todo_eq_none_of_home (hc : X.home k.about = some b) (h : a ≠ b) : X.todo a k = none := by
  rw [todo, if_neg]
  rw [hc]
  rintro ⟨⟩
  exact h rfl

/-- A client's handler is about one row. -/
theorem todo_eq_none_of_key (hf : ∀ f, X.fan c = some f → f.change = u) (hkc : k.about = c)
    (hk : u.key c ≠ k) : X.todo a k = none := by
  subst hkc
  unfold todo
  split
  · cases hx : X.fan k.about with
    | none => rfl
    | some f =>
      simp only
      rw [hf f hx, if_neg hk]
  · rfl

theorem todo_of_fan {f : Fan} (hc : X.home c = some a) (hf : X.fan c = some f)
    (hu : f.change = u) : X.todo a (u.key c) = some f.todo := by
  simp [todo, hc, hf, hu]

@[simp] theorem setFan_fan_self (f : Option Fan) : (X.setFan c f).fan c = f :=
  Function.update_self _ _ _

/-- The next step of the handler concerns one cell. -/
theorem todo_setFan (hc : X.home c = some a) (hk : ¬ (b = a ∧ u.key c = k))
    (hf : ∀ f, X.fan c = some f → f.change = u) {g : Option Fan}
    (hg : ∀ f, g = some f → f.change = u) : (X.setFan c g).todo b k = X.todo b k := by
  by_cases hkc : k.about = c
  · rcases side_cases a b with rfl | rfl
    · have hk : u.key c ≠ k := fun h => hk ⟨rfl, h⟩
      rw [todo_eq_none_of_key hf hkc hk, todo_eq_none_of_key (by simpa using hg) hkc hk]
    · rw [← hkc] at hc
      rw [todo_eq_none_of_home hc a.other_ne]
      exact todo_eq_none_of_home (X := X.setFan c g) hc a.other_ne
  · have hfan : (X.setFan c g).fan k.about = X.fan k.about := Function.update_of_ne hkc _ _
    simp only [todo, hfan]
    rfl

theorem move_start (hO : X.Owned) (hc : X.home c = some a) (hf : X.fan c = none) (b : Side)
    (k : Key) (lossy : Prop) : Move lossy (X.cell b k) ((X.start a c u t).cell b k) := by
  have hholds := Change.holds_apply (u := u) (hO.rows_of_home hc)
  have hnode : (X.start a c u t).node a = u.apply (X.node a) c := Function.update_self _ _ _
  have hother : (X.start a c u t).node a.other = X.node a.other :=
    Function.update_of_ne a.other_ne _ _
  have htodo : ¬ (b = a ∧ u.key c = k) → ((X.start a c u t).cell b k).todo = X.todo b k :=
    fun hk => todo_setFan (X := X.setNode a _) hc hk (by simp [setNode, hf]) (by
      rintro f ⟨⟩
      rfl)
  rcases side_cases a b with rfl | rfl
  · have hstore : ((X.start b c u t).cell b k).store = Replica.update (some (u.key c, u.value)) k
        (X.cell b k).store := by
      simp only [cell, hnode, Change.apply_id]
      rw [propext (hholds _ k), if_pos rfl]
    have hremote : ((X.start b c u t).cell b k).remote = (X.cell b k).remote := by
      simp only [cell, mirrored, hother]
      rfl
    have hknown : ((X.start b c u t).cell b k).known = (X.cell b k).known := by
      simp only [cell, knows, hnode, Change.apply_sessions]
      rfl
    by_cases hk : u.key c = k
    · subst hk
      have hmove : Move lossy (X.cell b (u.key c)) _ :=
        .update u.value (todo_eq_none hf (u.key_about c))
      convert hmove using 1
      ext
      · rw [hstore, Replica.update_self]
      · exact iff_of_eq hremote
      · rw [show ((X.start b c u t).cell b (u.key c)).todo = some _ from
          todo_of_fan (X := X.start b c u t) hc (setFan_fan_self _) rfl]
        rfl
      · rw [hknown]
      · rfl
      · rfl
    · refine .of_same ?_ hremote (htodo fun h => hk h.2) (fun h => hknown.trans h) id rfl
      rw [hstore, Replica.update_ne _ hk]
  · refine .of_same ?_ ?_ (htodo fun h => a.other_ne h.1) (fun h => ?_) id rfl
    · simp only [cell, hother]
    · have hs : (u.apply (X.node a) c).Holds (X.sid a) k = (X.node a).Holds (X.sid a) k := by
        rw [propext (hholds _ k), if_neg (hO.fresh a)]
      simp only [cell, Side.other_other, mirrored, hnode]
      change Replica.after _ _ ((u.apply (X.node a) c).Holds (X.sid a) k) _ = _
      rw [hs]
      rfl
    · simp only [cell, knows, hother]
      exact h

theorem move_look (hc : X.home c = some a) (hf : X.fan c = some (.look u t)) (b : Side)
    (k : Key) : Move (X.Loses b (.look c)) (X.cell b k)
      ((X.setFan c (some (.send u t (X.knows a)))).cell b k) := by
  by_cases hk : b = a ∧ u.key c = k
  · obtain ⟨rfl, rfl⟩ := hk
    have hmove : Move (X.Loses b (.look c)) (X.cell b (u.key c)) _ :=
      .look u.value (todo_of_fan hc hf rfl) fun hk => ⟨hc, hk⟩
    convert hmove using 1
    ext
    case todo =>
      rw [show ((X.setFan c _).cell b (u.key c)).todo = some _ from
        todo_of_fan (X := X.setFan c _) hc (setFan_fan_self _) rfl]
      rfl
    all_goals rfl
  · refine .of_same rfl rfl (todo_setFan hc hk ?_ ?_) id id rfl
    · rw [hf]
      rintro f ⟨⟩
      rfl
    · rintro f ⟨⟩
      rfl

theorem cell_post_other {ts : List Text} :
    (X.post a ts).cell a.other k = X.cell a.other k := by
  simp only [cell, Side.other_other, mirrored, post_wire_self, post_node, post_sid, post_knows,
    post_opened, post_synced, todo_congr (post_home) (post_fan)]

theorem cell_post_self {ts : List Text} : (X.post a ts).cell a k = { X.cell a k with
    remote := if X.opened a = true then
      Replica.after (updateOf (X.sid a.other)) k (X.cell a k).remote ts
      else (X.cell a k).remote } := by
  have hmirror : (X.post a ts).mirrored a.other k = if X.opened a = true then
      Replica.after (updateOf (X.sid a.other)) k (X.mirrored a.other k) ts
      else X.mirrored a.other k := by
    simp only [mirrored, post_wire_other, post_node, post_sid]
    split
    · exact Replica.after_append _ _
    · simp
  simp only [cell, hmirror, post_node, post_knows, post_opened, post_synced,
    todo_congr post_home post_fan]

theorem move_send {told : Bool} (hc : X.home c = some a) (hf : X.fan c = some (.send u t told))
    (b : Side) (k : Key) : Move (X.Loses b (.send c)) (X.cell b k)
      (((X.setFan c none).post a
        (if told = true then [serialize (u.object t c)] else [])).cell b k) := by
  have hcell : ¬ (b = a ∧ u.key c = k) → (X.setFan c none).cell b k = X.cell b k := by
    intro hk
    have htodo : (X.setFan c none).todo b k = X.todo b k := by
      refine todo_setFan hc hk ?_ ?_
      · rw [hf]
        rintro f ⟨⟩
        rfl
      · rintro f ⟨⟩
    simp only [cell, htodo]
    rfl
  rcases side_cases a b with rfl | rfl
  · rw [cell_post_self]
    by_cases hk : u.key c = k
    · subst hk
      have hready : (X.cell b (u.key c)).todo = some (.send u.value told) :=
        todo_of_fan hc hf rfl
      have hnone : (X.setFan c none).todo b (u.key c) = none :=
        todo_eq_none (setFan_fan_self none) (u.key_about c)
      by_cases hpost : told = true ∧ X.opened b = true
      · obtain ⟨rfl, ho⟩ := hpost
        have hmove : Move (X.Loses b (.send c)) (X.cell b (u.key c)) _ := .post _ hready ho
        convert hmove using 1
        ext
        case remote =>
          change (if X.opened b = true then _ else _) ↔ _
          rw [if_pos ho, if_pos rfl, Replica.after_cons, Replica.after_nil, Replica.apply,
            Change.updateOf_object, Replica.update_self]
        case todo => rw [show ((X.setFan c none).cell b (u.key c)).todo = none from hnone]
        all_goals rfl
      · have hlost : told = false ∨ X.opened b = false := by
          rw [not_and_or, Bool.not_eq_true, Bool.not_eq_true] at hpost
          exact hpost
        have hmove : Move (X.Loses b (.send c)) (X.cell b (u.key c)) _ :=
          .drop _ _ hready hlost ⟨hc, hlost.symm.imp id fun h => by simp [hf, Fan.untold, h]⟩
        convert hmove using 1
        ext
        case remote =>
          change (if X.opened b = true then _ else _) ↔ _
          rcases hlost with rfl | ho
          · simp only [Bool.false_eq_true, if_false, Replica.after_nil, ite_self]
            rfl
          · rw [if_neg (by simp [ho])]
            rfl
        case todo => rw [show ((X.setFan c none).cell b (u.key c)).todo = none from hnone]
        all_goals rfl
    · rw [hcell fun h => hk h.2]
      refine .of_same rfl ?_ rfl id id rfl
      change (if X.opened b = true then _ else _) = _
      split
      · refine Replica.after_idle fun m hm v => ?_
        split at hm
        · cases List.mem_singleton.mp hm
          rw [Change.updateOf_object]
          rintro ⟨⟩
          exact hk rfl
        · cases hm
      · rfl
  · rw [cell_post_other, hcell fun h => a.other_ne h.1]
    exact .of_same rfl rfl rfl id id rfl

theorem owned_start (hO : X.Owned) (hc : X.home c = some a) : (X.start a c u t).Owned := by
  have hholds := Change.holds_apply (u := u) (hO.rows_of_home hc)
  have hnode : (X.start a c u t).node a = u.apply (X.node a) c := Function.update_self _ _ _
  have hother : (X.start a c u t).node a.other = X.node a.other :=
    Function.update_of_ne a.other_ne _ _
  refine ⟨fun b => ?_, hO.away, fun b s k hh => ?_, hO.wires, fun d hd => ?_⟩
  · rcases side_cases a b with rfl | rfl
    · rw [hnode, Change.apply_id]
      exact hO.fresh b
    · rw [hother]
      exact hO.fresh _
  · rcases side_cases a b with rfl | rfl
    · rw [hnode] at hh ⊢
      rw [Change.apply_id]
      rw [hholds] at hh
      split at hh
      · rename_i hs
        rcases Replica.of_update hh with hu | hh
        · rw [Option.some.injEq, Prod.mk.injEq] at hu
          exact Or.inl ⟨hs, by rw [← hu.1, Change.key_about]; exact hc⟩
        · exact hO.rows b s k hh
      · exact hO.rows b s k hh
    · rw [hother] at hh ⊢
      exact hO.rows _ s k hh
  · have hdc : d ≠ c := by
      rintro rfl
      cases hc.symm.trans hd
    exact (Function.update_of_ne hdc _ _).trans (hO.fans d hd)

/-- A client that connects belongs to nobody yet. -/
theorem Owned.connect (hO : X.Owned) (hc : X.home c = none) (haw : X.away c = false) (a : Side) :
    Owned { X with home := Function.update X.home c (some a) } := by
  have hhome : ∀ {k : Key} {b : Side}, X.home k.about = some b →
      Function.update X.home c (some a) k.about = some b := by
    intro k b hk
    rw [Function.update_of_ne]
    · exact hk
    · intro hkc
      rw [hkc, hc] at hk
      cases hk
  refine ⟨hO.fresh, fun d hd => ?_, fun b s k hh => ?_,
    fun b text ht k v hu => hhome (hO.wires b text ht k v hu), fun d hd => ?_⟩
  · have hdc : d ≠ c := by
      rintro rfl
      exact Bool.false_ne_true (haw.symm.trans hd)
    exact (Function.update_of_ne hdc _ _).trans (hO.away d hd)
  · rcases hO.rows b s k hh with ⟨hs, hk⟩ | ⟨hs, hk⟩ | hs
    · exact Or.inl ⟨hs, hhome hk⟩
    · exact Or.inr (Or.inl ⟨hs, hhome hk⟩)
    · exact Or.inr (Or.inr hs)
  · have hdc : d ≠ c := by
      rintro rfl
      simp at hd
    exact hO.fans d ((Function.update_of_ne hdc _ _).symm.trans hd)

theorem cell_connect (hO : X.Owned) (hc : X.home c = none) (a b : Side) (k : Key) :
    Pair.cell { X with home := Function.update X.home c (some a) } b k = X.cell b k := by
  have htodo : Pair.todo { X with home := Function.update X.home c (some a) } b k =
      X.todo b k := by
    by_cases hk : k.about = c
    · rw [todo_eq_none (hO.fans c hc) hk]
      exact todo_eq_none (X := { X with home := Function.update X.home c (some a) })
        (hO.fans c hc) hk
    · simp only [todo, Function.update_of_ne hk]
  simp only [cell, htodo]
  rfl

theorem Owned.setFan (hO : X.Owned) (hc : X.home c = some a) (f : Option Fan) :
    (X.setFan c f).Owned := by
  refine ⟨hO.fresh, hO.away, hO.rows, hO.wires, fun d hd => ?_⟩
  have hdc : d ≠ c := by
    rintro rfl
    cases hc.symm.trans hd
  exact (Function.update_of_ne hdc _ _).trans (hO.fans d hd)

theorem Owned.post {ts : List Text} (hO : X.Owned)
    (ht : ∀ text ∈ ts, ∀ s k v, updateOf s text = some (k, v) → X.home k.about = some a) :
    (X.post a ts).Owned := by
  refine ⟨by simpa using hO.fresh, by simpa using hO.away, by simpa using hO.rows,
    fun b text hb k v hu => ?_, by simpa using hO.fans⟩
  rw [post_home]
  rw [post_sid] at hu
  rcases side_cases a b with rfl | rfl
  · rw [post_wire_self] at hb
    exact hO.wires b text hb k v hu
  · rw [post_wire_other] at hb
    rcases List.mem_append.mp hb with hb | hb
    · exact hO.wires _ text hb k v hu
    · split at hb
      · rw [Side.other_other]
        exact ht text hb _ k v hu
      · cases hb

end

end Pair

end Aewt
