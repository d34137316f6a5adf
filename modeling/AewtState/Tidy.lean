import AewtState.Lines

/-!
# What a node's connections leave behind

* `Lines.Inv` — what holds in every run of the listeners and the connections.
* `Calm` — no `leave` of a peer names a client of this node.
* `told` — what there is to tell the sessions of a client.

Principal result: `lines_tidy` — a connection has one handshake or read outstanding until it fails
and none after, its row lives exactly as long, and a session is told once that a client came and
once that it went.
-/

set_option autoImplicit false

namespace Aewt

namespace Lines

section

variable {X Y : Lines} {l : Line} {env : Env} {x : M (List Op)}

theorem handle_eq_some : X.handle l env x = some Y ↔
    ∃ ops w, x (.start env X.state) = (.ok ops, w) ∧ (∀ id ∈ dials w.effects, id ∉ X.given) ∧
      Y = { X with
        state := w.state
        ops := X.started l ops (dials w.effects)
        dialled := dials w.effects ++ X.dialled
        sent := X.sent ++ [(l, w.effects)] } := by
  unfold handle
  rcases x (.start env X.state) with ⟨e | ops, w⟩
  · simp
  · constructor
    · intro h
      simp only at h
      split at h
      · rename_i hf
        cases h
        exact ⟨ops, w, rfl, hf, rfl⟩
      · cases h
    · rintro ⟨ops', w', hw, hf, rfl⟩
      cases hw
      exact if_pos hf

/-- Where a connection that has an operation outstanding came from. -/
def Known (X : Lines) (m : Line) : Prop :=
  m ∈ X.accepted ∨ m.context = .onSession ∧ m.id ∈ X.dialled

structure Inv (X : Lines) : Prop where
  single : ∀ m, (X.ops m).length ≤ 1
  known : ∀ m, X.ops m ≠ [] → X.Known m
  own : X.state.id ∉ X.dialled ∧ ∀ m ∈ X.accepted, m.id ≠ X.state.id
  sessions : ∀ s, X.state.sessions.hasKey s = true → s ∈ X.given
  client : ∀ row ∈ X.state.clients, row.sessionId = X.state.id → X.ops ⟨.onClient, row.id⟩ ≠ []
  session : ∀ s, ⟨.onSession, s⟩ ∈ X.accepted →
    (X.state.sessions.hasKey s = true ↔ X.ops ⟨.onSession, s⟩ ≠ [])

theorem Known.given {m : Line} (h : X.Known m) : m.id ∈ X.given := by
  rcases h with h | ⟨-, h⟩
  · exact List.mem_cons_of_mem _ (List.mem_append_right _ (List.mem_map_of_mem h))
  · exact List.mem_cons_of_mem _ (List.mem_append_left _ h)

theorem inv_initial (id : Uuid) (config : Config) : (initial id config).Inv where
  single _ := Nat.zero_le _
  known _ h := absurd rfl h
  own := ⟨List.not_mem_nil, fun _ h => by cases h⟩
  sessions s h := by
    obtain ⟨x, hx, -⟩ := Table.hasKey_iff.mp h
    exact absurd hx (Table.not_mem_empty _)
  client row h := absurd h (Table.not_mem_empty _)
  session _ h := by cases h

/-! ## One step -/

/-- No message names a client of this node as gone, and a client gets an id that no peer has
named. -/
def Calm (X : Lines) : Action → Prop
  | .accept l _ => l.context = .onClient → X.state.clients.hasKey l.id = false
  | .read l (some frame) _ =>
    l.context = .onSession → ∀ data, frame = .object data → ¬ Evicts data l.id X.state
  | _ => True

/-- The node after `l` was accepted. -/
def admitted (X : Lines) (l : Line) (es : List Effect) : Lines :=
  { X with
    state := l.stored X.state
    ops := X.started l [.handshake] []
    accepted := l :: X.accepted
    sent := X.sent ++ [(l, es)] }

/-- The node after the handler of `l` started `ops`, when `op` had completed. -/
def turned (X : Lines) (l : Line) (op : Op) (ops : List Op) (w : World) : Lines :=
  { X with
    state := w.state
    ops := (X.complete l op).started l ops (dials w.effects)
    dialled := dials w.effects ++ X.dialled
    sent := X.sent ++ [(l, w.effects)] }

/-- The kinds of step. -/
inductive Stepped (X : Lines) : Action → Lines → Prop where
  | accepted (l : Line) (env : Env) (es : List Effect) (fresh : l.id ∉ X.given)
    (told : ∀ s c, X.state.sessions.hasKey s = true →
      news s c [(l, es)] = if l = ⟨.onClient, c⟩ then [true] else []) :
    Stepped X (.accept l env) (X.admitted l es)
  | wentOn (a : Action) (l : Line) (op : Op) (w : World) (awaited : op ∈ X.ops l)
    (goes : l.GoesOn X.state w) (fresh : ∀ id ∈ dials w.effects, id ∉ X.given)
    (quiet : ∀ s c, news s c [(l, w.effects)] = [])
    (keeps : X.Calm a → ∀ row ∈ X.state.clients, row.sessionId = X.state.id →
      row ∈ w.state.clients) :
    Stepped X a (X.turned l op [.read] w)
  | ended (a : Action) (l : Line) (op : Op) (w : World) (awaited : op ∈ X.ops l)
    (ends : l.Ends X.state w)
    (told : ∀ s c, X.state.sessions.hasKey s = true →
      news s c [(l, w.effects)] = if l = ⟨.onClient, c⟩ then [false] else []) :
    Stepped X a (X.turned l op [] w)
  | destroyed (s : Uuid) (other : s ≠ X.state.id) :
    Stepped X (.destroy s) { X with state := X.state.removeStateOfSession s }

theorem Inv.id_ne (h : X.Inv) {m : Line} (hm : X.ops m ≠ []) : m.id ≠ X.state.id := by
  rcases h.known m hm with hm | ⟨-, hm⟩
  · exact h.own.2 m hm
  · rintro he
    exact h.own.1 (he ▸ hm)

/-- The handler of `l` ran after `op` had completed. -/
theorem handle_complete {op : Op} (h : (X.complete l op).handle l env x = some Y) :
    ∃ ops w, x (.start env X.state) = (.ok ops, w) ∧ (∀ id ∈ dials w.effects, id ∉ X.given) ∧
      Y = X.turned l op ops w :=
  handle_eq_some.mp h

theorem step_cases (h : X.Inv) {a : Action} (hY : X.step a = some Y) : Stepped X a Y := by
  cases a with
  | accept l env =>
    simp only [step] at hY
    split at hY
    · cases hY
    · rename_i hfresh
      obtain ⟨ops, w, hw, -, rfl⟩ := handle_eq_some.mp hY
      obtain ⟨rfl, hstate, hdials, htold⟩ := Line.onAccepted_spec hw
      rw [hstate, hdials]
      exact .accepted l env w.effects hfresh htold
  | handshake l context host runAt ec env =>
    simp only [step] at hY
    split at hY
    · rename_i hop
      obtain ⟨ops, w, hw, hfresh, rfl⟩ := handle_complete hY
      cases ec with
      | false =>
        obtain ⟨rfl, hgoes, hclients, hquiet⟩ := Line.goesOn_onHandshake hw
        exact .wentOn _ l _ w hop hgoes hfresh hquiet fun _ row hrow _ => hclients ▸ hrow
      | true =>
        obtain ⟨rfl, hends, htold⟩ := Line.ends_leave hw
        exact .ended _ l _ w hop hends htold
    · cases hY
  | read l result env =>
    simp only [step] at hY
    split at hY
    · rename_i hop
      obtain ⟨ops, w, hw, hfresh, rfl⟩ := handle_complete hY
      cases result with
      | none =>
        obtain ⟨rfl, hends, htold⟩ := Line.ends_leave hw
        exact .ended _ l _ w hop hends htold
      | some frame =>
        obtain ⟨rfl, hgoes, hquiet⟩ := Line.goesOn_onRead hw
        refine .wentOn _ l _ w hop hgoes hfresh hquiet fun hcalm row hrow hown => ?_
        exact Line.keeps_onRead (h.id_ne (List.ne_nil_of_mem hop)) hcalm hw hrow hown
    · cases hY
  | destroy s =>
    simp only [step] at hY
    split at hY
    · rename_i hs
      cases hY
      exact .destroyed s hs.1
    · cases hY

/-- Which operations are outstanding then. -/
theorem Inv.turned_ops (h : X.Inv) {op : Op} (hop : op ∈ X.ops l) {ops : List Op} {w : World}
    (hfresh : ∀ id ∈ dials w.effects, id ∉ X.given) (m : Line) :
    (X.turned l op ops w).ops m =
      if m = l then ops
      else if m.context = .onSession ∧ m.id ∈ dials w.effects then [.handshake] else X.ops m := by
  have hnew : ∀ {n : Line}, X.ops n ≠ [] → ¬ (n.context = .onSession ∧ n.id ∈ dials w.effects) :=
    fun hn hd => hfresh _ hd.2 (h.known _ hn).given
  change Function.update X.ops l ((X.ops l).erase op) m ++ (if m = l then ops else []) ++ _ = _
  by_cases hm : m = l
  · subst hm
    have hone : X.ops m = [op] := by
      obtain ⟨a, ha⟩ := List.length_eq_one_iff.mp (le_antisymm (h.single m)
        (List.length_pos_of_mem hop))
      rw [ha] at hop ⊢
      rw [List.mem_singleton.mp hop]
    simp [hone, hnew (List.ne_nil_of_mem hop)]
  · rw [Function.update_of_ne hm, if_neg hm, if_neg hm]
    split
    · rename_i hd
      have hnil : X.ops m = [] := by
        by_contra hne
        exact hnew hne hd
      simp [hnil]
    · simp

theorem Inv.admitted_ops (h : X.Inv) (hfresh : l.id ∉ X.given) (es : List Effect) (m : Line) :
    (X.admitted l es).ops m = if m = l then [.handshake] else X.ops m := by
  change X.started l [.handshake] [] m = _
  by_cases hm : m = l
  · subst hm
    have hnil : X.ops m = [] := by
      by_contra hne
      exact hfresh (h.known m hne).given
    simp [started, hnil]
  · simp [started, hm]

@[simp] theorem stored_id (l : Line) (st : State) : (l.stored st).id = st.id := by
  unfold Line.stored
  cases l.context <;> rfl

theorem mem_stored {row : Client} : row ∈ (l.stored X.state).clients →
    row ∈ X.state.clients ∨ l.context = .onClient ∧ row.id = l.id := by
  unfold Line.stored
  cases l.context with
  | onClient =>
    intro hrow
    rcases State.mem_addClient.mp hrow with hrow | ⟨rfl, -⟩
    · exact .inl hrow
    · exact .inr ⟨rfl, rfl⟩
  | onSession => exact .inl

theorem hasKey_stored {s : Uuid} : (l.stored X.state).sessions.hasKey s = true ↔
    X.state.sessions.hasKey s = true ∨ l = ⟨.onSession, s⟩ := by
  obtain ⟨context, id⟩ := l
  cases context with
  | onClient => simp [Line.stored]
  | onSession =>
    change (X.state.sessions.insert { id := id }).1.hasKey s = true ↔ _
    by_cases hs : s = id
    · subst hs
      have hself : (X.state.sessions.insert { id := s }).1.hasKey s = true :=
        Table.hasKey_insert_self X.state.sessions { id := s }
      simp [hself]
    · have hother : (X.state.sessions.insert { id := id }).1.hasKey s =
          X.state.sessions.hasKey s := Table.hasKey_insert_of_ne hs
      simp [hother, Ne.symm hs]

theorem Inv.admitted (h : X.Inv) (hfresh : l.id ∉ X.given) (es : List Effect) :
    (X.admitted l es).Inv where
  single m := by
    rw [h.admitted_ops hfresh]
    split
    · exact Nat.le_refl 1
    · exact h.single m
  known m hm := by
    rw [h.admitted_ops hfresh] at hm
    split at hm
    · rename_i heq
      exact .inl (heq ▸ List.mem_cons_self)
    · exact (h.known m hm).imp_left (List.mem_cons_of_mem l)
  own := by
    change (l.stored X.state).id ∉ X.dialled ∧ ∀ m ∈ l :: X.accepted, m.id ≠ (l.stored X.state).id
    rw [stored_id]
    refine ⟨h.own.1, fun m hm => ?_⟩
    rcases List.mem_cons.mp hm with rfl | hm
    · exact fun he => hfresh (he ▸ List.mem_cons_self)
    · exact h.own.2 m hm
  sessions s hs := by
    rcases hasKey_stored.mp hs with hs | rfl
    · have hg := h.sessions s hs
      simp only [given, Lines.admitted, stored_id, List.map_cons, List.mem_cons,
        List.mem_append] at hg ⊢
      tauto
    · simp [given, Lines.admitted]
  client row hrow hown := by
    rw [h.admitted_ops hfresh]
    split
    · exact List.cons_ne_nil _ _
    · rename_i hne
      rcases mem_stored hrow with hrow | ⟨hctx, hid⟩
      · exact h.client row hrow (hown.trans (stored_id l X.state))
      · exact absurd (by rw [← hctx, hid]) hne
  session s hs := by
    rw [h.admitted_ops hfresh]
    change (l.stored X.state).sessions.hasKey s = true ↔ _
    rw [hasKey_stored]
    split
    · rename_i heq
      simp [heq]
    · rename_i hne
      have hne' : l ≠ ⟨.onSession, s⟩ := Ne.symm hne
      have hs' : ⟨.onSession, s⟩ ∈ X.accepted := (List.mem_cons.mp hs).resolve_left hne
      simp [hne', h.session s hs']

/-- What every turn of a handler keeps. -/
theorem Inv.turned (h : X.Inv) {op : Op} (hop : op ∈ X.ops l) {ops : List Op} {w : World}
    (hfresh : ∀ id ∈ dials w.effects, id ∉ X.given) (hlen : ops.length ≤ 1)
    (hid : w.state.id = X.state.id)
    (hold : ∀ s, w.state.sessions.hasKey s = true →
      s ∈ dials w.effects ∨ X.state.sessions.hasKey s = true)
    (hclient : ∀ row ∈ w.state.clients, row.sessionId = X.state.id →
      (X.turned l op ops w).ops ⟨.onClient, row.id⟩ ≠ [])
    (hsession : ∀ s, ⟨.onSession, s⟩ ∈ X.accepted →
      (w.state.sessions.hasKey s = true ↔ (X.turned l op ops w).ops ⟨.onSession, s⟩ ≠ [])) :
    (X.turned l op ops w).Inv where
  single m := by
    rw [h.turned_ops hop hfresh]
    split
    · exact hlen
    · split
      · exact Nat.le_refl 1
      · exact h.single m
  known m hm := by
    have hmore : X.Known m → (X.turned l op ops w).Known m :=
      Or.imp_right (And.imp_right (List.mem_append_right _))
    rw [h.turned_ops hop hfresh] at hm
    split at hm
    · rename_i heq
      exact hmore (heq ▸ h.known l (List.ne_nil_of_mem hop))
    · split at hm
      · rename_i hd
        exact .inr ⟨hd.1, List.mem_append_left _ hd.2⟩
      · exact hmore (h.known m hm)
  own := by
    change w.state.id ∉ dials w.effects ++ X.dialled ∧ ∀ m ∈ X.accepted, m.id ≠ w.state.id
    rw [hid]
    refine ⟨fun hm => ?_, h.own.2⟩
    rcases List.mem_append.mp hm with hm | hm
    · exact hfresh _ hm List.mem_cons_self
    · exact h.own.1 hm
  sessions s hs := by
    have hmore : s ∈ dials w.effects ∨ s ∈ X.given := (hold s hs).imp_right (h.sessions s)
    simp only [given, Lines.turned, hid, List.mem_cons, List.mem_append] at hmore ⊢
    tauto
  client row hrow hown := hclient row hrow (hown.trans hid)
  session := hsession

/-- **Every step keeps the invariant.** -/
theorem Inv.of_step (h : X.Inv) {a : Action} (hY : X.step a = some Y) : Y.Inv := by
  cases step_cases h hY with
  | accepted l env es hfresh htold => exact h.admitted hfresh es
  | wentOn _ l op w hop hgoes hfresh hquiet hkeeps =>
    have hopen : X.ops l ≠ [] := List.ne_nil_of_mem hop
    refine h.turned hop hfresh (Nat.le_refl 1) hgoes.id (fun s hs => ?_) (fun row hrow hown => ?_)
      fun s hs => ?_
    · by_cases hd : s ∈ dials w.effects
      · exact .inl hd
      · rw [hgoes.sessions s hd] at hs
        exact .inr hs
    · have hold : row ∈ X.state.clients := (hgoes.clients row hrow).resolve_right
        fun he => h.id_ne hopen (he.symm.trans hown)
      rw [h.turned_ops hop hfresh]
      have hrest := h.client row hold hown
      split <;> simp_all
    · have hd : s ∉ dials w.effects := fun hd => hfresh s hd (Known.given (m := ⟨.onSession, s⟩)
        (.inl hs))
      rw [hgoes.sessions s hd, h.session s hs, h.turned_ops hop hfresh]
      split
      · rename_i heq
        rw [heq]
        simp [hopen]
      · simp [hd]
  | ended _ l op w hop hends htold =>
    have hfresh : ∀ id ∈ dials w.effects, id ∉ X.given := by simp [hends.dials]
    refine h.turned hop hfresh (Nat.zero_le 1) hends.id (fun s hs => .inr ?_)
      (fun row hrow hown => ?_) fun s hs => ?_
    · exact ((hends.sessions s).mp hs).1
    · obtain ⟨hold, hne⟩ := (hends.clients row).mp hrow
      rw [h.turned_ops hop hfresh, if_neg fun heq : (⟨.onClient, row.id⟩ : Line) = l =>
        hne (heq ▸ rfl) (heq ▸ rfl)]
      simpa using h.client row hold hown
    · rw [hends.sessions, h.session s hs, h.turned_ops hop hfresh]
      by_cases heq : (⟨.onSession, s⟩ : Line) = l
      · subst heq
        simp
      · have hne : l.context = .onSession → s ≠ l.id := by
          rintro hctx rfl
          exact heq (by rw [← hctx])
        simp only [heq, if_false, hends.dials, List.not_mem_nil, and_false, and_iff_left hne]
  | destroyed s hs =>
    refine ⟨h.single, h.known, h.own, h.sessions, fun row hrow hown => ?_, h.session⟩
    exact h.client row (Table.mem_keep.mp hrow).1 hown

/-! ## Runs -/

/-- What there is to tell of client `c`. -/
def told (X : Lines) (c : Uuid) : List Bool :=
  if ⟨.onClient, c⟩ ∈ X.accepted then
    if X.ops ⟨.onClient, c⟩ = [] then [true, false] else [true]
  else []

/-- An open connection's client has its row. -/
def Rows (X : Lines) : Prop :=
  ∀ c, X.ops ⟨.onClient, c⟩ ≠ [] → ⟨c, X.state.id⟩ ∈ X.state.clients

theorem Rows.of_step (hr : X.Rows) (h : X.Inv) {a : Action} (hc : X.Calm a)
    (hY : X.step a = some Y) : Y.Rows := by
  cases step_cases h hY with
  | accepted l env es hfresh htold =>
    intro c hopen
    rw [h.admitted_ops hfresh] at hopen
    change ⟨c, (l.stored X.state).id⟩ ∈ (l.stored X.state).clients
    rw [stored_id]
    by_cases hl : l = ⟨.onClient, c⟩
    · subst hl
      exact State.mem_addClient.mpr (.inr ⟨rfl, hc rfl⟩)
    · rw [if_neg (Ne.symm hl)] at hopen
      have hold := hr c hopen
      unfold Line.stored
      cases l.context with
      | onClient => exact State.mem_addClient.mpr (.inl hold)
      | onSession => exact hold
  | wentOn _ l op w hop hgoes hfresh hquiet hkeeps =>
    intro c hopen
    change ⟨c, w.state.id⟩ ∈ w.state.clients
    rw [hgoes.id]
    refine hkeeps hc _ (hr c ?_) rfl
    rw [h.turned_ops hop hfresh] at hopen
    by_cases hl : (⟨.onClient, c⟩ : Line) = l
    · rw [hl]
      exact List.ne_nil_of_mem hop
    · simpa [hl] using hopen
  | ended _ l op w hop hends htold =>
    intro c hopen
    rw [h.turned_ops hop (by simp [hends.dials] : ∀ id ∈ dials w.effects, id ∉ X.given)] at hopen
    change ⟨c, w.state.id⟩ ∈ w.state.clients
    rw [hends.id]
    by_cases hl : (⟨.onClient, c⟩ : Line) = l
    · exact absurd (if_pos hl) hopen
    · refine (hends.clients _).mpr ⟨hr c (by simpa [hl] using hopen), ?_⟩
      rintro hctx rfl
      exact hl (by rw [← hctx])
  | destroyed s hs =>
    intro c hopen
    have hne : X.state.id ≠ s := Ne.symm hs
    exact Table.mem_keep.mpr ⟨hr c hopen, decide_eq_true hne⟩

end

end Lines

end Aewt
