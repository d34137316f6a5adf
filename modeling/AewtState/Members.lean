import AewtState.Mesh

/-!
# What holds of a mesh in every run

* `Row` — what a session object says of the node at the other end.
* `Said`, `Doing` — what is on its way to an end, and what a handler can have to do: every
  node named in either has been started.
* `Sound` — the invariant.

Principal results: `Sound.known` — a session handler finds a session only with the node that it was
told of; `Sound.starts`, `Sound.connects`, `Sound.enters`, `Sound.accepts` — these steps keep the
invariant.
-/

set_option autoImplicit false

namespace Aewt

namespace Mesh

variable {N : Type} (S : Sites N)

/-- The session object behind an end.  The host is set by `on_accept`; the ports by the opener
at once, at the other end by the registration. -/
structure Row (up : List (End N)) (r : End N) (s : Session) : Prop where
  id : s.id = r.id
  host : r ∈ up → s.host = S.host r.peer
  noHost : r ∉ up → s.host = ""
  ports : s.registered = true ∨ r.context = .remote →
    s.sessionsPort = (S.config r.peer).sessionsPort ∧
      s.clientsPort = (S.config r.peer).clientsPort
  noPorts : s.registered = false → r.context = .accepting → s.sessionsPort = 0
  registered : s.registered = true → r.context = .accepting ∧ r ∈ up

/-- A text on its way to the end `r`: an opener registers, and is told of nodes. -/
inductive Said (X : Mesh N) (r : End N) : Command → Prop where
  | register (made : r ∈ X.ends) (context : r.context = .accepting) (b : Bool) :
    Said X r (.register (S.config r.peer).sessionsPort.toUInt64
      (S.config r.peer).clientsPort.toUInt64 b)
  | naming (made : r ∈ X.ends) (context : r.context = .remote) (k : N) (known : k ∈ X.started) :
    Said X r (S.naming k)

/-- A task.  Only a start and an opener's end connect, and only to a node that was started. -/
inductive Doing (X : Mesh N) : Task N → Prop where
  | sync (r : End N) (made : r ∈ X.ends) (context : r.context = .accepting) :
    Doing X ⟨.strand r, .sync⟩
  | test (r : End N) (rest : List Uuid) (made : r ∈ X.ends) (context : r.context = .accepting) :
    Doing X ⟨.strand r, .test rest⟩
  | start (n k : N) (here : n ∈ X.started) (known : k ∈ X.started) :
    Doing X ⟨.main n, S.dial k⟩
  | dial (r : End N) (k : N) (made : r ∈ X.ends) (context : r.context = .remote)
    (known : k ∈ X.started) : Doing X ⟨.strand r, S.dial k⟩
  | enter (w : Worker N) (r : End N) (made : r ∈ X.ends) (here : r.node = w.node)
    (context : r.context = .remote) : Doing X ⟨w, .enter r⟩

structure Sound (X : Mesh N) : Prop where
  unique : ∀ r ∈ X.ends, ∀ q ∈ X.ends, r.node = q.node → r.id = q.id → r = q
  other : ∀ r ∈ X.ends, r.other ∈ X.ends
  started : ∀ r ∈ X.ends, r.node ∈ X.started
  own : ∀ r ∈ X.ends, r.id ≠ S.id r.node
  listening : ∀ n ∈ X.listening, n ∈ X.started
  up : ∀ r ∈ X.up, r ∈ X.ends
  inMap : ∀ r ∈ X.inMap, r ∈ X.ends
  accepting : ∀ r ∈ X.ends, r.context = .accepting → r ∈ X.inMap
  entering : ∀ r ∈ X.ends, r ∉ X.inMap → ∃ w, ⟨w, .enter r⟩ ∈ X.tasks
  id : ∀ n, (X.objects n).id = S.id n
  config : ∀ n, (X.objects n).config.sessionsPort = (S.config n).sessionsPort ∧
    (X.objects n).config.clientsPort = (S.config n).clientsPort
  object : ∀ r ∈ X.ends, ∃ s ∈ (X.objects r.node).sessions, Row S X.up r s
  row : ∀ n, ∀ s ∈ (X.objects n).sessions, ∃ r ∈ X.ends, r.node = n ∧ r.id = s.id
  wire : ∀ r, ∀ m ∈ X.wire r, Said S X r m.command
  task : ∀ t ∈ X.tasks, Doing S X t

/-! ## Addresses -/

variable {S}

/-- An address is that of one node. -/
theorem dial_injective {k l : N} (h : S.dial k = S.dial l) : k = l := by
  simp only [Sites.dial, Job.connect.injEq] at h
  exact S.injective h.1 (UInt16.toUInt64_inj.mp h.2.1)

@[simp] theorem dial_inj {k l : N} : S.dial k = S.dial l ↔ k = l :=
  ⟨dial_injective, fun h => h ▸ rfl⟩

theorem naming_injective {k l : N} (h : S.naming k = S.naming l) : k = l := by
  simp only [Sites.naming, Command.session.injEq] at h
  exact S.injective h.1 (UInt16.toUInt64_inj.mp h.2.1)

/-! ## Growing -/

/-- What a handler that is to connect was told. -/
theorem Doing.connect {X : Mesh N} {w : Worker N} {host : String} {sp cp : UInt64}
    (h : Doing S X ⟨w, .connect host sp cp⟩) :
    ∃ k, k ∈ X.started ∧ .connect host sp cp = S.dial k ∧
      ((∃ n ∈ X.started, w = .main n) ∨
        ∃ r ∈ X.ends, r.context = .remote ∧ w = .strand r) := by
  generalize ht : (⟨w, .connect host sp cp⟩ : Task N) = t at h
  cases h with
  | sync r => cases ht
  | test r rest => cases ht
  | start n k here known =>
    cases ht
    exact ⟨k, known, rfl, .inl ⟨n, here, rfl⟩⟩
  | dial r k made context known =>
    cases ht
    exact ⟨k, known, rfl, .inr ⟨r, made, context, rfl⟩⟩
  | enter w r => cases ht

variable {X Y : Mesh N} {r q : End N} {s : Session}

theorem Said.mono (hs : X.started ⊆ Y.started) (he : X.ends ⊆ Y.ends) {c : Command}
    (h : Said S X r c) : Said S Y r c := by
  cases h with
  | register made context b => exact .register (he made) context b
  | naming made context k known => exact .naming (he made) context k (hs known)

theorem Doing.mono (hs : X.started ⊆ Y.started) (he : X.ends ⊆ Y.ends) {t : Task N}
    (h : Doing S X t) : Doing S Y t := by
  cases h with
  | sync r made context => exact .sync r (he made) context
  | test r rest made context => exact .test r rest (he made) context
  | start n k here known => exact .start n k (hs here) (hs known)
  | dial r k made context known => exact .dial r k (he made) context (hs known)
  | enter w r made here context => exact .enter w r (he made) here context

/-- The rest of `sync`'s loop is a task of its end. -/
theorem doing_testing (hr : r ∈ X.ends) (hc : r.context = .accepting)
    (rest : List Uuid) : ∀ t ∈ testing r rest, Doing S X t := by
  intro t ht
  unfold testing at ht
  split at ht
  · cases ht
  · rw [List.mem_singleton] at ht
    subst ht
    exact .test r rest hr hc

/-- A session object depends on whether its own end is up. -/
theorem Row.congr {up up' : List (End N)} (hu : r ∈ up' ↔ r ∈ up) (h : Row S up r s) :
    Row S up' r s where
  id := h.id
  host hr := h.host (hu.mp hr)
  noHost hr := h.noHost (mt hu.mpr hr)
  ports := h.ports
  noPorts := h.noPorts
  registered hr := ⟨(h.registered hr).1, hu.mpr (h.registered hr).2⟩

/-! ## Finding the object of an end -/

namespace Sound

variable (h : Sound S X)

include h

/-- The object of an end is the row with its id. -/
theorem row_of_mem {r : End N} (hr : r ∈ X.ends) {s : Session}
    (hs : s ∈ (X.objects r.node).sessions) (hid : s.id = r.id) : Row S X.up r s := by
  obtain ⟨s', hs', hrow⟩ := h.object r hr
  rwa [Table.eq_of_key hs hs' (hid.trans hrow.id.symm)]

/-- An unused id is the key of no object. -/
theorem hasKey_of_unused {n : N} {x : Uuid} (hx : X.Unused S n x) :
    (X.objects n).sessions.hasKey x = false := by
  rw [Table.hasKey_eq_false]
  intro s hs hid
  obtain ⟨r, hr, hn, hrid⟩ := h.row n s hs
  exact hx.2 r hr hn (hrid.trans hid)

end Sound

section

variable [DecidableEq N]

theorem mem_map {n : N} {s : Session} :
    s ∈ (X.map n).sessions ↔
      s ∈ (X.objects n).sessions ∧ ∃ r ∈ X.inMap, r.node = n ∧ r.id = s.id := by
  simp [map]

/-- A session handler finds a session only with the node that it was told of. -/
theorem Sound.known (h : Sound S X) {n k : N}
    (hk : isKnown (X.map n) (S.host k) (S.config k).sessionsPort.toUInt64
      (S.config k).clientsPort.toUInt64 = true) :
    ∃ r ∈ X.ends, r.node = n ∧ r.peer = k := by
  simp only [isKnown, State.getSessions, List.any_eq_true, decide_eq_true_eq] at hk
  obtain ⟨s, hs, hhost, hport, -⟩ := hk
  obtain ⟨hs, -⟩ := mem_map.mp hs
  obtain ⟨r, hr, rfl, hid⟩ := h.row n s hs
  have hrow := h.row_of_mem hr hs hid.symm
  have hport := UInt16.toUInt64_inj.mp hport
  refine ⟨r, hr, rfl, ?_⟩
  by_cases hup : r ∈ X.up
  · rw [hrow.host hup] at hhost
    by_cases hp : s.registered = true ∨ r.context = .remote
    · exact S.injective hhost ((hrow.ports hp).1.symm.trans hport)
    · push Not at hp
      have hc : r.context = .accepting := by
        cases hc : r.context with
        | accepting => rfl
        | remote => exact absurd hc hp.2
      rw [hrow.noPorts (by simpa using hp.1) hc] at hport
      exact absurd hport.symm (S.port_ne k)
  · rw [hrow.noHost hup] at hhost
    exact absurd hhost.symm (S.host_ne k)

/-! ## What the steps do to the objects -/

theorem mem_objects_add {n k : N} {a s : Session}
    (h : (X.objects n).sessions.hasKey a.id = false) :
    s ∈ ((X.modify n fun st => (st.addSession a).1).objects k).sessions ↔
      s ∈ (X.objects k).sessions ∨ k = n ∧ s = a := by
  simp only [modify]
  by_cases hk : k = n
  · subst hk
    rw [Function.update_self]
    refine Table.mem_insert.trans ?_
    simp [h]
  · simp [hk]

/-- What an update of one node's objects leaves alone. -/
theorem objects_modify {β : Type} (g : State → β) (f : State → State)
    (hg : ∀ st, g (f st) = g st) (n k : N) :
    g ((X.modify n f).objects k) = g (X.objects k) := by
  simp only [modify]
  by_cases hk : k = n
  · rw [hk, Function.update_self, hg]
  · rw [Function.update_of_ne hk]

/-- A connect makes two objects. -/
theorem mem_objects_connects (h : Sound S X) (t : Task N) (r : End N) (sp cp : UInt64)
    (hx : X.Unused S r.node r.id) (hy : X.Unused S r.peer r.peerId)
    (hne : ¬ (r.node = r.peer ∧ r.id = r.peerId)) {k : N} {s : Session} :
    s ∈ ((X.connects t r sp cp).objects k).sessions ↔
      s ∈ (X.objects k).sessions ∨ k = r.node ∧ s = dialled r.id sp cp ∨
        k = r.peer ∧ s = { id := r.peerId } := by
  have hkey : ((X.modify r.node fun st => (st.addSession (dialled r.id sp cp)).1).objects
      r.peer).sessions.hasKey r.peerId = false := by
    rw [Table.hasKey_eq_false]
    intro s hs hid
    rcases (mem_objects_add (h.hasKey_of_unused hx)).mp hs with hs | ⟨hn, rfl⟩
    · exact Table.hasKey_eq_false.mp (h.hasKey_of_unused hy) s hs hid
    · exact hne ⟨hn.symm, hid⟩
  refine (mem_objects_add hkey).trans ?_
  rw [mem_objects_add (h.hasKey_of_unused hx), or_assoc]

/-- Changing the object behind one end. -/
theorem objects_adjust (h : Sound S X) {r : End N} (hr : r ∈ X.ends) (f : Session → Session)
    (hf : ∀ s, (f s).id = s.id) (st : State)
    (hst : st.sessions = (X.objects r.node).sessions.adjust r.id f hf)
    (hY : Y.objects = Function.update X.objects r.node st)
    (hnew : ∀ s, Row S X.up r s → Row S Y.up r (f s))
    (hold : ∀ q ∈ X.ends, q ≠ r → ∀ s, Row S X.up q s → Row S Y.up q s) :
    (∀ q ∈ X.ends, ∃ s ∈ (Y.objects q.node).sessions, Row S Y.up q s) ∧
      ∀ n, ∀ s ∈ (Y.objects n).sessions, ∃ q ∈ X.ends, q.node = n ∧ q.id = s.id := by
  constructor
  · intro q hq
    obtain ⟨s, hs, hrow⟩ := h.object q hq
    by_cases hqr : q = r
    · subst hqr
      refine ⟨f s, ?_, hnew s hrow⟩
      rw [hY, Function.update_self, hst]
      exact Table.mem_adjust.mpr ⟨s, hs, if_pos hrow.id⟩
    · refine ⟨s, ?_, hold q hq hqr s hrow⟩
      rw [hY]
      by_cases hn : q.node = r.node
      · rw [hn, Function.update_self, hst]
        have hid : s.id ≠ r.id := by
          intro hid
          exact hqr (h.unique q hq r hr hn (hrow.id.symm.trans hid))
        exact (Table.mem_adjust_of_ne hf hid).mpr (hn ▸ hs)
      · rwa [Function.update_of_ne hn]
  · intro n s hs
    rw [hY] at hs
    by_cases hn : n = r.node
    · subst hn
      rw [Function.update_self, hst] at hs
      obtain ⟨s', hs', rfl⟩ := Table.mem_adjust.mp hs
      obtain ⟨q, hq, hqn, hqid⟩ := h.row r.node s' hs'
      refine ⟨q, hq, hqn, ?_⟩
      split
      · rw [hf, hqid]
      · exact hqid
    · rw [Function.update_of_ne hn] at hs
      exact h.row n s hs

/-! ## One step -/

namespace Sound

variable (h : Sound S X)

include h

omit [DecidableEq N] in
theorem starts {n e : N} (he : e ∈ X.listening) : Sound S (X.starts S n e) := by
  have hs : X.started ⊆ (X.starts S n e).started := List.subset_append_left _ _
  have hends : X.ends ⊆ (X.starts S n e).ends := List.Subset.refl _
  exact {
    unique := h.unique
    other := h.other
    started := fun r hr => hs (h.started r hr)
    own := h.own
    listening := fun k hk => hs (h.listening k hk)
    up := h.up
    inMap := h.inMap
    accepting := h.accepting
    entering := fun r hr hm => by
      obtain ⟨w, hw⟩ := h.entering r hr hm
      exact ⟨w, List.mem_append_left _ hw⟩
    id := h.id
    config := h.config
    object := h.object
    row := h.row
    wire := fun r m hm => (h.wire r m hm).mono hs hends
    task := fun t ht => by
      rcases List.mem_append.mp ht with ht | ht
      · exact (h.task t ht).mono hs hends
      · rw [List.mem_singleton] at ht
        subst ht
        exact .start n e (List.mem_append_right _ (List.mem_singleton_self n))
          (hs (h.listening e he)) }

theorem connects {w : Worker N} {r : End N} (hw : r.node = w.node) (hc : r.context = .remote)
    (ht : ⟨w, S.dial r.peer⟩ ∈ X.tasks) (hl : r.peer ∈ X.listening)
    (hx : X.Unused S r.node r.id) (hy : X.Unused S r.peer r.peerId)
    (hne : ¬ (r.node = r.peer ∧ r.id = r.peerId)) :
    Sound S (X.connects ⟨w, S.dial r.peer⟩ r (S.config r.peer).sessionsPort.toUInt64
      (S.config r.peer).clientsPort.toUInt64) := by
  set Y := X.connects ⟨w, S.dial r.peer⟩ r (S.config r.peer).sessionsPort.toUInt64
    (S.config r.peer).clientsPort.toUInt64 with hY
  have hs : X.started ⊆ Y.started := List.Subset.refl _
  have hends : X.ends ⊆ Y.ends := List.subset_append_left _ _
  have hmem : ∀ q ∈ Y.ends, q ∈ X.ends ∨ q = r ∨ q = r.other := by
    intro q hq
    simpa [hY, Mesh.connects] using hq
  have hr : r ∈ Y.ends := by simp [hY, Mesh.connects]
  have hro : r.other ∈ Y.ends := by simp [hY, Mesh.connects]
  have hnew : r ∉ X.ends := fun hm => hx.2 r hm rfl rfl
  have hnewo : r.other ∉ X.ends := fun hm => hy.2 r.other hm rfl rfl
  have hnode : r.node ∈ X.started := by
    obtain ⟨-, -, -, ⟨n, hn, rfl⟩ | ⟨q, hq, -, rfl⟩⟩ := (h.task _ ht).connect
    · exact hw ▸ hn
    · exact hw ▸ h.started q hq
  have hobj : ∀ {k s}, s ∈ (Y.objects k).sessions ↔ _ :=
    mem_objects_connects h _ _ _ _ hx hy hne
  have hstate : ∀ {β : Type} (g : State → β), (∀ st a, g (State.addSession st a).1 = g st) →
      ∀ k, g (Y.objects k) = g (X.objects k) := by
    intro β g hg k
    exact (objects_modify g _ (fun st => hg st _) _ k).trans
      (objects_modify g _ (fun st => hg st _) _ k)
  exact {
    unique := by
      intro p hp q hq hn hid
      rcases hmem p hp with hpX | rfl | rfl <;> rcases hmem q hq with hqX | rfl | rfl
      · exact h.unique p hpX q hqX hn hid
      · exact absurd hid (hx.2 p hpX hn)
      · exact absurd hid (hy.2 p hpX hn)
      · exact absurd hid.symm (hx.2 q hqX hn.symm)
      · rfl
      · exact absurd ⟨hn, hid⟩ hne
      · exact absurd hid.symm (hy.2 q hqX hn.symm)
      · exact absurd ⟨hn.symm, hid.symm⟩ hne
      · rfl
    other := by
      intro q hq
      rcases hmem q hq with hq | rfl | rfl
      · exact hends (h.other q hq)
      · exact hro
      · rwa [End.other_other]
    started := by
      intro q hq
      rcases hmem q hq with hq | rfl | rfl
      · exact h.started q hq
      · exact hnode
      · exact h.listening _ hl
    own := by
      intro q hq
      rcases hmem q hq with hq | rfl | rfl
      · exact h.own q hq
      · exact hx.1
      · exact hy.1
    listening := h.listening
    up := fun q hq => hends (h.up q hq)
    inMap := by
      intro q hq
      rcases List.mem_append.mp hq with hq | hq
      · exact hends (h.inMap q hq)
      · rw [List.mem_singleton] at hq
        exact hq ▸ hro
    accepting := by
      intro q hq hqc
      rcases hmem q hq with hq | rfl | rfl
      · exact List.mem_append_left _ (h.accepting q hq hqc)
      · rw [hc] at hqc
        cases hqc
      · exact List.mem_append_right _ (List.mem_singleton_self _)
    entering := by
      intro q hq hm
      rcases hmem q hq with hq | rfl | rfl
      · obtain ⟨w', hw'⟩ := h.entering q hq fun hm' => hm (List.mem_append_left _ hm')
        refine ⟨w', List.mem_append_left _ ((List.mem_erase_of_ne ?_).mpr hw')⟩
        simp [Sites.dial]
      · exact ⟨w, List.mem_append_right _ (List.mem_singleton_self _)⟩
      · exact absurd (List.mem_append_right _ (List.mem_singleton_self _)) hm
    id := fun n => (hstate State.id (fun _ _ => rfl) n).trans (h.id n)
    config := fun n => by
      have hconfig := hstate State.config (fun _ _ => rfl) n
      rw [hconfig]
      exact h.config n
    object := by
      intro q hq
      rcases hmem q hq with hq | rfl | rfl
      · obtain ⟨s, hs, hrow⟩ := h.object q hq
        exact ⟨s, hobj.mpr (.inl hs), hrow⟩
      · refine ⟨_, hobj.mpr (.inr (.inl ⟨rfl, rfl⟩)), ?_⟩
        exact {
          id := rfl
          host := fun hu => absurd (h.up _ hu) hnew
          noHost := fun _ => rfl
          ports := fun _ => ⟨UInt16.toUInt16_toUInt64 _, UInt16.toUInt16_toUInt64 _⟩
          noPorts := fun _ hqc => by
            rw [hc] at hqc
            cases hqc
          registered := fun hreg => by cases hreg }
      · refine ⟨_, hobj.mpr (.inr (.inr ⟨rfl, rfl⟩)), ?_⟩
        exact {
          id := rfl
          host := fun hu => absurd (h.up _ hu) hnewo
          noHost := fun _ => rfl
          ports := fun hp => by simp [hc, SessionContext.other] at hp
          noPorts := fun _ _ => rfl
          registered := fun hreg => by cases hreg }
    row := by
      intro n s hs
      rcases hobj.mp hs with hs | ⟨rfl, rfl⟩ | ⟨rfl, rfl⟩
      · obtain ⟨q, hq, hqn⟩ := h.row n s hs
        exact ⟨q, hends hq, hqn⟩
      · exact ⟨r, hr, rfl, rfl⟩
      · exact ⟨r.other, hro, rfl, rfl⟩
    wire := fun q m hm => (h.wire q m hm).mono hs hends
    task := by
      intro t ht
      rcases List.mem_append.mp ht with ht | ht
      · exact (h.task t (List.mem_of_mem_erase ht)).mono hs hends
      · rw [List.mem_singleton] at ht
        subst ht
        exact .enter w r hr hw hc }

theorem enters {w : Worker N} {r : End N} (ht : ⟨w, .enter r⟩ ∈ X.tasks) :
    Sound S (X.enters w r) := by
  have hs : X.started ⊆ (X.enters w r).started := List.Subset.refl _
  have hends : X.ends ⊆ (X.enters w r).ends := List.Subset.refl _
  have hr : r ∈ X.ends ∧ r.node = w.node := by
    cases h.task _ ht with
    | enter _ _ made here context => exact ⟨made, here⟩
  exact {
    unique := h.unique
    other := h.other
    started := h.started
    own := h.own
    listening := by
      intro n hn
      cases w with
      | main k =>
        rcases List.mem_append.mp hn with hn | hn
        · exact h.listening n hn
        · rw [List.mem_singleton] at hn
          have hk : r.node = n := hr.2.trans hn.symm
          exact hk ▸ h.started r hr.1
      | strand q => exact h.listening n hn
    up := h.up
    inMap := by
      intro q hq
      rcases List.mem_append.mp hq with hq | hq
      · exact h.inMap q hq
      · rw [List.mem_singleton] at hq
        exact hq ▸ hr.1
    accepting := fun q hq hqc => List.mem_append_left _ (h.accepting q hq hqc)
    entering := by
      intro q hq hm
      obtain ⟨w', hw'⟩ := h.entering q hq fun hm' => hm (List.mem_append_left _ hm')
      refine ⟨w', List.mem_append_left _ ((List.mem_erase_of_ne ?_).mpr hw')⟩
      rintro heq
      cases heq
      exact hm (List.mem_append_right _ (List.mem_singleton_self _))
    id := h.id
    config := h.config
    object := h.object
    row := h.row
    wire := fun q m hm => (h.wire q m hm).mono hs hends
    task := by
      intro t ht
      rcases List.mem_append.mp ht with ht | ht
      · exact (h.task t (List.mem_of_mem_erase ht)).mono hs hends
      · cases ht }

theorem accepts {r : End N} {t : Uuid} (hr : r ∈ X.ends) (hup : r ∉ X.up) :
    Sound S (X.accepts S r t) := by
  set Y := X.accepts S r t with hY
  have hs : X.started ⊆ Y.started := List.Subset.refl _
  have hends : X.ends ⊆ Y.ends := List.Subset.refl _
  have hrY : r ∈ Y.up := List.mem_append_right _ (List.mem_singleton_self r)
  have hobj := objects_adjust (Y := Y) h hr (fun s => { s with host := S.host r.peer })
    (fun _ => rfl) (accepted S r (X.objects r.node)) (by
      unfold accepted
      split <;> rfl) rfl
    (fun s hrow => {
      id := hrow.id
      host := fun _ => rfl
      noHost := fun hn => absurd hrY hn
      ports := hrow.ports
      noPorts := hrow.noPorts
      registered := fun hreg => absurd (hrow.registered hreg).2 hup })
    (fun q hq hne s hrow => hrow.congr (by simp [hY, Mesh.accepts, hne]))
  exact {
    unique := h.unique
    other := h.other
    started := h.started
    own := h.own
    listening := h.listening
    up := by
      intro q hq
      rcases List.mem_append.mp hq with hq | hq
      · exact h.up q hq
      · rw [List.mem_singleton] at hq
        exact hq ▸ hr
    inMap := h.inMap
    accepting := h.accepting
    entering := h.entering
    id := fun n => by
      refine (objects_modify State.id (accepted S r) (fun st => ?_) r.node n).trans (h.id n)
      unfold accepted
      split <;> rfl
    config := fun n => by
      have hconfig := objects_modify (X := X) (fun st => (st.config.sessionsPort,
        st.config.clientsPort)) (accepted S r) (fun st => by
          unfold accepted
          split <;> rfl) r.node n
      simp only [Prod.mk.injEq] at hconfig
      exact ⟨hconfig.1.trans (h.config n).1, hconfig.2.trans (h.config n).2⟩
    object := hobj.1
    row := hobj.2
    wire := by
      intro q m hm
      by_cases hnew : r.context = .remote ∧ q = r.other ∧
          m = .register t (X.objects r.node).config
      · obtain ⟨hc, rfl, rfl⟩ := hnew
        have hsaid : Said S Y r.other _ := .register (hends (h.other r hr))
          (by simp [hc, SessionContext.other]) (X.objects r.node).config.registered
        simpa [Notice.command, h.config] using hsaid
      · refine (h.wire q m ?_).mono hs hends
        cases hc : r.context with
        | accepting => simpa [hY, Mesh.accepts, hc] using hm
        | remote =>
          simp only [hY, Mesh.accepts, hc, deliver] at hm
          by_cases hq : q = r.other
          · subst hq
            rw [Function.update_self, List.mem_append, List.mem_singleton] at hm
            exact hm.resolve_right fun hm' => hnew ⟨hc, rfl, hm'⟩
          · rwa [Function.update_of_ne hq] at hm
    task := fun t ht => (h.task t ht).mono hs hends }

end Sound

end

end Mesh

end Aewt
