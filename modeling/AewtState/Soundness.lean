import AewtState.Members

/-!
# Every run of a mesh is sound

Principal results: `Sound.of_step`, `sound_of_run`; `register_alone`, `sync_alone`,
`session_alone` — the steps of a handler that nothing interrupts do what the handler does.
-/

set_option autoImplicit false

namespace Aewt

namespace Mesh

variable {N : Type} {S : Sites N} {X Y : Mesh N} {r q : End N} {s : Session}

section

variable [DecidableEq N]

namespace Sound

variable (h : Sound S X)

include h

/-! ### The parts of a handler -/

omit [DecidableEq N] in
/-- Texts and tasks come and go; a session that is to be entered stays so. -/
theorem requeue {wire : End N → List Notice} {tasks : List (Task N)}
    (hw : ∀ r, ∀ m ∈ wire r, Said S X r m.command) (ht : ∀ t ∈ tasks, Doing S X t)
    (henter : ∀ w r, ⟨w, .enter r⟩ ∈ X.tasks → ⟨w, .enter r⟩ ∈ tasks) :
    Sound S { X with wire := wire, tasks := tasks } where
  unique := h.unique
  other := h.other
  started := h.started
  own := h.own
  listening := h.listening
  up := h.up
  inMap := h.inMap
  accepting := h.accepting
  entering r hr hm := by
    obtain ⟨w, hw⟩ := h.entering r hr hm
    exact ⟨w, henter w r hw⟩
  id := h.id
  config := h.config
  object := h.object
  row := h.row
  wire r m hm := Said.mono (X := X) (Y := { X with wire := wire, tasks := tasks })
    (List.Subset.refl _) (List.Subset.refl _) (hw r m hm)
  task t hd := Doing.mono (X := X) (Y := { X with wire := wire, tasks := tasks })
    (List.Subset.refl _) (List.Subset.refl _) (ht t hd)

omit [DecidableEq N] in
theorem assign {ts : List (Task N)} (hts : ∀ t ∈ ts, Doing S X t) : Sound S (X.assign ts) :=
  h.requeue h.wire (fun t ht => (List.mem_append.mp ht).elim (h.task t) (hts t))
    fun _ _ ht => List.mem_append_left _ ht

/-- A task that enters nothing is replaced. -/
theorem proceed {t : Task N} {ts : List (Task N)} (ht : ∀ r, t.job ≠ .enter r)
    (hts : ∀ u ∈ ts, Doing S X u) : Sound S (X.proceed t ts) := by
  refine h.requeue h.wire (fun u hu => ?_) fun w r hw => ?_
  · rcases List.mem_append.mp hu with hu | hu
    · exact h.task u (List.mem_of_mem_erase hu)
    · exact hts u hu
  · refine List.mem_append_left _ ((List.mem_erase_of_ne ?_).mpr hw)
    rintro rfl
    exact ht r rfl

theorem deliver {r : End N} {m : Notice} (hm : Said S X r m.command) : Sound S (X.deliver r m) := by
  refine h.requeue (fun q u hu => ?_) h.task fun _ _ hw => hw
  by_cases hq : q = r
  · subst hq
    rw [Function.update_self, List.mem_append, List.mem_singleton] at hu
    rcases hu with hu | rfl
    · exact h.wire q u hu
    · exact hm
  · rw [Function.update_of_ne hq] at hu
    exact h.wire q u hu

theorem pop (r : End N) : Sound S (X.pop r) := by
  refine h.requeue (fun q u hu => ?_) h.task fun _ _ hw => hw
  by_cases hq : q = r
  · subst hq
    rw [Function.update_self] at hu
    exact h.wire q u (List.mem_of_mem_tail hu)
  · rw [Function.update_of_ne hq] at hu
    exact h.wire q u hu

theorem getSession_map {r : End N} (hr : r ∈ X.inMap) :
    ∃ s, (X.map r.node).getSession r.id = some s ∧ s.id = r.id := by
  obtain ⟨s, hs, hrow⟩ := h.object r (h.inMap r hr)
  exact ⟨s, Table.find?_eq_some.mpr ⟨mem_map.mpr ⟨hs, r, hr, rfl, hrow.id.symm⟩, hrow.id⟩,
    hrow.id⟩

/-- A register handler finds its session, sets the ports and the flag, and is to sync. -/
theorem reads_register {r : End N} (hr : r ∈ X.ends) (hc : r.context = .accepting)
    (sp cp : UInt64) (b : Bool) : ∃ s, s.id = r.id ∧
      X.reads r (.register sp cp b) = X.registers r s sp cp b := by
  obtain ⟨s, hs, hid⟩ := h.getSession_map (h.accepting r hr hc)
  exact ⟨s, hid, by simp only [reads, hs]⟩

theorem registers {r : End N} (hr : r ∈ X.ends) (hc : r.context = .accepting) (hup : r ∈ X.up)
    {s : Session} (hid : s.id = r.id) (b : Bool) :
    Sound S (X.registers r s (S.config r.peer).sessionsPort.toUInt64
      (S.config r.peer).clientsPort.toUInt64 b) := by
  have hp := h.pop r
  set mark : State → State := (·.markAsRegistered s.id
    (S.config r.peer).sessionsPort.toUInt64.toUInt16
    (S.config r.peer).clientsPort.toUInt64.toUInt16) with hmark
  set Y := (X.pop r).modify r.node mark with hY
  have hobj := objects_adjust (Y := Y) hp hr
    (fun s => { s with
      sessionsPort := (S.config r.peer).sessionsPort.toUInt64.toUInt16
      clientsPort := (S.config r.peer).clientsPort.toUInt64.toUInt16
      registered := true })
    (fun _ => rfl) (mark (X.objects r.node))
    (by rw [hmark, hid]; rfl) rfl
    (fun s hrow => {
      id := hrow.id
      host := hrow.host
      noHost := hrow.noHost
      ports := fun _ => ⟨UInt16.toUInt16_toUInt64 _, UInt16.toUInt16_toUInt64 _⟩
      noPorts := fun hreg => by cases hreg
      registered := fun _ => ⟨hc, hup⟩ })
    (fun q hq hne s hrow => hrow)
  have hsound : Sound S Y := {
    hp with
    id := fun n => (objects_modify State.id mark (fun _ => rfl) r.node n).trans (hp.id n)
    config := fun n => by
      have hconfig := objects_modify (X := X.pop r) State.config mark (fun _ => rfl) r.node n
      rw [hconfig]
      exact h.config n
    object := hobj.1
    row := hobj.2
    wire := fun q m hm => Said.mono (X := X.pop r) (Y := Y) (List.Subset.refl _)
      (List.Subset.refl _) (hp.wire q m hm)
    task := fun t ht => Doing.mono (X := X.pop r) (Y := Y) (List.Subset.refl _)
      (List.Subset.refl _) (hp.task t ht) }
  refine hsound.assign fun t ht => ?_
  unfold syncing at ht
  split at ht
  · cases ht
  · rw [List.mem_singleton] at ht
    subst ht
    exact .sync r hr hc

theorem missed_naming {r : End N} {k : N} :
    X.missed r (S.naming k) = some (S.dial k) ∨
      X.missed r (S.naming k) = none ∧ ∃ q ∈ X.ends, q.node = r.node ∧ q.peer = k := by
  simp only [Sites.naming, missed]
  split
  · rename_i hk
    exact .inr ⟨rfl, h.known hk⟩
  · exact .inl rfl

/-- A report that is missed, and one that is not. -/
theorem reads_naming {r : End N} {k : N} :
    X.reads r (S.naming k) = (X.pop r).assign [⟨.strand r, S.dial k⟩] ∨
      X.reads r (S.naming k) = (X.pop r).assign [] ∧
        ∃ q ∈ X.ends, q.node = r.node ∧ q.peer = k := by
  have heq : X.reads r (S.naming k) =
      (X.pop r).assign ((X.missed r (S.naming k)).map (Task.mk (.strand r))).toList := rfl
  rcases h.missed_naming (r := r) (k := k) with hm | ⟨hm, hq⟩
  · exact .inl (by rw [heq, hm]; rfl)
  · exact .inr ⟨by rw [heq, hm]; rfl, hq⟩

theorem reads {r : End N} {m : Notice} {ms : List Notice} (hw : X.wire r = m :: ms)
    (hup : r ∈ X.up) : Sound S (X.reads r m.command) := by
  have hsaid := h.wire r m (hw ▸ List.mem_cons_self)
  generalize m.command = c at hsaid ⊢
  cases hsaid with
  | register made context b =>
    obtain ⟨s, hid, heq⟩ := h.reads_register made context (S.config r.peer).sessionsPort.toUInt64
      (S.config r.peer).clientsPort.toUInt64 b
    rw [heq]
    exact h.registers made context hup hid b
  | naming made context k known =>
    rcases h.reads_naming (r := r) (k := k) with heq | ⟨heq, -⟩
    · rw [heq]
      refine (h.pop r).assign fun t ht => ?_
      rw [List.mem_singleton] at ht
      subst ht
      exact .dial r k made context known
    · rw [heq]
      exact (h.pop r).assign fun t ht => by cases ht

omit [DecidableEq N] in
/-- The handler that syncs is one of an accepting end. -/
theorem syncing_end {r : End N} {j : Job N} (ht : ⟨.strand r, j⟩ ∈ X.tasks)
    (hj : j = .sync ∨ ∃ rest, j = .test rest) : r ∈ X.ends ∧ r.context = .accepting := by
  rcases hj with rfl | ⟨rest, rfl⟩
  · cases h.task _ ht with
    | sync _ made context => exact ⟨made, context⟩
  · cases h.task _ ht with
    | test _ _ made context => exact ⟨made, context⟩

end Sound

/-- The flag of the session behind an end is set. -/
def Registered (X : Mesh N) (q : End N) : Prop :=
  ∃ s ∈ (X.objects q.node).sessions, s.id = q.id ∧ s.registered = true

omit [DecidableEq N] in
/-- Only the end that was connected to is registered, and only when it is up. -/
theorem Sound.row_of_registered (h : Sound S X) {q : End N} (hq : q ∈ X.ends)
    (hreg : X.Registered q) : ∃ s ∈ (X.objects q.node).sessions, s.registered = true ∧
      Row S X.up q s := by
  obtain ⟨s, hs, hrow⟩ := h.object q hq
  obtain ⟨s', hs', hid, hflag⟩ := hreg
  rw [Table.eq_of_key hs' hs (hid.trans hrow.id.symm)] at hflag
  exact ⟨s, hs, hflag, hrow⟩

omit [DecidableEq N] in
theorem Sound.accepting_of_registered (h : Sound S X) {q : End N} (hq : q ∈ X.ends)
    (hreg : X.Registered q) : q.context = .accepting := by
  obtain ⟨s, -, hflag, hrow⟩ := h.row_of_registered hq hreg
  exact (hrow.registered hflag).1

omit [DecidableEq N] in
theorem Sound.reportable (h : Sound S X) {r q : End N} (hr : r ∈ X.ends) (hq : q ∈ X.ends)
    (hn : q.node = r.node) {s : Session}
    (hs : (X.objects r.node).getSession q.id = some s) :
    reportable (X.objects r.node) r.id s = true ↔ q ≠ r ∧ X.Registered q := by
  obtain ⟨hmem, hid⟩ := Table.find?_eq_some.mp hs
  have hown : s.id ≠ (X.objects r.node).id := by
    rw [h.id, hid, ← hn]
    exact h.own q hq
  have hsame : s.id = r.id ↔ q = r := by
    rw [hid]
    refine ⟨h.unique q hq r hr hn, ?_⟩
    rintro rfl
    rfl
  have hreg : X.Registered q ↔ s.registered = true := by
    constructor
    · rintro ⟨s', hs', hid', hr'⟩
      rwa [Table.eq_of_key hmem (hn ▸ hs') (hid.trans hid'.symm)]
    · exact fun hr' => ⟨s, hn ▸ hmem, hid, hr'⟩
  simp [Aewt.reportable, hown, hsame, hreg]

/-- `sync` reports the node at the other end of a registered session. -/
theorem Sound.report_of_registered (h : Sound S X) {r q : End N} (hr : r ∈ X.ends)
    (hq : q ∈ X.ends) (hn : q.node = r.node) (hne : q ≠ r) (hreg : X.Registered q) (t : Uuid) :
    ∃ m : Notice, m.command = S.naming q.peer ∧
      X.report r q.id t = X.deliver r.other m := by
  obtain ⟨s, hs, hflag, hrow⟩ := h.row_of_registered hq hreg
  have hget : (X.objects r.node).getSession q.id = some s :=
    Table.find?_eq_some.mpr ⟨hn ▸ hs, hrow.id⟩
  have htest := (h.reportable hr hq hn hget).mpr ⟨hne, hreg⟩
  refine ⟨.syncSession t s, ?_, ?_⟩
  · obtain ⟨hsp, hcp⟩ := hrow.ports (.inl hflag)
    simp only [Notice.command, Sites.naming, hrow.host (hrow.registered hflag).2, hsp, hcp]
  · simp only [report, hget, htest, if_true]

/-- It reports nothing else. -/
theorem Sound.report_cases (h : Sound S X) {r : End N} (hr : r ∈ X.ends) (s t : Uuid) :
    X.report r s t = X ∨ ∃ q ∈ X.ends, q.node = r.node ∧ q.id = s ∧ q ≠ r ∧ X.Registered q := by
  cases hs : (X.objects r.node).getSession s with
  | none => exact .inl (by simp only [report, hs])
  | some session =>
    obtain ⟨hmem, hid⟩ := Table.find?_eq_some.mp hs
    obtain ⟨q, hq, hn, hqid⟩ := h.row r.node session hmem
    have hqs : q.id = s := hqid.trans hid
    by_cases htest : Aewt.reportable (X.objects r.node) r.id session = true
    · obtain ⟨hne, hreg⟩ := (h.reportable hr hq hn (hqs ▸ hs)).mp htest
      exact .inr ⟨q, hq, hn, hqs, hne, hreg⟩
    · exact .inl (by simp only [report, hs, htest]; rfl)

theorem Sound.test (h : Sound S X) {r : End N} {s : Uuid} {rest : List Uuid} (t : Uuid)
    (ht : ⟨.strand r, .test (s :: rest)⟩ ∈ X.tasks) :
    Sound S ((X.report r s t).proceed ⟨.strand r, .test (s :: rest)⟩ (testing r rest)) := by
  obtain ⟨hr, hc⟩ := h.syncing_end ht (.inr ⟨_, rfl⟩)
  rcases h.report_cases hr s t with heq | ⟨q, hq, hn, rfl, hne, hreg⟩
  · rw [heq]
    exact h.proceed (by simp) (doing_testing hr hc rest)
  · obtain ⟨m, hm, heq⟩ := h.report_of_registered hr hq hn hne hreg t
    rw [heq]
    have hd : Sound S (X.deliver r.other m) := by
      refine h.deliver ?_
      rw [hm]
      exact .naming (h.other r hr) (by simp [hc, SessionContext.other]) _
        (h.started _ (h.other q hq))
    exact hd.proceed (by simp) (doing_testing (X := X.deliver r.other m) hr hc rest)

omit [DecidableEq N] in
/-- Who is to connect to a node has all of its address. -/
theorem Sound.connect_eq (h : Sound S X) {w : Worker N} {m : N} {cp : UInt64}
    (ht : ⟨w, .connect (S.host m) (S.config m).sessionsPort.toUInt64 cp⟩ ∈ X.tasks) :
    cp = (S.config m).clientsPort.toUInt64 := by
  obtain ⟨k, -, hdial, -⟩ := (h.task _ ht).connect
  simp only [Sites.dial, Job.connect.injEq] at hdial
  rw [S.injective hdial.1 (UInt16.toUInt64_inj.mp hdial.2.1)]
  exact hdial.2.2

theorem Sound.of_step (h : Sound S X) {a : Action N} (hY : X.step S a = some Y) : Sound S Y := by
  cases step_cases hY with
  | start n e new member => exact h.starts member
  | connect w m x y cp task member here there apart =>
    obtain rfl := h.connect_eq task
    exact h.connects (r := ⟨.remote, w.node, x, m, y⟩) rfl rfl task member here there apart
  | enter w r task => exact h.enters task
  | accept r t made down => exact h.accepts made down
  | read r m ms wire up free => exact h.reads wire up
  | snapshot r task =>
    obtain ⟨hr, hc⟩ := h.syncing_end task (.inl rfl)
    exact h.proceed (by simp) (doing_testing hr hc _)
  | test r s rest t task => exact h.test t task

omit [DecidableEq N] in
theorem sound_founded (S : Sites N) (f : N) : Sound S (S.founded f) where
  unique _ hr := by cases hr
  other _ hr := by cases hr
  started _ hr := by cases hr
  own _ hr := by cases hr
  listening _ hn := hn
  up _ hr := by cases hr
  inMap _ hr := by cases hr
  accepting _ hr := by cases hr
  entering _ hr := by cases hr
  id _ := rfl
  config _ := ⟨rfl, rfl⟩
  object _ hr := by cases hr
  row _ _ hs := absurd hs (Table.not_mem_empty _)
  wire _ _ hm := by cases hm
  task _ ht := by cases ht

theorem sound_of_run {f : N} {as : List (Action N)}
    (h : Run.exec (step S) (S.founded f) as = some Y) : Sound S Y :=
  Run.exec_invariant (fun hs hstep => hs.of_step hstep) (sound_founded S f) h

/-! ## A handler that nothing interrupts -/

/-- The loop of `sync`; `u` gives the id drawn for each session. -/
def tests (r : End N) (u : Uuid → Uuid) : List Uuid → List (Action N)
  | [] => []
  | s :: rest => .test r s rest (u s) :: tests r u rest

theorem reports_tests {r : End N} {u : Uuid → Uuid} : ∀ {ss : List Session} {X Y : Mesh N},
    (∀ s ∈ ss, s ∈ (X.objects r.node).sessions) →
    Run.exec (step S) X (tests r u (ss.map Session.id)) = some Y →
    Y.wire r.other = X.wire r.other ++
      (ss.filter (Aewt.reportable (X.objects r.node) r.id)).map fun s => .syncSession (u s.id) s
  | [], X, Y, _, hY => by
    cases hY
    simp
  | s :: ss, X, Y, hss, hY => by
    obtain ⟨Z, hZ, hY⟩ := Run.exec_cons.mp hY
    cases step_cases hZ with
    | test _ _ _ _ task =>
      set W := X.report r s.id (u s.id) with hW
      have hget : (X.objects r.node).getSession s.id = some s :=
        Table.find?_eq_some.mpr ⟨hss s List.mem_cons_self, rfl⟩
      have hobj : W.objects = X.objects := report_objects ..
      have ih := reports_tests (fun s' hs' => by
        rw [show (W.proceed _ _).objects = X.objects from hobj]
        exact hss s' (List.mem_cons_of_mem _ hs')) hY
      rw [ih, show (W.proceed _ _).objects = X.objects from hobj]
      change W.wire r.other ++ _ = _
      by_cases hs : Aewt.reportable (X.objects r.node) r.id s = true
      · simp [hW, report, hget, hs, deliver]
      · simp [hW, report, hget, hs]

/-- The steps of `sync` send what `sync` sends about sessions. -/
theorem sync_alone {r : End N} {u : Uuid → Uuid}
    (hY : Run.exec (step S) X (.snapshot r ::
      tests r u ((X.map r.node).getSessions.map Session.id)) = some Y) :
    Y.wire r.other = X.wire r.other ++
      (reported (X.map r.node) r.id false).map fun s => .syncSession (u s.id) s := by
  obtain ⟨Z, hZ, hY⟩ := Run.exec_cons.mp hY
  cases step_cases hZ with
  | snapshot _ task =>
    exact reports_tests (X := X.proceed ⟨.strand r, .sync⟩ (testing r _))
      (fun s hs => (mem_map.mp hs).1) hY

/-- Reading a registration does to the node what `register_handler` does. -/
theorem register_alone {w : World} {request : Request} {r : End N}
    (hw : w.state = X.map r.node) (hr : request.entityId = r.id) (sp cp : UInt64) (b : Bool) :
    (X.reads r (.register sp cp b)).map r.node = (registerOutcome w request sp cp b).state := by
  unfold registerOutcome
  rw [hw, hr]
  cases hs : (X.map r.node).getSession r.id with
  | none =>
    simp only [reads, hs]
    rfl
  | some session =>
    have hobj : (X.registers r session sp cp b).objects r.node =
        (X.objects r.node).markAsRegistered session.id sp.toUInt16 cp.toUInt16 :=
      Function.update_self ..
    have hmap : (X.registers r session sp cp b).inMap = X.inMap := rfl
    have heq : X.reads r (.register sp cp b) = X.registers r session sp cp b := by
      simp only [reads, hs]
    rw [heq]
    simp only [map, hobj, hmap, State.markAsRegistered, State.mk.injEq, and_true, true_and]
    refine Table.ext ?_
    simp only [Table.keep, Table.adjust, List.filter_map]
    refine congrArg _ (List.filter_congr fun s _ => ?_)
    simp only [Function.comp_apply]
    split <;> rfl

/-- A session that was connected and entered is one more in the map. -/
theorem map_connected (h : Sound S X) (t : Task N) {w : Worker N} {m : N} {x y : Uuid}
    {sp cp : UInt64} (hx : X.Unused S w.node x) (hm : m ≠ w.node) :
    ((X.connects t ⟨.remote, w.node, x, m, y⟩ sp cp).enters w
      ⟨.remote, w.node, x, m, y⟩).map w.node =
    ((X.map w.node).addSession (dialled x sp cp)).1 := by
  set q : End N := ⟨.remote, w.node, x, m, y⟩ with hq
  set Y := (X.connects t q sp cp).enters w q with hY
  have hkey := h.hasKey_of_unused hx
  have hobj : Y.objects w.node = ((X.objects w.node).addSession (dialled x sp cp)).1 :=
    (Function.update_of_ne (Ne.symm hm) ..).trans (Function.update_self ..)
  have hin : Y.inMap = X.inMap ++ [q.other] ++ [q] := rfl
  have hkeep : (X.map w.node).sessions.hasKey (dialled x sp cp).id = false := by
    rw [Table.hasKey_eq_false] at hkey ⊢
    exact fun s hs => hkey s (mem_map.mp hs).1
  have hrows : (Y.map w.node).sessions.rows =
      ((X.map w.node).addSession (dialled x sp cp)).1.sessions.rows := by
    refine Eq.trans ?_ (Table.rows_insert hkeep).symm
    have hfilter : (Y.map w.node).sessions.rows = ((X.objects w.node).sessions.rows ++
        [dialled x sp cp]).filter fun s => Y.inMap.any fun r => r.node = w.node ∧ r.id = s.id := by
      have hadd : (((X.objects w.node).addSession (dialled x sp cp)).1).sessions.rows = _ :=
        Table.rows_insert hkey
      rw [← hadd, ← hobj]
      rfl
    rw [hfilter, List.filter_append]
    refine congr (congrArg _ (List.filter_congr fun s hs => ?_)) ?_
    · have hne : x ≠ s.id := fun hid => Table.hasKey_eq_false.mp hkey s hs hid.symm
      simp [hin, hq, End.other, hm, hne]
    · simp [hin, hq, dialled]
  have hstate : Y.map w.node = { X.map w.node with sessions := (Y.map w.node).sessions } := by
    simp only [map, hobj]
    rfl
  rw [hstate, Table.ext hrows]
  rfl

/-- Reading a report, and connecting if it is missed, does what `session_handler` does. -/
theorem session_alone (h : Sound S X) {w : World} {r : End N} (hw : w.state = X.map r.node)
    {host : String} {sp cp : UInt64} :
    (isKnown w.state host sp cp = true →
      (X.reads r (.session host sp cp)).map r.node = (sessionOutcome w host sp cp).state) ∧
    (isKnown w.state host sp cp = false → ∀ m y Y, m ≠ r.node →
      Run.exec (step S) (X.reads r (.session host sp cp))
        [.connect (.strand r) host sp cp m (w.env.random w.drawn) y,
          .enter (.strand r) ⟨.remote, r.node, w.env.random w.drawn, m, y⟩] = some Y →
      Y.map r.node = (sessionOutcome w host sp cp).state) := by
  constructor
  · intro hk
    have hstate : (sessionOutcome w host sp cp).state = X.map r.node := by
      unfold sessionOutcome
      rw [if_pos hk, hw]
    rw [hstate]
    rfl
  · intro hk m y Y hm hY
    have hstate : (sessionOutcome w host sp cp).state =
        ((X.map r.node).addSession (dialled (w.env.random w.drawn) sp cp)).1 := by
      unfold sessionOutcome
      rw [if_neg (by simp [hk]), hw]
    rw [hstate]
    generalize w.env.random w.drawn = x at hY
    obtain ⟨Z, hZ, hY⟩ := Run.exec_cons.mp hY
    obtain ⟨V, hV, hY⟩ := Run.exec_cons.mp hY
    cases hY
    cases step_cases hZ with
    | connect _ _ _ _ _ task member here there apart =>
      cases step_cases hV with
      | enter _ _ task' => exact map_connected h ⟨.strand r, S.dial m⟩ here hm

end

end Mesh

end Aewt
