import AewtState.Soundness

/-!
# How many sessions two nodes have

* `Mesh.links` — the sessions that one node has with another.
* `Mesh.ties` — with the connects that either of them has still to make.
* `FindsAll` — when a session handler finds no session with the node that it was told of, there
  is none and none is being made.

Principal results: `ties_step` — only a start and a search that fails make a new tie;
`at_most_one_link` — no two nodes have two sessions as long as the searches find all, and when
no connect is left they have two if one search did not.
-/

set_option autoImplicit false

namespace Aewt

namespace Mesh

variable {N : Type} [DecidableEq N] (S : Sites N)

/-- The sessions that node `n` has with node `m`. -/
def links (X : Mesh N) (n m : N) : Nat := X.ends.countP fun r => r.node = n ∧ r.peer = m

/-- The connects to `m` that handlers of `n` have still to make. -/
def dialling (X : Mesh N) (n m : N) : Nat :=
  X.tasks.countP fun t => t.worker.node = n ∧ t.job = S.dial m

def ties (X : Mesh N) (n m : N) : Nat := X.links n m + X.dialling S n m + X.dialling S m n

/-- What the next text of the end is to connect to. -/
def misses (X : Mesh N) (r : End N) : Option (Job N) :=
  match X.wire r with
  | m :: _ => X.missed r m.command
  | [] => none

/-- After this step node `n` is to connect to node `m`. -/
def Opens (X : Mesh N) (n m : N) : Action N → Prop
  | .start k e => k = n ∧ e = m
  | .read r => r.node = n ∧ X.misses r = some (S.dial m)
  | _ => False

instance (X : Mesh N) (n m : N) (a : Action N) : Decidable (X.Opens S n m a) := by
  unfold Opens
  split <;> infer_instance

/-- A search that fails is right: the two nodes have no tie. -/
def FindsAll (X : Mesh N) (a : Action N) : Prop :=
  match a with
  | .read r => ∀ m, m ≠ r.node → X.misses r = some (S.dial m) → X.ties S r.node m = 0
  | _ => True

/-- No connect is left to make. -/
def Connected (X : Mesh N) : Prop := ∀ t ∈ X.tasks, ∀ host sp cp, t.job ≠ .connect host sp cp

/-- No two nodes have two sessions with each other. -/
def SingleLinks (X : Mesh N) : Prop := ∀ n m, n ≠ m → X.links n m ≤ 1

/-! ## Counting -/

variable {S} {X Y : Mesh N}

/-- A task is replaced. -/
theorem countP_proceed (p : Task N → Bool) {t : Task N} (ts : List (Task N)) (ht : t ∈ X.tasks) :
    (X.proceed t ts).tasks.countP p + (if p t then 1 else 0) = X.tasks.countP p + ts.countP p := by
  have hperm := (List.perm_cons_erase ht).countP_eq p
  rw [List.countP_cons] at hperm
  simp only [proceed, List.countP_append]
  omega

theorem dialling_proceed {t : Task N} {ts : List (Task N)} (ht : t ∈ X.tasks)
    (hj : ∀ k, t.job ≠ S.dial k) (hts : ∀ u ∈ ts, ∀ k, u.job ≠ S.dial k) (n m : N) :
    (X.proceed t ts).dialling S n m = X.dialling S n m := by
  have hcount := countP_proceed (fun t => decide (t.worker.node = n ∧ t.job = S.dial m)) ts
    ht
  have hfalse : ¬ (t.worker.node = n ∧ t.job = S.dial m) := fun h => hj m h.2
  have hzero : ts.countP (fun t => decide (t.worker.node = n ∧ t.job = S.dial m)) = 0 := by
    rw [List.countP_eq_zero]
    intro u hu
    simp [hts u hu m]
  rw [hzero] at hcount
  simpa only [dialling, hfalse, decide_false, Bool.false_eq_true, if_false, Nat.add_zero]
    using hcount

theorem dialling_assign (t : Task N) (n m : N) : (X.assign [t]).dialling S n m =
    X.dialling S n m + if t.worker.node = n ∧ t.job = S.dial m then 1 else 0 := by
  simp [dialling, assign, List.countP_append, List.countP_singleton]

theorem dialling_starts (k e n m : N) : (X.starts S k e).dialling S n m =
    X.dialling S n m + if k = n ∧ e = m then 1 else 0 := by
  have ha := dialling_assign (S := S) (X := X) ⟨.main k, S.dial e⟩ n m
  simp only [dial_inj, Worker.node_main] at ha
  exact ha

/-- A connect that is made is one less to make. -/
theorem dialling_connects {w : Worker N} {r : End N} (sp cp : UInt64)
    (ht : ⟨w, S.dial r.peer⟩ ∈ X.tasks) (n m : N) :
    (X.connects ⟨w, S.dial r.peer⟩ r sp cp).dialling S n m +
      (if w.node = n ∧ r.peer = m then 1 else 0) = X.dialling S n m := by
  have hcount := countP_proceed (fun t => decide (t.worker.node = n ∧ t.job = S.dial m))
    [⟨w, .enter r⟩] ht
  have hzero : List.countP (fun t : Task N => decide (t.worker.node = n ∧ t.job = S.dial m))
      [⟨w, .enter r⟩] = 0 := by
    simp [Sites.dial]
  rw [hzero, Nat.add_zero] at hcount
  simp only [dial_inj, decide_eq_true_eq] at hcount
  exact hcount

/-- It makes one session. -/
theorem links_connects (t : Task N) (r : End N) (sp cp : UInt64) (n m : N) :
    (X.connects t r sp cp).links n m = X.links n m +
      ((if r.node = n ∧ r.peer = m then 1 else 0) +
        if r.peer = n ∧ r.node = m then 1 else 0) := by
  have hends : (X.connects t r sp cp).ends = X.ends ++ [r, r.other] := rfl
  unfold links
  rw [hends, List.countP_append, List.countP_cons, List.countP_singleton, Nat.add_comm (ite ..)]
  congr 2
  · simp only [decide_eq_true_eq]
  · simp only [decide_eq_true_eq]
    rfl

omit [DecidableEq N] in
theorem not_dial_testing (r : End N) (rest : List Uuid) :
    ∀ u ∈ testing r rest, ∀ k, u.job ≠ S.dial k := by
  intro u hu k
  unfold testing at hu
  split at hu
  · cases hu
  · rw [List.mem_singleton] at hu
    subst hu
    simp [Sites.dial]

/-- A registration connects to nobody; a report that is missed to its node. -/
theorem dialling_reads (h : Sound S X) {r : End N} {t : Notice} {ts : List Notice}
    (hw : X.wire r = t :: ts) (n m : N) : (X.reads r t.command).dialling S n m =
      X.dialling S n m + if r.node = n ∧ X.misses r = some (S.dial m) then 1 else 0 := by
  have hsaid := h.wire r t (hw ▸ List.mem_cons_self)
  have hmisses : X.misses r = X.missed r t.command := by simp only [misses, hw]
  rw [hmisses]
  generalize t.command = c at hsaid ⊢
  cases hsaid with
  | register made context b =>
    obtain ⟨s, -, heq⟩ := h.reads_register made context (S.config r.peer).sessionsPort.toUInt64
      (S.config r.peer).clientsPort.toUInt64 b
    have hzero : (syncing r b).countP (fun t => decide (t.worker.node = n ∧ t.job = S.dial m)) =
        0 := by
      cases b <;> simp [syncing, Sites.dial]
    rw [heq]
    simp only [missed, reduceCtorEq, and_false, if_false, Nat.add_zero]
    simp only [dialling, registers, assign, List.countP_append, hzero, Nat.add_zero]
    rfl
  | naming made context k known =>
    have heq : X.reads r (S.naming k) =
        (X.pop r).assign ((X.missed r (S.naming k)).map (Task.mk (.strand r))).toList := rfl
    rcases h.missed_naming (r := r) (k := k) with hm | ⟨hm, -⟩
    · rw [heq, hm]
      simp only [Option.some.injEq]
      exact dialling_assign ⟨.strand r, S.dial k⟩ n m
    · rw [heq, hm]
      simp [dialling, assign, Mesh.pop]

/-- A new node has no ties. -/
theorem ties_of_new (h : Sound S X) {n m : N} (hn : n ∉ X.started) : X.ties S n m = 0 := by
  have hlinks : X.links n m = 0 := by
    rw [links, List.countP_eq_zero]
    intro r hr
    simp only [decide_eq_true_eq, not_and]
    intro hrn
    exact absurd (hrn ▸ h.started r hr) hn
  have hout : X.dialling S n m = 0 := by
    rw [dialling, List.countP_eq_zero]
    rintro ⟨w, j⟩ ht
    simp only [decide_eq_true_eq, not_and]
    rintro hw rfl
    obtain ⟨-, -, -, ⟨k, hk, rfl⟩ | ⟨q, hq, -, rfl⟩⟩ := (h.task _ ht).connect
    · exact hn (hw ▸ hk)
    · exact hn (hw ▸ h.started q hq)
  have hin : X.dialling S m n = 0 := by
    rw [dialling, List.countP_eq_zero]
    rintro ⟨w, j⟩ ht
    simp only [decide_eq_true_eq, not_and]
    rintro - rfl
    obtain ⟨k, hk, heq, -⟩ := (h.task _ ht).connect
    exact hn (dial_injective heq ▸ hk)
  rw [ties, hlinks, hout, hin]

/-- Ties have no direction. -/
theorem ties_eq_zero_comm (h : Sound S X) {n m : N} (hz : X.ties S n m = 0) :
    X.ties S m n = 0 := by
  unfold ties at hz ⊢
  have hlinks : X.links m n = 0 := by
    have hnm : X.links n m = 0 := by omega
    unfold links at hnm ⊢
    rw [List.countP_eq_zero] at hnm ⊢
    intro r hr
    simpa [and_comm] using hnm r.other (h.other r hr)
  omega

/-! ## One step -/

/-- **Only a start and a search that fails make a new tie.** -/
theorem ties_step (h : Sound S X) {a : Action N} (hY : X.step S a = some Y) {n m : N}
    (hnm : n ≠ m) : Y.ties S n m =
      X.ties S n m + if X.Opens S n m a ∨ X.Opens S m n a then 1 else 0 := by
  cases step_cases hY with
  | start k e new member =>
    have hl : (X.starts S k e).links n m = X.links n m := rfl
    simp only [ties, hl, dialling_starts, Opens]
    split_ifs <;> grind
  | connect w k x y cp task member here there apart =>
    obtain rfl := h.connect_eq task
    set r : End N := ⟨.remote, w.node, x, k, y⟩ with hr
    have hd := dialling_connects (S := S) (r := r) (S.config k).sessionsPort.toUInt64
      (S.config k).clientsPort.toUInt64 task
    have hl := links_connects (X := X) ⟨w, S.dial k⟩ r (S.config k).sessionsPort.toUInt64
      (S.config k).clientsPort.toUInt64 n m
    change (X.connects ⟨w, S.dial k⟩ r _ _).ties S n m = _
    have h1 := hd n m
    have h2 := hd m n
    simp only [ties, hl, Opens]
    split_ifs at h1 h2 ⊢ <;> grind
  | enter w r task =>
    have hl : (X.enters w r).links n m = X.links n m := rfl
    have hd : ∀ n m, (X.enters w r).dialling S n m = X.dialling S n m :=
      dialling_proceed task (by simp [Sites.dial]) (by simp)
    simp [ties, hl, hd, Opens]
  | accept r t made down =>
    have hl : (X.accepts S r t).links n m = X.links n m := rfl
    have hd : ∀ n m, (X.accepts S r t).dialling S n m = X.dialling S n m := fun _ _ => rfl
    simp [ties, hl, hd, Opens]
  | read r t ts wire up free =>
    have hl : (X.reads r t.command).links n m = X.links n m := by simp [links]
    simp only [ties, hl, dialling_reads h wire, Opens]
    split_ifs <;> grind
  | snapshot r task =>
    set rest := (X.map r.node).getSessions.map Session.id
    have hl : (X.proceed ⟨.strand r, .sync⟩ (testing r rest)).links n m = X.links n m := rfl
    have hd := dialling_proceed (S := S) task (by simp [Sites.dial]) (not_dial_testing r rest)
    simp [ties, hl, hd, Opens]
  | test r s rest t task =>
    have hl : ((X.report r s t).proceed ⟨.strand r, .test (s :: rest)⟩
        (testing r rest)).links n m = X.links n m := by
      simp [links, proceed]
    have hd : ∀ n m, ((X.report r s t).proceed ⟨.strand r, .test (s :: rest)⟩
        (testing r rest)).dialling S n m = X.dialling S n m := by
      intro n m
      rw [dialling_proceed (by rwa [report_tasks]) (by simp [Sites.dial])
        (not_dial_testing r rest)]
      simp [dialling]
    simp [ties, hl, hd, Opens]

/-! ## Runs -/

theorem ties_mono (h : Sound S X) {as : List (Action N)} (hY : Run.exec (step S) X as = some Y)
    {n m : N} (hnm : n ≠ m) : X.ties S n m ≤ Y.ties S n m := by
  induction as generalizing X with
  | nil =>
    cases hY
    exact Nat.le_refl _
  | cons a as ih =>
    obtain ⟨Z, hZ, hY⟩ := Run.exec_cons.mp hY
    refine Nat.le_trans ?_ (ih (h.of_step hZ) hY)
    rw [ties_step h hZ hnm]
    exact Nat.le_add_right _ _

/-- The two nodes that a step is to connect have no tie, if its search finds all. -/
theorem ties_of_opens (h : Sound S X) {a : Action N} (hf : X.FindsAll S a)
    (hY : X.step S a = some Y) {n m : N} (hnm : n ≠ m) (ho : X.Opens S n m a) :
    X.ties S n m = 0 := by
  cases step_cases hY with
  | start k e new member =>
    obtain ⟨rfl, rfl⟩ := ho
    exact ties_of_new h new
  | read r t ts wire up free =>
    obtain ⟨rfl, ho⟩ := ho
    exact hf m hnm.symm ho
  | _ => exact absurd ho id

theorem ties_le_step (h : Sound S X) {a : Action N} (hX : ∀ n m, n ≠ m → X.ties S n m ≤ 1)
    (hf : X.FindsAll S a) (hY : X.step S a = some Y) : ∀ n m, n ≠ m → Y.ties S n m ≤ 1 := by
  intro n m hnm
  rw [ties_step h hY hnm]
  split
  · rename_i ho
    rcases ho with ho | ho
    · rw [ties_of_opens h hf hY hnm ho]
    · rw [ties_eq_zero_comm h (ties_of_opens h hf hY hnm.symm ho)]
  · exact hX n m hnm

/-- A run after which no two nodes are tied twice searched well. -/
theorem along_of_ties_le (h : Sound S X) {as : List (Action N)}
    (hY : Run.exec (step S) X as = some Y) (hle : ∀ n m, n ≠ m → Y.ties S n m ≤ 1) :
    Run.Along (step S) (FindsAll S) X as := by
  induction as generalizing X with
  | nil => exact trivial
  | cons a as ih =>
    obtain ⟨Z, hZ, hrest⟩ := Run.exec_cons.mp hY
    refine Run.along_cons hZ ?_ (ih (h.of_step hZ) hrest)
    unfold FindsAll
    split
    · rename_i r
      intro m hm ho
      have hstep := ties_step h hZ hm.symm
      have hopens : X.Opens S r.node m (.read r) := ⟨rfl, ho⟩
      rw [if_pos (.inl hopens)] at hstep
      have hmono := ties_mono (h.of_step hZ) hrest hm.symm
      have hone := hle r.node m hm.symm
      omega
    · trivial

theorem links_le_ties (n m : N) : X.links n m ≤ X.ties S n m := by
  unfold ties
  omega

/-- When no connect is left to make, ties are sessions. -/
theorem ties_of_connected (hc : X.Connected) (n m : N) : X.ties S n m = X.links n m := by
  have hzero : ∀ n m, X.dialling S n m = 0 := by
    intro n m
    rw [dialling, List.countP_eq_zero]
    intro t ht
    simp only [decide_eq_true_eq, not_and]
    exact fun _ hj => hc t ht _ _ _ hj
  simp [ties, hzero]

/-- **No two nodes have two sessions as long as every search that finds nothing is right; and
when no connect is left to make, they have two if one search was not.** -/
theorem at_most_one_link {f : N} {as : List (Action N)}
    (hY : Run.exec (step S) (S.founded f) as = some Y) :
    (Run.Along (step S) (FindsAll S) (S.founded f) as → Y.SingleLinks) ∧
      (Y.Connected → Y.SingleLinks → Run.Along (step S) (FindsAll S) (S.founded f) as) := by
  have hfounded : Sound S (S.founded f) := sound_founded S f
  constructor
  · intro hal n m hnm
    have hinv := Run.exec_invariant_along
      (I := fun X => Sound S X ∧ ∀ n m, n ≠ m → X.ties S n m ≤ 1)
      (fun hX hf hstep => ⟨hX.1.of_step hstep, ties_le_step hX.1 hX.2 hf hstep⟩)
      ⟨hfounded, fun _ _ _ => Nat.zero_le 1⟩ hal hY
    exact Nat.le_trans (links_le_ties n m) (hinv.2 n m hnm)
  · intro hc hsingle
    refine along_of_ties_le hfounded hY fun n m hnm => ?_
    rw [ties_of_connected hc]
    exact hsingle n m hnm

/-! ## Three nodes on one host -/

def officeId (k : Nat) : Uuid := ⟨UInt8.ofNat k :: List.replicate 15 0, rfl⟩

/-- Three nodes; the first one is the founder. -/
def office : Sites (Fin 3) where
  id n := officeId n
  host _ := "127.0.0.1"
  config n := {
    sessionsPort := UInt16.ofNat (11000 + n)
    clientsPort := UInt16.ofNat (12000 + n) }
  unregistered _ := rfl
  host_ne _ := by decide
  port_ne := by decide
  injective := fun {n m} _ h => by
    revert n m
    decide

/-- The end at `n` of the session that `n` opens with `m`. -/
def opened (n m : Fin 3) : End (Fin 3) :=
  ⟨.remote, n, officeId (16 + 4 * n + m), m, officeId (32 + 4 * n + m)⟩

/-- Connect to `m`, enter the session and finish the handshake. -/
def connecting (w : Worker (Fin 3)) (m : Fin 3) : List (Action (Fin 3)) :=
  [.connect w "127.0.0.1" (office.config m).sessionsPort.toUInt64
      (office.config m).clientsPort.toUInt64 m (opened w.node m).id (opened w.node m).peerId,
    .enter w (opened w.node m), .accept (opened w.node m).other Uuid.nil,
    .accept (opened w.node m) Uuid.nil]

def joining (n e : Fin 3) : List (Action (Fin 3)) := .start n e :: connecting (.main n) e

def nilId (_ : Uuid) : Uuid := Uuid.nil

/-- The founder's ends of its sessions with the two others. -/
def first : End (Fin 3) := (opened 1 0).other

def second : End (Fin 3) := (opened 2 0).other

/-- The nodes join one after the other; the second is told of the first. -/
def inTurn : List (Action (Fin 3)) :=
  joining 1 0 ++ [.read first, .snapshot first] ++ tests first nilId [first.id] ++
    joining 2 0 ++ [.read second, .snapshot second] ++ tests second nilId [first.id, second.id] ++
    .read (opened 2 0) :: connecting (.strand (opened 2 0)) 1 ++ [.read (opened 2 1).other]

/-- The third node joins at the second, which opened its only session itself. -/
def inChain : List (Action (Fin 3)) :=
  joining 1 0 ++ [.read first, .snapshot first] ++ tests first nilId [first.id] ++
    joining 2 1 ++ [.read (opened 2 1).other, .snapshot (opened 2 1).other] ++
    tests (opened 2 1).other nilId [(opened 1 0).id, (opened 2 1).peerId]

instance (X : Mesh (Fin 3)) (a : Action (Fin 3)) : Decidable (X.FindsAll office a) := by
  unfold FindsAll
  split <;> infer_instance

theorem at_most_one_link_inTurn : ∃ Y,
    Run.exec (step office) (office.founded 0) inTurn = some Y ∧ Y.links 2 1 = 1 ∧
      Y.SingleLinks := by
  have heval : ((Run.exec (step office) (office.founded 0) inTurn).any fun Y =>
      decide (Y.links 2 1 = 1)) = true := by decide +kernel
  have hfinds : Run.Along (step office) (FindsAll office) (office.founded 0) inTurn := by
    decide +kernel
  simp only [Option.any_eq_true, decide_eq_true_eq] at heval
  obtain ⟨Y, hY, hone⟩ := heval
  exact ⟨Y, hY, hone, (at_most_one_link hY).1 hfinds⟩

/-- Both handlers of the founder set the flag before either tests the other's: both nodes are
told of each other, both search before the other has connected, and both connect. -/
def atOnce : List (Action (Fin 3)) :=
  joining 1 0 ++ joining 2 0 ++
    [.read first, .read second, .snapshot first, .snapshot second] ++
    tests first nilId [first.id, second.id] ++ tests second nilId [first.id, second.id] ++
    [.read (opened 1 0), .read (opened 2 0)] ++
    connecting (.strand (opened 1 0)) 2 ++ connecting (.strand (opened 2 0)) 1 ++
    [.read (opened 1 2).other, .read (opened 2 1).other]

theorem two_links_atOnce : ∃ Y,
    Run.exec (step office) (office.founded 0) atOnce = some Y ∧ Y.tasks = [] ∧
      Y.links 1 2 = 2 ∧ ¬ Y.SingleLinks := by
  have heval : ((Run.exec (step office) (office.founded 0) atOnce).any fun Y =>
      decide (Y.tasks = [] ∧ Y.links 1 2 = 2)) = true := by decide +kernel
  simp only [Option.any_eq_true, decide_eq_true_eq] at heval
  obtain ⟨Y, hY, htasks, htwo⟩ := heval
  refine ⟨Y, hY, htasks, htwo, fun hsingle => ?_⟩
  have hle := hsingle 1 2 (by decide)
  omega

end Mesh

end Aewt
