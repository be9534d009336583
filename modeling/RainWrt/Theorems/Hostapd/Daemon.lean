import RainWrt.Hostapd.Daemon

/-! What is left of the daemon behind `config_reset` and `shutdown`: the first configuration that is taken away throws. -/

namespace RainWrt.Hostapd

variable {env : DaemonEnv} {d : Daemon}

/-- No interface that was created is there, no configuration, no chain that brings one up and no MLD interface. -/
structure Emptied (d : Daemon) : Prop where
  config : ∀ e ∈ d.config, e.2.isNone
  pending : d.pending = []
  mld : d.mld = []
  bss : d.bss = []
  wdevs : d.wdevs = []

/-! ### Calls -/

theorem run_bind {α β : Type} {x : DaemonM α} {f : α → DaemonM β} {a : α} {d₁ : Daemon} (h : x.run d = .ok a d₁) :
    (x >>= f).run d = (f a).run d₁ := by
  show EStateM.bind x f d = f a d₁
  rw [EStateM.bind, show x d = _ from h]

theorem run_forM_cons {α : Type} {f : α → DaemonM Unit} {a : α} {l : List α} {d₁ : Daemon} (h : (f a).run d = .ok () d₁) :
    ((a :: l).forM f).run d = (l.forM f).run d₁ := by
  rw [List.forM_eq_forM, List.forM_cons]
  exact run_bind h

theorem forM_reload (env : DaemonEnv) (names : List String) (h : d.config = []) :
    (names.forM (mldReloadInterface env)).run d = .ok () d := by
  induction names with
  | nil => rfl
  | cons name names ih =>
    have hstep : (mldReloadInterface env name).run d = .ok () d := by
      have hget : (d.config.get? name).join = none := by rw [h]; rfl
      refine (run_bind (show EStateM.run get d = .ok d d from rfl)).trans ?_
      rw [hget]
      rfl
    rw [run_forM_cons hstep, ih]

theorem forM_wdevRemove (names : List String) (d : Daemon) :
    (names.forM wdevRemove).run d = .ok () { d with wdevs := d.wdevs.filter fun w => !names.contains w } := by
  induction names generalizing d with
  | nil =>
    have hall : d.wdevs.filter (fun w => !([] : List String).contains w) = d.wdevs := List.filter_eq_self.mpr (by simp)
    rw [hall]
    rfl
  | cons name names ih =>
    have hstep : (wdevRemove name).run d = .ok () { d with wdevs := d.wdevs.filter (· ≠ name) } := rfl
    rw [run_forM_cons hstep, ih]
    simp only [List.filter_filter, List.contains_cons, Bool.not_or]
    congr 2
    refine List.filter_congr fun w _ => ?_
    by_cases hw : w = name
    · simp [hw]
    · simp [hw, beq_eq_false_iff_ne.mpr hw, Bool.and_comm]

/-- Without any configuration, the MLD interfaces are taken away. -/
theorem mldSetConfig_empty (env : DaemonEnv) (h : d.config = []) :
    d.after (mldSetConfig env []) = { d with mld := [], wdevs := d.wdevs.filter fun w => !d.mld.keys.contains w } := by
  obtain ⟨left, hleft⟩ : ∃ left, left = d.mld.keys.foldl Obj.del d.mld := ⟨_, rfl⟩
  obtain ⟨names, hnames⟩ : ∃ names, names = ((Obj.keys (d.mld.filter fun e => e.2.ifname.isSome)).flatMap (ifacesWith d)).eraseDups :=
    ⟨_, rfl⟩
  have hreload : (names.forM (mldReloadInterface env)).run { d with mld := left } = .ok () { d with mld := left } :=
    forM_reload env names h
  have hrun : (mldSetConfig env []).run d =
      ((names.forM (mldReloadInterface env)) >>= fun _ => (d.mld.keys.forM wdevRemove) >>= fun _ =>
        modify (fun d : Daemon => { d with mld := [] }) >>= fun _ =>
        if d.mld.isEmpty then (get >>= fun d => d.config.keys.forM (mldReloadInterface env) : DaemonM Unit) else pure ()).run
          { d with mld := left } := by
    rw [hleft, hnames]
    rfl
  have hlast : (mldSetConfig env []).run d =
      .ok () { d with mld := [], wdevs := d.wdevs.filter fun w => !d.mld.keys.contains w } := by
    rw [hrun, run_bind hreload, run_bind (forM_wdevRemove _ _)]
    show (if d.mld.isEmpty then _ else _ : DaemonM Unit) _ = _
    split_ifs
    · exact forM_reload env _ h
    · rfl
  rw [Daemon.after, hlast]

/-! ### The ends -/

/-- Nothing is there but the configuration of the first phy. -/
structure Bare (d : Daemon) : Prop where
  config : ∀ e ∈ d.config, d.config.keys.head? = some e.1 ∨ e.2.isNone
  pending : d.pending = []
  mld : d.mld = []
  bss : d.bss = []
  wdevs : d.wdevs = []

/-- The loop of both calls, where there is a phy. -/
theorem after_first {name : String} {call : DaemonM Unit} (hname : d.config.keys.head? = some name)
    (hcall : call.run d = .error "left-hand side expression is null" { d with config := d.config.set name none }) :
    Emptied (d.after call) ↔ Bare d := by
  have hafter : d.after call = { d with config := d.config.set name none } := by rw [Daemon.after, hcall]
  have hconfig : (∀ e ∈ d.config.set name none, e.2.isNone) ↔ ∀ e ∈ d.config, d.config.keys.head? = some e.1 ∨ e.2.isNone := by
    have hany : d.config.any (·.1 = name) = true := by
      obtain ⟨e, he, rfl⟩ := List.mem_map.mp (List.mem_of_mem_head? hname)
      exact List.any_eq_true.mpr ⟨e, he, decide_eq_true rfl⟩
    rw [Obj.set, if_pos hany, hname]
    constructor
    · intro h e he
      by_cases hk : e.1 = name
      · exact Or.inl (by rw [hk])
      · have := h e (List.mem_map.mpr ⟨e, he, if_neg hk⟩)
        exact Or.inr this
    · intro h e he
      obtain ⟨e', he', rfl⟩ := List.mem_map.mp he
      split_ifs with hk
      · rfl
      · exact (h e' he').resolve_left fun heq => hk (Option.some.inj heq).symm
  rw [hafter]
  exact ⟨fun h => ⟨hconfig.mp h.config, h.pending, h.mld, h.bss, h.wdevs⟩,
    fun h => ⟨hconfig.mpr h.config, h.pending, h.mld, h.bss, h.wdevs⟩⟩

/-- When `config_reset` and `shutdown` leave nothing behind, whatever a configuration would have led to. -/
theorem ends_empty (env : DaemonEnv) (d : Daemon) :
    (Emptied (d.after (configReset env)) ↔
      Bare d ∨ (d.config = [] ∧ d.pending = [] ∧ d.bss = [] ∧ ∀ w ∈ d.wdevs, w ∈ d.mld.keys)) ∧
      (Emptied (d.after (shutdown env)) ↔ Bare d) := by
  cases hkeys : d.config.keys with
  | nil =>
    have hconfig : d.config = [] := List.map_eq_nil_iff.mp hkeys
    have hreset : d.after (configReset env) = d.after (mldSetConfig env []) := by
      have hrun : (configReset env).run d =
          ((d.config.keys.forM fun name => setConfig env name none) >>= fun _ => mldSetConfig env []).run d := rfl
      rw [Daemon.after, hrun, hkeys]
      rfl
    have hshutdown : d.after (shutdown env) = d := by
      have hrun : (shutdown env).run d = (d.config.keys.forM fun phy => setConfig env phy none).run d := rfl
      rw [Daemon.after, hrun, hkeys]
      rfl
    have hwdevs : d.wdevs.filter (fun w => !d.mld.keys.contains w) = [] ↔ ∀ w ∈ d.wdevs, w ∈ d.mld.keys := by
      simp [List.filter_eq_nil_iff]
    refine ⟨?_, ?_⟩
    · rw [hreset, mldSetConfig_empty env hconfig]
      constructor
      · intro h
        exact Or.inr ⟨hconfig, h.pending, h.bss, hwdevs.mp h.wdevs⟩
      · rintro (h | ⟨-, hpending, hbss, hall⟩)
        · exact ⟨by simp [hconfig], h.pending, rfl, h.bss, hwdevs.mpr (by simp [h.wdevs])⟩
        · exact ⟨by simp [hconfig], hpending, rfl, hbss, hwdevs.mpr hall⟩
    · rw [hshutdown]
      exact ⟨fun h => ⟨by simp [hconfig], h.pending, h.mld, h.bss, h.wdevs⟩,
        fun h => ⟨by simp [hconfig], h.pending, h.mld, h.bss, h.wdevs⟩⟩
  | cons name names =>
    have hhead : d.config.keys.head? = some name := by rw [hkeys]; rfl
    have hreset : (configReset env).run d = .error "left-hand side expression is null" { d with config := d.config.set name none } := by
      have hrun : (configReset env).run d =
          ((d.config.keys.forM fun name => setConfig env name none) >>= fun _ => mldSetConfig env []).run d := rfl
      rw [hrun, hkeys]
      rfl
    have hshutdown : (shutdown env).run d = .error "left-hand side expression is null" { d with config := d.config.set name none } := by
      have hrun : (shutdown env).run d = (d.config.keys.forM fun phy => setConfig env phy none).run d := rfl
      rw [hrun, hkeys]
      rfl
    refine ⟨?_, after_first hhead hshutdown⟩
    rw [after_first hhead hreset]
    constructor
    · exact Or.inl
    · rintro (h | ⟨hnil, -⟩)
      · exact h
      · rw [hnil] at hkeys
        cases hkeys

/-- A phy with one interface, which nothing takes away. -/
theorem reset_throws : ¬∀ (env : DaemonEnv) (d : Daemon), Emptied (Daemon.after d (configReset env)) := by
  intro h
  have hempty := h ⟨fun _ _ _ => pure (), fun _ => true, fun _ _ => none⟩
    { config := [("phy0", some { phy := "phy0", bss := [{ ifname := "wlan0" }], origBss := [] })], bss := [("phy0", ["wlan0"])], wdevs := ["wlan0"] }
  cases hempty.bss

end RainWrt.Hostapd
