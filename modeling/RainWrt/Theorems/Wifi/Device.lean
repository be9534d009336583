import RainWrt.Wifi.Device

/-! What one device sees of the whole: its state, its entry in the queue, its script that runs and the scripts that were run.
    Every event is a sequence of turns of this view. -/

namespace RainWrt.Wifi

/-! ### The view of a device -/

structure View (α : Type) where
  dev : Option (Wdev α)
  queued : Option Op
  running : Option Op
  /-- The scripts of the device that were run. -/
  log : List (Op × HandlerConfig α)

section
variable {α : Type}

def Effect.logged (name : String) : Effect α → Option (Op × HandlerConfig α)
  | .run s config => if s.name = name then some (s.op, config) else none
  | .callback _ => none

def Wireless.view (w : Wireless α) (name : String) : View α where
  dev := w.devices.get? name
  queued := (w.queue.get? name).map (·.op)
  running := (w.cur.filter (·.name = name)).map (·.op)
  log := w.trace.filterMap (·.logged name)

/-- What states of a device go with what is queued and running. -/
def shapeOk (state : Option DevState) (queued running : Option Op) : Prop :=
  match state with
  | none | some .down => queued = none ∧ running = none
  | some .setup => running ≠ some .teardown ∧ (queued = some .setup ∨ (queued = none ∧ running = some .setup))
  | some .up => queued ≠ some .teardown ∧ running ≠ some .teardown
  | some .teardown => (queued = some .teardown ∧ running ≠ some .teardown) ∨ (queued = none ∧ running = some .teardown)

def View.Ok (v : View α) : Prop := shapeOk (v.dev.map (·.state)) v.queued v.running

/-! ### Methods -/

/-- What a request does to the state. -/
def Legal (d : Wdev α) (r : Wdev α × Option Op) : Prop :=
  match r.2 with
  | none => r.1.state = d.state ∨ (d.state = .setup ∧ r.1.state = .up)
  | some .setup => (d.state = .up ∨ d.state = .down) ∧ r.1.state = .setup
  | some .teardown => (d.state = .setup ∨ d.state = .up) ∧ r.1.state = .teardown

namespace Wdev
variable {d d' : Wdev α} {env : Env}

theorem setup_cases (d : Wdev α) :
    (d.setup = (d, none) ∧ ((d.state ≠ .up ∧ d.state ≠ .down) ∨ d.autostart = false ∨ d.retrySetupFailed = true)) ∨
      (d.setup = ({ d with procs := [], configChange := false, state := .setup }, some .setup) ∧ (d.state = .up ∨ d.state = .down) ∧
        d.autostart = true ∧ d.retrySetupFailed = false) := by
  unfold setup
  by_cases hs : d.state ≠ .up ∧ d.state ≠ .down
  · rw [if_pos hs]
    exact Or.inl ⟨rfl, Or.inl hs⟩
  · rw [if_neg hs]
    have hs' : d.state = .up ∨ d.state = .down := by
      by_contra hne
      exact hs (not_or.mp hne)
    cases ha : d.autostart with
    | false => exact Or.inl ⟨rfl, Or.inr (Or.inl rfl)⟩
    | true =>
      cases hf : d.retrySetupFailed with
      | true => exact Or.inl ⟨rfl, Or.inr (Or.inr rfl)⟩
      | false => exact Or.inr ⟨rfl, hs', rfl, rfl⟩

theorem teardown_cases (d : Wdev α) :
    (d.teardown = ({ d with cancelSetup := false }, none) ∧ (d.state = .teardown ∨ d.state = .down)) ∨
      (d.teardown = ({ d with cancelSetup := false, procs := [], state := .teardown }, some .teardown) ∧
        (d.state = .setup ∨ d.state = .up)) := by
  unfold teardown
  cases hs : d.state with
  | down => exact Or.inl ⟨rfl, Or.inr rfl⟩
  | teardown => exact Or.inl ⟨rfl, Or.inl rfl⟩
  | setup => exact Or.inr ⟨rfl, Or.inl rfl⟩
  | up => exact Or.inr ⟨rfl, Or.inr rfl⟩

/-- What `wdev_setup_cb` does. -/
theorem setupCb_cases (env : Env) (d : Wdev α) :
    (d.state = .setup ∧ ∃ d', d.setupCb env = ({ d' with cancelSetup := false, procs := [], state := .teardown }, some .teardown) ∧
      ((0 < d.retry ∧ d' = { d with retry := d.retry - 1 }) ∨ (d.retry ≤ 0 ∧ d' = { d with retrySetupFailed := true }))) ∨
    (d.state = .up ∧ d.configChange = true ∧ d.setupCb env = (d.configInit env).setup) ∨
    (d.state ≠ .setup ∧ ¬(d.state = .up ∧ d.configChange = true) ∧ d.setupCb env = (d, none)) := by
  unfold setupCb
  by_cases hs : d.state = .setup
  · rw [if_neg (not_not.mpr hs)]
    by_cases hr : d.retry > 0
    · rw [if_pos hr]
      refine Or.inl ⟨hs, { d with retry := d.retry - 1 }, ?_, Or.inl ⟨hr, rfl⟩⟩
      simp [teardown, hs]
    · rw [if_neg hr]
      refine Or.inl ⟨hs, { d with retrySetupFailed := true }, ?_, Or.inr ⟨Int.not_lt.mp hr, rfl⟩⟩
      simp [teardown, hs]
  · rw [if_pos hs]
    by_cases hc : d.state = .up ∧ d.configChange = true
    · rw [if_pos hc]
      exact Or.inr (Or.inl ⟨hc.1, hc.2, rfl⟩)
    · rw [if_neg hc]
      exact Or.inr (Or.inr ⟨hs, hc, rfl⟩)

/-- A change that leaves the configuration of the device, and whether it is to run, alone. -/
structure Same (d d' : Wdev α) : Prop where
  data : d'.data = d.data
  delete : d'.delete = d.delete
  autostart : d'.autostart = d.autostart

theorem Same.setup (h : Same d d') : Same d d'.setup.1 := by
  rcases setup_cases d' with ⟨heq, -⟩ | ⟨heq, -⟩
  · rw [heq]
    exact h
  · rw [heq]
    exact ⟨h.data, h.delete, h.autostart⟩

theorem Same.teardown (h : Same d d') : Same d d'.teardown.1 := by
  rcases teardown_cases d' with ⟨heq, -⟩ | ⟨heq, -⟩
  · rw [heq]
    exact ⟨h.data, h.delete, h.autostart⟩
  · rw [heq]
    exact ⟨h.data, h.delete, h.autostart⟩

theorem Same.check (h : Same d d') : Same d (d'.check env).1 := by
  unfold Wdev.check
  dsimp only
  split_ifs
  · exact Same.setup ⟨h.data, h.delete, h.autostart⟩
  · exact ⟨h.data, h.delete, h.autostart⟩

theorem Same.setupCb (h : Same d d') : Same d (d'.setupCb env).1 := by
  rcases setupCb_cases env d' with ⟨-, d'', heq, ⟨-, rfl⟩ | ⟨-, rfl⟩⟩ | ⟨-, -, heq⟩ | ⟨-, -, heq⟩
  · rw [heq]
    exact ⟨h.data, h.delete, h.autostart⟩
  · rw [heq]
    exact ⟨h.data, h.delete, h.autostart⟩
  · rw [heq]
    exact Same.setup ⟨h.data, h.delete, h.autostart⟩
  · rw [heq]
    exact h

theorem same_markUp : Same d d.markUp := by
  unfold markUp
  split_ifs <;> exact ⟨rfl, rfl, rfl⟩

theorem same_procAdd (pid : Nat) (exe : String) : Same d (d.procAdd pid exe) := by
  unfold procAdd
  split_ifs <;> exact ⟨rfl, rfl, rfl⟩

theorem same_procCheck (alive : Nat × String → Bool) : Same d (d.procCheck alive).1 := by
  unfold procCheck
  split_ifs
  · exact ⟨rfl, rfl, rfl⟩
  · exact Same.teardown ⟨rfl, rfl, rfl⟩

/-- Without its `autostart`, which it sets. -/
theorem same_start : Same { d with autostart := (d.start env).1.autostart } (d.start env).1 := by
  have hset : ∀ d' : Wdev α, d'.data = d.data → d'.delete = d.delete → Same { d with autostart := d'.setup.1.autostart } d'.setup.1 := by
    intro d' hdata hdelete
    have h : Same d' d'.setup.1 := Same.setup ⟨rfl, rfl, rfl⟩
    exact ⟨h.data.trans hdata, h.delete.trans hdelete, rfl⟩
  unfold start
  split_ifs
  · exact ⟨rfl, rfl, rfl⟩
  · dsimp only
    split_ifs
    · exact ⟨rfl, rfl, rfl⟩
    · exact hset _ rfl rfl
    · exact hset _ rfl rfl

theorem legal_refl (h : d'.state = d.state) : Legal d (d', none) := Or.inl h

theorem legal_setup (h : d'.state = d.state) : Legal d d'.setup := by
  rcases setup_cases d' with ⟨heq, -⟩ | ⟨heq, hs, -⟩
  · rw [heq]
    exact legal_refl h
  · rw [heq]
    rw [h] at hs
    exact ⟨hs, rfl⟩

theorem legal_teardown (h : d'.state = d.state) : Legal d d'.teardown := by
  rcases teardown_cases d' with ⟨heq, -⟩ | ⟨heq, hs⟩
  · rw [heq]
    exact legal_refl h
  · rw [heq]
    rw [h] at hs
    exact ⟨hs, rfl⟩

theorem legal_check (h : d'.state = d.state) : Legal d (d'.check env) := by
  unfold check
  dsimp only
  split_ifs
  · exact legal_setup h
  · exact legal_refl h

theorem legal_update [DecidableEq α] (data : Option (Data α)) : Legal d (d.update env data) := by
  unfold update
  split_ifs
  · exact legal_refl rfl
  · cases data <;> exact legal_check rfl

theorem legal_start : Legal d (d.start env) := by
  unfold start
  split_ifs
  · exact legal_refl rfl
  · dsimp only
    split_ifs
    · exact legal_refl rfl
    · exact legal_setup rfl
    · exact legal_setup rfl

theorem legal_retrySetup : Legal d (d.retrySetup env) := by
  unfold retrySetup
  split_ifs
  · exact legal_refl rfl
  · exact legal_start

theorem stop_cases (d : Wdev α) :
    (d.state = .up ∧
      d.stop = ({ d with autostart := false, cancelSetup := false, procs := [], state := .teardown }, some .teardown)) ∨
    (d.state ≠ .up ∧ ∃ cancel, d.stop = ({ d with autostart := false, cancelSetup := cancel }, none)) := by
  cases hs : d.state with
  | up => exact Or.inl ⟨rfl, by simp [stop, teardown, hs]⟩
  | setup => exact Or.inr ⟨nofun, true, by simp [stop, hs]⟩
  | down => exact Or.inr ⟨nofun, d.cancelSetup, by simp [stop, hs]⟩
  | teardown => exact Or.inr ⟨nofun, d.cancelSetup, by simp [stop, hs]⟩

theorem legal_stop (h : d'.state = d.state) : Legal d d'.stop := by
  rcases d'.stop_cases with ⟨hs, heq⟩ | ⟨-, cancel, heq⟩
  · rw [heq]
    exact ⟨Or.inr (h.symm.trans hs), rfl⟩
  · rw [heq]
    exact legal_refl h

theorem legal_markUp : Legal d (d.markUp, none) := by
  unfold markUp
  split_ifs with hs
  · exact Or.inr ⟨hs, rfl⟩
  · exact legal_refl rfl

theorem legal_procAdd (pid : Nat) (exe : String) : Legal d (d.procAdd pid exe, none) := by
  unfold procAdd
  split_ifs
  · exact legal_refl rfl
  · exact legal_refl rfl

theorem legal_procCheck (alive : Nat × String → Bool) : Legal d (d.procCheck alive) := by
  unfold procCheck
  split_ifs
  · exact legal_refl rfl
  · exact legal_teardown rfl

end Wdev

/-- What an event makes a device do; without a result the device goes. -/
inductive Call [DecidableEq α] (env : Env) (name : String) : Event α → (Wdev α → Option (Wdev α × Option Op)) → Prop
  | start : Call env name (.start name) fun d => some (d.start env)
  | retrySetup : Call env name (.retrySetup name) fun d => some (d.retrySetup env)
  | stop : Call env name (.stop name) fun d => some d.stop
  | update (data : Option (Data α)) : Call env name (.update name data) fun d => some (d.update env data)
  | destroy : Call env name (.destroy name) fun d => d.destroy
  | check : Call env name (.check name) fun d => some (d.check env)
  | up : Call env name (.up name) fun d => some (d.markUp, none)
  | procAdd (pid : Nat) (exe : String) : Call env name (.procAdd name pid exe) fun d => some (d.procAdd pid exe, none)
  | setRetry (retry : Option Int) : Call env name (.setRetry name retry) fun d => some (d.setRetry retry, none)
  | procCheck (alive : Nat × String → Bool) : Call env name (.procCheck name alive) fun d => some (d.procCheck alive)
  | listed {new : Config α} {data : Data α} (h : new.devices.get? name = some data) :
      Call env name (.updateConfig new) fun d => some (d.update env (some data))
  | unlisted {new : Config α} (h : new.devices.get? name = none) : Call env name (.updateConfig new) fun d => d.destroy
  | configStart : Call env name .configStart fun d => some (if d.autostart then d.start env else (d, none))
  | checkInterfaces : Call env name .checkInterfaces fun d => some (if d.autostart then d.check env else (d, none))

theorem Wdev.destroy_cases (d : Wdev α) :
    (d.state = .down ∧ d.destroy = none) ∨
      (d.state ≠ .down ∧ d.destroy = some ({ d with autostart := false, delete := true } : Wdev α).stop) := by
  unfold destroy
  by_cases hs : d.state = .down
  · simp [hs]
  · simp [hs]

theorem Wdev.legal_destroy {d : Wdev α} {r : Wdev α × Option Op} (hr : d.destroy = some r) : Legal d r := by
  rcases d.destroy_cases with ⟨-, heq⟩ | ⟨-, heq⟩
  · rw [heq] at hr
    cases hr
  · rw [heq] at hr
    cases hr
    exact Wdev.legal_stop rfl

theorem Wdev.down_of_destroy {d : Wdev α} (hr : d.destroy = none) : d.state = .down := by
  rcases d.destroy_cases with ⟨hs, -⟩ | ⟨-, heq⟩
  · exact hs
  · rw [heq] at hr
    cases hr

section
variable [DecidableEq α] {e : Event α} {env : Env} {name : String} {d : Wdev α} {f : Wdev α → Option (Wdev α × Option Op)}

theorem Call.legal {r : Wdev α × Option Op} (hf : Call env name e f) (hr : f d = some r) : Legal d r := by
  cases hf with
  | destroy => exact Wdev.legal_destroy hr
  | unlisted => exact Wdev.legal_destroy hr
  | start =>
    cases hr
    exact Wdev.legal_start
  | retrySetup =>
    cases hr
    exact Wdev.legal_retrySetup
  | stop =>
    cases hr
    exact Wdev.legal_stop rfl
  | update data =>
    cases hr
    exact Wdev.legal_update data
  | listed =>
    cases hr
    exact Wdev.legal_update _
  | check =>
    cases hr
    exact Wdev.legal_check rfl
  | up =>
    cases hr
    exact Wdev.legal_markUp
  | procAdd pid exe =>
    cases hr
    exact Wdev.legal_procAdd pid exe
  | setRetry retry =>
    cases hr
    exact Wdev.legal_refl rfl
  | procCheck alive =>
    cases hr
    exact Wdev.legal_procCheck alive
  | configStart =>
    cases hr
    split_ifs
    · exact Wdev.legal_start
    · exact Wdev.legal_refl rfl
  | checkInterfaces =>
    cases hr
    split_ifs
    · exact Wdev.legal_check rfl
    · exact Wdev.legal_refl rfl

/-- Only a device that is down goes at once, and only when it is destroyed. -/
theorem Call.gone (hf : Call env name e f) (hr : f d = none) :
    d.state = .down ∧ (e = .destroy name ∨ ∃ new, e = .updateConfig new ∧ new.devices.get? name = none) := by
  cases hf with
  | destroy => exact ⟨Wdev.down_of_destroy hr, Or.inl rfl⟩
  | unlisted h => exact ⟨Wdev.down_of_destroy hr, Or.inr ⟨_, rfl, h⟩⟩
  | _ => cases hr

end

/-! ### Turns -/

/-- One thing that happens to a device: a method, its removal or creation, the start of its script or the callback of it. -/
inductive Turn [DecidableEq α] (i : Input α) (name : String) : View α → View α → Prop
  | act {v : View α} {d : Wdev α} {f : Wdev α → Option (Wdev α × Option Op)} {r : Wdev α × Option Op} (hd : v.dev = some d)
      (hf : Call i.env name i.event f) (hr : f d = some r) : Turn i name v { v with dev := some r.1, queued := r.2 <|> v.queued }
  | gone {v : View α} {d : Wdev α} {f : Wdev α → Option (Wdev α × Option Op)} (hd : v.dev = some d)
      (hf : Call i.env name i.event f) (hr : f d = none) : Turn i name v { v with dev := none }
  | new {v : View α} {new : Config α} {data : Data α} (hd : v.dev = none) (he : i.event = .updateConfig new)
      (hdata : new.devices.get? name = some data) : Turn i name v { v with dev := some (Wdev.new i.env data) }
  | run {v : View α} {d : Wdev α} {op : Op} (hd : v.dev = some d) (hq : v.queued = some op) (hc : v.running = none) :
      Turn i name v { v with queued := none, running := some op, log := v.log ++ [(op, d.handlerConfig)] }
  | setupDone {v : View α} {d : Wdev α} (hd : v.dev = some d) (hc : v.running = some .setup) :
      Turn i name v { v with dev := some (d.setupCb i.env).1, queued := (d.setupCb i.env).2 <|> v.queued, running := none }
  | teardownDone {v : View α} {d : Wdev α} {r : Wdev α × Option Op} (hd : v.dev = some d) (hc : v.running = some .teardown)
      (hr : d.teardownCb = some r) : Turn i name v { v with dev := some r.1, queued := r.2 <|> v.queued, running := none }
  | deleted {v : View α} {d : Wdev α} (hd : v.dev = some d) (hc : v.running = some .teardown) (hr : d.teardownCb = none) :
      Turn i name v { v with dev := none, running := none }

theorem teardownCb_some {d : Wdev α} {r : Wdev α × Option Op} (h : d.teardownCb = some r) :
    d.delete = false ∧ r = ({ d with state := .down } : Wdev α).setup := by
  unfold Wdev.teardownCb at h
  dsimp only at h
  split_ifs at h with hdel
  exact ⟨by simpa using hdel, (Option.some.inj h).symm⟩

theorem teardownCb_none {d : Wdev α} (h : d.teardownCb = none) : d.delete = true := by
  unfold Wdev.teardownCb at h
  dsimp only at h
  split_ifs at h with hdel
  exact hdel

theorem shapeOk_legal {d d' : Wdev α} {op q c : Option Op} (hlegal : Legal d (d', op)) (h : shapeOk (some d.state) q c) :
    shapeOk (some d'.state) (op <|> q) c := by
  cases op with
  | none =>
    rcases hlegal with (heq : d'.state = d.state) | ⟨hs, (hs' : d'.state = .up)⟩
    · rw [heq]
      exact h
    · rw [hs] at h
      rw [hs']
      obtain ⟨hc, rfl | ⟨rfl, -⟩⟩ := h
      · exact ⟨nofun, hc⟩
      · exact ⟨nofun, hc⟩
  | some op =>
    cases op with
    | setup =>
      obtain ⟨hs, (hs' : d'.state = .setup)⟩ := hlegal
      rw [hs']
      rcases hs with hs | hs
      · rw [hs] at h
        exact ⟨h.2, Or.inl rfl⟩
      · rw [hs] at h
        obtain ⟨-, rfl⟩ := h
        exact ⟨nofun, Or.inl rfl⟩
    | teardown =>
      obtain ⟨hs, (hs' : d'.state = .teardown)⟩ := hlegal
      rw [hs']
      rcases hs with hs | hs
      · rw [hs] at h
        exact Or.inl ⟨rfl, h.1⟩
      · rw [hs] at h
        exact Or.inl ⟨rfl, h.2⟩

theorem Turn.ok [DecidableEq α] {i : Input α} {name : String} {v v' : View α} (h : Turn i name v v') (hok : v.Ok) : v'.Ok := by
  unfold View.Ok at hok ⊢
  cases h with
  | act hd hf hr =>
    rw [hd] at hok
    exact shapeOk_legal (hf.legal hr) hok
  | gone hd hf hr =>
    rw [hd, Option.map_some, (hf.gone hr).1] at hok
    exact hok
  | new hd he hdata =>
    rw [hd] at hok
    exact hok
  | @run d op hd hq hc =>
    rw [hd, hq, hc] at hok
    dsimp only
    rw [hd]
    simp only [Option.map_some] at hok ⊢
    cases hs : d.state <;> cases op <;> simp_all [shapeOk]
  | @setupDone d hd hc =>
    rw [hd, hc] at hok
    rcases d.setupCb_cases i.env with ⟨-, d', heq, -⟩ | ⟨hs, -, heq⟩ | ⟨hs, -, heq⟩
    · rw [heq]
      exact Or.inl ⟨rfl, nofun⟩
    · rw [Option.map_some, hs] at hok
      rcases Wdev.setup_cases (d.configInit i.env) with ⟨hsetup, -⟩ | ⟨hsetup, -⟩
      · rw [heq, hsetup]
        show shapeOk (some d.state) v.queued none
        rw [hs]
        exact ⟨hok.1, nofun⟩
      · rw [heq, hsetup]
        exact ⟨nofun, Or.inl rfl⟩
    · rw [heq]
      show shapeOk (some d.state) v.queued none
      simp only [Option.map_some] at hok
      cases hstate : d.state <;> simp_all [shapeOk]
  | @teardownDone d r hd hc hr =>
    rw [hd, hc] at hok
    obtain ⟨-, rfl⟩ := teardownCb_some hr
    have hq : v.queued = none := by
      simp only [Option.map_some] at hok
      cases hs : d.state <;> simp_all [shapeOk]
    rcases Wdev.setup_cases ({ d with state := .down } : Wdev α) with ⟨hsetup, -⟩ | ⟨hsetup, -⟩
    · rw [hsetup, hq]
      exact ⟨rfl, rfl⟩
    · rw [hsetup]
      exact ⟨nofun, Or.inl rfl⟩
  | @deleted d hd hc hr =>
    rw [hd, hc] at hok
    have hq : v.queued = none := by
      simp only [Option.map_some] at hok
      cases hs : d.state <;> simp_all [shapeOk]
    exact ⟨hq, rfl⟩

/-! ### The scripts one after the other -/

/-- Each script is run when none is open, with a number of its own, and its callback closes it. -/
inductive Serial : List (Effect α) → Option Script → Nat → Prop
  | nil : Serial [] none 0
  | run {t : List (Effect α)} {n : Nat} {s : Script} (h : Serial t none n) (hid : s.id = n) (config : HandlerConfig α) :
      Serial (t ++ [.run s config]) (some s) (n + 1)
  | callback {t : List (Effect α)} {n : Nat} {s : Script} (h : Serial t (some s) n) : Serial (t ++ [.callback s]) none n

structure Sched (w : Wireless α) : Prop where
  busy : ∀ s, w.cur = some s → w.tasks = [s] ∧ w.timers = [s] ∧ w.scriptTask = some s ∧ w.scriptTimeout = some s
  idle : w.cur = none → w.tasks = [] ∧ w.timers = [] ∧ w.scriptTask = none ∧ w.scriptTimeout = none
  serial : Serial w.trace w.cur w.nextId
  shapes : ∀ name, (w.view name).Ok

section
variable {w w' : Wireless α} {name n : String}

theorem view_setDev (r : Wdev α × Option Op) :
    (w.setDev name r).view n =
      if n = name then { w.view name with dev := some r.1, queued := r.2 <|> (w.view name).queued } else w.view n := by
  obtain ⟨d, op⟩ := r
  unfold Wireless.setDev Wireless.view
  cases op with
  | none =>
    dsimp only
    rw [Obj.get?_set]
    split_ifs with hn
    · subst hn
      rfl
    · rfl
  | some op =>
    dsimp only
    rw [Obj.get?_set, Obj.get?_set]
    split_ifs with hn
    · subst hn
      rfl
    · rfl

theorem view_del : ({ w with devices := w.devices.del name } : Wireless α).view n =
    if n = name then { w.view name with dev := none } else w.view n := by
  unfold Wireless.view
  dsimp only
  rw [Obj.get?_del]
  split_ifs with hn
  · subst hn
    rfl
  · rfl

theorem view_new (d : Wdev α) : ({ w with devices := w.devices.set name d } : Wireless α).view n =
    if n = name then { w.view name with dev := some d } else w.view n := by
  unfold Wireless.view
  dsimp only
  rw [Obj.get?_set]
  split_ifs with hn
  · subst hn
    rfl
  · rfl

theorem view_popped {job : Job} {d : Wdev α} (hcur : w.cur = none) :
    (w.popped name job d).view n =
      if n = name then { w.view name with
        queued := none
        running := some job.op
        log := (w.view name).log ++ [(job.op, d.handlerConfig)] }
      else w.view n := by
  unfold Wireless.popped Wireless.view
  dsimp only
  rw [Obj.get?_del, List.filterMap_append]
  split_ifs with hn
  · subst hn
    simp [Effect.logged]
  · simp [hcur, Effect.logged, Ne.symm hn]

theorem view_started (s : Script) : (w.started s).view n = w.view n := rfl

end

variable [DecidableEq α]

/-- All that an event has done so far keeps the scripts in order, and is turns for each device. -/
structure Reached (i : Input α) (w₀ w : Wireless α) : Prop where
  sched : Sched w
  turns : ∀ name, Relation.ReflTransGen (Turn i name) (w₀.view name) (w.view name)

section
variable {i : Input α} {w₀ w w' : Wireless α} {name : String} {d : Wdev α} {s : Script}

/-- What each turn keeps. -/
theorem turns_keep {P : View α → Prop} (hstep : ∀ {v v'}, Turn i name v v' → P v → P v') {v v' : View α}
    (h : Relation.ReflTransGen (Turn i name) v v') (hv : P v) : P v' := by
  induction h with
  | refl => exact hv
  | tail _ hturn ih => exact hstep hturn ih

theorem Reached.refl (h : Sched w) : Reached i w w := ⟨h, fun _ => .refl⟩

theorem Reached.next (h : Reached i w₀ w) (hview : ∀ n, Relation.ReflTransGen (Turn i n) (w.view n) (w'.view n))
    (hbusy : ∀ s, w'.cur = some s → w'.tasks = [s] ∧ w'.timers = [s] ∧ w'.scriptTask = some s ∧ w'.scriptTimeout = some s)
    (hidle : w'.cur = none → w'.tasks = [] ∧ w'.timers = [] ∧ w'.scriptTask = none ∧ w'.scriptTimeout = none)
    (hserial : Serial w'.trace w'.cur w'.nextId) : Reached i w₀ w' := by
  refine ⟨⟨hbusy, hidle, hserial, fun n => ?_⟩, fun n => (h.turns n).trans (hview n)⟩
  exact turns_keep (P := View.Ok) (fun hturn hok => hturn.ok hok) (hview n) (h.sched.shapes n)

/-- Only devices and the queue change, in turns of one device. -/
theorem Reached.turn (h : Reached i w₀ w) (name : String) (hturn : Turn i name (w.view name) (w'.view name)) (hother : ∀ n, n ≠ name → w'.view n = w.view n)
    (hcur : w'.cur = w.cur) (htasks : w'.tasks = w.tasks) (htimers : w'.timers = w.timers) (htask : w'.scriptTask = w.scriptTask)
    (htimeout : w'.scriptTimeout = w.scriptTimeout) (htrace : w'.trace = w.trace) (hnext : w'.nextId = w.nextId) : Reached i w₀ w' := by
  refine h.next (fun n => ?_) ?_ ?_ ?_
  · by_cases hn : n = name
    · rw [hn]
      exact .single hturn
    · rw [hother n hn]
  · rw [hcur, htasks, htimers, htask, htimeout]
    exact h.sched.busy
  · rw [hcur, htasks, htimers, htask, htimeout]
    exact h.sched.idle
  · rw [hcur, htrace, hnext]
    exact h.sched.serial

theorem Reached.setDev (h : Reached i w₀ w) {f : Wdev α → Option (Wdev α × Option Op)} {r : Wdev α × Option Op}
    (hd : w.devices.get? name = some d) (hf : Call i.env name i.event f) (hr : f d = some r) : Reached i w₀ (w.setDev name r) := by
  have hview := fun n => @view_setDev α w name n r
  refine h.turn name ?_ (fun n hn => by rw [hview, if_neg hn]) ?_ ?_ ?_ ?_ ?_ ?_ ?_
  · rw [hview, if_pos rfl]
    exact .act hd hf hr
  all_goals
    unfold Wireless.setDev
    cases r.2 <;> rfl

theorem Reached.del (h : Reached i w₀ w) {f : Wdev α → Option (Wdev α × Option Op)} (hd : w.devices.get? name = some d)
    (hf : Call i.env name i.event f) (hr : f d = none) : Reached i w₀ { w with devices := w.devices.del name } := by
  refine h.turn name ?_ (fun n hn => by rw [view_del, if_neg hn]) rfl rfl rfl rfl rfl rfl rfl
  rw [view_del, if_pos rfl]
  exact .gone hd hf hr

theorem Reached.new (h : Reached i w₀ w) {new : Config α} {data : Data α} (hd : w.devices.get? name = none)
    (he : i.event = .updateConfig new) (hdata : new.devices.get? name = some data) :
    Reached i w₀ { w with devices := w.devices.set name (Wdev.new i.env data) } := by
  refine h.turn name ?_ (fun n hn => by rw [view_new, if_neg hn]) rfl rfl rfl rfl rfl rfl rfl
  rw [view_new, if_pos rfl]
  exact .new hd he hdata

/-- The callback of the script that is in `wdev_cur`. -/
theorem view_handlerCb (hcur : w.cur = some s) (hd : w.devices.get? s.name = some d) :
    Turn i s.name (w.view s.name) ((w.handlerCb i.env s).1.view s.name) ∧
      (∀ n, n ≠ s.name → (w.handlerCb i.env s).1.view n = w.view n) ∧ (w.handlerCb i.env s).1.cur = none ∧
      (w.handlerCb i.env s).1.tasks = w.tasks ∧
      (w.handlerCb i.env s).1.timers = (w.timers.filter fun t => w.scriptTimeout ≠ some t) ∧
      (w.handlerCb i.env s).1.scriptTask = none ∧ (w.handlerCb i.env s).1.scriptTimeout = none ∧
      (w.handlerCb i.env s).1.trace = w.trace ++ [.callback s] ∧ (w.handlerCb i.env s).1.nextId = w.nextId := by
  obtain ⟨w₁, hw₁⟩ : ∃ w₁ : Wireless α, w₁ = { w with
    timers := w.timers.filter fun t => w.scriptTimeout ≠ some t
    scriptTimeout := none
    scriptTask := none
    cur := none
    trace := w.trace ++ [.callback s] } := ⟨_, rfl⟩
  have hcb : w.handlerCb i.env s = w₁.callback i.env s := by
    rw [hw₁]
    simp [Wireless.handlerCb, hcur]
  have hdev : w₁.devices.get? s.name = some d := by rw [hw₁, ← hd]
  have hview₁ : ∀ n, w₁.view n = { w.view n with running := none } := by
    intro n
    rw [hw₁]
    simp [Wireless.view, List.filterMap_append, Effect.logged]
  have hother₁ : ∀ n, n ≠ s.name → w₁.view n = w.view n := by
    intro n hn
    rw [hview₁]
    simp [Wireless.view, hcur, Option.filter, Ne.symm hn]
  have hrunning : (w.view s.name).running = some s.op := by simp [Wireless.view, hcur]
  -- what the callback queues changes nothing else
  have hset : ∀ r, (∀ n, n ≠ s.name → (w₁.setDev s.name r).view n = w.view n) ∧ (w₁.setDev s.name r).cur = none ∧
      (w₁.setDev s.name r).tasks = w.tasks ∧ (w₁.setDev s.name r).timers = (w.timers.filter fun t => w.scriptTimeout ≠ some t) ∧
      (w₁.setDev s.name r).scriptTask = none ∧ (w₁.setDev s.name r).scriptTimeout = none ∧
      (w₁.setDev s.name r).trace = w.trace ++ [.callback s] ∧ (w₁.setDev s.name r).nextId = w.nextId := by
    intro r
    refine ⟨fun n hn => by rw [view_setDev, if_neg hn, hother₁ n hn], ?_⟩
    unfold Wireless.setDev
    rw [hw₁]
    cases r.2 <;> exact ⟨rfl, rfl, rfl, rfl, rfl, rfl, rfl⟩
  rw [hcb]
  unfold Wireless.callback
  rw [hdev]
  dsimp only
  cases hop : s.op with
  | setup =>
    refine ⟨?_, hset _⟩
    rw [view_setDev, if_pos rfl, hview₁]
    exact .setupDone hd (hrunning.trans (congrArg some hop))
  | teardown =>
    dsimp only
    cases hr : d.teardownCb with
    | none =>
      refine ⟨?_, fun n hn => by rw [view_del, if_neg hn, hother₁ n hn], ?_⟩
      · rw [view_del, if_pos rfl, hview₁]
        exact .deleted hd (hrunning.trans (congrArg some hop)) hr
      · rw [hw₁]
        exact ⟨rfl, rfl, rfl, rfl, rfl, rfl, rfl⟩
    | some r =>
      refine ⟨?_, hset r⟩
      rw [view_setDev, if_pos rfl, hview₁]
      exact .teardownDone hd (hrunning.trans (congrArg some hop)) hr

theorem Reached.runNextHandler (h : Reached i w₀ w) (fails : Nat) : Reached i w₀ (w.runNextHandler i.env fails) := by
  induction fails generalizing w with
  | zero =>
    unfold Wireless.runNextHandler
    split
    · rename_i name hcur _
      split
      · rename_i job d hq hd
        obtain ⟨htasks, htimers, -, -⟩ := h.sched.idle hcur
        have hserial := h.sched.serial
        rw [hcur] at hserial
        refine h.next (fun n => ?_) (fun s hs => ?_) (fun hnone => nomatch hnone) (hserial.run rfl _)
        · rw [view_started, view_popped hcur]
          split_ifs with hn
          · subst hn
            refine .single (.run hd ?_ ?_)
            · simp [Wireless.view, hq]
            · simp [Wireless.view, hcur]
          · exact .refl
        · cases hs
          refine ⟨?_, ?_, rfl, rfl⟩
          · show w.tasks ++ _ = _
            rw [htasks]
            rfl
          · show w.timers ++ _ = _
            rw [htimers]
            rfl
      · exact h
    · exact h
  | succ fails ih =>
    unfold Wireless.runNextHandler
    split
    · rename_i name hcur _
      split
      · rename_i job d hq hd
        dsimp only
        refine ih ?_
        obtain ⟨htasks, htimers, -, -⟩ := h.sched.idle hcur
        have hserial := h.sched.serial
        rw [hcur] at hserial
        -- the process is not started, and its callback is called at once
        have hrun : ∀ n, Relation.ReflTransGen (Turn i n) (w.view n) ((w.popped name job d).view n) := by
          intro n
          rw [view_popped hcur]
          split_ifs with hn
          · subst hn
            refine .single (.run hd ?_ ?_)
            · simp [Wireless.view, hq]
            · simp [Wireless.view, hcur]
          · exact .refl
        obtain ⟨hturn, hother, hcur', htasks', htimers', htask', htimeout', htrace', hnext'⟩ :=
          view_handlerCb (i := i) (w := w.popped name job d) (s := { id := w.nextId, name, op := job.op }) rfl hd
        refine h.next (fun n => ?_) (fun s hs => ?_) (fun _ => ⟨?_, ?_, htask', htimeout'⟩) ?_
        · by_cases hn : n = name
          · rw [hn]
            exact (hrun name).tail hturn
          · rw [hother n hn]
            exact hrun n
        · rw [hcur'] at hs
          cases hs
        · rw [htasks']
          exact htasks
        · rw [htimers']
          show w.timers.filter _ = []
          rw [htimers]
          rfl
        · rw [hcur', htrace', hnext']
          exact (hserial.run rfl _).callback
      · exact h
    · exact h

theorem Reached.request (h : Reached i w₀ w) {f : Wdev α → Option (Wdev α × Option Op)} {r : Wdev α × Option Op}
    (hd : w.devices.get? name = some d) (hf : Call i.env name i.event f) (hr : f d = some r) (fails : Nat) :
    Reached i w₀ (w.request i.env fails name r) := by
  unfold Wireless.request
  split_ifs
  · exact (h.setDev hd hf hr).runNextHandler fails
  · exact h.setDev hd hf hr

/-- What a method brings about, and turns keep, holds behind it. -/
theorem request_gives {P : View α → Prop} (h : Sched w) {f : Wdev α → Option (Wdev α × Option Op)} {r : Wdev α × Option Op}
    (hd : w.devices.get? name = some d) (hf : Call i.env name i.event f) (hr : f d = some r)
    (hturn : ∀ {v v'}, Turn i name v v' → P v → P v') (fails : Nat)
    (hv : P { w.view name with dev := some r.1, queued := r.2 <|> (w.view name).queued }) : P ((w.request i.env fails name r).view name) := by
  have hset := ((Reached.refl h).setDev hd hf hr).sched
  have hview := @view_setDev α w name name r
  rw [if_pos rfl] at hview
  rw [← hview] at hv
  unfold Wireless.request
  split_ifs
  · exact turns_keep hturn (((Reached.refl hset).runNextHandler fails).turns name) hv
  · exact hv

theorem Reached.onDevice (h : Reached i w₀ w) {f : Wdev α → Wdev α × Option Op} (fails : Nat)
    (hf : Call i.env name i.event fun d => some (f d)) : Reached i w₀ (w.onDevice i.env fails name f) := by
  unfold Wireless.onDevice
  cases hd : w.devices.get? name with
  | none => exact h
  | some d => exact h.request hd hf rfl fails

theorem Reached.destroy (h : Reached i w₀ w) (fails : Nat) (hf : Call i.env name i.event fun d => d.destroy) :
    Reached i w₀ (w.destroy i.env fails name) := by
  unfold Wireless.destroy
  cases hd : w.devices.get? name with
  | none => exact h
  | some d =>
    dsimp only
    cases hr : d.destroy with
    | none => exact h.del hd hf hr
    | some r => exact h.request hd hf hr fails

/-- The script ends whose process, or whose timer, is still there. -/
theorem Reached.finish (h : Reached i w₀ w) (hcur : w.cur = some s) {w₁ : Wireless α} (hview : ∀ n, w₁.view n = w.view n)
    (hcur₁ : w₁.cur = some s) (htasks : w₁.tasks = []) (htimers : w₁.timers.filter (fun t => w₁.scriptTimeout ≠ some t) = [])
    (htrace : w₁.trace = w.trace) (hnext : w₁.nextId = w.nextId) (fails : Nat) : Reached i w₀ (w₁.finish i.env fails s) := by
  -- the device is there while its script runs
  have hdev : ∃ d, w₁.devices.get? s.name = some d := by
    cases hd : w₁.devices.get? s.name with
    | some d => exact ⟨d, rfl⟩
    | none =>
      have hshape := h.sched.shapes s.name
      rw [← hview] at hshape
      have hbad : (some s.op : Option Op) = none := by
        have := hshape
        simp only [View.Ok, Wireless.view, hd, Option.map_none, shapeOk, hcur₁] at this
        simpa using this.2
      cases hbad
  obtain ⟨d, hd⟩ := hdev
  obtain ⟨hturn, hother, hcur', htasks', htimers', htask', htimeout', htrace', hnext'⟩ := view_handlerCb (i := i) hcur₁ hd
  have hserial := h.sched.serial
  rw [hcur] at hserial
  have hcb : Reached i w₀ (w₁.handlerCb i.env s).1 := by
    refine h.next (fun n => ?_) (fun t ht => ?_) (fun _ => ⟨?_, ?_, htask', htimeout'⟩) ?_
    · rw [← hview]
      by_cases hn : n = s.name
      · rw [hn]
        exact .single hturn
      · rw [hother n hn]
    · rw [hcur'] at ht
      cases ht
    · rw [htasks', htasks]
    · rw [htimers', htimers]
    · rw [hcur', htrace', hnext', htrace, hnext]
      exact hserial.callback
  unfold Wireless.finish
  dsimp only
  split_ifs
  · exact hcb.runNextHandler fails
  · exact hcb

theorem Reached.dropDevice (h : Reached i w₀ w) {new : Config α} (he : i.event = .updateConfig new) (name : String) :
    Reached i w₀ (w.dropDevice i.env i.fails new name) := by
  unfold Wireless.dropDevice
  split_ifs with hnone
  · exact h.destroy _ (he ▸ .unlisted (Option.isNone_iff_eq_none.mp hnone))
  · exact h

theorem Reached.configDevice (h : Reached i w₀ w) {new : Config α} (he : i.event = .updateConfig new) {e : String × Data α}
    (hmem : e ∈ new.devices) : Reached i w₀ (w.configDevice i.env i.fails e) := by
  have hdata := Obj.get?_of_mem new.nodup hmem
  unfold Wireless.configDevice
  cases hd : w.devices.get? e.1 with
  | some d => exact h.request hd (f := fun d => some (d.update i.env (some e.2))) (he ▸ .listed hdata) rfl _
  | none => exact h.new hd he hdata

theorem Reached.dropDevices (h : Reached i w₀ w) {new : Config α} (he : i.event = .updateConfig new) :
    Reached i w₀ (w.devices.keys.foldl (Wireless.dropDevice i.env i.fails new) w) :=
  List.foldlRecOn _ _ h fun _ hw name _ => hw.dropDevice he name

theorem Reached.updateConfig (h : Reached i w₀ w) {new : Config α} (he : i.event = .updateConfig new) :
    Reached i w₀ (w.updateConfig i.env i.fails new) :=
  List.foldlRecOn _ _ (h.dropDevices he) fun _ hw _ hmem => hw.configDevice he hmem

theorem Reached.forAutostart (h : Reached i w₀ w) {f : Wdev α → Wdev α × Option Op}
    (hf : ∀ name, Call i.env name i.event fun d => some (if d.autostart then f d else (d, none))) :
    Reached i w₀ (w.forAutostart i.env i.fails f) := by
  unfold Wireless.forAutostart
  exact List.foldlRecOn _ _ h fun w hw name _ => hw.onDevice _ (hf name)

/-- An event is turns of each device, and keeps the scripts in order. -/
theorem Sched.step (h : Sched w) (i : Input α) : Reached i w (w.step i) := by
  have hr : Reached i w w := .refl h
  unfold Wireless.step
  cases he : i.event with
  | start name => exact hr.onDevice _ (he ▸ .start)
  | retrySetup name => exact hr.onDevice _ (he ▸ .retrySetup)
  | stop name => exact hr.onDevice _ (he ▸ .stop)
  | update name data => exact hr.onDevice _ (he ▸ .update data)
  | destroy name => exact hr.destroy _ (he ▸ .destroy)
  | check name => exact hr.onDevice _ (he ▸ .check)
  | up name => exact hr.onDevice _ (he ▸ .up)
  | setData name => exact hr
  | procAdd name pid exe => exact hr.onDevice _ (he ▸ .procAdd pid exe)
  | setRetry name retry => exact hr.onDevice _ (he ▸ .setRetry retry)
  | procCheck name alive => exact hr.onDevice _ (he ▸ .procCheck alive)
  | exit s =>
    dsimp only
    split_ifs with hmem
    · rcases Option.eq_none_or_eq_some w.cur with hcur | ⟨t, hcur⟩
      · rw [(h.idle hcur).1] at hmem
        cases hmem
      · obtain ⟨htasks, htimers, -, htimeout⟩ := h.busy t hcur
        rw [htasks, List.mem_singleton] at hmem
        subst hmem
        refine hr.finish hcur ?_ ?_ ?_ ?_ ?_ ?_ _
        · exact fun _ => rfl
        · exact hcur
        · simp [htasks]
        · simp [htimers, htimeout]
        · rfl
        · rfl
    · exact hr
  | timeout s =>
    dsimp only
    split_ifs with hmem
    · rcases Option.eq_none_or_eq_some w.cur with hcur | ⟨t, hcur⟩
      · rw [(h.idle hcur).2.1] at hmem
        cases hmem
      · obtain ⟨htasks, htimers, htask, -⟩ := h.busy t hcur
        rw [htimers, List.mem_singleton] at hmem
        subst hmem
        refine hr.finish hcur ?_ ?_ ?_ ?_ ?_ ?_ _
        · exact fun _ => rfl
        · exact hcur
        · simp [htasks, htask]
        · simp [htimers]
        · rfl
        · rfl
    · exact hr
  | timer => exact hr.runNextHandler _
  | clock t => exact ⟨⟨h.busy, h.idle, h.serial, h.shapes⟩, fun _ => .refl⟩
  | updateConfig new => exact hr.updateConfig he
  | configStart => exact hr.forAutostart fun name => he ▸ .configStart
  | checkInterfaces => exact hr.forAutostart fun name => he ▸ .checkInterfaces

omit [DecidableEq α] in
theorem Sched.start : Sched ({} : Wireless α) :=
  ⟨nofun, fun _ => ⟨rfl, rfl, rfl, rfl⟩, .nil, fun _ => ⟨rfl, rfl⟩⟩

theorem Sched.run (h : Sched w) (inputs : List (Input α)) : Sched (w.run inputs) := by
  induction inputs generalizing w with
  | nil => exact h
  | cons i inputs ih => exact ih (h.step i).sched

/-- What each turn of a device keeps in a run, for inputs with a property that may depend on the state before. -/
theorem run_keeps {P : View α → Prop} {Q : Wireless α → Input α → Prop} {name : String}
    (hturn : ∀ w i, Q w i → P (w.view name) → ∀ v, Relation.ReflTransGen (Turn i name) (w.view name) v → P v)
    (h : Sched w) {inputs : List (Input α)} (hinputs : ∀ pre i post, inputs = pre ++ i :: post → Q (w.run pre) i) (hv : P (w.view name)) :
    P ((w.run inputs).view name) := by
  induction inputs generalizing w with
  | nil => exact hv
  | cons i inputs ih =>
    have hstep := h.step i
    refine ih hstep.sched (fun pre j post heq => ?_) (hturn w i (hinputs [] i inputs rfl) hv _ (hstep.turns name))
    exact hinputs (i :: pre) j post (by rw [heq, List.cons_append])

/-- The scripts are done: none is queued and none runs. -/
def Wireless.Idle (w : Wireless α) : Prop := w.queue = [] ∧ w.cur = none

omit [DecidableEq α] in
theorem down_or_up_of_idle (h : Sched w) (hidle : w.Idle) (hd : w.devices.get? name = some d) :
    d.state = .down ∨ d.state = .up := by
  have hshape := h.shapes name
  simp only [View.Ok, Wireless.view, hd, hidle.1, hidle.2] at hshape
  cases hs : d.state with
  | down => exact Or.inl rfl
  | up => exact Or.inr rfl
  | setup =>
    rw [Option.map_some, hs] at hshape
    obtain ⟨-, hq | ⟨-, hc⟩⟩ := hshape
    · cases hq
    · cases hc
  | teardown =>
    rw [Option.map_some, hs] at hshape
    rcases hshape with ⟨hq, -⟩ | ⟨-, hc⟩
    · cases hq
    · cases hc

end

end

/-! ### One device -/

/-- An event without networks, where every process can be started. -/
def Input.plain {α : Type} (e : Event α) : Input α := { event := e, env := ⟨fun _ => none, fun _ => none⟩, fails := fun _ => 0 }

def oneRadio : Config Unit := { devices := [("radio0", { config := (), vif := [] })], nodup := by decide }

def noRadio : Config Unit := { devices := [], nodup := List.nodup_nil }

end RainWrt.Wifi
