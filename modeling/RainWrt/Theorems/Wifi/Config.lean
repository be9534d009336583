import RainWrt.Theorems.Wifi.Stop

/-! Reloads of the configuration: once all scripts are done, the devices are those of the last configuration, and were set up
    with it, unless a device comes back into the configuration while its removal still runs. -/

namespace RainWrt.Wifi

variable {α : Type}

/-- What scripts get is made from the configuration of the device. -/
def MadeFrom (data : Data α) (config : HandlerConfig α) : Prop :=
  ∃ disabled bridge, config = { config := data.config, interfaces := data.interfaces disabled bridge }

/-- What the last setup script of a device was given. -/
def View.lastSetup (v : View α) : Option (HandlerConfig α) := ((v.log.filter (·.1 = .setup)).map (·.2)).getLast?

def Given (v : View α) (data : Data α) : Prop := ∃ config, v.lastSetup = some config ∧ MadeFrom data config

/-- A setup script is still to come; a device that is down gets one only from `config_start`. -/
structure Awaits (started : Bool) (v : View α) (d : Wdev α) : Prop where
  failed : d.retrySetupFailed = false
  retry : v.running = some .setup → 0 < d.retry
  down : d.state = .down → started = false
  active : d.state = .setup ∨ d.state = .up → v.queued = some .setup ∨ (d.configChange = true ∧ v.running = some .setup)

/-- A device of the configuration. -/
structure Kept (started : Bool) (v : View α) (d : Wdev α) : Prop where
  delete : d.delete = false
  autostart : d.autostart = true
  config : MadeFrom d.data d.handlerConfig
  last : Given v d.data ∨ Awaits started v d

/-- The events of a reload: those that do not name a device to be started, stopped or changed. -/
def Reload : Event α → Prop
  | .start _ | .stop _ | .update _ _ | .destroy _ | .setRetry _ _ => False
  | _ => True

/-- The new configuration has no device whose removal still runs. -/
def NoReturn (w : Wireless α) (e : Event α) : Prop :=
  ∀ new, e = .updateConfig new → ∀ name d, w.devices.get? name = some d → d.delete = true → new.devices.get? name = none

section
variable {started : Bool} {v : View α} {d d' : Wdev α} {env : Env}

theorem madeFrom_configInit (d : Wdev α) : MadeFrom d.data (d.configInit env).handlerConfig := ⟨d.disabled, env.bridge, rfl⟩

theorem Given.run {op : Op} {config : HandlerConfig α} (h : Given v d.data) (hop : op = .teardown) (q c : Option Op) :
    Given { v with queued := q, running := c, log := v.log ++ [(op, config)] } d.data := by
  obtain ⟨last, hlast, hmade⟩ := h
  refine ⟨last, ?_, hmade⟩
  simpa [View.lastSetup, hop] using hlast

theorem given_run (h : MadeFrom d.data d.handlerConfig) (q c : Option Op) :
    Given { v with queued := q, running := c, log := v.log ++ [(.setup, d.handlerConfig)] } d.data :=
  ⟨d.handlerConfig, by simp [View.lastSetup], h⟩

/-- A device that is asked to set up: in every state but `setup` the script is now queued or comes behind the teardown. -/
theorem kept_setup (hdelete : d.delete = false) (hauto : d.autostart = true) (hconfig : MadeFrom d.data d.handlerConfig)
    (hlast : Given v d.data ∨ (d.retrySetupFailed = false ∧ (v.running = some .setup → 0 < d.retry) ∧
      (d.state = .setup → v.queued = some .setup ∨ (d.configChange = true ∧ v.running = some .setup)))) :
    Kept started { v with dev := some d.setup.1, queued := d.setup.2 <|> v.queued } d.setup.1 := by
  have hsame : Wdev.Same d d.setup.1 := Wdev.Same.setup ⟨rfl, rfl, rfl⟩
  refine ⟨hsame.delete.trans hdelete, hsame.autostart.trans hauto, ?_, ?_⟩
  · rcases d.setup_cases with ⟨heq, -⟩ | ⟨heq, -⟩
    · rw [heq]
      exact hconfig
    · rw [heq]
      exact hconfig
  · rcases hlast with hgiven | ⟨hfailed, hretry, hsetup⟩
    · exact Or.inl (hsame.data ▸ hgiven)
    · refine Or.inr ?_
      rcases d.setup_cases with ⟨heq, hwhy⟩ | ⟨heq, -⟩
      · rw [heq]
        rcases hwhy with ⟨hup, hdown⟩ | hno | hno
        · exact ⟨hfailed, hretry, fun hs => absurd hs hdown, fun hs => hsetup (hs.resolve_right hup)⟩
        · rw [hauto] at hno
          cases hno
        · rw [hfailed] at hno
          cases hno
      · rw [heq]
        exact ⟨hfailed, hretry, nofun, fun _ => Or.inl rfl⟩

/-- The device changes in nothing that counts, or its teardown is queued. -/
theorem Kept.change (h : Kept started v d) (d' : Wdev α) (hsame : Wdev.Same d d') (hconfig : d'.handlerConfig = d.handlerConfig)
    (hfailed : d.retrySetupFailed = false → d'.retrySetupFailed = false) (hretry : 0 < d.retry → 0 < d'.retry)
    (hchange : d.configChange = true → d'.configChange = true) {op : Option Op}
    (hstate : (op = none ∧ (d'.state = d.state ∨ (d.state = .setup ∧ d'.state = .up))) ∨ d'.state = .teardown) :
    Kept started { v with dev := some d', queued := op <|> v.queued } d' := by
  refine ⟨hsame.delete.trans h.delete, hsame.autostart.trans h.autostart, ?_, ?_⟩
  · rw [hsame.data, hconfig]
    exact h.config
  · rcases h.last with hgiven | hawaits
    · exact Or.inl (hsame.data ▸ hgiven)
    · refine Or.inr ⟨hfailed hawaits.failed, fun hrun => hretry (hawaits.retry hrun), fun hs => ?_, fun hs => ?_⟩
      · rcases hstate with ⟨-, heq | ⟨-, heq⟩⟩ | heq
        · exact hawaits.down (heq.symm.trans hs)
        · rw [heq] at hs
          cases hs
        · rw [heq] at hs
          cases hs
      · rcases hstate with ⟨rfl, heq⟩ | heq
        · have hactive : d.state = .setup ∨ d.state = .up := by
            rcases heq with heq | ⟨heq, -⟩
            · rwa [heq] at hs
            · exact Or.inl heq
          exact (hawaits.active hactive).imp id (And.imp_left hchange)
        · rw [heq] at hs
          rcases hs with hs | hs <;> cases hs

theorem Kept.check (h : Kept started v d) :
    Kept started { v with dev := some (d.check env).1, queued := (d.check env).2 <|> v.queued } (d.check env).1 := by
  unfold Wdev.check
  dsimp only
  split_ifs with hchange
  · refine kept_setup h.delete h.autostart (madeFrom_configInit _) ?_
    exact h.last.imp id fun hawaits => ⟨hawaits.failed, hawaits.retry, fun hs => (hawaits.active (Or.inl hs)).imp id fun ⟨_, hrun⟩ =>
      ⟨hchange, hrun⟩⟩
  · refine h.change (d.updateDisabledVifs env) ⟨rfl, rfl, rfl⟩ rfl id id (fun hc => ?_) (Or.inl ⟨rfl, Or.inl rfl⟩)
    simp [Wdev.updateDisabledVifs, hc]

theorem Kept.teardown (h : Kept started v d) :
    Kept started { v with dev := some d.teardown.1, queued := d.teardown.2 <|> v.queued } d.teardown.1 := by
  rcases d.teardown_cases with ⟨heq, -⟩ | ⟨heq, -⟩
  · rw [heq]
    exact h.change { d with cancelSetup := false } ⟨rfl, rfl, rfl⟩ rfl id id id (Or.inl ⟨rfl, Or.inl rfl⟩)
  · rw [heq]
    exact h.change { d with cancelSetup := false, procs := [], state := .teardown } ⟨rfl, rfl, rfl⟩ rfl id id id (Or.inr rfl)

/-- After `start` a device that is down awaits its script, whether or not the reload is over. -/
theorem Kept.start (h : Kept false v d) :
    Kept started { v with dev := some (d.start env).1, queued := (d.start env).2 <|> v.queued } (d.start env).1 := by
  unfold Wdev.start
  rw [if_neg (by rw [h.delete]; exact Bool.false_ne_true)]
  dsimp only
  split_ifs with hs hchange
  · refine ⟨h.delete, rfl, h.config, h.last.imp id fun hawaits => ?_⟩
    exact ⟨rfl, fun _ => (by decide : (0 : Int) < 3), fun hdown => absurd hdown hs, hawaits.active⟩
  · have hdown : d.state = .down := not_not.mp hs
    refine kept_setup h.delete rfl (madeFrom_configInit _) (Or.inr ⟨rfl, fun _ => (by decide : (0 : Int) < 3), fun hsetup => ?_⟩)
    cases hdown.symm.trans hsetup
  · have hdown : d.state = .down := not_not.mp hs
    refine kept_setup h.delete rfl h.config (Or.inr ⟨rfl, fun _ => (by decide : (0 : Int) < 3), fun hsetup => ?_⟩)
    cases hdown.symm.trans hsetup

theorem Kept.weaken (h : Kept started v d) : Kept false v d :=
  ⟨h.delete, h.autostart, h.config, h.last.imp id fun hawaits => ⟨hawaits.failed, hawaits.retry, fun _ => rfl, hawaits.active⟩⟩

variable [DecidableEq α]

/-- After an update the device has the new configuration, and a script for it is to come. -/
theorem Kept.update (h : Kept started v d) (env : Env) (hok : v.Ok) (hd : v.dev = some d) (data : Data α) :
    Kept started { v with dev := some (d.update env (some data)).1, queued := (d.update env (some data)).2 <|> v.queued }
      (d.update env (some data)).1 ∧ (d.update env (some data)).1.data = data := by
  unfold Wdev.update
  split_ifs with heq
  · cases heq
    exact ⟨h.change d ⟨rfl, rfl, rfl⟩ rfl id id id (Or.inl ⟨rfl, Or.inl rfl⟩), rfl⟩
  · dsimp only [Wdev.check]
    rw [if_pos (by simp [Wdev.updateDisabledVifs])]
    refine ⟨kept_setup rfl h.autostart (madeFrom_configInit _) (Or.inr ⟨rfl, fun _ => (by decide : (0 : Int) < 3), fun hs => ?_⟩), ?_⟩
    -- in setup a script is queued, or one runs that will find the change
    · rw [View.Ok, hd, Option.map_some, show d.state = .setup from hs] at hok
      exact hok.2.imp id fun hrun => ⟨by simp [Wdev.configInit, Wdev.updateDisabledVifs], hrun.2⟩
    · exact (Wdev.Same.setup ⟨rfl, rfl, rfl⟩).data

variable {e : Event α} {name : String}

theorem Kept.call (h : Kept started v d) (hok : v.Ok) (hd : v.dev = some d) (hreload : Reload e) (hdestroys : ¬Destroys name e)
    {f : Wdev α → Option (Wdev α × Option Op)} {r : Wdev α × Option Op} (hf : Call env name e f) (hr : f d = some r) :
    Kept started { v with dev := some r.1, queued := r.2 <|> v.queued } r.1 ∧
      (r.1.data = d.data ∨ ∃ new, e = .updateConfig new ∧ new.devices.get? name = some r.1.data) := by
  have hsame : Kept started { v with dev := some d, queued := (none : Option Op) <|> v.queued } d :=
    h.change d ⟨rfl, rfl, rfl⟩ rfl id id id (Or.inl ⟨rfl, Or.inl rfl⟩)
  cases hf with
  | start => exact hreload.elim
  | stop => exact hreload.elim
  | update data => exact hreload.elim
  | destroy => exact hreload.elim
  | setRetry retry => exact hreload.elim
  | unlisted hnone => exact absurd hnone hdestroys
  | @listed new data hdata =>
    cases hr
    obtain ⟨hkept, heq⟩ := h.update env hok hd data
    exact ⟨hkept, Or.inr ⟨new, rfl, hdata.trans (congrArg some heq.symm)⟩⟩
  | retrySetup =>
    cases hr
    unfold Wdev.retrySetup
    split_ifs
    · exact ⟨hsame, Or.inl rfl⟩
    · exact ⟨h.weaken.start, Or.inl Wdev.same_start.data⟩
  | check =>
    cases hr
    exact ⟨h.check, Or.inl (Wdev.Same.check ⟨rfl, rfl, rfl⟩).data⟩
  | up =>
    cases hr
    refine ⟨h.change d.markUp Wdev.same_markUp ?_ ?_ ?_ ?_ (Or.inl ⟨rfl, ?_⟩), Or.inl Wdev.same_markUp.data⟩
    all_goals
      unfold Wdev.markUp
      split_ifs with hs
    all_goals first
      | rfl
      | exact id
      | exact Or.inr ⟨hs, rfl⟩
      | exact Or.inl rfl
  | procAdd pid exe =>
    cases hr
    refine ⟨h.change (d.procAdd pid exe) (Wdev.same_procAdd pid exe) ?_ ?_ ?_ ?_ (Or.inl ⟨rfl, Or.inl ?_⟩), Or.inl (Wdev.same_procAdd pid exe).data⟩
    all_goals
      unfold Wdev.procAdd
      split_ifs
    all_goals first
      | rfl
      | exact id
  | procCheck alive =>
    cases hr
    refine ⟨?_, Or.inl (Wdev.same_procCheck alive).data⟩
    unfold Wdev.procCheck
    split_ifs
    · exact hsame
    · exact h.teardown
  | configStart =>
    cases hr
    rw [if_pos h.autostart]
    exact ⟨h.weaken.start, Or.inl Wdev.same_start.data⟩
  | checkInterfaces =>
    cases hr
    rw [if_pos h.autostart]
    exact ⟨h.check, Or.inl (Wdev.Same.check ⟨rfl, rfl, rfl⟩).data⟩

theorem Call.eq_destroy {f : Wdev α → Option (Wdev α × Option Op)} (hf : Call env name e f) (h : Destroys name e) :
    f = Wdev.destroy := by
  cases hf with
  | destroy => rfl
  | unlisted => rfl
  | listed hdata =>
    rw [show _ = none from h] at hdata
    cases hdata
  | _ => exact h.elim

/-- A device of the configuration stays one, with its own data or those that a new configuration has for it, or is destroyed. -/
theorem Kept.turn {i : Input α} {v' : View α} (hturn : Turn i name v v') (hreload : Reload i.event) (hok : v.Ok) (hd : v.dev = some d)
    (h : Kept started v d) :
    (∃ d', v'.dev = some d' ∧ Kept started v' d' ∧
      (d'.data = d.data ∨ ∃ new, i.event = .updateConfig new ∧ new.devices.get? name = some d'.data)) ∨
    (Destroys name i.event ∧ ∀ d', v'.dev = some d' → Halted true false d') := by
  cases hturn with
  | @act d₀ f r hd₀ hf hr =>
    rw [hd] at hd₀
    cases hd₀
    by_cases hdestroys : Destroys name i.event
    · refine Or.inr ⟨hdestroys, fun d' hd' => ?_⟩
      cases hd'
      exact halted_destroy ((hf.eq_destroy hdestroys) ▸ hr)
    · obtain ⟨hkept, hdata⟩ := h.call hok hd hreload hdestroys hf hr
      exact Or.inl ⟨r.1, rfl, hkept, hdata⟩
  | gone hd₀ hf hr =>
    refine Or.inr ⟨?_, nofun⟩
    obtain ⟨-, he | ⟨new, he, hnone⟩⟩ := hf.gone hr
    · rw [he]
      exact rfl
    · rw [he]
      exact hnone
  | new hd₀ he hdata =>
    rw [hd] at hd₀
    cases hd₀
  | @run d₀ op hd₀ hq hc =>
    rw [hd] at hd₀
    cases hd₀
    refine Or.inl ⟨d, hd, ⟨h.delete, h.autostart, h.config, ?_⟩, Or.inl rfl⟩
    cases op with
    | setup => exact Or.inl (given_run h.config none _)
    | teardown =>
      refine h.last.imp (fun hgiven => hgiven.run rfl none _) fun hawaits => ⟨hawaits.failed, nofun, hawaits.down, fun hs => ?_⟩
      -- the teardown of a device runs only in the state `teardown`
      rcases hawaits.active hs with hq' | ⟨-, hrun⟩
      · rw [hq] at hq'
        cases hq'
      · rw [hc] at hrun
        cases hrun
  | @setupDone d₀ hd₀ hc =>
    rw [hd] at hd₀
    cases hd₀
    refine Or.inl ⟨_, rfl, ?_, Or.inl (Wdev.Same.setupCb ⟨rfl, rfl, rfl⟩).data⟩
    rcases d.setupCb_cases i.env with ⟨-, d', heq, ⟨-, rfl⟩ | ⟨hno, rfl⟩⟩ | ⟨hs, hchange, heq⟩ | ⟨hs, hnot, heq⟩
    · rw [heq]
      refine ⟨h.delete, h.autostart, h.config, h.last.imp id fun hawaits => ⟨hawaits.failed, nofun, nofun, fun hs => ?_⟩⟩
      rcases hs with hs | hs <;> cases hs
    · rw [heq]
      refine ⟨h.delete, h.autostart, h.config, h.last.imp id fun hawaits => absurd (hawaits.retry hc) (Int.not_lt.mpr hno)⟩
    · rw [heq]
      refine kept_setup (v := { v with running := none }) h.delete h.autostart (madeFrom_configInit _) ?_
      exact h.last.imp id fun hawaits => ⟨hawaits.failed, nofun, fun hs' => nomatch hs.symm.trans hs'⟩
    · rw [heq]
      refine ⟨h.delete, h.autostart, h.config, h.last.imp id fun hawaits => ⟨hawaits.failed, nofun, hawaits.down, fun hs' => ?_⟩⟩
      have hup := hs'.resolve_left hs
      rcases hawaits.active hs' with hq | ⟨hchange, -⟩
      · exact Or.inl hq
      · exact absurd ⟨hup, hchange⟩ hnot
  | @teardownDone d₀ r hd₀ hc hr =>
    rw [hd] at hd₀
    cases hd₀
    obtain ⟨-, rfl⟩ := teardownCb_some hr
    refine Or.inl ⟨_, rfl, ?_, Or.inl (Wdev.Same.setup ⟨rfl, rfl, rfl⟩).data⟩
    refine kept_setup (v := { v with running := none }) h.delete h.autostart h.config ?_
    exact h.last.imp id fun hawaits => ⟨hawaits.failed, nofun, nofun⟩
  | deleted hd₀ hc hr =>
    rw [hd] at hd₀
    cases hd₀
    exact absurd (h.delete.symm.trans (teardownCb_none hr)) Bool.false_ne_true

/-! ### Whole events -/

/-- The device has these data, and its setup with them is made or to come. -/
def Listed (data : Data α) (started : Bool) (v : View α) : Prop := v.Ok ∧ ∃ d, v.dev = some d ∧ d.data = data ∧ Kept started v d

/-- What can be between reloads. -/
def Settled (past : Bool) (v : View α) : Prop := v.Ok ∧ ∀ d, v.dev = some d → Halted true past d ∨ Kept false v d

section
variable {i : Input α} {v' : View α} {data : Data α} {past : Bool}

theorem Listed.turn (hturn : Turn i name v v') (hreload : Reload i.event)
    (hkeeps : ∀ new, i.event = .updateConfig new → new.devices.get? name = some data) (h : Listed data started v) : Listed data started v' := by
  obtain ⟨hok, d, hd, hdata, hkept⟩ := h
  refine ⟨hturn.ok hok, ?_⟩
  rcases hkept.turn hturn hreload hok hd with ⟨d', hd', hkept', heq | ⟨new, he, hnew⟩⟩ | ⟨hdestroys, -⟩
  · exact ⟨d', hd', heq.trans hdata, hkept'⟩
  · rw [hkeeps new he] at hnew
    exact ⟨d', hd', (Option.some.inj hnew).symm, hkept'⟩
  · exfalso
    cases he : i.event with
    | updateConfig new =>
      rw [he] at hdestroys
      have hnone := (hkeeps new he).symm.trans (show _ = none from hdestroys)
      cases hnone
    | destroy n =>
      rw [he] at hreload
      exact hreload
    | _ =>
      rw [he] at hdestroys
      exact hdestroys

omit [DecidableEq α] in
theorem leaves_of_reload (hreload : Reload e) (hnone : ∀ new, e = .updateConfig new → new.devices.get? name = none) : Leaves name e := by
  cases e with
  | start n => exact hreload.elim
  | update n data => exact hreload.elim
  | updateConfig new => exact hnone new rfl
  | _ => trivial

theorem Settled.turn (hturn : Turn i name v v') (hreload : Reload i.event)
    (hnone : ∀ new, i.event = .updateConfig new → new.devices.get? name = none) (hup : i.event = .up name ↔ past = true)
    (h : Settled past v) : Settled past v' := by
  have hleaves : Leaves name i.event := leaves_of_reload hreload hnone
  refine ⟨hturn.ok h.1, ?_⟩
  cases hd : v.dev with
  | none =>
    intro d' hd'
    exact Or.inl (Halted.turn hturn hleaves hup.mp (fun d hd₀ => nomatch hd.symm.trans hd₀) d' hd')
  | some d =>
    rcases h.2 d hd with hhalted | hkept
    · intro d' hd'
      refine Or.inl (Halted.turn hturn hleaves hup.mp (fun d₀ hd₀ => ?_) d' hd')
      rw [hd] at hd₀
      cases hd₀
      exact hhalted
    · intro d' hd'
      rcases hkept.turn hturn hreload h.1 hd with ⟨d₀, hd₀, hkept', -⟩ | ⟨hdestroys, hhalted⟩
      · rw [hd₀] at hd'
        cases hd'
        exact Or.inr hkept'
      · have hd' := hhalted d' hd'
        refine Or.inl ⟨hd'.autostart, hd'.notUp, hd'.deleted, fun hpast => ?_⟩
        rw [hup.mpr hpast] at hdestroys
        exact hdestroys.elim

variable {w : Wireless α}

omit [DecidableEq α] in
/-- Once all scripts are done, none is to come. -/
theorem Listed.given (h : Listed data true (w.view name)) (hidle : w.Idle) :
    ∃ d, w.devices.get? name = some d ∧ d.autostart = true ∧ d.delete = false ∧ Given (w.view name) data := by
  obtain ⟨hok, d, hd, rfl, hkept⟩ := h
  refine ⟨d, hd, hkept.autostart, hkept.delete, hkept.last.resolve_right fun hawaits => ?_⟩
  have hqueued : (w.view name).queued = none := by simp [Wireless.view, hidle.1]
  have hrunning : (w.view name).running = none := by simp [Wireless.view, hidle.2]
  have hactive : ¬(d.state = .setup ∨ d.state = .up) := by
    intro hs
    rcases hawaits.active hs with hq | ⟨-, hrun⟩
    · cases hqueued.symm.trans hq
    · cases hrunning.symm.trans hrun
  rw [View.Ok, hd, hqueued, hrunning, Option.map_some] at hok
  cases hs : d.state with
  | down => cases hawaits.down hs
  | setup => exact hactive (Or.inl hs)
  | up => exact hactive (Or.inr hs)
  | teardown =>
    rw [hs] at hok
    rcases hok with ⟨hq, -⟩ | ⟨-, hrun⟩
    · cases hq
    · cases hrun

/-! ### Runs -/

/-- What a step of a reload has to leave alone. -/
def Orderly (w : Wireless α) (e : Event α) : Prop := Reload e ∧ NoReturn w e ∧ ∀ name, NoLateUp name w e

end

end

theorem orderly_nil {w : Wireless Unit} : ∀ before j after, ([] : List (Input Unit)) = before ++ j :: after →
    Orderly (w.run before) j.event := by
  intro before j after heq
  simp at heq

theorem orderly_cons {w : Wireless Unit} {i : Input Unit} {is : List (Input Unit)} (hi : Orderly w i.event)
    (his : ∀ before j after, is = before ++ j :: after → Orderly ((w.step i).run before) j.event) :
    ∀ before j after, i :: is = before ++ j :: after → Orderly (w.run before) j.event := by
  intro before j after heq
  cases before with
  | nil =>
    cases heq
    exact hi
  | cons b before =>
    cases heq
    exact his before j after rfl

/-- The radio is set up, removed, and set up again once it is torn down. -/
def again : List (Input Unit) :=
  [.plain (.updateConfig oneRadio), .plain .configStart, .plain (.up "radio0"), .plain (.exit ⟨0, "radio0", .setup⟩),
    .plain (.updateConfig noRadio), .plain (.exit ⟨1, "radio0", .teardown⟩)]

end RainWrt.Wifi
