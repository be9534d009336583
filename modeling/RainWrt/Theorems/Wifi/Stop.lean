import RainWrt.Theorems.Wifi.Device

/-! `stop` and `destroy`: a device that is stopped goes down, unless its setup script, which is not cancelled, still reports
    that the device is up. -/

namespace RainWrt.Wifi

variable {α : Type}

/-- The event is no `start` or `update` of the device. -/
def Leaves (name : String) : Event α → Prop
  | .start n => n ≠ name
  | .update n _ => n ≠ name
  | .updateConfig new => new.devices.get? name = none
  | _ => True

/-- The event is no report that a device is up which is in setup and was stopped. -/
def NoLateUp (name : String) (w : Wireless α) (e : Event α) : Prop :=
  e = .up name → ∀ d, w.devices.get? name = some d → d.state = .setup → d.autostart = true

/-- The event destroys the device. -/
def Destroys (name : String) : Event α → Prop
  | .destroy n => n = name
  | .updateConfig new => new.devices.get? name = none
  | _ => False

/-- A device that is stopped, or destroyed, and past its setup. -/
structure Halted (destroyed past : Bool) (d : Wdev α) : Prop where
  autostart : d.autostart = false
  notUp : d.state ≠ .up
  deleted : destroyed = true → d.delete = true ∧ d.state ≠ .down
  past : past = true → d.state ≠ .setup

section
variable {destroyed past : Bool} {d d' : Wdev α} {env : Env}

/-- The device changes in nothing that counts. -/
theorem Halted.same (h : Halted destroyed past d) (ha : d'.autostart = d.autostart) (hs : d'.state = d.state) (hd : d'.delete = d.delete) :
    Halted destroyed past d' := by
  refine ⟨ha.trans h.autostart, ?_, ?_, ?_⟩
  · rw [hs]
    exact h.notUp
  · rw [hs, hd]
    exact h.deleted
  · rw [hs]
    exact h.past

theorem Halted.setup (h : Halted destroyed past d) : Halted destroyed past d.setup.1 := by
  rcases d.setup_cases with ⟨heq, -⟩ | ⟨-, -, ha, -⟩
  · rw [heq]
    exact h
  · rw [h.autostart] at ha
    cases ha

theorem Halted.teardown (h : Halted destroyed past d) : Halted destroyed past d.teardown.1 := by
  rcases d.teardown_cases with ⟨heq, -⟩ | ⟨heq, -⟩
  · rw [heq]
    exact h.same rfl rfl rfl
  · rw [heq]
    exact ⟨h.autostart, nofun, fun hdel => ⟨(h.deleted hdel).1, nofun⟩, fun _ => nofun⟩

theorem Halted.check (h : Halted destroyed past d) : Halted destroyed past (d.check env).1 := by
  unfold Wdev.check
  dsimp only
  split_ifs
  · exact Halted.setup (h.same rfl rfl rfl)
  · exact h.same rfl rfl rfl

theorem Halted.stop (h : Halted destroyed past d) : Halted destroyed past d.stop.1 := by
  rcases d.stop_cases with ⟨hs, -⟩ | ⟨-, cancel, heq⟩
  · exact absurd hs h.notUp
  · rw [heq]
    exact h.same h.autostart.symm rfl rfl

theorem Halted.destroy (h : Halted destroyed past d) {r : Wdev α × Option Op} (hr : d.destroy = some r) : Halted destroyed past r.1 := by
  rcases d.destroy_cases with ⟨-, heq⟩ | ⟨hs, heq⟩
  · rw [heq] at hr
    cases hr
  · rw [heq] at hr
    cases hr
    refine Halted.stop ⟨rfl, h.notUp, fun _ => ⟨rfl, hs⟩, h.past⟩

theorem halted_stop (d : Wdev α) : Halted false false d.stop.1 := by
  rcases d.stop_cases with ⟨-, heq⟩ | ⟨hs, cancel, heq⟩
  · rw [heq]
    exact ⟨rfl, nofun, nofun, nofun⟩
  · rw [heq]
    exact ⟨rfl, hs, nofun, nofun⟩

theorem halted_destroy {r : Wdev α × Option Op} (hr : d.destroy = some r) : Halted true false r.1 := by
  rcases d.destroy_cases with ⟨-, heq⟩ | ⟨hs, heq⟩
  · rw [heq] at hr
    cases hr
  · rw [heq] at hr
    cases hr
    have hstop := halted_stop { d with autostart := false, delete := true }
    refine ⟨hstop.autostart, hstop.notUp, fun _ => ?_, nofun⟩
    rcases Wdev.stop_cases { d with autostart := false, delete := true } with ⟨-, heq⟩ | ⟨-, cancel, heq⟩
    · rw [heq]
      exact ⟨rfl, nofun⟩
    · rw [heq]
      exact ⟨rfl, hs⟩

variable [DecidableEq α] {e : Event α} {name : String}

theorem Halted.call (h : Halted destroyed past d) (hleaves : Leaves name e) (hup : e = .up name → past = true)
    {f : Wdev α → Option (Wdev α × Option Op)} {r : Wdev α × Option Op} (hf : Call env name e f) (hr : f d = some r) :
    Halted destroyed past r.1 := by
  have hauto : ¬d.autostart = true := by
    rw [h.autostart]
    exact Bool.false_ne_true
  cases hf with
  | start => exact absurd rfl hleaves
  | update data => exact absurd rfl hleaves
  | listed hdata =>
    rw [show _ = none from hleaves] at hdata
    cases hdata
  | unlisted => exact h.destroy hr
  | destroy => exact h.destroy hr
  | retrySetup =>
    cases hr
    rw [Wdev.retrySetup, if_pos (Or.inr (Or.inr (by simpa using hauto)))]
    exact h
  | stop =>
    cases hr
    exact h.stop
  | check =>
    cases hr
    exact h.check
  | up =>
    cases hr
    rw [Wdev.markUp, if_neg (h.past (hup rfl))]
    exact h
  | procAdd pid exe =>
    cases hr
    unfold Wdev.procAdd
    split_ifs
    · exact h
    · exact h.same rfl rfl rfl
  | setRetry retry =>
    cases hr
    exact h.same rfl rfl rfl
  | procCheck alive =>
    cases hr
    unfold Wdev.procCheck
    split_ifs
    · exact h
    · exact h.teardown
  | configStart =>
    cases hr
    rw [if_neg hauto]
    exact h
  | checkInterfaces =>
    cases hr
    rw [if_neg hauto]
    exact h

theorem Halted.turn {i : Input α} {v v' : View α} (hturn : Turn i name v v') (hleaves : Leaves name i.event)
    (hup : i.event = .up name → past = true) (h : ∀ d, v.dev = some d → Halted destroyed past d) :
    ∀ d, v'.dev = some d → Halted destroyed past d := by
  cases hturn with
  | act hd hf hr =>
    intro d' hd'
    cases hd'
    exact (h _ hd).call hleaves hup hf hr
  | gone hd hf hr => nofun
  | new hd he hdata =>
    rw [he] at hleaves
    rw [show _ = none from hleaves] at hdata
    cases hdata
  | run hd hq hc => exact h
  | @setupDone d hd hc =>
    intro d' hd'
    cases hd'
    have hd := h d hd
    rcases d.setupCb_cases i.env with ⟨-, d', heq, hd'⟩ | ⟨hs, -⟩ | ⟨-, -, heq⟩
    · rw [heq]
      rcases hd' with ⟨-, rfl⟩ | ⟨-, rfl⟩
      · exact ⟨hd.autostart, nofun, fun hdel => ⟨(hd.deleted hdel).1, nofun⟩, fun _ => nofun⟩
      · exact ⟨hd.autostart, nofun, fun hdel => ⟨(hd.deleted hdel).1, nofun⟩, fun _ => nofun⟩
    · exact absurd hs hd.notUp
    · rw [heq]
      exact hd
  | @teardownDone d r hd hc hr =>
    intro d' hd'
    cases hd'
    have hd := h d hd
    obtain ⟨hdel, rfl⟩ := teardownCb_some hr
    refine Halted.setup ⟨hd.autostart, nofun, fun hdestroyed => ?_, fun _ => nofun⟩
    rw [(hd.deleted hdestroyed).1] at hdel
    cases hdel
  | deleted hd hc hr => nofun

theorem delete_call {f : Wdev α → Option (Wdev α × Option Op)} {r : Wdev α × Option Op} (hleaves : Leaves name e)
    (hdestroys : ¬Destroys name e) (hf : Call env name e f) (hr : f d = some r) : r.1.delete = d.delete := by
  cases hf with
  | start => exact absurd rfl hleaves
  | update data => exact absurd rfl hleaves
  | listed hdata =>
    rw [show _ = none from hleaves] at hdata
    cases hdata
  | unlisted hnone => exact absurd hnone hdestroys
  | destroy => exact absurd rfl hdestroys
  | retrySetup =>
    cases hr
    unfold Wdev.retrySetup
    split_ifs
    · rfl
    · exact Wdev.same_start.delete
  | stop =>
    cases hr
    rcases d.stop_cases with ⟨-, heq⟩ | ⟨-, cancel, heq⟩ <;> rw [heq]
  | check =>
    cases hr
    exact (Wdev.Same.check ⟨rfl, rfl, rfl⟩).delete
  | up =>
    cases hr
    exact Wdev.same_markUp.delete
  | procAdd pid exe =>
    cases hr
    exact (Wdev.same_procAdd pid exe).delete
  | setRetry retry =>
    cases hr
    rfl
  | procCheck alive =>
    cases hr
    exact (Wdev.same_procCheck alive).delete
  | configStart =>
    cases hr
    split_ifs
    · exact Wdev.same_start.delete
    · rfl
  | checkInterfaces =>
    cases hr
    split_ifs
    · exact (Wdev.Same.check ⟨rfl, rfl, rfl⟩).delete
    · rfl

/-- A device that is there and not to be deleted stays. -/
theorem kept_turn {i : Input α} {v v' : View α} (hturn : Turn i name v v') (hleaves : Leaves name i.event)
    (hdestroys : ¬Destroys name i.event) (h : ∃ d, v.dev = some d ∧ d.delete = false) : ∃ d, v'.dev = some d ∧ d.delete = false := by
  obtain ⟨d, hd, hdel⟩ := h
  cases hturn with
  | @act d' f r hd' hf hr =>
    rw [hd] at hd'
    cases hd'
    exact ⟨r.1, rfl, (delete_call hleaves hdestroys hf hr).trans hdel⟩
  | gone hd' hf hr =>
    obtain ⟨-, he | ⟨new, he, hnone⟩⟩ := hf.gone hr
    · rw [he] at hdestroys
      exact absurd rfl hdestroys
    · rw [he] at hdestroys
      exact absurd hnone hdestroys
  | new hd' he hdata =>
    rw [hd] at hd'
    cases hd'
  | run hd' hq hc => exact ⟨d, hd, hdel⟩
  | @setupDone d' hd' hc =>
    rw [hd] at hd'
    cases hd'
    exact ⟨_, rfl, (Wdev.Same.setupCb ⟨rfl, rfl, rfl⟩).delete.trans hdel⟩
  | @teardownDone d' r hd' hc hr =>
    rw [hd] at hd'
    cases hd'
    obtain ⟨-, rfl⟩ := teardownCb_some hr
    exact ⟨_, rfl, (Wdev.Same.setup ⟨rfl, rfl, rfl⟩).delete.trans hdel⟩
  | deleted hd' hc hr =>
    rw [hd] at hd'
    cases hd'
    rw [teardownCb_none hr] at hdel
    cases hdel

/-- A run behind which a device is halted. -/
theorem halted_run {w : Wireless α} (h : Sched w) {inputs : List (Input α)} (hleaves : ∀ i ∈ inputs, Leaves name i.event)
    (hup : ∀ pre i post, inputs = pre ++ i :: post → NoLateUp name (w.run pre) i.event)
    (hv : ∀ d, w.devices.get? name = some d → Halted destroyed false d) :
    ∀ d, (w.run inputs).devices.get? name = some d → Halted destroyed false d := by
  refine run_keeps (P := fun v => ∀ d, v.dev = some d → Halted destroyed false d)
    (Q := fun w i => Leaves name i.event ∧ NoLateUp name w i.event) ?_ h ?_ hv
  · intro w i ⟨hleaves, hup⟩ hv v hturns
    by_cases he : i.event = .up name
    -- the report comes when the device is past its setup
    · have hpast : ∀ d, v.dev = some d → Halted destroyed true d := by
        refine turns_keep (P := fun v => ∀ d, v.dev = some d → Halted destroyed true d)
          (fun hturn h => Halted.turn hturn hleaves (fun _ => rfl) h) hturns fun d hd => ?_
        have hd' := hv d hd
        refine ⟨hd'.autostart, hd'.notUp, hd'.deleted, fun _ hs => ?_⟩
        have hauto := hup he d hd hs
        rw [hd'.autostart] at hauto
        cases hauto
      exact fun d hd => ⟨(hpast d hd).autostart, (hpast d hd).notUp, (hpast d hd).deleted, nofun⟩
    · exact turns_keep (P := fun v => ∀ d, v.dev = some d → Halted destroyed false d)
        (fun hturn h => Halted.turn hturn hleaves (fun hup => absurd hup he) h) hturns hv
  · intro pre i post heq
    exact ⟨hleaves i (by simp [heq]), hup pre i post heq⟩

theorem halted_step {w : Wireless α} (h : Sched w) {i : Input α} :
    (i.event = .stop name → ∀ d, (w.step i).devices.get? name = some d → Halted false false d) ∧
      (i.event = .destroy name → ∀ d, (w.step i).devices.get? name = some d → Halted true false d) := by
  constructor
  · intro he
    have hstep : w.step i = w.onDevice i.env (i.fails name) name (·.stop) := by
      rw [Wireless.step, he]
    rw [hstep, Wireless.onDevice]
    cases hd : w.devices.get? name with
    | none =>
      intro d hd'
      rw [hd] at hd'
      cases hd'
    | some d =>
      refine request_gives (P := fun v => ∀ d, v.dev = some d → Halted false false d) (f := fun d => some d.stop) h hd (he ▸ .stop) rfl
        (fun hturn hv => Halted.turn hturn (he ▸ trivial) (fun hup => nomatch he.symm.trans hup) hv) _ ?_
      intro d' hd'
      cases hd'
      exact halted_stop d
  · intro he
    have hstep : w.step i = w.destroy i.env (i.fails name) name := by
      rw [Wireless.step, he]
    rw [hstep, Wireless.destroy]
    cases hd : w.devices.get? name with
    | none =>
      intro d hd'
      rw [hd] at hd'
      cases hd'
    | some d =>
      dsimp only
      cases hr : d.destroy with
      | none =>
        intro d' hd'
        dsimp only at hd'
        rw [Obj.get?_del, if_pos rfl] at hd'
        cases hd'
      | some r =>
        refine request_gives (P := fun v => ∀ d, v.dev = some d → Halted true false d) (f := fun d => d.destroy) h hd (he ▸ .destroy) hr
          (fun hturn hv => Halted.turn hturn (he ▸ trivial) (fun hup => nomatch he.symm.trans hup) hv) _ ?_
        intro d' hd'
        cases hd'
        exact halted_destroy hr

/-- The device stays there when nothing destroys it. -/
theorem kept_run {w : Wireless α} (h : Sched w) {inputs : List (Input α)} (hleaves : ∀ i ∈ inputs, Leaves name i.event)
    (hdestroys : ∀ i ∈ inputs, ¬Destroys name i.event) (hv : ∃ d, w.devices.get? name = some d ∧ d.delete = false) :
    ∃ d, (w.run inputs).devices.get? name = some d ∧ d.delete = false := by
  refine run_keeps (P := fun v => ∃ d, v.dev = some d ∧ d.delete = false)
    (Q := fun _ i => Leaves name i.event ∧ ¬Destroys name i.event) ?_ h ?_ hv
  · intro w i ⟨hleaves, hdestroys⟩ hv v hturns
    exact turns_keep (fun hturn h => kept_turn hturn hleaves hdestroys h) hturns hv
  · intro pre i post heq
    exact ⟨hleaves i (by simp [heq]), hdestroys i (by simp [heq])⟩

/-- A device that is stopped and then not started or updated is down once all scripts are done, and one that is destroyed is
    gone, if no script reports that a device is up which was stopped during its setup. -/
theorem stop_converges (name : String) (pre : List (Input α)) (i : Input α) (post : List (Input α))
    (hleaves : ∀ j ∈ post, Leaves name j.event)
    (hup : ∀ mid j rest, post = mid ++ j :: rest → NoLateUp name (({} : Wireless α).run (pre ++ i :: mid)) j.event)
    (hidle : (({} : Wireless α).run (pre ++ i :: post)).Idle) :
    (i.event = .stop name →
      (∀ d, (({} : Wireless α).run (pre ++ i :: post)).devices.get? name = some d → d.state = .down) ∧
      ((∃ d, (({} : Wireless α).run pre).devices.get? name = some d ∧ d.delete = false) → (∀ j ∈ post, ¬Destroys name j.event) →
        ∃ d, (({} : Wireless α).run (pre ++ i :: post)).devices.get? name = some d ∧ d.state = .down)) ∧
    (i.event = .destroy name → (({} : Wireless α).run (pre ++ i :: post)).devices.get? name = none) := by
  have hpre : Sched (({} : Wireless α).run pre) := Sched.start.run pre
  have hrun : ∀ mid, ({} : Wireless α).run (pre ++ i :: mid) = ((({} : Wireless α).run pre).step i).run mid := by
    intro mid
    simp [Wireless.run]
  simp only [hrun] at hup hidle ⊢
  have hsched := (hpre.step i).sched
  have hend := hsched.run post
  have hdown : (∀ d, ((({} : Wireless α).run pre).step i).devices.get? name = some d → Halted false false d) →
      ∀ d, (((({} : Wireless α).run pre).step i).run post).devices.get? name = some d → d.state = .down := by
    intro hv d hd
    have hd' := halted_run hsched hleaves hup hv d hd
    exact (down_or_up_of_idle hend hidle hd).resolve_right hd'.notUp
  refine ⟨fun he => ?_, fun he => ?_⟩
  · have hv := (halted_step hpre).1 he
    refine ⟨hdown hv, fun hkept hdestroys => ?_⟩
    have hi : Leaves name i.event ∧ ¬Destroys name i.event := by
      rw [he]
      exact ⟨trivial, id⟩
    have hkept := turns_keep (fun hturn h => kept_turn hturn hi.1 hi.2 h) ((hpre.step i).turns name) hkept
    obtain ⟨d, hd, -⟩ := kept_run hsched hleaves hdestroys hkept
    exact ⟨d, hd, hdown hv d hd⟩
  · have hv := (halted_step hpre).2 he
    cases hd : (((({} : Wireless α).run pre).step i).run post).devices.get? name with
    | none => rfl
    | some d =>
      have hd' := halted_run hsched hleaves hup hv d hd
      rcases down_or_up_of_idle hend hidle hd with hs | hs
      · exact absurd hs (hd'.deleted rfl).2
      · exact absurd hs hd'.notUp

theorem stop_converges_radio : ∃ d, (({} : Wireless Unit).run [.plain (.updateConfig oneRadio), .plain .configStart,
    .plain (.stop "radio0"), .plain (.exit ⟨0, "radio0", .setup⟩), .plain (.exit ⟨1, "radio0", .teardown⟩)]).devices.get? "radio0" = some d ∧
    d.state = .down := by
  refine ((stop_converges "radio0" [.plain (.updateConfig oneRadio), .plain .configStart] (.plain (.stop "radio0"))
    [.plain (.exit ⟨0, "radio0", .setup⟩), .plain (.exit ⟨1, "radio0", .teardown⟩)] ?_ ?_ ⟨rfl, rfl⟩).1 rfl).2 ⟨_, rfl, rfl⟩ ?_
  · simp [Input.plain, Leaves]
  · intro mid j rest heq hup
    have hj : j ∈ mid ++ j :: rest := by simp
    rw [← heq] at hj
    rcases List.mem_cons.mp hj with rfl | hj
    · cases hup
    · rw [List.mem_singleton.mp hj] at hup
      cases hup
  · simp [Input.plain, Destroys]

/-- A stop while the setup script runs is lost when the script then reports that the device is up. -/
theorem stop_not_converges : ¬∀ (name : String) (pre : List (Input Unit)) (i : Input Unit) (post : List (Input Unit)), i.event = .stop name →
    (∀ j ∈ post, Leaves name j.event) → (({} : Wireless Unit).run (pre ++ i :: post)).Idle →
    ∀ d, (({} : Wireless Unit).run (pre ++ i :: post)).devices.get? name = some d → d.state = .down := by
  intro h
  have hup : ∃ d, (({} : Wireless Unit).run [.plain (.updateConfig oneRadio), .plain .configStart, .plain (.stop "radio0"),
      .plain (.up "radio0"), .plain (.exit ⟨0, "radio0", .setup⟩)]).devices.get? "radio0" = some d ∧ d.state = .up := by
    exact ⟨_, rfl, rfl⟩
  obtain ⟨d, hd, hs⟩ := hup
  have hdown := h "radio0" [.plain (.updateConfig oneRadio), .plain .configStart] (.plain (.stop "radio0"))
    [.plain (.up "radio0"), .plain (.exit ⟨0, "radio0", .setup⟩)] rfl (by simp [Input.plain, Leaves]) ⟨rfl, rfl⟩ d hd
  rw [hs] at hdown
  cases hdown

end

end RainWrt.Wifi
