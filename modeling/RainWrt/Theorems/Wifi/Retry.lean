import RainWrt.Theorems.Wifi.Stop

/-! The scripts run one after the other, each with one callback, and a setup that fails is tried again only so often. -/

namespace RainWrt.Wifi

variable {α : Type}

/-! ### The order of the scripts -/

def Effect.begun : Effect α → Option Script
  | .run s _ => some s
  | .callback _ => none

def Effect.ended : Effect α → Option Script
  | .run _ _ => none
  | .callback s => some s

section
variable {t : List (Effect α)} {cur : Option Script} {n : Nat}

/-- The scripts end in the order in which they were started, all but the one that runs. -/
theorem Serial.begun_eq (h : Serial t cur n) : t.filterMap (·.begun) = t.filterMap (·.ended) ++ cur.toList := by
  induction h with
  | nil => rfl
  | run h hid config ih => simpa [List.filterMap_append, Effect.begun, Effect.ended] using ih
  | callback h ih => simpa [List.filterMap_append, Effect.begun, Effect.ended] using ih

theorem Serial.ids (h : Serial t cur n) : (t.filterMap (·.begun)).map (·.id) = List.range n := by
  induction h with
  | nil => rfl
  | run h hid config ih => simpa [List.filterMap_append, Effect.begun, hid, List.range_succ] using ih
  | callback h ih => simpa [List.filterMap_append, Effect.begun] using ih

theorem Serial.nodup (h : Serial t cur n) : (t.filterMap (·.begun)).Nodup := by
  refine List.Nodup.of_map (·.id) ?_
  rw [h.ids]
  exact List.nodup_range

/-- A script that was started has had its callback once, unless it runs. -/
theorem Serial.count_ended (h : Serial t cur n) {s : Script} (hs : s ∈ t.filterMap (·.begun)) :
    (t.filterMap (·.ended)).count s = if cur = some s then 0 else 1 := by
  have hone : (t.filterMap (·.begun)).count s = 1 := h.nodup.count.trans (if_pos hs)
  rw [h.begun_eq, List.count_append] at hone
  split_ifs with hcur
  · rw [hcur] at hone
    simpa using hone
  · have hzero : cur.toList.count s = 0 := by
      rw [List.count_eq_zero, Option.mem_toList]
      exact hcur
    rw [hzero] at hone
    exact hone

/-- When a script is started, all scripts before it have ended. -/
theorem Serial.ended_before {l₁ l₂ : List (Effect α)} {s : Script} {config : HandlerConfig α} (h : Serial t cur n)
    (heq : t = l₁ ++ .run s config :: l₂) : l₁.filterMap (·.begun) = l₁.filterMap (·.ended) := by
  induction h generalizing l₂ with
  | nil => simp at heq
  | @run t n s' h hid config' ih =>
    rcases List.eq_nil_or_concat l₂ with rfl | ⟨l₂, e, rfl⟩
    · obtain ⟨rfl, -⟩ := List.append_inj' heq rfl
      simpa using h.begun_eq
    · apply @ih l₂
      have heq' : t ++ [.run s' config'] = (l₁ ++ .run s config :: l₂) ++ [e] := by simpa using heq
      exact (List.append_inj' heq' rfl).1
  | @callback t n s' h ih =>
    rcases List.eq_nil_or_concat l₂ with rfl | ⟨l₂, e, rfl⟩
    · obtain ⟨-, hbad⟩ := List.append_inj' heq rfl
      cases hbad
    · apply @ih l₂
      have heq' : t ++ [.callback s'] = (l₁ ++ .run s config :: l₂) ++ [e] := by simpa using heq
      exact (List.append_inj' heq' rfl).1

end

/-! ### How often a setup is tried -/

/-- How many setup scripts were run. -/
def View.setups (v : View α) : Nat := v.log.countP (·.1 = .setup)

/-- Whether the device is set up again behind a teardown. -/
def Wdev.again (d : Wdev α) : Bool := d.autostart && !d.retrySetupFailed

/-- How many setup scripts are still to come, if none of them reports that the device is up. -/
def View.budget (v : View α) : Nat :=
  match v.dev with
  | none => 0
  | some d =>
    match d.state with
    | .setup | .up => (if v.running = some .setup then 0 else 1) + if d.again then d.retry.toNat else 0
    | .teardown | .down => if d.again then d.retry.toNat + 1 else 0

/-- The device is not up, and no more scripts come than this. -/
structure Trying (k : Nat) (v : View α) : Prop where
  ok : v.Ok
  notUp : ∀ d, v.dev = some d → d.state ≠ .up
  bound : v.setups + v.budget ≤ k

/-- Nothing but the scripts of the device sets it up again. -/
def Undisturbed (name : String) (w : Wireless α) : Event α → Prop
  | .start n | .retrySetup n | .update n _ | .setRetry n _ => n ≠ name
  | .updateConfig new => new.devices.get? name = none
  | .configStart => ∀ d, w.devices.get? name = some d → d.autostart = false
  | .up n => n = name → ∀ d, w.devices.get? name = some d → d.state ≠ .setup
  | .procCheck n alive => n = name → ∀ d, w.devices.get? name = some d → d.state = .setup → d.procs.all alive = true
  | _ => True

section
variable {v : View α} {d d' : Wdev α} {k : Nat} {env : Env}

/-- The device changes in nothing that counts. -/
theorem budget_le (d' : Wdev α) (hd : v.dev = some d) (hstate : d'.state = d.state) (hretry : d'.retry = d.retry)
    (hagain : d'.again = true → d.again = true) (q : Option Op) : { v with dev := some d', queued := q }.budget ≤ v.budget := by
  unfold View.budget
  rw [hd]
  dsimp only
  rw [hstate, hretry]
  cases hd' : d'.again with
  | true =>
    have hagain' := hagain hd'
    cases d.state <;> simp [hagain']
  | false => cases d.state <;> simp

theorem budget_setup (hd : v.dev = some d) (hup : d.state ≠ .up) (q : Option Op) :
    { v with dev := some d.setup.1, queued := q }.budget ≤ v.budget := by
  rcases d.setup_cases with ⟨heq, -⟩ | ⟨heq, hs, hauto, hfailed⟩
  · rw [heq]
    exact budget_le d hd rfl rfl id q
  · rw [heq]
    have hdown : d.state = .down := hs.resolve_left hup
    have hagain : d.again = true := by rw [Wdev.again, hauto, hfailed]; rfl
    have hagain' : Wdev.again { d with procs := [], configChange := false, state := .setup } = true := hagain
    simp only [View.budget, hd, hdown, hagain, hagain', if_true]
    split_ifs <;> omega

theorem notUp_setup (hup : d.state ≠ .up) : d.setup.1.state ≠ .up := by
  rcases d.setup_cases with ⟨heq, -⟩ | ⟨heq, -⟩
  · rw [heq]
    exact hup
  · rw [heq]
    nofun

theorem Trying.same (h : Trying k v) (hd : v.dev = some d) (hstate : d'.state = d.state) (hretry : d'.retry = d.retry)
    (hagain : d'.again = true → d.again = true) : Trying k { v with dev := some d' } := by
  refine ⟨?_, fun d₀ hd₀ => ?_, ?_⟩
  · have hok := h.ok
    rw [View.Ok, hd, Option.map_some, ← hstate] at hok
    exact hok
  · cases hd₀
    rw [hstate]
    exact h.notUp d hd
  · exact Nat.le_trans (Nat.add_le_add_left (budget_le d' hd hstate hretry hagain v.queued) v.setups) h.bound

/-- The events that leave the device to its scripts, whatever its state. -/
def Quiet (name : String) : Event α → Prop
  | .start n | .retrySetup n | .update n _ | .setRetry n _ | .up n | .procCheck n _ => n ≠ name
  | .updateConfig new => new.devices.get? name = none
  | .configStart => False
  | _ => True

theorem budget_check (hd : v.dev = some d) (hup : d.state ≠ .up) :
    { v with dev := some (d.check env).1, queued := (d.check env).2 <|> v.queued }.budget ≤ v.budget ∧ (d.check env).1.state ≠ .up := by
  unfold Wdev.check
  dsimp only
  split_ifs
  · refine ⟨Nat.le_trans (budget_setup (v := { v with dev := some ((d.updateDisabledVifs env).configInit env) }) rfl hup _) ?_, notUp_setup hup⟩
    exact budget_le _ hd rfl rfl id v.queued
  · exact ⟨budget_le (d.updateDisabledVifs env) hd rfl rfl id _, hup⟩

theorem budget_stop (hd : v.dev = some d) (hup : d.state ≠ .up) (d' : Wdev α) (hstate : d'.state = d.state) (hretry : d'.retry = d.retry) :
    { v with dev := some d'.stop.1, queued := d'.stop.2 <|> v.queued }.budget ≤ v.budget ∧ d'.stop.1.state ≠ .up := by
  rcases d'.stop_cases with ⟨hs, -⟩ | ⟨-, cancel, heq⟩
  · exact absurd (hstate.symm.trans hs) hup
  · rw [heq]
    exact ⟨budget_le { d' with autostart := false, cancelSetup := cancel } hd hstate hretry nofun _, hstate.trans_ne hup⟩

variable [DecidableEq α] {e : Event α} {name : String}

theorem budget_call (hd : v.dev = some d) (hup : d.state ≠ .up) (hquiet : Quiet name e) {f : Wdev α → Option (Wdev α × Option Op)}
    {r : Wdev α × Option Op} (hf : Call env name e f) (hr : f d = some r) :
    { v with dev := some r.1, queued := r.2 <|> v.queued }.budget ≤ v.budget ∧ r.1.state ≠ .up := by
  have hdestroy : d.destroy = some r → { v with dev := some r.1, queued := r.2 <|> v.queued }.budget ≤ v.budget ∧ r.1.state ≠ .up := by
    intro hr
    rcases d.destroy_cases with ⟨-, heq⟩ | ⟨-, heq⟩
    · cases heq.symm.trans hr
    · cases heq.symm.trans hr
      exact budget_stop hd hup { d with autostart := false, delete := true } rfl rfl
  cases hf with
  | start => exact absurd rfl hquiet
  | retrySetup => exact absurd rfl hquiet
  | update data => exact absurd rfl hquiet
  | setRetry retry => exact absurd rfl hquiet
  | up => exact absurd rfl hquiet
  | procCheck alive => exact absurd rfl hquiet
  | configStart => exact hquiet.elim
  | listed hdata => cases hdata.symm.trans (show _ = none from hquiet)
  | unlisted => exact hdestroy hr
  | destroy => exact hdestroy hr
  | stop =>
    cases hr
    exact budget_stop hd hup d rfl rfl
  | check =>
    cases hr
    exact budget_check hd hup
  | procAdd pid exe =>
    cases hr
    unfold Wdev.procAdd
    split_ifs
    · exact ⟨budget_le d hd rfl rfl id _, hup⟩
    · exact ⟨budget_le { d with procs := d.procs ++ [(pid, exe)] } hd rfl rfl id _, hup⟩
  | checkInterfaces =>
    cases hr
    split_ifs
    · exact budget_check hd hup
    · exact ⟨budget_le d hd rfl rfl id _, hup⟩

omit [DecidableEq α] in
/-- The callback of a setup script that did not bring the device up takes one of the tries. -/
theorem budget_setupCb (hd : v.dev = some d) (hup : d.state ≠ .up) (hc : v.running = some .setup) (q : Option Op) :
    { v with dev := some (d.setupCb env).1, queued := q, running := none }.budget ≤ v.budget ∧ (d.setupCb env).1.state ≠ .up := by
  rcases d.setupCb_cases env with ⟨hs, d', heq, hd'⟩ | ⟨hs, -⟩ | ⟨hs, -, heq⟩
  · rw [heq]
    refine ⟨?_, nofun⟩
    simp only [View.budget, hd, hs, hc, if_true]
    rcases hd' with ⟨hpos, rfl⟩ | ⟨-, rfl⟩
    · change (if d.again then (d.retry - 1).toNat + 1 else 0) ≤ 0 + if d.again then d.retry.toNat else 0
      cases d.again with
      | true =>
        rw [if_pos rfl, if_pos rfl]
        omega
      | false => exact Nat.le_refl 0
    · simp [Wdev.again]
  · exact absurd hs hup
  · rw [heq]
    refine ⟨?_, hup⟩
    simp only [View.budget, hd]
    cases hs' : d.state with
    | setup => exact absurd hs' hs
    | up => exact absurd hs' hup
    | teardown => exact Nat.le_refl _
    | down => exact Nat.le_refl _

/-- A turn of a device that is left to its scripts: each setup script that starts is one of those that were to come. -/
theorem Trying.turn {i : Input α} {v' : View α} (hturn : Turn i name v v')
    (hcalm : Quiet name i.event ∨ (i.event = .configStart ∧ ∀ d, v.dev = some d → d.autostart = false)) (h : Trying k v) : Trying k v' := by
  have hok := h.ok
  have hbound := h.bound
  have hok' := hturn.ok hok
  cases hturn with
  | @act d f r hd hf hr =>
    have hcall : { v with dev := some r.1, queued := r.2 <|> v.queued }.budget ≤ v.budget ∧ r.1.state ≠ .up := by
      rcases hcalm with hquiet | ⟨he, hauto⟩
      · exact budget_call hd (h.notUp d hd) hquiet hf hr
      · rw [he] at hf
        cases hf
        dsimp only at hr
        rw [hauto d hd] at hr
        cases hr
        exact ⟨budget_le d hd rfl rfl id _, h.notUp d hd⟩
    refine ⟨hok', fun d' hd' => ?_, Nat.le_trans (Nat.add_le_add_left hcall.1 v.setups) hbound⟩
    cases hd'
    exact hcall.2
  | gone hd hf hr => exact ⟨hok', fun d hd => (by cases hd), Nat.le_trans (Nat.le_add_right v.setups v.budget) hbound⟩
  | new hd he hdata =>
    rcases hcalm with hquiet | ⟨he', -⟩
    · rw [he] at hquiet
      cases hdata.symm.trans (show _ = none from hquiet)
    · cases he.symm.trans he'
  | @run d op hd hq hc =>
    refine ⟨hok', h.notUp, ?_⟩
    rw [View.Ok, hd, hq, hc, Option.map_some] at hok
    have hup := h.notUp d hd
    cases op with
    | setup =>
      have hs : d.state = .setup := by
        cases hs : d.state <;> simp_all [shapeOk]
      simp only [View.setups, View.budget, hd, hs, hc] at hbound ⊢
      simp at hbound ⊢
      omega
    | teardown =>
      have hs : d.state = .teardown := by
        cases hs : d.state <;> simp_all [shapeOk]
      simp only [View.setups, View.budget, hd, hs] at hbound ⊢
      simpa using hbound
  | @setupDone d hd hc =>
    have hup := h.notUp d hd
    have hdone : { v with dev := some (d.setupCb i.env).1, queued := (d.setupCb i.env).2 <|> v.queued, running := none }.budget ≤ v.budget ∧
        (d.setupCb i.env).1.state ≠ .up := budget_setupCb hd hup hc _
    refine ⟨hok', fun d₀ hd₀ => ?_, Nat.le_trans (Nat.add_le_add_left hdone.1 v.setups) hbound⟩
    cases hd₀
    exact hdone.2
  | @teardownDone d r hd hc hr =>
    obtain ⟨-, rfl⟩ := teardownCb_some hr
    -- the teardown script ran, so the device is in the state `teardown`
    have hs : d.state = .teardown := by
      rw [View.Ok, hd, hc, Option.map_some] at hok
      cases hs : d.state <;> simp_all [shapeOk]
    have hdown : { v with dev := some { d with state := .down }, running := none }.budget = v.budget := by
      simp [View.budget, hd, hs, Wdev.again]
    have hset := budget_setup (v := { v with dev := some { d with state := .down }, running := none }) rfl (fun h => by cases h)
      (({ d with state := .down } : Wdev α).setup.2 <|> v.queued)
    rw [hdown] at hset
    refine ⟨hok', fun d₀ hd₀ => ?_, Nat.le_trans (Nat.add_le_add_left hset v.setups) hbound⟩
    cases hd₀
    exact notUp_setup fun h => by cases h
  | deleted hd hc hr => exact ⟨hok', fun d hd => (by cases hd), Nat.le_trans (Nat.le_add_right v.setups v.budget) hbound⟩

/-- `config_start` leaves a device alone that was stopped. -/
theorem stopped_turn {i : Input α} {v' : View α} (he : i.event = .configStart) (hturn : Turn i name v v')
    (h : ∀ d, v.dev = some d → d.autostart = false) : ∀ d, v'.dev = some d → d.autostart = false := by
  intro d' hd'
  cases hturn with
  | @act d f r hd hf hr =>
    rw [he] at hf
    cases hf
    dsimp only at hr
    rw [h d hd] at hr
    cases hr
    cases hd'
    exact h d hd
  | gone hd hf hr => cases hd'
  | new hd he' hdata => cases he.symm.trans he'
  | run hd hq hc => exact h d' hd'
  | @setupDone d hd hc =>
    cases hd'
    exact (Wdev.Same.setupCb ⟨rfl, rfl, rfl⟩).autostart.trans (h d hd)
  | @teardownDone d r hd hc hr =>
    obtain ⟨-, rfl⟩ := teardownCb_some hr
    cases hd'
    exact (Wdev.Same.setup ⟨rfl, rfl, rfl⟩).autostart.trans (h d hd)
  | deleted hd hc hr => cases hd'

omit [DecidableEq α] in
/-- A method that queues nothing. -/
theorem trying_onDevice {w : Wireless α} (h : Trying k (w.view name)) {fails : Nat} {g : Wdev α → Wdev α × Option Op}
    (hg : ∀ d, w.devices.get? name = some d → ∃ d', g d = (d', none) ∧ d'.state = d.state ∧ d'.retry = d.retry ∧ d'.again = d.again) :
    Trying k ((w.onDevice env fails name g).view name) := by
  unfold Wireless.onDevice
  cases hd : w.devices.get? name with
  | none => exact h
  | some d =>
    obtain ⟨d', heq, hstate, hretry, hagain⟩ := hg d hd
    have hview := @view_setDev α w name name (d', none)
    rw [if_pos rfl] at hview
    simp only [Wireless.request, heq, Option.isSome_none, Bool.false_eq_true, if_false]
    rw [hview]
    exact h.same hd hstate hretry (fun h => hagain ▸ h)

theorem trying_step {w : Wireless α} (hs : Sched w) {i : Input α} (hu : Undisturbed name w i.event) (h : Trying k (w.view name)) :
    Trying k ((w.step i).view name) := by
  have hquiet : Quiet name i.event → Trying k ((w.step i).view name) := fun hquiet =>
    turns_keep (fun hturn hv => hv.turn hturn (Or.inl hquiet)) ((hs.step i).turns name) h
  have hup : ∀ d, w.devices.get? name = some d → d.state ≠ .up := h.notUp
  cases he : i.event with
  | up n =>
    rw [he] at hu hquiet
    by_cases hn : n = name
    · rw [Wireless.step, he, hn]
      refine trying_onDevice h fun d hd => ⟨d, ?_, rfl, rfl, rfl⟩
      rw [Wdev.markUp, if_neg (hu hn d hd)]
    · exact hquiet hn
  | procCheck n alive =>
    rw [he] at hu hquiet
    by_cases hn : n = name
    · rw [Wireless.step, he, hn]
      refine trying_onDevice h fun d hd => ?_
      unfold Wdev.procCheck
      split_ifs with halive
      · exact ⟨d, rfl, rfl, rfl, rfl⟩
      · rcases d.teardown_cases with ⟨heq, -⟩ | ⟨-, hactive⟩
        · exact ⟨_, heq, rfl, rfl, rfl⟩
        · exact absurd (hu hn d hd (hactive.resolve_right (hup d hd))) halive
    · exact hquiet hn
  | configStart =>
    rw [he] at hu
    have hv := turns_keep (P := fun v => Trying k v ∧ ∀ d, v.dev = some d → d.autostart = false)
      (fun hturn hv => ⟨hv.1.turn hturn (Or.inr ⟨he, hv.2⟩), stopped_turn he hturn hv.2⟩) ((hs.step i).turns name) ⟨h, hu⟩
    exact hv.1
  | _ =>
    rw [he] at hu hquiet
    exact hquiet hu

theorem trying_run {w : Wireless α} (hs : Sched w) {inputs : List (Input α)}
    (hu : ∀ pre j post, inputs = pre ++ j :: post → Undisturbed name (w.run pre) j.event) (h : Trying k (w.view name)) :
    Trying k ((w.run inputs).view name) := by
  induction inputs generalizing w with
  | nil => exact h
  | cons i inputs ih =>
    refine ih (hs.step i).sched (fun pre j post heq => ?_) (trying_step hs (hu [] i inputs rfl) h)
    exact hu (i :: pre) j post (by rw [heq, List.cons_append])

/-! ### The number of tries -/

omit [DecidableEq α] in
theorem retry_setup (d : Wdev α) : d.setup.1.retry = d.retry := by
  rcases d.setup_cases with ⟨heq, -⟩ | ⟨heq, -⟩ <;> rw [heq]

omit [DecidableEq α] in
theorem retry_teardown (d : Wdev α) : d.teardown.1.retry = d.retry := by
  rcases d.teardown_cases with ⟨heq, -⟩ | ⟨heq, -⟩ <;> rw [heq]

omit [DecidableEq α] in
theorem retry_check (d : Wdev α) : (d.check env).1.retry = d.retry := by
  unfold Wdev.check
  dsimp only
  split_ifs
  · exact retry_setup _
  · rfl

omit [DecidableEq α] in
theorem retry_start (h : d.retry ≤ defaultRetry) : (d.start env).1.retry ≤ defaultRetry := by
  unfold Wdev.start
  split_ifs
  · exact h
  · dsimp only
    split_ifs
    · exact Int.le_refl defaultRetry
    · rw [retry_setup]
      exact Int.le_refl defaultRetry
    · rw [retry_setup]
      exact Int.le_refl defaultRetry

theorem retry_update (h : d.retry ≤ defaultRetry) (data : Option (Data α)) : (d.update env data).1.retry ≤ defaultRetry := by
  unfold Wdev.update
  split_ifs
  · exact h
  · cases data <;>
    · rw [retry_check]
      exact Int.le_refl defaultRetry

omit [DecidableEq α] in
theorem retry_stop (d : Wdev α) : d.stop.1.retry = d.retry := by
  rcases d.stop_cases with ⟨-, heq⟩ | ⟨-, cancel, heq⟩ <;> rw [heq]

omit [DecidableEq α] in
theorem retry_destroy {r : Wdev α × Option Op} (hr : d.destroy = some r) : r.1.retry = d.retry := by
  rcases d.destroy_cases with ⟨-, heq⟩ | ⟨-, heq⟩
  · cases heq.symm.trans hr
  · cases heq.symm.trans hr
    exact retry_stop _

theorem retry_call (h : d.retry ≤ defaultRetry) (hset : ∀ retry, e ≠ .setRetry name retry) {f : Wdev α → Option (Wdev α × Option Op)}
    {r : Wdev α × Option Op} (hf : Call env name e f) (hr : f d = some r) : r.1.retry ≤ defaultRetry := by
  cases hf with
  | start =>
    cases hr
    exact retry_start h
  | retrySetup =>
    cases hr
    unfold Wdev.retrySetup
    split_ifs
    · exact h
    · exact retry_start h
  | stop =>
    cases hr
    rw [retry_stop]
    exact h
  | update data =>
    cases hr
    exact retry_update h data
  | listed hdata =>
    cases hr
    exact retry_update h _
  | destroy =>
    rw [retry_destroy hr]
    exact h
  | unlisted =>
    rw [retry_destroy hr]
    exact h
  | check =>
    cases hr
    rw [retry_check]
    exact h
  | up =>
    cases hr
    unfold Wdev.markUp
    split_ifs <;> exact h
  | procAdd pid exe =>
    cases hr
    unfold Wdev.procAdd
    split_ifs <;> exact h
  | setRetry retry => exact absurd rfl (hset retry)
  | procCheck alive =>
    cases hr
    unfold Wdev.procCheck
    split_ifs
    · exact h
    · rw [retry_teardown]
      exact h
  | configStart =>
    cases hr
    split_ifs
    · exact retry_start h
    · exact h
  | checkInterfaces =>
    cases hr
    split_ifs
    · rw [retry_check]
      exact h
    · exact h

theorem retry_turn {i : Input α} {v' : View α} (hturn : Turn i name v v') (hset : ∀ retry, i.event ≠ .setRetry name retry)
    (h : ∀ d, v.dev = some d → d.retry ≤ defaultRetry) : ∀ d, v'.dev = some d → d.retry ≤ defaultRetry := by
  intro d' hd'
  cases hturn with
  | @act d f r hd hf hr =>
    cases hd'
    exact retry_call (h d hd) hset hf hr
  | gone hd hf hr => cases hd'
  | new hd he hdata =>
    cases hd'
    exact (by decide : (0 : Int) ≤ 3)
  | run hd hq hc => exact h d' hd'
  | @setupDone d hd hc =>
    cases hd'
    have hle := h d hd
    rcases d.setupCb_cases i.env with ⟨-, d₀, heq, ⟨-, rfl⟩ | ⟨-, rfl⟩⟩ | ⟨-, -, heq⟩ | ⟨-, -, heq⟩
    · rw [heq]
      exact Int.le_trans (Int.sub_le_self d.retry (by decide)) hle
    · rw [heq]
      exact hle
    · rw [heq, retry_setup]
      exact hle
    · rw [heq]
      exact hle
  | @teardownDone d r hd hc hr =>
    obtain ⟨-, rfl⟩ := teardownCb_some hr
    cases hd'
    rw [retry_setup]
    exact h d hd
  | deleted hd hc hr => cases hd'

theorem retry_run {w : Wireless α} (hs : Sched w) {inputs : List (Input α)} (hset : ∀ j ∈ inputs, ∀ retry, j.event ≠ .setRetry name retry)
    (h : ∀ d, w.devices.get? name = some d → d.retry ≤ defaultRetry) :
    ∀ d, (w.run inputs).devices.get? name = some d → d.retry ≤ defaultRetry := by
  refine run_keeps (P := fun v => ∀ d, v.dev = some d → d.retry ≤ defaultRetry)
    (Q := fun _ j => ∀ retry, j.event ≠ .setRetry name retry) ?_ hs (fun pre j post heq => hset j (by simp [heq])) h
  intro w j hset hv v hturns
  exact turns_keep (fun hturn hv => retry_turn hturn hset hv) hturns hv

/-- From a setup script on that runs, at most `DEFAULT_RETRY` more are started by a device that is left to its scripts. -/
theorem setups_bounded {pre mid : List (Input α)} (hd : (({} : Wireless α).run pre).devices.get? name = some d)
    (hretry : d.retry ≤ defaultRetry) (hstate : d.state = .setup)
    (hrunning : ((({} : Wireless α).run pre).view name).running = some .setup)
    (hu : ∀ before j after, mid = before ++ j :: after → Undisturbed name (({} : Wireless α).run (pre ++ before)) j.event) :
    ((({} : Wireless α).run (pre ++ mid)).view name).setups ≤ ((({} : Wireless α).run pre).view name).setups + defaultRetry.toNat := by
  have hs : Sched (({} : Wireless α).run pre) := Sched.start.run pre
  have hrun : ∀ l, ({} : Wireless α).run (pre ++ l) = (({} : Wireless α).run pre).run l := by
    intro l
    simp [Wireless.run]
  simp only [hrun] at hu ⊢
  have hbudget : ((({} : Wireless α).run pre).view name).budget ≤ defaultRetry.toNat := by
    have hdev : ((({} : Wireless α).run pre).view name).dev = some d := hd
    simp only [View.budget, hdev, hstate, hrunning, if_true]
    split_ifs
    · omega
    · omega
  have htrying : Trying (((({} : Wireless α).run pre).view name).setups + defaultRetry.toNat) ((({} : Wireless α).run pre).view name) := by
    refine ⟨hs.shapes name, fun d' hd' => ?_, Nat.add_le_add_left hbudget _⟩
    cases hd.symm.trans hd'
    rw [hstate]
    exact fun h => by cases h
  exact Nat.le_trans (Nat.le_add_right _ _) (trying_run hs hu htrying).bound

/-- In every run at most one script runs, each script that was started has had its callback once unless it still runs, a setup
    script starts only behind the callbacks of all teardown scripts before it, and a setup is tried again at most
    `DEFAULT_RETRY` times as long as the device is left to its scripts, if it had no more tries left at some time and no others
    were given to it since. -/
theorem handlers_serial (inputs : List (Input α)) :
    (({} : Wireless α).run inputs).tasks.length ≤ 1 ∧
    (∀ s ∈ (({} : Wireless α).run inputs).trace.filterMap (·.begun),
      ((({} : Wireless α).run inputs).trace.filterMap (·.ended)).count s = if s ∈ (({} : Wireless α).run inputs).tasks then 0 else 1) ∧
    (∀ l₁ s config l₂, (({} : Wireless α).run inputs).trace = l₁ ++ .run s config :: l₂ → s.op = .setup →
      ∀ t ∈ l₁.filterMap (·.begun), t.name = s.name → t.op = .teardown → t ∈ l₁.filterMap (·.ended)) ∧
    ∀ (name : String) (first pre mid : List (Input α)) (d : Wdev α), inputs = first ++ pre ++ mid →
      (∀ d₀, (({} : Wireless α).run first).devices.get? name = some d₀ → d₀.retry ≤ defaultRetry) →
      (∀ j ∈ pre, ∀ retry, j.event ≠ .setRetry name retry) →
      (({} : Wireless α).run (first ++ pre)).devices.get? name = some d → d.state = .setup →
      ((({} : Wireless α).run (first ++ pre)).view name).running = some .setup →
      (∀ before j after, mid = before ++ j :: after → Undisturbed name (({} : Wireless α).run (first ++ pre ++ before)) j.event) →
      ((({} : Wireless α).run inputs).view name).setups ≤ ((({} : Wireless α).run (first ++ pre)).view name).setups + defaultRetry.toNat := by
  have hs : Sched (({} : Wireless α).run inputs) := Sched.start.run inputs
  refine ⟨?_, fun s hmem => ?_, fun l₁ s config l₂ heq _ t ht _ _ => ?_, ?_⟩
  · rcases Option.eq_none_or_eq_some (({} : Wireless α).run inputs).cur with hcur | ⟨s, hcur⟩
    · rw [(hs.idle hcur).1]
      exact Nat.zero_le 1
    · rw [(hs.busy s hcur).1]
      exact Nat.le_refl 1
  · have hcur : (({} : Wireless α).run inputs).cur = some s ↔ s ∈ (({} : Wireless α).run inputs).tasks := by
      rcases Option.eq_none_or_eq_some (({} : Wireless α).run inputs).cur with hcur | ⟨t, hcur⟩
      · rw [(hs.idle hcur).1, hcur]
        simp
      · rw [(hs.busy t hcur).1, hcur, List.mem_singleton, Option.some.injEq, eq_comm]
    rw [hs.serial.count_ended hmem]
    simp only [hcur]
  · rw [← hs.serial.ended_before heq]
    exact ht
  · rintro name first pre mid d rfl hfirst hset hd hstate hrunning hu
    have hrun : ({} : Wireless α).run (first ++ pre) = (({} : Wireless α).run first).run pre := List.foldl_append
    have hretry : d.retry ≤ defaultRetry := retry_run (Sched.start.run first) hset hfirst d (by rwa [← hrun])
    exact setups_bounded hd hretry hstate hrunning hu

end

/-- The scripts of a device that is configured, gets more tries, is started, and never comes up. -/
def failing : List (Input Unit) :=
  [.plain (.exit ⟨0, "radio0", .setup⟩), .plain (.exit ⟨1, "radio0", .teardown⟩), .plain (.exit ⟨2, "radio0", .setup⟩),
    .plain (.exit ⟨3, "radio0", .teardown⟩), .plain (.exit ⟨4, "radio0", .setup⟩), .plain (.exit ⟨5, "radio0", .teardown⟩),
    .plain (.exit ⟨6, "radio0", .setup⟩), .plain (.exit ⟨7, "radio0", .teardown⟩)]

/-- The start takes the tries back that `SET_RETRY` gave, and all that are left are used. -/
theorem handlers_serial_radio :
    ((({} : Wireless Unit).run ([.plain (.updateConfig oneRadio), .plain (.setRetry "radio0" (some 10)), .plain .configStart] ++ [] ++
      failing)).view "radio0").setups ≤
    ((({} : Wireless Unit).run ([.plain (.updateConfig oneRadio), .plain (.setRetry "radio0" (some 10)), .plain .configStart] ++
      [])).view "radio0").setups + defaultRetry.toNat := by
  refine (handlers_serial _).2.2.2 "radio0" [.plain (.updateConfig oneRadio), .plain (.setRetry "radio0" (some 10)), .plain .configStart]
    [] failing _ rfl ?_ (fun j hj => by cases hj) rfl rfl rfl ?_
  · intro d₀ hd₀
    cases hd₀
    decide
  · intro before j after heq
    have hj : j ∈ failing := heq ▸ List.mem_append_right before List.mem_cons_self
    simp only [failing, List.mem_cons, List.not_mem_nil, or_false] at hj
    obtain rfl | rfl | rfl | rfl | rfl | rfl | rfl | rfl := hj
    all_goals trivial

example : ((({} : Wireless Unit).run ([.plain (.updateConfig oneRadio), .plain (.setRetry "radio0" (some 10)), .plain .configStart] ++
    failing)).view "radio0").setups = 1 + defaultRetry.toNat := by decide +kernel

/-! ### Processes that are gone -/

/-- The event is no start or update of the device, no retry count for it and no report that it is up. -/
def Unasked (name : String) : Event α → Prop
  | .start n | .retrySetup n | .update n _ | .setRetry n _ | .up n => n ≠ name
  | .updateConfig _ | .configStart => False
  | _ => True

/-- A process of the device is added during its setup and found gone, and the scripts of the setup and of the teardown end. -/
def goneRound (k : Nat) : List (Input Unit) :=
  [.plain (.procAdd "radio0" 1 "hostapd"), .plain (.procCheck "radio0" fun _ => false), .plain (.exit ⟨2 * k, "radio0", .setup⟩),
    .plain .timer, .plain (.exit ⟨2 * k + 1, "radio0", .teardown⟩)]

/-- A process that is gone during the setup starts it again, as often as this happens. -/
theorem setups_not_bounded : ¬∀ (name : String) (pre mid : List (Input Unit)), (∀ j ∈ pre, ∀ retry, j.event ≠ .setRetry name retry) →
    (∀ j ∈ mid, Unasked name j.event) → ((({} : Wireless Unit).run (pre ++ mid)).view name).running ≠ some .setup →
    ((({} : Wireless Unit).run (pre ++ mid)).view name).setups ≤
      ((({} : Wireless Unit).run pre).view name).setups + (defaultRetry.toNat + 1) := by
  intro h
  have hround : ∀ k, ∀ j ∈ goneRound k, Unasked "radio0" j.event := by
    intro k
    simp [goneRound, Input.plain, Unasked]
  have hle := h "radio0" [.plain (.updateConfig oneRadio), .plain .configStart]
    (goneRound 0 ++ goneRound 1 ++ goneRound 2 ++ goneRound 3 ++ goneRound 4 ++ (goneRound 5).take 3) (by simp [Input.plain]) ?_ ?_
  · exact absurd hle (by decide +kernel)
  · intro j hj
    simp only [List.mem_append] at hj
    obtain ((((hj | hj) | hj) | hj) | hj) | hj := hj
    all_goals first
      | exact hround _ j hj
      | exact hround 5 j (List.mem_of_mem_take hj)
  · decide +kernel

end RainWrt.Wifi
