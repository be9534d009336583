import RainWrt.Hostapd.Pending

/-! A phy gets the configuration that was set last: a chain that is pending is aborted by every new configuration but those that
    do not reach `iface_restart`, which have to be equal to it. -/

namespace RainWrt.Hostapd

/-- The configuration of the phy is this one in all that `iface_add` uses, and has a BSS. -/
def State.IsSet (w : State) (phy : String) (config : Config) : Prop :=
  ∃ c, w.config.get? phy = some c ∧ c.radio = config.radio ∧ c.bss = config.bss ∧ c.bss ≠ []

/-- Each chain brings up the configuration of its phy. -/
def State.Current (w : State) : Prop := ∀ phy p, w.pending.get? phy = some p → w.IsSet phy p.config

/-- `iface_add` is called with the configuration of the phy. -/
def Effect.Latest (w : State) : Effect → Prop
  | .ifaceAdd phy config _ => w.IsSet phy config
  | .removeIface _ => True

/-- What a call leaves behind. -/
structure Good (r : State × List Effect) : Prop where
  current : r.1.Current
  latest : ∀ e ∈ r.2, e.Latest r.1

section
variable {w : State} {phy name : String} {p : Pending} {config : Config} {env : Env} {data : Option PhyStatus}

/-- The chains of the other phys. -/
def State.Others (w : State) (name : String) : Prop := ∀ phy p, phy ≠ name → w.pending.get? phy = some p → w.IsSet phy p.config

theorem isSet_set {c : Config} (hphy : phy ≠ name) (h : w.IsSet phy config) : State.IsSet { w with config := w.config.set name c } phy config := by
  obtain ⟨c', hc', heq⟩ := h
  exact ⟨c', (Obj.get?_set_ne hphy).trans hc', heq⟩

theorem State.Others.set (h : w.Others name) (c : Config) : State.Others { w with config := w.config.set name c } name :=
  fun phy p hphy hp => isSet_set hphy (h phy p hphy hp)

/-- No chain is pending for the phy. -/
theorem State.Others.current (h : w.Others name) (hnone : w.pending.get? name = none) : w.Current := by
  intro phy p hp
  by_cases hphy : phy = name
  · rw [hphy, hnone] at hp
    cases hp
  · exact h phy p hphy hp

end

end RainWrt.Hostapd
