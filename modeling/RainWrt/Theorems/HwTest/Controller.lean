import RainWrt.History
import RainWrt.HwTest.Controller

/-! What comes back from the two commands of the runner, and what a call sends. -/

namespace RainWrt.HwTest

open Proc

/-! ### Looking -/

/-- A call of a program that only looks, as one of the runner. -/
def lookEvent (e : Event Look LookAnswer) : Event Act ActAnswer := ⟨.look e.1, e.2⟩

section
variable {α : Type} {p : Proc Look LookAnswer α} {t : ActTrace}

theorem runs_looking {a : α} : Runs (looking p) t a ↔ ∃ s, t = s.map lookEvent ∧ Runs p s a := by
  induction p generalizing t with
  | ret b =>
    constructor
    · rintro ⟨⟩
      exact ⟨[], rfl, .ret _⟩
    · rintro ⟨s, rfl, ⟨⟩⟩
      exact .ret _
  | call q k ih =>
    constructor
    · intro h
      rcases h with _ | @⟨_, _, r, t, _, h⟩
      obtain ⟨s, rfl, hs⟩ := (ih r).mp h
      exact ⟨⟨q, r⟩ :: s, rfl, .call hs⟩
    · rintro ⟨s, rfl, h⟩
      rcases h with _ | h
      exact .call ((ih _).mpr ⟨_, rfl, h⟩)

theorem steps_looking : Steps (looking p) t ↔ ∃ s, t = s.map lookEvent ∧ Steps p s := by
  induction p generalizing t with
  | ret b =>
    constructor
    · rintro ⟨⟩
      exact ⟨[], rfl, .stop _⟩
    · rintro ⟨s, rfl, ⟨⟩⟩
      exact .stop _
  | call q k ih =>
    constructor
    · intro h
      rcases h with _ | @⟨_, _, r, t, h⟩
      · exact ⟨[], rfl, .stop _⟩
      · obtain ⟨s, rfl, hs⟩ := (ih r).mp h
        exact ⟨⟨q, r⟩ :: s, rfl, .call hs⟩
    · rintro ⟨s, rfl, h⟩
      rcases h with _ | h
      · exact .stop _
      · exact .call ((ih _).mpr ⟨_, rfl, h⟩)

end

/-! ### Checks -/

section
variable {p q expected baseline previous : Json}

/-- The results of a check that is passed. -/
def Passes (p expected baseline : Json) : Prop := ∃ checks, requiredChecks p expected baseline = .ok checks ∧ checks.allTrue = true

/-- The field is there in both, and differs. -/
def Differs (p q : Json) (key : String) : Prop := ∃ a b, p.item key = .ok a ∧ q.item key = .ok b ∧ a.eq b = false

/-- The field is there in both, and is the same. -/
def Agrees (p q : Json) (key : String) : Prop := ∃ a b, p.item key = .ok a ∧ q.item key = .ok b ∧ a.eq b = true

/-- What a system that is taken as the new one has. -/
theorem classifyReturn_success (h : classifyReturn p expected baseline = .ok .success) :
    Differs p baseline "boot_id" ∧ Agrees p expected "identity" ∧ Passes p expected baseline := by
  unfold classifyReturn at h
  obtain ⟨a, ha, h⟩ := bind_eq_ok.mp h
  obtain ⟨b, hb, h⟩ := bind_eq_ok.mp h
  split at h
  · cases h
  · rename_i hne
    obtain ⟨i, hi, h⟩ := bind_eq_ok.mp h
    obtain ⟨j, hj, h⟩ := bind_eq_ok.mp h
    split at h
    · obtain ⟨r, -, h⟩ := bind_eq_ok.mp h
      obtain ⟨r', -, h⟩ := bind_eq_ok.mp h
      split at h
      · cases h
      · cases h
    · rename_i hid
      obtain ⟨checks, hc, h⟩ := bind_eq_ok.mp h
      split at h
      · rename_i hall
        exact ⟨⟨a, b, ha, hb, by simpa using hne⟩, ⟨i, j, hi, hj, by simpa using hid⟩, checks, hc, hall⟩
      · cases h

/-- What was up before is still up. -/
def Kept (p baseline : Json) (key : String) : Prop := ∃ v, keeps p baseline key = .ok v ∧ v.truthy = true

theorem kept_iff {key : String} : Kept p baseline key ↔ ∃ b, baseline.item key = .ok b ∧ (b.truthy = true → ∃ v, p.item key = .ok v ∧ v.truthy = true) := by
  unfold Kept keeps
  constructor
  · rintro ⟨v, h, hv⟩
    obtain ⟨b, hb, h⟩ := bind_eq_ok.mp h
    refine ⟨b, hb, fun hbt => ?_⟩
    rw [if_pos hbt] at h
    exact ⟨v, h, hv⟩
  · rintro ⟨b, hb, h⟩
    by_cases hbt : b.truthy = true
    · obtain ⟨v, hv, hvt⟩ := h hbt
      exact ⟨v, bind_eq_ok.mpr ⟨b, hb, by rw [if_pos hbt]; exact hv⟩, hvt⟩
    · exact ⟨.bool true, bind_eq_ok.mpr ⟨b, hb, by rw [if_neg hbt]; rfl⟩, rfl⟩

/-- What is kept from one system to the next and on to the third is kept from the first. -/
theorem Kept.trans {key : String} (h : Kept p baseline key) (h' : Kept q p key) : Kept q baseline key := by
  obtain ⟨b, hb, hp⟩ := kept_iff.mp h
  obtain ⟨v, hv, hq⟩ := kept_iff.mp h'
  refine kept_iff.mpr ⟨b, hb, fun hbt => ?_⟩
  obtain ⟨v', hv', hvt⟩ := hp hbt
  rw [hv] at hv'
  obtain rfl := Except.ok.inj hv'
  exact hq hvt

/-- The checks that are passed, taken apart. -/
theorem passes_iff : Passes p expected baseline ↔ (∃ own, ownChecks p expected = .ok own ∧ own.allTrue = true) ∧
    Kept p baseline "ipv4" ∧ Kept p baseline "ipv6" ∧ Kept p baseline "resolver" := by
  unfold Passes requiredChecks relativeChecks Kept
  constructor
  · rintro ⟨checks, h, hall⟩
    obtain ⟨own, hown, h⟩ := bind_eq_ok.mp h
    obtain ⟨rel, hrel, h⟩ := bind_eq_ok.mp h
    obtain ⟨a, ha, hrel⟩ := bind_eq_ok.mp hrel
    obtain ⟨b, hb, hrel⟩ := bind_eq_ok.mp hrel
    obtain ⟨c, hc, hrel⟩ := bind_eq_ok.mp hrel
    cases hrel
    cases h
    simp only [Checks.allTrue, List.all_append, List.all_cons, List.all_nil, Bool.and_true, Bool.and_eq_true] at hall
    exact ⟨⟨own, hown, hall.1⟩, ⟨a, ha, hall.2.1⟩, ⟨b, hb, hall.2.2.1⟩, ⟨c, hc, hall.2.2.2⟩⟩
  · rintro ⟨⟨own, hown, hall⟩, ⟨a, ha, hat⟩, ⟨b, hb, hbt⟩, ⟨c, hc, hct⟩⟩
    refine ⟨own ++ [("IPv4_route".toList, a), ("IPv6_route".toList, b), ("resolver".toList, c)], ?_, ?_⟩
    · rw [hown, ha, hb, hc]
      rfl
    · simp only [Checks.allTrue, List.all_append, List.all_cons, List.all_nil, Bool.and_true, Bool.and_eq_true]
      exact ⟨hall, hat, hbt, hct⟩

/-- The second system passes the checks against the first one, hence against the original one. -/
theorem Passes.trans (h : Passes p expected baseline) (h' : Passes q expected p) : Passes q expected baseline := by
  obtain ⟨-, h4, h6, hr⟩ := passes_iff.mp h
  obtain ⟨hown, h4', h6', hr'⟩ := passes_iff.mp h'
  exact passes_iff.mpr ⟨hown, h4.trans h4', h6.trans h6', hr.trans hr'⟩

end

/-! ### The wait -/

section
variable {lib : Python} {site : Site} {expected baseline previous p : Json} {reboot : Bool} {s : LookTrace}

theorem judge_some {p' : Json} (h : Runs (judge expected baseline previous reboot p).run s (.ok (some p'))) :
    p' = p ∧ classifyReturn p expected previous = .ok .success := by
  unfold judge at h
  obtain ⟨s₁, s₂, a, -, h1, h⟩ := Raising.returns_bind.mp h
  obtain ⟨s₃, s₄, b, -, h2, h⟩ := Raising.returns_bind.mp h
  split at h
  · obtain ⟨-, h0⟩ := Raising.runs_pure.mp h
    cases h0
  · obtain ⟨s₅, s₆, state, -, h3, h⟩ := Raising.returns_bind.mp h
    obtain ⟨-, hstate⟩ := Raising.runs_ofExcept.mp h3
    split at h
    · obtain ⟨-, h0⟩ := Raising.runs_ofExcept.mp h
      cases h0
    · obtain ⟨-, h0⟩ := Raising.runs_ofExcept.mp h
      cases h0
    · obtain ⟨-, h0⟩ := Raising.runs_pure.mp h
      cases h0
      exact ⟨rfl, hstate.symm⟩
    · obtain ⟨s₇, s₈, u, -, -, h⟩ := Raising.returns_bind.mp h
      obtain ⟨s₉, t₁, l, -, -, h⟩ := Raising.returns_bind.mp h
      split at h
      · obtain ⟨-, h0⟩ := Raising.runs_pure.mp h
        cases h0
      · obtain ⟨t₂, t₃, c, -, -, h⟩ := Raising.returns_bind.mp h
        obtain ⟨t₄, t₅, v, -, -, h⟩ := Raising.returns_bind.mp h
        obtain ⟨-, h0⟩ := Raising.runs_ofExcept.mp h
        cases h0

/-- The wait ends with a system that passes everything, compared with the one before. -/
theorem waitReturnFrom_success {finish : ℚ} {rounds : Nat} (h : Runs (waitReturnFrom lib site expected baseline previous reboot finish rounds).run s (.ok p)) :
    classifyReturn p expected previous = .ok .success := by
  induction rounds generalizing s with
  | zero =>
    obtain ⟨-, h0⟩ := Raising.runs_ofExcept.mp h
    cases h0
  | succ rounds ih =>
    obtain ⟨s₁, s₂, now, -, -, h⟩ := Raising.returns_bind.mp h
    split at h
    · obtain ⟨s₃, s₄, r, -, -, h⟩ := Raising.returns_bind.mp h
      rcases r with e | p₁
      · dsimp only at h
        split at h
        · obtain ⟨-, h0⟩ := Raising.runs_throw.mp h
          cases h0
        · split at h
          · obtain ⟨-, h0⟩ := Raising.runs_throw.mp h
            cases h0
          · obtain ⟨s₅, s₆, u, -, -, h⟩ := Raising.returns_bind.mp h
            exact ih h
      · obtain ⟨s₅, s₆, o, -, hj, h⟩ := Raising.returns_bind.mp h
        rcases o with _ | p₂
        · obtain ⟨s₇, s₈, u, -, -, h⟩ := Raising.returns_bind.mp h
          exact ih h
        · obtain ⟨-, h0⟩ := Raising.runs_pure.mp h
          cases h0
          obtain ⟨rfl, hs⟩ := judge_some hj
          exact hs
    · obtain ⟨-, h0⟩ := Raising.runs_ofExcept.mp h
      cases h0

theorem waitReturn_success {rounds : Nat} (h : Runs (waitReturn lib site expected baseline rounds previous reboot).run s (.ok p)) :
    classifyReturn p expected previous = .ok .success := by
  obtain ⟨s₁, s₂, now, -, -, h⟩ := Raising.returns_bind.mp h
  obtain ⟨s₃, s₄, u, -, -, h⟩ := Raising.returns_bind.mp h
  obtain ⟨s₅, s₆, v, -, -, h⟩ := Raising.returns_bind.mp h
  exact waitReturnFrom_success h

end

/-! ### What is sent -/

/-- Of the scripts for the router only the probe is sent, as it was read from its file, and nothing is copied. -/
def OnlyProbes (site : Site) (s : LookTrace) : Prop :=
  ∀ e ∈ s, (∀ script timeout, e.1 = .run script timeout →
    ∃ source, script = .text source ∧ (⟨.readText (join site.root "scripts/lib/cr8808-probe.sh".toList), .ok source⟩ : Event Look LookAnswer) ∈ s) ∧
      ∀ source remote, e.1 ≠ .copy source remote

section
variable {α β : Type} {lib : Python} {site : Site} {expected baseline previous p : Json} {reboot : Bool} {s s' : LookTrace}

theorem onlyProbes_nil : OnlyProbes site [] := fun _ he => (nomatch he)

theorem OnlyProbes.append (h : OnlyProbes site s) (h' : OnlyProbes site s') : OnlyProbes site (s ++ s') := by
  intro e he
  rcases List.mem_append.mp he with he | he
  · refine ⟨fun script timeout hq => ?_, (h e he).2⟩
    obtain ⟨source, hs, hm⟩ := (h e he).1 script timeout hq
    exact ⟨source, hs, List.mem_append_left _ hm⟩
  · refine ⟨fun script timeout hq => ?_, (h' e he).2⟩
    obtain ⟨source, hs, hm⟩ := (h' e he).1 script timeout hq
    exact ⟨source, hs, List.mem_append_right _ hm⟩

/-- A program that sends nothing. -/
def Silent (x : Py α) : Prop := Only (fun q => (∀ script timeout, q ≠ .run script timeout) ∧ ∀ source remote, q ≠ .copy source remote) x.run

theorem Silent.onlyProbes {x : Py α} (hx : Silent x) (h : Steps x.run s) : OnlyProbes site s := by
  intro e he
  obtain ⟨h1, h2⟩ := hx.steps h e he
  exact ⟨fun script timeout hq => absurd hq (h1 script timeout), h2⟩

/-- A program that sends nothing but probes. -/
def Probing (site : Site) (x : Py α) : Prop := ∀ s, Steps x.run s → OnlyProbes site s

theorem Silent.probing {x : Py α} (hx : Silent x) : Probing site x := fun _ h => hx.onlyProbes h

theorem Probing.bind {x : Py α} {f : α → Py β} (hx : Probing site x) (hf : ∀ a, Probing site (f a)) : Probing site (x >>= f) := by
  intro s h
  rcases Raising.steps_bind.mp h with h | ⟨s₁, s₂, a, rfl, h1, h2⟩
  · exact hx s h
  · exact (hx s₁ h1.steps).append (hf a s₂ h2)

theorem Probing.outcome {x : Py α} (hx : Probing site x) : Probing site (Raising.outcome x) := by
  intro s h
  rcases Proc.steps_bind.mp h with h | ⟨s₁, s₂, a, rfl, h1, h2⟩
  · exact hx s h
  · cases h2
    rw [List.append_nil]
    exact hx s₁ h1.steps

theorem probing_ofResult (r : Result α) : Probing site (ofResult r) := Silent.probing (x := ofResult r) trivial
theorem probing_pure (a : α) : Probing site (pure a : Py α) := Silent.probing trivial
theorem probing_throw (e : Exn) : Probing site (throw e : Py α) := Silent.probing trivial
theorem probing_clock : Probing site clock := Silent.probing (x := clock) (Only.bind (only_ask.mpr ⟨nofun, nofun⟩) fun _ => trivial)
theorem probing_sleep (d : ℚ) : Probing site (sleep d) := Silent.probing (x := sleep d) (only_ask.mpr ⟨nofun, nofun⟩)
theorem probing_emit (event : String) (detail : Option Json) : Probing site (emit event detail) :=
  Silent.probing (x := emit event detail) (only_ask.mpr ⟨nofun, nofun⟩)

/-- The run of a script that was read from the file of the probe. -/
theorem onlyProbes_run {source : Text} {timeout : ℚ} {a : Result Completed} :
    OnlyProbes site [⟨.readText (join site.root "scripts/lib/cr8808-probe.sh".toList), .ok source⟩, ⟨.run (.text source) timeout, a⟩] := by
  intro e he
  rcases List.mem_cons.mp he with rfl | he
  · exact ⟨fun _ _ hq => (nomatch hq), fun _ _ hq => (nomatch hq)⟩
  · rw [List.mem_singleton.mp he]
    refine ⟨fun script timeout' hq => ?_, fun _ _ hq => (nomatch hq)⟩
    injection hq with h1 h2
    exact ⟨source, h1.symm, List.mem_cons_self⟩

theorem steps_checked {script : Script} {timeout : ℚ} (h : Steps (checked script timeout).run s) : s = [] ∨ ∃ a, s = [⟨.run script timeout, a⟩] := by
  have hask : ∀ {s : LookTrace}, Steps (run script timeout).run s → s = [] ∨ ∃ a, s = [⟨.run script timeout, a⟩] := by
    intro s h
    rcases h with _ | ⟨⟨⟩⟩
    · exact .inl rfl
    · exact .inr ⟨_, rfl⟩
  unfold checked at h
  rcases Raising.steps_bind.mp h with h | ⟨s₁, s₂, r, rfl, h1, h2⟩
  · exact hask h
  · have hnil : s₂ = [] := by
      split at h2
      · split at h2
        · cases h2
          rfl
        · cases h2
          rfl
      · cases h2
        rfl
    rw [hnil, List.append_nil]
    exact hask h1.steps

theorem probing_probe : Probing site (probe lib site) := by
  intro s h
  have hread : ∀ {s : LookTrace}, Steps (readText (join site.root "scripts/lib/cr8808-probe.sh".toList)).run s → OnlyProbes site s := by
    intro s h
    exact Silent.onlyProbes (x := readText _) (only_ask.mpr ⟨nofun, nofun⟩) h
  unfold probe at h
  rcases Raising.steps_bind.mp h with h | ⟨s₁, s₂, source, rfl, h1, h2⟩
  · exact hread h
  · obtain rfl : s₁ = [⟨.readText (join site.root "scripts/lib/cr8808-probe.sh".toList), .ok source⟩] := Proc.runs_ask.mp h1
    have hsent : s₂ = [] ∨ ∃ a, s₂ = [⟨.run (.text source) 90, a⟩] := by
      rcases Raising.steps_bind.mp h2 with h2 | ⟨s₃, s₄, out, rfl, h3, h4⟩
      · exact steps_checked h2
      · cases h4
        rw [List.append_nil]
        exact steps_checked h3.steps
    rcases hsent with rfl | ⟨a, rfl⟩
    · rw [List.append_nil]
      exact hread h1.steps
    · exact onlyProbes_run

theorem probing_judge : Probing site (judge expected baseline previous reboot p) := by
  unfold judge failure
  refine (probing_ofResult _).bind fun a => (probing_ofResult _).bind fun b => ?_
  split
  · exact probing_pure _
  · refine (probing_ofResult _).bind fun state => ?_
    split
    · exact probing_ofResult _
    · exact probing_ofResult _
    · exact probing_pure _
    · refine (probing_ofResult _).bind fun u => (probing_ofResult _).bind fun l => ?_
      split
      · exact probing_pure _
      · exact (probing_ofResult _).bind fun c => (probing_emit _ _).bind fun _ => probing_ofResult _

theorem probing_waitReturnFrom {finish : ℚ} {rounds : Nat} : Probing site (waitReturnFrom lib site expected baseline previous reboot finish rounds) := by
  induction rounds with
  | zero => exact probing_ofResult _
  | succ rounds ih =>
    unfold waitReturnFrom failure
    refine probing_clock.bind fun now => ?_
    split
    · refine probing_probe.outcome.bind fun r => ?_
      rcases r with e | p
      · dsimp only
        split
        · exact probing_throw _
        · split
          · exact probing_throw _
          · exact (probing_sleep _).bind fun _ => ih
      · refine probing_judge.bind fun o => ?_
        rcases o with _ | p
        · exact (probing_sleep _).bind fun _ => ih
        · exact probing_pure _
    · exact probing_ofResult _

theorem probing_waitReturn {rounds : Nat} : Probing site (waitReturn lib site expected baseline rounds previous reboot) :=
  probing_clock.bind fun _ => (probing_emit _ _).bind fun _ => (probing_sleep _).bind fun _ => probing_waitReturnFrom

end

/-! ### The two commands -/

section
variable {α : Type} {x : Py α} {t : ActTrace}

theorem runs_lift {r : Result α} : Runs (liftM x : Run α).run t r ↔ ∃ s, t = s.map lookEvent ∧ Runs x.run s r := runs_looking

theorem steps_lift : Steps (liftM x : Run α).run t ↔ ∃ s, t = s.map lookEvent ∧ Steps x.run s := steps_looking

end

/-- The call sends the command at most once, and nothing else but probes. -/
def SendsOnce (site : Site) (command : Act) (t : ActTrace) : Prop :=
  ∃ s₁, OnlyProbes site s₁ ∧ (t = s₁.map lookEvent ∨ ∃ a s₂, OnlyProbes site s₂ ∧ t = s₁.map lookEvent ++ ⟨command, a⟩ :: s₂.map lookEvent)

section
variable {lib : Python} {site : Site} {expected baseline previous p : Json} {self self' : Controller} {rounds : Nat} {command : Upgrade} {t : ActTrace}

theorem runs_refuse {c : Bool} {message : String} {s : LookTrace} {u : Unit} (h : Runs (refuse c message).run s (.ok u)) : c = false := by
  obtain ⟨-, h0⟩ := Raising.runs_ofExcept.mp h
  simpa using stopIf_eq_ok.mp h0.symm

theorem execute_returns (h : Runs (self.execute lib site expected baseline rounds command).run t (.ok (self', p))) :
    classifyReturn p expected baseline = .ok .success := by
  unfold Controller.execute at h
  obtain ⟨t₁, t₂, u₁, -, -, h⟩ := Raising.returns_bind.mp h
  obtain ⟨t₃, t₄, result, -, -, h⟩ := Raising.returns_bind.mp h
  obtain ⟨t₅, t₆, u₂, -, -, h⟩ := Raising.returns_bind.mp h
  obtain ⟨t₇, t₈, u₃, -, -, h⟩ := Raising.returns_bind.mp h
  obtain ⟨t₉, t₀, p', -, hw, h⟩ := Raising.returns_bind.mp h
  obtain ⟨s, -, hs⟩ := runs_lift.mp hw
  obtain ⟨-, h0⟩ := Raising.runs_pure.mp h
  cases h0
  exact waitReturn_success hs

theorem reboot_returns (h : Runs (self.reboot lib site expected baseline rounds previous).run t (.ok (self', p))) :
    Passes previous expected baseline ∧ classifyReturn p expected previous = .ok .success := by
  unfold Controller.reboot at h
  obtain ⟨t₁, t₂, u₁, -, -, h⟩ := Raising.returns_bind.mp h
  obtain ⟨t₃, t₄, checks, -, hc, h⟩ := Raising.returns_bind.mp h
  obtain ⟨t₅, t₆, u₂, -, ha, h⟩ := Raising.returns_bind.mp h
  obtain ⟨t₇, t₈, u₃, -, -, h⟩ := Raising.returns_bind.mp h
  obtain ⟨t₉, t₀, r, -, -, h⟩ := Raising.returns_bind.mp h
  obtain ⟨w₁, w₂, p', -, hw, h⟩ := Raising.returns_bind.mp h
  obtain ⟨s, -, hs⟩ := runs_lift.mp hw
  obtain ⟨s₁, -, hc⟩ := runs_lift.mp hc
  obtain ⟨s₂, -, ha⟩ := runs_lift.mp ha
  obtain ⟨-, hc⟩ := Raising.runs_ofExcept.mp hc
  obtain ⟨-, h0⟩ := Raising.runs_pure.mp h
  cases h0
  exact ⟨⟨checks, hc.symm, by simpa using runs_refuse ha⟩, waitReturn_success hs⟩

/-- Behind a part that only probes, a command may be sent. -/
theorem SendsOnce.prepend {s : LookTrace} {command : Act} {t : ActTrace} (hs : OnlyProbes site s) (h : SendsOnce site command t) :
    SendsOnce site command (s.map lookEvent ++ t) := by
  obtain ⟨s₁, h1, h⟩ := h
  refine ⟨s ++ s₁, hs.append h1, ?_⟩
  rcases h with rfl | ⟨a, s₂, h2, rfl⟩
  · exact .inl List.map_append.symm
  · exact .inr ⟨a, s₂, h2, by rw [List.map_append, List.append_assoc]⟩

theorem sendsOnce_look {s : LookTrace} {command : Act} (hs : OnlyProbes site s) : SendsOnce site command (s.map lookEvent) := ⟨s, hs, .inl rfl⟩

/-- A part that only probes, and then the rest. -/
theorem sendsOnce_bind {α β : Type} {x : Py α} {f : α → Run β} {command : Act} (hx : Probing site x) (hf : ∀ a t, Steps (f a).run t → SendsOnce site command t)
    (h : Steps ((liftM x : Run α) >>= f).run t) : SendsOnce site command t := by
  rcases Raising.steps_bind.mp h with h | ⟨t₁, t₂, a, rfl, h1, h2⟩
  · obtain ⟨s, rfl, hs⟩ := steps_lift.mp h
    exact sendsOnce_look (hx s hs)
  · obtain ⟨s, rfl, hs⟩ := runs_lift.mp h1
    exact (hf a t₂ h2).prepend (hx s hs.steps)

/-- The command, and then nothing but looking. -/
theorem sendsOnce_command {β : Type} {command : Act} {x : Run (Completed)} {f : Completed → Run β} (hx : ∀ t, Steps x.run t → t = [] ∨ ∃ a, t = [⟨command, a⟩])
    (hf : ∀ a t, Steps (f a).run t → ∃ s, OnlyProbes site s ∧ t = s.map lookEvent) (h : Steps (x >>= f).run t) : SendsOnce site command t := by
  rcases Raising.steps_bind.mp h with h | ⟨t₁, t₂, a, rfl, h1, h2⟩
  · rcases hx t h with rfl | ⟨a, rfl⟩
    · exact ⟨[], onlyProbes_nil, .inl rfl⟩
    · exact ⟨[], onlyProbes_nil, .inr ⟨a, [], onlyProbes_nil, rfl⟩⟩
  · obtain ⟨s, hs, rfl⟩ := hf a t₂ h2
    rcases hx t₁ h1.steps with rfl | ⟨b, rfl⟩
    · exact ⟨s, hs, .inl rfl⟩
    · exact ⟨[], onlyProbes_nil, .inr ⟨b, s, hs, rfl⟩⟩

/-- Programs that only probe, one after the other. -/
theorem looks_bind {α β : Type} {x : Py α} {f : α → Run β} (hx : Probing site x) (hf : ∀ a t, Steps (f a).run t → ∃ s, OnlyProbes site s ∧ t = s.map lookEvent)
    (h : Steps ((liftM x : Run α) >>= f).run t) : ∃ s, OnlyProbes site s ∧ t = s.map lookEvent := by
  rcases Raising.steps_bind.mp h with h | ⟨t₁, t₂, a, rfl, h1, h2⟩
  · obtain ⟨s, rfl, hs⟩ := steps_lift.mp h
    exact ⟨s, hx s hs, rfl⟩
  · obtain ⟨s, rfl, hs⟩ := runs_lift.mp h1
    obtain ⟨s', hs', rfl⟩ := hf a t₂ h2
    exact ⟨s ++ s', (hx s hs.steps).append hs', List.map_append.symm⟩

theorem execute_sendsOnce (h : Steps (self.execute lib site expected baseline rounds command).run t) : SendsOnce site (.sysupgrade command) t := by
  unfold Controller.execute at h
  refine sendsOnce_bind (probing_ofResult _) (fun _ t h => ?_) h
  refine sendsOnce_command (fun t h => ?_) (fun result t h => ?_) h
  · rcases h with _ | ⟨⟨⟩⟩
    · exact .inl rfl
    · exact .inr ⟨_, rfl⟩
  · refine looks_bind (probing_emit _ _) (fun _ t h => ?_) h
    refine looks_bind (probing_ofResult _) (fun _ t h => ?_) h
    refine looks_bind probing_waitReturn (fun _ t h => ?_) h
    cases h
    exact ⟨[], onlyProbes_nil, rfl⟩

theorem reboot_sendsOnce (h : Steps (self.reboot lib site expected baseline rounds previous).run t) : SendsOnce site .reboot t := by
  unfold Controller.reboot at h
  refine sendsOnce_bind (probing_ofResult _) (fun _ t h => ?_) h
  refine sendsOnce_bind (probing_ofResult _) (fun _ t h => ?_) h
  refine sendsOnce_bind (probing_ofResult _) (fun _ t h => ?_) h
  refine sendsOnce_bind (probing_emit _ _) (fun _ t h => ?_) h
  refine sendsOnce_command (fun t h => ?_) (fun result t h => ?_) h
  · rcases h with _ | ⟨⟨⟩⟩
    · exact .inl rfl
    · exact .inr ⟨_, rfl⟩
  · refine looks_bind probing_waitReturn (fun _ t h => ?_) h
    cases h
    exact ⟨[], onlyProbes_nil, rfl⟩

/-- What an upgrade and the reboot behind it have shown when both return, and what a call that raises has sent. -/
theorem validated_return (lib : Python) (site : Site) (expected baseline : Json) (rounds rounds' : Nat) (self : Controller) (command : Upgrade) :
    (∀ t t' self' self'' p q, Runs (self.execute lib site expected baseline rounds command).run t (.ok (self', p)) →
      Runs (self'.reboot lib site expected baseline rounds' p).run t' (.ok (self'', q)) →
        Differs p baseline "boot_id" ∧ Differs q p "boot_id" ∧ Agrees p expected "identity" ∧ Agrees q expected "identity" ∧
          Passes p expected baseline ∧ Passes q expected baseline) ∧
    (∀ t e, Runs (self.execute lib site expected baseline rounds command).run t (.error e) → SendsOnce site (.sysupgrade command) t) ∧
    (∀ previous t e, Runs (self.reboot lib site expected baseline rounds' previous).run t (.error e) → SendsOnce site .reboot t) := by
  refine ⟨fun t t' self' self'' p q h h' => ?_, fun t e h => execute_sendsOnce h.steps, fun previous t e h => reboot_sendsOnce h.steps⟩
  obtain ⟨hp, hpi, hpp⟩ := classifyReturn_success (execute_returns h)
  obtain ⟨hpass, hq⟩ := reboot_returns h'
  obtain ⟨hqp, hqi, hqq⟩ := classifyReturn_success hq
  exact ⟨hp, hqp, hpi, hqi, hpass, hpass.trans hqq⟩

end

/-- A dictionary. -/
def Json.fields (l : List (String × Json)) : Json := .obj (l.map fun e => (e.1.toList, e.2))

/-- What a probe finds of the flash. -/
def flashFields : List (String × Json) :=
  [("board", .lit "redmi,ax3000"),
    ("mtd", .str ("mtd1: 0 0 \"0:MIBIB\"\n".toList ++ "mtd12: 0 0 \"0:APPSBL\"\n".toList ++ "mtd18: 07480000 00020000 \"rootfs\"".toList)),
    ("char", .bool true), ("offset", .int 0xA80000), ("cmdline", .bool true), ("mibib", .lit mibibSum), ("appsbl", .lit appsblSum),
    ("bootcmd", .lit "bootmiwifi"), ("ipv4", .bool false), ("ipv6", .bool false), ("resolver", .bool false)]

/-- A radio that is disabled. -/
def idleRadio (band path : String) : Json := .fields [("name", .lit band), ("band", .lit band), ("path", .lit path), ("disabled", .bool true)]

def idleRadios : Json := .arr (radioPaths.map fun e => idleRadio e.1 e.2)

/-- The probe of a system with the build `b` that has been booted some times since. -/
def newSystem (boots : Nat) : Json := .fields (flashFields ++
  [("boot_id", .int boots), ("kernel", .lit "6.12.103"), ("release", .fields [("release", .lit "25"), ("target", .lit "qualcommax/ipq50xx")]),
    ("identity", .fields [("RAINWRT_BUILD_ID", .lit "b"), ("RAINWRT_UPSTREAM_VERSION", .lit "25")]), ("ubi_mtd", .int 18),
    ("ubi", .lit "kernel rootfs rootfs_data"), ("mounts", .lit "/ overlay rw\n/overlay ubifs rw"), ("fatal", .bool false),
    ("phy", .str ([' '].intercalate (radioPaths.map fun e => ("/sys/devices/" ++ e.2).toList))), ("bdf", .lit "0x10 0x60"),
    ("rproc", .lit "running running running"), ("bands", .lit "1 1"), ("wifi", idleRadios), ("wifi_devices", idleRadios),
    ("ports", .lit "lan1 lan2 lan3 wan br-lan"), ("carrier", .bool true), ("wg", .bool true), ("wg_abi", .lit "6.12.103"), ("apk", .bool true)])

/-- A router that boots the new system at each command; the clock stands still. -/
def booting (boots : Nat) : (q : Act) → ActAnswer q × Nat
  | .sysupgrade _ => (.ok ⟨0, bytes "Commencing upgrade", []⟩, boots + 1)
  | .reboot => (.ok ⟨255, [], []⟩, boots + 1)
  | .look (.run _ _) => (.ok ⟨0, [UInt8.ofNat boots], []⟩, boots)
  | .look .clock => (0, boots)
  | .look (.readText _) => (.ok [], boots)
  | .look (.sleep _) | .look (.emit _ _) => (.ok (), boots)
  | .look (.copy _ _) | .look (.create _) | .look (.write _ _) | .look (.syncDir _) | .look (.readJson _) | .look (.manifest _) | .look (.sha _)
  | .look (.size _) | .look (.exists _) | .look (.isFile _) | .look (.isSymlink _) | .look (.resolve _) | .look (.diskFree _) | .look (.spawn _)
  | .look (.makeDir _ _) | .look (.chmod _) | .look (.lock _) | .look (.readTar _) | .look (.writeTar _ _) | .look (.gunzip _) => (.error .osError, boots)
  | .look (.which _) => (false, boots)
  | .look .now => ([], boots)

/-- The probe of a router that boots. -/
def bootingLib : Python := ⟨id, fun _ => .ok .null, fun data => .ok (newSystem (data.headD 0).toNat)⟩

/-- An upgrade and the reboot behind it. -/
def upgradeAndReboot : Run Json := do
  let (controller, p) ← Controller.execute bootingLib ⟨[], [], []⟩ (newSystem 0) (newSystem 0) {} 2 ⟨[], .text [], .int 0, []⟩
  let (_, q) ← controller.reboot bootingLib ⟨[], [], []⟩ (newSystem 0) (newSystem 0) 2 p
  pure q

set_option maxRecDepth 100000 in
/-- Both return, from a system with a new boot each time. -/
theorem validated_return_booting : ∃ p q, Differs p (newSystem 0) "boot_id" ∧ Differs q p "boot_id" ∧ Agrees p (newSystem 0) "identity" ∧
    Agrees q (newSystem 0) "identity" ∧ Passes p (newSystem 0) (newSystem 0) ∧ Passes q (newSystem 0) (newSystem 0) := by
  have hruns := runs_play booting 0 upgradeAndReboot
  have hok : (play booting 0 upgradeAndReboot.run).2.isOk = true := by decide +kernel
  rcases hr : (play booting 0 upgradeAndReboot.run).2 with e | q
  · rw [hr] at hok
    cases hok
  · rw [hr] at hruns
    obtain ⟨t, t', ⟨self', p⟩, -, hexecute, hruns⟩ := Raising.returns_bind.mp hruns
    obtain ⟨t'', t₃, ⟨self'', q'⟩, -, hreboot, -⟩ := Raising.returns_bind.mp hruns
    exact ⟨p, q', (validated_return _ _ _ _ _ _ _ _).1 _ _ _ _ _ _ hexecute hreboot⟩

end RainWrt.HwTest
