import RainWrt.HwTest.Runner
import RainWrt.Theorems.HwTest.Audit
import RainWrt.Theorems.HwTest.Controller

/-! Runs of the hardware-test runner that share a state directory: over all of them a build is flashed once and rebooted once,
    and nothing is flashed that has not passed every gate. -/

namespace RainWrt.HwTest

open Proc

/-! ### What is sent -/

/-- The command changes the router. -/
def Act.changes : Act → Bool
  | .look _ => false
  | _ => true

def Act.isSysupgrade : Act → Bool
  | .sysupgrade _ => true
  | _ => false

def Act.isReboot : Act → Bool
  | .reboot => true
  | _ => false

/-- The commands of a run that change the router. -/
def acts (t : ActTrace) : List Act := (t.map Sigma.fst).filter Act.changes

/-- The file is created. -/
def isCreation (path : Text) : Event Act ActAnswer → Bool
  | ⟨.look (.create p), .ok _⟩ => p = path
  | _ => false

/-- The manifest is read. -/
def manifest? : Event Act ActAnswer → Option Json
  | ⟨.look (.manifest _), .ok expected⟩ => some expected
  | _ => none

/-- The build that a run is about: that of the manifest it reads first. -/
def buildOf (t : ActTrace) : Option Text := (t.findSome? manifest?).bind fun expected => (buildId expected).toOption

section
variable {t t' : ActTrace} {s : LookTrace} {path : Text}

@[simp] theorem acts_nil : acts [] = [] := rfl

@[simp] theorem acts_append : acts (t ++ t') = acts t ++ acts t' := by simp [acts]

@[simp] theorem acts_look : acts (s.map lookEvent) = [] := by
  simp only [acts, List.map_map, List.filter_eq_nil_iff, List.mem_map, forall_exists_index, and_imp]
  rintro a e - rfl
  simp [lookEvent, Act.changes]

theorem acts_of_sendsOnce {site : Site} {command : Act} (hc : command.changes = true) (h : SendsOnce site command t) : acts t = [] ∨ acts t = [command] := by
  obtain ⟨s₁, -, rfl | ⟨a, s₂, -, rfl⟩⟩ := h
  · exact .inl acts_look
  · have hone : acts (⟨command, a⟩ :: s₂.map lookEvent) = [command] := by
      have hrest := acts_look (s := s₂)
      simp only [acts] at hrest ⊢
      rw [List.map_cons, List.filter_cons_of_pos hc, hrest]
    rw [acts_append, acts_look, hone]
    exact .inr rfl

theorem countP_creation_pos (h : (⟨.look (.create path), .ok ()⟩ : Event Act ActAnswer) ∈ t) : 0 < t.countP (isCreation path) :=
  List.countP_pos_iff.mpr ⟨_, h, by simp [isCreation]⟩

end

/-! ### One run -/

section
variable {α β : Type} {x : Py α} {f : α → Run β} {t : ActTrace}

/-- A part that only looks, and then the rest. -/
theorem steps_look_bind (h : Steps ((liftM x : Run α) >>= f).run t) :
    acts t = [] ∨ ∃ s t' a, t = s.map lookEvent ++ t' ∧ Runs x.run s (.ok a) ∧ Steps (f a).run t' := by
  rcases Raising.steps_bind.mp h with h | ⟨t₁, t₂, a, rfl, h1, h2⟩
  · obtain ⟨s, rfl, -⟩ := steps_lift.mp h
    exact .inl acts_look
  · obtain ⟨s, rfl, hs⟩ := runs_lift.mp h1
    exact .inr ⟨s, t₂, a, rfl, hs, h2⟩

theorem acts_of_steps_look (h : Steps (liftM x : Run α).run t) : acts t = [] := by
  obtain ⟨s, rfl, -⟩ := steps_lift.mp h
  exact acts_look

end

section
variable {lib : Python} {site : Site} {rounds : Nat} {expected first settings : Json} {c : Context} {endpoints : List Text} {runDir : Text}
  {events : List Json} {controller : Controller} {ready : Ready} {validate : Bool} {args : Args} {s : LookTrace} {t : ActTrace}

theorem privateWrite_returns {path : Text} {data : Content} {u : Unit} (h : Runs (privateWrite path data).run s (.ok u)) :
    (⟨.create path, .ok ()⟩ : Event Look LookAnswer) ∈ s := by
  obtain ⟨s₁, s₂, v, rfl, h1, -⟩ := Raising.returns_bind.mp h
  rw [Proc.runs_ask.mp h1]
  exact List.mem_cons_self

/-- Who may reboot has made the marker of the build. -/
theorem reserve_returns {u : Unit} (h : Runs (reserveValidationReboot site expected runDir events).run s (.ok u)) :
    ∃ id, buildId expected = .ok id ∧ (⟨.create (rebootMarker site id), .ok ()⟩ : Event Look LookAnswer) ∈ s := by
  unfold reserveValidationReboot at h
  obtain ⟨s₁, s₂, again, rfl, -, h⟩ := Raising.returns_bind.mp h
  obtain ⟨s₃, s₄, v, rfl, -, h⟩ := Raising.returns_bind.mp h
  obtain ⟨s₅, s₆, id, rfl, hid, h⟩ := Raising.returns_bind.mp h
  obtain ⟨-, hid⟩ := Raising.runs_ofExcept.mp hid
  obtain ⟨s₇, s₈, r, rfl, hw, h⟩ := Raising.returns_bind.mp h
  obtain ⟨y, hw, hr⟩ := Raising.runs_outcome.mp hw
  cases hr
  refine ⟨id, hid.symm, ?_⟩
  rcases r with e | v
  · split at h
    · obtain ⟨-, h0⟩ := Raising.runs_ofExcept.mp h
      cases h0
    · obtain ⟨-, h0⟩ := Raising.runs_throw.mp h
      cases h0
    · rename_i heq
      cases heq
  · have := privateWrite_returns hw
    simp [this]

/-- The reboot that is validated is sent behind its marker, and once. -/
def RebootsOnce (site : Site) (expected : Json) (t : ActTrace) : Prop :=
  acts t = [] ∨ (acts t = [.reboot] ∧ ∃ id, buildId expected = .ok id ∧ (⟨.look (.create (rebootMarker site id)), .ok ()⟩ : Event Act ActAnswer) ∈ t)

theorem mem_lookEvent {e : Event Look LookAnswer} (h : e ∈ s) : lookEvent e ∈ s.map lookEvent := List.mem_map_of_mem h

theorem RebootsOnce.prepend (h : RebootsOnce site expected t) (s : LookTrace) : RebootsOnce site expected (s.map lookEvent ++ t) := by
  rcases h with h | ⟨h, id, hid, hm⟩
  · exact .inl (by simp [h])
  · exact .inr ⟨by simp [h], id, hid, List.mem_append_right _ hm⟩

theorem validateReboot_once (h : Steps (validateReboot lib site rounds expected c endpoints runDir events controller first).run t) :
    RebootsOnce site expected t := by
  unfold validateReboot at h
  rcases steps_look_bind h with h | ⟨s, t₁, u, rfl, hs, h⟩
  · exact .inl h
  · obtain ⟨id, hid, hm⟩ := reserve_returns hs
    have hmark : (⟨.look (.create (rebootMarker site id)), .ok ()⟩ : Event Act ActAnswer) ∈ s.map lookEvent ++ t₁ :=
      List.mem_append_left _ (mem_lookEvent hm)
    have hreboot : acts t₁ = [] ∨ acts t₁ = [.reboot] := by
      rcases Raising.steps_bind.mp h with h | ⟨t₂, t₃, r, rfl, h1, h2⟩
      · exact acts_of_sendsOnce rfl (reboot_sendsOnce h)
      · have hlast : acts t₃ = [] := acts_of_steps_look h2
        rw [acts_append, hlast, List.append_nil]
        exact acts_of_sendsOnce rfl (reboot_sendsOnce h1.steps)
    rcases hreboot with h | h
    · exact .inl (by simp [h])
    · exact .inr ⟨by simp [h], id, hid, hmark⟩

theorem resumeValidation_once (h : Steps (resumeValidation lib site rounds expected endpoints runDir validate).run t) :
    RebootsOnce site expected t ∧ (validate = false → acts t = []) := by
  unfold resumeValidation at h
  rcases steps_look_bind h with h | ⟨s₁, t₁, c, rfl, -, h⟩
  · exact ⟨.inl h, fun _ => h⟩
  rcases steps_look_bind h with h | ⟨s₂, t₂, first, rfl, -, h⟩
  · exact ⟨.inl (by simp [h]), fun _ => by simp [h]⟩
  rcases steps_look_bind h with h | ⟨s₃, t₃, other, rfl, -, h⟩
  · exact ⟨.inl (by simp [h]), fun _ => by simp [h]⟩
  rcases steps_look_bind h with h | ⟨s₄, t₄, u₁, rfl, -, h⟩
  · exact ⟨.inl (by simp [h]), fun _ => by simp [h]⟩
  rcases steps_look_bind h with h | ⟨s₅, t₅, u₂, rfl, -, h⟩
  · exact ⟨.inl (by simp [h]), fun _ => by simp [h]⟩
  rcases steps_look_bind h with h | ⟨s₆, t₆, u₃, rfl, -, h⟩
  · exact ⟨.inl (by simp [h]), fun _ => by simp [h]⟩
  have hlast : RebootsOnce site expected t₆ ∧ (validate = false → acts t₆ = []) := by
    cases validate with
    | false =>
      cases h
      exact ⟨.inl rfl, fun _ => rfl⟩
    | true =>
      refine ⟨?_, nofun⟩
      rcases Raising.steps_bind.mp h with h | ⟨t₇, t₈, u, rfl, h1, h2⟩
      · exact validateReboot_once h
      · have hend : acts t₈ = [] := acts_of_steps_look h2
        rcases validateReboot_once h1.steps with h | ⟨h, id, hid, hm⟩
        · exact .inl (by simp [h, hend])
        · exact .inr ⟨by simp [h, hend], id, hid, List.mem_append_left _ hm⟩
  exact ⟨((((((hlast.1.prepend s₆).prepend s₅).prepend s₄).prepend s₃).prepend s₂).prepend s₁), fun hv => by simp [hlast.2 hv]⟩

/-- The candidate is flashed first, once; the reboot that is validated comes behind. -/
theorem flash_once (h : Steps (flash lib site rounds expected ready endpoints runDir validate).run t) :
    ∃ t₁ t₂, t = t₁ ++ t₂ ∧ (acts t₁ = [] ∨ acts t₁ = [.sysupgrade ready.command]) ∧ RebootsOnce site expected t₂ ∧ (validate = false → acts t₂ = []) := by
  unfold flash at h
  rcases Raising.steps_bind.mp h with h | ⟨t₁, t₂, ⟨controller, first⟩, rfl, h1, h⟩
  · exact ⟨t, [], (List.append_nil t).symm, acts_of_sendsOnce rfl (execute_sendsOnce h), .inl rfl, fun _ => rfl⟩
  have hrest : RebootsOnce site expected t₂ ∧ (validate = false → acts t₂ = []) := by
    rcases steps_look_bind h with h | ⟨s₁, t₃, u₁, rfl, -, h⟩
    · exact ⟨.inl h, fun _ => h⟩
    rcases steps_look_bind h with h | ⟨s₂, t₄, u₂, rfl, -, h⟩
    · exact ⟨.inl (by simp [h]), fun _ => by simp [h]⟩
    rcases steps_look_bind h with h | ⟨s₃, t₅, audit, rfl, -, h⟩
    · exact ⟨.inl (by simp [h]), fun _ => by simp [h]⟩
    rcases steps_look_bind h with h | ⟨s₄, t₆, performance, rfl, -, h⟩
    · exact ⟨.inl (by simp [h]), fun _ => by simp [h]⟩
    rcases steps_look_bind h with h | ⟨s₅, t₇, u₃, rfl, -, h⟩
    · exact ⟨.inl (by simp [h]), fun _ => by simp [h]⟩
    have hlast : RebootsOnce site expected t₇ ∧ (validate = false → acts t₇ = []) := by
      cases validate with
      | false =>
        have hend : acts t₇ = [] := acts_of_steps_look h
        exact ⟨.inl hend, fun _ => hend⟩
      | true =>
        refine ⟨?_, nofun⟩
        rcases Raising.steps_bind.mp h with h | ⟨t₈, t₉, u, rfl, h1, h2⟩
        · exact validateReboot_once h
        · have hend : acts t₉ = [] := acts_of_steps_look h2
          rcases validateReboot_once h1.steps with h | ⟨h, id, hid, hm⟩
          · exact .inl (by simp [h, hend])
          · exact .inr ⟨by simp [h, hend], id, hid, List.mem_append_left _ hm⟩
    exact ⟨(((((hlast.1.prepend s₅).prepend s₄).prepend s₃).prepend s₂).prepend s₁), fun hv => by simp [hlast.2 hv]⟩
  exact ⟨t₁, t₂, rfl, acts_of_sendsOnce rfl (execute_sendsOnce h1.steps), hrest⟩

end

/-! ### What comes before -/

section
variable {α β : Type}

/-- No manifest is read. -/
def Unread (x : Py α) : Prop := Only (fun q => ∀ dir, q ≠ .manifest dir) x.run

theorem Unread.bind {x : Py α} {f : α → Py β} (hx : Unread x) (hf : ∀ a, Unread (f a)) : Unread (x >>= f) :=
  Only.bind hx fun r =>
    match r with
    | .ok a => hf a
    | .error _ => trivial

theorem unread_ofResult (r : Result α) : Unread (ofResult r) := trivial

theorem unread_pure (a : α) : Unread (pure a : Py α) := trivial

/-- What is read first is not in a part that reads none. -/
theorem Unread.findSome {x : Py α} {s : LookTrace} {r : Result α} (hx : Unread x) (h : Runs x.run s r) : (s.map lookEvent).findSome? manifest? = none := by
  rw [List.findSome?_eq_none_iff]
  rintro e he
  obtain ⟨⟨q, a⟩, hm, rfl⟩ := List.mem_map.mp he
  have hq := hx.runs h _ hm
  cases q with
  | manifest dir => exact absurd rfl (hq dir)
  | _ => rfl

end

section
variable {lib : Python} {site : Site} {rounds : Nat} {settings : Json} {endpoints : List Text} {runDir : Text} {args : Args} {s : LookTrace}

theorem unread_checkWhich (tools : List String) : Unread (checkWhich tools) := by
  induction tools with
  | nil => exact unread_pure ()
  | cons tool tools ih =>
    have hask : Unread (Raising.ask (A := LookAnswer) (.which tool.toList)) := Only.bind (only_ask.mpr nofun) fun _ => trivial
    exact hask.bind fun found => (unread_ofResult _).bind fun _ => ih

theorem unread_openRun : Unread (openRun site) := by
  have hone {q : Look} (hq : ∀ dir, q ≠ .manifest dir) (x : Proc Look LookAnswer (LookAnswer q)) (hx : x = Proc.ask q) : Only (fun q => ∀ dir, q ≠ .manifest dir) x := by
    rw [hx]
    exact only_ask.mpr hq
  unfold openRun
  refine Unread.bind (hone (q := .makeDir site.state true) nofun _ rfl) fun _ => ?_
  refine Unread.bind (hone (q := .chmod site.state) nofun _ rfl) fun _ => ?_
  refine Unread.bind (hone (q := .lock _) nofun _ rfl) fun _ => ?_
  refine Unread.bind (Unread.bind (hone (q := .exists _) nofun _ rfl) fun found => ?_) fun settings => ?_
  · split
    · exact hone (q := .readJson _) nofun _ rfl
    · exact unread_pure _
  refine Unread.bind (Only.bind (only_ask.mpr nofun) fun _ => trivial) fun now => ?_
  exact Unread.bind (hone (q := .makeDir _ false) nofun _ rfl) fun _ => unread_pure _

/-- The manifest of the candidate is the first one that is read. -/
theorem preflight_manifest {c : Candidate} (h : Runs (preflight site args settings).run s (.ok c)) :
    (s.map lookEvent).findSome? manifest? = some c.expected := by
  unfold preflight at h
  obtain ⟨s₁, s₂, u, rfl, hwhich, h⟩ := Raising.returns_bind.mp h
  obtain ⟨s₃, s₄, dir, rfl, hdir, h⟩ := Raising.returns_bind.mp h
  obtain ⟨s₅, s₆, expected, rfl, hask, h⟩ := Raising.returns_bind.mp h
  obtain ⟨s₇, s₈, helpers, rfl, -, h⟩ := Raising.returns_bind.mp h
  obtain ⟨s₉, t₀, image, rfl, -, h⟩ := Raising.returns_bind.mp h
  obtain ⟨t₁, t₂, u₁, rfl, -, h⟩ := Raising.returns_bind.mp h
  obtain ⟨t₃, t₄, u₂, rfl, -, h⟩ := Raising.returns_bind.mp h
  obtain ⟨t₅, t₆, u₃, rfl, -, h⟩ := Raising.returns_bind.mp h
  obtain ⟨-, h0⟩ := Raising.runs_pure.mp h
  cases h0
  obtain ⟨rfl, -⟩ := Raising.runs_ofExcept.mp hdir
  have hhead : manifest? (lookEvent ⟨.manifest dir, .ok expected⟩) = some expected := rfl
  rw [Proc.runs_ask.mp hask]
  simp [List.findSome?_append, (unread_checkWhich _).findSome hwhich, hhead]

/-- The manifest of what is to be attempted. -/
def Attempt.expected : Attempt → Json
  | .resume expected => expected
  | .flash expected _ => expected

/-- What is known of an attempt: its manifest was read first, and what is to be flashed has made its marker. -/
theorem prepare_some {next : Attempt} (h : Runs (prepare lib site rounds args settings runDir endpoints).run s (.ok (some next))) :
    (s.map lookEvent).findSome? manifest? = some next.expected ∧
      ∀ expected ready, next = .flash expected ready → args.mode = .execute ∧ ∃ id c s₁ s₂ s₃, buildId expected = .ok id ∧ c.expected = expected ∧
        s = s₁ ++ (s₂ ++ s₃) ∧ Runs (preflight site args settings).run s₁ (.ok c) ∧ Runs (gates lib site rounds c runDir endpoints).run s₂ (.ok ready) ∧
          (⟨.create (executeMarker site id), .ok ()⟩ : Event Look LookAnswer) ∈ s₃ := by
  unfold prepare at h
  obtain ⟨s₁, s₂, c, rfl, hpre, h⟩ := Raising.returns_bind.mp h
  have hman := preflight_manifest hpre
  split at h
  · obtain ⟨-, h0⟩ := Raising.runs_pure.mp h
    cases h0
    exact ⟨by simp [List.findSome?_append, hman, Attempt.expected], nofun⟩
  obtain ⟨s₃, s₄, ready, rfl, hgates, h⟩ := Raising.returns_bind.mp h
  split at h
  · rename_i hmode
    obtain ⟨s₅, s₆, id, rfl, hid, h⟩ := Raising.returns_bind.mp h
    obtain ⟨s₇, s₈, u, rfl, hw, h⟩ := Raising.returns_bind.mp h
    obtain ⟨-, h0⟩ := Raising.runs_pure.mp h
    cases h0
    obtain ⟨-, hid⟩ := Raising.runs_ofExcept.mp hid
    refine ⟨by simp [List.findSome?_append, hman, Attempt.expected], fun expected ready heq => ?_⟩
    cases heq
    refine ⟨hmode, id, c, s₁, s₃, s₅ ++ (s₇ ++ s₈), hid.symm, rfl, rfl, hpre, hgates, ?_⟩
    simp [privateWrite_returns hw]
  · obtain ⟨s₅, s₆, u, rfl, -, h⟩ := Raising.returns_bind.mp h
    obtain ⟨-, h0⟩ := Raising.runs_pure.mp h
    cases h0

/-- A run that goes on to change the router, up to there and from there. -/
structure Splits (lib : Python) (site : Site) (rounds : Nat) (args : Args) (next : Attempt) (s : LookTrace) (t : ActTrace) : Prop where
  prepared : ∃ settings runDir endpoints s₀ s₁, s = s₀ ++ s₁ ∧ Runs (openRun site).run s₀ (.ok (settings, runDir)) ∧
    Runs (prepare lib site rounds args settings runDir endpoints).run s₁ (.ok (some next))
  attempted : ∃ endpoints runDir, Steps (attempt lib site rounds args endpoints runDir next).run t

theorem main_splits {t : ActTrace} (h : Steps (main lib site rounds args).run t) :
    acts t = [] ∨ ∃ next s t' s', t = s.map lookEvent ++ t' ++ List.map lookEvent s' ∧ Splits lib site rounds args next s t' := by
  unfold main at h
  rcases steps_look_bind h with h | ⟨s₀, t₀, ⟨settings, runDir⟩, rfl, hopen, h⟩
  · exact .inl h
  rcases steps_look_bind h with h | ⟨s₁, t₁, r, rfl, hpre, h⟩
  · exact .inl (by simp [h])
  obtain ⟨y, hpre, hr⟩ := Raising.runs_outcome.mp hpre
  cases hr
  rcases r with e | _ | next
  · have := acts_of_steps_look h
    exact .inl (by simp [this])
  · cases h
    exact .inl (by simp)
  · have hsplit {t' : ActTrace} (ht : Steps (attempt lib site rounds args args.endpointList runDir next).run t') : Splits lib site rounds args next (s₀ ++ s₁) t' :=
      ⟨⟨settings, runDir, args.endpointList, s₀, s₁, rfl, hopen, hpre⟩, ⟨args.endpointList, runDir, ht⟩⟩
    refine .inr ⟨next, s₀ ++ s₁, ?_⟩
    rcases Raising.steps_bind.mp h with h | ⟨t₂, t₃, r', rfl, h1, h2⟩
    · exact ⟨t₁, [], by simp, hsplit (Raising.steps_outcome.mp h)⟩
    · obtain ⟨y, h1, hr⟩ := Raising.runs_outcome.mp h1
      cases hr
      rcases r' with e | v
      · obtain ⟨s', rfl, -⟩ := steps_lift.mp h2
        exact ⟨t₂, s', by simp, hsplit h1.steps⟩
      · cases h2
        exact ⟨t₂, [], by simp, hsplit h1.steps⟩

/-- The attempt reads its manifest first, so the run is about its build. -/
theorem Splits.build {next : Attempt} {t : ActTrace} (h : Splits lib site rounds args next s t) (t' : ActTrace) :
    buildOf (s.map lookEvent ++ t ++ t') = (buildId next.expected).toOption := by
  obtain ⟨settings, runDir, endpoints, s₀, s₁, rfl, hopen, hpre⟩ := h.prepared
  simp [buildOf, List.findSome?_append, unread_openRun.findSome hopen, (prepare_some hpre).1]

end

/-! ### All runs of a state directory -/

/-- A run of `main`, up to its end or a crash. -/
structure Invocation (lib : Python) (site : Site) where
  rounds : Nat
  args : Args
  trace : ActTrace
  steps : Steps (main lib site rounds args).run trace

namespace Invocation

section
variable {lib : Python} {site : Site}

/-- How often a run sends a command. -/
def sends (i : Invocation lib site) (command : Act → Bool) : Nat := (acts i.trace).countP command

def creates (i : Invocation lib site) (path : Text) : Nat := i.trace.countP (isCreation path)

/-- What one run sends: nothing, or for its build no more than it has made markers, and only what it was asked for. -/
theorem once (i : Invocation lib site) :
    (acts i.trace = [] ∨ ∃ id, buildOf i.trace = some id ∧
      i.sends Act.isSysupgrade ≤ i.creates (executeMarker site id) ∧ i.sends Act.isReboot ≤ i.creates (rebootMarker site id)) ∧
    (i.args.mode ≠ .execute → i.sends Act.isSysupgrade = 0) ∧ (i.args.validateReboot = false → i.sends Act.isReboot = 0) := by
  obtain ⟨rounds, args, t, hsteps⟩ := i
  simp only [sends, creates]
  rcases main_splits hsteps with h | ⟨next, s, t', s', rfl, hsplit⟩
  · simp [h]
  have hbuild := hsplit.build (s'.map lookEvent)
  have hacts : acts (s.map lookEvent ++ t' ++ s'.map lookEvent) = acts t' := by simp
  obtain ⟨settings, dir, ends, s₀, s₁, rfl, -, hpre⟩ := hsplit.prepared
  obtain ⟨endpoints, runDir, ht⟩ := hsplit.attempted
  rw [hacts, hbuild]
  have hreboot {t : ActTrace} {id : Text} (h : RebootsOnce site next.expected t) (hid : buildId next.expected = .ok id) :
      (acts t).countP Act.isSysupgrade = 0 ∧ (acts t).countP Act.isReboot ≤ t.countP (isCreation (rebootMarker site id)) := by
    rcases h with h | ⟨h, id', hid', hm⟩
    · simp [h]
    · rw [hid] at hid'
      cases hid'
      exact ⟨by simp [h, Act.isSysupgrade], by simpa [h, Act.isReboot] using countP_creation_pos hm⟩
  cases next with
  | resume expected =>
    obtain ⟨hone, hno⟩ := resumeValidation_once ht
    have hnone : (acts t').countP Act.isSysupgrade = 0 := by
      rcases hone with h | ⟨h, -⟩ <;> simp [h, Act.isSysupgrade]
    refine ⟨?_, fun _ => hnone, fun hv => by simp [hno hv]⟩
    rcases hone with h | ⟨h, id, hid, hm⟩
    · simp [h]
    · refine .inr ⟨id, by simp [Attempt.expected, hid, Except.toOption], by omega, ?_⟩
      have := (hreboot (.inr ⟨h, id, hid, hm⟩) hid).2
      simp only [List.countP_append]
      omega
  | flash expected ready =>
    obtain ⟨hmode, id, c, s₂, s₃, s₄, hid, -, rfl, -, -, hm⟩ := (prepare_some hpre).2 expected ready rfl
    obtain ⟨t₁, t₂, rfl, h1, h2, hno⟩ := flash_once ht
    have hmark : 0 < ((s₀ ++ (s₂ ++ (s₃ ++ s₄))).map lookEvent).countP (isCreation (executeMarker site id)) :=
      countP_creation_pos (mem_lookEvent (List.mem_append_right _ (List.mem_append_right _ (List.mem_append_right _ hm))))
    have hup : (acts t₁).countP Act.isSysupgrade ≤ 1 ∧ (acts t₁).countP Act.isReboot = 0 := by
      rcases h1 with h | h <;> simp [h, Act.isSysupgrade, Act.isReboot]
    have hre := hreboot h2 hid
    refine ⟨.inr ⟨id, by simp [Attempt.expected, hid, Except.toOption], ?_, ?_⟩, fun h => absurd hmode h, fun hv => ?_⟩
    · simp only [acts_append, List.countP_append] at hmark ⊢
      omega
    · simp only [acts_append, List.countP_append]
      omega
    · simp [hup.2, hno hv]

/-- How often a command is sent for a build, over some runs. -/
def sent (command : Act → Bool) (id : Text) (h : List (Invocation lib site)) : Nat :=
  ((h.filter fun i => buildOf i.trace = some id).map (sends · command)).sum

def created (path : Text) (h : List (Invocation lib site)) : Nat := (h.map (creates · path)).sum

/-- Files are created exclusively, and nobody takes a marker away: each marker is made once. -/
def Exclusive (h : List (Invocation lib site)) : Prop := ∀ id, created (executeMarker site id) h ≤ 1 ∧ created (rebootMarker site id) h ≤ 1

/-- What each run has made a marker for is sent as often as there are markers. -/
theorem sent_le {command : Act → Bool} {id path : Text} (h : List (Invocation lib site))
    (hone : ∀ i ∈ h, buildOf i.trace = some id → i.sends command ≤ i.creates path) : sent command id h ≤ created path h := by
  induction h with
  | nil => exact Nat.le_refl 0
  | cons i h ih =>
    have hrest := ih fun j hj => hone j (List.mem_cons_of_mem i hj)
    have hi := hone i List.mem_cons_self
    simp only [sent, created, List.map_cons, List.sum_cons] at hrest ⊢
    by_cases hb : buildOf i.trace = some id
    · have := hi hb
      rw [List.filter_cons_of_pos (by simpa using hb), List.map_cons, List.sum_cons]
      omega
    · rw [List.filter_cons_of_neg (by simpa using hb)]
      omega

/-- Over all runs, in whatever order or at the same time, and wherever they crash: a build is flashed at most once and rebooted for
    its validation at most once, and only by runs that were asked to. -/
theorem sent_once (h : List (Invocation lib site)) (hx : Exclusive h) (id : Text) :
    sent Act.isSysupgrade id h ≤ 1 ∧ sent Act.isReboot id h ≤ 1 ∧
      ∀ i ∈ h, (i.sends Act.isSysupgrade ≠ 0 → i.args.mode = .execute) ∧ (i.sends Act.isReboot ≠ 0 → i.args.validateReboot = true) ∧
        (acts i.trace ≠ [] → ∃ id, buildOf i.trace = some id) := by
  have hmarked {command : Act → Bool} {marker : Text → Text}
      (hm : ∀ i : Invocation lib site, i.sends command = 0 ∨ ∃ id, buildOf i.trace = some id ∧ i.sends command ≤ i.creates (marker id)) :
      sent command id h ≤ created (marker id) h := by
    refine sent_le h fun i _ hb => ?_
    rcases hm i with h0 | ⟨id', hid, hle⟩
    · omega
    · rw [hb] at hid
      cases hid
      exact hle
  refine ⟨Nat.le_trans (hmarked fun i => ?_) (hx id).1, Nat.le_trans (hmarked fun i => ?_) (hx id).2, fun i _ => ?_⟩
  · rcases i.once.1 with h0 | ⟨id, hid, hle, -⟩
    · exact .inl (by simp [sends, h0])
    · exact .inr ⟨id, hid, hle⟩
  · rcases i.once.1 with h0 | ⟨id, hid, -, hle⟩
    · exact .inl (by simp [sends, h0])
    · exact .inr ⟨id, hid, hle⟩
  · obtain ⟨hone, hup, hre⟩ := i.once
    refine ⟨fun h => by_contra fun hm => h (hup hm), fun h => by simpa using fun hv => h (hre hv), fun h => ?_⟩
    obtain ⟨id, hid, -⟩ := hone.resolve_left h
    exact ⟨id, hid⟩

end

/-- What a call has created. -/
def created? : Event Act ActAnswer → Option Text
  | ⟨.look (.create path), .ok _⟩ => some path
  | _ => none

/-- No file is created twice. -/
theorem exclusive_of_nodup {lib : Python} {site : Site} {h : List (Invocation lib site)} (hnodup : (h.flatMap fun i => i.trace.filterMap created?).Nodup) :
    Exclusive h := by
  have hevent : ∀ path (e : Event Act ActAnswer), isCreation path e = ((created? e).map (· == path)).getD false := by
    intro path e
    unfold isCreation created?
    split
    · simp only [Option.map_some, Option.getD_some]
      exact Bool.eq_iff_iff.mpr (by simp)
    · rfl
  have hcount : ∀ path, created path h ≤ 1 := by
    intro path
    have heq : created path h = (h.flatMap fun i => i.trace.filterMap created?).count path := by
      clear hnodup
      induction h with
      | nil => rfl
      | cons i h ih =>
        rw [List.flatMap_cons, List.count_append, ← ih, created, created, List.map_cons, List.sum_cons, creates, List.count, List.countP_filterMap]
        congr 2
        funext e
        exact hevent path e
    rw [heq]
    exact List.nodup_iff_count_le_one.mp hnodup path
  exact fun id => ⟨hcount _, hcount _⟩

/-- What a router with an old system says to every script: its probe, its memory, and the sizes of an upgrade. -/
def oldSystem : Json := .fields (flashFields ++
  [("boot_id", .lit "a"), ("kernel", .lit "6.6.137"), ("release", .fields [("revision", .lit "r0-2b3c0919")]), ("mem_kib", .int 120000),
    ("tmp_kib", .int 120000), ("anon_kib", .int 7000), ("observer_anon_kib", .int 0), ("locked_kib", .int 0), ("swap_kib", .int 0),
    ("handoff", .arr [.int 0, .int 848]), ("stage2", .arr [.int 0, .int 4196])])

/-- The manifest of the build `b`, in which every file has the digest of the recovery image. -/
def oneDigest : Json := .fields
  [("identity", .fields [("RAINWRT_BUILD_ID", .lit "b"), ("RAINWRT_SOURCE_REVISION", .lit "c")]), ("source_revision", .lit "c"), ("image", .lit "i"),
    ("files", .fields [("i", .lit recoverySum)]), ("tools", .obj [(detector, .lit recoverySum), (memoryTool, .lit recoverySum)]),
    ("baseline_helpers", .obj (baselineHelpers.map fun helper => (helper, .lit recoverySum)))]

/-- The host knows which files it has created. The router is lost when a command is sent. -/
def losing (files : List Text) : (q : Act) → ActAnswer q × List Text
  | .look (.create path) => if path ∈ files then (.error .fileExistsError, files) else (.ok (), path :: files)
  | .look (.run _ _) => (.ok ⟨0, [0x61], []⟩, files)
  | .look (.manifest _) => (.ok oneDigest, files)
  | .look (.readJson _) => (.ok (.fields [("manifest_sha256", .lit recoverySum), ("supported_devices", .arr [.lit "redmi,ax3000"]),
      ("version", .fields [("target", .lit "qualcommax/ipq50xx")])]), files)
  | .look (.sha _) => (.ok recoverySum.toList, files)
  | .look (.size _) => (.ok 1000, files)
  | .look (.exists _) | .look (.isFile _) => (.ok true, files)
  | .look (.isSymlink _) => (.ok false, files)
  | .look (.resolve path) => (.ok path, files)
  | .look (.diskFree _) => (.ok (2 ^ 30), files)
  | .look (.which _) => (true, files)
  | .look (.spawn _) => (.ok ⟨0, [0x63], []⟩, files)
  | .look .now => (List.replicate files.length '0', files)
  | .look (.readTar _) => (.ok (wholeBackup.map fun m => { m with name := normalise m.name }), files)
  | .look .clock => (0, files)
  | .look (.readText _) => (.ok [], files)
  | .look (.copy _ _) => (.ok 0, files)
  | .look (.sleep _) | .look (.emit _ _) | .look (.write _ _) | .look (.syncDir _) | .look (.makeDir _ _) | .look (.chmod _) | .look (.lock _)
  | .look (.writeTar _ _) | .look (.gunzip _) => (.ok (), files)
  | .sysupgrade _ | .reboot => (.error .subprocessError, files)

def losingLib : Python := ⟨id, fun _ => .ok .null, fun _ => .ok oldSystem⟩

/-- A run that is asked to flash, with the files that there are. -/
def flashing (files : List Text) : Invocation losingLib ⟨['r'], ['s'], ['k']⟩ where
  rounds := 5
  args := { mode := .execute }
  trace := (play losing files (main losingLib ⟨['r'], ['s'], ['k']⟩ 5 { mode := .execute }).run).1.map Prod.fst
  steps := (runs_play losing files _).steps

/-- The call found a file in its place. -/
def isRefusal : Event Act ActAnswer → Bool
  | ⟨.look (.create _), .error .fileExistsError⟩ => true
  | _ => false

set_option maxRecDepth 100000 in
/-- The first run makes the marker and sends the command, and loses the router. The second one passes the same gates, meets the marker,
    and sends nothing. -/
theorem sent_once_lost : ∃ first second : Invocation losingLib ⟨['r'], ['s'], ['k']⟩,
    first.sends Act.isSysupgrade = 1 ∧ (∃ e ∈ second.trace, isRefusal e = true) ∧ acts second.trace = [] ∧ Exclusive [first, second] ∧
      sent Act.isSysupgrade ['b'] [first, second] ≤ 1 ∧ sent Act.isReboot ['b'] [first, second] ≤ 1 := by
  have hfacts : (flashing []).sends Act.isSysupgrade = 1 ∧ (flashing ((flashing []).trace.filterMap created?)).trace.any isRefusal = true ∧
      (acts (flashing ((flashing []).trace.filterMap created?)).trace).isEmpty = true ∧
      ([flashing [], flashing ((flashing []).trace.filterMap created?)].flatMap fun i => i.trace.filterMap created?).Nodup := by decide +kernel
  obtain ⟨hsends, hrefused, hempty, hnodup⟩ := hfacts
  have hx := exclusive_of_nodup hnodup
  exact ⟨_, _, hsends, List.any_eq_true.mp hrefused, List.isEmpty_iff.mp hempty, hx, (sent_once _ hx _).1, (sent_once _ hx _).2.1⟩

end Invocation

/-! ### The gates in front of a flash -/

section
variable {α β : Type} {s s' : LookTrace}

/-- `x` returned `a` on the way. -/
def Returned (s : LookTrace) (x : Py α) (a : α) : Prop := ∃ s', s' <:+: s ∧ Runs x.run s' (.ok a)

theorem Returned.bind {x : Py α} {f : α → Py β} {b : β} (h : Returned s (x >>= f) b) : ∃ a, Returned s x a ∧ Returned s (f a) b := by
  obtain ⟨s', hs, h⟩ := h
  obtain ⟨s₁, s₂, a, rfl, h1, h2⟩ := Raising.returns_bind.mp h
  exact ⟨a, ⟨s₁, (List.prefix_append s₁ s₂).isInfix.trans hs, h1⟩, ⟨s₂, (List.suffix_append s₁ s₂).isInfix.trans hs, h2⟩⟩

theorem Returned.of_runs {x : Py α} {a : α} (h : Runs x.run s (.ok a)) : Returned s x a := ⟨s, List.infix_refl s, h⟩

theorem Returned.pure_eq {a b : α} (h : Returned s (pure a) b) : b = a := by
  obtain ⟨s', -, h⟩ := h
  simpa using (Raising.runs_pure.mp h).2

theorem Returned.result {r : Result α} {a : α} (h : Returned s (ofResult r) a) : r = .ok a := by
  obtain ⟨s', -, h⟩ := h
  exact (Raising.runs_ofExcept.mp h).2.symm

theorem Returned.passed {c : Bool} {message : String} {u : Unit} (h : Returned s (refuse c message) u) : c = false := by
  obtain ⟨s', -, h⟩ := h
  exact runs_refuse h

/-- The script has exited with 0. -/
def Exited (s : LookTrace) (script : Script) : Prop :=
  ∃ timeout r, (⟨.run script timeout, .ok r⟩ : Event Look LookAnswer) ∈ s ∧ r.returncode = 0

theorem Returned.exited {script : Script} {timeout : ℚ} {out : Bytes} (h : Returned s (checked script timeout) out) : Exited s script := by
  obtain ⟨s', hs, h⟩ := h
  obtain ⟨s₁, s₂, r, rfl, h1, h2⟩ := Raising.returns_bind.mp h
  have hask : s₁ = [⟨.run script timeout, .ok r⟩] := Proc.runs_ask.mp h1
  refine ⟨timeout, r, hs.subset (by simp [hask]), ?_⟩
  by_contra hr
  rw [if_pos hr] at h2
  split at h2
  · obtain ⟨-, h0⟩ := Raising.runs_ofExcept.mp h2
    cases h0
  · obtain ⟨-, h0⟩ := Raising.runs_ofExcept.mp h2
    cases h0

end

section
variable {lib : Python} {site : Site} {rounds : Nat} {c : Candidate} {runDir migrated : Text} {endpoints : List Text} {s s₁ s₂ s' : LookTrace}
  {args : Args} {settings : Json}

/-- The manifest of a candidate was read, and each of its files, which has the digest of the manifest. -/
def Reviewed (s : LookTrace) (dir : Text) (expected : Json) : Prop :=
  (⟨.manifest dir, .ok expected⟩ : Event Look LookAnswer) ∈ s ∧ ∃ files entries, expected.item "files" = .ok files ∧ files.items = .ok entries ∧
    ∀ e ∈ entries, ∃ digest, (⟨.sha (join dir e.1), .ok digest⟩ : Event Look LookAnswer) ∈ s ∧ (Json.str digest).eq e.2 = true

/-- All gates in front of the upload have passed in `s`, for what runs on the router. -/
structure Uploaded (lib : Python) (rounds : Nat) (site : Site) (s : LookTrace) (helpers : List (Text × Text)) (baseline profile : Json)
    (verify : Text) : Prop where
  probed : Returned s (probe lib site) baseline
  layout : ∃ checks, layoutChecks baseline = .ok checks ∧ checks.allTrue = true
  source : knownGoodSource baseline = .ok true
  reference : Exited s (.text (referenceVerify helpers))
  migrated : ∃ source destination enabled migration audit, Returned s (migrateFile lib source destination enabled) migration ∧
    Returned s (auditFiles source destination) audit
  before : ∃ imageKib p, Returned s (waitResources lib site rounds { imageKib, profile, phase := "PRE_UPLOAD_CAPACITY_PHYSICAL_GATE" }) p
  payload : ∃ imageKib archiveBytes p, Returned s (waitResources lib site rounds { imageKib, profile, phase := "PRE_PAYLOAD_UPLOAD_GATE", archiveBytes }) p
  verified : Exited s (.text verify)

/-- All gates between the upload and the handoff have passed in `s`. -/
structure HandedOff (lib : Python) (rounds : Nat) (site : Site) (s : LookTrace) (baseline profile : Json) (memory : Script) : Prop where
  unchanged : ∃ p, Returned s (probe lib site) p ∧ Agrees baseline p "boot_id" ∧ Agrees baseline p "mtd"
  behind : ∃ archiveBytes p, Returned s (waitResources lib site rounds
    { imageKib := 0, profile, phase := "POST_UPLOAD_VALIDATION_GATE", archiveBytes, staged := true }) p
  last : ∃ archiveBytes p, Returned s (waitResources lib site rounds { imageKib := 0, profile, phase := "PRE_HANDOFF_GATE", archiveBytes, staged := true }) p
  memory : Exited s memory

theorem checkFiles_returns {dir : Text} {files : List (Text × Json)} {u : Unit} (h : Returned s (checkFiles dir files) u) :
    ∀ e ∈ files, ∃ digest, (⟨.sha (join dir e.1), .ok digest⟩ : Event Look LookAnswer) ∈ s ∧ (Json.str digest).eq e.2 = true := by
  induction files with
  | nil => simp
  | cons e files ih =>
    obtain ⟨name, sum⟩ := e
    unfold checkFiles at h
    split at h
    · obtain ⟨bad, hbad, h⟩ := h.bind
      obtain ⟨v, hv, h⟩ := h.bind
      have := hv.passed
      rw [hbad.pure_eq] at this
      cases this
    · obtain ⟨digest, hsha, h⟩ := h.bind
      obtain ⟨bad, hbad, h⟩ := h.bind
      obtain ⟨v, hv, h⟩ := h.bind
      have hne := hv.passed
      rw [hbad.pure_eq] at hne
      obtain ⟨s', hs, hask⟩ := hsha
      have hask : s' = [⟨.sha (join dir name), .ok digest⟩] := Proc.runs_ask.mp hask
      intro e he
      rcases List.mem_cons.mp he with rfl | he
      · exact ⟨digest, hs.subset (by simp [hask]), by simpa using hne⟩
      · exact ih h e he

theorem fingerprint_returns {baseline : Json} (h : Returned s (fingerprint lib site runDir) baseline) :
    Returned s (probe lib site) baseline ∧ (∃ checks, layoutChecks baseline = .ok checks ∧ checks.allTrue = true) ∧ knownGoodSource baseline = .ok true := by
  obtain ⟨p, hp, h⟩ := h.bind
  obtain ⟨u, -, h⟩ := h.bind
  obtain ⟨layout, hlayout, h⟩ := h.bind
  obtain ⟨good, hgood, h⟩ := h.bind
  obtain ⟨u₁, -, h⟩ := h.bind
  obtain ⟨u₂, hall, h⟩ := h.bind
  obtain rfl := h.pure_eq
  have hall := hall.passed
  simp only [Checks.allTrue, List.all_append, Bool.not_eq_false', Bool.and_eq_true] at hall
  obtain ⟨hall, htrue⟩ := hall
  have : good = true := by simpa [check, Json.truthy] using htrue
  exact ⟨hp, ⟨layout, hlayout.result, hall⟩, by rw [hgood.result, this]⟩

theorem migrateConfig_returns {m : Migration} (h : Returned s (migrateConfig lib runDir) m) :
    ∃ source destination enabled migration audit, Returned s (migrateFile lib source destination enabled) migration ∧
      Returned s (auditFiles source destination) audit := by
  obtain ⟨listing, -, h⟩ := h.bind
  obtain ⟨u₁, -, h⟩ := h.bind
  obtain ⟨u₂, -, h⟩ := h.bind
  obtain ⟨services, -, h⟩ := h.bind
  obtain ⟨enabled, -, h⟩ := h.bind
  obtain ⟨original, -, h⟩ := h.bind
  obtain ⟨u₃, -, h⟩ := h.bind
  obtain ⟨migration, hm, h⟩ := h.bind
  obtain ⟨audit, ha, -⟩ := h.bind
  exact ⟨_, _, enabled, migration, audit, hm, ha⟩

theorem stage_returns {digest remote verify : Text} {staged : Bool} (h : Returned s (stage site c digest remote migrated staged) verify) :
    Exited s (.text verify) := by
  obtain ⟨u₁, -, h⟩ := h.bind
  obtain ⟨u₂, -, h⟩ := h.bind
  obtain ⟨u₃, -, h⟩ := h.bind
  obtain ⟨sum, -, h⟩ := h.bind
  obtain ⟨sum', -, h⟩ := h.bind
  obtain ⟨out, hout, h⟩ := h.bind
  obtain ⟨u₄, -, h⟩ := h.bind
  obtain rfl := h.pure_eq
  exact hout.exited

theorem stageCandidate_returns {st : Staged} (h : Returned s (stageCandidate lib site rounds c runDir migrated) st) :
    Uploaded lib rounds site s c.helpers st.baseline st.profile st.verify := by
  obtain ⟨baseline, hprint, h⟩ := h.bind
  obtain ⟨out, hhelpers, h⟩ := h.bind
  obtain ⟨u₁, -, h⟩ := h.bind
  obtain ⟨profile, -, h⟩ := h.bind
  obtain ⟨u₂, -, h⟩ := h.bind
  obtain ⟨digest, -, h⟩ := h.bind
  obtain ⟨staged, -, h⟩ := h.bind
  obtain ⟨imageKib, -, h⟩ := h.bind
  obtain ⟨p, hbefore, h⟩ := h.bind
  obtain ⟨out', -, h⟩ := h.bind
  obtain ⟨migration, hmigrate, h⟩ := h.bind
  obtain ⟨archiveBytes, -, h⟩ := h.bind
  obtain ⟨p', hpayload, h⟩ := h.bind
  obtain ⟨verify, hverify, h⟩ := h.bind
  obtain rfl := h.pure_eq
  obtain ⟨hprobe, hlayout, hsource⟩ := fingerprint_returns hprint
  exact ⟨hprobe, hlayout, hsource, hhelpers.exited, migrateConfig_returns hmigrate, ⟨imageKib, p, hbefore⟩, ⟨imageKib, archiveBytes, p', hpayload⟩,
    stage_returns hverify⟩

theorem checkHandoff_returns {st : Staged} {ready : Ready} (h : Returned s (checkHandoff lib site rounds runDir migrated endpoints st) ready) :
    HandedOff lib rounds site s st.baseline st.profile ready.command.finalMemoryCheck ∧ ready.context.baseline = st.baseline ∧
      ready.command.verify = st.verify ∧ st.baseline.item "boot_id" = .ok ready.command.bootId := by
  obtain ⟨post, hpost, h⟩ := h.bind
  obtain ⟨archiveBytes, -, h⟩ := h.bind
  obtain ⟨p, hbehind, h⟩ := h.bind
  obtain ⟨changed, hchanged, h⟩ := h.bind
  obtain ⟨u₁, hsame, h⟩ := h.bind
  obtain ⟨net, -, h⟩ := h.bind
  obtain ⟨u₂, -, h⟩ := h.bind
  obtain ⟨u₃, -, h⟩ := h.bind
  obtain ⟨archiveBytes', -, h⟩ := h.bind
  obtain ⟨p', hlast, h⟩ := h.bind
  obtain ⟨final, -, h⟩ := h.bind
  obtain ⟨out, hfinal, h⟩ := h.bind
  obtain ⟨u₄, -, h⟩ := h.bind
  obtain ⟨boot, hboot, h⟩ := h.bind
  obtain rfl := h.pure_eq
  have hchanged := hchanged.result
  rw [hsame.passed] at hchanged
  obtain ⟨b, hb, hchanged⟩ := bind_eq_ok.mp hchanged
  obtain ⟨b', hb', hchanged⟩ := bind_eq_ok.mp hchanged
  have hagree : Agrees st.baseline post "boot_id" ∧ Agrees st.baseline post "mtd" := by
    split at hchanged
    · cases hchanged
    · rename_i heq
      obtain ⟨m, hm, hchanged⟩ := bind_eq_ok.mp hchanged
      obtain ⟨m', hm', hchanged⟩ := bind_eq_ok.mp hchanged
      have hmtd : m.eq m' = true := by simpa using Except.ok.inj hchanged
      exact ⟨⟨b, b', hb, hb', by simpa using heq⟩, ⟨m, m', hm, hm', hmtd⟩⟩
  exact ⟨⟨⟨post, hpost, hagree⟩, ⟨archiveBytes, p, hbehind⟩, ⟨archiveBytes', p', hlast⟩, hfinal.exited⟩, rfl, rfl, hboot.result⟩

theorem preflight_reviewed (h : Returned s (preflight site args settings) c) :
    Reviewed s c.dir c.expected ∧ helperSums c.expected = .ok c.helpers := by
  obtain ⟨u₁, -, h⟩ := h.bind
  obtain ⟨dir, -, h⟩ := h.bind
  obtain ⟨expected, ⟨s', hs', hmanifest⟩, h⟩ := h.bind
  have hread : s' = [⟨.manifest dir, .ok expected⟩] := Proc.runs_ask.mp hmanifest
  obtain ⟨helpers, hc, h⟩ := h.bind
  obtain ⟨image, -, h⟩ := h.bind
  obtain ⟨u₂, -, h⟩ := h.bind
  obtain ⟨u₃, -, h⟩ := h.bind
  obtain ⟨u₄, -, h⟩ := h.bind
  obtain rfl := h.pure_eq
  obtain ⟨anchor, -, hc⟩ := hc.bind
  obtain ⟨files, hfiles, hsums⟩ : ∃ files, (Returned s (ofResult (do (← expected.item "files").items)) files ∧ ∃ u, Returned s (checkFiles dir files) u) ∧
      Returned s (ofResult (helperSums expected)) helpers := by
    split at hc
    · obtain ⟨digest, -, hc⟩ := hc.bind
      obtain ⟨unbound, -, hc⟩ := hc.bind
      obtain ⟨v, -, hc⟩ := hc.bind
      obtain ⟨files, hf, hc⟩ := hc.bind
      obtain ⟨u, hu, hc⟩ := hc.bind
      obtain ⟨tools, -, hc⟩ := hc.bind
      obtain ⟨u', -, hc⟩ := hc.bind
      obtain ⟨u'', -, hc⟩ := hc.bind
      exact ⟨files, ⟨hf, u, hu⟩, hc⟩
    · obtain ⟨unbound, -, hc⟩ := hc.bind
      obtain ⟨v, -, hc⟩ := hc.bind
      obtain ⟨files, hf, hc⟩ := hc.bind
      obtain ⟨u, hu, hc⟩ := hc.bind
      obtain ⟨tools, -, hc⟩ := hc.bind
      obtain ⟨u', -, hc⟩ := hc.bind
      obtain ⟨u'', -, hc⟩ := hc.bind
      exact ⟨files, ⟨hf, u, hu⟩, hc⟩
  obtain ⟨hf, u, hu⟩ := hfiles
  obtain ⟨fs, hfs, hitems⟩ := bind_eq_ok.mp hf.result
  exact ⟨⟨hs'.subset (by simp [hread]), fs, files, hfs, hitems, checkFiles_returns hu⟩, hsums.result⟩

end

/-- What has happened on a way to a flash: the candidate was reviewed, then it was uploaded, then handed off, each behind its gates, and
    then the marker was made. -/
structure Gated (lib : Python) (rounds : Nat) (site : Site) (s : LookTrace) (command : Upgrade) (id : Text) : Prop where
  passed : ∃ s₁ s₂ s₃ s₄ dir expected helpers baseline profile, s = s₁ ++ (s₂ ++ (s₃ ++ s₄)) ∧ buildId expected = .ok id ∧
    Reviewed s₁ dir expected ∧ helperSums expected = .ok helpers ∧ Uploaded lib rounds site s₂ helpers baseline profile command.verify ∧
    HandedOff lib rounds site s₃ baseline profile command.finalMemoryCheck ∧ baseline.item "boot_id" = .ok command.bootId ∧
    (⟨.create (executeMarker site id), .ok ()⟩ : Event Look LookAnswer) ∈ s₄

/-- In every run, whatever the router and the host answer and wherever it ends: no candidate is flashed, or one is, by a run that was
    asked to and behind all the gates. -/
theorem sysupgrade_gated {lib : Python} {site : Site} (i : Invocation lib site) : (acts i.trace).filter Act.isSysupgrade = [] ∨
    ∃ command s t id, i.trace = s.map lookEvent ++ t ∧ (acts t).filter Act.isSysupgrade = [.sysupgrade command] ∧ i.args.mode = .execute ∧
      buildOf i.trace = some id ∧ Gated lib i.rounds site s command id := by
  obtain ⟨rounds, args, t, hsteps⟩ := i
  rcases main_splits hsteps with h0 | ⟨next, s, t', s', rfl, hsplit⟩
  · exact .inl (by simp [h0])
  have hbuild := hsplit.build (s'.map lookEvent)
  obtain ⟨settings, dir, ends, s₀, s₁, rfl, -, hpre⟩ := hsplit.prepared
  obtain ⟨endpoints, runDir, ht⟩ := hsplit.attempted
  cases next with
  | resume expected =>
    refine .inl ?_
    rcases (resumeValidation_once ht).1 with h0 | ⟨h0, -⟩ <;> simp [h0, Act.isSysupgrade]
  | flash expected ready =>
    obtain ⟨hmode, id, c, s₂, s₃, s₄, hid, rfl, rfl, hpre', hgates, hm⟩ := (prepare_some hpre).2 expected ready rfl
    obtain ⟨t₃, t₄, rfl, h1, h2, -⟩ := flash_once ht
    have hlast : (acts t₄).filter Act.isSysupgrade = [] := by
      rcases h2 with h2 | ⟨h2, -⟩ <;> simp [h2, Act.isSysupgrade]
    rcases h1 with h1 | h1
    · exact .inl (by simp [h1, hlast])
    obtain ⟨s₅, s₆, st, rfl, hst, hready⟩ := Raising.returns_bind.mp hgates
    obtain ⟨hhand, -, hverify, hboot⟩ := checkHandoff_returns (.of_runs hready)
    have hup := stageCandidate_returns (.of_runs hst)
    rw [← hverify] at hup
    have hsent : (acts (t₃ ++ t₄ ++ s'.map lookEvent)).filter Act.isSysupgrade = [.sysupgrade ready.command] := by
      rw [acts_append, acts_append, acts_look, h1, List.append_nil, List.filter_append, hlast]
      rfl
    refine .inr ⟨ready.command, _, t₃ ++ t₄ ++ s'.map lookEvent, id, List.append_assoc .., hsent, hmode, ?_, ?_⟩
    · rw [hbuild]
      simp [Attempt.expected, hid, Except.toOption]
    · obtain ⟨hreviewed, hsums⟩ := preflight_reviewed ⟨s₂, (List.suffix_append s₀ s₂).isInfix, hpre'⟩
      exact ⟨s₀ ++ s₂, s₅, s₆, s₄, c.dir, c.expected, c.helpers, st.baseline, st.profile, by simp, hid, hreviewed, hsums, hup, hhand, hboot, hm⟩

end RainWrt.HwTest
