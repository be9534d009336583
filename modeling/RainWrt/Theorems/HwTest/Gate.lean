import RainWrt.History
import RainWrt.Theorems.HwTest.Controller

/-! The wait for enough memory: what is taken as enough, and when. -/

namespace RainWrt.HwTest

open Proc Proc.History

/-! ### Time -/

/-- A call with the times before and after it: the clock tells the time and never goes back, and a sleep
    takes at least as long as it was asked to. -/
def Ticks (now : ℚ) (e : Event Look LookAnswer) (later : ℚ) : Prop :=
  now ≤ later ∧
    match e with
    | ⟨.clock, r⟩ => later = r
    | ⟨.sleep d, .ok ()⟩ => now + d ≤ later
    | _ => True

abbrev Timed := History Look LookAnswer ℚ

theorem le_last {now : ℚ} {T : Timed} (h : Follows Ticks now T) : now ≤ last now T := h.le fun _ _ _ h => h.1

/-- A sample reads the memory tool first. -/
def isSample : Event Look LookAnswer → Bool
  | ⟨.readText _, _⟩ => true
  | _ => false

/-- How many samples are taken. -/
def samples (T : Timed) : Nat := T.countP fun e => isSample e.1

@[simp] theorem samples_nil : samples [] = 0 := rfl

@[simp] theorem samples_append {T T' : Timed} : samples (T ++ T') = samples T + samples T' := List.countP_append

@[simp] theorem samples_cons {e : Event Look LookAnswer × ℚ} {T : Timed} : samples (e :: T) = samples T + if isSample e.1 then 1 else 0 := List.countP_cons

/-! ### Calls -/

section
variable {now : ℚ} {T : Timed} {α : Type}

theorem within_ofResult {y r : Result α} : Within Ticks now (ofResult y) T r ↔ T = [] ∧ r = y := within_ofExcept

/-- Programs that begin with a value, or with a look at the clock, and return. -/
theorem ofResult_bind {β : Type} {y : Result α} {f : α → Py β} {b : β} (h : Within Ticks now (ofResult y >>= f) T (.ok b)) :
    ∃ a, y = .ok a ∧ Within Ticks now (f a) T (.ok b) := by
  obtain ⟨T₁, T₂, a, rfl, h1, h2⟩ := within_returns.mp h
  obtain ⟨rfl, hy⟩ := within_ofResult.mp h1
  exact ⟨a, hy.symm, h2⟩

theorem clock_bind {f : ℚ → Py α} {a : α} (h : Within Ticks now (clock >>= f) T (.ok a)) :
    ∃ c T', T = (⟨.clock, c⟩, c) :: T' ∧ now ≤ c ∧ Within Ticks c (f c) T' (.ok a) := by
  obtain ⟨T₁, T₂, c, rfl, h1, h2⟩ := within_returns.mp h
  obtain ⟨c', later, rfl, hc, hle, rfl⟩ := within_ask.mp h1
  obtain rfl := Except.ok.inj hc
  exact ⟨c, T₂, rfl, hle, h2⟩

theorem within_sleep {d : ℚ} (h : Within Ticks now (sleep d) T (.ok ())) : ∃ later, T = [(⟨.sleep d, .ok ()⟩, later)] ∧ now ≤ later ∧ now + d ≤ later := by
  obtain ⟨later, rfl⟩ := map_fst_eq_singleton.mp (Proc.runs_ask.mp h.runs)
  obtain ⟨⟨hle, hd⟩, -⟩ := h.follows
  exact ⟨later, rfl, hle, hd⟩

theorem within_emit {event : String} {detail : Option Json} {r : Result Unit} (h : Within Ticks now (emit event detail) T r) :
    ∃ later, T = [(⟨.emit event.toList detail, r⟩, later)] :=
  map_fst_eq_singleton.mp (Proc.runs_ask.mp h.runs)

end

section
variable {lib : Python} {site : Site} {timeout now : ℚ} {T : Timed} {r : Result Json}

theorem samples_of_checked {t : LookTrace} {script : Script} (h : t = [] ∨ ∃ a, t = [⟨.run script timeout, a⟩]) (hT : T.map Prod.fst = t) : samples T = 0 := by
  rcases h with rfl | ⟨a, rfl⟩
  · rw [List.map_eq_nil_iff.mp hT]
    rfl
  · obtain ⟨later, rfl⟩ := map_fst_eq_singleton.mp hT
    rfl

/-- A sample is one sample. -/
theorem samples_resources (h : Within Ticks now (resources lib site timeout) T r) : samples T = 1 := by
  have hread : ∀ {T : Timed} {x : Result Text}, Within Ticks now (readText (join site.root memoryTool)) T x → samples T = 1 := by
    intro T x h
    obtain ⟨later, rfl⟩ := map_fst_eq_singleton.mp (Proc.runs_ask.mp h.runs)
    rfl
  unfold resources at h
  rcases within_bind.mp h with ⟨e, h, -⟩ | ⟨T₁, T₂, tool, rfl, h1, h2⟩
  · exact hread h
  · rw [samples_append, hread h1]
    rcases within_bind.mp h2 with ⟨e, h2, -⟩ | ⟨T₃, T₄, out, rfl, h3, h4⟩
    · rw [samples_of_checked (steps_checked h2.runs.steps) rfl]
    · obtain ⟨rfl, -⟩ := within_ofResult.mp h4
      rw [List.append_nil, samples_of_checked (steps_checked h3.runs.steps) rfl]

end

/-! ### One round -/

section
variable (lib : Python) (site : Site) (g : Gate)

/-- A round of the loop: what it returns, or how many samples in a row were enough. -/
def waitRound (start finish : ℚ) (consecutive : Nat) : Py (Json ⊕ Nat) := do
  if (← clock) < finish then
    let p ← resources lib site (min 10 (finish - (← clock)))
    let budget ← ofResult (phaseRequirements g.profile p g.imageKib g.archiveBytes g.staged)
    let consecutive := if ← ofResult (isEnough p budget) then consecutive + 1 else 0
    emit "RESOURCE_SAMPLE" (some (.obj ([("phase".toList, .lit g.phase), ("elapsed_seconds".toList, .float (.fin (roundMilli ((← clock) - start)))),
      ("mem_kib".toList, ← ofResult (p.item "mem_kib")), ("tmp_kib".toList, ← ofResult (p.item "tmp_kib")),
      ("image_upload_kib".toList, .int g.imageKib)] ++ budget.fields ++ [("consecutive".toList, .int consecutive)])))
    if finish ≤ (← clock) then raiseStop "PRECHECK_FAILED: resource stability timeout (120 seconds; phase-aware budgets)"
    else if 2 ≤ consecutive then
      emit "RESOURCE_PASS" (some (.obj (("phase".toList, .lit g.phase) :: budget.fields)))
      pure (.inl p)
    else
      sleep (min 5 (finish - (← clock)))
      pure (.inr consecutive)
  else raiseStop "PRECHECK_FAILED: resource stability timeout (120 seconds; phase-aware budgets)"

/-- What follows a round. -/
def waitNext (start finish : ℚ) (rounds : Nat) : Json ⊕ Nat → Py Json
  | .inl p => pure p
  | .inr consecutive => waitResourcesFrom lib site g start finish rounds consecutive

theorem waitResourcesFrom_succ (start finish : ℚ) (rounds consecutive : Nat) :
    waitResourcesFrom lib site g start finish (rounds + 1) consecutive =
      waitRound lib site g start finish consecutive >>= waitNext lib site g start finish rounds := by
  rw [waitResourcesFrom, waitRound, Raising.assoc]
  refine bind_congr fun c => ?_
  split
  · simp only [Raising.assoc]
    refine bind_congr fun c' => bind_congr fun p => bind_congr fun budget => bind_congr fun enough => bind_congr fun c'' =>
      bind_congr fun mem => bind_congr fun tmp => bind_congr fun _ => bind_congr fun late => ?_
    generalize (if enough = true then consecutive + 1 else 0) = k
    split
    · rfl
    · split
      · rw [Raising.assoc]
        rfl
      · simp only [Raising.assoc]
        rfl
  · rfl

end

/-- What one sample reads. -/
def Sample (lib : Python) (site : Site) (S : Timed) (p : Json) : Prop := ∃ timeout, Runs (resources lib site timeout).run (S.map Prod.fst) (.ok p)

/-- The sample has what the phase requires. -/
def Enough (g : Gate) (p : Json) : Prop :=
  ∃ budget mem tmp, phaseRequirements g.profile p g.imageKib g.archiveBytes g.staged = .ok budget ∧
    p.item "mem_kib" = .ok (.int mem) ∧ p.item "tmp_kib" = .ok (.int tmp) ∧ budget.physicalRequiredKib ≤ mem ∧ budget.tmpRequiredKib ≤ tmp

section
variable {lib : Python} {site : Site} {g : Gate} {start finish now : ℚ} {consecutive : Nat} {T : Timed} {p : Json} {budget : Budget}

theorem int?_any {v : Json} {n : Int} (h : v.int?.any (n ≤ ·) = true) : ∃ m, v = .int m ∧ n ≤ m := by
  cases v with
  | int m => exact ⟨m, rfl, by simpa [Json.int?] using h⟩
  | _ => simp [Json.int?] at h

theorem enough_of_isEnough (hb : phaseRequirements g.profile p g.imageKib g.archiveBytes g.staged = .ok budget)
    (h : isEnough p budget = .ok true) : Enough g p := by
  unfold isEnough at h
  obtain ⟨v, hv, h⟩ := bind_eq_ok.mp h
  split at h
  · rename_i hmem
    obtain ⟨w, hw, h⟩ := bind_eq_ok.mp h
    obtain ⟨mem, rfl, hphysical⟩ := int?_any hmem
    obtain ⟨tmp, rfl, htmp⟩ := int?_any (Except.ok.inj h)
    exact ⟨budget, mem, tmp, hb, hv, hw, hphysical, htmp⟩
  · cases h

/-- A round that goes on after its sample has read the clock before the deadline. -/
theorem round_returns {y : Json ⊕ Nat} (h : Within Ticks now (waitRound lib site g start finish consecutive) T (.ok y)) :
    ∃ B S V T' p k c detail, T = B ++ S ++ V ++ (⟨.clock, c⟩, c) :: T' ∧ samples B = 0 ∧ samples V = 0 ∧ Sample lib site S p ∧
      (k ≠ 0 → k = consecutive + 1 ∧ Enough g p) ∧ c < finish ∧ last now (B ++ S) ≤ c ∧
      Within Ticks c (if 2 ≤ k then do
          emit "RESOURCE_PASS" detail
          pure (.inl p)
        else do
          sleep (min 5 (finish - (← clock)))
          pure (.inr k)) T' (.ok y) := by
  obtain ⟨c₀, _, rfl, -, h⟩ := clock_bind h
  split at h
  · obtain ⟨c₁, _, rfl, -, h⟩ := clock_bind h
    obtain ⟨S, _, p, rfl, hS, h⟩ := within_returns.mp h
    obtain ⟨budget, hb, h⟩ := ofResult_bind h
    obtain ⟨enough, he, h⟩ := ofResult_bind h
    obtain ⟨c₂, _, rfl, hc₂, h⟩ := clock_bind h
    obtain ⟨mem, -, h⟩ := ofResult_bind h
    obtain ⟨tmp, -, h⟩ := ofResult_bind h
    obtain ⟨_, _, _, rfl, hemit, h⟩ := within_returns.mp h
    have hle := le_last hemit.follows
    obtain ⟨e, rfl⟩ := within_emit hemit
    obtain ⟨c, T', rfl, hc, h⟩ := clock_bind h
    have henough : (if enough = true then consecutive + 1 else 0) ≠ 0 →
        (if enough = true then consecutive + 1 else 0) = consecutive + 1 ∧ Enough g p := by
      cases enough with
      | false => exact fun hk => absurd rfl hk
      | true => exact fun _ => ⟨rfl, enough_of_isEnough hb he⟩
    generalize (if enough = true then consecutive + 1 else 0) = k at h henough
    split at h
    · obtain ⟨-, h⟩ := within_ofResult.mp h
      cases h
    · rename_i hfinish
      exact ⟨[(⟨.clock, c₀⟩, c₀), (⟨.clock, c₁⟩, c₁)], S, [(⟨.clock, c₂⟩, c₂), (_, e)], T', p, k, c, _, by simp; rfl, rfl, rfl, ⟨_, hS.runs⟩, henough,
        not_le.mp hfinish, hc₂.trans (hle.trans hc), h⟩
  · obtain ⟨-, h⟩ := within_ofResult.mp h
    cases h

/-- A round that returns, with the sample that is accepted. -/
def Final (lib : Python) (site : Site) (g : Gate) (finish now : ℚ) (T : Timed) (p : Json) : Prop :=
  ∃ B S V c detail e, T = B ++ S ++ V ++ [(⟨.clock, c⟩, c), (⟨.emit "RESOURCE_PASS".toList detail, .ok ()⟩, e)] ∧ samples B = 0 ∧ samples V = 0 ∧
    Sample lib site S p ∧ Enough g p ∧ last now (B ++ S) ≤ c ∧ c < finish

theorem round_pass (h : Within Ticks now (waitRound lib site g start finish consecutive) T (.ok (.inl p))) :
    1 ≤ consecutive ∧ Final lib site g finish now T p := by
  obtain ⟨B, S, V, T', q, k, c, detail, rfl, hB, hV, hS, hk, hc, hle, h⟩ := round_returns h
  split at h
  · rename_i h2
    obtain ⟨_, _, _, rfl, hemit, h⟩ := within_returns.mp h
    obtain ⟨e, rfl⟩ := within_emit hemit
    obtain ⟨rfl, hp⟩ := within_pure.mp h
    obtain rfl := Sum.inl.inj (Except.ok.inj hp)
    obtain ⟨rfl, hen⟩ := hk (by omega)
    exact ⟨by omega, B, S, V, c, _, e, by simp; rfl, hB, hV, hS, hen, hle, hc⟩
  · obtain ⟨_, _, -, -, h⟩ := clock_bind h
    obtain ⟨_, _, _, -, -, h⟩ := within_returns.mp h
    obtain ⟨-, h⟩ := within_pure.mp h
    cases h

/-- A round that goes on ends at the deadline, or five seconds after its sample. -/
theorem round_next {k : Nat} (h : Within Ticks now (waitRound lib site g start finish consecutive) T (.ok (.inr k))) :
    ∃ B S V p, T = B ++ S ++ V ∧ samples B = 0 ∧ samples V = 0 ∧ Sample lib site S p ∧ k ≤ 1 ∧ (k = 1 → Enough g p) ∧
      (last now (B ++ S) + 5 ≤ last now T ∨ finish ≤ last now T) := by
  obtain ⟨B, S, V, T', p, k', c, detail, rfl, hB, hV, hS, hk, hc, hle, h⟩ := round_returns h
  split at h
  · obtain ⟨_, _, _, -, -, h⟩ := within_returns.mp h
    obtain ⟨-, h⟩ := within_pure.mp h
    cases h
  · obtain ⟨c', _, rfl, hc', h⟩ := clock_bind h
    obtain ⟨_, _, _, rfl, hsleep, h⟩ := within_returns.mp h
    obtain ⟨later, rfl, -, hlater⟩ := within_sleep hsleep
    obtain ⟨rfl, hy⟩ := within_pure.mp h
    obtain rfl := Sum.inr.inj (Except.ok.inj hy)
    refine ⟨B, S, V ++ [(⟨.clock, c⟩, c), (⟨.clock, c'⟩, c'), (_, later)], p, by simp; rfl, hB, ?_, hS, by omega, fun h1 => (hk (by omega)).2, ?_⟩
    · rw [samples_append, hV]
      rfl
    · simp only [last_append, last_cons, last_nil] at hle ⊢
      rcases min_choice 5 (finish - c') with hm | hm
      · rw [hm] at hlater
        exact .inl (by linarith)
      · rw [hm] at hlater
        exact .inr (by linarith)

end

/-! ### Number of samples -/

/-- The program takes at most `n` samples. -/
def AtMost {α : Type} (n : Nat) (x : Py α) : Prop := ∀ (now : ℚ) (T : Timed) (r : Result α), Within Ticks now x T r → samples T ≤ n

section
variable {α β : Type} {m n : Nat} {x : Py α} {f : α → Py β}

theorem AtMost.bind (hx : AtMost m x) (hf : ∀ a, AtMost n (f a)) : AtMost (m + n) (x >>= f) := by
  intro now T r h
  rcases within_bind.mp h with ⟨e, h, -⟩ | ⟨T₁, T₂, a, rfl, h1, h2⟩
  · exact (hx _ _ _ h).trans (Nat.le_add_right m n)
  · rw [samples_append]
    exact Nat.add_le_add (hx _ _ _ h1) (hf _ _ _ _ h2)

theorem AtMost.skip (hx : AtMost 0 x) (hf : ∀ a, AtMost n (f a)) : AtMost n (x >>= f) := by
  have h := hx.bind hf
  rwa [Nat.zero_add] at h

theorem atMost_ofResult (y : Result α) : AtMost 0 (ofResult y) := by
  intro now T r h
  obtain ⟨rfl, -⟩ := within_ofResult.mp h
  exact le_refl 0

theorem atMost_clock : AtMost 0 clock := by
  intro now T r h
  obtain ⟨c, later, rfl, -⟩ := within_ask.mp h
  exact le_refl 0

theorem atMost_emit (event : String) (detail : Option Json) : AtMost 0 (emit event detail) := by
  intro now T r h
  obtain ⟨later, rfl⟩ := within_emit h
  exact le_refl 0

theorem atMost_sleep (d : ℚ) : AtMost 0 (sleep d) := by
  intro now T r h
  obtain ⟨later, rfl⟩ := map_fst_eq_singleton.mp (Proc.runs_ask.mp h.runs)
  exact le_refl 0

end

theorem atMost_round (lib : Python) (site : Site) (g : Gate) (start finish : ℚ) (consecutive : Nat) :
    AtMost 1 (waitRound lib site g start finish consecutive) := by
  refine atMost_clock.skip fun c => ?_
  split
  · refine atMost_clock.skip fun c => AtMost.bind (m := 1) (n := 0) (fun _ _ _ h => (samples_resources h).le) fun p => ?_
    refine (atMost_ofResult _).skip fun budget => (atMost_ofResult _).skip fun enough => atMost_clock.skip fun c => (atMost_ofResult _).skip fun mem =>
      (atMost_ofResult _).skip fun tmp => (atMost_emit _ _).skip fun _ => atMost_clock.skip fun c => ?_
    generalize (if enough = true then consecutive + 1 else 0) = k
    split
    · exact atMost_ofResult _
    · split
      · exact (atMost_emit _ _).skip fun _ => atMost_ofResult _
      · exact atMost_clock.skip fun c => (atMost_sleep _).skip fun _ => atMost_ofResult _
  · exact fun now T r h => (atMost_ofResult _ now T r h).trans (Nat.zero_le 1)

/-- At the deadline no sample is taken any more. -/
theorem round_late {lib : Python} {site : Site} {g : Gate} {start finish now : ℚ} {consecutive : Nat} {T : Timed} {r : Result (Json ⊕ Nat)} (hnow : finish ≤ now)
    (h : Within Ticks now (waitRound lib site g start finish consecutive) T r) : samples T = 0 ∧ ∃ e, r = .error e := by
  rcases within_bind.mp h with ⟨e, h1, rfl⟩ | ⟨T₁, T₂, c, rfl, h1, h2⟩
  · exact ⟨Nat.le_zero.mp (atMost_clock _ _ _ h1), e, rfl⟩
  · have hc : ¬c < finish := by
      obtain ⟨c', later, rfl, hc, hle, rfl⟩ := within_ask.mp h1
      obtain rfl := Except.ok.inj hc
      exact not_lt.mpr (hnow.trans hle)
    rw [if_neg hc] at h2
    obtain ⟨rfl, rfl⟩ := within_ofResult.mp h2
    rw [List.append_nil]
    exact ⟨Nat.le_zero.mp (atMost_clock _ _ _ h1), _, rfl⟩

/-! ### All rounds -/

/-- Two samples in a row, at least five seconds apart, that are both enough; the second one is the last, and
    is accepted before the deadline. -/
def Accepted (lib : Python) (site : Site) (g : Gate) (finish now : ℚ) (T : Timed) (p : Json) : Prop :=
  ∃ B S₀ M S V p₀ c detail e, T = B ++ S₀ ++ M ++ S ++ V ++ [(⟨.clock, c⟩, c), (⟨.emit "RESOURCE_PASS".toList detail, .ok ()⟩, e)] ∧
    Sample lib site S₀ p₀ ∧ Enough g p₀ ∧ samples M = 0 ∧ Sample lib site S p ∧ Enough g p ∧ samples V = 0 ∧
    last now (B ++ S₀) + 5 ≤ last now (B ++ S₀ ++ M) ∧ last now (B ++ S₀ ++ M ++ S) ≤ c ∧ c < finish

section
variable {lib : Python} {site : Site} {g : Gate} {start finish now : ℚ} {T T' : Timed} {p : Json}

theorem Accepted.append_left (h : Accepted lib site g finish (last now T) T' p) : Accepted lib site g finish now (T ++ T') p := by
  obtain ⟨B, S₀, M, S, V, p₀, c, detail, e, rfl, hS₀, h₀, hM, hS, hp, hV, h5, hle, hc⟩ := h
  exact ⟨T ++ B, S₀, M, S, V, p₀, c, detail, e, by simp, hS₀, h₀, hM, hS, hp, hV, by simpa using h5, by simpa using hle, hc⟩

/-- The loop from a state in which `finish` is at most `5 * n` seconds away. -/
theorem loop_spec (n : Nat) : ∀ {rounds k : Nat} {now : ℚ} {T : Timed} {r : Result Json}, n + 1 ≤ rounds → k ≤ 1 → finish ≤ now + 5 * n →
    Within Ticks now (waitResourcesFrom lib site g start finish rounds k) T r →
      samples T ≤ n ∧ (∀ m, n + 1 ≤ m → Within Ticks now (waitResourcesFrom lib site g start finish m k) T r) ∧
        ∀ p, r = .ok p → (k = 1 ∧ Final lib site g finish now T p) ∨ Accepted lib site g finish now T p := by
  induction n with
  | zero =>
    intro rounds k now T r hrounds hk hnow h
    obtain ⟨rounds, rfl⟩ := Nat.exists_eq_add_of_le' hrounds
    have hlate : finish ≤ now := by simpa using hnow
    rw [waitResourcesFrom_succ] at h
    rcases within_bind.mp h with ⟨e, h1, rfl⟩ | ⟨T₁, T₂, y, rfl, h1, h2⟩
    · refine ⟨(round_late hlate h1).1.le, fun m hm => ?_, fun p hp => (nomatch hp)⟩
      obtain ⟨m, rfl⟩ := Nat.exists_eq_add_of_le' hm
      rw [waitResourcesFrom_succ]
      exact within_bind.mpr (.inl ⟨e, h1, rfl⟩)
    · obtain ⟨-, e, he⟩ := round_late hlate h1
      cases he
  | succ n ih =>
    intro rounds k now T r hrounds hk hnow h
    obtain ⟨rounds, rfl⟩ := Nat.exists_eq_add_of_le' (Nat.le_of_add_left_le hrounds)
    rw [waitResourcesFrom_succ] at h
    rcases within_bind.mp h with ⟨e, h1, rfl⟩ | ⟨T₁, T₂, p | k', rfl, h1, h2⟩
    · refine ⟨(atMost_round _ _ _ _ _ _ _ _ _ h1).trans (Nat.le_add_left 1 n), fun m hm => ?_, fun p hp => (nomatch hp)⟩
      obtain ⟨m, rfl⟩ := Nat.exists_eq_add_of_le' (Nat.le_of_add_left_le hm)
      rw [waitResourcesFrom_succ]
      exact within_bind.mpr (.inl ⟨e, h1, rfl⟩)
    · obtain ⟨rfl, rfl⟩ := within_pure.mp h2
      rw [List.append_nil] at h ⊢
      refine ⟨(atMost_round _ _ _ _ _ _ _ _ _ h1).trans (Nat.le_add_left 1 n), fun m hm => ?_, fun q hq => ?_⟩
      · obtain ⟨m, rfl⟩ := Nat.exists_eq_add_of_le' (Nat.le_of_add_left_le hm)
        rw [waitResourcesFrom_succ]
        exact within_bind.mpr (.inr ⟨T₁, [], .inl p, (List.append_nil _).symm, h1, h2⟩)
      · obtain rfl := Except.ok.inj hq
        obtain ⟨hk1, hfinal⟩ := round_pass h1
        exact .inl ⟨by omega, hfinal⟩
    · obtain ⟨B, S, V, p₀, rfl, hB, hV, hS, hk', hen, htime⟩ := round_next h1
      have hstart : now ≤ last now (B ++ S) := by
        have hf := h1.follows
        rw [follows_append] at hf
        exact le_last hf.1
      have hnext : finish ≤ last now (B ++ S ++ V) + 5 * n := by
        have hn : (0 : ℚ) ≤ n := Nat.cast_nonneg n
        push_cast at hnow
        rcases htime with h5 | hlate
        · linarith
        · linarith
      obtain ⟨hsamples, hmore, hacc⟩ := ih (by omega) hk' hnext h2
      refine ⟨?_, fun m hm => ?_, fun p hp => .inr ?_⟩
      · have := atMost_round _ _ _ _ _ _ _ _ _ h1
        rw [samples_append]
        omega
      · obtain ⟨m, rfl⟩ := Nat.exists_eq_add_of_le' (Nat.le_of_add_left_le hm)
        rw [waitResourcesFrom_succ]
        exact within_bind.mpr (.inr ⟨_, T₂, .inr k', rfl, h1, hmore m (by omega)⟩)
      · rcases hacc p hp with ⟨hk1, B', S', V', c, detail, e, rfl, hB', hV', hS', hp', hle, hc⟩ | h
        · -- The deadline was not there when the second sample was taken, so the sleep before it was five seconds long.
          have hf := h2.follows
          simp only [follows_append] at hf
          have hB'le := le_last hf.1.1.1
          have hS'le := le_last hf.1.1.2
          refine ⟨B, S, V ++ B', S', V', p₀, c, detail, e, by simp, hS, hen hk1, by rw [samples_append, hV, hB'], hS', hp', hV', ?_, by simpa using hle, hc⟩
          rcases htime with h5 | hlate
          · simp only [last_append] at h5 hB'le ⊢
            linarith
          · simp only [last_append] at hlate hB'le hS'le hle
            linarith
        · exact h.append_left

/-- Whatever is sampled, and however long the calls take, the wait ends after 24 samples at the latest, in
    the same way in however many rounds; what it returns was accepted. -/
theorem waitResources_accepts {rounds : Nat} {r : Result Json} (hrounds : 25 ≤ rounds) (h : Within Ticks now (waitResources lib site rounds g) T r) :
    samples T ≤ 24 ∧ (∀ n, 25 ≤ n → Within Ticks now (waitResources lib site n g) T r) ∧
      ∀ p, r = .ok p → ∃ start T', T = (⟨.clock, start⟩, start) :: T' ∧ Accepted lib site g (start + 120) start T' p := by
  rcases within_bind.mp h with ⟨e, h1, rfl⟩ | ⟨T₁, T₂, start, rfl, h1, h2⟩
  · obtain ⟨c, later, -, he, -⟩ := within_ask.mp h1
    cases he
  · obtain ⟨c, later, rfl, hc, hle, rfl⟩ := within_ask.mp h1
    obtain rfl := Except.ok.inj hc
    obtain ⟨hsamples, hmore, hacc⟩ := loop_spec 24 hrounds (Nat.zero_le 1) (by norm_num) h2
    refine ⟨hsamples, fun n hn => within_bind.mpr (.inr ⟨_, T₂, start, rfl, h1, hmore n hn⟩), fun p hp => ?_⟩
    rcases hacc p hp with ⟨h0, -⟩ | hacc
    · cases h0
    · exact ⟨start, T₂, rfl, hacc⟩

end

/-- A router with enough memory all the time, in which only sleeping takes time. -/
def steady (now : ℚ) : (q : Look) → LookAnswer q × ℚ
  | .clock => (now, now)
  | .sleep d => (.ok (), now + max d 0)
  | .readText _ => (.ok [], now)
  | .run _ _ => (.ok ⟨0, [], []⟩, now)
  | .emit _ _ => (.ok (), now)
  | .copy _ _ | .create _ | .write _ _ | .syncDir _ | .readJson _ | .manifest _ | .sha _ | .size _ | .exists _ | .isFile _ | .isSymlink _ | .resolve _
  | .diskFree _ | .spawn _ | .makeDir _ _ | .chmod _ | .lock _ | .readTar _ | .writeTar _ _ | .gunzip _ => (.error .osError, now)
  | .which _ => (false, now)
  | .now => ([], now)

def steadySample : Json :=
  .obj [("mem_kib".toList, .int 34000), ("tmp_kib".toList, .int 34000), ("anon_kib".toList, .int 7000), ("observer_anon_kib".toList, .int 0),
    ("locked_kib".toList, .int 0), ("swap_kib".toList, .int 0)]

def steadyLib : Python := ⟨id, fun _ => .ok .null, fun _ => .ok steadySample⟩

def steadyGate : Gate :=
  ⟨18000, .obj [("handoff".toList, .arr [.int 0, .int 848, .int 0]), ("stage2".toList, .arr [.int 0, .int 4196, .int 0])], "fixture", 0, false⟩

theorem steady_ticks (now : ℚ) (q : Look) : Ticks now ⟨q, (steady now q).1⟩ (steady now q).2 := by
  cases q with
  | clock => exact ⟨le_refl now, rfl⟩
  | sleep d => exact ⟨le_add_of_nonneg_right (le_max_right d 0), add_le_add_right (le_max_left d 0) now⟩
  | _ => exact ⟨le_refl now, trivial⟩

theorem waitResources_accepts_steady : ∃ T p, Within Ticks 0 (waitResources steadyLib ⟨[], [], []⟩ 25 steadyGate) T (.ok p) ∧
    ∃ start T', T = (⟨.clock, start⟩, start) :: T' ∧ Accepted steadyLib ⟨[], [], []⟩ steadyGate (start + 120) start T' p := by
  have hw := within_play steady_ticks 0 (waitResources steadyLib ⟨[], [], []⟩ 25 steadyGate)
  have hok : (play steady 0 (waitResources steadyLib ⟨[], [], []⟩ 25 steadyGate).run).2.isOk = true := by decide +kernel
  rcases hr : (play steady 0 (waitResources steadyLib ⟨[], [], []⟩ 25 steadyGate).run).2 with e | p
  · rw [hr] at hok
    cases hok
  · rw [hr] at hw
    exact ⟨_, p, hw, (waitResources_accepts (le_refl 25) hw).2.2 p rfl⟩

end RainWrt.HwTest
