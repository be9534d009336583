import RainWrt.Kconfig

/-! What the intersection of two configurations keeps, and what their sum does not weaken. -/

namespace RainWrt.Kconfig

/-! ### Loaded configurations -/

section
variable {pre : List Char} {file : List (List Char)} {modPlus : Bool} {config : Config}

/-- No option has an empty value. -/
def Filled (config : Config) : Prop := ∀ k v, config.get? k = some v → v ≠ ""

theorem valueOf_ne_nil {l val : List Char} (h : valueOf l = some val) : val ≠ [] := by
  unfold valueOf at h
  split at h
  · cases h
    exact List.cons_ne_nil _ _
  · cases h

theorem shortest_some {α : Type} {follow : List Char → Option α} {l s : List Char} {a : α} (h : shortest follow l = some (s, a)) :
    ∃ l', l = s ++ l' ∧ s ≠ [] ∧ follow l' = some a := by
  induction l generalizing s with
  | nil => cases h
  | cons c l ih =>
    unfold shortest at h
    split at h
    · rename_i a' ha
      cases h
      exact ⟨l, rfl, List.cons_ne_nil _ _, ha⟩
    · obtain ⟨⟨s', a'⟩, hs, heq⟩ := Option.map_eq_some_iff.mp h
      cases heq
      obtain ⟨l', rfl, -, ha⟩ := ih hs
      exact ⟨l', rfl, List.cons_ne_nil _ _, ha⟩

theorem ofList_ne_empty {l : List Char} (h : l ≠ []) : String.ofList l ≠ "" := by
  intro heq
  have := congrArg String.toList heq
  rw [String.toList_ofList] at this
  exact h this

/-- A value that is read is not empty. -/
theorem parseLine_ne_empty {line : List Char} {idx val : String} (h : parseLine pre line = some (idx, val)) : val ≠ "" := by
  unfold parseLine at h
  split at h
  · rename_i i v hp
    cases h
    obtain ⟨rest, -, hs⟩ := Option.bind_eq_some_iff.mp hp
    obtain ⟨l', -, -, hv⟩ := shortest_some hs
    exact ofList_ne_empty (valueOf_ne_nil hv)
  · split at h
    · cases h
      decide
    · cases h

/-- What holds of the options of a configuration holds of them with one more option of which it does. -/
theorem forall_setConfig {P : String → String → Prop} {idx val : String} (h : ∀ k v, config.get? k = some v → P k v) (hval : P idx val) :
    ∀ k v, (setConfig config idx val modPlus).get? k = some v → P k v := by
  have hset : ∀ k v, (config.set idx val).get? k = some v → P k v := by
    intro k v hk
    rw [Obj.get?_set] at hk
    split at hk
    · rename_i heq
      cases hk
      rw [heq]
      exact hval
    · exact h k v hk
  unfold setConfig
  split
  · exact hset
  · split
    · exact hset
    · exact h

/-- What holds of the options of each line holds of the options that are loaded. -/
theorem forall_loadConfig {P : String → String → Prop} (h : ∀ line ∈ file, ∀ idx val, parseLine pre line = some (idx, val) → P idx val) :
    ∀ k v, (loadConfig pre file modPlus).get? k = some v → P k v := by
  unfold loadConfig
  refine List.foldlRecOn (motive := fun config : Config => ∀ k v, config.get? k = some v → P k v) file _ (fun k v hk => nomatch hk) ?_
  intro config hconfig line hline
  split
  · rename_i hp
    exact forall_setConfig hconfig (h line hline _ _ hp)
  · exact hconfig

theorem filled_loadConfig (pre : List Char) (file : List (List Char)) (modPlus : Bool) : Filled (loadConfig pre file modPlus) :=
  forall_loadConfig fun _ _ _ _ hp => parseLine_ne_empty hp

end

/-! ### Intersection -/

section
variable {a b c : Config} {k v : String}

/-- The same options with the same values, in whatever order. -/
def Same (a b : Config) : Prop := ∀ k, a.get? k = b.get? k

/-- What the intersection says of an option. -/
def common (a b : Config) (k : String) : Option String :=
  match a.get? k, b.get? k with
  | some v, some w => if truthy w && v = w then some v else none
  | _, _ => none

theorem get?_andOption (config : Config) (k k' : String) : (andOption a b config k).get? k' =
    if k' = k then (common a b k).or (config.get? k') else config.get? k' := by
  unfold andOption common
  cases a.get? k with
  | none => simp
  | some v =>
    cases b.get? k with
    | none => simp
    | some w =>
      dsimp only
      by_cases hc : (truthy w && v = w) = true
      · rw [if_pos hc, if_pos hc, Obj.get?_set]
        rfl
      · rw [if_neg hc, if_neg hc]
        simp

theorem get?_foldl_andOption (keys : List String) (config : Config) (k : String) : (keys.foldl (andOption a b) config).get? k =
    if k ∈ keys then (common a b k).or (config.get? k) else config.get? k := by
  induction keys generalizing config with
  | nil => simp
  | cons k₀ keys ih =>
    rw [List.foldl_cons, ih, get?_andOption]
    by_cases h0 : k = k₀
    · subst h0
      cases common a b k <;> simp
    · simp [h0]

theorem get?_configAnd (a b : Config) (k : String) : (configAnd a b).get? k = common a b k := by
  unfold configAnd
  rw [get?_foldl_andOption]
  split
  · simp
  · rename_i hk
    have hnone : a.get? k = none := by
      rw [Obj.mem_keys] at hk
      simpa using hk
    unfold common
    rw [hnone]
    rfl

theorem common_eq_some : common a b k = some v ↔ truthy v = true ∧ a.get? k = some v ∧ b.get? k = some v := by
  unfold common
  cases a.get? k with
  | none => simp
  | some x =>
    cases b.get? k with
    | none => simp
    | some y =>
      dsimp only
      by_cases hc : (truthy y && x = y) = true
      · rw [if_pos hc]
        simp only [Bool.and_eq_true, decide_eq_true_eq] at hc
        obtain ⟨ht, rfl⟩ := hc
        simp only [Option.some.injEq, and_self]
        constructor
        · rintro rfl
          exact ⟨ht, rfl⟩
        · rintro ⟨-, rfl⟩
          rfl
      · rw [if_neg hc]
        simp only [reduceCtorEq, Option.some.injEq, false_iff, not_and]
        rintro ht rfl rfl
        exact hc (by simp [ht])

/-- The options that stay: those with an equal value that Perl takes for true. -/
theorem configAnd_eq_some : (configAnd a b).get? k = some v ↔ truthy v = true ∧ a.get? k = some v ∧ b.get? k = some v := by
  rw [get?_configAnd, common_eq_some]

theorem same_iff : Same a b ↔ ∀ k v, a.get? k = some v ↔ b.get? k = some v := by
  constructor
  · intro h k v
    rw [h k]
  · exact fun h k => Option.ext (h k)

theorem configAnd_comm (a b : Config) : Same (configAnd a b) (configAnd b a) := by
  refine same_iff.mpr fun k v => ?_
  rw [configAnd_eq_some, configAnd_eq_some, and_comm (a := a.get? k = some v)]

theorem configAnd_assoc (a b c : Config) : Same (configAnd (configAnd a b) c) (configAnd a (configAnd b c)) := by
  refine same_iff.mpr fun k v => ?_
  simp only [configAnd_eq_some]
  tauto

/-- The intersection holds exactly what both have. -/
def Exact (a b : Config) : Prop := ∀ k v, (configAnd a b).get? k = some v ↔ a.get? k = some v ∧ b.get? k = some v

theorem truthy_of_filled (h : Filled a) (hk : a.get? k = some v) : truthy v = true ↔ v ≠ "0" := by
  have := h k v hk
  unfold truthy
  simp [this]

theorem exact_iff (ha : Filled a) : Exact a b ↔ ∀ k, ¬(a.get? k = some "0" ∧ b.get? k = some "0") := by
  constructor
  · intro h k hk
    have := (configAnd_eq_some.mp ((h k "0").mpr hk)).1
    exact absurd this (by decide)
  · intro h k v
    rw [configAnd_eq_some]
    constructor
    · exact fun h => h.2
    · rintro ⟨h1, h2⟩
      refine ⟨(truthy_of_filled ha h1).mpr ?_, h1, h2⟩
      rintro rfl
      exact h k ⟨h1, h2⟩

theorem idempotent_iff (ha : Filled a) : Same (configAnd a a) a ↔ ∀ k, a.get? k ≠ some "0" := by
  have hex : Same (configAnd a a) a ↔ Exact a a := by
    rw [same_iff]
    refine forall_congr' fun k => forall_congr' fun v => ?_
    rw [and_self]
  rw [hex, exact_iff ha]
  simp

/-- What an intersection has to be. -/
structure Intersects (a b : Config) : Prop where
  exact : Exact a b
  comm : Same (configAnd a b) (configAnd b a)
  assoc : ∀ c, Same (configAnd (configAnd a b) c) (configAnd a (configAnd b c))
  idempotent : Same (configAnd a a) a ∧ Same (configAnd b b) b

end

/-- Two files are intersected as they should be exactly if no option of theirs has the value 0. -/
theorem configAnd_iff (pre : List Char) (file₁ file₂ : List (List Char)) (mod₁ mod₂ : Bool) :
    Intersects (loadConfig pre file₁ mod₁) (loadConfig pre file₂ mod₂) ↔
      ∀ k, (loadConfig pre file₁ mod₁).get? k ≠ some "0" ∧ (loadConfig pre file₂ mod₂).get? k ≠ some "0" := by
  have h₁ := filled_loadConfig pre file₁ mod₁
  have h₂ := filled_loadConfig pre file₂ mod₂
  constructor
  · intro h k
    exact ⟨(idempotent_iff h₁).mp h.idempotent.1 k, (idempotent_iff h₂).mp h.idempotent.2 k⟩
  · intro h
    refine ⟨(exact_iff h₁).mpr fun k hk => (h k).1 hk.1, configAnd_comm _ _, fun c => configAnd_assoc _ _ _, ?_, ?_⟩
    · exact (idempotent_iff h₁).mpr fun k => (h k).1
    · exact (idempotent_iff h₂).mpr fun k => (h k).2

/-- An option with the value 0 is lost, although both files have it. -/
theorem configAnd_loses : ∃ (pre : List Char) (file : List (List Char)), (loadConfig pre file false).get? "LOG_BUF" = some "0" ∧
    ¬Intersects (loadConfig pre file false) (loadConfig pre file false) := by
  have h0 : (loadConfig "CONFIG_".toList ["CONFIG_LOG_BUF=0".toList] false).get? "LOG_BUF" = some "0" := by decide
  refine ⟨_, _, h0, fun h => ?_⟩
  have hget := (h.exact "LOG_BUF" "0").mpr ⟨h0, h0⟩
  have htrue := (configAnd_eq_some.mp hget).1
  exact absurd htrue (by decide)

/-! ### Sum -/

section
variable {a b c : Config} {k v : String}

/-- What is written for an option that has the value `old` already, when its value in the other file is `new`. -/
def merged (modPlus : Bool) (old new : Option String) : Option String :=
  match new with
  | some v => if modPlus && old.any truthy && (old = some "y" || v = "#undef") then old else some v
  | none => old

theorem get?_addOption (modPlus : Bool) (config : Config) (k k' : String) : (addOption a modPlus config k).get? k' =
    if k' = k then merged modPlus (config.get? k) (a.get? k) else config.get? k' := by
  unfold addOption merged
  cases a.get? k with
  | none =>
    dsimp only
    split
    · rename_i h
      rw [h]
    · rfl
  | some v =>
    dsimp only
    split
    · split
      · rename_i h
        rw [h]
      · rfl
    · rw [Obj.get?_set]

/-- A value that is written twice stays. -/
theorem merged_merged (modPlus : Bool) (old new : Option String) : merged modPlus (merged modPlus old new) new = merged modPlus old new := by
  unfold merged
  cases new with
  | none => rfl
  | some v =>
    dsimp only
    split
    · rfl
    · exact ite_self _

theorem get?_foldl_addOption (modPlus : Bool) (keys : List String) (config : Config) (k : String) :
    (keys.foldl (addOption a modPlus) config).get? k =
      if k ∈ keys then merged modPlus (config.get? k) (a.get? k) else config.get? k := by
  induction keys generalizing config with
  | nil => simp
  | cons k₀ keys ih =>
    rw [List.foldl_cons, ih, get?_addOption]
    by_cases h0 : k = k₀
    · subst h0
      rw [if_pos rfl, merged_merged, ite_self, if_pos List.mem_cons_self]
    · rw [if_neg h0]
      simp [h0]

/-- The options of one file are added, in whatever order. -/
theorem get?_added (modPlus : Bool) (config : Config) (k : String) :
    (a.keys.foldl (addOption a modPlus) config).get? k = merged modPlus (config.get? k) (a.get? k) := by
  rw [get?_foldl_addOption]
  split
  · rfl
  · rename_i hk
    rw [Obj.mem_keys, Option.not_isSome_iff_eq_none] at hk
    rw [hk]
    rfl

theorem get?_configAdd (a b : Config) (modPlus : Bool) (k : String) :
    (configAdd a b modPlus).get? k = merged modPlus (a.get? k) (b.get? k) := by
  unfold configAdd
  rw [List.foldl_cons, List.foldl_cons, List.foldl_nil, get?_added, get?_added]
  have hfirst : merged modPlus (Obj.get? [] k) (a.get? k) = a.get? k := by
    unfold merged
    cases a.get? k with
    | none => rfl
    | some v => simp
  rw [hfirst]

/-- The order in which the options of a hash come does not matter. -/
theorem configAdd_congr {a' b' : Config} (modPlus : Bool) (ha : Same a a') (hb : Same b b') :
    Same (configAdd a b modPlus) (configAdd a' b' modPlus) := by
  intro k
  rw [get?_configAdd, get?_configAdd, ha k, hb k]

/-- Where an option stands in the order of `#undef`, `m` and `y`. -/
def rank (v : String) : Nat := if v = "y" then 2 else if v = "m" then 1 else 0

/-- The greater of two values, if the option is in both. -/
def join : Option String → Option String → Option String
  | some v, some w => some (if rank v ≤ rank w then w else v)
  | some v, none => some v
  | none, w => w

/-- Only these values occur. -/
def Tristate (a : Config) : Prop := ∀ k v, a.get? k = some v → v ∈ ["#undef", "m", "y"]

/-- The same of one option. -/
def Level (v : Option String) : Prop := ∀ w ∈ v, w ∈ ["#undef", "m", "y"]

theorem Tristate.level (h : Tristate a) (k : String) : Level (a.get? k) := fun v hv => h k v hv

theorem level_cases {v : Option String} (h : Level v) : v = none ∨ v = some "#undef" ∨ v = some "m" ∨ v = some "y" := by
  cases v with
  | none => exact Or.inl rfl
  | some w =>
    have := h w rfl
    simp only [List.mem_cons, List.not_mem_nil, or_false] at this
    simpa using this

theorem merged_eq_join {v w : Option String} (hv : Level v) (hw : Level w) : merged true v w = join v w := by
  rcases level_cases hv with rfl | rfl | rfl | rfl <;> rcases level_cases hw with rfl | rfl | rfl | rfl <;> decide

theorem join_level {v w : Option String} (hv : Level v) (hw : Level w) : Level (join v w) := by
  cases v with
  | none => exact hw
  | some v =>
    cases w with
    | none => exact hv
    | some w =>
      intro u hu
      dsimp only [join] at hu
      split at hu
      · exact hw u hu
      · exact hv u hu

theorem join_comm {v w : Option String} (hv : Level v) (hw : Level w) : join v w = join w v := by
  rcases level_cases hv with rfl | rfl | rfl | rfl <;> rcases level_cases hw with rfl | rfl | rfl | rfl <;> decide

theorem join_assoc {u v w : Option String} (hu : Level u) (hv : Level v) (hw : Level w) : join (join u v) w = join u (join v w) := by
  rcases level_cases hu with rfl | rfl | rfl | rfl <;> rcases level_cases hv with rfl | rfl | rfl | rfl <;>
    rcases level_cases hw with rfl | rfl | rfl | rfl <;> decide

theorem join_self (v : Option String) : join v v = v := by
  cases v with
  | none => rfl
  | some v => simp [join]

theorem get?_configAdd_eq_join (ha : Tristate a) (hb : Tristate b) (k : String) :
    (configAdd a b true).get? k = join (a.get? k) (b.get? k) := by
  rw [get?_configAdd, merged_eq_join (ha.level k) (hb.level k)]

theorem Tristate.configAdd (ha : Tristate a) (hb : Tristate b) : Tristate (configAdd a b true) := by
  intro k v hk
  rw [get?_configAdd_eq_join ha hb] at hk
  exact join_level (ha.level k) (hb.level k) v hk

/-- What the sum of two configurations has to be. -/
structure Merges (a b : Config) : Prop where
  contains : ∀ k, ((configAdd a b true).get? k).isSome ↔ (a.get? k).isSome ∨ (b.get? k).isSome
  yes : ∀ k, a.get? k = some "y" ∨ b.get? k = some "y" → (configAdd a b true).get? k = some "y"
  kept : ∀ k v, v ≠ "#undef" → a.get? k = some v ∨ b.get? k = some v → (configAdd a b true).get? k ≠ some "#undef"
  join : Tristate a → Tristate b → ∀ k, (configAdd a b true).get? k = join (a.get? k) (b.get? k)
  comm : Tristate a → Tristate b → Same (configAdd a b true) (configAdd b a true)
  assoc : Tristate a → Tristate b → ∀ c, Tristate c → Same (configAdd (configAdd a b true) c true) (configAdd a (configAdd b c true) true)
  idempotent : (Tristate a → Same (configAdd a a true) a) ∧ (Tristate b → Same (configAdd b b true) b)

theorem configAdd_comm (ha : Tristate a) (hb : Tristate b) : Same (configAdd a b true) (configAdd b a true) := by
  intro k
  rw [get?_configAdd_eq_join ha hb, get?_configAdd_eq_join hb ha, join_comm (ha.level k) (hb.level k)]

theorem configAdd_assoc (ha : Tristate a) (hb : Tristate b) (hc : Tristate c) :
    Same (configAdd (configAdd a b true) c true) (configAdd a (configAdd b c true) true) := by
  intro k
  rw [get?_configAdd_eq_join (ha.configAdd hb) hc, get?_configAdd_eq_join ha hb, get?_configAdd_eq_join ha (hb.configAdd hc),
    get?_configAdd_eq_join hb hc, join_assoc (ha.level k) (hb.level k) (hc.level k)]

theorem configAdd_self (ha : Tristate a) : Same (configAdd a a true) a := by
  intro k
  rw [get?_configAdd_eq_join ha ha, join_self]

theorem isSome_merged (modPlus : Bool) (v w : Option String) : (merged modPlus v w).isSome ↔ v.isSome ∨ w.isSome := by
  unfold merged
  cases w with
  | none => simp
  | some w =>
    cases v with
    | none => simp
    | some v =>
      dsimp only
      split <;> simp

theorem merged_yes {v w : Option String} (h : v = some "y" ∨ w = some "y") : merged true v w = some "y" := by
  rcases h with rfl | rfl
  · cases w with
    | none => rfl
    | some w => simp [merged, truthy]
  · cases v with
    | none => rfl
    | some v => simp [merged]

/-- An option is unset by the sum exactly if it is unset in both, or if it is unset in the second configuration and has the
    value 0 in the first one. -/
theorem merged_undef {v w : Option String} (hv : v ≠ some "") : merged true v w = some "#undef" ↔
    (v = some "#undef" ∧ (w = none ∨ w = some "#undef")) ∨ (w = some "#undef" ∧ (v = none ∨ v = some "0")) := by
  unfold merged
  cases w with
  | none => simp
  | some w =>
    cases v with
    | none => simp
    | some v =>
      have hv' : v ≠ "" := fun h => hv (h ▸ rfl)
      by_cases hw : w = "#undef"
      · subst hw
        by_cases h0 : v = "0"
        · subst h0
          decide
        · simp [truthy, hv', h0]
      · by_cases hy : v = "y"
        · subst hy
          simp [truthy, hw]
        · simp [hw, hy]

end

/-- Adding a file does not weaken a configuration exactly if it unsets no option that has the value 0. -/
theorem configAdd_iff (pre : List Char) (file₁ file₂ : List (List Char)) (mod₁ : Bool) :
    Merges (loadConfig pre file₁ mod₁) (loadConfig pre file₂ true) ↔
      ∀ k, ¬((loadConfig pre file₁ mod₁).get? k = some "0" ∧ (loadConfig pre file₂ true).get? k = some "#undef") := by
  have hfilled : ∀ k, (loadConfig pre file₁ mod₁).get? k ≠ some "" := fun k hk => filled_loadConfig pre file₁ mod₁ k "" hk rfl
  constructor
  · rintro h k ⟨h0, hundef⟩
    refine h.kept k "0" (by decide) (Or.inl h0) ?_
    rw [get?_configAdd]
    exact (merged_undef (hfilled k)).mpr (Or.inr ⟨hundef, Or.inr h0⟩)
  · intro h
    refine ⟨fun k => ?_, fun k hk => ?_, fun k v hv hk hundef => ?_, get?_configAdd_eq_join, configAdd_comm,
      fun ha hb c hc => configAdd_assoc ha hb hc, configAdd_self, configAdd_self⟩
    · rw [get?_configAdd, isSome_merged]
    · rw [get?_configAdd, merged_yes hk]
    · rw [get?_configAdd] at hundef
      have hne : ∀ o : Option String, o = some v → ¬(o = none ∨ o = some "#undef") := by
        rintro o rfl
        simpa using hv
      rcases (merged_undef (hfilled k)).mp hundef with ⟨h1, h2⟩ | ⟨h1, h2 | h2⟩
      · rcases hk with hk | hk
        · exact hne _ hk (Or.inr h1)
        · exact hne _ hk h2
      · rcases hk with hk | hk
        · exact hne _ hk (Or.inl h2)
        · exact hne _ hk (Or.inr h1)
      · exact h k ⟨h2, h1⟩

/-- An option with the value 0 is unset by a file in which it is not set. -/
theorem configAdd_weakens : ∃ (pre : List Char) (file₁ file₂ : List (List Char)),
    (loadConfig pre file₁ false).get? "LOG_BUF" = some "0" ∧
      ¬Merges (loadConfig pre file₁ false) (loadConfig pre file₂ true) := by
  have h0 : (loadConfig "CONFIG_".toList ["CONFIG_LOG_BUF=0".toList] false).get? "LOG_BUF" = some "0" := by decide +kernel
  have hundef : (loadConfig "CONFIG_".toList ["# CONFIG_LOG_BUF is not set".toList] true).get? "LOG_BUF" = some "#undef" := by decide
  refine ⟨_, _, ["# CONFIG_LOG_BUF is not set".toList], h0, fun h => absurd ?_ (h.kept "LOG_BUF" "0" (by decide) (Or.inl h0))⟩
  rw [get?_configAdd, h0, hundef]
  decide

end RainWrt.Kconfig
