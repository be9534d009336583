import RainWrt.Theorems.Kconfig

/-! The difference of two configurations, added to the first one, and configurations that are printed and read again. -/

namespace RainWrt.Kconfig

/-! ### Differences -/

section
variable {a b : Config} {newOnly : Bool}

/-- What the difference says of an option with these values. -/
def differing (newOnly : Bool) (old new : Option String) : Option String :=
  match new with
  | some v => if old = some v then none else if newOnly && old = none && v = "#undef" then none else some v
  | none => none

theorem get?_diffOption (config : Config) (k k' : String) : (diffOption a b newOnly config k).get? k' =
    if k' = k then (differing newOnly (a.get? k) (b.get? k)).or (config.get? k') else config.get? k' := by
  unfold diffOption differing
  cases b.get? k with
  | none => exact (ite_self _).symm
  | some v =>
    dsimp only
    split
    · exact (ite_self _).symm
    · split
      · exact (ite_self _).symm
      · exact Obj.get?_set

theorem get?_configDiff (k : String) : (configDiff a b newOnly).get? k = differing newOnly (a.get? k) (b.get? k) := by
  have hfold (keys : List String) (config : Config) : (keys.foldl (diffOption a b newOnly) config).get? k =
      if k ∈ keys then (differing newOnly (a.get? k) (b.get? k)).or (config.get? k) else config.get? k := by
    induction keys generalizing config with
    | nil => simp
    | cons k₀ keys ih =>
      rw [List.foldl_cons, ih, get?_diffOption]
      by_cases h0 : k = k₀
      · subst h0
        cases differing newOnly (a.get? k) (b.get? k) with
        | none => simp
        | some v => simp
      · simp [h0]
  rw [configDiff, hfold]
  split
  · exact Option.or_none
  · rename_i hk
    rw [Obj.mem_keys, Option.not_isSome_iff_eq_none] at hk
    rw [hk]
    rfl

theorem merged_false (old new : Option String) : merged false old new = new.or old := by
  cases new with
  | none => rfl
  | some v => simp [merged]

theorem differing_false (old new : Option String) : differing false old new = if old = new then none else new := by
  cases new with
  | none => simp [differing]
  | some v => simp [differing]

/-- A difference is added to what it is from. -/
theorem configAdd_configDiff (a b : Config) : Same (configAdd a (configDiff a b false) false) (configAdd a b false) := by
  intro k
  rw [get?_configAdd, get?_configAdd, get?_configDiff, merged_false, merged_false, differing_false]
  split
  · rename_i h
    rw [h, Option.none_or, Option.or_self]
  · rfl

theorem configDiff_configAdd (a b : Config) : Same (configDiff a (configAdd a b false) false) (configDiff a b false) := by
  intro k
  rw [get?_configDiff, get?_configDiff, get?_configAdd, merged_false, differing_false, differing_false]
  cases hb : b.get? k with
  | none => simp
  | some v => rfl

end

/-! ### Lines that are printed -/

section
variable {pre : List Char}

theorem shortest_eq {α : Type} {follow : List Char → Option α} {s rest : List Char} {x : α} (hs : s ≠ [])
    (hnone : ∀ c ∈ s, ∀ l, follow (c :: l) = none) (hrest : follow rest = some x) : shortest follow (s ++ rest) = some (s, x) := by
  induction s with
  | nil => exact absurd rfl hs
  | cons c s ih =>
    rw [List.cons_append, shortest]
    cases s with
    | nil => rw [List.nil_append, hrest]
    | cons d s =>
      rw [List.cons_append, hnone d (List.mem_cons_of_mem _ List.mem_cons_self) _]
      have hlater := ih (List.cons_ne_nil _ _) fun c hc => hnone c (List.mem_cons_of_mem _ hc)
      rw [List.cons_append] at hlater
      rw [hlater]
      rfl

/-- A line without `=` sets no value. -/
theorem shortest_valueOf {l : List Char} (h : '=' ∉ l) : shortest valueOf l = none := by
  cases hs : shortest valueOf l with
  | none => rfl
  | some r =>
    obtain ⟨l', rfl, -, hv⟩ := shortest_some (s := r.1) (a := r.2) hs
    cases l' with
    | nil => cases hv
    | cons c l' =>
      by_cases hc : c = '='
      · rw [hc] at h
        simp at h
      · unfold valueOf at hv
        split at hv
        · rename_i heq
          exact absurd (List.cons.inj heq).1 hc
        · cases hv

/-- A prefix that is found two characters further on has none but these two. -/
theorem eq_not_mem_of_shift {l : List Char} : ∀ {p : List Char}, p <+: '#' :: ' ' :: (p ++ l) → '=' ∉ p
  | [], _ => List.not_mem_nil
  | [c], h => by
    obtain ⟨rfl, -⟩ := List.cons_prefix_cons.mp h
    decide
  | c :: d :: p, h => by
    obtain ⟨rfl, h⟩ := List.cons_prefix_cons.mp h
    obtain ⟨rfl, h⟩ := List.cons_prefix_cons.mp h
    have hp := eq_not_mem_of_shift h
    simp [hp]

theorem dropPrefix_append (p l : List Char) : (p ++ l).dropPrefix? p = some l := List.dropPrefix?_append_of_beq l (beq_self_eq_true p)

/-- A line for an option without a value is none that sets one. -/
theorem no_value {l : List Char} (hl : '=' ∉ l) : (("# ".toList ++ pre ++ l).dropPrefix? pre).bind (fun rest => shortest valueOf rest) = none := by
  cases hrest : ("# ".toList ++ pre ++ l).dropPrefix? pre with
  | none => rfl
  | some rest =>
    obtain ⟨p, hline, hp⟩ := List.dropPrefix?_eq_some_iff.mp hrest
    rw [eq_of_beq hp] at hline
    have hline' : '#' :: ' ' :: (pre ++ l) = pre ++ rest := (List.append_assoc _ _ _).symm.trans hline
    have hpre : '=' ∉ pre := eq_not_mem_of_shift (l := l) (hline' ▸ List.prefix_append pre rest)
    refine shortest_valueOf fun hmem => ?_
    have hall : '=' ∈ '#' :: ' ' :: (pre ++ l) := hline' ▸ List.mem_append_right pre hmem
    simp [hpre, hl] at hall

variable (pre) in
/-- What is printed for an option is read again. -/
theorem parseLine_cfgline {name val : String} (hname : name ≠ "") (heq : '=' ∉ name.toList) (hblank : ' ' ∉ name.toList) (hval : val ≠ "") :
    parseLine pre (cfgline pre name val) = some (name, if val = "n" then "#undef" else val) := by
  have hne : name.toList ≠ [] := fun h => hname (String.toList_eq_nil_iff.mp h)
  unfold cfgline parseLine
  by_cases hundef : val = "#undef" ∨ val = "n"
  · have hval' : (if val = "n" then "#undef" else val) = "#undef" := by
      rcases hundef with rfl | rfl
      · rfl
      · rfl
    have hnot : '=' ∉ name.toList ++ " is not set".toList := by
      rw [List.mem_append]
      rintro (h | h)
      · exact heq h
      · exact absurd h (by decide)
    have hfound : shortest (fun l => if " is not set".toList.isPrefixOf l then some () else none) (name.toList ++ " is not set".toList) =
        some (name.toList, ()) := by
      refine shortest_eq hne (fun c hc l => if_neg ?_) (if_pos ?_)
      · intro h
        obtain ⟨t, ht⟩ := List.isPrefixOf_iff_prefix.mp h
        have hc' : c = ' ' := (List.cons.inj ht).1.symm
        exact hblank (hc' ▸ hc)
      · exact List.isPrefixOf_iff_prefix.mpr List.prefix_rfl
    rw [if_pos hundef, no_value hnot, dropPrefix_append, hval']
    simp only [Option.bind_some, hfound, String.ofList_toList]
  · have hn : val ≠ "n" := fun h => hundef (Or.inr h)
    have hvalue : shortest valueOf (name.toList ++ '=' :: val.toList) = some (name.toList, val.toList) := by
      refine shortest_eq hne (fun c hc l => ?_) ?_
      · unfold valueOf
        split
        · rename_i h
          exact absurd ((List.cons.inj h).1 ▸ hc) heq
        · rfl
      · cases hv : val.toList with
        | nil => exact absurd (String.toList_eq_nil_iff.mp hv) hval
        | cons c v => rfl
    rw [if_neg hundef, dropPrefix_append, if_neg hn]
    simp only [Option.bind_some, hvalue, String.ofList_toList]

/-! ### Reading what is printed -/

theorem readLines_line {l : List Char} (hl : '\n' ∉ l) (line text : List Char) :
    readLines line (l ++ '\n' :: text) = (line ++ l) :: readLines [] text := by
  induction l generalizing line with
  | nil => rw [List.nil_append, readLines, if_pos rfl, List.append_nil]
  | cons c l ih =>
    rw [List.mem_cons, not_or] at hl
    rw [List.cons_append, readLines, if_neg (Ne.symm hl.1), ih hl.2, List.append_assoc]
    rfl

theorem not_mem_readLines {line : List Char} (hline : '\n' ∉ line) (text : List Char) : ∀ l ∈ readLines line text, '\n' ∉ l := by
  induction text generalizing line with
  | nil =>
    intro l hl
    rw [readLines] at hl
    split at hl
    · cases hl
    · rw [List.mem_singleton.mp hl]
      exact hline
  | cons c text ih =>
    intro l hl
    rw [readLines] at hl
    split at hl
    · rcases List.mem_cons.mp hl with rfl | hl
      · exact hline
      · exact ih List.not_mem_nil l hl
    · rename_i hc
      refine ih ?_ l hl
      simpa [hline] using Ne.symm hc

variable (pre) in
/-- An option as a line gives it, behind the prefix. -/
def Written (k v : String) : Prop := k ≠ "" ∧ v ≠ "" ∧ '\n' ∉ pre ∧ '\n' ∉ k.toList ∧ '\n' ∉ v.toList

theorem written_of_parseLine {line : List Char} (hline : '\n' ∉ line) {k v : String} (h : parseLine pre line = some (k, v)) :
    Written pre k v := by
  have hv := parseLine_ne_empty h
  have hdrop {p rest : List Char} (hp : line.dropPrefix? p = some rest) : '\n' ∉ p ∧ '\n' ∉ rest := by
    obtain ⟨p', rfl, heq⟩ := List.dropPrefix?_eq_some_iff.mp hp
    rw [List.mem_append, not_or, eq_of_beq heq] at hline
    exact hline
  unfold parseLine at h
  split at h
  · rename_i idx val hp
    cases h
    obtain ⟨rest, hrest, hs⟩ := Option.bind_eq_some_iff.mp hp
    obtain ⟨l', rfl, hne, hval⟩ := shortest_some hs
    obtain ⟨hpre, hmem⟩ := hdrop hrest
    rw [List.mem_append, not_or] at hmem
    refine ⟨ofList_ne_empty hne, hv, hpre, by rw [String.toList_ofList]; exact hmem.1, ?_⟩
    rw [String.toList_ofList]
    unfold valueOf at hval
    split at hval
    · cases hval
      exact fun h => hmem.2 (List.mem_cons_of_mem _ h)
    · cases hval
  · split at h
    · rename_i idx u hp
      cases h
      obtain ⟨rest, hrest, hs⟩ := Option.bind_eq_some_iff.mp hp
      obtain ⟨l', rfl, hne, -⟩ := shortest_some hs
      obtain ⟨hpre, hmem⟩ := hdrop hrest
      rw [List.mem_append, not_or] at hpre hmem
      exact ⟨ofList_ne_empty hne, hv, hpre.2, by rw [String.toList_ofList]; exact hmem.1, by decide⟩
    · cases h

variable (pre) in
/-- The options of a file that is read. -/
theorem written_loadConfig (text : List Char) (modPlus : Bool) :
    ∀ k v, (loadConfig pre (readLines [] text) modPlus).get? k = some v → Written pre k v :=
  forall_loadConfig fun line hline _ _ hp => written_of_parseLine (not_mem_readLines List.not_mem_nil text line hline) hp

theorem Written.not_mem_cfgline {k v : String} (h : Written pre k v) : '\n' ∉ cfgline pre k v := by
  obtain ⟨-, -, hpre, hk, hv⟩ := h
  unfold cfgline
  split
  · simp [hpre, hk]
  · simp [hpre, hk, hv]

/-- An option is set to the value that it has or will have. -/
theorem get?_setConfig {config : Config} {idx val : String} {modPlus : Bool} (h : config.get? idx = none ∨ config.get? idx = some val)
    (k : String) : (setConfig config idx val modPlus).get? k = if k = idx then some val else config.get? k := by
  unfold setConfig
  split
  · exact Obj.get?_set
  · rename_i old hold
    rw [hold] at h
    obtain rfl : old = val := by simpa using h
    split
    · exact Obj.get?_set
    · split
      · rename_i heq
        rw [heq, hold]
      · rfl

/-- The value that is read for one that was printed. -/
def reread (v : String) : String := if v = "n" then "#undef" else v

section
variable {cfg : Config}

/-- The lines that are printed for some options set these. -/
theorem get?_loadLines {ks : List String} (hks : ∀ k ∈ ks, ∃ v, cfg.get? k = some v ∧ parseLine pre (cfgline pre k v) = some (k, reread v))
    (modPlus : Bool) (k : String) {config : Config} (hconfig : ∀ k, config.get? k = none ∨ config.get? k = (cfg.mapVals reread).get? k) :
    ((ks.map fun k => cfgline pre k ((cfg.get? k).getD "")).foldl (fun config line =>
        match parseLine pre line with
        | some (idx, val) => setConfig config idx val modPlus
        | none => config) config).get? k = if k ∈ ks then (cfg.mapVals reread).get? k else config.get? k := by
  induction ks generalizing config with
  | nil => simp
  | cons k₀ ks ih =>
    obtain ⟨v, hv, hline⟩ := hks k₀ List.mem_cons_self
    have hvalue : (cfg.mapVals reread).get? k₀ = some (reread v) := by rw [Obj.get?_mapVals, hv, Option.map_some]
    have hset := @get?_setConfig _ _ _ modPlus (hvalue ▸ hconfig k₀)
    rw [List.map_cons, List.foldl_cons, hv, Option.getD_some, hline]
    dsimp only
    rw [ih (fun k hk => hks k (List.mem_cons_of_mem _ hk)) fun k => ?_]
    · rw [hset]
      by_cases hk : k = k₀
      · simp [hk, hvalue]
      · simp [hk]
    · rw [hset]
      split
      · rename_i hk
        rw [hk]
        exact Or.inr hvalue.symm
      · exact hconfig k

/-- The options of a file are printed and read again. -/
theorem loadConfig_dumpConfig (h : ∀ k v, cfg.get? k = some v → Written pre k v ∧ '=' ∉ k.toList ∧ ' ' ∉ k.toList) (modPlus : Bool) :
    Same (loadConfig pre (readLines [] (dumpConfig pre cfg)) modPlus) (cfg.mapVals reread) := by
  have hkeys : ∀ k ∈ cfg.keys.mergeSort (· ≤ ·), ∃ v, cfg.get? k = some v := fun k hk =>
    Option.isSome_iff_exists.mp (Obj.mem_keys.mp (List.mem_mergeSort.mp hk))
  have hlines : readLines [] (dumpConfig pre cfg) = (cfg.keys.mergeSort (· ≤ ·)).map fun k => cfgline pre k ((cfg.get? k).getD "") := by
    unfold dumpConfig
    generalize cfg.keys.mergeSort (· ≤ ·) = ks at hkeys
    induction ks with
    | nil => rfl
    | cons k ks ih =>
      obtain ⟨v, hv⟩ := hkeys k List.mem_cons_self
      rw [List.flatMap_cons, hv, List.append_assoc, List.singleton_append, readLines_line (h k v hv).1.not_mem_cfgline, List.nil_append,
        ih fun k hk => hkeys k (List.mem_cons_of_mem _ hk), List.map_cons, hv, Option.getD_some]
  have hread : ∀ k ∈ cfg.keys.mergeSort (· ≤ ·), ∃ v, cfg.get? k = some v ∧ parseLine pre (cfgline pre k v) = some (k, reread v) := by
    intro k hk
    obtain ⟨v, hv⟩ := hkeys k hk
    obtain ⟨⟨hname, hval, -⟩, heq, hblank⟩ := h k v hv
    exact ⟨v, hv, parseLine_cfgline pre hname heq hblank hval⟩
  intro k
  rw [hlines]
  refine (get?_loadLines hread modPlus k fun k => Or.inl (Obj.get?_nil k)).trans ?_
  split
  · rfl
  · rename_i hk
    rw [List.mem_mergeSort, Obj.mem_keys, Option.not_isSome_iff_eq_none] at hk
    rw [Obj.get?_mapVals, hk]
    rfl

end

end

/-- A difference recombines with what it is from, the difference to a sum is the one to what was added, and what is printed is read
    again, with a value `n` as one that is not set. -/
theorem delta_dump (pre text₁ text₂ : List Char) (mod₁ mod₂ : Bool) {a b : Config} (ha : a = loadConfig pre (readLines [] text₁) mod₁)
    (_hb : b = loadConfig pre (readLines [] text₂) mod₂) (hnames : ∀ k v, a.get? k = some v → '=' ∉ k.toList ∧ ' ' ∉ k.toList) :
    Same (configAdd a (configDiff a b false) false) (configAdd a b false) ∧
      Same (configDiff a (configAdd a b false) false) (configDiff a b false) ∧
      ∀ modPlus, Same (loadConfig pre (readLines [] (dumpConfig pre a)) modPlus) (a.mapVals fun v => if v = "n" then "#undef" else v) := by
  refine ⟨configAdd_configDiff a b, configDiff_configAdd a b, loadConfig_dumpConfig fun k v hk => ⟨?_, hnames k v hk⟩⟩
  rw [ha] at hk
  exact written_loadConfig pre text₁ mod₁ k v hk

/-- Three options, of which one has the value `n`, and a file that sets two of them. -/
theorem delta_dump_three : ∃ a b : Config, a = [("A", "y"), ("B", "#undef"), ("C", "n")] ∧ b = [("B", "m"), ("A", "y")] ∧
    Same (configAdd a (configDiff a b false) false) (configAdd a b false) ∧
    Same (configDiff a (configAdd a b false) false) (configDiff a b false) ∧
    ∀ modPlus, Same (loadConfig "CONFIG_".toList (readLines [] (dumpConfig "CONFIG_".toList a)) modPlus)
      (a.mapVals fun v => if v = "n" then "#undef" else v) := by
  refine ⟨_, _, rfl, rfl, delta_dump "CONFIG_".toList "CONFIG_A=y\n# CONFIG_B is not set\nCONFIG_C=n\n".toList
    "CONFIG_B=m\nCONFIG_A=y".toList false false (by decide) (by decide) fun k v hk => ?_⟩
  have hmem := Obj.mem_of_get? hk
  simp only [List.mem_cons, Prod.mk.injEq, List.not_mem_nil, or_false] at hmem
  obtain ⟨rfl, -⟩ | ⟨rfl, -⟩ | ⟨rfl, -⟩ := hmem
  · decide
  · decide
  · decide

end RainWrt.Kconfig
