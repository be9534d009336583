import RainWrt.Theorems.Kconfig.Delta

/-! Expressions of configurations: how their arguments are read, and that a part of an expression can be computed by a run of its
    own whose output is saved. -/

namespace RainWrt.Kconfig

/-! ### Trees -/

/-- An expression as a tree. -/
inductive Expr where
  | file (name : String) (h : truthy name = true ∧ operator name = none)
  | node (word : String) (op : Op) (h : operator word = some op) (left right : Expr)

/-- The arguments of an expression. -/
def Expr.render : Expr → List String
  | .file name _ => [name]
  | .node word _ _ left right => word :: (left.render ++ right.render)

/-- The configuration that an expression stands for. -/
def Expr.value (env : Surroundings) (pre : List Char) : Expr → Bool → Except Death Config
  | .file name _, modPlus => openConfig env pre name modPlus
  | .node _ op _ left right, _ => do
    let arg1 ← left.value env pre false
    let arg2 ← right.value env pre (op = .addMod)
    op.apply env arg1 arg2

section
variable {env : Surroundings} {pre : List Char} {cfg : Config} {args rest rest' : List String} {e e' : Expr} {modPlus : Bool} {n : Nat}

theorem bind_eq_ok {α β : Type} {x : Except Death α} {f : α → Except Death β} {b : β} : (x >>= f) = .ok b ↔ ∃ a, x = .ok a ∧ f a = .ok b := by
  cases x with
  | error e => exact ⟨fun h => (nomatch h), fun ⟨_, h, _⟩ => (nomatch h)⟩
  | ok a => exact ⟨fun h => ⟨a, rfl, h⟩, fun ⟨_, h, hf⟩ => by cases h; exact hf⟩

theorem truthy_of_operator {word : String} {op : Op} (h : operator word = some op) : truthy word = true := by
  have hnone : operator "" = none ∧ operator "0" = none := by decide
  have hne : word ≠ "" ∧ word ≠ "0" := by
    constructor
    · rintro rfl
      rw [hnone.1] at h
      cases h
    · rintro rfl
      rw [hnone.2] at h
      cases h
  simp [truthy, hne.1, hne.2]

/-- The first argument says what comes, so no two expressions are written alike. -/
theorem render_inj (h : e.render ++ rest = e'.render ++ rest') : e = e' ∧ rest = rest' := by
  induction e generalizing e' rest rest' with
  | file name hf =>
    cases e' with
    | file name' hf' =>
      obtain ⟨rfl, rfl⟩ := List.cons.inj h
      exact ⟨rfl, rfl⟩
    | node word op ho left right =>
      obtain ⟨rfl, -⟩ := List.cons.inj h
      rw [hf.2] at ho
      cases ho
  | node word op ho left right ihl ihr =>
    cases e' with
    | file name hf =>
      obtain ⟨rfl, -⟩ := List.cons.inj h
      rw [hf.2] at ho
      cases ho
    | node word' op' ho' left' right' =>
      rw [Expr.render, Expr.render, List.cons_append, List.cons_append, List.append_assoc, List.append_assoc] at h
      obtain ⟨rfl, hargs⟩ := List.cons.inj h
      rw [ho] at ho'
      obtain rfl := Option.some.inj ho'
      obtain ⟨rfl, hargs'⟩ := ihl hargs
      obtain ⟨rfl, rfl⟩ := ihr hargs'
      exact ⟨rfl, rfl⟩

/-- The arguments of an expression are read as its value, and no further. -/
theorem parseExpr_render (e : Expr) (hn : e.render.length ≤ n) (hv : e.value env pre modPlus = .ok cfg) (rest : List String) :
    parseExpr env pre n modPlus (e.render ++ rest) = .ok (cfg, rest) := by
  induction e generalizing n modPlus cfg rest with
  | file name hf =>
    obtain ⟨n, rfl⟩ : ∃ m, n = m + 1 := ⟨n - 1, by simp only [Expr.render, List.length_singleton] at hn; omega⟩
    simp only [Expr.render, Expr.value] at hv ⊢
    simp [parseExpr, hf.1, hf.2, hv, bind, Except.bind, pure, Except.pure]
  | node word op ho left right ihl ihr =>
    obtain ⟨n, rfl⟩ : ∃ m, n = m + 1 := ⟨n - 1, by simp only [Expr.render, List.length_cons] at hn; omega⟩
    simp only [Expr.render, List.length_cons, List.length_append] at hn
    obtain ⟨arg1, h1, hv⟩ := bind_eq_ok.mp hv
    obtain ⟨arg2, h2, hv⟩ := bind_eq_ok.mp hv
    simp only [Expr.render, List.cons_append, List.append_assoc, parseExpr, truthy_of_operator ho, ho]
    simp [ihl (n := n) (by omega) h1, ihr (n := n) (by omega) h2, hv, bind, Except.bind, pure, Except.pure]

/-- What is read was written by an expression. -/
theorem parseExpr_eq_ok (h : parseExpr env pre n modPlus args = .ok (cfg, rest)) :
    ∃ e : Expr, args = e.render ++ rest ∧ e.value env pre modPlus = .ok cfg := by
  induction n generalizing modPlus args cfg rest with
  | zero => cases h
  | succ n ih =>
    cases args with
    | nil => cases h
    | cons arg args =>
      rw [parseExpr] at h
      split at h
      · cases h
      rename_i htrue
      split at h
      · rename_i op ho
        obtain ⟨⟨arg1, args1⟩, h1, h⟩ := bind_eq_ok.mp h
        obtain ⟨⟨arg2, args2⟩, h2, h⟩ := bind_eq_ok.mp h
        obtain ⟨c, hc, h⟩ := bind_eq_ok.mp h
        cases h
        obtain ⟨left, rfl, hl⟩ := ih h1
        obtain ⟨right, rfl, hr⟩ := ih h2
        exact ⟨.node arg op ho left right, by simp [Expr.render], bind_eq_ok.mpr ⟨arg1, hl, bind_eq_ok.mpr ⟨arg2, hr, hc⟩⟩⟩
      · rename_i ho
        obtain ⟨c, hc, h⟩ := bind_eq_ok.mp h
        cases h
        exact ⟨.file arg ⟨by simpa using htrue, ho⟩, rfl, hc⟩

theorem bind_ne_tooDeep {α β : Type} {x : Except Death α} {f : α → Except Death β} (hx : x ≠ .error .tooDeep)
    (hf : ∀ a, x = .ok a → f a ≠ .error .tooDeep) : (x >>= f) ≠ .error .tooDeep := by
  cases x with
  | error e => exact fun h => hx (congrArg Except.error (Except.error.inj h))
  | ok a => exact hf a rfl

theorem openConfig_ne_tooDeep (file : String) : openConfig env pre file modPlus ≠ .error .tooDeep := by
  unfold openConfig
  split <;> nofun

theorem subKeys_ne_tooDeep (cfg1 : Config) (expr : String) : subKeys env cfg1 expr ≠ .error .tooDeep := by
  unfold subKeys
  split
  · split <;> nofun
  · nofun

theorem mapM_ne_tooDeep {α β : Type} {f : α → Except Death β} (hf : ∀ a, f a ≠ .error .tooDeep) (l : List α) : l.mapM f ≠ .error .tooDeep := by
  induction l with
  | nil => nofun
  | cons a l ih =>
    rw [List.mapM_cons]
    exact bind_ne_tooDeep (hf a) fun b _ => bind_ne_tooDeep ih fun bs _ => nofun

theorem apply_ne_tooDeep (op : Op) (arg1 arg2 : Config) : op.apply env arg1 arg2 ≠ .error .tooDeep := by
  cases op with
  | sub => exact bind_ne_tooDeep (mapM_ne_tooDeep (subKeys_ne_tooDeep _) _) fun keys _ => nofun
  | _ => nofun

/-- There is an argument for each step down, so the bound is never reached. -/
theorem parseExpr_ne_tooDeep (hn : args.length < n) : parseExpr env pre n modPlus args ≠ .error .tooDeep := by
  induction n generalizing modPlus args with
  | zero => omega
  | succ n ih =>
    cases args with
    | nil => nofun
    | cons arg args =>
      rw [List.length_cons] at hn
      rw [parseExpr]
      split
      · nofun
      split
      · refine bind_ne_tooDeep (ih (by omega)) fun ⟨arg1, args1⟩ h1 => ?_
        obtain ⟨left, rfl, -⟩ := parseExpr_eq_ok h1
        rw [List.length_append] at hn
        exact bind_ne_tooDeep (ih (by omega)) fun ⟨arg2, args2⟩ _ => bind_ne_tooDeep (apply_ne_tooDeep _ _ _) fun c _ => nofun
      · exact bind_ne_tooDeep (openConfig_ne_tooDeep _) fun c _ => nofun

variable (env pre) in
/-- Arguments are read exactly as the expression that they begin with, of which there is only one, and the rest is left. -/
theorem parse_unambiguous (args : List String) (modPlus : Bool) :
    (∀ cfg rest, parseExpr env pre (args.length + 1) modPlus args = .ok (cfg, rest) ↔
      ∃! e : Expr, args = e.render ++ rest ∧ e.value env pre modPlus = .ok cfg) ∧
    (∀ (e e' : Expr) (rest rest' : List String), args = e.render ++ rest → args = e'.render ++ rest' → e = e' ∧ rest = rest') ∧
    parseExpr env pre (args.length + 1) modPlus args ≠ .error .tooDeep := by
  refine ⟨fun cfg rest => ?_, fun e e' rest rest' h h' => render_inj (h.symm.trans h'), parseExpr_ne_tooDeep (Nat.lt_succ_self _)⟩
  constructor
  · intro h
    obtain ⟨e, he, hv⟩ := parseExpr_eq_ok h
    exact ⟨e, ⟨he, hv⟩, fun e' ⟨he', _⟩ => (render_inj (he'.symm.trans he)).1⟩
  · rintro ⟨e, ⟨rfl, hv⟩, -⟩
    exact parseExpr_render e (by rw [List.length_append]; omega) hv rest

end

/-! ### Operations on what is written -/

section
variable {env : Surroundings} {pre : List Char} {a a' b b' c : Config} {k v : String}

/-- The names are distinct, and a line for each option is read as it is. -/
structure Plain (pre : List Char) (cfg : Config) : Prop where
  nodup : cfg.keys.Nodup
  written : ∀ k v, cfg.get? k = some v → Written pre k v ∧ '=' ∉ k.toList ∧ ' ' ∉ k.toList ∧ v ≠ "n"

theorem nodup_foldl {α : Type} {f : Config → α → Config} (hf : ∀ config x, config.keys.Nodup → (f config x).keys.Nodup) (l : List α) {config : Config}
    (h : config.keys.Nodup) : (l.foldl f config).keys.Nodup := by
  induction l generalizing config with
  | nil => exact h
  | cons x l ih => exact ih (hf config x h)

theorem nodup_loadConfig (file : List (List Char)) (modPlus : Bool) : (loadConfig pre file modPlus).keys.Nodup := by
  refine nodup_foldl (fun config line h => ?_) file List.nodup_nil
  split
  · unfold setConfig
    split
    · exact Obj.nodup_set h _ _
    · split
      · exact Obj.nodup_set h _ _
      · exact h
  · exact h

theorem nodup_configAnd : (configAnd a b).keys.Nodup := by
  refine nodup_foldl (fun config k h => ?_) a.keys List.nodup_nil
  unfold andOption
  split
  · split
    · exact Obj.nodup_set h _ _
    · exact h
  · exact h

theorem nodup_configAdd (modPlus : Bool) : (configAdd a b modPlus).keys.Nodup := by
  refine nodup_foldl (fun config cfg h => nodup_foldl (fun config k h => ?_) cfg.keys h) [a, b] List.nodup_nil
  unfold addOption
  split
  · split
    · exact h
    · exact Obj.nodup_set h _ _
  · exact h

theorem nodup_configDiff (newOnly : Bool) : (configDiff a b newOnly).keys.Nodup := by
  refine nodup_foldl (fun config k h => ?_) b.keys List.nodup_nil
  unfold diffOption
  split
  · split
    · exact h
    · split
      · exact h
      · exact Obj.nodup_set h _ _
  · exact h

theorem merged_eq_some {modPlus : Bool} {old new : Option String} (h : merged modPlus old new = some v) : old = some v ∨ new = some v := by
  unfold merged at h
  split at h
  · split at h
    · exact .inl h
    · exact .inr h
  · exact .inl h

theorem differing_eq_some {newOnly : Bool} {old new : Option String} (h : differing newOnly old new = some v) : new = some v := by
  unfold differing at h
  split at h
  · split at h
    · cases h
    · split at h
      · cases h
      · exact h
  · cases h

theorem get?_foldl_del (keys : List String) (cfg : Config) (k : String) :
    (keys.foldl Obj.del cfg).get? k = if k ∈ keys then none else cfg.get? k := by
  induction keys generalizing cfg with
  | nil => simp
  | cons k' keys ih =>
    rw [List.foldl_cons, ih, Obj.get?_del]
    by_cases hk : k = k'
    · simp [hk]
    · simp [hk]

/-- The keys that are named, each by a key of the second operand. -/
theorem mem_mapM {α : Type} {f : α → Except Death (List String)} {l : List α} {keys : List (List String)} (h : l.mapM f = .ok keys) (k : String) :
    k ∈ keys.flatten ↔ ∃ x ∈ l, ∃ ks, f x = .ok ks ∧ k ∈ ks := by
  induction l generalizing keys with
  | nil =>
    cases h
    simp
  | cons x l ih =>
    rw [List.mapM_cons] at h
    obtain ⟨ks, hks, h⟩ := bind_eq_ok.mp h
    obtain ⟨kss, hkss, h⟩ := bind_eq_ok.mp h
    cases h
    rw [List.flatten_cons, List.mem_append, ih hkss, List.exists_mem_cons_iff]
    refine or_congr_left ⟨fun hk => ⟨ks, hks, hk⟩, fun ⟨ks', h, hk⟩ => ?_⟩
    rw [hks] at h
    rwa [Except.ok.inj h]

theorem mapM_isOk {α β : Type} {f : α → Except Death β} (l : List α) : (∃ bs, l.mapM f = .ok bs) ↔ ∀ x ∈ l, ∃ b, f x = .ok b := by
  induction l with
  | nil => exact ⟨fun _ x hx => (nomatch hx), fun _ => ⟨[], rfl⟩⟩
  | cons x l ih =>
    rw [List.mapM_cons, List.forall_mem_cons, ← ih]
    constructor
    · rintro ⟨bs, h⟩
      obtain ⟨b, hb, h⟩ := bind_eq_ok.mp h
      obtain ⟨bs', hbs, -⟩ := bind_eq_ok.mp h
      exact ⟨⟨b, hb⟩, bs', hbs⟩
    · rintro ⟨⟨b, hb⟩, bs, hbs⟩
      exact ⟨b :: bs, bind_eq_ok.mpr ⟨b, hb, bind_eq_ok.mpr ⟨bs, hbs, rfl⟩⟩⟩

/-- One of the keys in `l` names `k`. -/
def Named (env : Surroundings) (cfg1 : Config) (l : List String) (k : String) : Prop := ∃ expr ∈ l, ∃ ks, subKeys env cfg1 expr = .ok ks ∧ k ∈ ks

theorem configSub_eq_ok (h : configSub env a b = .ok c) : (∀ expr ∈ b.keys, ∃ ks, subKeys env a expr = .ok ks) ∧
    (∀ k v, c.get? k = some v ↔ ¬Named env a b.keys k ∧ a.get? k = some v) ∧ (a.keys.Nodup → c.keys.Nodup) := by
  obtain ⟨keys, hkeys, h⟩ := bind_eq_ok.mp h
  cases h
  refine ⟨(mapM_isOk _).mp ⟨keys, hkeys⟩, fun k v => ?_, nodup_foldl (fun config k h => Obj.nodup_del h k) _⟩
  have hnamed : k ∈ keys.flatten ↔ Named env a b.keys k := mem_mapM hkeys k
  rw [get?_foldl_del, ← hnamed]
  by_cases hk : k ∈ keys.flatten
  · simp [hk]
  · simp [hk]

/-- What comes out of two configurations stood in one of them. -/
theorem apply_sub {op : Op} (h : op.apply env a b = .ok c) (hk : c.get? k = some v) : a.get? k = some v ∨ b.get? k = some v := by
  cases op with
  | and =>
    cases h
    exact .inl (configAnd_eq_some.mp hk).2.1
  | add =>
    cases h
    rw [get?_configAdd] at hk
    exact merged_eq_some hk
  | addMod =>
    cases h
    rw [get?_configAdd] at hk
    exact merged_eq_some hk
  | diff =>
    cases h
    rw [get?_configDiff] at hk
    exact .inr (differing_eq_some hk)
  | diffNew =>
    cases h
    rw [get?_configDiff] at hk
    exact .inr (differing_eq_some hk)
  | sub => exact .inl (((configSub_eq_ok h).2.1 k v).mp hk).2

theorem nodup_apply {op : Op} (ha : a.keys.Nodup) (h : op.apply env a b = .ok c) : c.keys.Nodup := by
  cases op with
  | and =>
    cases h
    exact nodup_configAnd
  | add =>
    cases h
    exact nodup_configAdd _
  | addMod =>
    cases h
    exact nodup_configAdd _
  | diff =>
    cases h
    exact nodup_configDiff _
  | diffNew =>
    cases h
    exact nodup_configDiff _
  | sub => exact (configSub_eq_ok h).2.2 ha

theorem Plain.apply {op : Op} (ha : Plain pre a) (hb : Plain pre b) (h : op.apply env a b = .ok c) : Plain pre c :=
  ⟨nodup_apply ha.nodup h, fun k v hk => (apply_sub h hk).elim (ha.written k v) (hb.written k v)⟩

/-! ### Order of the options -/

theorem Same.mem_keys (h : Same a a') (k : String) : k ∈ a.keys ↔ k ∈ a'.keys := by rw [Obj.mem_keys, Obj.mem_keys, h k]

theorem Same.symm (h : Same a b) : Same b a := fun k => (h k).symm

theorem subKeys_same (ha : Same a a') {expr : String} {ks : List String} (h : subKeys env a expr = .ok ks) :
    ∃ ks', subKeys env a' expr = .ok ks' ∧ ∀ k, k ∈ ks ↔ k ∈ ks' := by
  unfold subKeys at h ⊢
  by_cases hp : isPattern expr = true
  · rw [if_pos hp] at h ⊢
    rcases hl : a.keys with _ | ⟨x, l⟩
    · have hnil : a'.keys = [] := List.eq_nil_iff_forall_not_mem.mpr fun k hk => by simpa [hl] using (ha.mem_keys k).mpr hk
      rw [hl] at h
      rw [hnil]
      cases h
      exact ⟨[], rfl, fun k => Iff.rfl⟩
    · rcases hl' : a'.keys with _ | ⟨x', l'⟩
      · have := (ha.mem_keys x).mp (by simp [hl])
        simp [hl'] at this
      · rw [hl] at h
        cases hpat : env.pattern expr with
        | none =>
          rw [hpat] at h
          cases h
        | some isMatch =>
          rw [hpat] at h
          cases h
          refine ⟨_, rfl, fun k => ?_⟩
          rw [List.mem_filter, List.mem_filter, ← hl, ← hl', ha.mem_keys k]
  · rw [if_neg hp] at h ⊢
    exact ⟨ks, h, fun k => Iff.rfl⟩

theorem Named.same (ha : Same a a') (hb : Same b b') (h : Named env a b.keys k) : Named env a' b'.keys k := by
  obtain ⟨expr, hexpr, ks, hks, hk⟩ := h
  obtain ⟨ks', hks', hmem⟩ := subKeys_same ha hks
  exact ⟨expr, (hb.mem_keys expr).mp hexpr, ks', hks', (hmem k).mp hk⟩

/-- The order of the options in a hash does not show in what is computed from it. -/
theorem apply_same {op : Op} (ha : Same a a') (hb : Same b b') (h : op.apply env a b = .ok c) : ∃ c', op.apply env a' b' = .ok c' ∧ Same c c' := by
  cases op with
  | and =>
    cases h
    refine ⟨_, rfl, fun k => ?_⟩
    rw [get?_configAnd, get?_configAnd, common, common, ha k, hb k]
  | add =>
    cases h
    exact ⟨_, rfl, configAdd_congr false ha hb⟩
  | addMod =>
    cases h
    exact ⟨_, rfl, configAdd_congr true ha hb⟩
  | diff =>
    cases h
    refine ⟨_, rfl, fun k => ?_⟩
    rw [get?_configDiff, get?_configDiff, ha k, hb k]
  | diffNew =>
    cases h
    refine ⟨_, rfl, fun k => ?_⟩
    rw [get?_configDiff, get?_configDiff, ha k, hb k]
  | sub =>
    obtain ⟨hok, hget, -⟩ := configSub_eq_ok h
    obtain ⟨keys, hkeys⟩ := (mapM_isOk (f := subKeys env a') b'.keys).mpr fun expr hexpr => by
      obtain ⟨ks, hks⟩ := hok expr ((hb.mem_keys expr).mpr hexpr)
      obtain ⟨ks', hks', -⟩ := subKeys_same ha hks
      exact ⟨ks', hks'⟩
    have h' : configSub env a' b' = .ok (keys.flatten.foldl Obj.del a') := bind_eq_ok.mpr ⟨keys, hkeys, rfl⟩
    refine ⟨_, h', same_iff.mpr fun k v => ?_⟩
    rw [hget, (configSub_eq_ok h').2.1, ha k]
    exact and_congr_left fun _ => not_congr ⟨.same ha hb, .same ha.symm hb.symm⟩

/-- What is printed does not depend on the order either. -/
theorem dumpConfig_same (ha : a.keys.Nodup) (hb : b.keys.Nodup) (h : Same a b) : dumpConfig pre a = dumpConfig pre b := by
  have hperm : a.keys.Perm b.keys := (List.perm_ext_iff_of_nodup ha hb).mpr h.mem_keys
  have hordered (l : List String) : (l.mergeSort (· ≤ ·)).Pairwise (· ≤ ·) := by
    refine List.Pairwise.imp of_decide_eq_true (List.pairwise_mergeSort (fun x y z hxy hyz => ?_) (fun x y => ?_) l)
    · exact decide_eq_true (String.le_trans (of_decide_eq_true hxy) (of_decide_eq_true hyz))
    · simpa using String.le_total x y
  have hsort : a.keys.mergeSort (· ≤ ·) = b.keys.mergeSort (· ≤ ·) :=
    ((List.mergeSort_perm _ _).trans (hperm.trans (List.mergeSort_perm _ _).symm)).eq_of_pairwise
      (fun x y _ _ => String.le_antisymm) (hordered _) (hordered _)
  unfold dumpConfig
  rw [hsort]
  refine congrArg (List.flatMap · _) (funext fun k => ?_)
  rw [h k]

theorem Plain.same_reread (h : Plain pre a) (modPlus : Bool) : Same a (loadConfig pre (readLines [] (dumpConfig pre a)) modPlus) := by
  intro k
  rw [loadConfig_dumpConfig (fun k v hk => ⟨(h.written k v hk).1, (h.written k v hk).2.1, (h.written k v hk).2.2.1⟩) modPlus k, Obj.get?_mapVals]
  cases hk : a.get? k with
  | none => rfl
  | some v => simp [reread, (h.written k v hk).2.2.2]

end

/-! ### Saved parts -/

/-- The files of an expression. -/
def Expr.files : Expr → List String
  | .file name _ => [name]
  | .node _ _ _ left right => left.files ++ right.files

/-- What the files of an expression hold is plain. -/
def Expr.Readable (env : Surroundings) (pre : List Char) (e : Expr) : Prop :=
  ∀ name ∈ e.files, ∀ text modPlus, env.openFile name = some text → ∀ k v, (loadConfig pre (readLines [] text) modPlus).get? k = some v →
    '=' ∉ k.toList ∧ ' ' ∉ k.toList ∧ v ≠ "n"

/-- Some operations of the first expression are in the second the files that their output was saved to. -/
inductive Cached (env : Surroundings) (pre : List Char) : Expr → Expr → Prop where
  | file {name h} : Cached env pre (.file name h) (.file name h)
  | node {word op h left left' right right'} : Cached env pre left left' → Cached env pre right right' →
    Cached env pre (.node word op h left right) (.node word op h left' right')
  | saved {word op h left right cfg} (name h') : (Expr.node word op h left right).value env pre false = .ok cfg →
    env.openFile name = some (dumpConfig pre cfg) → Cached env pre (.node word op h left right) (.file name h')

section
variable {env : Surroundings} {pre : List Char} {cfg : Config} {e e' : Expr} {modPlus : Bool}

theorem Expr.Readable.plain (h : e.Readable env pre) (hv : e.value env pre modPlus = .ok cfg) : Plain pre cfg := by
  induction e generalizing modPlus cfg with
  | file name hf =>
    rw [Expr.value] at hv
    unfold openConfig at hv
    split at hv
    · rename_i text htext
      cases hv
      exact ⟨nodup_loadConfig _ _, fun k v hk => ⟨written_loadConfig pre text modPlus k v hk, h name (List.mem_singleton_self name) text modPlus htext k v hk⟩⟩
    · cases hv
  | node word op ho left right ihl ihr =>
    obtain ⟨arg1, h1, hv⟩ := bind_eq_ok.mp hv
    obtain ⟨arg2, h2, hv⟩ := bind_eq_ok.mp hv
    exact (ihl (fun name hname => h name (List.mem_append_left _ hname)) h1).apply
      (ihr (fun name hname => h name (List.mem_append_right _ hname)) h2) hv

/-- Both expressions have the same value, but for the order of the options. -/
theorem Cached.value_same (h : Cached env pre e e') (he : e.Readable env pre) (modPlus : Bool) :
    (∀ cfg, e.value env pre modPlus = .ok cfg → ∃ cfg', e'.value env pre modPlus = .ok cfg' ∧ Same cfg cfg' ∧ cfg'.keys.Nodup) ∧
    (∀ cfg', e'.value env pre modPlus = .ok cfg' → ∃ cfg, e.value env pre modPlus = .ok cfg ∧ Same cfg cfg') := by
  induction h generalizing modPlus with
  | file => exact ⟨fun cfg hv => ⟨cfg, hv, fun k => rfl, (he.plain hv).nodup⟩, fun cfg hv => ⟨cfg, hv, fun k => rfl⟩⟩
  | @node word op ho left left' right right' hl hr ihl ihr =>
    have hel : left.Readable env pre := fun name hname => he name (List.mem_append_left _ hname)
    have her : right.Readable env pre := fun name hname => he name (List.mem_append_right _ hname)
    constructor
    · intro cfg hv
      obtain ⟨arg1, h1, hv⟩ := bind_eq_ok.mp hv
      obtain ⟨arg2, h2, hv⟩ := bind_eq_ok.mp hv
      obtain ⟨arg1', h1', hs1, hn1⟩ := (ihl hel false).1 arg1 h1
      obtain ⟨arg2', h2', hs2, hn2⟩ := (ihr her _).1 arg2 h2
      obtain ⟨cfg', hv', hs⟩ := apply_same hs1 hs2 hv
      exact ⟨cfg', bind_eq_ok.mpr ⟨arg1', h1', bind_eq_ok.mpr ⟨arg2', h2', hv'⟩⟩, hs, nodup_apply hn1 hv'⟩
    · intro cfg' hv
      obtain ⟨arg1', h1', hv⟩ := bind_eq_ok.mp hv
      obtain ⟨arg2', h2', hv⟩ := bind_eq_ok.mp hv
      obtain ⟨arg1, h1, hs1⟩ := (ihl hel false).2 arg1' h1'
      obtain ⟨arg2, h2, hs2⟩ := (ihr her _).2 arg2' h2'
      obtain ⟨cfg, hv', hs⟩ := apply_same hs1.symm hs2.symm hv
      exact ⟨cfg, bind_eq_ok.mpr ⟨arg1, h1, bind_eq_ok.mpr ⟨arg2, h2, hv'⟩⟩, hs.symm⟩
  | @saved word op ho left right cfg name h' hv hopen =>
    have hread : (Expr.file name h').value env pre modPlus = .ok (loadConfig pre (readLines [] (dumpConfig pre cfg)) modPlus) := by
      rw [Expr.value, openConfig, hopen]
    have hsame := (he.plain hv).same_reread modPlus
    constructor
    · intro cfg₁ hv₁
      -- An operation does not look at what it is an operand of.
      obtain rfl : cfg₁ = cfg := Except.ok.inj (hv₁.symm.trans hv)
      exact ⟨_, hread, hsame, nodup_loadConfig _ _⟩
    · intro cfg₁ hv₁
      obtain rfl := Except.ok.inj (hv₁.symm.trans hread)
      exact ⟨cfg, hv, hsame⟩

theorem kconfig_eq {argv : List String} {out : List Char} (hopts : parseOptions "CONFIG_".toList argv = .ok (pre, e.render)) :
    kconfig env argv = (out, none) ↔ ∃ cfg, e.value env pre false = .ok cfg ∧ dumpConfig pre cfg = out := by
  unfold kconfig
  rw [hopts]
  constructor
  · intro h
    dsimp only at h
    split at h
    · cases h
    · rename_i cfg rest hparse
      obtain ⟨e₁, he, hv⟩ := parseExpr_eq_ok hparse
      obtain ⟨rfl, -⟩ := render_inj ((List.append_nil _).trans he)
      exact ⟨cfg, hv, congrArg Prod.fst h⟩
  · rintro ⟨cfg, hv, rfl⟩
    have hparse := parseExpr_render e (Nat.le_succ _) hv []
    rw [List.append_nil] at hparse
    simp [hparse]

/-- A part of an expression can be computed by a run of its own: with its output as a file in its place, the same is printed. The
    second operand of `m+` is no exception, although it is read in another way than other files. -/
theorem saved_prints (opts : List String) (he : e.Readable env pre) (h : Cached env pre e e')
    (hopts : parseOptions "CONFIG_".toList (opts ++ e.render) = .ok (pre, e.render))
    (hopts' : parseOptions "CONFIG_".toList (opts ++ e'.render) = .ok (pre, e'.render)) (out : List Char) :
    kconfig env (opts ++ e.render) = (out, none) ↔ kconfig env (opts ++ e'.render) = (out, none) := by
  rw [kconfig_eq hopts, kconfig_eq hopts']
  obtain ⟨hto, hfrom⟩ := h.value_same he false
  constructor
  · rintro ⟨cfg, hv, rfl⟩
    obtain ⟨cfg', hv', hs, hn⟩ := hto cfg hv
    exact ⟨cfg', hv', (dumpConfig_same (he.plain hv).nodup hn hs).symm⟩
  · rintro ⟨cfg', hv', rfl⟩
    obtain ⟨cfg, hv, hs⟩ := hfrom cfg' hv'
    obtain ⟨cfg₁, hv₁, -, hn⟩ := hto cfg hv
    obtain rfl := Except.ok.inj (hv₁.symm.trans hv')
    exact ⟨cfg, hv, dumpConfig_same (he.plain hv).nodup hn hs⟩

end

/-- What was changed in a file is applied to another, at once and by way of a saved difference. -/
theorem saved_prints_delta : ∃ env : Surroundings, env.openFile "base" = some "CONFIG_A=y\nCONFIG_C=m".toList ∧
    env.openFile "delta" = some (dumpConfig "CONFIG_".toList [("A", "m"), ("B", "#undef")]) ∧
    ∀ out, kconfig env ["m+", "base", ">", "old", "new"] = (out, none) ↔ kconfig env ["m+", "base", "delta"] = (out, none) := by
  let env : Surroundings :=
    { openFile := fun name =>
        if name = "base" then some "CONFIG_A=y\nCONFIG_C=m".toList
        else if name = "old" then some "CONFIG_A=y".toList
        else if name = "new" then some "CONFIG_A=m\n# CONFIG_B is not set".toList
        else if name = "delta" then some (dumpConfig "CONFIG_".toList [("A", "m"), ("B", "#undef")])
        else none
      pattern := fun _ => none }
  have hbase (modPlus : Bool) : loadConfig "CONFIG_".toList (readLines [] "CONFIG_A=y\nCONFIG_C=m".toList) modPlus = [("A", "y"), ("C", "m")] := by
    cases modPlus <;> decide
  have hold (modPlus : Bool) : loadConfig "CONFIG_".toList (readLines [] "CONFIG_A=y".toList) modPlus = [("A", "y")] := by
    cases modPlus <;> decide
  have hnew (modPlus : Bool) : loadConfig "CONFIG_".toList (readLines [] "CONFIG_A=m\n# CONFIG_B is not set".toList) modPlus =
      [("A", "m"), ("B", "#undef")] := by
    cases modPlus <;> decide
  let base : Expr := .file "base" (by decide)
  let change : Expr := .node ">" .diff (by decide) (.file "old" (by decide)) (.file "new" (by decide))
  have hplain (l : Config) (hl : l.all (fun x => '=' ∉ x.1.toList ∧ ' ' ∉ x.1.toList ∧ x.2 ≠ "n") = true) (k v : String) (hk : l.get? k = some v) :
      '=' ∉ k.toList ∧ ' ' ∉ k.toList ∧ v ≠ "n" :=
    of_decide_eq_true (List.all_eq_true.mp hl (k, v) (Obj.mem_of_get? hk))
  have hread : (Expr.node "m+" .addMod (by decide) base change).Readable env "CONFIG_".toList := by
    intro name hname text modPlus htext
    have hnames : name = "base" ∨ name = "old" ∨ name = "new" := by simpa [base, change, Expr.files] using hname
    obtain rfl | rfl | rfl := hnames
    · obtain rfl := Option.some.inj htext
      rw [hbase]
      exact hplain _ (by decide)
    · obtain rfl := Option.some.inj htext
      rw [hold]
      exact hplain _ (by decide)
    · obtain rfl := Option.some.inj htext
      rw [hnew]
      exact hplain _ (by decide)
  have hchange : change.value env "CONFIG_".toList false = .ok [("A", "m"), ("B", "#undef")] := by
    refine bind_eq_ok.mpr ⟨_, congrArg Except.ok (hold false), bind_eq_ok.mpr ⟨_, congrArg Except.ok (hnew false), ?_⟩⟩
    decide
  exact ⟨env, rfl, rfl, saved_prints [] hread (.node .file (.saved "delta" (by decide) hchange rfl)) rfl rfl⟩

end RainWrt.Kconfig
