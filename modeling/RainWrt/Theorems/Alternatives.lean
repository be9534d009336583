import RainWrt.Alternatives

/-! Each target stays a link to the source of an installed alternative of highest priority, as long as the scan is not
    skipped for an alternative that another one exceeds, and no priorities tie where the script cannot tell them apart. -/

namespace RainWrt.Alternatives

/-! ### Priorities -/

/-- No alternative for the same target exceeds it. -/
def Top (alts : List Alt) (a : Alt) : Prop := ∀ b ∈ alts, b.target = a.target → b.prio ≤ a.prio

/-- It exceeds every alternative for the same target with another source. -/
def Wins (alts : List Alt) (a : Alt) : Prop := ∀ b ∈ alts, b.target = a.target → b.src ≠ a.src → b.prio < a.prio

/-- `d` is the source of an alternative of highest priority for the target. -/
def Best (alts : List Alt) (t d : String) : Prop := ∃ a ∈ alts, a.target = t ∧ a.src = d ∧ Top alts a

/-- What a target should be linked to. -/
def Serves (alts : List Alt) (t d : String) : Prop := Best alts t d ∨ ((∀ b ∈ alts, b.target ≠ t) ∧ d = busybox)

/-- The target is a link to what it should be linked to. -/
def Served (pkgs : Packages) (s : State) (t : String) : Prop := ∃ d, s.links t = some d ∧ Serves (s.alts pkgs) t d

instance (alts : List Alt) (a : Alt) : Decidable (Top alts a) := inferInstanceAs (Decidable (∀ b ∈ alts, _))
instance (alts : List Alt) (a : Alt) : Decidable (Wins alts a) := inferInstanceAs (Decidable (∀ b ∈ alts, _))
instance (alts : List Alt) (t d : String) : Decidable (Best alts t d) := inferInstanceAs (Decidable (∃ a ∈ alts, _))

theorem exists_top {alts : List Alt} {a : Alt} (h : a ∈ alts) : ∃ b ∈ alts, b.target = a.target ∧ Top alts b := by
  have hmem : a ∈ alts.filter (·.target = a.target) := by simp [h]
  cases hmax : (alts.filter (·.target = a.target)).argmax (·.prio) with
  | none =>
    rw [List.argmax_eq_none] at hmax
    rw [hmax] at hmem
    cases hmem
  | some b =>
    have hb := List.argmax_mem hmax
    simp only [List.mem_filter, decide_eq_true_eq] at hb
    refine ⟨b, hb.1, hb.2, fun c hc ht => ?_⟩
    exact List.le_of_mem_argmax (by simp [hc, ht, hb.2]) hmax

theorem Wins.best {alts : List Alt} {a : Alt} (h : Wins alts a) (ha : a ∈ alts) : Best alts a.target a.src := by
  obtain ⟨b, hb, ht, htop⟩ := exists_top ha
  refine ⟨b, hb, ht, ?_, htop⟩
  by_contra hne
  have hlt := h b hb ht hne
  have hle := htop a ha ht.symm
  omega

/-! ### The scan -/

/-- What competes with `a` for its target. -/
def Rival (a b : Alt) : Prop := b.target = a.target ∧ b.src ≠ a.src

instance (a b : Alt) : Decidable (Rival a b) := inferInstanceAs (Decidable (_ ∧ _))

theorem scan_spec (a : Alt) (s : Scan) (alts : List Alt) :
    s.bestPrio ≤ (scan a s alts).bestPrio ∧ (∀ b ∈ alts, Rival a b → b.prio ≤ (scan a s alts).bestPrio) ∧
      (((scan a s alts).bestPrio = s.bestPrio ∧ (scan a s alts).bestSrc = s.bestSrc) ∨
        ∃ b ∈ alts, Rival a b ∧ b.prio = (scan a s alts).bestPrio ∧ b.src = (scan a s alts).bestSrc) := by
  induction alts generalizing s with
  | nil => exact ⟨Nat.le_refl _, by simp, Or.inl ⟨rfl, rfl⟩⟩
  | cons alt alts ih =>
    rw [scan]
    split
    · rename_i hcond
      obtain ⟨ht, hs, hlt⟩ := hcond
      obtain ⟨hle, hall, hex⟩ := ih { bestPrio := alt.prio, bestSrc := alt.src, target := alt.target }
      simp only at hle hex
      refine ⟨by omega, ?_, ?_⟩
      · intro b hb hr
        rcases List.mem_cons.mp hb with rfl | hb
        · exact hle
        · exact hall b hb hr
      · rcases hex with ⟨hp, hsrc⟩ | ⟨b, hb, h⟩
        · exact Or.inr ⟨alt, List.mem_cons_self, ⟨ht, hs⟩, hp.symm, hsrc.symm⟩
        · exact Or.inr ⟨b, List.mem_cons_of_mem _ hb, h⟩
    · rename_i hcond
      obtain ⟨hle, hall, hex⟩ := ih { s with target := alt.target }
      simp only at hle hex
      refine ⟨hle, ?_, ?_⟩
      · intro b hb hr
        rcases List.mem_cons.mp hb with rfl | hb
        · exact Nat.le_trans (Nat.not_lt.mp fun hlt => hcond ⟨hr.1, hr.2, hlt⟩) hle
        · exact hall b hb hr
      · rcases hex with h | ⟨b, hb, h⟩
        · exact Or.inl h
        · exact Or.inr ⟨b, List.mem_cons_of_mem _ hb, h⟩

/-- The first of highest priority among the rivals. -/
def bestRival (alts : List Alt) (a : Alt) : Option Alt := (alts.filter (Rival a ·)).argmax (·.prio)

theorem bestRival_cons (alt : Alt) (alts : List Alt) (a : Alt) :
    bestRival (alt :: alts) a =
      if Rival a alt then
        match bestRival alts a with
        | none => some alt
        | some b => if alt.prio < b.prio then some b else some alt
      else bestRival alts a := by
  unfold bestRival
  by_cases hr : Rival a alt
  · rw [List.filter_cons_of_pos (by simpa using hr), List.argmax_cons, if_pos hr]
    cases (alts.filter (Rival a ·)).argmax (·.prio) <;> rfl
  · rw [List.filter_cons_of_neg (by simpa using hr), if_neg hr]

/-- The scan finds the first of the best. -/
theorem scan_bestSrc (a : Alt) (s : Scan) (alts : List Alt) :
    (scan a s alts).bestSrc = match bestRival alts a with
      | none => s.bestSrc
      | some b => if s.bestPrio < b.prio then b.src else s.bestSrc := by
  induction alts generalizing s with
  | nil => rfl
  | cons alt alts ih =>
    rw [scan, bestRival_cons]
    by_cases hr : Rival a alt
    · rw [if_pos hr]
      by_cases hlt : s.bestPrio < alt.prio
      · rw [if_pos ⟨hr.1, hr.2, hlt⟩, ih]
        cases bestRival alts a with
        | none => simp [hlt]
        | some b =>
          dsimp only
          by_cases hb : alt.prio < b.prio
          · simp [hb, Nat.lt_trans hlt hb]
          · simp [hb, hlt]
      · rw [if_neg fun h => hlt h.2.2, ih]
        cases bestRival alts a with
        | none => simp [hlt]
        | some b =>
          dsimp only
          by_cases hb : alt.prio < b.prio
          · simp [hb]
          · simp [hb, hlt, show ¬s.bestPrio < b.prio by omega]
    · rw [if_neg hr, if_neg fun h => hr ⟨h.1, h.2.1⟩, ih]

/-- The scan is won exactly by what exceeds its rivals. -/
theorem scan_lt_iff {a : Alt} {alts : List Alt} {target : String} (hpos : 0 < a.prio) :
    (scan a { target } alts).bestPrio < a.prio ↔ Wins alts a := by
  obtain ⟨-, hall, hex⟩ := scan_spec a { target } alts
  constructor
  · intro hlt b hb ht hs
    exact Nat.lt_of_le_of_lt (hall b hb ⟨ht, hs⟩) hlt
  · intro hw
    rcases hex with ⟨h0, -⟩ | ⟨b, hb, ⟨ht, hs⟩, hp, -⟩
    · rw [h0]
      exact hpos
    · rw [← hp]
      exact hw b hb ht hs

/-! ### The outer loop -/

/-- A property of the shell and the alternative, each time that an alternative is handled. -/
def Handles (action : Action) (files : String → Bool) (alts : List Alt) (P : Shell → Alt → Prop) : Shell → List Alt → Prop
  | _, [] => True
  | sh, a :: l => P sh a ∧ Handles action files alts P (handle action files alts sh a) l

/-- The scan is skipped. -/
def Skips (files : String → Bool) (sh : Shell) : Prop := test files sh.links sh.target = false

instance (files : String → Bool) (sh : Shell) : Decidable (Skips files sh) := inferInstanceAs (Decidable (_ = false))

instance decidableHandles (action : Action) (files : String → Bool) (alts : List Alt) (P : Shell → Alt → Prop)
    [∀ sh a, Decidable (P sh a)] : ∀ sh l, Decidable (Handles action files alts P sh l)
  | _, [] => inferInstanceAs (Decidable True)
  | sh, a :: l =>
    have := decidableHandles action files alts P (handle action files alts sh a) l
    inferInstanceAs (Decidable (P sh a ∧ Handles action files alts P (handle action files alts sh a) l))

section
variable {action : Action} {files : String → Bool} {alts : List Alt} {P : Shell → Alt → Prop} {G : String → String → Prop}
  {sh : Shell} {a : Alt}

/-- After an alternative a target is linked as `G` says, or it is as before and the alternative is none that wins it. -/
def Sets (alts : List Alt) (G : String → String → Prop) (links links' : Links) (a : Alt) : Prop :=
  ∀ t, (∃ d, links' t = some d ∧ G t d) ∨ (links' t = links t ∧ (a.target = t → ¬Wins alts a))

theorem foldl_handle {l : List Alt}
    (hset : ∀ sh, ∀ a ∈ l, P sh a → Sets alts G sh.links (handle action files alts sh a).links a)
    (h : Handles action files alts P sh l) (t : String) :
    (∃ d, (l.foldl (handle action files alts) sh).links t = some d ∧ G t d) ∨
      ((l.foldl (handle action files alts) sh).links t = sh.links t ∧ ∀ a ∈ l, a.target = t → ¬Wins alts a) := by
  induction l generalizing sh with
  | nil => exact Or.inr ⟨rfl, by simp⟩
  | cons a l ih =>
    obtain ⟨hP, h⟩ := h
    rcases ih (fun sh b hb => hset sh b (List.mem_cons_of_mem _ hb)) h with hd | ⟨heq, hno⟩
    · exact Or.inl hd
    · rw [List.foldl_cons, heq]
      rcases hset sh a List.mem_cons_self hP t with hd | ⟨heq', hno'⟩
      · exact Or.inl hd
      · refine Or.inr ⟨heq', fun b hb ht => ?_⟩
        rcases List.mem_cons.mp hb with rfl | hb
        · exact hno' ht
        · exact hno b hb ht

theorem sets_ln {links : Links} {d : String} (h : G a.target d) : Sets alts G links (ln links d a.target) a := by
  intro t
  rw [ln]
  split
  · rename_i heq
    exact Or.inl ⟨d, rfl, heq ▸ h⟩
  · rename_i hne
    exact Or.inr ⟨rfl, fun heq => absurd heq.symm hne⟩

theorem sets_same {links : Links} (h : ¬Wins alts a) : Sets alts G links links a := fun _ => Or.inr ⟨rfl, fun _ => h⟩

theorem sets_install (hpos : 0 < a.prio) (ha : a ∈ alts) (h : Skips files sh → Best alts a.target a.src) :
    Sets alts (Best alts) sh.links (handle .install files alts sh a).links a := by
  rw [handle]
  cases ht : test files sh.links sh.target with
  | true =>
    simp only [if_true]
    by_cases hw : Wins alts a
    · rw [if_pos ((scan_lt_iff hpos).mpr hw)]
      exact sets_ln (hw.best ha)
    · rw [if_neg (mt (scan_lt_iff hpos).mp hw)]
      exact sets_same hw
  | false =>
    simp only [if_false, hpos, if_true, Bool.false_eq_true]
    exact sets_ln (h ht)

theorem sets_remove (hpos : 0 < a.prio) (hskip : Skips files sh → G a.target busybox)
    (hwin : ¬Skips files sh → Wins alts a → G a.target (scan a { target := sh.target } alts).bestSrc) :
    Sets alts G sh.links (handle .remove files alts sh a).links a := by
  rw [handle]
  cases ht : test files sh.links sh.target with
  | true =>
    have hns : ¬Skips files sh := by
      rw [Skips, ht]
      exact Bool.noConfusion
    simp only [if_true]
    by_cases hw : Wins alts a
    · rw [if_pos ((scan_lt_iff hpos).mpr hw)]
      exact sets_ln (hwin hns hw)
    · rw [if_neg (mt (scan_lt_iff hpos).mp hw)]
      exact sets_same hw
  | false =>
    simp only [if_false, hpos, if_true, Bool.false_eq_true]
    exact sets_ln (hskip ht)

end

/-! ### Steps -/

/-- The packages are as the distribution makes them. -/
structure Wellformed (pkgs : Packages) : Prop where
  positive : ∀ p, ∀ a ∈ pkgs p, 0 < a.prio
  unshared : ∀ p q, ∀ a ∈ pkgs p, ∀ b ∈ pkgs q, a.src = b.src → p = q

/-- No other package has an alternative for the target of a removed one whose scan is skipped, and the first of the best rivals
    of a removed one that wins is not of the same package. -/
def GivesWay (pkgs : Packages) (s : State) (p : String) (files : String → Bool) (sh : Shell) (a : Alt) : Prop :=
  (Skips files sh → ∀ q ∈ s.dir, q ≠ p → ∀ c ∈ pkgs q, c.target ≠ a.target) ∧
    (¬Skips files sh → Wins (s.alts pkgs) a → ∀ b ∈ bestRival (s.alts pkgs) a, b ∉ pkgs p)

/-- Where two alternatives of a package tie at the top, one of another package does too. -/
def TiesWithOld (pkgs : Packages) (s : State) (p : String) (alts : List Alt) : Prop :=
  ∀ a ∈ pkgs p, ∀ b ∈ pkgs p, b.target = a.target → b.prio = a.prio → b.src ≠ a.src → Top alts a →
    ∃ c ∈ s.alts pkgs, c.target = a.target ∧ c.prio = a.prio

/-- No other source ties with an alternative of the package that is linked. -/
def NoTie (pkgs : Packages) (s : State) (p : String) : Prop :=
  ∀ a ∈ pkgs p, s.links a.target = some a.src → Top (s.alts pkgs) a →
    ∀ b ∈ s.alts pkgs, b.target = a.target → b.prio = a.prio → b.src = a.src

/-- The condition on a step, in the state before it. An installed alternative whose scan is skipped is the best of its target. -/
def Meets (pkgs : Packages) (s : State) : Op → Prop
  | .install p files =>
    let alts := State.alts pkgs { s with dir := place s.dir p }
    Handles .install files alts (fun sh a => Skips files sh → Best alts a.target a.src) { links := s.links } (pkgs p) ∧
      (p ∈ s.dir ∨ TiesWithOld pkgs s p alts)
  | .remove p files => p ∈ s.dir →
    Handles .remove files (s.alts pkgs) (GivesWay pkgs s p files) { links := s.links } (pkgs p) ∧ NoTie pkgs s p

section
variable (pkgs : Packages) (s : State) (p : String) (files : String → Bool) (sh : Shell) (a : Alt) (alts : List Alt)

instance : Decidable (GivesWay pkgs s p files sh a) := inferInstanceAs (Decidable (_ ∧ _))
instance : Decidable (TiesWithOld pkgs s p alts) := inferInstanceAs (Decidable (∀ a ∈ pkgs p, ∀ b ∈ pkgs p, _))
instance : Decidable (NoTie pkgs s p) := inferInstanceAs (Decidable (∀ a ∈ pkgs p, _))

instance : (op : Op) → Decidable (Meets pkgs s op)
  | .install _ _ => inferInstanceAs (Decidable (_ ∧ _))
  | .remove p files => inferInstanceAs (Decidable (p ∈ s.dir →
    Handles .remove files (s.alts pkgs) (GivesWay pkgs s p files) { links := s.links } (pkgs p) ∧ NoTie pkgs s p))

end

section
variable {pkgs : Packages} {s : State} {p t : String} {files : String → Bool}

theorem mem_alts {a : Alt} : a ∈ s.alts pkgs ↔ ∃ q ∈ s.dir, a ∈ pkgs q := List.mem_flatMap

theorem mem_place {dir : List String} {q : String} : q ∈ place dir p ↔ q = p ∨ q ∈ dir := by
  simp only [place, List.mem_append, List.mem_cons, List.mem_filter, decide_eq_true_eq, ne_eq]
  by_cases hlt : fileName q < fileName p <;> by_cases heq : q = p <;> simp [hlt, heq]

example : place ["vim-full"] "vim" = ["vim-full", "vim"] := by decide

/-- What serves a target depends only on which alternatives are installed for it. -/
theorem Serves.congr {alts alts' : List Alt} {d : String} (h : Serves alts t d)
    (heq : ∀ a, a.target = t → (a ∈ alts ↔ a ∈ alts')) : Serves alts' t d := by
  rcases h with ⟨a, ha, ht, hs, htop⟩ | ⟨hnone, hd⟩
  · refine Or.inl ⟨a, (heq a ht).mp ha, ht, hs, fun b hb hbt => ?_⟩
    exact htop b ((heq b (hbt.trans ht)).mpr hb) hbt
  · exact Or.inr ⟨fun b hb hbt => hnone b ((heq b hbt).mpr hb) hbt, hd⟩

/-- An alternative of highest priority is still served when others of at most its priority come. -/
theorem Serves.grow {alts alts' : List Alt} {c : Alt} {d : String} (h : Serves alts c.target d) (hsub : ∀ a ∈ alts, a ∈ alts')
    (hc : c ∈ alts) (htop : Top alts' c) : Serves alts' c.target d := by
  rcases h with ⟨a, ha, ht, hs, hta⟩ | ⟨hnone, -⟩
  · refine Or.inl ⟨a, hsub a ha, ht, hs, fun b hb hbt => ?_⟩
    have h1 := htop b hb (hbt.trans ht)
    have h2 := hta c hc ht.symm
    omega
  · exact absurd rfl (hnone c hc)

/-- Where the new package wins none of its alternatives for a target, an old alternative is of highest priority. -/
theorem exists_top_old {alts old : List Alt} (hno : ∀ a ∈ pkgs p, a.target = t → ¬Wins alts a)
    (htie : ∀ a ∈ pkgs p, ∀ b ∈ pkgs p, b.target = a.target → b.prio = a.prio → b.src ≠ a.src → Top alts a →
      ∃ c ∈ old, c.target = a.target ∧ c.prio = a.prio)
    (halts : ∀ a, a ∈ alts ↔ a ∈ pkgs p ∨ a ∈ old) {a : Alt} (ha : a ∈ pkgs p) (hat : a.target = t) :
    ∃ c ∈ old, c.target = t ∧ Top alts c := by
  have heqtop : ∀ {b c : Alt}, Top alts b → c.target = b.target → c.prio = b.prio → Top alts c := by
    intro b c htop ht hp e he het
    rw [hp]
    exact htop e he (het.trans ht)
  obtain ⟨b, hb, hbt, htop⟩ := exists_top ((halts a).mpr (Or.inl ha))
  rcases (halts b).mp hb with hbp | hbo
  · have hlose := hno b hbp (hbt.trans hat)
    simp only [Wins, not_forall, Nat.not_lt] at hlose
    obtain ⟨e, he, het, hes, hle⟩ := hlose
    have hprio : e.prio = b.prio := Nat.le_antisymm (htop e he het) hle
    rcases (halts e).mp he with hep | heo
    · obtain ⟨c, hc, hct, hcp⟩ := htie b hbp e hep het hprio hes htop
      exact ⟨c, hc, hct.trans (hbt.trans hat), heqtop htop hct hcp⟩
    · exact ⟨e, heo, het.trans (hbt.trans hat), heqtop htop het hprio⟩
  · exact ⟨b, hbo, hbt.trans hat, htop⟩

/-- An installation keeps the targets served, and serves those of the package. -/
theorem served_install (hw : Wellformed pkgs) (hm : Meets pkgs s (.install p files))
    (hs : ∀ t, (∃ a ∈ s.alts pkgs, a.target = t) → Served pkgs s t)
    (ht : Served pkgs s t ∨ ∃ a ∈ pkgs p, a.target = t) : Served pkgs (step pkgs s (.install p files)) t := by
  obtain ⟨hh, htie⟩ := hm
  have hin : p ∈ place s.dir p := mem_place.mpr (Or.inl rfl)
  have halts : ∀ a, a ∈ State.alts pkgs { s with dir := place s.dir p } ↔ a ∈ pkgs p ∨ a ∈ s.alts pkgs := by
    intro a
    simp only [mem_alts, mem_place]
    constructor
    · rintro ⟨q, rfl | hq, ha⟩
      · exact Or.inl ha
      · exact Or.inr ⟨q, hq, ha⟩
    · rintro (ha | ⟨q, hq, ha⟩)
      · exact ⟨p, Or.inl rfl, ha⟩
      · exact ⟨q, Or.inr hq, ha⟩
  rw [step, updateAlternatives, if_pos hin]
  have hfold := foldl_handle (fun sh a ha h => sets_install (hw.positive p a ha) ((halts a).mpr (Or.inl ha)) h) hh t
  rcases hfold with ⟨d, hd, hbest⟩ | ⟨heq, hno⟩
  · exact ⟨d, hd, Or.inl hbest⟩
  by_cases hnew : p ∉ s.dir ∧ ∃ a ∈ pkgs p, a.target = t
  · obtain ⟨hp, a, ha, hat⟩ := hnew
    obtain ⟨c, hc, hct, htop⟩ := exists_top_old hno (htie.resolve_left hp) halts ha hat
    obtain ⟨d, hd, hserves⟩ := hs t ⟨c, hc, hct⟩
    subst hct
    exact ⟨d, heq.trans hd, hserves.grow (fun a ha => (halts a).mpr (Or.inr ha)) hc htop⟩
  · have hsame : ∀ a, a.target = t → a ∈ pkgs p → a ∈ s.alts pkgs := by
      intro a hat ha
      have hp : p ∈ s.dir := by
        by_contra hp
        exact hnew ⟨hp, a, ha, hat⟩
      exact mem_alts.mpr ⟨p, hp, ha⟩
    obtain ⟨d, hd, hserves⟩ : Served pkgs s t := by
      rcases ht with ht | ⟨a, ha, hat⟩
      · exact ht
      · exact hs t ⟨a, hsame a hat ha, hat⟩
    exact ⟨d, heq.trans hd, hserves.congr fun a hat =>
      ⟨fun ha => (halts a).mpr (Or.inr ha), fun ha => ((halts a).mp ha).elim (hsame a hat) id⟩⟩

/-- The system without a package. -/
def State.without (s : State) (p : String) : State := { s with dir := s.dir.filter (· ≠ p) }

theorem mem_without {a : Alt} : a ∈ (s.without p).alts pkgs ↔ ∃ q ∈ s.dir, q ≠ p ∧ a ∈ pkgs q := by
  simp [mem_alts, State.without, and_assoc]

/-- What the scan finds for an alternative that wins takes its place, unless it is of the same package. -/
theorem serves_scan (hw : Wellformed pkgs) {a : Alt} {target : String} (ha : a ∈ pkgs p)
    (hother : ∀ b ∈ bestRival (s.alts pkgs) a, b ∉ pkgs p) :
    Serves ((s.without p).alts pkgs) a.target (scan a { target } (s.alts pkgs)).bestSrc := by
  have hrival : ∀ c ∈ (s.without p).alts pkgs, c.target = a.target → c ∈ (s.alts pkgs).filter (Rival a ·) := by
    intro c hc hct
    obtain ⟨q, hq, hne, hcq⟩ := mem_without.mp hc
    have hr : Rival a c := ⟨hct, fun hsrc => hne (hw.unshared q p c hcq a ha hsrc)⟩
    exact List.mem_filter.mpr ⟨mem_alts.mpr ⟨q, hq, hcq⟩, by simpa using hr⟩
  rw [scan_bestSrc]
  cases hbest : bestRival (s.alts pkgs) a with
  | none =>
    refine Or.inr ⟨fun c hc hct => ?_, rfl⟩
    have hmem := hrival c hc hct
    rw [List.argmax_eq_none.mp hbest] at hmem
    cases hmem
  | some b =>
    have hmem := List.mem_filter.mp (List.argmax_mem hbest)
    have hr : Rival a b := by simpa using hmem.2
    obtain ⟨q, hq, hbq⟩ := mem_alts.mp hmem.1
    have hne : q ≠ p := by
      rintro rfl
      exact hother b hbest hbq
    have hpos := hw.positive q b hbq
    dsimp only
    rw [if_pos hpos]
    exact Or.inl ⟨b, mem_without.mpr ⟨q, hq, hne, hbq⟩, hr.1, rfl,
      fun c hc hct => List.le_of_mem_argmax (hrival c hc (hct.trans hr.1)) hbest⟩

/-- A target that a removal leaves as it is is still served. -/
theorem serves_left {d : String} (h : Serves (s.alts pkgs) t d) (hno : ∀ a ∈ pkgs p, a.target = t → ¬Wins (s.alts pkgs) a)
    (htie : ∀ a ∈ pkgs p, a.target = t → a.src = d → Top (s.alts pkgs) a →
      ∀ b ∈ s.alts pkgs, b.target = a.target → b.prio = a.prio → b.src = a.src) :
    Serves ((s.without p).alts pkgs) t d := by
  have hsub : ∀ a ∈ (s.without p).alts pkgs, a ∈ s.alts pkgs := by
    intro a ha
    obtain ⟨q, hq, -, haq⟩ := mem_without.mp ha
    exact mem_alts.mpr ⟨q, hq, haq⟩
  rcases h with ⟨a, ha, hat, had, htop⟩ | ⟨hnone, hd⟩
  · obtain ⟨q, hq, haq⟩ := mem_alts.mp ha
    by_cases hqp : q = p
    · subst hqp
      refine absurd (fun b hb hbt hbs => ?_) (hno a haq hat)
      exact Nat.lt_of_le_of_ne (htop b hb hbt) fun hp => hbs (htie a haq hat had htop b hb hbt hp)
    · exact Or.inl ⟨a, mem_without.mpr ⟨q, hq, hqp, haq⟩, hat, had, fun b hb => htop b (hsub b hb)⟩
  · exact Or.inr ⟨fun b hb => hnone b (hsub b hb), hd⟩

/-- A removal keeps the targets served. -/
theorem served_remove (hw : Wellformed pkgs) (hm : Meets pkgs s (.remove p files)) (ht : Served pkgs s t) :
    Served pkgs (step pkgs s (.remove p files)) t := by
  obtain ⟨d, hd, hserves⟩ := ht
  rw [step, updateAlternatives]
  by_cases hp : p ∈ s.dir
  · obtain ⟨hh, htie⟩ := hm hp
    rw [if_pos hp]
    have hfold := foldl_handle (G := Serves ((s.without p).alts pkgs)) (fun sh a ha h =>
      sets_remove (hw.positive p a ha) (fun hsk => Or.inr ⟨?_, rfl⟩) fun hns hwin => serves_scan hw ha (h.2 hns hwin)) hh t
    · rcases hfold with hset | ⟨heq, hno⟩
      · exact hset
      · refine ⟨d, heq.trans hd, serves_left hserves hno fun a ha hat had => htie a ha ?_⟩
        rw [hat, had]
        exact hd
    · intro c hc hct
      obtain ⟨q, hq, hne, hcq⟩ := mem_without.mp hc
      exact h.1 hsk q hq hne c hcq hct
  · rw [if_neg hp]
    refine ⟨d, hd, hserves.congr fun a _ => ?_⟩
    have hne : ∀ q ∈ s.dir, q ≠ p := by
      rintro q hq rfl
      exact hp hq
    rw [← State.without, mem_alts, mem_without]
    exact ⟨fun ⟨q, hq, ha⟩ => ⟨q, hq, hne q hq, ha⟩, fun ⟨q, hq, _, ha⟩ => ⟨q, hq, ha⟩⟩

end

/-! ### Runs -/

/-- A target of a package that was installed at some time. -/
def Named (pkgs : Packages) (ops : List Op) (t : String) : Prop :=
  ∃ p files, Op.install p files ∈ ops ∧ ∃ a ∈ pkgs p, a.target = t

/-- Every step of the run meets the condition. -/
def AllMeet (pkgs : Packages) (links : Links) (ops : List Op) : Prop :=
  ∀ pre op post, ops = pre ++ op :: post → Meets pkgs (run pkgs links pre) op

theorem run_append (pkgs : Packages) (links : Links) (ops : List Op) (op : Op) :
    run pkgs links (ops ++ [op]) = step pkgs (run pkgs links ops) op := by
  rw [run, List.foldl_append, ← run, List.foldl_cons, List.foldl_nil]

theorem dir_install {pkgs : Packages} {s : State} {p : String} {files : String → Bool} :
    (step pkgs s (.install p files)).dir = place s.dir p := by
  rw [step, updateAlternatives, if_pos (mem_place.mpr (Or.inl rfl))]

theorem dir_remove {pkgs : Packages} {s : State} {p : String} {files : String → Bool} :
    (step pkgs s (.remove p files)).dir = s.dir.filter (· ≠ p) := by
  rw [step, updateAlternatives]
  split <;> rfl

/-- The installed packages are among those that were installed at some time. -/
theorem named_of_mem {pkgs : Packages} {links : Links} {ops : List Op} {p : String} (h : p ∈ (run pkgs links ops).dir) :
    ∃ files, Op.install p files ∈ ops := by
  induction ops using List.reverseRecOn with
  | nil => cases h
  | append_singleton ops op ih =>
    rw [run_append] at h
    have hold : p ∈ (run pkgs links ops).dir → ∃ files, Op.install p files ∈ ops ++ [op] := by
      intro hp
      obtain ⟨files, hf⟩ := ih hp
      exact ⟨files, List.mem_append_left _ hf⟩
    cases op with
    | install q files =>
      rw [dir_install] at h
      rcases mem_place.mp h with rfl | hp
      · exact ⟨files, by simp⟩
      · exact hold hp
    | remove q files =>
      rw [dir_remove] at h
      exact hold (List.mem_of_mem_filter h)

/-- In a run whose steps meet the condition, every target that was ever named is served after each step. -/
theorem run_served {pkgs : Packages} (hw : Wellformed pkgs) (links : Links) {ops : List Op} (hm : AllMeet pkgs links ops) :
    ∀ done rest, ops = done ++ rest → ∀ t, Named pkgs done t → Served pkgs (run pkgs links done) t := by
  intro done
  induction done using List.reverseRecOn with
  | nil =>
    rintro rest - t ⟨p, files, hmem, -⟩
    cases hmem
  | append_singleton done op ih =>
    intro rest heq t hn
    rw [List.append_assoc] at heq
    have hs := ih _ heq
    have hmeet := hm done op rest heq
    have hin : ∀ t, (∃ a ∈ (run pkgs links done).alts pkgs, a.target = t) → Served pkgs (run pkgs links done) t := by
      rintro t ⟨a, ha, hat⟩
      obtain ⟨q, hq, haq⟩ := mem_alts.mp ha
      obtain ⟨files, hf⟩ := named_of_mem hq
      exact hs t ⟨q, files, hf, a, haq, hat⟩
    rw [run_append]
    obtain ⟨p, files, hmem, a, ha, hat⟩ := hn
    rw [List.mem_append, List.mem_singleton] at hmem
    cases op with
    | install q qfiles =>
      refine served_install hw hmeet hin ?_
      rcases hmem with hmem | heq
      · exact Or.inl (hs t ⟨p, files, hmem, a, ha, hat⟩)
      · cases heq
        exact Or.inr ⟨a, ha, hat⟩
    | remove q qfiles =>
      rcases hmem with hmem | heq
      · exact served_remove hw hmeet (hs t ⟨p, files, hmem, a, ha, hat⟩)
      · cases heq

/-! ### Sample packages -/

def samples (p : String) : List Alt :=
  if p = "coreutils" then [⟨300, "/usr/bin/cat", "/usr/libexec/cat-coreutils"⟩]
  else if p = "sbase" then [⟨300, "/usr/bin/cat", "/usr/libexec/cat-sbase"⟩]
  else if p = "toolbox" then [⟨100, "/usr/bin/ls", "/usr/libexec/ls-toolbox"⟩, ⟨100, "/usr/bin/cat", "/usr/libexec/cat-toolbox"⟩,
    ⟨100, "/usr/bin/tac", "/usr/libexec/tac-toolbox"⟩]
  else []

/-- The sources, which all exist. -/
def sampleFiles (path : String) : Bool := path ∈ [busybox, "/usr/libexec/cat-coreutils", "/usr/libexec/cat-sbase",
  "/usr/libexec/ls-toolbox", "/usr/libexec/cat-toolbox", "/usr/libexec/tac-toolbox"]

theorem samples_wellformed : Wellformed samples where
  positive p a ha := by
    simp only [samples] at ha
    grind
  unshared p q a ha b hb h := by
    simp only [samples] at ha hb
    grind

/-- What is linked is exceeded, or of no installed alternative. -/
theorem not_served_of {pkgs : Packages} {s : State} {t d : String} {c : Alt} (hd : s.links t = some d) (hc : c ∈ s.alts pkgs)
    (hct : c.target = t) (hno : ∀ a ∈ s.alts pkgs, a.target = t → a.src = d → a.prio < c.prio) : ¬Served pkgs s t := by
  rintro ⟨d', hd', hs⟩
  obtain rfl := Option.some.inj (hd.symm.trans hd')
  rcases hs with ⟨a, ha, hat, had, htop⟩ | ⟨hnone, -⟩
  · have hle := htop c hc (hct.trans hat.symm)
    have hlt := hno a ha hat had
    omega
  · exact hnone c hc hct

def coreutilsCat : Alt := ⟨300, "/usr/bin/cat", "/usr/libexec/cat-coreutils"⟩
def sbaseCat : Alt := ⟨300, "/usr/bin/cat", "/usr/libexec/cat-sbase"⟩

/-- `/usr/bin/tac`, the last target of the last file, does not exist when the second alternative of `toolbox` is handled. So
    the one of `coreutils`, with a higher priority, is not found. And when `coreutils` goes, what ties with it is not linked. -/
theorem not_served : Wellformed samples ∧
    (Named samples [.install "coreutils" sampleFiles, .install "toolbox" sampleFiles] "/usr/bin/cat" ∧
      ¬Served samples (run samples (fun _ => none) [.install "coreutils" sampleFiles, .install "toolbox" sampleFiles]) "/usr/bin/cat") ∧
    (Named samples [.install "coreutils" sampleFiles, .install "sbase" sampleFiles, .remove "coreutils" sampleFiles] "/usr/bin/cat" ∧
      ¬Served samples (run samples (fun _ => none) [.install "coreutils" sampleFiles, .install "sbase" sampleFiles,
        .remove "coreutils" sampleFiles]) "/usr/bin/cat") := by
  have hcat : coreutilsCat ∈ samples "coreutils" := by decide
  refine ⟨samples_wellformed, ⟨⟨"coreutils", sampleFiles, by simp, coreutilsCat, hcat, rfl⟩, ?_⟩,
    ⟨"coreutils", sampleFiles, by simp, coreutilsCat, hcat, rfl⟩, ?_⟩
  · refine not_served_of (d := "/usr/libexec/cat-toolbox") (c := coreutilsCat) ?_ ?_ rfl ?_ <;> decide
  · refine not_served_of (d := "/usr/libexec/cat-coreutils") (c := sbaseCat) ?_ ?_ rfl ?_ <;> decide

/-- `coreutils` takes over from `toolbox` and gives back. -/
theorem run_served_samples : Wellformed samples ∧
    Served samples (run samples (fun _ => none) [.install "toolbox" sampleFiles, .install "coreutils" sampleFiles,
      .remove "coreutils" sampleFiles]) "/usr/bin/cat" := by
  refine ⟨samples_wellformed, ?_⟩
  have hm : AllMeet samples (fun _ => none) [.install "toolbox" sampleFiles, .install "coreutils" sampleFiles,
      .remove "coreutils" sampleFiles] := by
    intro pre op post h
    match pre with
    | [] =>
      obtain ⟨rfl, -⟩ := List.cons.inj h
      decide
    | [_] =>
      simp only [List.cons_append, List.nil_append, List.cons.injEq] at h
      obtain ⟨rfl, rfl, -⟩ := h
      decide
    | [_, _] =>
      simp only [List.cons_append, List.nil_append, List.cons.injEq] at h
      obtain ⟨rfl, rfl, rfl, -⟩ := h
      decide
    | _ :: _ :: _ :: _ => simp at h
  exact run_served samples_wellformed (fun _ => none) hm _ [] (List.append_nil _).symm _
    ⟨"coreutils", sampleFiles, by simp, coreutilsCat, by decide, rfl⟩

end RainWrt.Alternatives
