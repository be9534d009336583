import RainWrt.BaseFiles.Words

/-! The fields of a text: what they consist of, and what is read from each of them. -/

namespace RainWrt.BaseFiles

theorem fieldsFrom_append_ifs {c : Char} (hc : isIfs c = true) (b : Text) :
    ∀ (word a : Text), fieldsFrom word (a ++ c :: b) = fieldsFrom word a ++ fields b
  | word, [] => by
    by_cases hw : word = [] <;> simp [fieldsFrom, fields, hc, hw]
  | word, d :: a => by
    by_cases hd : isIfs d = true
    · have ih := fieldsFrom_append_ifs hc b [] a
      by_cases hw : word = [] <;> simp [fieldsFrom, hd, hw, ih]
    · simp [fieldsFrom, hd, fieldsFrom_append_ifs hc b (word ++ [d]) a]

theorem fields_append_ifs {c : Char} (hc : isIfs c = true) (a b : Text) : fields (a ++ c :: b) = fields a ++ fields b :=
  fieldsFrom_append_ifs hc b [] a

theorem fieldsFrom_of_not_ifs : ∀ {word s : Text}, word ++ s ≠ [] → (∀ c ∈ s, isIfs c = false) → fieldsFrom word s = [word ++ s]
  | word, [], hne, _ => by
    rw [List.append_nil] at hne
    simp [fieldsFrom, hne]
  | word, c :: s, _, hs => by
    have hc := hs c List.mem_cons_self
    have ih := @fieldsFrom_of_not_ifs (word ++ [c]) s (by simp) fun d hd => hs d (List.mem_cons_of_mem c hd)
    simpa [fieldsFrom, hc] using ih

/-- A text without separators is one field. -/
theorem fields_of_not_ifs {s : Text} (hne : s ≠ []) (hs : ∀ c ∈ s, isIfs c = false) : fields s = [s] :=
  fieldsFrom_of_not_ifs (by simpa using hne) hs

theorem mem_fieldsFrom {f : Text} : ∀ {word s : Text}, f ∈ fieldsFrom word s → (∀ c ∈ word, isIfs c = false) →
    f ≠ [] ∧ ∀ c ∈ f, (c ∈ word ∨ c ∈ s) ∧ isIfs c = false
  | word, [], hf, hword => by
    by_cases hw : word = []
    · simp [fieldsFrom, hw] at hf
    · rw [fieldsFrom, if_neg hw, List.mem_singleton] at hf
      subst hf
      exact ⟨hw, fun c hc => ⟨Or.inl hc, hword c hc⟩⟩
  | word, d :: s, hf, hword => by
    rw [fieldsFrom] at hf
    have hrest : f ∈ fieldsFrom [] s → f ≠ [] ∧ ∀ c ∈ f, (c ∈ word ∨ c ∈ d :: s) ∧ isIfs c = false := fun h => by
      obtain ⟨hne, hmem⟩ := mem_fieldsFrom h (by simp)
      refine ⟨hne, fun c hc => ?_⟩
      obtain ⟨hc, hifs⟩ := hmem c hc
      simp only [List.not_mem_nil, false_or] at hc
      exact ⟨Or.inr (List.mem_cons_of_mem d hc), hifs⟩
    by_cases hd : isIfs d = true
    · rw [if_pos hd] at hf
      by_cases hw : word = []
      · rw [if_pos hw] at hf
        exact hrest hf
      · rw [if_neg hw, List.mem_cons] at hf
        rcases hf with rfl | hf
        · exact ⟨hw, fun c hc => ⟨Or.inl hc, hword c hc⟩⟩
        · exact hrest hf
    · rw [if_neg hd] at hf
      have hd : isIfs d = false := by simpa using hd
      obtain ⟨hne, hmem⟩ := mem_fieldsFrom hf (by simpa [or_imp, forall_and, hd] using hword)
      refine ⟨hne, fun c hc => ?_⟩
      obtain ⟨hc, hifs⟩ := hmem c hc
      simp only [List.mem_append, List.mem_cons] at hc ⊢
      exact ⟨by tauto, hifs⟩

theorem mem_fields {f s : Text} (hf : f ∈ fields s) : f ≠ [] ∧ ∀ c ∈ f, c ∈ s ∧ isIfs c = false := by
  obtain ⟨hne, hmem⟩ := mem_fieldsFrom hf (by simp)
  exact ⟨hne, fun c hc => by simpa using hmem c hc⟩

section
variable {α : Type} {g : Text → List α}

/-- What reads the text on both sides of a separator by itself reads a text field by field. -/
theorem flatMap_fieldsFrom (hnil : g [] = []) (hg : ∀ a b c, isIfs c = true → g (a ++ c :: b) = g a ++ g b) :
    ∀ word s : Text, (fieldsFrom word s).flatMap g = g (word ++ s)
  | word, [] => by
    by_cases hw : word = [] <;> simp [fieldsFrom, hw, hnil]
  | word, c :: s => by
    rw [fieldsFrom]
    by_cases hc : isIfs c = true
    · have ih := flatMap_fieldsFrom hnil hg [] s
      rw [List.nil_append] at ih
      rw [if_pos hc, hg word s c hc]
      by_cases hw : word = [] <;> simp [hw, ih, hnil]
    · have ih := flatMap_fieldsFrom hnil hg (word ++ [c]) s
      rw [if_neg hc, ih, List.append_assoc, List.singleton_append]

theorem flatMap_fields (hnil : g [] = []) (hg : ∀ a b c, isIfs c = true → g (a ++ c :: b) = g a ++ g b) (s : Text) :
    (fields s).flatMap g = g s :=
  flatMap_fieldsFrom hnil hg [] s

theorem flatMap_joined (hnil : g [] = []) (hg : ∀ a b c, isIfs c = true → g (a ++ c :: b) = g a ++ g b) :
    ∀ l : List Text, g ([' '].intercalate l) = l.flatMap g
  | [] => hnil
  | [f] => by simp
  | f :: f' :: l => by
    have ih := flatMap_joined hnil hg (f' :: l)
    rw [List.intercalate_cons_cons, List.append_assoc, List.singleton_append, hg f _ ' ' rfl, ih]
    exact (List.flatMap_cons ..).symm

end

/-- Every other character is in a field. -/
theorem exists_field {s : Text} {c : Char} (hc : c ∈ s) (hifs : isIfs c = false) : ∃ f ∈ fields s, c ∈ f := by
  have hsplit := flatMap_fields (g := fun f => f.filter fun c => !isIfs c) rfl (fun a b c hc => by simp [hc]) s
  have hmem : c ∈ s.filter fun c => !isIfs c := by simp [hc, hifs]
  rw [← hsplit, List.mem_flatMap] at hmem
  obtain ⟨f, hf, hcf⟩ := hmem
  exact ⟨f, hf, List.mem_of_mem_filter hcf⟩

/-- Fields joined with blanks are split again. -/
theorem fields_joined {l : List Text} (h : ∀ f ∈ l, f ≠ [] ∧ ∀ c ∈ f, isIfs c = false) : fields ([' '].intercalate l) = l := by
  have hfields := flatMap_joined (g := fields) rfl (fun a b c hc => fields_append_ifs hc a b) l
  rw [hfields]
  clear hfields
  induction l with
  | nil => rfl
  | cons f l ih =>
    obtain ⟨hne, hf⟩ := h f List.mem_cons_self
    rw [List.flatMap_cons, fields_of_not_ifs hne hf, ih fun f hf => h f (List.mem_cons_of_mem _ hf), List.singleton_append]

theorem substitute_of_not_mem {s : Text} (h : '\n' ∉ s) : substitute s = s := by
  have hdrop : s.reverse.dropWhile (· = '\n') = s.reverse := by
    cases hrev : s.reverse with
    | nil => rfl
    | cons c t =>
      have hc : c ≠ '\n' := fun hc => h (by rw [← List.mem_reverse, hrev, hc]; exact List.mem_cons_self)
      simp [hc]
  rw [substitute, hdrop, List.reverse_reverse]

theorem mem_intercalate {l : List Text} {s : Text} {c : Char} (hc : c ∈ s.intercalate l) : c ∈ s ∨ ∃ f ∈ l, c ∈ f := by
  induction l with
  | nil => cases hc
  | cons f l ih =>
    cases l with
    | nil => exact Or.inr ⟨f, by simp, by simpa using hc⟩
    | cons f' l =>
      rw [List.intercalate_cons_cons, List.append_assoc, List.mem_append, List.mem_append] at hc
      rcases hc with hc | hc | hc
      · exact Or.inr ⟨f, by simp, hc⟩
      · exact Or.inl hc
      · exact (ih hc).imp_right fun ⟨g, hg, hcg⟩ => ⟨g, List.mem_cons_of_mem f hg, hcg⟩

theorem mem_joined {l : List Text} {c : Char} (hc : c ∈ [' '].intercalate l) : c = ' ' ∨ ∃ f ∈ l, c ∈ f :=
  (mem_intercalate hc).imp_left List.mem_singleton.mp

/-! ### Replacement -/

section
variable {pattern rep s : Text}

theorem replaceFrom_of_not_infix (h : ¬pattern <:+: s) : replaceFrom pattern rep 0 s = s := by
  induction s with
  | nil => rfl
  | cons c s ih =>
    have hstarts : pattern.isPrefixOf (c :: s) = false := by
      rw [Bool.eq_false_iff]
      exact fun hp => h (List.isPrefixOf_iff_prefix.mp hp).isInfix
    rw [replaceFrom, if_neg (by simp [hstarts]), ih fun hs => h (hs.trans (List.suffix_cons c s).isInfix)]

theorem replaceFrom_skip (s : Text) : ∀ skip, replaceFrom pattern rep skip s = replaceFrom pattern rep 0 (s.drop skip) := by
  induction s with
  | nil => intro skip; cases skip <;> rfl
  | cons c s ih =>
    intro skip
    cases skip with
    | zero => rfl
    | succ skip => exact ih skip

theorem replaceFrom_starts (hne : pattern ≠ []) (s : Text) : replaceFrom pattern rep 0 (pattern ++ s) = rep ++ replaceFrom pattern rep 0 s := by
  obtain ⟨c, p, rfl⟩ := List.exists_cons_of_ne_nil hne
  have hstarts : (c :: p).isPrefixOf (c :: (p ++ s)) = true := List.isPrefixOf_iff_prefix.mpr ⟨s, rfl⟩
  rw [List.cons_append, replaceFrom, if_pos hstarts, replaceFrom_skip, List.length_cons, Nat.add_sub_cancel, List.drop_left]

/-- The whole text is a match. -/
theorem replaceFrom_self (hne : pattern ≠ []) : replaceFrom pattern rep 0 pattern = rep := by
  have h := @replaceFrom_starts pattern rep hne []
  rw [List.append_nil] at h
  exact h.trans (List.append_nil rep)

theorem length_le_replaceFrom (hne : pattern ≠ []) (hrep : pattern.length ≤ rep.length) : ∀ (skip : Nat) (s : Text),
    s.length ≤ (replaceFrom pattern rep skip s).length + skip
  | _, [] => Nat.zero_le _
  | skip + 1, c :: s => by
    have ih := length_le_replaceFrom hne hrep skip s
    rw [replaceFrom, List.length_cons]
    omega
  | 0, c :: s => by
    rw [replaceFrom]
    split_ifs
    · have ih := length_le_replaceFrom hne hrep (pattern.length - 1) s
      have hpos := List.length_pos_of_ne_nil hne
      rw [List.length_append, List.length_cons]
      omega
    · have ih := length_le_replaceFrom hne hrep 0 s
      rw [List.length_cons, List.length_cons]
      omega

/-- A replacement that is longer than the pattern makes a text longer. -/
theorem length_lt_replaceFrom (hne : pattern ≠ []) (hrep : pattern.length < rep.length) (h : pattern <:+: s) :
    s.length < (replaceFrom pattern rep 0 s).length := by
  induction s with
  | nil => exact absurd (List.infix_nil.mp h) hne
  | cons c s ih =>
    have hpos := List.length_pos_of_ne_nil hne
    rw [replaceFrom]
    split_ifs with hstarts
    · have hle := length_le_replaceFrom hne (Nat.le_of_lt hrep) (pattern.length - 1) s
      rw [List.length_append, List.length_cons]
      omega
    · have hs : pattern <:+: s := by
        rcases List.infix_cons_iff.mp h with hp | hs
        · exact absurd (List.isPrefixOf_iff_prefix.mpr hp) hstarts
        · exact hs
      have ih := ih hs
      rw [List.length_cons, List.length_cons]
      omega

end

end RainWrt.BaseFiles
