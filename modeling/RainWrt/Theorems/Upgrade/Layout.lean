import RainWrt.Upgrade.Layout
import RainWrt.Theorems.Lists
import RainWrt.Theorems.Upgrade.Shell

/-! When the two detectors of the merged layout agree. -/

namespace RainWrt.Upgrade

/-! ### Digits -/

theorem mem_toDigits {b n : Nat} {c : Char} (hb : 1 < b) (hc : c ∈ Nat.toDigits b n) : ∃ k, c = Nat.digitChar k := by
  induction n using Nat.strong_induction_on with
  | _ n ih =>
    rw [Nat.toDigits_eq_if hb] at hc
    split at hc
    · exact ⟨n, List.mem_singleton.mp hc⟩
    · rename_i hn
      rcases List.mem_append.mp hc with hc | hc
      · exact ih (n / b) (Nat.div_lt_self (by omega) hb) hc
      · exact ⟨n % b, List.mem_singleton.mp hc⟩

/-- A digit is none of the characters that separate fields. -/
theorem digitChar_ne (k : Nat) : isSpaceClass (Nat.digitChar k) = false ∧ Nat.digitChar k ≠ '"' ∧ Nat.digitChar k ≠ ':' := by
  by_cases hk : k < 16
  · interval_cases k <;> decide
  · have : Nat.digitChar k = '*' := by
      unfold Nat.digitChar
      simp only [show k ≠ 0 by omega, show k ≠ 1 by omega, show k ≠ 2 by omega, show k ≠ 3 by omega, show k ≠ 4 by omega,
        show k ≠ 5 by omega, show k ≠ 6 by omega, show k ≠ 7 by omega, show k ≠ 8 by omega, show k ≠ 9 by omega, show k ≠ 10 by omega,
        show k ≠ 11 by omega, show k ≠ 12 by omega, show k ≠ 13 by omega, show k ≠ 14 by omega, show k ≠ 15 by omega, if_false]
    rw [this]
    decide

theorem mem_hex8 {n : Nat} {c : Char} (hc : c ∈ hex8 n) : isSpaceClass c = false ∧ c ≠ '"' := by
  rcases List.mem_append.mp hc with hc | hc
  · rw [List.eq_of_mem_replicate hc]
    decide
  · obtain ⟨k, rfl⟩ := mem_toDigits (by decide) hc
    exact ⟨(digitChar_ne k).1, (digitChar_ne k).2.1⟩

theorem hex8_ne_nil (n : Nat) : hex8 n ≠ [] := fun h => Nat.toDigits_ne_nil (List.append_eq_nil_iff.mp h).2

theorem toDigits_ten_inj {m n : Nat} : Nat.toDigits 10 m = Nat.toDigits 10 n ↔ m = n := by
  refine ⟨fun h => ?_, fun h => by rw [h]⟩
  rw [← Nat.ofDigitChars_ten_toDigits (n := m), h, Nat.ofDigitChars_ten_toDigits]

theorem isSpace_of_class {c : Char} (h : isSpaceClass c = false) : isSpace c = false := by
  cases hs : isSpace c
  · rfl
  · simp only [isSpace, Bool.or_eq_true, beq_iff_eq] at hs
    rcases hs with (rfl | rfl) | rfl <;> cases h

/-! ### Fields of a line -/

theorem splitWords_word {cur w t : Text} (hw : ∀ c ∈ w, isSpace c = false) : splitWords cur (w ++ t) = splitWords (cur ++ w) t := by
  induction w generalizing cur with
  | nil => simp
  | cons c w ih =>
    rw [List.cons_append, splitWords, if_neg (by simp [hw c List.mem_cons_self]), ih fun x hx => hw x (List.mem_cons_of_mem _ hx)]
    simp

theorem splitWords_field {w t : Text} (hw : ∀ c ∈ w, isSpace c = false) (hne : w ≠ []) :
    splitWords [] (w ++ ' ' :: t) = w :: splitWords [] t := by
  rw [splitWords_word hw, List.nil_append, splitWords, if_pos (by rfl), if_neg hne]

theorem splitWords_last {w : Text} (hw : ∀ c ∈ w, isSpace c = false) (hne : w ≠ []) : splitWords [] w = [w] := by
  have : splitWords [] (w ++ []) = splitWords ([] ++ w) [] := splitWords_word hw
  rw [List.append_nil] at this
  rw [this, List.nil_append, splitWords, if_neg hne]

namespace MtdEntry

/-- A name without quotes and whitespace. -/
def Plain (e : MtdEntry) : Prop := ∀ c ∈ e.name, c ≠ '"' ∧ isSpaceClass c = false

variable {e : MtdEntry}

theorem mem_dev {c : Char} (hc : c ∈ e.dev) : isSpaceClass c = false ∧ c ≠ '"' := by
  simp only [dev, List.mem_append] at hc
  rcases hc with (hc | hc) | hc
  · exact forall_mem_of_all (fun c => isSpaceClass c = false ∧ c ≠ '"') (by decide) c hc
  · obtain ⟨k, rfl⟩ := mem_toDigits (by decide) hc
    exact ⟨(digitChar_ne k).1, (digitChar_ne k).2.1⟩
  · exact forall_mem_of_all (fun c => isSpaceClass c = false ∧ c ≠ '"') (by decide) c hc

theorem Plain.mem_quoted (he : e.Plain) {c : Char} (hc : c ∈ quoted e.name) : isSpaceClass c = false := by
  simp only [quoted, List.mem_append] at hc
  rcases hc with (hc | hc) | hc
  · exact forall_mem_of_all (fun c => isSpaceClass c = false) (by decide) c hc
  · exact (he c hc).2
  · exact forall_mem_of_all (fun c => isSpaceClass c = false) (by decide) c hc

theorem Plain.splitWords_line (he : e.Plain) : splitWords [] e.line = [e.dev, hex8 e.size, hex8 e.erasesize, quoted e.name] := by
  unfold line
  rw [splitWords_field (fun c hc => isSpace_of_class (mem_dev hc).1) (by simp [dev]),
    splitWords_field (fun c hc => isSpace_of_class (mem_hex8 hc).1) (hex8_ne_nil _),
    splitWords_field (fun c hc => isSpace_of_class (mem_hex8 hc).1) (hex8_ne_nil _),
    splitWords_last (fun c hc => isSpace_of_class (he.mem_quoted hc)) (by simp [quoted])]

theorem quoted_inj {m n : Text} : quoted m = quoted n ↔ m = n := by simp [quoted]

theorem sedIndex_line (e : MtdEntry) : sedIndex e.line = some (Nat.toDigits 10 e.index) := by
  have hline : e.line = "mtd".toList ++ (Nat.toDigits 10 e.index ++ ':' :: (' ' :: (hex8 e.size ++ ' ' :: (hex8 e.erasesize ++ ' ' :: quoted e.name)))) := by
    simp [line, dev]
  have hdigits : ((e.line.drop 3).takeWhile Char.isDigit) = Nat.toDigits 10 e.index := by
    rw [hline, show 3 = "mtd".toList.length from rfl, List.drop_left,
      List.takeWhile_append_of_pos fun c hc => Nat.isDigit_of_mem_toDigits (by decide) (by decide) hc,
      List.takeWhile_cons_of_neg (by decide), List.append_nil]
  have hcolon : (e.line.drop (3 + (Nat.toDigits 10 e.index).length)).head? = some ':' := by
    rw [hline, show 3 = "mtd".toList.length from rfl, List.drop_length_add_append, List.drop_left, List.head?_cons]
  have hmtd : "mtd".toList.isPrefixOf e.line = true := by
    rw [hline]
    rfl
  unfold sedIndex
  dsimp only
  rw [hdigits, if_pos ⟨hmtd, Nat.toDigits_ne_nil, hcolon⟩]

end MtdEntry

/-! ### Lines of the table -/

/-- Texts split at their first `a` in one way only. -/
theorem split_unique {a : Char} {x₁ x₂ z₁ z₂ : Text} (h₁ : a ∉ x₁) (h₂ : a ∉ x₂) : x₁ ++ a :: z₁ = x₂ ++ a :: z₂ ↔ x₁ = x₂ ∧ z₁ = z₂ := by
  refine ⟨fun h => ?_, fun ⟨hx, hz⟩ => by rw [hx, hz]⟩
  induction x₁ generalizing x₂ with
  | nil =>
    rcases x₂ with _ | ⟨c, x₂⟩
    · exact ⟨rfl, (List.cons.inj h).2⟩
    · exact absurd ((List.cons.inj h).1 ▸ List.mem_cons_self) h₂
  | cons c x₁ ih =>
    rcases x₂ with _ | ⟨c', x₂⟩
    · exact absurd ((List.cons.inj h).1 ▸ List.mem_cons_self) h₁
    · obtain ⟨rfl, h'⟩ := List.cons.inj h
      obtain ⟨rfl, hz⟩ := ih (fun hm => h₁ (List.mem_cons_of_mem _ hm)) (fun hm => h₂ (List.mem_cons_of_mem _ hm)) h'
      exact ⟨rfl, hz⟩

/-- A text within lines stands within one of them. -/
theorem infix_intercalate {w : Text} (hw : '\n' ∉ w) (hne : w ≠ []) {ls : List Text} (h : w <:+: ['\n'].intercalate ls) : ∃ l ∈ ls, w <:+: l := by
  induction ls with
  | nil => exact absurd (List.infix_nil.mp h) hne
  | cons l ls ih =>
    rcases ls with _ | ⟨l', ls⟩
    · exact ⟨l, List.mem_cons_self, by simpa using h⟩
    rw [List.intercalate_cons_cons] at h
    obtain ⟨a, b, hab⟩ := h
    rw [List.append_assoc, List.append_assoc] at hab
    rcases List.append_eq_append_iff.mp hab with ⟨x, rfl, hx⟩ | ⟨x, rfl, hx⟩
    · -- the text starts on the first line, and ends there too, for it holds no newline
      refine ⟨_, List.mem_cons_self, ?_⟩
      rcases List.append_eq_append_iff.mp hx with ⟨y, rfl, -⟩ | ⟨y, rfl, hy⟩
      · exact ⟨a, y, by simp⟩
      · rcases y with _ | ⟨c, y⟩
        · exact ⟨a, [], by simp⟩
        · obtain ⟨rfl, -⟩ := List.cons.inj hy
          simp at hw
    · rcases x with _ | ⟨c, x⟩
      · obtain ⟨c, w, rfl⟩ := List.exists_cons_of_ne_nil hne
        obtain ⟨rfl, -⟩ := List.cons.inj hx
        simp at hw
      · obtain ⟨-, hx⟩ := List.cons.inj hx
        obtain ⟨l, hl, hi⟩ := ih ⟨x, b, by rw [List.append_assoc]; exact hx.symm⟩
        exact ⟨l, List.mem_cons_of_mem _ hl, hi⟩

/-- Nothing is cut off at the end of lines that do not end in newlines. -/
theorem substitute_eq {ls : List Text} (h : (['\n'].intercalate ls).getLast? ≠ some '\n') : substitute ls = ['\n'].intercalate ls := by
  unfold substitute
  rcases hr : (['\n'].intercalate ls).reverse with _ | ⟨c, r⟩
  · rw [List.reverse_eq_nil_iff.mp hr]
    rfl
  · have hlast : (['\n'].intercalate ls).getLast? = some c := by rw [← List.head?_reverse, hr, List.head?_cons]
    have hc : c ≠ '\n' := fun h' => h (h' ▸ hlast)
    rw [List.dropWhile_cons_of_neg (by simpa using hc), ← hr, List.reverse_reverse]

theorem substitute_singleton {w : Text} (h : '\n' ∉ w) : substitute [w] = w := by
  have hw : ['\n'].intercalate [w] = w := by simp
  rw [substitute_eq, hw]
  rw [hw]
  exact fun hl => h (List.mem_of_getLast? hl)

theorem intercalate_append (ls : List Text) (l : Text) : ∃ x, ['\n'].intercalate (ls ++ [l]) = x ++ l := by
  induction ls with
  | nil => exact ⟨[], by simp⟩
  | cons l' ls ih =>
    obtain ⟨x, hx⟩ := ih
    rcases ls with _ | ⟨l'', ls⟩
    · exact ⟨l' ++ ['\n'], by simp⟩
    · refine ⟨l' ++ ['\n'] ++ x, ?_⟩
      rw [List.cons_append, List.cons_append, List.intercalate_cons_cons, ← List.cons_append, hx]
      simp

/-- A table in the kernel's format, whose names differ. -/
structure Device.Listed (d : Device) : Prop where
  plain : ∀ e ∈ d.mtd, e.Plain
  nodup : (d.mtd.map MtdEntry.name).Nodup

section
variable {d : Device} (hd : d.Listed)
include hd

theorem newline_not_mem {l : Text} (hl : l ∈ d.procMtd) : '\n' ∉ l := by
  rcases List.mem_cons.mp hl with rfl | hl
  · decide
  · obtain ⟨e, he, rfl⟩ := List.mem_map.mp hl
    have hsep : ∀ {c : Char}, isSpaceClass c = false → c ≠ '\n' := fun h hc => by
      rw [hc] at h
      cases h
    simp only [MtdEntry.line, List.mem_append, List.mem_cons, not_or]
    exact ⟨fun h => hsep (MtdEntry.mem_dev h).1 rfl, by decide, fun h => hsep (mem_hex8 h).1 rfl, by decide, fun h => hsep (mem_hex8 h).1 rfl,
      by decide, fun h => hsep ((hd.plain e he).mem_quoted h) rfl⟩

theorem substitute_procMtd : substitute d.procMtd = ['\n'].intercalate d.procMtd := by
  obtain ⟨ls, l, hls⟩ := List.eq_nil_or_concat' d.procMtd |>.resolve_left (by simp [Device.procMtd])
  have hl : l ∈ d.procMtd := by simp [hls]
  have hne : l ≠ [] := by
    rcases List.mem_cons.mp hl with rfl | hl
    · decide
    · obtain ⟨e, -, rfl⟩ := List.mem_map.mp hl
      simp [MtdEntry.line]
  refine substitute_eq fun h => newline_not_mem hd hl ?_
  obtain ⟨x, hx⟩ := intercalate_append ls l
  rw [hls, hx, List.getLast?_append_of_ne_nil _ hne] at h
  exact List.mem_of_getLast? h

theorem splitOn_procMtd : (substitute d.procMtd).splitOn '\n' = d.procMtd := by
  rw [substitute_procMtd hd]
  exact List.splitOn_intercalate '\n' (fun l hl => newline_not_mem hd hl) (by simp [Device.procMtd])

/-- A name selects its entry. -/
theorem miLayoutMtdLine_cases (name : Text) :
    (∃ e ∈ d.mtd, e.name = name ∧ miLayoutMtdLine d name = [e.line]) ∨ ((∀ e ∈ d.mtd, e.name ≠ name) ∧ miLayoutMtdLine d name = []) := by
  have hhead : awkField 3 mtdHeader ≠ MtdEntry.quoted name := fun h => by
    have : awkField 3 mtdHeader = "name".toList := by decide
    rw [this] at h
    cases h
  have hfield : ∀ e ∈ d.mtd, awkField 3 e.line = MtdEntry.quoted e.name := fun e he => by
    unfold awkField
    rw [(hd.plain e he).splitWords_line]
    rfl
  have hfilter : miLayoutMtdLine d name = (d.mtd.filter fun e => e.name = name).map MtdEntry.line := by
    unfold miLayoutMtdLine Device.procMtd
    rw [List.filter_cons_of_neg (by simpa using hhead), List.filter_map]
    congr 1
    refine List.filter_congr fun e he => ?_
    rw [Function.comp_apply, hfield e he, decide_eq_decide]
    exact MtdEntry.quoted_inj
  by_cases hex : ∃ e ∈ d.mtd, e.name = name
  · obtain ⟨e, he, hn⟩ := hex
    refine .inl ⟨e, he, hn, ?_⟩
    rw [hfilter, ← hn, filter_key hd.nodup he]
    rfl
  · refine .inr ⟨fun e he hn => hex ⟨e, he, hn⟩, ?_⟩
    rw [hfilter, List.filter_eq_nil_iff.mpr fun e he => by simpa using fun hn => hex ⟨e, he, hn⟩]
    rfl

theorem eq_of_name {e e' : MtdEntry} (he : e ∈ d.mtd) (he' : e' ∈ d.mtd) (h : e.name = e'.name) : e = e' := by
  have h1 := filter_key hd.nodup he
  rw [h, filter_key hd.nodup he'] at h1
  exact (List.cons.inj h1).1.symm

theorem miLayoutMtdIndex_eq_iff (name : Text) (k : Nat) :
    miLayoutMtdIndex d name = Nat.toDigits 10 k ↔ ∃ e ∈ d.mtd, e.name = name ∧ e.index = k := by
  have hdigits : ∀ n, '\n' ∉ Nat.toDigits 10 n := fun n hm => by
    obtain ⟨j, hj⟩ := mem_toDigits (by decide) hm
    have := (digitChar_ne j).1
    rw [← hj] at this
    cases this
  unfold miLayoutMtdIndex
  rcases miLayoutMtdLine_cases hd name with ⟨e, he, hn, hl⟩ | ⟨hno, hl⟩ <;> rw [hl]
  · rw [List.filterMap_cons_some (MtdEntry.sedIndex_line e), List.filterMap_nil, substitute_singleton (hdigits _), toDigits_ten_inj]
    exact ⟨fun h => ⟨e, he, hn, h⟩, fun ⟨e', he', hn', h⟩ => eq_of_name hd he he' (hn.trans hn'.symm) ▸ h⟩
  · exact ⟨fun h => absurd h.symm Nat.toDigits_ne_nil, fun ⟨e, he, hn, _⟩ => absurd hn (hno e he)⟩

theorem miLayoutMtdSize_eq_iff (name size : Text) (hs : size ≠ []) :
    miLayoutMtdSize d name = size ↔ ∃ e ∈ d.mtd, e.name = name ∧ hex8 e.size = size := by
  have hhex : ∀ n, '\n' ∉ hex8 n := fun n hm => by cases (mem_hex8 hm).1
  unfold miLayoutMtdSize
  rcases miLayoutMtdLine_cases hd name with ⟨e, he, hn, hl⟩ | ⟨hno, hl⟩ <;> rw [hl]
  · have hfield : awkField 1 e.line = hex8 e.size := by
      unfold awkField
      rw [(hd.plain e he).splitWords_line]
      rfl
    rw [List.map_singleton, hfield, substitute_singleton (hhex _)]
    exact ⟨fun h => ⟨e, he, hn, h⟩, fun ⟨e', he', hn', h⟩ => eq_of_name hd he he' (hn.trans hn'.symm) ▸ h⟩
  · exact ⟨fun h => absurd h.symm hs, fun ⟨e, he, hn, _⟩ => absurd hn (hno e he)⟩

theorem miLayoutMtdLine_eq_nil_iff (name : Text) : miLayoutMtdLine d name = [] ↔ ∀ e ∈ d.mtd, e.name ≠ name := by
  rcases miLayoutMtdLine_cases hd name with ⟨e, he, hn, hl⟩ | ⟨hno, hl⟩
  · rw [hl]
    exact ⟨fun h => (List.cons_ne_nil _ _ h).elim, fun h => absurd hn (h e he)⟩
  · exact ⟨fun _ => hno, fun _ => hl⟩

/-! ### Searches of the host -/

theorem any_procMtd (p : Text → Bool) (hp : p mtdHeader = false) :
    ((substitute d.procMtd).splitOn '\n').any p = true ↔ ∃ e ∈ d.mtd, p e.line = true := by
  rw [splitOn_procMtd hd, Device.procMtd, List.any_cons, hp, Bool.false_or, List.any_map, List.any_eq_true]
  rfl

omit hd in
theorem dev_eq_iff {e : MtdEntry} {k : Nat} : e.dev = "mtd".toList ++ Nat.toDigits 10 k ++ [':'] ↔ e.index = k := by
  unfold MtdEntry.dev
  rw [List.append_left_inj, List.append_right_inj, toDigits_ten_inj]

omit hd in
theorem blank_not_mem {w : Text} (hw : ∀ c ∈ w, isSpaceClass c = false) : ' ' ∉ w := fun h => by cases hw _ h

omit hd in
theorem blank_not_mem_dev (k : Nat) : ' ' ∉ "mtd".toList ++ Nat.toDigits 10 k ++ [':'] :=
  blank_not_mem fun _ hc => (MtdEntry.mem_dev (e := ⟨k, 0, 0, []⟩) hc).1

theorem searchLine_iff (size erase name : Text) (k : Nat) (hs : ' ' ∉ size) (hr : ' ' ∉ erase) :
    searchLine ("mtd".toList ++ Nat.toDigits 10 k ++ [':'] ++ ' ' :: (size ++ ' ' :: (erase ++ ' ' :: MtdEntry.quoted name))) (substitute d.procMtd) = true ↔
      ∃ e ∈ d.mtd, e.index = k ∧ hex8 e.size = size ∧ hex8 e.erasesize = erase ∧ e.name = name := by
  unfold searchLine
  rw [any_procMtd hd _ (decide_eq_false fun h => by cases h)]
  refine exists_congr fun e => and_congr_right fun he => ?_
  rw [decide_eq_true_iff, MtdEntry.line, split_unique (blank_not_mem fun c hc => (MtdEntry.mem_dev hc).1) (blank_not_mem_dev k),
    split_unique (blank_not_mem fun c hc => (mem_hex8 hc).1) hs, split_unique (blank_not_mem fun c hc => (mem_hex8 hc).1) hr,
    dev_eq_iff, MtdEntry.quoted_inj]

omit hd in
/-- The quotes of a line are those around the name. -/
theorem quoted_of_append {pre a b n name : Text} (hpre : '"' ∉ pre) (hname : '"' ∉ name)
    (h : a ++ (MtdEntry.quoted n ++ b) = pre ++ MtdEntry.quoted name) : a = pre ∧ n = name := by
  have hcount := congrArg (List.count '"') h
  simp only [MtdEntry.quoted, List.count_append, List.count_singleton_self, List.count_eq_zero_of_not_mem hpre,
    List.count_eq_zero_of_not_mem hname] at hcount
  have ha : '"' ∉ a := List.count_eq_zero.mp (by omega)
  have hn : '"' ∉ n := List.count_eq_zero.mp (by omega)
  have h' : a ++ '"' :: (n ++ '"' :: b) = pre ++ '"' :: (name ++ '"' :: []) := by simpa [MtdEntry.quoted] using h
  obtain ⟨h1, h2⟩ := (split_unique ha hpre).mp h'
  exact ⟨h1, ((split_unique hn hname).mp h2).1⟩

omit hd in
theorem quote_not_mem_sizes (e : MtdEntry) : '"' ∉ hex8 e.size ++ ' ' :: (hex8 e.erasesize ++ [' ']) := by
  simp only [List.mem_append, List.mem_cons, List.not_mem_nil, or_false, not_or]
  exact ⟨fun h => (mem_hex8 h).2 rfl, by decide, fun h => (mem_hex8 h).2 rfl, by decide⟩

omit hd in
theorem drop_dev (e : MtdEntry) : e.line.drop (e.dev ++ [' ']).length = hex8 e.size ++ ' ' :: (hex8 e.erasesize ++ ' ' :: MtdEntry.quoted e.name) := by
  have : e.line = (e.dev ++ [' ']) ++ (hex8 e.size ++ ' ' :: (hex8 e.erasesize ++ ' ' :: MtdEntry.quoted e.name)) := by simp [MtdEntry.line]
  rw [this, List.drop_left]

theorem searchEnds_iff (k : Nat) (name : Text) :
    searchEnds ("mtd".toList ++ Nat.toDigits 10 k ++ ": ".toList) (' ' :: MtdEntry.quoted name) (substitute d.procMtd) = true ↔
      ∃ e ∈ d.mtd, e.index = k ∧ e.name = name := by
  unfold searchEnds
  rw [any_procMtd hd _ (by rfl)]
  refine exists_congr fun e => and_congr_right fun he => ?_
  have hstart : "mtd".toList ++ Nat.toDigits 10 k ++ ": ".toList = ("mtd".toList ++ Nat.toDigits 10 k ++ [':']) ++ [' '] := by simp
  have hquote : '"' ∉ e.name := fun h => (hd.plain e he _ h).1 rfl
  rw [Bool.and_eq_true, List.isPrefixOf_iff_prefix, List.isSuffixOf_iff_suffix, hstart]
  constructor
  · rintro ⟨⟨r, hr⟩, x, hx⟩
    rw [List.append_assoc, List.singleton_append, MtdEntry.line,
      split_unique (blank_not_mem_dev k) (blank_not_mem fun c hc => (MtdEntry.mem_dev hc).1)] at hr
    obtain ⟨hdev, rfl⟩ := hr
    refine ⟨dev_eq_iff.mp hdev.symm, ?_⟩
    rw [hdev, drop_dev] at hx
    have hx' : (x ++ [' ']) ++ (MtdEntry.quoted name ++ []) = (hex8 e.size ++ ' ' :: (hex8 e.erasesize ++ [' '])) ++ MtdEntry.quoted e.name := by
      simpa using hx
    exact (quoted_of_append (quote_not_mem_sizes e) hquote hx').2.symm
  · rintro ⟨hk, hn⟩
    have hdev := dev_eq_iff.mpr hk
    refine ⟨⟨hex8 e.size ++ ' ' :: (hex8 e.erasesize ++ ' ' :: MtdEntry.quoted e.name), ?_⟩, hex8 e.size ++ ' ' :: hex8 e.erasesize, ?_⟩
    · rw [← hdev, List.append_assoc, List.singleton_append, MtdEntry.line]
    · rw [← hdev, drop_dev, hn]
      simp

theorem quoted_infix_iff (name : Text) (hn : '\n' ∉ name) : MtdEntry.quoted name <:+: substitute d.procMtd ↔ ∃ e ∈ d.mtd, e.name = name := by
  rw [substitute_procMtd hd]
  constructor
  · intro h
    obtain ⟨l, hl, a, b, hab⟩ := infix_intercalate (by simp [MtdEntry.quoted, hn]) (by simp [MtdEntry.quoted]) h
    rcases List.mem_cons.mp hl with rfl | hl
    · have hmem : '"' ∈ mtdHeader := by
        rw [← hab]
        simp [MtdEntry.quoted]
      exact absurd hmem (by decide)
    · obtain ⟨e, he, rfl⟩ := List.mem_map.mp hl
      have hpre : '"' ∉ e.dev ++ ' ' :: (hex8 e.size ++ ' ' :: (hex8 e.erasesize ++ [' '])) := by
        rw [List.mem_append, List.mem_cons, not_or, not_or]
        exact ⟨fun h => (MtdEntry.mem_dev h).2 rfl, by decide, quote_not_mem_sizes e⟩
      have hab' : a ++ (MtdEntry.quoted name ++ b) = e.dev ++ ' ' :: (hex8 e.size ++ ' ' :: (hex8 e.erasesize ++ [' '])) ++ MtdEntry.quoted e.name := by
        rw [← List.append_assoc, hab]
        simp [MtdEntry.line]
      exact ⟨e, he, (quoted_of_append hpre (fun h => (hd.plain e he _ h).1 rfl) hab').2.symm⟩
  · rintro ⟨e, he, rfl⟩
    obtain ⟨a, b, hab, -⟩ := mem_intercalate (List.mem_cons_of_mem mtdHeader (List.mem_map.mpr ⟨e, he, rfl⟩))
    refine ⟨a ++ (e.dev ++ ' ' :: (hex8 e.size ++ ' ' :: (hex8 e.erasesize ++ [' ']))), b, ?_⟩
    rw [Device.procMtd, hab]
    simp [MtdEntry.line]

end

/-! ### Agreement -/

section
variable (sha256 : List UInt8 → Text) (d : Device)

/-- The merged layout, the command line apart. -/
structure Merged : Prop where
  rootfs : ∃ e ∈ d.mtd, e.name = "rootfs".toList ∧ e.index = 18 ∧ hex8 e.size = "07480000".toList
  rootfs1 : ∀ e ∈ d.mtd, e.name ≠ "rootfs_1".toList
  mibib : ∃ e ∈ d.mtd, e.name = "0:MIBIB".toList ∧ e.index = 1
  appsbl : ∃ e ∈ d.mtd, e.name = "0:APPSBL".toList ∧ e.index = 12
  char : d.isChar (devPath "18".toList) = true
  mibibHash : tableHash sha256 d (devPath "1".toList) = mibibHash
  appsblHash : fileHash sha256 d (devPath "12".toList) = appsblHash
  bootcmd : d.bootcmd = "bootmiwifi".toList

variable {sha256} {d}

theorem miLayoutIsSingle_iff (hd : d.Listed) (hb : d.board = "redmi,ax3000".toList) :
    miLayoutIsSingle sha256 d = true ↔ Merged sha256 d ∧ grepCmdline isSpaceClass d.cmdline = true := by
  have h1 := miLayoutMtdIndex_eq_iff hd "0:MIBIB".toList 1
  have h18 := miLayoutMtdIndex_eq_iff hd "rootfs".toList 18
  have h12 := miLayoutMtdIndex_eq_iff hd "0:APPSBL".toList 12
  have hsize := miLayoutMtdSize_eq_iff hd "rootfs".toList "07480000".toList (by decide)
  have habs := miLayoutMtdLine_eq_nil_iff hd "rootfs_1".toList
  rw [show Nat.toDigits 10 1 = "1".toList from rfl] at h1
  rw [show Nat.toDigits 10 18 = "18".toList from rfl] at h18
  rw [show Nat.toDigits 10 12 = "12".toList from rfl] at h12
  unfold miLayoutIsSingle
  simp only [Bool.and_eq_true, decide_eq_true_eq]
  constructor
  · rintro ⟨⟨⟨⟨⟨⟨⟨⟨⟨⟨-, hm⟩, hr⟩, hs⟩, hc⟩, ha⟩, hg⟩, hmf⟩, hp⟩, hpf⟩, hbc⟩
    obtain ⟨e, he, hn, hi⟩ := h18.mp hr
    obtain ⟨e', he', hn', hs'⟩ := hsize.mp hs
    obtain rfl := eq_of_name hd he he' (hn.trans hn'.symm)
    unfold miLayoutMibibFingerprint at hmf
    rw [hm] at hmf
    unfold miLayoutAppsblFingerprint at hpf
    rw [hp] at hpf
    exact ⟨⟨⟨e, he, hn, hi, hs'⟩, habs.mp ha, h1.mp hm, h12.mp hp, hc, hmf, hpf, hbc⟩, hg⟩
  · rintro ⟨⟨⟨e, he, hn, hi, hs⟩, hr1, hmi, hap, hc, hmh, hah, hbc⟩, hg⟩
    have hm := h1.mpr hmi
    have hp := h12.mpr hap
    refine ⟨⟨⟨⟨⟨⟨⟨⟨⟨⟨?_, hm⟩, h18.mpr ⟨e, he, hn, hi⟩⟩, hsize.mpr ⟨e, he, hn, hs⟩⟩, hc⟩, habs.mpr hr1⟩, hg⟩, ?_⟩, hp⟩, ?_⟩, hbc⟩
    · rw [hb]
      rfl
    · unfold miLayoutMibibFingerprint
      rw [hm]
      exact hmh
    · unfold miLayoutAppsblFingerprint
      rw [hp]
      exact hah

theorem layoutChecks_iff (hd : d.Listed) (hb : d.board = "redmi,ax3000".toList) (ho : d.offset = 0xA80000)
    (he18 : ∀ e ∈ d.mtd, e.index = 18 → e.erasesize = 0x20000) :
    (∀ c ∈ layoutChecks (probe sha256 d), c.2 = true) ↔ Merged sha256 d ∧ grepCmdline isBlank d.cmdline = true := by
  have h18 := searchLine_iff hd "07480000".toList "00020000".toList "rootfs".toList 18 (by decide) (by decide)
  have h1 := searchEnds_iff hd 1 "0:MIBIB".toList
  have h12 := searchEnds_iff hd 12 "0:APPSBL".toList
  have habs := quoted_infix_iff hd "rootfs_1".toList (by decide)
  unfold layoutChecks probe
  simp only [List.forall_mem_cons, List.not_mem_nil, false_implies, implies_true, and_true, Bool.and_eq_true, decide_eq_true_eq]
  constructor
  · rintro ⟨-, hs, hc, ha, -, hg, ⟨hm, hms⟩, ⟨hp, hps⟩, hbc⟩
    obtain ⟨e, he, hi, hsz, -, hn⟩ := h18.mp hs
    obtain ⟨m, hm', hmi, hmn⟩ := h1.mp hms
    obtain ⟨p, hp', hpi, hpn⟩ := h12.mp hps
    exact ⟨⟨⟨e, he, hn, hi, hsz⟩, fun e he hn => ha (habs.mpr ⟨e, he, hn⟩), ⟨m, hm', hmn, hmi⟩, ⟨p, hp', hpn, hpi⟩, hc, hm, hp, hbc⟩, hg⟩
  · rintro ⟨⟨⟨e, he, hn, hi, hs⟩, hr1, ⟨m, hm', hmn, hmi⟩, ⟨p, hp', hpn, hpi⟩, hc, hm, hp, hbc⟩, hg⟩
    refine ⟨hb, h18.mpr ⟨e, he, hi, hs, ?_, hn⟩, hc, fun h => ?_, ho, hg, ⟨hm, h1.mpr ⟨m, hm', hmi, hmn⟩⟩, ⟨hp, h12.mpr ⟨p, hp', hpi, hpn⟩⟩, hbc⟩
    · rw [he18 e he hi]
      rfl
    · obtain ⟨e, he, hn⟩ := habs.mp h
      exact hr1 e he hn

end

/-- The line has the word between characters of `sp`, or at its ends. -/
def Between (sp : Char → Bool) (word line : Text) : Prop := ∃ pre post, line = pre ++ (word ++ post) ∧
  (∀ c, pre.getLast? = some c → sp c = true) ∧ ∀ c, post.head? = some c → sp c = true

/-- The command line names the slot `rootfs`, with characters of `sp` around the parameter. -/
def NamesRootfs (sp : Char → Bool) (cmdline : Text) : Prop := ∃ l ∈ cmdline.splitOn '\n', Between sp ubiMtdRootfs l

/-- The command line names the slot, but nowhere between blanks: a tab or another whitespace character
    stands before or behind the parameter. -/
def OddlySpaced (cmdline : Text) : Prop := NamesRootfs isSpaceClass cmdline ∧ ¬NamesRootfs isBlank cmdline

theorem endsAt_iff {sp : Char → Bool} {t : Text} : endsAt sp t = true ↔ ∀ c, t.head? = some c → sp c = true := by
  unfold endsAt
  cases t with
  | nil => simp
  | cons c t => simp

theorem grepWord_iff {sp : Char → Bool} {word : Text} (hw : word ≠ []) {start : Bool} {t : Text} : grepWord sp word start t = true ↔
    ∃ pre post, t = pre ++ (word ++ post) ∧ (pre = [] → start = true) ∧ (∀ c, pre.getLast? = some c → sp c = true) ∧
      ∀ c, post.head? = some c → sp c = true := by
  induction t generalizing start with
  | nil =>
    obtain ⟨c, w, rfl⟩ := List.exists_cons_of_ne_nil hw
    simp [grepWord]
  | cons c t ih =>
    rw [grepWord, Bool.or_eq_true, Bool.and_eq_true, Bool.and_eq_true, ih, List.isPrefixOf_iff_prefix]
    constructor
    · rintro (⟨⟨hs, post, hp⟩, he⟩ | ⟨pre, post, rfl, hs, hl, hh⟩)
      · refine ⟨[], post, by rw [List.nil_append, hp], fun _ => hs, fun c hc => (Option.some_ne_none c hc.symm).elim, ?_⟩
        rw [← hp, List.drop_left, endsAt_iff] at he
        exact he
      · refine ⟨c :: pre, post, rfl, fun h => (List.cons_ne_nil _ _ h).elim, fun x hx => ?_, hh⟩
        rcases pre with _ | ⟨c', pre⟩
        · obtain rfl : c = x := by simpa using hx
          exact hs rfl
        · exact hl x (by simpa using hx)
    · rintro ⟨pre, post, ht, hs, hl, hh⟩
      rcases pre with _ | ⟨c', pre⟩
      · rw [List.nil_append] at ht
        refine .inl ⟨⟨hs rfl, post, ht.symm⟩, ?_⟩
        rw [ht, List.drop_left, endsAt_iff]
        exact hh
      · obtain ⟨rfl, rfl⟩ := List.cons.inj ht
        refine .inr ⟨pre, post, rfl, fun hp => ?_, fun x hx => ?_, hh⟩
        · rw [hp] at hl
          exact hl c rfl
        · refine hl x ?_
          rw [List.getLast?_cons, hx]
          rfl

theorem grepCmdline_iff {sp : Char → Bool} {cmdline : Text} : grepCmdline sp cmdline = true ↔ NamesRootfs sp cmdline := by
  unfold grepCmdline NamesRootfs Between
  rw [List.any_eq_true]
  refine exists_congr fun l => and_congr_right fun _ => ?_
  rw [grepWord_iff (by decide)]
  simp

theorem NamesRootfs.mono {sp sp' : Char → Bool} (h : ∀ c, sp c = true → sp' c = true) {cmdline : Text} (hn : NamesRootfs sp cmdline) :
    NamesRootfs sp' cmdline := by
  obtain ⟨l, hl, pre, post, ht, hp, hq⟩ := hn
  exact ⟨l, hl, pre, post, ht, fun c hc => h c (hp c hc), fun c hc => h c (hq c hc)⟩

/-- The detectors agree on every table and every content, unless the layout is the merged one and the
    command line names the slot between whitespace other than blanks. -/
theorem detectors_agree_iff {sha256 : List UInt8 → Text} {d : Device} (hplain : ∀ e ∈ d.mtd, e.Plain) (hnodup : (d.mtd.map MtdEntry.name).Nodup)
    (hb : d.board = "redmi,ax3000".toList) (ho : d.offset = 0xA80000) (he : ∀ e ∈ d.mtd, e.index = 18 → e.erasesize = 0x20000) :
    (miLayoutIsSingle sha256 d = true ↔ ∀ c ∈ layoutChecks (probe sha256 d), c.2 = true) ↔ ¬(Merged sha256 d ∧ OddlySpaced d.cmdline) := by
  have hd : d.Listed := ⟨hplain, hnodup⟩
  have hblank : NamesRootfs isBlank d.cmdline → NamesRootfs isSpaceClass d.cmdline := NamesRootfs.mono fun c hc => by
    obtain rfl : c = ' ' := by simpa [isBlank] using hc
    rfl
  rw [miLayoutIsSingle_iff hd hb, layoutChecks_iff hd hb ho he, grepCmdline_iff, grepCmdline_iff]
  constructor
  · rintro h ⟨hm, hs, hn⟩
    exact hn (h.mp ⟨hm, hs⟩).2
  · intro h
    constructor
    · rintro ⟨hm, hs⟩
      by_contra hn
      exact h ⟨hm, hs, fun hbl => hn ⟨hm, hbl⟩⟩
    · rintro ⟨hm, hbl⟩
      exact ⟨hm, hblank hbl⟩

/-- A router with the merged layout. -/
def mergedDevice (cmdline : Text) : Device where
  board := "redmi,ax3000".toList
  mtd := [⟨1, 0x80000, 0x20000, "0:MIBIB".toList⟩, ⟨12, 0x140000, 0x20000, "0:APPSBL".toList⟩, ⟨18, 0x7480000, 0x20000, "rootfs".toList⟩]
  cmdline := cmdline
  isChar _ := true
  content path := if path = "/dev/mtd12".toList then some [0x7f, 0x45, 0x4c, 0x46] else some []
  bootcmd := "bootmiwifi".toList
  offset := 0xA80000

/-- A hash that takes the contents of `mergedDevice` for the verified ones. -/
def mergedHash (bytes : List UInt8) : Text := if bytes = [] then mibibHash else appsblHash

set_option maxRecDepth 100000 in
theorem detectors_agree_iff_merged :
    (miLayoutIsSingle mergedHash (mergedDevice "console=ttyMSM0 ubi.mtd=rootfs".toList) = true ↔
        ∀ c ∈ layoutChecks (probe mergedHash (mergedDevice "console=ttyMSM0 ubi.mtd=rootfs".toList)), c.2 = true) ↔
      ¬(Merged mergedHash (mergedDevice "console=ttyMSM0 ubi.mtd=rootfs".toList) ∧ OddlySpaced "console=ttyMSM0 ubi.mtd=rootfs".toList) := by
  have hplain : ∀ e ∈ (mergedDevice "console=ttyMSM0 ubi.mtd=rootfs".toList).mtd,
      e.name.all (fun c => decide (c ≠ '"' ∧ isSpaceClass c = false)) = true := by decide
  exact detectors_agree_iff (fun e he => forall_mem_of_all (fun c => c ≠ '"' ∧ isSpaceClass c = false) (hplain e he))
    (by decide) rfl rfl (by decide)

set_option maxRecDepth 100000 in
/-- A tab before the parameter: the router writes, and the host refuses. -/
theorem detectors_disagree_at_tab :
    miLayoutIsSingle mergedHash (mergedDevice "console=ttyMSM0\tubi.mtd=rootfs".toList) = true ∧
    ¬∀ c ∈ layoutChecks (probe mergedHash (mergedDevice "console=ttyMSM0\tubi.mtd=rootfs".toList)), c.2 = true := by
  decide

end RainWrt.Upgrade
