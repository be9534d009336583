import RainWrt.Theorems.BaseFiles.Macaddr

/-! `macaddr_canonicalize`: the octets that a text stands for, and what the shell makes of the text before
    it looks for them. -/

namespace RainWrt.BaseFiles

/-! ### The octets of a text -/

/-- The words between separators. -/
def tokens (s : Text) : List Text := fields (blankSeparators (s.filter (· ≠ '"')))

/-- The octets of a word, which are digits of one or two. -/
def octetPieces (t : Text) : Option (List Text) :=
  match t.length with
  | 1 => some [t]
  | 2 => some [t]
  | 4 => some [t.take 2, (t.drop 2).take 2]
  | 12 => some [t.take 2, (t.drop 2).take 2, (t.drop 4).take 2, (t.drop 6).take 2, (t.drop 8).take 2, (t.drop 10).take 2]
  | _ => none

/-- The six octets that a text stands for. -/
def octets (s : Text) : Option (List Nat) := do
  let pieces ← (tokens s).mapM octetPieces
  if pieces.flatten.length = 6 ∧ ∀ p ∈ pieces.flatten, p.all isHexDigit then some (pieces.flatten.map hexValue) else none

/-- The octets of a text that is not too long and has no other characters. -/
def accepted (t : Text) : Option (List Nat) := if t.length ≤ 17 ∧ t.all isMacChar then octets t else none

theorem isIfs_cases {c : Char} (h : isIfs c = true) : c = ' ' ∨ c = '\t' ∨ c = '\n' := by
  simpa [isIfs, or_assoc] using h

theorem tokens_append {c : Char} (hc : isIfs c = true) (a b : Text) : tokens (a ++ c :: b) = tokens a ++ tokens b := by
  have hsplit : blankSeparators ((a ++ c :: b).filter (· ≠ '"')) =
      blankSeparators (a.filter (· ≠ '"')) ++ c :: blankSeparators (b.filter (· ≠ '"')) := by
    rcases isIfs_cases hc with rfl | rfl | rfl <;> simp [blankSeparators]
  rw [tokens, hsplit, fields_append_ifs hc]
  rfl

theorem tokens_joined (l : List Text) : tokens ([' '].intercalate l) = l.flatMap tokens :=
  flatMap_joined rfl (fun a b _ hc => tokens_append hc a b) l

theorem flatMap_tokens (s : Text) : (fields s).flatMap tokens = tokens s :=
  flatMap_fields rfl (fun a b _ hc => tokens_append hc a b) s

theorem mem_tokens {t s : Text} (ht : t ∈ tokens s) : t ≠ [] ∧ ∀ c ∈ t, c ∈ s ∧ c ≠ '"' ∧ c ≠ '.' ∧ c ≠ ':' ∧ c ≠ '-' ∧ isIfs c = false := by
  obtain ⟨hne, hmem⟩ := mem_fields ht
  refine ⟨hne, fun c hc => ?_⟩
  obtain ⟨hc, hifs⟩ := hmem c hc
  simp only [blankSeparators, List.mem_map, List.mem_filter] at hc
  obtain ⟨d, ⟨hd, hquote⟩, rfl⟩ := hc
  by_cases hsep : d = '.' ∨ d = ':' ∨ d = '-'
  · rw [if_pos hsep] at hifs
    cases hifs
  · rw [if_neg hsep] at hifs ⊢
    simp only [not_or] at hsep
    exact ⟨hd, by simpa using hquote, hsep.1, hsep.2.1, hsep.2.2, hifs⟩

/-- The characters of a text are those of its words, separators and quotation marks. -/
theorem exists_token {s : Text} {c : Char} (hc : c ∈ s) :
    c = '"' ∨ c = '.' ∨ c = ':' ∨ c = '-' ∨ isIfs c = true ∨ ∃ t ∈ tokens s, c ∈ t := by
  by_cases hquote : c = '"'
  · exact Or.inl hquote
  by_cases hsep : c = '.' ∨ c = ':' ∨ c = '-'
  · tauto
  cases hifs : isIfs c
  · have hmem : c ∈ blankSeparators (s.filter (· ≠ '"')) := by
      rw [blankSeparators, List.mem_map]
      exact ⟨c, by simp [hc, hquote], if_neg hsep⟩
    exact Or.inr (Or.inr (Or.inr (Or.inr (Or.inr (exists_field hmem hifs)))))
  · tauto

/-! ### The loop over the words -/

/-- A leading zero for one digit. -/
def pad (p : Text) : Text := if p.length = 1 then '0' :: p else p

theorem length_piece {t : Text} {i : Nat} (h : i + 2 ≤ t.length) : ((t.drop i).take 2).length = 2 := by
  rw [List.length_take, List.length_drop]
  omega

theorem mem_piece {t : Text} {i : Nat} {c : Char} (h : c ∈ (t.drop i).take 2) : c ∈ t := List.mem_of_mem_drop (List.mem_of_mem_take h)

theorem octetPieces_cases {t : Text} {l : List Text} (h : octetPieces t = some l) :
    l = [t] ∧ (t.length = 1 ∨ t.length = 2) ∨
      ∃ is : List Nat, is ≠ [] ∧ l = is.map (fun i => (t.drop i).take 2) ∧ ∀ i ∈ is, i + 2 ≤ t.length := by
  unfold octetPieces at h
  split at h
  · next hlen => exact Or.inl ⟨(Option.some.inj h).symm, Or.inl hlen⟩
  · next hlen => exact Or.inl ⟨(Option.some.inj h).symm, Or.inr hlen⟩
  · next hlen => exact Or.inr ⟨[0, 2], by simp, (Option.some.inj h).symm, by simp [hlen]⟩
  · next hlen => exact Or.inr ⟨[0, 2, 4, 6, 8, 10], by simp, (Option.some.inj h).symm, by simp [hlen]⟩
  · cases h

theorem length_octetPieces {t : Text} {l : List Text} (h : octetPieces t = some l) :
    l ≠ [] ∧ ∀ p ∈ l, (p.length = 1 ∨ p.length = 2) ∧ ∀ c ∈ p, c ∈ t := by
  rcases octetPieces_cases h with ⟨rfl, hlen⟩ | ⟨is, hne, rfl, his⟩
  · refine ⟨List.cons_ne_nil t [], fun p hp => ?_⟩
    obtain rfl := List.mem_singleton.mp hp
    exact ⟨hlen, fun c hc => hc⟩
  · refine ⟨by simpa using hne, fun p hp => ?_⟩
    obtain ⟨i, hi, rfl⟩ := List.mem_map.mp hp
    exact ⟨Or.inr (length_piece (his i hi)), fun c hc => mem_piece hc⟩

theorem length_pad {p : Text} (h : p.length = 1 ∨ p.length = 2) : (pad p).length = 2 := by
  rw [pad]
  rcases h with h | h <;> simp [h]

theorem hexValue_pad (p : Text) : hexValue (pad p) = hexValue p := by
  rw [pad]
  split_ifs
  · rfl
  · rfl

theorem pad_of_two {p : Text} (h : p.length = 2) : pad p = p := by
  rw [pad, if_neg (by omega)]

theorem spreadOctet_eq (t : Text) : spreadOctet t = (octetPieces t).map fun l => [' '].intercalate (l.map pad) := by
  unfold spreadOctet
  split
  · next hlen => simp [octetPieces, pad, hlen]
  · next hlen => simp [octetPieces, pad_of_two hlen, hlen]
  · next hlen =>
    have h0 := length_piece (t := t) (i := 0) (by omega)
    have h2 := length_piece (t := t) (i := 2) (by omega)
    rw [List.drop_zero] at h0
    simp [octetPieces, pad_of_two h0, pad_of_two h2, List.intercalate_cons_cons, hlen]
  · next hlen =>
    have hpad : ∀ i, i + 2 ≤ 12 → pad ((t.drop i).take 2) = (t.drop i).take 2 := fun i hi => pad_of_two (length_piece (by omega))
    have h0 := hpad 0 (by decide)
    rw [List.drop_zero] at h0
    simp [octetPieces, h0, hpad, hlen]
  · next h1 h2 h4 h12 =>
    have hnone : octetPieces t = none := by
      unfold octetPieces
      split
      · contradiction
      · contradiction
      · contradiction
      · contradiction
      · rfl
    rw [hnone]
    rfl

/-- Texts joined with blanks, and more of them behind. -/
theorem joined_append {a b : List Text} (ha : ∀ p ∈ a, p ≠ []) (hb : b ≠ []) :
    [' '].intercalate a ++ (if [' '].intercalate a = [] then [] else [' ']) ++ [' '].intercalate b = [' '].intercalate (a ++ b) := by
  induction a with
  | nil => simp
  | cons p a ih =>
    have hp := ha p List.mem_cons_self
    cases a with
    | nil =>
      obtain ⟨q, b, rfl⟩ := List.exists_cons_of_ne_nil hb
      simp [hp, List.intercalate_cons_cons]
    | cons p' a =>
      have ih := ih fun q hq => ha q (List.mem_cons_of_mem p hq)
      have hne : ∀ s, [' '].intercalate (p' :: s) ≠ [] := fun s h => by
        have hp' := ha p' (by simp)
        cases s with
        | nil => simp [hp'] at h
        | cons q s => simp [List.intercalate_cons_cons] at h
      rw [if_neg (hne a)] at ih
      rw [List.intercalate_cons_cons, if_neg (by simp), List.cons_append, List.cons_append, List.intercalate_cons_cons, ← List.cons_append,
        ← ih]
      simp

theorem canonFrom_eq : ∀ {toks ps : List Text}, (∀ p ∈ ps, p ≠ []) → canonFrom ([' '].intercalate ps) toks =
    (toks.mapM octetPieces).map fun ls => [' '].intercalate (ps ++ ls.flatten.map pad)
  | [], ps, _ => by simp [canonFrom]
  | t :: toks, ps, hps => by
    rw [canonFrom, spreadOctet_eq, List.mapM_cons]
    cases hl : octetPieces t with
    | none => rfl
    | some l =>
      obtain ⟨hne, hlen⟩ := length_octetPieces hl
      have hpad : ∀ p ∈ ps ++ l.map pad, p ≠ [] := fun p hp => by
        rcases List.mem_append.mp hp with hp | hp
        · exact hps p hp
        · obtain ⟨q, hq, rfl⟩ := List.mem_map.mp hp
          exact List.ne_nil_of_length_eq_add_one (length_pad (hlen q hq).1)
      have ih := @canonFrom_eq toks _ hpad
      rw [← joined_append hps (by simpa using hne)] at ih
      simp only [Option.map_some, Option.bind_eq_bind, Option.bind_some, ih]
      cases toks.mapM octetPieces with
      | none => rfl
      | some ls => simp

theorem length_joined : ∀ {ps : List Text}, ps ≠ [] → (∀ p ∈ ps, p.length = 2) → ([' '].intercalate ps).length + 1 = 3 * ps.length
  | [p], _, h => by simp [h]
  | p :: p' :: ps, _, h => by
    have ih := length_joined (List.cons_ne_nil p' ps) fun q hq => h q (List.mem_cons_of_mem p hq)
    have hp := h p List.mem_cons_self
    rw [List.intercalate_cons_cons, List.length_append, List.length_append, List.length_singleton, List.length_cons]
    omega

/-- `0x${canon// / 0x}`, with `0x` before each octet. -/
theorem prefixed_joined : ∀ {ps : List Text}, ps ≠ [] → (∀ p ∈ ps, ' ' ∉ p) →
    "0x".toList ++ ([' '].intercalate ps).flatMap (fun c => if c = ' ' then " 0x".toList else [c]) =
      [' '].intercalate (ps.map ("0x".toList ++ ·))
  | [], hne, _ => absurd rfl hne
  | p :: ps, _, h => by
    have hp : p.flatMap (fun c => if c = ' ' then " 0x".toList else [c]) = p := by
      have hne : ∀ c ∈ p, ¬c = ' ' := fun c hc hblank => h p List.mem_cons_self (by rwa [hblank] at hc)
      rw [List.flatMap_congr fun c hc => if_neg (hne c hc), List.flatMap_singleton']
    cases ps with
    | nil => rw [List.intercalate_singleton, hp, List.map_singleton, List.intercalate_singleton]
    | cons p' ps =>
      have ih := prefixed_joined (List.cons_ne_nil p' ps) fun q hq => h q (List.mem_cons_of_mem p hq)
      have hblank : [' '].flatMap (fun c => if c = ' ' then " 0x".toList else [c]) = [' '] ++ "0x".toList := rfl
      rw [List.intercalate_cons_cons, List.map_cons, List.map_cons, List.intercalate_cons_cons, ← List.map_cons, ← ih,
        List.flatMap_append, List.flatMap_append, hp, hblank]
      simp only [List.append_assoc]

/-! ### What the shell prints -/

/-- A character that names of files are matched with. -/
def isSpecial (c : Char) : Bool := c = '*' || c = '?' || c = '[' || c = '\\'

/-- The echo of the words of a text prints the words. -/
def Shell.Plain (sh : Shell) (s : Text) : Prop :=
  echoOptions false (fields s) = (false, fields s) ∧ ∀ f ∈ fields s, sh.paths f = [f]

/-- The output is empty, or it has the octets of the text. -/
def Shell.Right (sh : Shell) (s : Text) : Prop :=
  sh.macaddrCanonicalize s = [] ∨ ∃ l, octets s = some l ∧ sh.macaddrCanonicalize s = format l

theorem words_of_paths {sh : Shell} {s : Text} (h : ∀ f ∈ fields s, sh.paths f = [f]) : sh.words s = fields s := by
  rw [Shell.words, List.flatMap_congr h, List.flatMap_singleton']

theorem fields_not_ifs {s : Text} : ∀ f ∈ fields s, f ≠ [] ∧ ∀ c ∈ f, isIfs c = false := fun f hf => by
  obtain ⟨hne, hmem⟩ := mem_fields hf
  exact ⟨hne, fun c hc => (hmem c hc).2⟩

theorem newline_not_mem {l : List Text} (h : ∀ f ∈ l, ∀ c ∈ f, isIfs c = false) : '\n' ∉ ([' '].intercalate l).filter (· ≠ '"') := fun hn => by
  rcases mem_joined (List.mem_of_mem_filter hn) with hn | ⟨f, hf, hn⟩
  · cases hn
  · cases h f hf '\n' hn

/-- The options of `echo` are arguments at the start that look like options. -/
theorem echoOptions_split (escape : Bool) (args : List Text) :
    ∃ opts rest, args = opts ++ rest ∧ (echoOptions escape args).2 = rest ∧ (opts = [] → (echoOptions escape args).1 = escape) ∧
      ∀ o ∈ opts, ∃ x ∈ o, x = 'n' ∨ x = 'e' ∨ x = 'E' := by
  fun_induction echoOptions escape args with
  | case1 escape o os args hopt ih =>
    obtain ⟨opts, rest, hargs, hrest, -, hopts⟩ := ih
    refine ⟨('-' :: o :: os) :: opts, rest, by rw [hargs, List.cons_append], hrest, fun h => absurd h (List.cons_ne_nil _ opts), fun p hp => ?_⟩
    rcases List.mem_cons.mp hp with rfl | hp
    · simp only [List.all_cons, Bool.and_eq_true, Bool.or_eq_true, decide_eq_true_eq, or_assoc] at hopt
      exact ⟨o, by simp, hopt.1⟩
    · exact hopts p hp
  | case2 escape o os args hopt => exact ⟨[], _, rfl, rfl, fun _ => rfl, by simp⟩
  | case3 escape args hargs => exact ⟨[], _, rfl, rfl, fun _ => rfl, by simp⟩

theorem tokens_filter (s : Text) : tokens (s.filter (· ≠ '"')) = tokens s := by
  rw [tokens, List.filter_filter, tokens]
  simp

theorem octets_congr {s t : Text} (h : tokens s = tokens t) : octets s = octets t := by
  rw [octets, h, octets]

/-! ### What is accepted -/

theorem isHexDigit_of_isMacChar {c : Char} (h : isMacChar c = true) (hdot : c ≠ '.') (hcolon : c ≠ ':') (hdash : c ≠ '-')
    (hifs : isIfs c = false) : isHexDigit c = true := by
  have hblank : c ≠ ' ' := fun h => by rw [h] at hifs; cases hifs
  simpa [isMacChar, hdot, hcolon, hdash, hblank] using h

theorem isSpecial_cases {c : Char} (h : isSpecial c = true) : c = '*' ∨ c = '?' ∨ c = '[' ∨ c = '\\' := by
  simpa [isSpecial, or_assoc] using h

theorem isSpecial_of_isMacChar {c : Char} (h : isMacChar c = true) : isSpecial c = false := by
  cases hs : isSpecial c
  · rfl
  · rcases isSpecial_cases hs with rfl | rfl | rfl | rfl <;> cases h

theorem isSpecial_of_isHexDigit {c : Char} (h : isHexDigit c = true) : isSpecial c = false :=
  isSpecial_of_isMacChar (by simp [isMacChar, h])

theorem mem_mapM {α β : Type} {f : α → Option β} : ∀ {l : List α} {l' : List β}, l.mapM f = some l' →
    (∀ b ∈ l', ∃ a ∈ l, f a = some b) ∧ ∀ a ∈ l, ∃ b ∈ l', f a = some b
  | [], l', h => by
    rw [List.mapM_nil] at h
    rw [← Option.some.inj h]
    simp
  | a :: l, l', h => by
    rw [List.mapM_cons] at h
    simp only [Option.bind_eq_bind, Option.bind_eq_some_iff, Option.pure_def, Option.some.injEq] at h
    obtain ⟨c, hc, l'', hl, rfl⟩ := h
    obtain ⟨hto, hof⟩ := mem_mapM hl
    refine ⟨fun b hb => ?_, fun a' ha => ?_⟩
    · rcases List.mem_cons.mp hb with rfl | hb
      · exact ⟨a, List.mem_cons_self, hc⟩
      · obtain ⟨a', ha', hfa⟩ := hto b hb
        exact ⟨a', List.mem_cons_of_mem a ha', hfa⟩
    · rcases List.mem_cons.mp ha with rfl | ha
      · exact ⟨c, List.mem_cons_self, hc⟩
      · obtain ⟨b, hb, hfb⟩ := hof a' ha
        exact ⟨b, List.mem_cons_of_mem c hb, hfb⟩

theorem isIfs_of_isHexDigit {c : Char} (h : isHexDigit c = true) : isIfs c = false := by
  cases hifs : isIfs c
  · rfl
  · rcases isIfs_cases hifs with rfl | rfl | rfl <;> cases h

theorem mem_flatten_pieces {toks : List Text} {ls : List (List Text)} (h : toks.mapM octetPieces = some ls) {p : Text}
    (hp : p ∈ ls.flatten) : ∃ t ∈ toks, (p.length = 1 ∨ p.length = 2) ∧ ∀ c ∈ p, c ∈ t := by
  obtain ⟨l, hl, hp⟩ := List.mem_flatten.mp hp
  obtain ⟨t, ht, htl⟩ := (mem_mapM h).1 l hl
  exact ⟨t, ht, (length_octetPieces htl).2 p hp⟩

theorem hexDigit_lt {c : Char} (h : isHexDigit c = true) : hexDigit c < 16 := by
  have hle : ∀ d : Char, d ≤ c ↔ d.toNat ≤ c.toNat := fun _ => Iff.rfl
  have hge : ∀ d : Char, c ≤ d ↔ c.toNat ≤ d.toNat := fun _ => Iff.rfl
  have hchars : '0'.toNat = 48 ∧ '9'.toNat = 57 ∧ 'a'.toNat = 97 ∧ 'f'.toNat = 102 ∧ 'A'.toNat = 65 ∧ 'F'.toNat = 70 := by decide
  simp only [isHexDigit, hexDigit, Bool.or_eq_true, Bool.and_eq_true, decide_eq_true_eq, hle, hge, hchars] at h ⊢
  split_ifs <;> omega

theorem hexValue_lt {s : Text} (h : s.all isHexDigit = true) : hexValue s < 16 ^ s.length := by
  induction s using List.reverseRecOn with
  | nil => exact Nat.one_pos
  | append_singleton s c ih =>
    simp only [List.all_append, Bool.and_eq_true, List.all_cons, List.all_nil, Bool.and_true] at h
    have hc := hexDigit_lt h.2
    have ih := ih h.1
    rw [hexValue_concat, List.length_append, List.length_singleton, Nat.pow_succ]
    omega

theorem octets_eq_some {s : Text} {l : List Nat} (h : octets s = some l) :
    ∃ ls, (tokens s).mapM octetPieces = some ls ∧ ls.flatten.length = 6 ∧ (∀ p ∈ ls.flatten, p.all isHexDigit) ∧
      l = ls.flatten.map hexValue := by
  rw [octets] at h
  cases hls : (tokens s).mapM octetPieces with
  | none => simp [hls] at h
  | some ls =>
    simp only [hls, Option.bind_eq_bind, Option.bind_some, Option.ite_none_right_eq_some, Option.some.injEq] at h
    exact ⟨ls, rfl, h.1.1, h.1.2, h.2.symm⟩

theorem octets_spec {s : Text} {l : List Nat} (h : octets s = some l) : l.length = 6 ∧ ∀ o ∈ l, o < 256 := by
  obtain ⟨ls, hls, hlen, hhex, rfl⟩ := octets_eq_some h
  refine ⟨by rw [List.length_map, hlen], fun o ho => ?_⟩
  obtain ⟨p, hp, rfl⟩ := List.mem_map.mp ho
  obtain ⟨t, -, hplen, -⟩ := mem_flatten_pieces hls hp
  have hlt := hexValue_lt (hhex p hp)
  rcases hplen with hplen | hplen <;> rw [hplen] at hlt <;> omega

theorem flatten_octetPieces {t : Text} {l : List Text} (h : octetPieces t = some l) : l.flatten = t := by
  unfold octetPieces at h
  split at h
  · rw [← Option.some.inj h, List.flatten_singleton]
  · rw [← Option.some.inj h, List.flatten_singleton]
  · next hlen =>
    rw [← Option.some.inj h]
    match t, hlen with
    | [_, _, _, _], _ => rfl
  · next hlen =>
    rw [← Option.some.inj h]
    match t, hlen with
    | [_, _, _, _, _, _, _, _, _, _, _, _], _ => rfl
  · cases h

/-- The pieces of the words have all characters of the words. -/
theorem mem_pieces {toks : List Text} {ls : List (List Text)} (h : toks.mapM octetPieces = some ls) {t : Text} (ht : t ∈ toks) {c : Char}
    (hc : c ∈ t) : ∃ p ∈ ls.flatten, c ∈ p := by
  obtain ⟨l, hl, htl⟩ := (mem_mapM h).2 t ht
  rw [← flatten_octetPieces htl, List.mem_flatten] at hc
  obtain ⟨p, hp, hc⟩ := hc
  exact ⟨p, List.mem_flatten_of_mem hl hp, hc⟩

/-- A text with octets has no characters that names of files are matched with. -/
theorem not_special_of_octets {s : Text} {l : List Nat} (h : octets s = some l) : ∀ c ∈ s, isSpecial c = false := fun c hc => by
  rcases exists_token hc with rfl | rfl | rfl | rfl | hifs | ⟨t, ht, hct⟩
  · rfl
  · rfl
  · rfl
  · rfl
  · rcases isIfs_cases hifs with rfl | rfl | rfl <;> rfl
  · obtain ⟨ls, hls, -, hhex, -⟩ := octets_eq_some h
    obtain ⟨p, hp, hcp⟩ := mem_pieces hls ht hct
    exact isSpecial_of_isHexDigit (List.all_eq_true.mp (hhex p hp) c hcp)

/-- A word in front of others, which have six octets, makes more than six. -/
theorem octets_ne_of_front {s t : Text} {front : List Text} {l l' : List Nat} (ht : octets t = some l) (hs : octets s = some l')
    (htokens : tokens s = front ++ tokens t) : ∀ w ∈ front, w = [] := fun w hw => by
  obtain ⟨ls, hls, hlen, -, -⟩ := octets_eq_some ht
  obtain ⟨ls', hls', hlen', -, -⟩ := octets_eq_some hs
  rw [htokens, List.mapM_append] at hls'
  simp only [Option.bind_eq_bind, Option.bind_eq_some_iff, Option.pure_def, Option.some.injEq, hls] at hls'
  obtain ⟨la, hla, lb, rfl, rfl⟩ := hls'
  rw [List.flatten_append, List.length_append, hlen] at hlen'
  refine List.eq_nil_iff_forall_not_mem.mpr fun c hc => ?_
  obtain ⟨p, hp, -⟩ := mem_pieces hla hw hc
  have hpos := List.length_pos_of_mem hp
  omega

theorem exists_of_length_six {l : List Nat} (h : l.length = 6) : ∃ a b c d e f, l = [a, b, c, d, e, f] := by
  rcases l with - | ⟨a, - | ⟨b, - | ⟨c, - | ⟨d, - | ⟨e, - | ⟨f, - | ⟨g, l⟩⟩⟩⟩⟩⟩⟩
  case cons.cons.cons.cons.cons.cons.nil => exact ⟨a, b, c, d, e, f, rfl⟩
  all_goals simp at h

theorem format_ne_nil {l : List Nat} (h : l.length = 6) : format l ≠ [] := by
  obtain ⟨a, b, c, d, e, f, rfl⟩ := exists_of_length_six h
  simp [format_cons]

theorem format_mac {l : List Nat} (hlen : l.length = 6) (h : ∀ o ∈ l, o < 256) :
    (format l).length = 17 ∧ ∀ c ∈ format l, isMacChar c = true ∧ isIfs c = false := by
  have hmap := map_printfX h
  refine ⟨?_, fun c hc => ?_⟩
  · rw [format, hmap]
    obtain ⟨a, b, c, d, e, f, rfl⟩ := exists_of_length_six hlen
    rfl
  · rw [format, hmap] at hc
    rcases mem_intercalate hc with hc | ⟨p, hp, hc⟩
    · rw [List.mem_singleton.mp hc]
      exact ⟨rfl, rfl⟩
    · obtain ⟨o, -, rfl⟩ := List.mem_map.mp hp
      have hhex := isHexDigit_digits hc
      exact ⟨by simp [isMacChar, hhex], isIfs_of_isHexDigit hhex⟩

theorem echoOptions_of_head {c : Char} (hc : c ≠ '-') (escape : Bool) (w : Text) (args : List Text) :
    echoOptions escape ((c :: w) :: args) = (escape, (c :: w) :: args) := by
  unfold echoOptions
  split
  · next heq =>
    simp only [List.cons.injEq] at heq
    exact absurd heq.1.1 hc
  · rfl

theorem echoOptions_format {l : List Nat} (hlen : l.length = 6) (h : ∀ o ∈ l, o < 256) :
    echoOptions false [format l] = (false, [format l]) := by
  obtain ⟨c, w, hw⟩ := List.exists_cons_of_ne_nil (format_ne_nil hlen)
  have hhead : (format l).head? = some c := by rw [hw]; rfl
  rw [hw]
  refine echoOptions_of_head (fun hc => ?_) false w []
  rw [format, map_printfX h] at hhead
  obtain ⟨a, b, c, d, e, f, rfl⟩ := exists_of_length_six hlen
  have hhex : isHexDigit (a / 16 % 16).digitChar = true := isHexDigit_digitChar _ (Nat.mod_lt _ (by decide))
  have hdigit : (a / 16 % 16).digitChar = '-' := (Option.some.inj hhead).trans hc
  rw [hdigit] at hhex
  cases hhex

theorem blankSeparators_digits (w n : Nat) : blankSeparators (digits w n) = digits w n := by
  rw [blankSeparators]
  refine (List.map_congr_left fun c hc => if_neg fun h => ?_).trans (List.map_id _)
  have hhex := isHexDigit_digits hc
  rcases h with rfl | rfl | rfl <;> cases hhex

theorem blankSeparators_format {l : List Nat} (h : ∀ o ∈ l, o < 256) :
    blankSeparators (format l) = [' '].intercalate (l.map (digits 2)) := by
  rw [format, map_printfX h]
  clear h
  induction l with
  | nil => rfl
  | cons o l ih =>
    cases l with
    | nil => simpa using blankSeparators_digits 2 o
    | cons o' l =>
      have happend : ∀ a b, blankSeparators (a ++ [':'] ++ b) = blankSeparators a ++ [' '] ++ blankSeparators b := fun a b => by
        simp [blankSeparators]
      rw [List.map_cons] at ih
      rw [List.map_cons, List.map_cons, List.intercalate_cons_cons, List.intercalate_cons_cons, happend, blankSeparators_digits, ih]

section
variable {sh : Shell} (hpaths : ∀ w, w.any isSpecial = false → sh.paths w = [w])
include hpaths

theorem words_of_not_special {s : Text} (h : ∀ c ∈ s, isSpecial c = false) : sh.words s = fields s :=
  words_of_paths fun f hf => hpaths f (List.any_eq_false.mpr fun c hc => by simpa using h c ((mem_fields hf).2 c hc).1)

/-- The code computes the octets of what `echo` prints. -/
theorem canonicalize_eq (s : Text) : sh.macaddrCanonicalize s = ((accepted (sh.printed s)).map format).getD [] := by
  rw [Shell.macaddrCanonicalize]
  generalize sh.printed s = t
  rw [accepted]
  by_cases hlen : 17 < t.length
  · rw [if_pos hlen, if_neg (by omega)]
    rfl
  by_cases hmac : t.all isMacChar = true
  swap
  · have hany : (t.any fun c => !isMacChar c) = true := by simpa using hmac
    rw [if_neg hlen, if_pos hany, if_neg fun h => hmac h.2]
    rfl
  have hmem : ∀ c ∈ t, isMacChar c = true := List.all_eq_true.mp hmac
  have hany : (t.any fun c => !isMacChar c) = false := by simpa using hmem
  have hfilter : t.filter (· ≠ '"') = t := by
    rw [List.filter_eq_self]
    exact fun c hc => by
      have hne : c ≠ '"' := fun h => by
        have := hmem c hc
        rw [h] at this
        cases this
      simpa using hne
  have hwords : sh.words (blankSeparators t) = tokens t := by
    rw [tokens, hfilter]
    refine words_of_not_special hpaths fun c hc => ?_
    obtain ⟨d, hd, rfl⟩ := List.mem_map.mp hc
    split_ifs
    · rfl
    · exact isSpecial_of_isMacChar (hmem d hd)
  have hcanon := @canonFrom_eq (tokens t) [] (by simp)
  rw [if_neg hlen, hany, if_neg (by simp), if_pos ⟨by omega, hmac⟩, hwords, octets]
  rw [show [' '].intercalate ([] : List Text) = [] from rfl] at hcanon
  rw [hcanon]
  cases hls : (tokens t).mapM octetPieces with
  | none => rfl
  | some ls =>
    have hpieces : ∀ p ∈ ls.flatten, (p.length = 1 ∨ p.length = 2) ∧ ∀ c ∈ p, isHexDigit c = true := fun p hp => by
      obtain ⟨tok, htok, hplen, hsub⟩ := mem_flatten_pieces hls hp
      refine ⟨hplen, fun c hc => ?_⟩
      obtain ⟨hct, -, hdot, hcolon, hdash, hifs⟩ := (mem_tokens htok).2 c (hsub c hc)
      exact isHexDigit_of_isMacChar (hmem c hct) hdot hcolon hdash hifs
    have hpad : ∀ p ∈ ls.flatten.map pad, p.length = 2 ∧ ∀ c ∈ p, isHexDigit c = true := fun p hp => by
      obtain ⟨q, hq, rfl⟩ := List.mem_map.mp hp
      obtain ⟨hlen, hhex⟩ := hpieces q hq
      refine ⟨length_pad hlen, fun c hc => ?_⟩
      rw [pad] at hc
      split_ifs at hc
      · rcases List.mem_cons.mp hc with rfl | hc
        · rfl
        · exact hhex c hc
      · exact hhex c hc
    have hhex : ∀ p ∈ ls.flatten, p.all isHexDigit = true := fun p hp => List.all_eq_true.mpr (hpieces p hp).2
    simp only [Option.map_some, List.nil_append, Option.bind_eq_bind, Option.bind_some]
    by_cases hsix : ls.flatten.length = 6
    · have hne : ls.flatten.map pad ≠ [] := List.ne_nil_of_length_eq_add_one (by rw [List.length_map, hsix])
      have hcanonLen := length_joined hne fun p hp => (hpad p hp).1
      rw [List.length_map, hsix] at hcanonLen
      have hblank : ∀ p ∈ ls.flatten.map pad, ' ' ∉ p := fun p hp hb => by
        cases (hpad p hp).2 ' ' hb
      have hfields : ∀ f ∈ (ls.flatten.map pad).map ("0x".toList ++ ·), f ≠ [] ∧ ∀ c ∈ f, isIfs c = false := fun f hf => by
        obtain ⟨p, hp, rfl⟩ := List.mem_map.mp hf
        refine ⟨by simp, fun c hc => ?_⟩
        rcases List.mem_append.mp hc with hc | hc
        · have hall : ("0x".toList.all fun c => !isIfs c) = true := rfl
          simpa using List.all_eq_true.mp hall c hc
        · exact isIfs_of_isHexDigit ((hpad p hp).2 c hc)
      have hplain : ∀ c ∈ [' '].intercalate ((ls.flatten.map pad).map ("0x".toList ++ ·)), isSpecial c = false := fun c hc => by
        rcases mem_joined hc with rfl | ⟨f, hf, hc⟩
        · rfl
        · obtain ⟨p, hp, rfl⟩ := List.mem_map.mp hf
          rcases List.mem_append.mp hc with hc | hc
          · have hall : ("0x".toList.all fun c => !isSpecial c) = true := rfl
            simpa using List.all_eq_true.mp hall c hc
          · exact isSpecial_of_isHexDigit ((hpad p hp).2 c hc)
      rw [if_neg (by omega), if_pos ⟨hsix, hhex⟩, prefixed_joined hne hblank, words_of_not_special hpaths hplain, fields_joined hfields]
      simp [format, List.map_map, Function.comp_def, hexValue_pad]
    · have hcanonLen : ([' '].intercalate (ls.flatten.map pad)).length ≠ 17 := fun h17 => by
        by_cases hne : ls.flatten.map pad = []
        · rw [hne] at h17
          cases h17
        · have := length_joined hne fun p hp => (hpad p hp).1
          rw [List.length_map] at this
          omega
      rw [if_pos hcanonLen, if_neg fun h => hsix h.1]
      rfl

theorem canonical_or_empty (s : Text) : sh.macaddrCanonicalize s = [] ∨ Canonical (sh.macaddrCanonicalize s) := by
  rw [canonicalize_eq hpaths]
  cases hl : accepted (sh.printed s) with
  | none => exact Or.inl rfl
  | some l =>
    rw [accepted, Option.ite_none_right_eq_some] at hl
    obtain ⟨hlen, hlt⟩ := octets_spec hl.2
    exact Or.inr ⟨l, hlen, hlt, rfl⟩

omit hpaths in
theorem printed_plain {s : Text} (h : sh.Plain s) : sh.printed s = ([' '].intercalate (fields s)).filter (· ≠ '"') := by
  rw [Shell.printed, Shell.echoN, words_of_paths h.2, h.1]
  exact substitute_of_not_mem (newline_not_mem fun f hf => (fields_not_ifs f hf).2)

omit hpaths in
theorem tokens_printed {s : Text} (h : sh.Plain s) : tokens (sh.printed s) = tokens s := by
  rw [printed_plain h, tokens_filter, tokens_joined, flatMap_tokens]

/-- What is echoed as it is keeps its octets. -/
theorem right_of_plain {s : Text} (h : sh.Plain s) : sh.Right s := by
  rw [Shell.Right, canonicalize_eq hpaths]
  cases hl : accepted (sh.printed s) with
  | none => exact Or.inl rfl
  | some l =>
    rw [accepted, Option.ite_none_right_eq_some, octets_congr (tokens_printed h)] at hl
    exact Or.inr ⟨l, hl.2, rfl⟩

theorem right_iff (hescapes : ∀ t, '\\' ∉ t → sh.escapes t = t) (s : Text) : sh.Right s ↔ sh.Plain s ∨ accepted (sh.printed s) = none := by
  refine ⟨fun h => ?_, fun h => h.elim (right_of_plain hpaths) fun h => Or.inl (by rw [canonicalize_eq hpaths, h]; rfl)⟩
  cases hl : accepted (sh.printed s) with
  | none => exact Or.inr rfl
  | some l =>
    have hout := canonicalize_eq hpaths s
    rw [hl, Option.map_some, Option.getD_some] at hout
    rw [accepted, Option.ite_none_right_eq_some] at hl
    rcases h with h | ⟨l', hl', -⟩
    · exact absurd (hout.symm.trans h) (format_ne_nil (octets_spec hl.2).1)
    refine Or.inl ?_
    have hspecial : ∀ f ∈ fields s, ∀ c ∈ f, isSpecial c = false := fun f hf c hc =>
      not_special_of_octets hl' c ((mem_fields hf).2 c hc).1
    have hfields : ∀ f ∈ fields s, sh.paths f = [f] := fun f hf =>
      hpaths f (List.any_eq_false.mpr fun c hc => by simpa using hspecial f hf c hc)
    obtain ⟨opts, rest, hargs, hrest, hnone, hopts⟩ := echoOptions_split false (fields s)
    have hsub : ∀ f ∈ rest, f ∈ fields s := fun f hf => by
      rw [hargs]
      exact List.mem_append_right _ hf
    by_cases hnil : opts = []
    · refine ⟨Prod.ext (hnone hnil) ?_, hfields⟩
      rw [hrest, hargs, hnil, List.nil_append]
    -- An option in front of six octets would be more than six in the text.
    exfalso
    have hbackslash : '\\' ∉ [' '].intercalate rest := fun h => by
      rcases mem_joined h with h | ⟨f, hf, h⟩
      · cases h
      · cases hspecial f (hsub f hf) _ h
    have hecho : sh.echoN (sh.words s) = [' '].intercalate rest := by
      rw [Shell.echoN, words_of_paths hfields]
      cases hecho : echoOptions false (fields s) with
      | mk escape args =>
        rw [hecho] at hrest
        cases escape
        · rw [← hrest]
        · rw [← hrest] at hbackslash ⊢
          exact hescapes _ hbackslash
    have hprinted : sh.printed s = ([' '].intercalate rest).filter (· ≠ '"') := by
      rw [Shell.printed, hecho]
      exact substitute_of_not_mem (newline_not_mem fun f hf => (fields_not_ifs f (hsub f hf)).2)
    have htokens : tokens s = opts.flatMap tokens ++ tokens (sh.printed s) := by
      rw [hprinted, tokens_filter, tokens_joined, ← List.flatMap_append, ← hargs, flatMap_tokens]
    obtain ⟨o, hoMem⟩ := List.exists_mem_of_ne_nil opts hnil
    obtain ⟨x, hx, hletter⟩ := hopts o hoMem
    rcases exists_token hx with h | h | h | h | h | ⟨t, ht, -⟩
    · rcases hletter with rfl | rfl | rfl <;> cases h
    · rcases hletter with rfl | rfl | rfl <;> cases h
    · rcases hletter with rfl | rfl | rfl <;> cases h
    · rcases hletter with rfl | rfl | rfl <;> cases h
    · rcases hletter with rfl | rfl | rfl <;> cases h
    · exact (mem_tokens ht).1 (octets_ne_of_front hl.2 hl' htokens t (List.mem_flatMap.mpr ⟨o, hoMem, ht⟩))

/-- The usual form stays. -/
theorem canonicalize_canonical {m : Text} (hm : Canonical m) : sh.macaddrCanonicalize m = m := by
  obtain ⟨l, hlen, hl, rfl⟩ := hm
  obtain ⟨hsize, hmem⟩ := format_mac hlen hl
  have hifs : ∀ c ∈ format l, isIfs c = false := fun c hc => (hmem c hc).2
  have hfields : fields (format l) = [format l] := fields_of_not_ifs (format_ne_nil hlen) hifs
  have hplain : sh.Plain (format l) := by
    rw [Shell.Plain, hfields]
    refine ⟨echoOptions_format hlen hl, fun f hf => ?_⟩
    rw [List.mem_singleton.mp hf]
    exact hpaths _ (List.any_eq_false.mpr fun c hc => by simp [isSpecial_of_isMacChar (hmem c hc).1])
  have hquote : (format l).filter (· ≠ '"') = format l := by
    rw [List.filter_eq_self]
    intro c hc
    have hne : c ≠ '"' := fun h => by
      have hmac := (hmem c hc).1
      rw [h] at hmac
      cases hmac
    simpa using hne
  have hprinted : sh.printed (format l) = format l := by
    rw [printed_plain hplain, hfields, List.intercalate_singleton, hquote]
  have hoctets : octets (format l) = some l := by
    have htokens : tokens (format l) = l.map (digits 2) := by
      rw [tokens, hquote, blankSeparators_format hl, fields_joined]
      intro f hf
      obtain ⟨o, -, rfl⟩ := List.mem_map.mp hf
      exact ⟨List.ne_nil_of_length_eq_add_one (length_digits 2 o), fun c hc => isIfs_of_isHexDigit (isHexDigit_digits hc)⟩
    have hpieces : (l.map (digits 2)).mapM octetPieces = some (l.map fun o => [digits 2 o]) := by
      clear * -
      induction l with
      | nil => rfl
      | cons o l ih =>
        rw [List.map_cons, List.mapM_cons, ih]
        rfl
    have hflatten : (l.map fun o => [digits 2 o]).flatten = l.map (digits 2) := by
      rw [← List.flatMap_def]
      exact List.map_eq_flatMap.symm
    have hvalues : (l.map (digits 2)).map hexValue = l := by
      rw [List.map_map]
      exact (List.map_congr_left fun o ho => hexValue_digits (hl o ho)).trans (List.map_id l)
    rw [octets, htokens, hpieces, Option.bind_eq_bind, Option.bind_some, hflatten, hvalues, if_pos]
    refine ⟨by rw [List.length_map, hlen], fun p hp => ?_⟩
    obtain ⟨o, -, rfl⟩ := List.mem_map.mp hp
    exact List.all_eq_true.mpr fun c hc => isHexDigit_digits hc
  rw [canonicalize_eq hpaths, hprinted, accepted, if_pos ⟨by omega, List.all_eq_true.mpr fun c hc => (hmem c hc).1⟩, hoctets]
  rfl

theorem canonicalize_twice (s : Text) : sh.macaddrCanonicalize (sh.macaddrCanonicalize s) = sh.macaddrCanonicalize s := by
  rcases canonical_or_empty hpaths s with h | h
  · rw [h]
    rfl
  · exact canonicalize_canonical hpaths h

end

/-- Addresses as the shell computes them: the octets of a text are kept exactly if `echo` prints the words of the text, or what it
    prints is refused; sums and bits are as the numbers have them. -/
theorem macaddr_iff (sh : Shell) (hpaths : ∀ w, w.any isSpecial = false → sh.paths w = [w])
    (hescapes : ∀ t, '\\' ∉ t → sh.escapes t = t) :
    (∀ s, sh.Right s ↔ sh.Plain s ∨ accepted (sh.printed s) = none) ∧
      (∀ s, sh.macaddrCanonicalize s = [] ∨ Canonical (sh.macaddrCanonicalize s)) ∧
      (∀ s, sh.macaddrCanonicalize (sh.macaddrCanonicalize s) = sh.macaddrCanonicalize s) ∧
      ∀ m, Canonical m → (∀ a b, macaddrAdd (macaddrAdd m a) b = macaddrAdd m (a + b)) ∧ macaddrAdd m 0 = m ∧
        (∀ a, Canonical (macaddrAdd m a) ∧ (macaddrAdd m a).take 8 = m.take 8) ∧
        ∀ bit : Nat, 1 ≤ bit → bit ≤ 48 →
          (Canonical (macaddrSetbit m bit) ∧ ∀ j, 1 ≤ j → j ≤ 48 → bitAt (macaddrSetbit m bit) j = (j = bit || bitAt m j)) ∧
            Canonical (macaddrUnsetbit m bit) ∧ ∀ j, 1 ≤ j → j ≤ 48 → bitAt (macaddrUnsetbit m bit) j = (j ≠ bit && bitAt m j) := by
  refine ⟨right_iff hpaths hescapes, canonical_or_empty hpaths, canonicalize_twice hpaths, fun m hm => ?_⟩
  obtain ⟨hadd, hzero, hsame⟩ := macaddrAdd_sums hm
  exact ⟨hadd, hzero, hsame, fun bit h1 h48 => ⟨macaddrSetbit_bits hm h1 h48, macaddrUnsetbit_bits hm h1 h48⟩⟩

/-- A shell in an empty directory. -/
def emptyDir : Shell := ⟨fun w => [w], id⟩

/-- `-e` is an option for `echo`, and an octet of the text. -/
theorem macaddr_drops_octet : ¬emptyDir.Right "-e 001122334455".toList := fun h => by
  have hout : emptyDir.macaddrCanonicalize "-e 001122334455".toList ≠ [] := by decide
  have hnone : octets "-e 001122334455".toList = none := by decide
  rcases h with h | ⟨l, hl, -⟩
  · exact hout h
  · rw [hnone] at hl
    cases hl

theorem macaddr_iff_empty :
    (emptyDir.Right "0:11:22:33:44:55".toList ↔ emptyDir.Plain "0:11:22:33:44:55".toList ∨
      accepted (emptyDir.printed "0:11:22:33:44:55".toList) = none) ∧ emptyDir.Plain "0:11:22:33:44:55".toList :=
  ⟨(macaddr_iff emptyDir (fun _ _ => rfl) fun _ _ => rfl).1 _, rfl, fun _ _ => rfl⟩

end RainWrt.BaseFiles
