import RainWrt.Theorems.Uline.Scan

/-! When an escaped argument is parsed back to itself. -/

namespace RainWrt.Uline

/-- How the lines are returned. -/
def toLines ( sep : Char) {α : Type} (lines : List (List α)) : Lines α := if sep = '\x00' then .only lines.flatten else .each lines

/-- What the parser makes of a text without NUL. -/
def scanText ( sep : Char) (text : List Char) : Scan := (text.dropWhile isspace).foldl (Scan.feed sep) {}

section
variable { sep : Char}

/-- Without a separator there is one line. -/
theorem feed_finished {s : Scan} {c : Char} (hc : c ≠ sep) : (s.feed sep c).finished = s.finished := by
  have hmove : (control sep s.mode s.run c).2.2 ≠ .split := by
    unfold control
    split
    · unfold unquotedMove
      split_ifs <;> nofun
    all_goals split_ifs <;> nofun
  unfold Scan.feed
  cases h : (control sep s.mode s.run c).2.2 <;> simp_all [Scan.apply, Scan.push]

theorem finished_of_not_mem {w : List Char} (s : Scan) (h : sep ∉ w) : (w.foldl (Scan.feed sep) s).finished = s.finished := by
  induction w generalizing s with
  | nil => rfl
  | cons c w ih =>
    obtain ⟨hc, hw⟩ := List.ne_and_not_mem_of_not_mem_cons h
    rw [List.foldl_cons, ih _ hw, feed_finished (Ne.symm hc)]

theorem argpParse_eq ( sep : Char) {text : List Char} (h0 : '\x00' ∉ text) :
    (argpParse sep text).args = toLines sep (scanText sep text).lines ∧ (argpParse sep text).missing = (scanText sep text).mode.missing := by
  have h0' : '\x00' ∉ text.dropWhile isspace := fun h => h0 ((List.dropWhile_sublist _).subset h)
  have hloop : ((({ str := text } : Parser).skipSpace.loop sep).push).scan = (scanText sep text).settle.push := by
    rw [Parser.push_scan, Parser.loop_scan (by exact h0')]
    rfl
  have hmode := congrArg Scan.mode hloop
  have hargs := congrArg Scan.args hloop
  have hfin := congrArg Scan.finished hloop
  simp only [Parser.scan] at hmode hargs hfin
  by_cases hs : sep = '\x00'
  · have hnil : (scanText sep text).finished = [] := finished_of_not_mem _ (hs ▸ h0')
    simp only [argpParse, toLines, hs, ne_eq, not_true_eq_false, ↓reduceIte, Scan.lines]
    subst hs
    rw [hargs, hmode, hnil]
    simp [Scan.settle, Scan.push]
  · simp only [argpParse, toLines, hs, ne_eq, not_false_eq_true, ↓reduceIte, Scan.lines, List.map_append, List.map_cons, List.map_nil]
    rw [hargs, hmode, hfin]
    exact ⟨rfl, rfl⟩

end

/-! ### Escaping -/

/-- A character between quotes. -/
def escapeChar (ref c : Char) : List Char := if c = ref then quoted ref else [c]

theorem escapeLoop_eq (ref : Char) (str : List Char) : escapeLoop ref str = str.flatMap (escapeChar ref) := by
  have hplain : ∀ w : List Char, (∀ c ∈ w, c ≠ ref) → w.flatMap (escapeChar ref) = w := by
    intro w hw
    induction w with
    | nil => rfl
    | cons c w ih =>
      rw [List.flatMap_cons, ih fun d hd => hw d (List.mem_cons_of_mem _ hd), escapeChar, if_neg (hw c List.mem_cons_self)]
      rfl
  fun_induction escapeLoop ref str with
  | case1 str h =>
    rw [List.dropWhile_eq_nil_iff] at h
    exact (hplain str fun c hc => by simpa using h c hc).symm
  | case2 str c rest h ih =>
    have hc : c = ref := by
      have hstop := List.head?_dropWhile_not (fun c => decide (c ≠ ref)) str
      rw [h] at hstop
      simpa using hstop
    have hsplit : str = str.takeWhile (· ≠ ref) ++ c :: rest := by rw [← h, List.takeWhile_append_dropWhile]
    have htake := hplain (str.takeWhile (· ≠ ref)) fun d hd => by simpa using List.mem_takeWhile_imp hd
    nth_rewrite 2 [hsplit]
    rw [List.flatMap_append, htake, List.flatMap_cons, ← ih, escapeChar, if_pos hc, List.append_assoc]

/-- What `argp.parse` gives for an escaped argument is this argument, as the only one. -/
def RoundTrips ( sep : Char) (refArg : Option (List Char)) (s : List Char) : Prop :=
  (argpParse sep (argpEscape refArg s)).args = toLines sep [[s]] ∧ (argpParse sep (argpEscape refArg s)).missing = none

section
variable { sep : Char}

theorem Scan.text_eq (s : Scan) : s.lines.flatten.flatten = s.text := by
  simp only [lines, push, text, List.flatten_append, List.flatten_cons, List.flatten_nil, List.append_nil, List.append_assoc]
  cases s.buf <;> simp

theorem missing_eq_none {mode : Quoting} : mode.missing = none ↔ mode = .unquoted := by
  cases mode <;> simp [Quoting.missing]

/-- The parts of the result, if it is one argument. -/
theorem RoundTrips.scan {refArg : Option (List Char)} {s : List Char} (h0 : '\x00' ∉ argpEscape refArg s)
    (h : RoundTrips sep refArg s) :
    (scanText sep (argpEscape refArg s)).text = s ∧ (scanText sep (argpEscape refArg s)).mode = .unquoted := by
  obtain ⟨hargs, hmissing⟩ := argpParse_eq sep h0
  rw [RoundTrips, hargs, hmissing, missing_eq_none] at h
  refine ⟨?_, h.2⟩
  have hlines := h.1
  rw [← Scan.text_eq]
  unfold toLines at hlines
  split_ifs at hlines
  · rw [Lines.only.inj hlines]
    simp
  · rw [Lines.each.inj hlines]
    simp

theorem RoundTrips.of_scan {refArg : Option (List Char)} {s : List Char} (h0 : '\x00' ∉ argpEscape refArg s)
    (hlines : (scanText sep (argpEscape refArg s)).lines = [[s]]) (hmode : (scanText sep (argpEscape refArg s)).mode = .unquoted) :
    RoundTrips sep refArg s := by
  obtain ⟨hargs, hmissing⟩ := argpParse_eq sep h0
  rw [RoundTrips, hargs, hmissing, missing_eq_none, hlines]
  exact ⟨rfl, hmode⟩

/-! ### What each character adds -/

/-- A character is read or left out. -/
def Move.emits (c : Char) : Move → List Char
  | .add => [c]
  | _ => []

namespace Scan

theorem apply_text (s : Scan) (c : Char) (move : Move) : (s.apply c move).text = s.text ++ move.emits c := by
  cases move with
  | drop => simp [apply, Move.emits]
  | add => simp [apply, text, Move.emits]
  | quote => simp [apply, text, Move.emits]
  | space => cases hb : s.buf <;> simp [apply, push, text, Move.emits, hb]
  | split => cases hb : s.buf <;> simp [apply, push, text, Move.emits, hb]

theorem feed_text (s : Scan) (c : Char) : (s.feed sep c).text = s.text ++ (control sep s.mode s.run c).2.2.emits c :=
  s.apply_text c _

theorem feed_mode (s : Scan) (c : Char) : (s.feed sep c).mode = (control sep s.mode s.run c).1 := rfl

theorem text_length ( sep : Char) (s : Scan) (w : List Char) : (w.foldl (feed sep) s).text.length ≤ s.text.length + w.length := by
  induction w generalizing s with
  | nil => exact Nat.le_refl _
  | cons c w ih =>
    have hc : (s.feed sep c).text.length ≤ s.text.length + 1 := by
      rw [feed_text, List.length_append]
      cases (control sep s.mode s.run c).2.2 <;> simp [Move.emits]
    have hw := ih (s.feed sep c)
    rw [List.foldl_cons, List.length_cons]
    omega

end Scan

/-! ### Without quotes -/

/-- The characters that make the code quote an argument. -/
def needsQuote : List Char := ['\n', '\t', ' ', '\'', '"']

/-- Without a quote or a backslash the parser stays outside of quotes. -/
theorem mode_unquoted {w : List Char} {s : Scan} (hm : s.mode = .unquoted) (h : ∀ c ∈ w, c ∉ needsQuote ∧ c ≠ '\\') :
    (w.foldl (Scan.feed sep) s).mode = .unquoted := by
  induction w generalizing s with
  | nil => exact hm
  | cons c w ih =>
    refine ih ?_ fun d hd => h d (List.mem_cons_of_mem _ hd)
    have hc := h c List.mem_cons_self
    rw [Scan.feed_mode, hm]
    simp only [needsQuote, List.mem_cons, List.not_mem_nil, or_false, not_or] at hc
    simp only [control, unquotedMove, hc, if_false]
    split_ifs <;> rfl

/-- A backslash, a carriage return or a separator outside of quotes is left out. -/
theorem emits_nil {run : Bool} {c : Char} (h : c = '\\' ∨ c = '\r' ∨ c = sep) :
    (unquotedMove sep run c).2.2.emits c = [] := by
  unfold unquotedMove
  split_ifs
  all_goals first | rfl | simp_all

/-- So an argument that is not quoted gets shorter. -/
theorem unquoted_shorter {w : List Char} (hw : ∀ c ∈ w, c ∉ needsQuote) (h : '\\' ∈ w ∨ '\r' ∈ w ∨ sep ∈ w) :
    (w.foldl (Scan.feed sep) {}).text.length < w.length := by
  have hsplit : ∃ p c t, w = p ++ c :: t ∧ '\\' ∉ p ∧ (c = '\\' ∨ c = '\r' ∨ c = sep) := by
    by_cases hb : '\\' ∈ w
    · obtain ⟨p, t, rfl, hp⟩ := List.eq_append_cons_of_mem hb
      exact ⟨p, _, t, rfl, hp, Or.inl rfl⟩
    · obtain ⟨c, hc, hin⟩ : ∃ c, (c = '\r' ∨ c = sep) ∧ c ∈ w := by
        obtain h | h | h := h
        · exact absurd h hb
        · exact ⟨_, Or.inl rfl, h⟩
        · exact ⟨_, Or.inr rfl, h⟩
      obtain ⟨p, t, rfl⟩ := List.append_of_mem hin
      exact ⟨p, c, t, rfl, fun hp => hb (List.mem_append_left _ hp), Or.inr hc⟩
  obtain ⟨p, c, t, rfl, hp, hc⟩ := hsplit
  have hmode : (p.foldl (Scan.feed sep) {}).mode = .unquoted :=
    mode_unquoted rfl fun d hd => ⟨hw d (List.mem_append_left _ hd), fun hd' => hp (hd' ▸ hd)⟩
  have hptext := Scan.text_length sep {} p
  rw [List.foldl_append, List.foldl_cons]
  generalize p.foldl (Scan.feed sep) {} = s at hmode hptext
  have hctext : (s.feed sep c).text = s.text := by
    rw [Scan.feed_text, hmode, control, emits_nil hc, List.append_nil]
  have httext := Scan.text_length sep (s.feed sep c) t
  rw [hctext] at httext
  rw [List.length_append, List.length_cons]
  have hnil : ({} : Scan).text.length = 0 := rfl
  omega

/-! ### In double quotes -/

/-- What a character of the argument does, written as the escaper writes it. An apostrophe that is not read
    opens or closes single quotes; outside of these a character adds one at most. -/
theorem escaped_char ( sep : Char) (s : Scan) (x : Char) : ∃ o,
    ((escapeChar '"' x).foldl (Scan.feed sep) s).text = s.text ++ o ∧ o.count '\'' ≤ [x].count '\'' ∧
    (o.count '\'' = [x].count '\'' → s.mode ≠ .singleQuote →
      ((escapeChar '"' x).foldl (Scan.feed sep) s).mode ≠ .singleQuote ∧ o.length ≤ 1) ∧
    (((escapeChar '"' x).foldl (Scan.feed sep) s).mode = .backslash → x = '\\') := by
  by_cases hx : x = '"'
  · subst hx
    -- the backslash that the escaper puts before the quote is literal behind a backslash and between single quotes
    obtain ⟨m₁, m₂, run, a, b, h₁, h₂, hcount, hlen, hback⟩ : ∃ m₁ m₂ run a b,
        control sep s.mode s.run '\\' = (m₁, false, a) ∧ control sep m₁ false '"' = (m₂, run, b) ∧
        (a.emits '\\' ++ b.emits '"').count '\'' = 0 ∧
        (s.mode ≠ .singleQuote → m₂ ≠ .singleQuote ∧ (a.emits '\\' ++ b.emits '"').length ≤ 1) ∧ m₂ ≠ .backslash := by
      cases s.mode with
      | unquoted => exact ⟨.backslash, .unquoted, false, .quote, .add, by cases s.run <;> rfl, rfl, by decide⟩
      | backslash => exact ⟨.unquoted, .doubleQuote, false, .add, .quote, rfl, rfl, by decide⟩
      | singleQuote => exact ⟨.singleQuote, .singleQuote, false, .add, .add, rfl, rfl, by decide⟩
      | doubleQuote => exact ⟨.doubleQuoteBackslash, .doubleQuote, false, .drop, .add, rfl, rfl, by decide⟩
      | doubleQuoteBackslash => exact ⟨.doubleQuote, .unquoted, false, .add, .drop, rfl, rfl, by decide⟩
    have hfirst := Scan.feed_of_control h₁
    have hmode : (s.feed sep '\\').mode = m₁ := by rw [hfirst]
    have hrun : (s.feed sep '\\').run = false := by rw [hfirst]
    have h₂' : control sep (s.feed sep '\\').mode (s.feed sep '\\').run '"' = (m₂, run, b) := by rw [hmode, hrun, h₂]
    have hlast : ((s.feed sep '\\').feed sep '"').mode = m₂ := by rw [Scan.feed_of_control h₂']
    have htext : ((s.feed sep '\\').feed sep '"').text = s.text ++ (a.emits '\\' ++ b.emits '"') := by
      rw [Scan.feed_text, h₂', Scan.feed_text, h₁, List.append_assoc]
    have hesc : escapeChar '"' '"' = ['\\', '"'] := rfl
    rw [hesc, List.foldl_cons, List.foldl_cons, List.foldl_nil, hlast]
    exact ⟨_, htext, by rw [hcount]; exact Nat.zero_le _, fun _ => hlen, fun h => absurd h hback⟩
  · have hesc : escapeChar '"' x = [x] := if_neg hx
    rw [hesc, List.foldl_cons, List.foldl_nil]
    refine ⟨_, Scan.feed_text s x, ?_⟩
    rw [Scan.feed_mode]
    cases hm : s.mode with
    | unquoted =>
      have hone : [x].count '\'' ≤ 1 := List.count_le_length
      simp only [control, unquotedMove]
      split_ifs <;> simp_all [Move.emits]
    | backslash => by_cases hn : x = '\n' <;> simp [control, hn, Move.emits]
    | singleQuote => by_cases hn : x = '\'' <;> simp [control, hn, Move.emits]
    | doubleQuote => by_cases hn : x = '\\' <;> simp [control, hx, hn, Move.emits]
    | doubleQuoteBackslash => by_cases hn : x = '\n' <;> simp [control, hn, Move.emits]

/-- The same for a text. -/
theorem escaped_text ( sep : Char) (s : Scan) (w : List Char) : ∃ o,
    ((w.flatMap (escapeChar '"')).foldl (Scan.feed sep) s).text = s.text ++ o ∧ o.count '\'' ≤ w.count '\'' ∧
    (o.count '\'' = w.count '\'' → s.mode ≠ .singleQuote → o.length ≤ w.length) ∧
    (((w.flatMap (escapeChar '"')).foldl (Scan.feed sep) s).mode = .backslash → (w = [] ∧ s.mode = .backslash) ∨ ∃ v, w = v ++ ['\\']) := by
  induction w generalizing s with
  | nil => exact ⟨[], by simp, Nat.le_refl _, fun _ _ => Nat.le_refl _, fun h => Or.inl ⟨rfl, h⟩⟩
  | cons x w ih =>
    obtain ⟨o, htext, hcount, hkeep, hlast⟩ := escaped_char sep s x
    rw [List.flatMap_cons, List.foldl_append]
    generalize (escapeChar '"' x).foldl (Scan.feed sep) s = s₁ at htext hkeep hlast
    obtain ⟨o', htext', hcount', hkeep', hlast'⟩ := ih s₁
    have hx : (x :: w).count '\'' = [x].count '\'' + w.count '\'' := by
      rw [← List.count_append, List.singleton_append]
    refine ⟨o ++ o', by rw [htext', htext, List.append_assoc], ?_, ?_, ?_⟩
    · rw [List.count_append, hx]
      exact Nat.add_le_add hcount hcount'
    · intro heq hmode
      rw [List.count_append, hx] at heq
      obtain ⟨hmode', hlen⟩ := hkeep (by omega) hmode
      have hlen' := hkeep' (by omega) hmode'
      rw [List.length_append, List.length_cons]
      omega
    · intro hback
      obtain ⟨rfl, hs⟩ | ⟨v, rfl⟩ := hlast' hback
      · exact Or.inr ⟨[], by rw [hlast hs]; rfl⟩
      · exact Or.inr ⟨x :: v, rfl⟩

/-- The parser behind the quote that opens the argument. -/
def opened (ref : Quoting) (w : List Char) : Scan := { mode := ref, buf := some w }

/-- Between double quotes an argument without a backslash is read back. -/
theorem doubleQuoted {w : List Char} (v : List Char) (h : '\\' ∉ w) :
    (w.flatMap (escapeChar '"')).foldl (Scan.feed sep) (opened .doubleQuote v) = opened .doubleQuote (v ++ w) := by
  induction w generalizing v with
  | nil => simp
  | cons c w ih =>
    obtain ⟨hc, hw⟩ := List.ne_and_not_mem_of_not_mem_cons h
    have hread : (escapeChar '"' c).foldl (Scan.feed sep) (opened .doubleQuote v) = opened .doubleQuote (v ++ [c]) := by
      by_cases hq : c = '"'
      · subst hq
        rfl
      · simp [escapeChar, hq, opened, Scan.feed, control, Ne.symm hc, Scan.apply]
    rw [List.flatMap_cons, List.foldl_append, hread, ih _ hw, List.append_assoc, List.singleton_append]

/-- Between single quotes any argument is. -/
theorem singleQuoted (v w : List Char) :
    (w.flatMap (escapeChar '\'')).foldl (Scan.feed sep) (opened .singleQuote v) = opened .singleQuote (v ++ w) := by
  induction w generalizing v with
  | nil => simp
  | cons c w ih =>
    have hread : (escapeChar '\'' c).foldl (Scan.feed sep) (opened .singleQuote v) = opened .singleQuote (v ++ [c]) := by
      by_cases hq : c = '\''
      · subst hq
        rfl
      · simp [escapeChar, hq, opened, Scan.feed, control, Scan.apply]
    rw [List.flatMap_cons, List.foldl_append, hread, ih, List.append_assoc, List.singleton_append]

/-- With a backslash, it is not. -/
theorem doubleQuoted_backslash ( sep : Char) {w : List Char} (h : '\\' ∈ w) :
    ¬(((w.flatMap (escapeChar '"') ++ ['"']).foldl (Scan.feed sep) (opened .doubleQuote [])).text = w ∧
      ((w.flatMap (escapeChar '"') ++ ['"']).foldl (Scan.feed sep) (opened .doubleQuote [])).mode = .unquoted) := by
  rintro ⟨htext, hmode⟩
  obtain ⟨p, t, rfl, hp⟩ := List.eq_append_cons_of_mem h
  have hback : escapeChar '"' '\\' = ['\\'] := rfl
  rw [List.flatMap_append, List.flatMap_cons, hback, List.append_assoc, List.foldl_append, doubleQuoted [] hp, List.nil_append,
    List.append_assoc, List.foldl_append, List.foldl_cons, List.foldl_nil, List.foldl_append, List.foldl_cons, List.foldl_nil] at htext hmode
  have hs : ((opened .doubleQuote p).feed sep '\\').text = p ∧ ((opened .doubleQuote p).feed sep '\\').mode = .doubleQuoteBackslash :=
    ⟨rfl, rfl⟩
  generalize (opened .doubleQuote p).feed sep '\\' = s at hs htext hmode
  obtain ⟨hstext, hsmode⟩ := hs
  obtain ⟨o, hotext, hcount, hkeep, hlast⟩ := escaped_text sep s t
  generalize (t.flatMap (escapeChar '"')).foldl (Scan.feed sep) s = s' at hotext hlast htext hmode
  rw [Scan.feed_text, hotext, hstext, List.append_assoc, List.append_right_inj] at htext
  -- nothing makes up for the backslash that was left out, unless the closing quote is read itself
  have hquote : s'.mode = .backslash ∧ (control sep s'.mode s'.run '"').2.2.emits '"' = ['"'] := by
    rw [Scan.feed_mode] at hmode
    have hlen := congrArg List.length htext
    have hcounts := congrArg (List.count '\'') htext
    rw [List.length_append, List.length_cons] at hlen
    rw [List.count_append, List.count_cons_of_ne (by decide)] at hcounts
    have hnone : ((control sep s'.mode s'.run '"').2.2.emits '"').count '\'' = 0 := by
      cases (control sep s'.mode s'.run '"').2.2 <;> rfl
    have holen := hkeep (by omega) (by rw [hsmode]; nofun)
    cases hm : s'.mode with
    | backslash => exact ⟨rfl, rfl⟩
    | unquoted =>
      have hopen : control sep .unquoted s'.run '"' = (.doubleQuote, false, .quote) := by cases s'.run <;> rfl
      rw [hm, hopen] at hmode
      cases hmode
    | singleQuote | doubleQuoteBackslash =>
      rw [hm] at hmode
      cases hmode
    | doubleQuote =>
      have hnil : (control sep .doubleQuote s'.run '"').2.2.emits '"' = [] := rfl
      rw [hm, hnil, List.length_nil] at hlen
      omega
  rw [hquote.2] at htext
  obtain ⟨rfl, hm⟩ | ⟨v, rfl⟩ := hlast hquote.1
  · rw [hsmode] at hm
    cases hm
  · rw [← List.cons_append] at htext
    exact absurd (List.append_inj_right' htext rfl) (by decide)

/-! ### Which arguments are parsed back to themselves -/

/-- Those that the escaper can quote. Between single quotes everything can stand, and between double quotes
    everything but a backslash, since the escaper leaves it as it is there. What it does not quote has to be one
    unquoted word of the parser; only the first byte of a word can be a vertical tab or a form feed that counts as space. -/
def Survives ( sep : Char) (refArg : Option (List Char)) (s : List Char) : Prop :=
  if refChar refArg = '\'' then True
  else if refChar refArg = '"' ∨ ∃ c ∈ s, c ∈ needsQuote then '\\' ∉ s
  else s ≠ [] ∧ '\\' ∉ s ∧ '\r' ∉ s ∧ sep ∉ s ∧ s.head? ≠ some '\x0b' ∧ s.head? ≠ some '\x0c'

theorem nul_not_mem_escape (ref : Char) {s : List Char} (hs : '\x00' ∉ s) : '\x00' ∉ s.flatMap (escapeChar ref) := by
  rw [List.mem_flatMap]
  rintro ⟨c, hc, h⟩
  unfold escapeChar quoted at h
  split_ifs at h
  · simp at h
  · simp at h
  · rw [List.mem_singleton] at h
    exact hs (h ▸ hc)

/-- The escaped argument, by the quote that is asked for. -/
theorem argpEscape_eq (refArg : Option (List Char)) {s : List Char} (hs : '\x00' ∉ s) :
    argpEscape refArg s =
      if refChar refArg = '\'' then '\'' :: s.flatMap (escapeChar '\'') ++ ['\'']
      else if refChar refArg = '"' ∨ ∃ c ∈ s, c ∈ needsQuote then '"' :: s.flatMap (escapeChar '"') ++ ['"']
      else s := by
  have hstr : s.takeWhile (· ≠ '\x00') = s := by
    rw [List.takeWhile_eq_self_iff]
    exact fun c hc => decide_eq_true fun h => hs (h ▸ hc)
  have hany : s.any (· ∈ ['\n', '\t', ' ', '\'', '"']) = true ↔ ∃ c ∈ s, c ∈ needsQuote := by
    simp [needsQuote]
  simp only [argpEscape, hstr, quoteFor, hany, escapeLoop_eq]
  by_cases hsingle : refChar refArg = '\''
  · simp [hsingle]
  by_cases hdouble : refChar refArg = '"'
  · simp [hdouble]
  by_cases hneeds : ∃ c ∈ s, c ∈ needsQuote
  · rw [if_pos (c := refChar refArg ≠ '"' ∧ _) ⟨hdouble, hsingle, hneeds⟩, if_neg hsingle, if_pos (Or.inr hneeds)]
    rfl
  · rw [if_neg (c := refChar refArg ≠ '"' ∧ refChar refArg ≠ '\'' ∧ _) fun h => hneeds h.2.2, if_pos ⟨hdouble, hsingle⟩, if_neg hsingle,
      if_neg fun h => h.elim hdouble hneeds]

/-- A quoted argument is read from its first quote on. -/
theorem scanText_quoted (ref : Char) (mode : Quoting) (w : List Char) (hsp : isspace ref = false)
    (hopen : Scan.feed sep {} ref = opened mode []) :
    scanText sep (ref :: w ++ [ref]) = (w.foldl (Scan.feed sep) (opened mode [])).feed sep ref := by
  rw [scanText, List.cons_append, List.dropWhile_cons_of_neg (by rw [hsp]; nofun), List.foldl_cons, hopen, List.foldl_append]
  rfl

/-- An argument that is not quoted is one word. -/
theorem scanText_word {w : List Char} (hw : w ≠ []) (hneeds : ∀ c ∈ w, c ∉ needsQuote) (hback : '\\' ∉ w) (hcr : '\r' ∉ w)
    (hsep : sep ∉ w) (hvt : w.head? ≠ some '\x0b') (hff : w.head? ≠ some '\x0c') :
    scanText sep w = { run := true, buf := some w } := by
  have htok : ∀ c ∈ w, c ∉ Parser.unquoteTok sep := by
    intro c hc
    have hn := hneeds c hc
    have h1 : c ≠ '\\' := fun h => hback (h ▸ hc)
    have h2 : c ≠ '\r' := fun h => hcr (h ▸ hc)
    have h3 : c ≠ sep := fun h => hsep (h ▸ hc)
    simp only [needsQuote, Parser.unquoteTok, List.mem_cons, List.not_mem_nil, or_false] at hn ⊢
    tauto
  obtain ⟨c, v, rfl⟩ := List.exists_cons_of_ne_nil hw
  have hsp : isspace c = false := by
    have hc := htok c List.mem_cons_self
    simp only [List.head?_cons, ne_eq, Option.some.injEq] at hvt hff
    simp only [isspace, Parser.unquoteTok, List.mem_cons, List.not_mem_nil, or_false, decide_eq_false_iff_not] at hc ⊢
    tauto
  rw [scanText, List.dropWhile_cons_of_neg (by rw [hsp]; exact Bool.false_ne_true), Scan.feed_start rfl rfl hw (by simp [hsp]) htok]
  rfl

/-- An argument that is not quoted and read back is one word. -/
theorem word_of_text {w : List Char} (hneeds : ∀ c ∈ w, c ∉ needsQuote) (h : (scanText sep w).text = w) :
    '\\' ∉ w ∧ '\r' ∉ w ∧ sep ∉ w ∧ w.head? ≠ some '\x0b' ∧ w.head? ≠ some '\x0c' := by
  have hsp : w.head?.any isspace = false := by
    cases w with
    | nil => rfl
    | cons c w =>
      by_contra hsp
      rw [Bool.not_eq_false, List.head?_cons, Option.any_some] at hsp
      have hlen := Scan.text_length sep {} ((c :: w).dropWhile isspace)
      have hdrop := (List.dropWhile_sublist isspace (l := w)).length_le
      have hnil : ({} : Scan).text.length = 0 := rfl
      rw [scanText] at h
      rw [h, List.dropWhile_cons_of_pos hsp, List.length_cons] at hlen
      omega
  have hdrop : w.dropWhile isspace = w := by
    cases w with
    | nil => rfl
    | cons c w => exact List.dropWhile_cons_of_neg (by simpa using hsp)
  have hshort : ¬('\\' ∈ w ∨ '\r' ∈ w ∨ sep ∈ w) := by
    intro hbad
    have hlt := unquoted_shorter hneeds hbad
    rw [scanText, hdrop] at h
    rw [h] at hlt
    exact Nat.lt_irrefl _ hlt
  rw [not_or, not_or] at hshort
  refine ⟨hshort.1, hshort.2.1, hshort.2.2, ?_, ?_⟩
  · intro hv
    rw [hv] at hsp
    cases hsp
  · intro hf
    rw [hf] at hsp
    cases hsp

/-- An escaped argument is parsed back to itself exactly if the escaper can quote it. -/
theorem roundTrips_iff ( sep : Char) (refArg : Option (List Char)) (s : List Char) (hs : '\x00' ∉ s) :
    RoundTrips sep refArg s ↔ Survives sep refArg s := by
  have hesc := argpEscape_eq refArg hs
  have h0 : '\x00' ∉ argpEscape refArg s := by
    rw [hesc]
    split_ifs
    · simp [nul_not_mem_escape _ hs]
    · simp [nul_not_mem_escape _ hs]
    · exact hs
  unfold Survives
  split_ifs at hesc ⊢ with hsingle hdouble
  · have hscan : scanText sep (argpEscape refArg s) = { buf := some s } := by
      rw [hesc, scanText_quoted '\'' .singleQuote _ rfl rfl, singleQuoted]
      rfl
    exact ⟨fun _ => trivial, fun _ => .of_scan h0 (by rw [hscan]; rfl) (by rw [hscan])⟩
  · constructor
    · intro h hback
      obtain ⟨htext, hmode⟩ := h.scan h0
      rw [hesc, scanText_quoted '"' .doubleQuote _ rfl rfl] at htext hmode
      refine doubleQuoted_backslash sep hback ⟨?_, ?_⟩
      · rw [List.foldl_append]
        exact htext
      · rw [List.foldl_append]
        exact hmode
    · intro hback
      have hscan : scanText sep (argpEscape refArg s) = { buf := some s } := by
        rw [hesc, scanText_quoted '"' .doubleQuote _ rfl rfl, doubleQuoted [] hback]
        rfl
      exact .of_scan h0 (by rw [hscan]; rfl) (by rw [hscan])
  · have hneeds : ∀ c ∈ s, c ∉ needsQuote := fun c hc hn => hdouble (Or.inr ⟨c, hc, hn⟩)
    constructor
    · intro h
      have htext := (h.scan h0).1
      rw [hesc] at htext
      refine ⟨?_, word_of_text hneeds htext⟩
      rintro rfl
      have hargs := h.1
      rw [(argpParse_eq sep h0).1, hesc] at hargs
      unfold toLines at hargs
      split_ifs at hargs
      · cases Lines.only.inj hargs
      · cases Lines.each.inj hargs
    · rintro ⟨hne, hback, hcr, hsep, hvt, hff⟩
      have hscan : scanText sep (argpEscape refArg s) = { run := true, buf := some s } := by
        rw [hesc]
        exact scanText_word hne hneeds hback hcr hsep hvt hff
      exact .of_scan h0 (by rw [hscan]; rfl) (by rw [hscan])

end

theorem roundTrips_iff_quoted :
    '\x00' ∉ ['a', '"', ' ', 'b'] ∧ (RoundTrips ';' none ['a', '"', ' ', 'b'] ↔ Survives ';' none ['a', '"', ' ', 'b']) ∧
    Survives ';' none ['a', '"', ' ', 'b'] :=
  ⟨by decide, roundTrips_iff ';' none _ (by decide), by simp [Survives, refChar, needsQuote]⟩

/-- A backslash in a word without anything to quote is lost. -/
theorem backslash_lost : ¬∀ ( sep : Char) (refArg : Option (List Char)) (s : List Char), '\x00' ∉ s → RoundTrips sep refArg s := by
  intro h
  have hs : '\x00' ∉ ['a', '\\', 'b'] := by decide
  have hesc : argpEscape none ['a', '\\', 'b'] = ['a', '\\', 'b'] := by
    rw [argpEscape_eq none hs]
    simp [refChar, needsQuote]
  have htext := ((h ';' none ['a', '\\', 'b'] hs).scan (by rw [hesc]; exact hs)).1
  rw [hesc] at htext
  have hneeds : ∀ c ∈ ['a', '\\', 'b'], c ∉ needsQuote := by simp [needsQuote]
  exact (word_of_text hneeds htext).1 (by decide)

end RainWrt.Uline
