import RainWrt.Uline.Check
import RainWrt.Theorems.Uline.Argp

/-! Checking a command line agrees with parsing it, and both read up to the first NUL. -/

namespace RainWrt.Uline
namespace Parser
variable { sep : Char} {p q : Parser}

/-- Both loops end at the same place, in the same state. -/
theorem loop_cursor ( sep : Char) (h : q.cursor = p.cursor) : (q.checkLoop sep).cursor = (p.loop sep).cursor := by
  fun_induction loop sep p generalizing q with
  | case1 p hp =>
    have hq := (cursor_inj h).1
    rw [hp] at hq
    rw [checkLoop]
    split
    · exact h
    · simp_all
  | case2 p rest hp =>
    have hq := (cursor_inj h).1
    rw [hp] at hq
    rw [checkLoop]
    split
    · exact h
    · simp_all
  | case3 p c rest hp hc ih =>
    have hq := (cursor_inj h).1
    rw [hp] at hq
    rw [checkLoop]
    split
    · simp_all
    · rename_i heq
      rw [hq] at heq
      cases heq
      rw [dif_neg hc]
      exact ih (step_cursor sep h)

/-! ### A NUL ends the text -/

/-- The same with a NUL behind the text, and more. -/
def upTo (tail : List Char) (p : Parser) : Parser := { p with str := p.str ++ '\x00' :: tail }

variable {tail : List Char}

theorem start_upTo (p : Parser) : (p.upTo tail).start = p.start.upTo tail := by
  unfold start upTo
  dsimp only
  split_ifs
  · rfl
  · rfl

theorem push_upTo (tail : List Char) (p : Parser) : (p.upTo tail).push = p.push.upTo tail := by
  obtain ⟨str, idx, state, buf, startIdx, endIdx, finished, line⟩ := p
  cases buf with
  | none => rfl
  | some arg => rfl

theorem ended_upTo (p : Parser) : (p.upTo tail).ended = p.ended.upTo tail := rfl

/-- What stops at a NUL does not read on behind it. -/
theorem span_upTo (tail : List Char) (test : Char → Bool) (h : test '\x00' = false) (str : List Char) :
    (str ++ '\x00' :: tail).takeWhile test = str.takeWhile test ∧
      (str ++ '\x00' :: tail).dropWhile test = str.dropWhile test ++ '\x00' :: tail := by
  induction str with
  | nil => simp [h]
  | cons c str ih =>
    simp only [List.cons_append, List.takeWhile_cons, List.dropWhile_cons]
    split_ifs
    · exact ⟨by rw [ih.1], ih.2⟩
    · exact ⟨rfl, rfl⟩

theorem skipSpace_upTo (p : Parser) : (p.upTo tail).skipSpace = p.skipSpace.upTo tail := by
  obtain ⟨htake, hdrop⟩ := span_upTo tail isspace (by decide) p.str
  simp only [skipSpace, upTo, htake, hdrop]

theorem strcspn_upTo (reject str : List Char) :
    strcspn reject (str ++ '\x00' :: tail) = ((strcspn reject str).1, (strcspn reject str).2 ++ '\x00' :: tail) := by
  obtain ⟨htake, hdrop⟩ := span_upTo tail (fun c => decide (c ≠ '\x00' ∧ c ∉ reject)) (by simp) str
  rw [strcspn, htake, hdrop, strcspn]

theorem copy_upTo (reject : List Char) (p : Parser) : (p.upTo tail).copy reject = (p.copy reject).upTo tail := by
  simp only [copy, upTo, strcspn_upTo]

theorem enter_upTo (h : p.str ≠ []) (state : Quoting) : (p.upTo tail).enter state = (p.enter state).upTo tail := by
  simp only [enter, upTo, List.tail_append_of_ne_nil h]

theorem head_upTo {c : Char} (hc : c ≠ '\x00') : ((p.upTo tail).str.head? = some c) = (p.str.head? = some c) := by
  cases h : p.str with
  | nil => simp [upTo, h, hc.symm]
  | cons d str => simp [upTo, h]

theorem ne_nil_of_head {c : Char} (h : p.str.head? = some c) : p.str ≠ [] := by
  rintro hnil
  rw [hnil] at h
  cases h

theorem unquotedEnd_upTo (p : Parser) : (p.upTo tail).unquotedEnd sep = (p.unquotedEnd sep).upTo tail := by
  obtain ⟨str, idx, state, buf, startIdx, endIdx, finished, line⟩ := p
  cases str with
  | nil => simp [unquotedEnd, upTo]
  | cons c str =>
    simp only [unquotedEnd, upTo, List.cons_append]
    split_ifs
    · rfl
    · rfl
    · rfl
    · rfl
    · have hpush := push_upTo tail { str, idx := idx + 1, state := .unquoted, buf, startIdx, endIdx, finished, line }
      simp only [upTo] at hpush
      simp only [enter, List.tail_cons, hpush]
    · rfl

theorem step_upTo (h : p.str ≠ []) : (p.upTo tail).step sep = (p.step sep).upTo tail := by
  obtain ⟨c, rest, hstr⟩ := List.exists_cons_of_ne_nil h
  have hhead : (p.upTo tail).str.head? = p.str.head? := by simp [upTo, hstr]
  unfold step
  rw [show (p.upTo tail).state = p.state from rfl]
  cases hp : p.state with
  | unquoted =>
    dsimp only
    rw [hhead, start_upTo, copy_upTo, ended_upTo, unquotedEnd_upTo, skipSpace_upTo, push_upTo]
    split_ifs
    · rfl
    · rfl
  | backslash | doubleQuoteBackslash =>
    have hq : p.start.str = c :: rest := by rw [start_str, hstr]
    have hs : p.start.state = p.state := start_state p
    rw [hp] at hs
    dsimp only
    rw [start_upTo]
    generalize p.start = q at hq hs
    obtain ⟨str, idx, state, buf, startIdx, endIdx, finished, line⟩ := q
    cases hq
    cases hs
    simp only [upTo, List.cons_append, List.head?_cons]
    by_cases hn : c = '\n'
    · simp only [hn, if_true]
      rfl
    · simp only [Option.some.injEq, hn, if_false]
      rfl
  | singleQuote =>
    dsimp only
    rw [start_upTo, copy_upTo]
    simp only [head_upTo (c := '\'') (by decide)]
    split_ifs with hq
    · rw [enter_upTo (ne_nil_of_head hq), ended_upTo]
    · rw [ended_upTo]
  | doubleQuote =>
    dsimp only
    rw [start_upTo, copy_upTo]
    simp only [head_upTo (c := '"') (by decide), head_upTo (c := '\\') (by decide)]
    split_ifs with hq hb
    · rw [enter_upTo (ne_nil_of_head hq), ended_upTo]
    · rw [enter_upTo (ne_nil_of_head hb), ended_upTo]
    · rw [ended_upTo]

/-- What stands behind the NUL makes no difference. -/
theorem loop_upTo ( sep : Char) (tail : List Char) (h0 : '\x00' ∉ p.str) : (p.upTo tail).loop sep = (p.loop sep).upTo tail := by
  fun_induction loop sep p with
  | case1 p hp =>
    rw [loop]
    split
    · simp_all [upTo]
    · rename_i heq
      simp only [upTo, hp, List.nil_append, List.cons.injEq] at heq
      rw [dif_pos heq.1.symm]
  | case2 p rest hp => exact absurd (hp ▸ List.mem_cons_self) h0
  | case3 p c rest hp hc ih =>
    rw [loop]
    split
    · simp_all [upTo]
    · rename_i heq
      simp only [upTo, hp, List.cons_append, List.cons.injEq] at heq
      rw [dif_neg (heq.1 ▸ hc), step_upTo (by rw [hp]; exact List.cons_ne_nil _ _)]
      exact ih fun hmem => h0 ((step_suffix sep p).subset hmem)

/-- A text without NUL is read to its end. -/
theorem loop_str (h0 : '\x00' ∉ p.str) : (p.loop sep).str = [] := by
  fun_induction loop sep p with
  | case1 p hp => exact hp
  | case2 p rest hp => exact absurd (hp ▸ List.mem_cons_self) h0
  | case3 p c rest hp hc ih => exact ih fun hmem => h0 ((step_suffix sep p).subset hmem)

end Parser

/-- What parsing leaves of the text. -/
def parseRest ( sep : Char) (text : List Char) : List Char := (({ str := text } : Parser).skipSpace.loop sep).str

/-- What checking leaves of it. -/
def checkRest ( sep : Char) (text : List Char) : List Char := (({ str := text } : Parser).skipSpace.checkLoop sep).str

/-- A text that has a NUL. -/
theorem exists_upTo {text : List Char} (h : '\x00' ∈ text) :
    ∃ tail, text = text.takeWhile (· ≠ '\x00') ++ '\x00' :: tail ∧ text.dropWhile (· ≠ '\x00') = '\x00' :: tail := by
  have hstop := List.head?_dropWhile_not (fun c => decide (c ≠ '\x00')) text
  cases hrest : text.dropWhile (· ≠ '\x00') with
  | nil =>
    have hall := List.dropWhile_eq_nil_iff.mp hrest _ h
    simp at hall
  | cons c tail =>
    rw [hrest] at hstop
    obtain rfl : c = '\x00' := by simpa using hstop
    exact ⟨tail, by rw [← hrest, List.takeWhile_append_dropWhile], rfl⟩

theorem not_mem_takeWhile (text : List Char) : '\x00' ∉ text.takeWhile (· ≠ '\x00') := by
  intro h
  have := List.mem_takeWhile_imp h
  simp at this

/-- Parsing reads the text up to its first NUL only. -/
theorem parse_upTo ( sep : Char) (text : List Char) :
    argpParse sep text = argpParse sep (text.takeWhile (· ≠ '\x00')) ∧ parseRest sep text = text.dropWhile (· ≠ '\x00') := by
  have hempty : ∀ t : List Char, '\x00' ∉ t → '\x00' ∉ ({ str := t } : Parser).skipSpace.str := fun t h hmem =>
    h ((List.dropWhile_sublist _).subset hmem)
  by_cases h : '\x00' ∈ text
  · obtain ⟨tail, htext, hrest⟩ := exists_upTo h
    have h0 := not_mem_takeWhile text
    rw [hrest]
    generalize text.takeWhile (· ≠ '\x00') = t at htext h0
    subst htext
    have hstart : ({ str := t ++ '\x00' :: tail } : Parser).skipSpace = ({ str := t } : Parser).skipSpace.upTo tail :=
      Parser.skipSpace_upTo { str := t }
    have hloop := Parser.loop_upTo sep tail (hempty t h0)
    refine ⟨?_, ?_⟩
    · simp only [argpParse, hstart, hloop, Parser.push_upTo]
      rfl
    · rw [parseRest, hstart, hloop, Parser.upTo, Parser.loop_str (hempty t h0), List.nil_append]
  · have hall : ∀ c ∈ text, decide (c ≠ '\x00') = true := fun c hc => decide_eq_true fun h0 => h (h0 ▸ hc)
    rw [List.takeWhile_eq_self_iff.mpr hall, List.dropWhile_eq_nil_iff.mpr hall]
    exact ⟨rfl, Parser.loop_str (hempty text h)⟩

/-- Checking a command line says what parsing it says is missing. Both read the text up to its first NUL. -/
theorem check_agrees ( sep : Char) (text : List Char) :
    argpCheck sep text = (argpParse sep text).missing ∧
      parseRest sep text = text.dropWhile (· ≠ '\x00') ∧ checkRest sep text = text.dropWhile (· ≠ '\x00') := by
  obtain ⟨hstr, -, hstate⟩ := Parser.cursor_inj (Parser.loop_cursor sep (rfl : ({ str := text } : Parser).skipSpace.cursor = _))
  obtain ⟨-, -, hpush⟩ := Parser.cursor_inj (Parser.push_cursor (({ str := text } : Parser).skipSpace.loop sep))
  have hrest := (parse_upTo sep text).2
  refine ⟨?_, hrest, ?_⟩
  · rw [argpCheck, hstate, ← hpush]
    unfold argpParse
    split_ifs
    · rfl
    · rfl
  · rw [checkRest, hstr]
    exact hrest

/-- Nothing is read of a text that starts with a NUL. -/
theorem nul_ends_text : ¬∀ ( sep : Char) (text : List Char),
    argpCheck sep text = (argpParse sep text).missing ∧ parseRest sep text = [] ∧ checkRest sep text = [] := by
  intro h
  obtain ⟨-, hrest, -⟩ := h ';' ['\x00']
  rw [(parse_upTo _ _).2] at hrest
  cases hrest

end RainWrt.Uline
