import RainWrt.Uline.Argp

/-! The argument parser when it only checks: it has no lists then, and says what is missing. -/

namespace RainWrt.Uline
namespace Parser

/-- The argument in the buffer ends, and there is no list for it. -/
def drop (p : Parser) : Parser :=
  match p.buf with
  | none => p
  | some _ => { p with buf := none, startIdx := -1 }

/-- The text up to one of the characters is passed over. -/
def skip (reject : List Char) (p : Parser) : Parser :=
  let split := strcspn reject p.str
  { p with str := split.2, idx := p.idx + split.1.length }

/-- Behind an unquoted text. A separator is passed over. -/
def checkEnd ( sep : Char) (p : Parser) : Parser :=
  match p.str with
  | [] => p
  | c :: _ =>
    if c = '\x00' then p
    else if c = '\'' then { p.enter .singleQuote with buf := some (p.buf.getD []) }
    else if c = '"' then { p.enter .doubleQuote with buf := some (p.buf.getD []) }
    else if c = '\\' then { p.enter .backslash with buf := some (p.buf.getD []) }
    else if sep ≠ '\x00' ∧ c = sep then p.enter .unquoted
    else p

/-- One round of the loop without lists. -/
def checkStep ( sep : Char) (p : Parser) : Parser :=
  match p.state with
  | .unquoted =>
    if p.str.head?.any isspace then p.skipSpace.drop
    else (p.start.skip (unquoteTok sep)).ended.checkEnd sep
  | .backslash | .doubleQuoteBackslash =>
    (p.start.enter (if p.state = .backslash then .unquoted else .doubleQuote)).ended
  | .singleQuote =>
    let p := p.start.skip ['\'']
    (if p.str.head? = some '\'' then p.enter .unquoted else p).ended
  | .doubleQuote =>
    let p := p.start.skip ['"', '\\']
    (if p.str.head? = some '"' then p.enter .unquoted
      else if p.str.head? = some '\\' then p.enter .doubleQuoteBackslash
      else p).ended

/-! Both modes read the same. -/

/-- What is left of the text, and in which state. -/
def cursor (p : Parser) : List Char × Nat × Quoting := (p.str, p.idx, p.state)

variable {p q : Parser}

theorem cursor_inj (h : q.cursor = p.cursor) : q.str = p.str ∧ q.idx = p.idx ∧ q.state = p.state := by
  simpa [cursor] using h

@[simp] theorem start_cursor (p : Parser) : p.start.cursor = p.cursor := by
  unfold start
  split <;> rfl

@[simp] theorem push_cursor (p : Parser) : p.push.cursor = p.cursor := by
  unfold push
  split <;> rfl

@[simp] theorem drop_cursor (p : Parser) : p.drop.cursor = p.cursor := by
  unfold drop
  split <;> rfl

@[simp] theorem ended_cursor (p : Parser) : p.ended.cursor = p.cursor := rfl

theorem skipSpace_cursor (h : q.cursor = p.cursor) : q.skipSpace.cursor = p.skipSpace.cursor := by
  obtain ⟨hstr, hidx, hstate⟩ := cursor_inj h
  simp [cursor, skipSpace, hstr, hidx, hstate]

theorem enter_cursor (h : q.cursor = p.cursor) (state : Quoting) : (q.enter state).cursor = (p.enter state).cursor := by
  obtain ⟨hstr, hidx, -⟩ := cursor_inj h
  simp [cursor, enter, hstr, hidx]

theorem skip_cursor (h : q.cursor = p.cursor) (reject : List Char) : (q.skip reject).cursor = (p.copy reject).cursor := by
  obtain ⟨hstr, hidx, hstate⟩ := cursor_inj h
  simp [cursor, skip, copy, hstr, hidx, hstate]

theorem checkEnd_cursor ( sep : Char) (h : q.cursor = p.cursor) : (q.checkEnd sep).cursor = (p.unquotedEnd sep).cursor := by
  obtain ⟨hstr, hidx, hstate⟩ := cursor_inj h
  unfold checkEnd unquotedEnd
  rw [hstr]
  cases p.str with
  | nil => exact h
  | cons c rest =>
    dsimp only
    split_ifs
    · exact h
    · exact enter_cursor h _
    · exact enter_cursor h _
    · exact enter_cursor h _
    · have hpush := push_cursor (p.enter .unquoted)
      rw [← enter_cursor h] at hpush
      exact hpush.symm
    · exact h

theorem step_cursor ( sep : Char) (h : q.cursor = p.cursor) : (q.checkStep sep).cursor = (p.step sep).cursor := by
  obtain ⟨hstr, -, hstate⟩ := cursor_inj h
  have hstart : q.start.cursor = p.start.cursor := by rw [start_cursor, start_cursor, h]
  have hskip := fun reject => skip_cursor hstart reject
  have hread := fun reject => (cursor_inj (hskip reject)).1
  unfold checkStep step
  rw [hstate]
  cases hp : p.state with
  | unquoted =>
    dsimp only
    rw [hstr]
    split_ifs
    · rw [drop_cursor, push_cursor, skipSpace_cursor h]
    · exact checkEnd_cursor sep (hskip _)
  | backslash | doubleQuoteBackslash =>
    have hescaped : ∀ r : Parser, r.cursor = p.start.cursor → ∀ state, (q.start.enter state).ended.cursor = (r.enter state).ended.cursor :=
      fun r hr state => enter_cursor (hstart.trans hr.symm) state
    dsimp only
    by_cases hn : p.start.str.head? = some '\n'
    · simp only [if_pos hn, start_state, hp, reduceCtorEq, if_true, if_false]
      exact hescaped _ rfl _
    · simp only [if_neg hn, start_state, hp, reduceCtorEq, if_true, if_false]
      exact hescaped _ rfl _
  | singleQuote =>
    dsimp only
    rw [hread]
    split_ifs
    · exact enter_cursor (hskip _) _
    · exact hskip _
  | doubleQuote =>
    dsimp only
    rw [hread]
    split_ifs
    · exact enter_cursor (hskip _) _
    · exact enter_cursor (hskip _) _
    · exact hskip _

/-- The loop goes on while there is text, up to a NUL. -/
def checkLoop ( sep : Char) (p : Parser) : Parser :=
  match _h : p.str with
  | [] => p
  | c :: _ => if _hc : c = '\x00' then p else (p.checkStep sep).checkLoop sep
termination_by p.str.length
decreasing_by
  rw [(cursor_inj (step_cursor sep (rfl : p.cursor = p.cursor))).1]
  exact p.step_length sep ‹_› ‹_›

end Parser

/-- `uc_uline_argp_check`. -/
def argpCheck ( sep : Char) (text : List Char) : Option (List Char) :=
  (({ str := text } : Parser).skipSpace.checkLoop sep).state.missing

end RainWrt.Uline
