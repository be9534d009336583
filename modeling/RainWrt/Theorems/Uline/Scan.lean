import RainWrt.Uline.Argp

/-! The argument parser one character at a time: what it reads and where it says that it stands. -/

namespace RainWrt.Uline

/-! ### What is read -/

/-- What becomes of one character. -/
inductive Move where
  | drop
  | add
  | quote
  | space
  | split

/-- The parser between two characters. `run` holds inside a text that `strcspn` goes over in one piece. -/
structure Scan where
  mode : Quoting := .unquoted
  run : Bool := false
  buf : Option (List Char) := none
  args : List (List Char) := []
  finished : List (List (List Char)) := []

/-- What an unquoted character does. Within a run only the listed characters count as space. -/
def unquotedMove ( sep : Char) (run : Bool) (c : Char) : Quoting × Bool × Move :=
  if !run && isspace c then (.unquoted, false, .space)
  else if c = '\'' then (.singleQuote, false, .quote)
  else if c = '"' then (.doubleQuote, false, .quote)
  else if c = '\\' then (.backslash, false, .quote)
  else if c = sep then (.unquoted, false, .split)
  else if c ∈ [' ', '\t', '\r', '\n'] then (.unquoted, false, .space)
  else (.unquoted, true, .add)

def control ( sep : Char) (mode : Quoting) (run : Bool) (c : Char) : Quoting × Bool × Move :=
  match mode with
  | .unquoted => unquotedMove sep run c
  | .backslash => (.unquoted, false, if c = '\n' then .drop else .add)
  | .doubleQuoteBackslash => (.doubleQuote, false, if c = '\n' then .drop else .add)
  | .singleQuote => if c = '\'' then (.unquoted, false, .drop) else (.singleQuote, false, .add)
  | .doubleQuote =>
    if c = '"' then (.unquoted, false, .drop)
    else if c = '\\' then (.doubleQuoteBackslash, false, .drop)
    else (.doubleQuote, false, .add)

namespace Scan

def push (s : Scan) : Scan := { s with buf := none, args := s.args ++ s.buf.toList }

def apply (s : Scan) (c : Char) : Move → Scan
  | .drop => s
  | .add => { s with buf := some (s.buf.getD [] ++ [c]) }
  | .quote => { s with buf := some (s.buf.getD []) }
  | .space => s.push
  | .split => { s.push with finished := s.finished ++ [s.push.args], args := [] }

def feed ( sep : Char) (s : Scan) (c : Char) : Scan :=
  let next := control sep s.mode s.run c
  { s.apply c next.2.2 with mode := next.1, run := next.2.1 }

theorem feed_of_control { sep : Char} {s : Scan} {c : Char} {mode : Quoting} {run : Bool} {move : Move}
    (h : control sep s.mode s.run c = (mode, run, move)) : s.feed sep c = { s.apply c move with mode, run } := by
  simp only [feed, h]

/-- All that has been read. -/
def text (s : Scan) : List Char := s.finished.flatten.flatten ++ s.args.flatten ++ s.buf.getD []

/-- What is left of the difference between the parser's rounds and single characters. -/
def settle (s : Scan) : Scan := { s with run := false }

def lines (s : Scan) : List (List (List Char)) := s.finished ++ [s.push.args]

end Scan

/-- What the parser's variables say of its past. -/
def Parser.scan (p : Parser) : Scan :=
  { mode := p.state, buf := p.buf, args := p.line.args, finished := p.finished.map ArgLine.args }

/-- The parser between two characters, with the positions. -/
structure Marks where
  scan : Scan := {}
  idx : Nat := 0
  startIdx : Int := -1
  endIdx : Int := 0
  pos : List (Int × Int) := []
  finished : List (List (Int × Int)) := []

namespace Marks

def start (m : Marks) : Marks := if m.startIdx < 0 then { m with startIdx := m.idx } else m

def push (m : Marks) : Marks := if m.scan.buf.isSome then { m with pos := m.pos ++ [(m.startIdx, m.endIdx)], startIdx := -1 } else m

/-- The end is set behind a character of an argument, but before an opening quote. -/
def apply (m : Marks) : Move → Marks
  | .drop | .add => { m.start with endIdx := (m.idx + 1 : Nat) }
  | .quote => { m.start with endIdx := m.idx }
  | .space => m.push
  | .split =>
    let m := ({ m.start with endIdx := m.idx } : Marks).push
    { m with finished := m.finished ++ [m.pos], pos := [] }

def feed ( sep : Char) (m : Marks) (c : Char) : Marks :=
  { m.apply (control sep m.scan.mode m.scan.run c).2.2 with scan := m.scan.feed sep c, idx := m.idx + 1 }

def settle (m : Marks) : Marks := { m with scan := m.scan.settle }

end Marks

def Parser.marks (p : Parser) : Marks :=
  { scan := p.scan, idx := p.idx, startIdx := p.startIdx, endIdx := p.endIdx, pos := p.line.pos, finished := p.finished.map ArgLine.pos }

namespace Scan
variable { sep : Char}

theorem addStr_cons (buf : Option (List Char)) (c : Char) (w : List Char) :
    Parser.addStr (some (buf.getD [] ++ [c])) w = Parser.addStr buf (c :: w) := by
  cases w <;> simp [Parser.addStr]

/-- Between quotes, a text without the characters that end it is read as it is. -/
theorem feed_quoted {s : Scan} {w : List Char} (hrun : s.run = false)
    (h : ∀ c ∈ w, control sep s.mode false c = (s.mode, false, .add)) :
    w.foldl (feed sep) s = { s with buf := Parser.addStr s.buf w } := by
  induction w generalizing s with
  | nil => rfl
  | cons c w ih =>
    have hc := h c List.mem_cons_self
    have hfeed : feed sep s c = { s with buf := some (s.buf.getD [] ++ [c]) } := by
      simp only [feed, hrun, hc, apply]
    rw [List.foldl_cons, hfeed, ih (by exact hrun) (by exact fun d hd => h d (List.mem_cons_of_mem _ hd))]
    simp only [addStr_cons]

/-- The same goes for a run without the characters that end it. -/
theorem feed_run {s : Scan} {w : List Char} (hmode : s.mode = .unquoted) (hrun : s.run = true)
    (h : ∀ c ∈ w, c ∉ Parser.unquoteTok sep) : w.foldl (feed sep) s = { s with buf := Parser.addStr s.buf w } := by
  induction w generalizing s with
  | nil => rfl
  | cons c w ih =>
    have hc := h c List.mem_cons_self
    have hfeed : feed sep s c = { s with buf := some (s.buf.getD [] ++ [c]) } := by
      simp only [Parser.unquoteTok, List.mem_cons, List.not_mem_nil, or_false, not_or] at hc
      simp [feed, hmode, hrun, control, unquotedMove, hc, apply]
    rw [List.foldl_cons, hfeed, ih (by exact hmode) (by exact hrun) fun d hd => h d (List.mem_cons_of_mem _ hd)]
    simp only [addStr_cons]

/-- A run starts with a character that is no space. -/
theorem feed_start {s : Scan} {w : List Char} (hmode : s.mode = .unquoted) (hrun : s.run = false) (hw : w ≠ [])
    (hsp : w.head?.any isspace = false) (h : ∀ c ∈ w, c ∉ Parser.unquoteTok sep) :
    w.foldl (feed sep) s = { s with buf := Parser.addStr s.buf w, run := true } := by
  cases w with
  | nil => exact absurd rfl hw
  | cons c w =>
    have hc := h c List.mem_cons_self
    have hfeed : feed sep s c = { s with buf := some (s.buf.getD [] ++ [c]), run := true } := by
      simp only [Parser.unquoteTok, List.mem_cons, List.not_mem_nil, or_false, not_or] at hc
      simp only [List.head?_cons, Option.any_some] at hsp
      simp [feed, hmode, hrun, control, unquotedMove, hc, hsp, apply]
    rw [List.foldl_cons, hfeed, feed_run (by exact hmode) rfl fun d hd => h d (List.mem_cons_of_mem _ hd)]
    simp only [addStr_cons]

end Scan

namespace Parser
variable { sep : Char} {p : Parser}

@[simp] theorem start_scan (p : Parser) : p.start.scan = p.scan := by
  unfold start
  split <;> rfl

@[simp] theorem ended_scan (p : Parser) : p.ended.scan = p.scan := rfl

@[simp] theorem push_scan (p : Parser) : p.push.scan = p.scan.push := by
  unfold push
  cases hb : p.buf <;> simp [scan, Scan.push, hb]

theorem copy_scan (reject : List Char) (p : Parser) :
    (p.copy reject).scan = { p.scan with buf := addStr p.buf (strcspn reject p.str).1 } := rfl

@[simp] theorem start_buf (p : Parser) : p.start.buf = p.buf := by
  unfold start
  split <;> rfl

@[simp] theorem start_idx (p : Parser) : p.start.idx = p.idx := by
  unfold start
  split <;> rfl

@[simp] theorem start_line (p : Parser) : p.start.line = p.line := by
  unfold start
  split <;> rfl

@[simp] theorem start_finished (p : Parser) : p.start.finished = p.finished := by
  unfold start
  split <;> rfl

theorem strcspn_append (reject text : List Char) : (strcspn reject text).1 ++ (strcspn reject text).2 = text :=
  List.takeWhile_append_dropWhile

theorem mem_strcspn {reject text : List Char} {c : Char} (h : c ∈ (strcspn reject text).1) : c ∉ reject := by
  have hc := List.mem_takeWhile_imp h
  simp only [decide_eq_true_eq] at hc
  exact hc.2

/-- `strcspn` stops at one of the characters, if the text has no NUL. -/
theorem strcspn_stops {reject text : List Char} {c : Char} {rest : List Char} (h0 : '\x00' ∉ text)
    (h : (strcspn reject text).2 = c :: rest) : c ∈ reject := by
  have hstop := List.head?_dropWhile_not (fun c => decide (c ≠ '\x00' ∧ c ∉ reject)) text
  have hmem : c ∈ text := (List.dropWhile_sublist _).subset (h ▸ List.mem_cons_self)
  have hc : c ≠ '\x00' := fun hc => h0 (hc ▸ hmem)
  change (text.dropWhile _) = c :: rest at h
  rw [h] at hstop
  simpa [hc] using hstop

end Parser

/-! ### Positions -/

namespace Marks
variable { sep : Char} {m : Marks} {c : Char} {w : List Char}

theorem start_of_nonneg (h : 0 ≤ m.startIdx) : m.start = m := if_neg (by omega)

theorem start_nonneg (m : Marks) : 0 ≤ m.start.startIdx := by
  unfold start
  split_ifs with h
  · exact Int.natCast_nonneg _
  · omega

@[simp] theorem start_idx (m : Marks) : m.start.idx = m.idx := by
  unfold start
  split_ifs <;> rfl

@[simp] theorem start_scan (m : Marks) : m.start.scan = m.scan := by
  unfold start
  split_ifs <;> rfl

theorem feed_of_control {mode : Quoting} {run : Bool} {move : Move} (h : control sep m.scan.mode m.scan.run c = (mode, run, move)) :
    m.feed sep c = { m.apply move with scan := { m.scan.apply c move with mode, run }, idx := m.idx + 1 } := by
  rw [feed, h, Scan.feed_of_control h]

@[simp] theorem foldl_scan (w : List Char) (m : Marks) : (w.foldl (feed sep) m).scan = w.foldl (Scan.feed sep) m.scan := by
  induction w generalizing m with
  | nil => rfl
  | cons c w ih => exact ih _

/-- Every character of the text goes into the buffer. -/
def Adds ( sep : Char) : Scan → List Char → Prop
  | _, [] => True
  | s, c :: w => (control sep s.mode s.run c).2.2 = .add ∧ Adds sep (s.feed sep c) w

theorem feed_adds (hw : w ≠ []) (h : Adds sep m.scan w) :
    w.foldl (feed sep) m =
      { m.start with scan := w.foldl (Scan.feed sep) m.scan, idx := m.idx + w.length, endIdx := (m.idx + w.length : Nat) } := by
  induction w generalizing m with
  | nil => exact absurd rfl hw
  | cons c w ih =>
    obtain ⟨hc, hrest⟩ := h
    have hfeed : m.feed sep c = { m.start with scan := m.scan.feed sep c, idx := m.idx + 1, endIdx := (m.idx + 1 : Nat) } := by
      rw [feed, hc]
      rfl
    cases w with
    | nil => exact hfeed
    | cons d w =>
      have hstart : (m.feed sep c).start = m.feed sep c := start_of_nonneg (by rw [hfeed]; exact start_nonneg m)
      rw [List.foldl_cons, ih (List.cons_ne_nil _ _) hrest, hstart, hfeed]
      have hlen : m.idx + 1 + (d :: w).length = m.idx + (c :: d :: w).length := by
        simp only [List.length_cons]
        omega
      dsimp only
      rw [hlen]
      rfl

theorem adds_quoted {s : Scan} (hrun : s.run = false) (h : ∀ c ∈ w, control sep s.mode false c = (s.mode, false, .add)) : Adds sep s w := by
  induction w generalizing s with
  | nil => trivial
  | cons c w ih =>
    have hc := h c List.mem_cons_self
    rw [← hrun] at hc
    refine ⟨by rw [hc], ?_⟩
    rw [Scan.feed_of_control hc]
    exact ih hrun fun d hd => h d (List.mem_cons_of_mem _ hd)

theorem adds_run {s : Scan} (hmode : s.mode = .unquoted) (hrun : s.run = true ∨ w.head?.any isspace = false)
    (h : ∀ c ∈ w, c ∉ Parser.unquoteTok sep) : Adds sep s w := by
  induction w generalizing s with
  | nil => trivial
  | cons c w ih =>
    have hc := h c List.mem_cons_self
    simp only [Parser.unquoteTok, List.mem_cons, List.not_mem_nil, or_false, not_or] at hc
    have hsp : (!s.run && isspace c) = false := by
      obtain hrun | hsp := hrun
      · simp [hrun]
      · simp only [List.head?_cons, Option.any_some] at hsp
        simp [hsp]
    have hctl : control sep s.mode s.run c = (.unquoted, true, .add) := by
      simp [hmode, control, unquotedMove, hsp, hc]
    refine ⟨by rw [hctl], ?_⟩
    rw [Scan.feed_of_control hctl]
    exact ih rfl (Or.inl rfl) fun d hd => h d (List.mem_cons_of_mem _ hd)

/-- Spaces end an argument once. -/
theorem feed_spaces (hmode : m.scan.mode = .unquoted) (hrun : m.scan.run = false) (hw : w ≠ []) (h : ∀ c ∈ w, isspace c = true) :
    w.foldl (feed sep) m = { m.push with scan := m.scan.push, idx := m.idx + w.length } := by
  induction w generalizing m with
  | nil => exact absurd rfl hw
  | cons c w ih =>
    have hctl : control sep m.scan.mode m.scan.run c = (.unquoted, false, .space) := by
      simp [hmode, hrun, control, unquotedMove, h c List.mem_cons_self]
    have hfeed : m.feed sep c = { m.push with scan := m.scan.push, idx := m.idx + 1 } := by
      rw [feed_of_control hctl, ← hmode, ← hrun]
      rfl
    cases w with
    | nil => exact hfeed
    | cons d w =>
      have hnone : (m.feed sep c).push = m.feed sep c := by
        rw [hfeed, push, if_neg (by simp [Scan.push])]
      rw [List.foldl_cons, ih (by rw [hfeed]; exact hmode) (by rw [hfeed]; exact hrun) (List.cons_ne_nil _ _)
        (fun e he => h e (List.mem_cons_of_mem _ he)), hnone, hfeed]
      have hlen : m.idx + 1 + (d :: w).length = m.idx + (c :: d :: w).length := by
        simp only [List.length_cons]
        omega
      have hpush : m.scan.push.push = m.scan.push := by simp [Scan.push]
      dsimp only
      rw [hlen, hpush]

end Marks

namespace Parser
variable { sep : Char} {p : Parser}

@[simp] theorem start_marks (p : Parser) : p.start.marks = p.marks.start := by
  unfold start Marks.start
  by_cases h : p.startIdx < 0
  · rw [if_pos h, if_pos (by exact h)]
    rfl
  · rw [if_neg h, if_neg (by exact h)]

theorem ended_marks (p : Parser) : p.ended.marks = { p.marks with endIdx := p.idx } := rfl

theorem push_marks (p : Parser) : p.push.marks = { p.marks.push with scan := p.scan.push } := by
  unfold push Marks.push
  cases hb : p.buf with
  | none => simp [marks, scan, Scan.push, hb]
  | some arg => simp [marks, scan, Scan.push, hb]

theorem copy_marks (reject : List Char) (p : Parser) :
    (p.copy reject).marks =
      { p.marks with scan := { p.scan with buf := addStr p.buf (strcspn reject p.str).1 }, idx := p.idx + (strcspn reject p.str).1.length } :=
  rfl

/-! ### Rounds -/

/-- Behind an unquoted text stands one of the characters that end it. The argument's positions are as if it were
    part of it. -/
theorem unquotedEnd_marks {c : Char} {rest : List Char} {run : Bool} {m : Marks} (hmode : p.state = .unquoted) (h : p.str = c :: rest)
    (hc : c ≠ '\x00') (hin : c ∈ unquoteTok sep) (hscan : m.scan = { p.scan with run })
    (hstart : { m.start with endIdx := m.idx } = { p.marks with scan := m.scan })
    (hrun : if run then m = { p.marks with scan := m.scan } else isspace c = false) :
    p.str.foldl (Marks.feed sep) m = (p.unquotedEnd sep).str.foldl (Marks.feed sep) (p.unquotedEnd sep).marks := by
  have hsp : ¬(!run && isspace c) = true := by
    cases run with
    | true => simp
    | false => simpa using hrun
  have hmove : ∀ {mode : Quoting} {again : Bool} {move : Move}, unquotedMove sep run c = (mode, again, move) →
      m.feed sep c = { m.apply move with scan := { p.scan.apply c move with mode, run := again }, idx := p.idx + 1 } := by
    intro mode again move hm
    have hidx : m.idx = p.idx := by
      have hidx := congrArg Marks.idx hstart
      rwa [Marks.start_idx] at hidx
    have hctl : control sep m.scan.mode m.scan.run c = (mode, again, move) := by
      rw [hscan, show ({ p.scan with run } : Scan).mode = .unquoted from hmode]
      exact hm
    rw [Marks.feed_of_control hctl, hscan, hidx]
    cases move <;> rfl
  have happly : m.apply .quote = { p.marks with scan := m.scan } := hstart
  rw [h, List.foldl_cons]
  simp only [unquotedEnd, h]
  rw [if_neg hc]
  by_cases h1 : c = '\''
  · rw [hmove (by rw [unquotedMove, if_neg hsp, if_pos h1]), if_pos h1, happly]
    simp only [enter, h, List.tail_cons]
    rfl
  by_cases h2 : c = '"'
  · rw [hmove (by rw [unquotedMove, if_neg hsp, if_neg h1, if_pos h2]), if_neg h1, if_pos h2, happly]
    simp only [enter, h, List.tail_cons]
    rfl
  by_cases h3 : c = '\\'
  · rw [hmove (by rw [unquotedMove, if_neg hsp, if_neg h1, if_neg h2, if_pos h3]), if_neg h1, if_neg h2, if_pos h3, happly]
    simp only [enter, h, List.tail_cons]
    rfl
  by_cases h4 : c = sep
  · rw [hmove (by rw [unquotedMove, if_neg hsp, if_neg h1, if_neg h2, if_neg h3, if_pos h4]), if_neg h1, if_neg h2, if_neg h3,
      if_pos ⟨h4 ▸ hc, h4⟩]
    have hsplit : m.apply .split =
        { ({ p.marks with scan := m.scan } : Marks).push with
          finished := ({ p.marks with scan := m.scan } : Marks).push.finished ++ [({ p.marks with scan := m.scan } : Marks).push.pos]
          pos := [] } := by
      rw [← hstart]
      rfl
    have hstr : (p.enter .unquoted).push.str = rest := by rw [push_str, enter, h, List.tail_cons]
    have hbuf : m.scan.buf = p.buf := congrArg Scan.buf hscan
    rw [hsplit, hstr]
    congr 1
    cases hb : p.buf with
    | none => simp [Marks.push, hbuf, hb, marks, scan, push, enter, Scan.apply, Scan.push]
    | some arg => simp [Marks.push, hbuf, hb, marks, scan, push, enter, Scan.apply, Scan.push]
  · have hspace : c ∈ [' ', '\t', '\r', '\n'] := by
      simp only [unquoteTok, List.mem_cons, List.not_mem_nil, or_false] at hin ⊢
      tauto
    have htrue : run = true := by
      cases run with
      | false =>
        have hno : isspace c = false := hrun
        simp only [isspace, List.mem_cons, List.not_mem_nil, or_false, decide_eq_false_iff_not] at hno hspace
        tauto
      | true => rfl
    subst htrue
    have hm : m = { p.marks with scan := m.scan } := hrun
    have hctl : control sep p.scan.mode p.scan.run c = (.unquoted, false, .space) := by
      rw [show p.scan.mode = .unquoted from hmode]
      simp only [List.mem_cons, List.not_mem_nil, or_false] at hspace
      obtain rfl | rfl | rfl | rfl := hspace <;> rfl
    rw [hmove (by rw [unquotedMove, if_neg hsp, if_neg h1, if_neg h2, if_neg h3, if_neg h4, if_pos hspace]), if_neg h1, if_neg h2,
      if_neg h3, if_neg (fun hs => h4 hs.2), h, List.foldl_cons, Marks.feed_of_control (m := p.marks) hctl]
    have hbuf : m.scan.buf = p.marks.scan.buf := by
      rw [hscan]
      rfl
    have hpush : m.apply .space = { p.marks.apply .space with scan := m.scan } := by
      rw [Marks.apply, hm]
      simp only [Marks.apply, Marks.push, hbuf]
      split_ifs
      · rfl
      · rfl
    rw [hpush]
    rfl

theorem not_mem_of_append {text : List Char} (h0 : '\x00' ∉ text) {reject : List Char} {c : Char} {rest : List Char}
    (h : (strcspn reject text).2 = c :: rest) : c ≠ '\x00' :=
  fun hc => h0 (hc ▸ (List.dropWhile_sublist _).subset (h ▸ List.mem_cons_self))

/-- A round that starts outside of quotes at no space. -/
theorem unquoted_marks (h0 : '\x00' ∉ p.str) (hstr : p.str ≠ []) (hmode : p.state = .unquoted) (hsp : ¬p.str.head?.any isspace = true) :
    (p.str.foldl (Marks.feed sep) p.marks).settle =
      (((p.start.copy (unquoteTok sep)).ended.unquotedEnd sep).str.foldl (Marks.feed sep)
        ((p.start.copy (unquoteTok sep)).ended.unquotedEnd sep).marks).settle := by
  have hsplit := strcspn_append (unquoteTok sep) p.str
  have hqstr : (p.start.copy (unquoteTok sep)).ended.str = (strcspn (unquoteTok sep) p.str).2 := by simp [ended, copy]
  have hqmarks : (p.start.copy (unquoteTok sep)).ended.marks =
      { p.marks.start with
        scan := { p.scan with buf := addStr p.buf (strcspn (unquoteTok sep) p.str).1 }
        idx := p.idx + (strcspn (unquoteTok sep) p.str).1.length
        endIdx := (p.idx + (strcspn (unquoteTok sep) p.str).1.length : Nat) } := by
    rw [ended_marks, copy_marks, start_marks, start_scan, start_buf, start_str, start_idx]
    simp [copy]
  have hqmode : (p.start.copy (unquoteTok sep)).ended.state = .unquoted := by simp [ended, copy, hmode]
  generalize hq : (p.start.copy (unquoteTok sep)).ended = q at hqstr hqmarks hqmode ⊢
  have hin : ∀ d ∈ (strcspn (unquoteTok sep) p.str).1, d ∉ unquoteTok sep := fun d hd => mem_strcspn hd
  have hstop : ∀ {d rest}, (strcspn (unquoteTok sep) p.str).2 = d :: rest → d ∈ unquoteTok sep := strcspn_stops h0
  have hnul : ∀ {d rest}, (strcspn (unquoteTok sep) p.str).2 = d :: rest → d ≠ '\x00' := not_mem_of_append h0
  generalize (strcspn (unquoteTok sep) p.str).1 = w at hsplit hqmarks hin
  generalize (strcspn (unquoteTok sep) p.str).2 = r at hsplit hqstr hstop hnul
  have hqscan : q.scan = { p.scan with buf := addStr p.buf w } := congrArg Marks.scan hqmarks
  by_cases hw : w = []
  · subst hw
    rw [List.nil_append] at hsplit
    subst hsplit
    obtain ⟨d, r', hr⟩ := List.exists_cons_of_ne_nil hstr
    have hqd : q.str = d :: r' := hqstr.trans hr
    rw [← hqstr, unquotedEnd_marks hqmode hqd (hnul hr) (hstop hr)]
    · rw [hqscan]
      rfl
    · rw [hqmarks]
      simp only [Marks.start_scan, Marks.start_idx, List.length_nil, Nat.add_zero]
      rfl
    · simpa [hr] using hsp
  · have hhead : w.head?.any isspace = false := by
      obtain ⟨c, v, rfl⟩ := List.exists_cons_of_ne_nil hw
      rw [← hsplit] at hsp
      simpa using hsp
    -- the run has been read when the round comes to the character behind it
    have hread : w.foldl (Marks.feed sep) p.marks = { q.marks with scan := { q.scan with run := true } } := by
      rw [Marks.feed_adds hw (Marks.adds_run (by exact hmode) (Or.inr hhead) hin), Scan.feed_start (by exact hmode) rfl hw hhead hin, hqmarks,
        hqscan]
      rfl
    rw [← hsplit, List.foldl_append, hread]
    cases r with
    | nil => simp [unquotedEnd, hqstr, Marks.settle, Scan.settle, marks, scan]
    | cons d r =>
      rw [← hqstr, unquotedEnd_marks hqmode hqstr (hnul rfl) (hstop rfl) rfl]
      · rw [Marks.start_of_nonneg]
        · rw [hqmarks]
        · rw [hqmarks]
          exact Marks.start_nonneg p.marks
      · rfl

/-- The positions are those of the parser, but the start and the end may still have to be set. -/
structure Reached (q : Parser) (m : Marks) : Prop where
  scan : m.scan = q.scan
  idx : m.idx = q.idx
  start : m.start = { q.marks with endIdx := m.endIdx }

/-- The character behind a part between quotes belongs to the argument. -/
theorem Reached.drop {q : Parser} {m : Marks} (h : Reached q m) {c : Char} {rest : List Char} (hq : q.str = c :: rest) (mode : Quoting)
    (hctl : control sep q.state false c = (mode, false, .drop)) :
    (c :: rest).foldl (Marks.feed sep) m = (q.enter mode).ended.str.foldl (Marks.feed sep) (q.enter mode).ended.marks := by
  have hfeed : m.feed sep c = (q.enter mode).ended.marks := by
    have hctl' : control sep m.scan.mode m.scan.run c = (mode, false, .drop) := by
      rw [h.scan]
      exact hctl
    rw [Marks.feed_of_control hctl', Marks.apply, h.start, h.scan, h.idx]
    rfl
  rw [List.foldl_cons, hfeed]
  simp only [ended, enter, hq, List.tail_cons]

theorem cut_ne_nil {reject text : List Char} (h : text ≠ []) (hcut : (strcspn reject text).2 = []) : (strcspn reject text).1 ≠ [] := by
  intro hnil
  have hsplit := strcspn_append reject text
  rw [hnil, hcut] at hsplit
  exact h hsplit.symm

variable (sep) in
/-- A round between quotes, up to the character behind what it reads. -/
theorem quoted_marks (p : Parser) (reject : List Char) (h : ∀ c, c ∉ reject → control sep p.state false c = (p.state, false, .add)) :
    ∃ m : Marks, p.str.foldl (Marks.feed sep) p.marks = (p.start.copy reject).str.foldl (Marks.feed sep) m ∧ Reached (p.start.copy reject) m ∧
      ((strcspn reject p.str).1 ≠ [] → m = (p.start.copy reject).ended.marks) := by
  have hsplit := strcspn_append reject p.str
  have hscan : (strcspn reject p.str).1.foldl (Scan.feed sep) p.scan = (p.start.copy reject).scan := by
    rw [Scan.feed_quoted rfl fun c hc => h c (mem_strcspn hc), copy_scan, start_scan, start_buf, start_str]
    rfl
  have hstr : (p.start.copy reject).str = (strcspn reject p.str).2 := by simp [copy]
  have hmarks : (p.start.copy reject).marks =
      { p.marks.start with scan := (p.start.copy reject).scan, idx := p.idx + (strcspn reject p.str).1.length } := by
    rw [copy_marks, start_marks, start_scan, start_buf, start_str, start_idx, copy_scan, start_scan, start_buf, start_str]
  refine ⟨(strcspn reject p.str).1.foldl (Marks.feed sep) p.marks, by rw [hstr, ← List.foldl_append, hsplit], ?_⟩
  have hidx : (p.start.copy reject).idx = p.idx + (strcspn reject p.str).1.length := congrArg Marks.idx hmarks
  by_cases hw : (strcspn reject p.str).1 = []
  · rw [hw, List.foldl_nil] at hscan
    rw [hw, List.length_nil, Nat.add_zero] at hmarks hidx
    rw [hw, List.foldl_nil]
    refine ⟨⟨hscan, hidx.symm, ?_⟩, fun h => absurd rfl h⟩
    rw [hmarks, ← hscan]
    unfold Marks.start
    split_ifs
    · rfl
    · rfl
  · have hread := Marks.feed_adds hw (m := p.marks) (Marks.adds_quoted rfl fun c hc => h c (mem_strcspn hc))
    rw [show p.marks.scan = p.scan from rfl, hscan] at hread
    rw [hread]
    have hended : (p.start.copy reject).ended.marks = { p.marks.start with
        scan := (p.start.copy reject).scan, idx := p.idx + (strcspn reject p.str).1.length,
        endIdx := (p.idx + (strcspn reject p.str).1.length : Nat) } := by
      rw [ended_marks, hmarks, hidx]
    refine ⟨⟨rfl, hidx.symm, ?_⟩, fun _ => hended.symm⟩
    rw [Marks.start_of_nonneg (by exact Marks.start_nonneg p.marks), hmarks]
    rfl

theorem escaped_marks (p : Parser) (buf : Option (List Char)) (mode : Quoting) :
    (({ p.start with buf } : Parser).enter mode).ended.marks =
      { p.marks.start with scan := { p.scan with mode, buf }, idx := p.idx + 1, endIdx := (p.idx + 1 : Nat) } := by
  unfold start Marks.start
  by_cases h : p.startIdx < 0
  · rw [if_pos h, if_pos (by exact h)]
    rfl
  · rw [if_neg h, if_neg (by exact h)]
    rfl

variable (sep) in
theorem step_escaped {c : Char} {rest : List Char} (h : p.str = c :: rest) (hmode : p.state = .backslash ∨ p.state = .doubleQuoteBackslash) :
    p.step sep = (({ p.start with buf := if c = '\n' then p.buf else some (p.buf.getD [] ++ [c]) } : Parser).enter
      (if p.state = .backslash then .unquoted else .doubleQuote)).ended := by
  have hsame : ({ p.start with buf := p.buf } : Parser) = p.start := by rw [← start_buf p]
  obtain hmode | hmode := hmode
  · by_cases hn : c = '\n'
    · rw [if_pos hn, hsame]
      simp [step, hmode, h, hn]
    · simp [step, hmode, h, hn, addStr]
  · by_cases hn : c = '\n'
    · rw [if_pos hn, hsame]
      simp [step, hmode, h, hn]
    · simp [step, hmode, h, hn, addStr]

/-- Reading on from any of the loop's rounds leads to the same, but for `run`. -/
theorem step_marks (h0 : '\x00' ∉ p.str) (hstr : p.str ≠ []) :
    (p.str.foldl (Marks.feed sep) p.marks).settle = ((p.step sep).str.foldl (Marks.feed sep) (p.step sep).marks).settle := by
  unfold step
  cases hmode : p.state with
  | unquoted =>
    dsimp only
    split_ifs with hsp
    · have hw : p.str.takeWhile isspace ≠ [] := by
        obtain ⟨c, rest, h⟩ := List.exists_cons_of_ne_nil hstr
        simp_all
      have hread : (p.str.takeWhile isspace).foldl (Marks.feed sep) p.marks = _ :=
        Marks.feed_spaces hmode rfl hw fun d hd => List.mem_takeWhile_imp hd
      nth_rewrite 1 [← List.takeWhile_append_dropWhile (p := isspace) (l := p.str)]
      have hpush : p.skipSpace.marks.push = { p.marks.push with idx := p.skipSpace.idx } := by
        simp only [Marks.push, show p.skipSpace.marks.scan = p.marks.scan from rfl]
        split_ifs
        · rfl
        · rfl
      rw [List.foldl_append, hread, push_str, push_marks, hpush]
      rfl
    · exact unquoted_marks h0 hstr hmode hsp
  | backslash | doubleQuoteBackslash =>
    obtain ⟨c, rest, h⟩ := List.exists_cons_of_ne_nil hstr
    have hstep := step_escaped sep h (by simp [hmode])
    unfold step at hstep
    rw [hmode] at hstep
    have hctl : control sep p.marks.scan.mode p.marks.scan.run c =
        (if p.state = .backslash then .unquoted else .doubleQuote, false, if c = '\n' then .drop else .add) := by
      rw [show p.marks.scan.mode = p.state from rfl, hmode]
      rfl
    rw [hstep, escaped_marks, h, List.foldl_cons, Marks.feed_of_control hctl, ← hmode]
    have hrest : ∀ (buf : Option (List Char)) (mode : Quoting), (({ p.start with buf } : Parser).enter mode).ended.str = rest := fun _ _ => by
      simp only [ended, enter, start_str, h, List.tail_cons]
    rw [hrest]
    by_cases hn : c = '\n'
    · rw [if_pos hn, if_pos hn]
      rfl
    · rw [if_neg hn, if_neg hn]
      rfl
  | singleQuote =>
    dsimp only
    obtain ⟨m, hread, hm, hended⟩ := quoted_marks sep p ['\''] (by intro c hc; rw [hmode]; simp_all [control])
    have hcut : (p.start.copy ['\'']).str = (strcspn ['\''] p.str).2 := by simp [copy]
    have hstate : (p.start.copy ['\'']).state = .singleQuote := by simp [copy, hmode]
    rw [hread]
    generalize p.start.copy ['\''] = q at hm hended hcut hstate ⊢
    cases hq : q.str with
    | nil =>
      rw [hended (cut_ne_nil hstr (hcut.symm.trans hq)), if_neg (fun h => by cases h)]
      exact congrArg Marks.settle (congrArg _ hq.symm)
    | cons c rest =>
      obtain rfl : c = '\'' := List.mem_singleton.mp (strcspn_stops h0 (hcut.symm.trans hq))
      rw [if_pos List.head?_cons, hm.drop hq .unquoted (by rw [hstate]; rfl)]
  | doubleQuote =>
    dsimp only
    obtain ⟨m, hread, hm, hended⟩ := quoted_marks sep p ['"', '\\'] (by intro c hc; rw [hmode]; simp_all [control])
    have hcut : (p.start.copy ['"', '\\']).str = (strcspn ['"', '\\'] p.str).2 := by simp [copy]
    have hstate : (p.start.copy ['"', '\\']).state = .doubleQuote := by simp [copy, hmode]
    rw [hread]
    generalize p.start.copy ['"', '\\'] = q at hm hended hcut hstate ⊢
    cases hq : q.str with
    | nil =>
      rw [hended (cut_ne_nil hstr (hcut.symm.trans hq)), if_neg (fun h => by cases h), if_neg (fun h => by cases h)]
      exact congrArg Marks.settle (congrArg _ hq.symm)
    | cons c rest =>
      obtain rfl | rfl : c = '"' ∨ c = '\\' := by simpa using strcspn_stops h0 (hcut.symm.trans hq)
      · rw [if_pos List.head?_cons, hm.drop hq .unquoted (by rw [hstate]; rfl)]
      · rw [if_neg (by simp), if_pos List.head?_cons, hm.drop hq .doubleQuoteBackslash (by rw [hstate]; rfl)]

/-! The text is read from the front. -/

theorem copy_suffix (reject : List Char) (p : Parser) : (p.copy reject).str <:+ p.str := List.dropWhile_suffix _

theorem unquotedEnd_suffix ( sep : Char) (p : Parser) : (p.unquotedEnd sep).str <:+ p.str := by
  unfold unquotedEnd
  split
  · exact List.suffix_rfl
  · split_ifs
    · exact List.suffix_rfl
    · exact List.tail_suffix _
    · exact List.tail_suffix _
    · exact List.tail_suffix _
    · rw [push_str]
      exact List.tail_suffix _
    · exact List.suffix_rfl

theorem step_suffix ( sep : Char) (p : Parser) : (p.step sep).str <:+ p.str := by
  unfold step
  cases p.state with
  | unquoted =>
    dsimp only
    split_ifs
    · rw [push_str]
      exact List.dropWhile_suffix _
    · have hcopy := copy_suffix (unquoteTok sep) p.start
      rw [start_str] at hcopy
      exact (unquotedEnd_suffix sep _).trans hcopy
  | backslash | doubleQuoteBackslash =>
    dsimp only
    split_ifs <;> simp only [ended, enter, start_str] <;> exact List.tail_suffix _
  | singleQuote =>
    have hcopy := copy_suffix ['\''] p.start
    rw [start_str] at hcopy
    dsimp only
    split_ifs
    · exact (List.tail_suffix _).trans hcopy
    · exact hcopy
  | doubleQuote =>
    have hcopy := copy_suffix ['"', '\\'] p.start
    rw [start_str] at hcopy
    dsimp only
    split_ifs
    · exact (List.tail_suffix _).trans hcopy
    · exact (List.tail_suffix _).trans hcopy
    · exact hcopy

variable (sep) in
/-- The loop reads the text to its end. -/
theorem loop_marks (h0 : '\x00' ∉ p.str) : (p.loop sep).marks = (p.str.foldl (Marks.feed sep) p.marks).settle := by
  fun_induction loop sep p with
  | case1 p h =>
    rw [h]
    rfl
  | case2 p rest h => exact absurd (h ▸ List.mem_cons_self) h0
  | case3 p c rest h hc ih =>
    rw [ih fun hmem => h0 ((step_suffix sep p).subset hmem), step_marks h0 (by rw [h]; exact List.cons_ne_nil _ _)]

theorem loop_scan (h0 : '\x00' ∉ p.str) : (p.loop sep).scan = (p.str.foldl (Scan.feed sep) p.scan).settle := by
  have hloop : (p.loop sep).marks.scan = _ := congrArg Marks.scan (loop_marks sep h0)
  rwa [Marks.settle, Marks.foldl_scan] at hloop

end Parser
end RainWrt.Uline
