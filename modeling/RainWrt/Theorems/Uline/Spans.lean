import RainWrt.Theorems.Uline.Check

/-! Where the parsed arguments stand in the text, and when the parser says so. -/

namespace RainWrt.Uline

/-! ### Spans -/

/-- The text between two characters with the arguments that end before. `first` is where the open one starts. -/
structure Trace where
  scan : Scan := {}
  idx : Nat := 0
  first : Nat := 0
  spans : List (Nat × Nat) := []
  finished : List (List (Nat × Nat)) := []

namespace Trace

/-- The character belongs to an argument, maybe as its first. -/
def opened (t : Trace) : Trace := if t.scan.buf.isNone then { t with first := t.idx } else t

/-- The argument ends before the character, if there is one. -/
def closed (t : Trace) : Trace := if t.scan.buf.isSome then { t with spans := t.spans ++ [(t.first, t.idx)] } else t

def apply (t : Trace) : Move → Trace
  | .drop | .add | .quote => t.opened
  | .space => t.closed
  | .split => { t.closed with finished := t.closed.finished ++ [t.closed.spans], spans := [] }

def feed ( sep : Char) (t : Trace) (c : Char) : Trace :=
  { t.apply (control sep t.scan.mode t.scan.run c).2.2 with scan := t.scan.feed sep c, idx := t.idx + 1 }

def lines (t : Trace) : List (List (Nat × Nat)) := t.finished ++ [t.closed.spans]

end Trace

/-- The spans of the arguments of each line: from the first character that belongs to it to the first behind it that
    does not. -/
def argSpans ( sep : Char) (text : List Char) : List (List (Nat × Nat)) :=
  ((text.takeWhile (· ≠ '\x00')).foldl (Trace.feed sep) {}).lines

def toInts (span : Nat × Nat) : Int × Int := (span.1, span.2)

def Lines.lists {α : Type} : Lines α → List (List α)
  | .only list => [list]
  | .each lists => lists

def slice (text : List Char) (pos : Int × Int) : List Char := (text.drop pos.1.toNat).take (pos.2.toNat - pos.1.toNat)

/-- The positions are the spans of the arguments, each of which is made of its own part of the text alone. -/
structure Located ( sep : Char) (text : List Char) : Prop where
  spans : (argpParse sep text).pos.lists = (argSpans sep text).map (·.map toInts)
  made : List.Forall₂ (List.Forall₂ fun arg pos => (argpParse sep (slice text pos)).args.lists = [[arg]])
    (argpParse sep text).args.lists (argpParse sep text).pos.lists
  ordered : (argpParse sep text).pos.lists.flatten.Pairwise fun p q => p.2 ≤ q.1

def scanOf ( sep : Char) (w : List Char) : Scan := w.foldl (Scan.feed sep) {}

/-- What the character does behind the text. -/
def moveAt ( sep : Char) (w : List Char) (c : Char) : Move := (control sep (scanOf sep w).mode (scanOf sep w).run c).2.2

/-- Behind a separator that ends no argument there are only blanks and separators, and the text does not end behind an
    opening quote or a backslash outside of quotes. -/
structure Placed ( sep : Char) (text : List Char) : Prop where
  separators : ∀ w c rest, text.takeWhile (· ≠ '\x00') = w ++ c :: rest → (scanOf sep w).buf = none → moveAt sep w c = .split →
    ∀ d ∈ rest, isspace d = true ∨ d = sep
  last : ∀ w c, text.takeWhile (· ≠ '\x00') = w ++ [c] → moveAt sep w c ≠ .quote

/-! ### What a character can do -/

/-- Between quotes an argument is open, and so it is within a run. -/
structure Scan.Open (s : Scan) : Prop where
  run : s.run = true → s.buf ≠ none
  mode : s.mode ≠ .unquoted → s.buf ≠ none

/-- What a character does, and the state behind it. -/
theorem Scan.feed_cases ( sep : Char) {s : Scan} (h : s.Open) (c : Char) :
    ((s.feed sep c).buf ≠ none ∧
      (((control sep s.mode s.run c).2.2 = .quote ∧ (s.feed sep c).mode ≠ .unquoted) ∨ (control sep s.mode s.run c).2.2 = .add ∨
        (control sep s.mode s.run c).2.2 = .drop ∧ s.buf ≠ none)) ∨
    (s.mode = .unquoted ∧ (s.feed sep c).buf = none ∧ (s.feed sep c).mode = .unquoted ∧ (s.feed sep c).run = false ∧
      ((control sep s.mode s.run c).2.2 = .space ∨ (control sep s.mode s.run c).2.2 = .split)) := by
  unfold Scan.feed
  cases hmode : s.mode with
  | unquoted =>
    simp only [control]
    unfold unquotedMove
    split_ifs <;> simp [Scan.apply, Scan.push]
  | backslash | doubleQuoteBackslash =>
    have hbuf := h.mode (by simp [hmode])
    simp only [control]
    split_ifs <;> simp [Scan.apply, hbuf]
  | singleQuote | doubleQuote =>
    have hbuf := h.mode (by simp [hmode])
    simp only [control]
    split_ifs <;> simp [Scan.apply, hbuf]

theorem Scan.Open.feed { sep : Char} {s : Scan} (h : s.Open) (c : Char) : (s.feed sep c).Open := by
  obtain ⟨hbuf, -⟩ | ⟨-, -, hmode, hrun, -⟩ := Scan.feed_cases sep h c
  · exact ⟨fun _ => hbuf, fun _ => hbuf⟩
  · exact ⟨fun hr => absurd hr (by simp [hrun]), fun hm => absurd hmode hm⟩

theorem open_scanOf ( sep : Char) (w : List Char) : (scanOf sep w).Open := by
  induction w using List.reverseRecOn with
  | nil => exact ⟨nofun, fun h => absurd rfl h⟩
  | append_singleton w c ih =>
    rw [scanOf, List.foldl_append]
    exact ih.feed c

/-! ### The positions of the parser -/

/-- What holds of the parser's positions and the spans between two characters. -/
structure Follows (m : Marks) (t : Trace) : Prop where
  scan : t.scan = m.scan
  idx : t.idx = m.idx
  -- the start is unset, or that of a separator
  unset : m.scan.buf = none → m.startIdx = -1 ∨ 0 ≤ m.startIdx ∧ m.startIdx < m.idx
  set : m.scan.buf ≠ none → 0 ≤ m.startIdx ∧ t.first < t.idx
  ends : m.scan.buf ≠ none → m.scan.mode = .unquoted → m.endIdx = m.idx

/-- The positions are the spans so far. -/
structure Same (m : Marks) (t : Trace) : Prop where
  pos : m.pos = t.spans.map toInts
  finished : m.finished = t.finished.map (·.map toInts)
  first : m.scan.buf ≠ none → m.startIdx = t.first

/-- A separator that ended no argument has set the start. -/
def Late (m : Marks) : Prop := m.scan.buf = none ∧ 0 ≤ m.startIdx

variable { sep : Char} {m : Marks} {t : Trace}

/-- The argument ends. -/
theorem Follows.closed_iff (h : Follows m t) :
    (m.push.pos = t.closed.spans.map toInts ∧ m.push.finished = t.closed.finished.map (·.map toInts)) ↔
      Same m t ∧ (m.scan.buf ≠ none → m.endIdx = m.idx) := by
  unfold Marks.push Trace.closed
  rw [h.scan]
  by_cases hbuf : m.scan.buf = none
  · simp only [hbuf, Option.isSome_none, Bool.false_eq_true, if_false]
    exact ⟨fun hs => ⟨⟨hs.1, hs.2, fun hne => absurd hbuf hne⟩, fun hne => absurd rfl hne⟩, fun hs => ⟨hs.1.pos, hs.1.finished⟩⟩
  · have hsome : m.scan.buf.isSome = true := Option.isSome_iff_ne_none.mpr hbuf
    simp only [hsome, if_true]
    constructor
    · rintro ⟨hpos, hfinished⟩
      rw [List.map_append, List.map_singleton] at hpos
      obtain ⟨hpos, hlast⟩ := List.append_inj' hpos rfl
      simp only [toInts, List.cons.injEq, Prod.mk.injEq, and_true] at hlast
      exact ⟨⟨hpos, hfinished, fun _ => hlast.1⟩, fun _ => by rw [hlast.2, h.idx]⟩
    · rintro ⟨⟨hpos, hfinished, hfirst⟩, hends⟩
      refine ⟨?_, hfinished⟩
      rw [List.map_append, List.map_singleton, hpos, hfirst hbuf, hends hbuf, ← h.idx]
      rfl

theorem Follows.closed (h : Follows m t) (hmode : m.scan.mode = .unquoted) :
    (m.push.pos = t.closed.spans.map toInts ∧ m.push.finished = t.closed.finished.map (·.map toInts)) ↔ Same m t :=
  h.closed_iff.trans ⟨fun hs => hs.1, fun hs => ⟨hs, fun hbuf => h.ends hbuf hmode⟩⟩

/-- A character of an argument. -/
theorem Follows.feed_inside (h : Follows m t) {scan : Scan} {e : Int} (hbuf : scan.buf ≠ none) (he : scan.mode = .unquoted → e = m.idx + 1) :
    Follows { m.start with endIdx := e, scan, idx := m.idx + 1 } { t.opened with scan, idx := t.idx + 1 } ∧
      (Same { m.start with endIdx := e, scan, idx := m.idx + 1 } { t.opened with scan, idx := t.idx + 1 } ↔ Same m t ∧ ¬Late m) := by
  have hidx := h.idx
  by_cases hnone : m.scan.buf = none
  · have hopened : t.opened = { t with first := t.idx } := by rw [Trace.opened, h.scan, if_pos (by simp [hnone])]
    rw [hopened]
    have hsame : Same m t ↔ m.pos = t.spans.map toInts ∧ m.finished = t.finished.map (·.map toInts) :=
      ⟨fun hs => ⟨hs.pos, hs.finished⟩, fun hs => ⟨hs.1, hs.2, fun hne => absurd hnone hne⟩⟩
    obtain hunset | ⟨hset, hlt⟩ := h.unset hnone
    · have hstart : m.start = { m with startIdx := m.idx } := if_pos (by omega)
      rw [hstart]
      refine ⟨⟨rfl, by simp [hidx], fun h0 => absurd h0 hbuf, fun _ => by simp, fun _ hm => by simpa using he hm⟩, ?_⟩
      have hlate : ¬Late m := fun hl => by
        have := hl.2
        omega
      rw [hsame]
      exact ⟨fun hs => ⟨⟨hs.pos, hs.finished⟩, hlate⟩, fun hs => ⟨hs.1.1, hs.1.2, fun _ => by simp [hidx]⟩⟩
    · have hstart : m.start = m := Marks.start_of_nonneg hset
      rw [hstart]
      refine ⟨⟨rfl, by simp [hidx], fun h0 => absurd h0 hbuf, fun _ => by simp [hset], fun _ hm => by simpa using he hm⟩, ?_⟩
      have hlate : Late m := ⟨hnone, hset⟩
      constructor
      · intro hs
        have hfirst : m.startIdx = (t.idx : Int) := hs.first hbuf
        omega
      · exact fun hs => absurd hlate hs.2
  · have hopened : t.opened = t := by rw [Trace.opened, h.scan, if_neg (by simpa using hnone)]
    obtain ⟨hset, hlt⟩ := h.set hnone
    have hstart : m.start = m := Marks.start_of_nonneg hset
    rw [hopened, hstart]
    refine ⟨⟨rfl, by simp [hidx], fun h0 => absurd h0 hbuf, fun _ => ⟨hset, by dsimp only; omega⟩, fun _ hm => by simpa using he hm⟩, ?_⟩
    have hlate : ¬Late m := fun hl => hnone hl.1
    exact ⟨fun hs => ⟨⟨hs.pos, hs.finished, fun _ => hs.first hbuf⟩, hlate⟩, fun hs => ⟨hs.1.pos, hs.1.finished, fun _ => hs.1.first hnone⟩⟩

theorem Follows.push_unset (h : Follows m t) : m.push.startIdx = -1 ∨ 0 ≤ m.push.startIdx ∧ m.push.startIdx < (m.idx + 1 : Nat) := by
  unfold Marks.push
  split_ifs with hbuf
  · exact Or.inl rfl
  · obtain hunset | ⟨hset, hlt⟩ := h.unset (by simpa using hbuf)
    · exact Or.inl hunset
    · exact Or.inr ⟨hset, by omega⟩

/-- At a separator the start is set and the end is not moved, before the argument ends. -/
theorem Follows.separator (h : Follows m t) (hmode : m.scan.mode = .unquoted) :
    ({ m.start with endIdx := m.idx } : Marks).push.pos = m.push.pos ∧ ({ m.start with endIdx := m.idx } : Marks).push.finished = m.push.finished ∧
      (({ m.start with endIdx := m.idx } : Marks).push.startIdx = -1 ∨
        0 ≤ ({ m.start with endIdx := m.idx } : Marks).push.startIdx ∧
          ({ m.start with endIdx := m.idx } : Marks).push.startIdx < (m.idx + 1 : Nat)) := by
  by_cases hbuf : m.scan.buf = none
  · have hsame : ({ m.start with endIdx := m.idx } : Marks).push = { m.start with endIdx := m.idx } := if_neg (by simp [hbuf])
    have hsame' : m.push = m := if_neg (by simp [hbuf])
    rw [hsame, hsame']
    unfold Marks.start
    split_ifs with hlt
    · exact ⟨rfl, rfl, Or.inr ⟨Int.natCast_nonneg _, by dsimp only; omega⟩⟩
    · obtain hunset | ⟨hset, hlt⟩ := h.unset hbuf
      · omega
      · exact ⟨rfl, rfl, Or.inr ⟨hset, by dsimp only; omega⟩⟩
  · have hsame : ({ m.start with endIdx := m.idx } : Marks) = m := by
      rw [Marks.start_of_nonneg (h.set hbuf).1, ← h.ends hbuf hmode]
    rw [hsame]
    exact ⟨rfl, rfl, h.push_unset⟩

/-- One character. The positions are no longer the spans once an argument starts behind a separator that ended none. -/
theorem Follows.feed (h : Follows m t) (hopen : m.scan.Open) (c : Char) :
    Follows (m.feed sep c) (t.feed sep c) ∧
      (Same (m.feed sep c) (t.feed sep c) ↔ Same m t ∧ ¬(Late m ∧ (m.scan.feed sep c).buf ≠ none)) := by
  have hcases := Scan.feed_cases sep hopen c
  unfold Marks.feed Trace.feed
  rw [h.scan]
  generalize hmove : (control sep m.scan.mode m.scan.run c).2.2 = move at hcases ⊢
  generalize m.scan.feed sep c = scan at hcases ⊢
  obtain ⟨hbuf, hquote | hadd | ⟨hdrop, -⟩⟩ | ⟨hmode, hbuf, hmode', hrun, hspace | hsplit⟩ := hcases
  · obtain ⟨rfl, hne⟩ := hquote
    simpa [Marks.apply, Trace.apply, hbuf] using h.feed_inside (e := m.idx) hbuf fun hm => absurd hm hne
  · subst hadd
    simpa [Marks.apply, Trace.apply, hbuf] using h.feed_inside (e := (m.idx + 1 : Nat)) hbuf fun _ => by simp
  · subst hdrop
    simpa [Marks.apply, Trace.apply, hbuf] using h.feed_inside (e := (m.idx + 1 : Nat)) hbuf fun _ => by simp
  · subst hspace
    have hvacuous : ∀ {P : Prop}, scan.buf ≠ none → P := fun hne => absurd hbuf hne
    refine ⟨⟨rfl, by simp [h.idx], fun _ => h.push_unset, hvacuous, hvacuous⟩, ?_⟩
    rw [← h.closed hmode]
    exact ⟨fun hs => ⟨⟨hs.pos, hs.finished⟩, fun hl => hl.2 hbuf⟩, fun hs => ⟨hs.1.1, hs.1.2, hvacuous⟩⟩
  · subst hsplit
    have hvacuous : ∀ {P : Prop}, scan.buf ≠ none → P := fun hne => absurd hbuf hne
    obtain ⟨hpos, hfinished, hunset⟩ := h.separator hmode
    refine ⟨⟨rfl, by simp [h.idx], fun _ => hunset, hvacuous, hvacuous⟩, ?_⟩
    rw [← h.closed hmode, ← hpos, ← hfinished]
    constructor
    · intro hs
      have hlines := hs.finished
      simp only [Marks.apply, Trace.apply, List.map_append, List.map_singleton] at hlines
      obtain ⟨hinit, hlast⟩ := List.append_inj' hlines rfl
      exact ⟨⟨List.singleton_inj.mp hlast, hinit⟩, fun hl => hl.2 hbuf⟩
    · intro hs
      refine ⟨rfl, ?_, hvacuous⟩
      simp only [Marks.apply, Trace.apply, List.map_append, List.map_singleton]
      rw [hs.1.1, hs.1.2]

/-! ### Separators that end no argument -/

theorem Scan.Open.outside {s : Scan} (h : s.Open) (hbuf : s.buf = none) : s.mode = .unquoted ∧ s.run = false := by
  refine ⟨?_, ?_⟩
  · by_contra hmode
    exact h.mode hmode hbuf
  · by_contra hrun
    exact h.run (by simpa using hrun) hbuf

/-- A separator that counts is no quote. -/
theorem control_split {mode : Quoting} {run : Bool} {c : Char} (h : (control sep mode run c).2.2 = .split) :
    c = sep ∧ c ≠ '\'' ∧ c ≠ '"' ∧ c ≠ '\\' := by
  unfold control at h
  cases mode with
  | unquoted =>
    simp only [unquotedMove] at h
    split_ifs at h with h1 h2 h3 h4 h5
    exact ⟨h5, h2, h3, h4⟩
  | backslash | singleQuote | doubleQuote | doubleQuoteBackslash =>
    dsimp only at h
    split_ifs at h

/-- Outside of arguments, only blanks and separators start none. -/
theorem feed_outside {s : Scan} (h : s.Open) (hbuf : s.buf = none) (c : Char) :
    (s.feed sep c).buf = none ↔ isspace c = true ∨ (c = sep ∧ c ≠ '\'' ∧ c ≠ '"' ∧ c ≠ '\\') := by
  obtain ⟨hmode, hrun⟩ := h.outside hbuf
  simp only [Scan.feed, hmode, hrun, control, unquotedMove]
  cases hsp : isspace c with
  | true => simp [Scan.apply, Scan.push]
  | false =>
    have hlisted : c ∉ [' ', '\t', '\r', '\n'] := by
      simp only [isspace, List.mem_cons, List.not_mem_nil, or_false, decide_eq_false_iff_not] at hsp ⊢
      tauto
    simp only [hlisted, if_false]
    split_ifs <;> simp_all [Scan.apply, Scan.push]

def marksOf ( sep : Char) (w : List Char) : Marks := w.foldl (Marks.feed sep) {}

def traceOf ( sep : Char) (w : List Char) : Trace := w.foldl (Trace.feed sep) {}

@[simp] theorem marksOf_scan (w : List Char) : (marksOf sep w).scan = scanOf sep w := Marks.foldl_scan w {}

theorem marksOf_append (w : List Char) (c : Char) : marksOf sep (w ++ [c]) = (marksOf sep w).feed sep c := List.foldl_append

theorem traceOf_append (w : List Char) (c : Char) : traceOf sep (w ++ [c]) = (traceOf sep w).feed sep c := List.foldl_append

theorem scanOf_append (w : List Char) (c : Char) : scanOf sep (w ++ [c]) = (scanOf sep w).feed sep c := List.foldl_append

theorem append_cons_cases {w w₁ rest : List Char} {c d : Char} (h : w ++ [c] = w₁ ++ d :: rest) :
    w₁ = w ∧ d = c ∧ rest = [] ∨ ∃ r, rest = r ++ [c] ∧ w = w₁ ++ d :: r := by
  cases rest using List.reverseRecOn with
  | nil =>
    obtain ⟨hw, hc⟩ := List.append_inj' h rfl
    exact Or.inl ⟨hw.symm, (List.singleton_inj.mp hc).symm, rfl⟩
  | append_singleton r e =>
    rw [← List.cons_append, ← List.append_assoc] at h
    obtain ⟨hw, hc⟩ := List.append_inj' h rfl
    exact Or.inr ⟨r, by rw [List.singleton_inj.mp hc], hw⟩

/-- The positions follow the spans, and are the same until an argument starts late. -/
theorem follows_run ( sep : Char) (w : List Char) :
    Follows (marksOf sep w) (traceOf sep w) ∧
      (Same (marksOf sep w) (traceOf sep w) ↔
        ∀ w₁ c rest, w = w₁ ++ c :: rest → ¬(Late (marksOf sep w₁) ∧ (scanOf sep (w₁ ++ [c])).buf ≠ none)) := by
  induction w using List.reverseRecOn with
  | nil =>
    refine ⟨⟨rfl, rfl, fun _ => Or.inl rfl, fun h => absurd rfl h, fun h => absurd rfl h⟩, fun _ w₁ c rest h => ?_, fun _ => ?_⟩
    · simp at h
    · exact ⟨rfl, rfl, fun h => absurd rfl h⟩
  | append_singleton w c ih =>
    obtain ⟨hfollows, hsame⟩ := ih
    have hopen := open_scanOf sep w
    rw [← marksOf_scan] at hopen
    obtain ⟨hfollows', hsame'⟩ := hfollows.feed hopen c
    rw [marksOf_append, traceOf_append]
    refine ⟨hfollows', hsame'.trans ?_⟩
    rw [hsame, marksOf_scan, ← scanOf_append]
    constructor
    · rintro ⟨hbefore, hlast⟩ w₁ d rest heq
      obtain ⟨rfl, rfl, -⟩ | ⟨r, rfl, rfl⟩ := append_cons_cases heq
      · exact hlast
      · exact hbefore w₁ d r rfl
    · intro hall
      refine ⟨fun w₁ d rest heq => hall w₁ d (rest ++ [c]) (by rw [heq]; simp), hall w c [] rfl⟩

theorem late_append {w : List Char} {c : Char} :
    Late (marksOf sep (w ++ [c])) ↔
      (scanOf sep (w ++ [c])).buf = none ∧ (Late (marksOf sep w) ∨ (scanOf sep w).buf = none ∧ moveAt sep w c = .split) := by
  have hcases := Scan.feed_cases sep (open_scanOf sep w) c
  rw [marksOf_append, scanOf_append, Late, Late, Marks.feed, marksOf_scan]
  simp only [moveAt]
  generalize (control sep (scanOf sep w).mode (scanOf sep w).run c).2.2 = move at hcases ⊢
  generalize (scanOf sep w).feed sep c = scan at hcases ⊢
  have hbuf : (marksOf sep w).scan = scanOf sep w := marksOf_scan w
  generalize marksOf sep w = m at hbuf ⊢
  obtain ⟨hsome, -⟩ | ⟨-, hnone, -, -, rfl | rfl⟩ := hcases
  · exact ⟨fun h => absurd h.1 hsome, fun h => absurd h.1 hsome⟩
  · simp only [hnone, true_and, Marks.apply, Marks.push, hbuf, reduceCtorEq, and_false, or_false]
    cases h : (scanOf sep w).buf with
    | none => simp
    | some arg => simp
  · simp only [hnone, true_and, Marks.apply, Marks.push, Marks.start_scan, hbuf, and_true]
    cases h : (scanOf sep w).buf with
    | none => simp [m.start_nonneg]
    | some arg => simp

/-- A separator that ended no argument was read, and no argument since. -/
theorem exists_of_late {w : List Char} (h : Late (marksOf sep w)) :
    ∃ w₁ c rest, w = w₁ ++ c :: rest ∧ (scanOf sep w₁).buf = none ∧ moveAt sep w₁ c = .split := by
  induction w using List.reverseRecOn with
  | nil => exact absurd (show (0 : Int) ≤ -1 from h.2) (by decide)
  | append_singleton w c ih =>
    obtain ⟨-, hlate | ⟨hbuf, hsplit⟩⟩ := late_append.mp h
    · obtain ⟨w₁, d, rest, rfl, hstray⟩ := ih hlate
      exact ⟨w₁, d, rest ++ [c], by simp, hstray⟩
    · exact ⟨w, c, [], rfl, hbuf, hsplit⟩

theorem exists_late_start {w rest : List Char} (hlate : Late (marksOf sep w)) {d : Char} (hd : d ∈ rest) (hsp : isspace d = false) (hsep : d ≠ sep) :
    ∃ w₁ c r, w ++ rest = w₁ ++ c :: r ∧ Late (marksOf sep w₁) ∧ (scanOf sep (w₁ ++ [c])).buf ≠ none := by
  induction rest generalizing w with
  | nil => cases hd
  | cons e rest ih =>
    by_cases hopens : (scanOf sep (w ++ [e])).buf = none
    · have hnone : (scanOf sep w).buf = none := by
        rw [← marksOf_scan]
        exact hlate.1
      have hde : d ≠ e := by
        rintro rfl
        rw [scanOf_append, feed_outside (open_scanOf sep w) hnone] at hopens
        obtain hopens | ⟨hopens, -⟩ := hopens
        · rw [hsp] at hopens
          cases hopens
        · exact hsep hopens
      obtain ⟨w₁, c, r, heq, h⟩ := ih (late_append.mpr ⟨hopens, Or.inl hlate⟩) ((List.mem_cons.mp hd).resolve_left hde)
      exact ⟨w₁, c, r, by rw [← heq]; simp, h⟩
    · exact ⟨w, e, rest, rfl, hlate, hopens⟩

/-- No argument starts late if there are only blanks and separators behind each separator that ends none. -/
theorem no_late_start_iff ( sep : Char) (w : List Char) :
    (∀ w₁ c rest, w = w₁ ++ c :: rest → ¬(Late (marksOf sep w₁) ∧ (scanOf sep (w₁ ++ [c])).buf ≠ none)) ↔
      ∀ w₁ c rest, w = w₁ ++ c :: rest → (scanOf sep w₁).buf = none → moveAt sep w₁ c = .split → ∀ d ∈ rest, isspace d = true ∨ d = sep := by
  constructor
  · intro h w₁ c rest heq hbuf hsplit d hd
    by_contra hbad
    obtain ⟨hsp, hsep⟩ := not_or.mp hbad
    have hnone : (scanOf sep (w₁ ++ [c])).buf = none := by
      rw [scanOf_append, feed_outside (open_scanOf sep w₁) hbuf]
      exact Or.inr (control_split hsplit)
    obtain ⟨w₂, e, r, heq', hlate⟩ := exists_late_start (late_append.mpr ⟨hnone, Or.inr ⟨hbuf, hsplit⟩⟩) hd (by simpa using hsp) hsep
    exact h w₂ e r (by rw [heq, ← heq']; simp) hlate
  · rintro h w₁ c rest rfl ⟨hlate, hopens⟩
    obtain ⟨w₂, e, r, rfl, hbuf, hsplit⟩ := exists_of_late hlate
    have hc := h w₂ e (r ++ c :: rest) (by simp) hbuf hsplit c (by simp)
    have hnone : (scanOf sep (w₂ ++ e :: r)).buf = none := by
      rw [← marksOf_scan]
      exact hlate.1
    rw [scanOf_append] at hopens
    refine hopens ((feed_outside (open_scanOf sep _) hnone c).mpr (hc.imp_right fun hsep => ⟨hsep, ?_⟩))
    obtain ⟨he, hquotes⟩ := control_split hsplit
    rwa [hsep, ← he]

/-! ### What is returned -/

/-- The parser behind the text. -/
theorem parser_spec ( sep : Char) {text : List Char} (h0 : '\x00' ∉ text) :
    ((({ str := text } : Parser).skipSpace.loop sep).push).marks =
      { (marksOf sep text).push with scan := (scanOf sep text).settle.push } := by
  have hstart : (({ str := text } : Parser).skipSpace).marks = marksOf sep (text.takeWhile isspace) := by
    by_cases hw : text.takeWhile isspace = []
    · rw [hw]
      simp [Parser.skipSpace, Parser.marks, Parser.scan, marksOf, hw]
    · rw [marksOf, Marks.feed_spaces rfl rfl hw fun d hd => List.mem_takeWhile_imp hd]
      simp [Parser.skipSpace, Parser.marks, Parser.scan, Marks.push, Scan.push]
  have hread : (({ str := text } : Parser).skipSpace).str.foldl (Marks.feed sep) ({ str := text } : Parser).skipSpace.marks = marksOf sep text := by
    rw [hstart, marksOf, ← List.foldl_append]
    exact congrArg _ List.takeWhile_append_dropWhile
  have h0' : '\x00' ∉ (({ str := text } : Parser).skipSpace).str := fun h => h0 ((List.dropWhile_sublist _).subset h)
  have hloop := Parser.loop_marks sep h0'
  rw [hread] at hloop
  have hscan := congrArg Marks.scan hloop
  rw [Parser.push_marks, hloop]
  rw [Marks.settle, marksOf_scan] at hscan
  rw [show (Parser.loop sep ({ str := text } : Parser).skipSpace).scan = (scanOf sep text).settle from hscan]
  unfold Marks.push Marks.settle
  simp only [marksOf_scan, Scan.settle]
  split_ifs
  · rfl
  · rfl

/-- What is returned for a text without NUL. -/
theorem parse_lists ( sep : Char) {text : List Char} (h0 : '\x00' ∉ text) :
    (argpParse sep text).args.lists = (scanOf sep text).lines ∧
      (argpParse sep text).pos.lists = (marksOf sep text).push.finished ++ [(marksOf sep text).push.pos] := by
  have hspec := parser_spec sep h0
  have hscan := congrArg Marks.scan hspec
  have hpos := congrArg Marks.pos hspec
  have hfinished := congrArg Marks.finished hspec
  have hnone : sep = '\x00' → (scanOf sep text).finished = [] := fun hs => finished_of_not_mem _ (hs ▸ h0)
  unfold argpParse
  generalize ((({ str := text } : Parser).skipSpace.loop sep).push) = p at hscan hpos hfinished ⊢
  have hargs : p.line.args = (scanOf sep text).push.args := congrArg Scan.args hscan
  have hlines : p.finished.map ArgLine.args = (scanOf sep text).finished := congrArg Scan.finished hscan
  simp only [Parser.marks] at hpos hfinished
  rw [← hpos, ← hfinished, Scan.lines, ← hargs, ← hlines]
  split_ifs with hs
  · exact ⟨by simp [Lines.lists], by simp [Lines.lists]⟩
  · rw [hnone (not_not.mp hs), List.map_eq_nil_iff] at hlines
    exact ⟨by simp [Lines.lists, hlines], by simp [Lines.lists, hlines]⟩

/-! ### What the spans are -/

/-- Without the arguments before. -/
def Scan.bare (s : Scan) : Scan := { s with args := [], finished := [] }

/-- The span is not empty, and its part of the text alone gives the argument. -/
structure Made ( sep : Char) (w : List Char) (arg : List Char) (span : Nat × Nat) : Prop where
  lt : span.1 < span.2
  le : span.2 ≤ w.length
  lines : (scanOf sep ((w.drop span.1).take (span.2 - span.1))).lines = [[arg]]

theorem Made.append {w : List Char} {arg : List Char} {span : Nat × Nat} (h : Made sep w arg span) (c : Char) : Made sep (w ++ [c]) arg span := by
  have hle := h.le
  refine ⟨h.lt, by rw [List.length_append]; omega, ?_⟩
  rw [List.drop_append_of_le_length (by have := h.lt; omega), List.take_append_of_le_length (by rw [List.length_drop]; omega)]
  exact h.lines

/-- Where the open argument starts, or the next one may. -/
def Trace.next (t : Trace) : Nat := if t.scan.buf.isNone then t.idx else t.first

/-- What holds of the spans behind a text. -/
structure Tiled ( sep : Char) (w : List Char) (t : Trace) : Prop where
  scan : t.scan = scanOf sep w
  idx : t.idx = w.length
  next : t.next ≤ w.length ∧ (t.scan.buf ≠ none → t.next < w.length)
  openArg : scanOf sep (w.drop t.next) = (scanOf sep w).bare
  args : List.Forall₂ (Made sep w) (scanOf sep w).args t.spans
  lines : List.Forall₂ (List.Forall₂ (Made sep w)) (scanOf sep w).finished t.finished
  ordered : (t.finished.flatten ++ t.spans).Pairwise fun a b => a.2 ≤ b.1
  before : ∀ a ∈ t.finished.flatten ++ t.spans, a.2 ≤ t.next

theorem Tiled.closed {w : List Char} (h : Tiled sep w t) :
    List.Forall₂ (Made sep w) (scanOf sep w).push.args t.closed.spans ∧ t.closed.finished = t.finished ∧
      (t.finished.flatten ++ t.closed.spans).Pairwise (fun a b => a.2 ≤ b.1) ∧ ∀ a ∈ t.finished.flatten ++ t.closed.spans, a.2 ≤ w.length := by
  unfold Trace.closed Scan.push
  rw [h.scan]
  have hnext := h.next
  rw [h.scan] at hnext
  cases hbuf : (scanOf sep w).buf with
  | none =>
    simp only [Option.isSome_none, Bool.false_eq_true, if_false, Option.toList_none, List.append_nil]
    exact ⟨h.args, trivial, h.ordered, fun a ha => Nat.le_trans (h.before a ha) hnext.1⟩
  | some arg =>
    have hfirst : t.next = t.first := by rw [Trace.next, h.scan, hbuf]; rfl
    rw [hfirst] at hnext
    simp only [Option.isSome_some, if_true, Option.toList_some]
    have hmade : Made sep w arg (t.first, t.idx) := by
      refine ⟨by have := hnext.2 (by simp [hbuf]); rw [h.idx]; exact this, by rw [h.idx], ?_⟩
      have hopen := h.openArg
      rw [hfirst] at hopen
      rw [List.take_of_length_le (by rw [List.length_drop, h.idx]), hopen]
      simp [Scan.lines, Scan.bare, Scan.push, hbuf]
    refine ⟨List.rel_append h.args (List.Forall₂.cons hmade .nil), trivial, ?_, ?_⟩
    · rw [← List.append_assoc, List.pairwise_append]
      refine ⟨h.ordered, List.pairwise_singleton _ _, fun a ha b hb => ?_⟩
      rw [List.mem_singleton.mp hb]
      have := h.before a ha
      rwa [hfirst] at this
    · intro a ha
      rw [← List.append_assoc, List.mem_append] at ha
      obtain ha | ha := ha
      · exact Nat.le_trans (h.before a ha) (by rw [hfirst]; exact hnext.1)
      · rw [List.mem_singleton.mp ha]
        exact Nat.le_of_eq h.idx

theorem tiled_nil : Tiled sep [] {} :=
  ⟨rfl, rfl, ⟨Nat.le_refl _, fun h => absurd rfl h⟩, rfl, .nil, .nil, .nil, nofun⟩

theorem Scan.feed_inside {s : Scan} {c : Char} {move : Move} (hmove : (control sep s.mode s.run c).2.2 = move) (hne : move ≠ .space ∧ move ≠ .split) :
    (s.feed sep c).bare = s.bare.feed sep c ∧ (s.feed sep c).args = s.args ∧ (s.feed sep c).finished = s.finished := by
  have hmove' : (control sep s.bare.mode s.bare.run c).2.2 = move := hmove
  unfold Scan.feed
  dsimp only
  rw [hmove, hmove']
  cases move with
  | drop | add | quote => exact ⟨rfl, rfl, rfl⟩
  | space => exact absurd rfl hne.1
  | split => exact absurd rfl hne.2

/-- A character of an argument. -/
theorem Tiled.inside {w : List Char} (h : Tiled sep w t) {c : Char} {move : Move}
    (hmove : (control sep (scanOf sep w).mode (scanOf sep w).run c).2.2 = move) (hne : move ≠ .space ∧ move ≠ .split)
    (hbuf : (scanOf sep (w ++ [c])).buf ≠ none) : Tiled sep (w ++ [c]) { t.opened with scan := scanOf sep (w ++ [c]), idx := t.idx + 1 } := by
  obtain ⟨hbare, hargs, hfinished⟩ := Scan.feed_inside hmove hne
  rw [← scanOf_append] at hbare hargs hfinished
  have hopened : t.opened = { t with first := t.next } := by
    unfold Trace.opened Trace.next
    split_ifs
    · rfl
    · rfl
  have hnext : ({ t.opened with scan := scanOf sep (w ++ [c]), idx := t.idx + 1 } : Trace).next = t.next := by
    rw [Trace.next, if_neg (by simpa using hbuf), hopened]
  have hle := h.next.1
  refine ⟨rfl, by simp [h.idx], ?_, ?_, ?_, ?_, ?_, ?_⟩
  · rw [hnext, List.length_append, List.length_singleton]
    exact ⟨by omega, fun _ => by omega⟩
  · rw [hnext, List.drop_append_of_le_length hle, scanOf_append, h.openArg, hbare]
  · rw [hargs, hopened]
    exact h.args.imp fun _ _ hmade => hmade.append c
  · rw [hfinished, hopened]
    exact h.lines.imp fun _ _ hline => hline.imp fun _ _ hmade => hmade.append c
  · rw [hopened]
    exact h.ordered
  · rw [hnext, hopened]
    exact h.before

/-- Behind a character that belongs to no argument. -/
theorem tiled_outside {w : List Char} {c : Char} (hbare : (scanOf sep (w ++ [c])).bare = {}) (hscan : t.scan = scanOf sep (w ++ [c]))
    (hidx : t.idx = w.length + 1) (hargs : List.Forall₂ (Made sep w) (scanOf sep (w ++ [c])).args t.spans)
    (hlines : List.Forall₂ (List.Forall₂ (Made sep w)) (scanOf sep (w ++ [c])).finished t.finished)
    (hordered : (t.finished.flatten ++ t.spans).Pairwise fun a b => a.2 ≤ b.1) (hbefore : ∀ a ∈ t.finished.flatten ++ t.spans, a.2 ≤ w.length) :
    Tiled sep (w ++ [c]) t := by
  have hbuf : (scanOf sep (w ++ [c])).buf = none := congrArg Scan.buf hbare
  have hlen : (w ++ [c]).length = w.length + 1 := by rw [List.length_append, List.length_singleton]
  have hnext : t.next = (w ++ [c]).length := by rw [Trace.next, hscan, hbuf, Option.isNone_none, if_pos rfl, hidx, hlen]
  refine ⟨hscan, by rw [hidx, hlen], ⟨Nat.le_of_eq hnext, fun hne => absurd (hscan ▸ hbuf) hne⟩, ?_, ?_, ?_, hordered, ?_⟩
  · rw [hnext, List.drop_length, hbare]
    rfl
  · exact hargs.imp fun _ _ hmade => hmade.append c
  · exact hlines.imp fun _ _ hline => hline.imp fun _ _ hmade => hmade.append c
  · intro a ha
    rw [hnext, hlen]
    exact Nat.le_succ_of_le (hbefore a ha)

theorem Tiled.append {w : List Char} (h : Tiled sep w t) (c : Char) : Tiled sep (w ++ [c]) (t.feed sep c) := by
  have hcases := Scan.feed_cases sep (open_scanOf sep w) c
  have hfeed : (scanOf sep w).feed sep c = scanOf sep (w ++ [c]) := (scanOf_append w c).symm
  unfold Trace.feed
  rw [h.scan, hfeed]
  obtain ⟨hbuf, ⟨hmove, -⟩ | hmove | ⟨hmove, -⟩⟩ | ⟨-, hbuf, hmode, hrun, hmove⟩ := hcases
  · rw [hfeed] at hbuf
    rw [hmove]
    exact h.inside hmove (by simp) hbuf
  · rw [hfeed] at hbuf
    rw [hmove]
    exact h.inside hmove (by simp) hbuf
  · rw [hfeed] at hbuf
    rw [hmove]
    exact h.inside hmove (by simp) hbuf
  · obtain ⟨hargs, hsame, hordered, hbefore⟩ := h.closed
    rw [hfeed] at hbuf hmode hrun
    have hbare : (scanOf sep (w ++ [c])).bare = {} := by simp [Scan.bare, hbuf, hmode, hrun]
    obtain hmove | hmove := hmove
    · have hpush : (scanOf sep (w ++ [c])).args = (scanOf sep w).push.args ∧ (scanOf sep (w ++ [c])).finished = (scanOf sep w).finished := by
        rw [← hfeed, Scan.feed, hmove]
        exact ⟨rfl, rfl⟩
      rw [hmove]
      refine tiled_outside hbare rfl (by rw [← h.idx]) (by rw [hpush.1]; exact hargs) ?_ ?_ ?_
      · rw [hpush.2]
        exact hsame ▸ h.lines
      · exact (show List.Pairwise _ (t.closed.finished.flatten ++ t.closed.spans) from hsame ▸ hordered)
      · exact (show ∀ a ∈ t.closed.finished.flatten ++ t.closed.spans, _ from hsame ▸ hbefore)
    · have hpush : (scanOf sep (w ++ [c])).args = [] ∧
          (scanOf sep (w ++ [c])).finished = (scanOf sep w).finished ++ [(scanOf sep w).push.args] := by
        rw [← hfeed, Scan.feed, hmove]
        exact ⟨rfl, rfl⟩
      have hflat : (t.closed.finished ++ [t.closed.spans]).flatten ++ [] = t.finished.flatten ++ t.closed.spans := by
        rw [hsame, List.flatten_append, List.flatten_singleton, List.append_nil]
      rw [hmove]
      refine tiled_outside hbare rfl (by rw [← h.idx]) (by rw [hpush.1]; exact .nil) ?_ ?_ ?_
      · rw [hpush.2]
        exact List.rel_append (hsame ▸ h.lines) (.cons hargs .nil)
      · exact hflat ▸ hordered
      · exact hflat ▸ hbefore

theorem tiled_run ( sep : Char) (w : List Char) : Tiled sep w (traceOf sep w) := by
  induction w using List.reverseRecOn with
  | nil => exact tiled_nil
  | append_singleton w c ih =>
    rw [traceOf_append]
    exact ih.append c

/-! ### When the positions are right -/

/-- The end of the last argument is right but behind an opening quote or a backslash. -/
theorem end_iff ( sep : Char) (w : List Char) :
    ((marksOf sep w).scan.buf ≠ none → (marksOf sep w).endIdx = (marksOf sep w).idx) ↔ ∀ v c, w = v ++ [c] → moveAt sep v c ≠ .quote := by
  cases w using List.reverseRecOn with
  | nil => exact ⟨fun _ v c h => by simp at h, fun _ h => absurd rfl h⟩
  | append_singleton w c =>
    have hlast : (∀ v d, w ++ [c] = v ++ [d] → moveAt sep v d ≠ .quote) ↔ moveAt sep w c ≠ .quote := by
      refine ⟨fun h => h w c rfl, fun h v d heq => ?_⟩
      obtain ⟨rfl, hd⟩ := List.append_inj' heq rfl
      rwa [← List.singleton_inj.mp hd]
    rw [hlast, marksOf_append, Marks.feed, marksOf_scan]
    have hcases := Scan.feed_cases sep (open_scanOf sep w) c
    simp only [moveAt]
    generalize (control sep (scanOf sep w).mode (scanOf sep w).run c).2.2 = move at hcases ⊢
    obtain ⟨hbuf, ⟨rfl, -⟩ | rfl | ⟨rfl, -⟩⟩ | ⟨-, hbuf, -, -, rfl | rfl⟩ := hcases
    · simp only [ne_eq, hbuf, not_false_eq_true, Marks.apply, not_true_eq_false, iff_false, forall_const]
      omega
    · simp [hbuf, Marks.apply]
    · simp [hbuf, Marks.apply]
    · simp [hbuf]
    · simp [hbuf]

theorem not_mem_slice (text : List Char) (s n : Nat) : '\x00' ∉ ((text.takeWhile (· ≠ '\x00')).drop s).take n := fun h =>
  not_mem_takeWhile text (List.mem_of_mem_drop (List.mem_of_mem_take h))

/-- A part of the text before the NUL. -/
theorem slice_toInts {text : List Char} {span : Nat × Nat} (h : span.2 ≤ (text.takeWhile (· ≠ '\x00')).length) :
    slice text (toInts span) = ((text.takeWhile (· ≠ '\x00')).drop span.1).take (span.2 - span.1) := by
  obtain ⟨tail, htext⟩ := List.takeWhile_prefix (l := text) (fun c => decide (c ≠ '\x00'))
  simp only [slice, toInts, Int.toNat_natCast]
  conv_lhs => rw [← htext]
  by_cases hle : span.1 ≤ span.2
  · rw [List.drop_append_of_le_length (by omega), List.take_append_of_le_length (by rw [List.length_drop]; omega)]
  · rw [show span.2 - span.1 = 0 by omega, List.take_zero, List.take_zero]

/-- The positions that are returned are those of the arguments exactly if every separator that ends no argument has
    only blanks and separators behind it and the text does not end behind an opening quote or backslash. -/
theorem located_iff ( sep : Char) (text : List Char) : Located sep text ↔ Placed sep text := by
  have h0 := not_mem_takeWhile text
  obtain ⟨hargs, hpos⟩ := parse_lists sep h0
  rw [← (parse_upTo sep text).1] at hargs hpos
  obtain ⟨hfollows, hsame⟩ := follows_run sep (text.takeWhile (· ≠ '\x00'))
  have htiled := tiled_run sep (text.takeWhile (· ≠ '\x00'))
  have hspans : (argpParse sep text).pos.lists = (argSpans sep text).map (·.map toInts) ↔ Placed sep text := by
    rw [hpos, argSpans, Trace.lines, List.map_append, List.map_singleton]
    have hclosed := hfollows.closed_iff
    rw [hsame, no_late_start_iff, end_iff, htiled.closed.2.1] at hclosed
    constructor
    · intro heq
      obtain ⟨hinit, hlast⟩ := List.append_inj' heq rfl
      obtain ⟨hseparators, hend⟩ := hclosed.mp ⟨List.singleton_inj.mp hlast, hinit⟩
      exact ⟨hseparators, hend⟩
    · intro hplaced
      obtain ⟨hlast, hinit⟩ := hclosed.mpr ⟨hplaced.separators, hplaced.last⟩
      rw [hlast, hinit]
      rfl
  refine ⟨fun h => hspans.mp h.spans, fun h => ?_⟩
  have heq := hspans.mpr h
  obtain ⟨hmade, -, hordered, -⟩ := htiled.closed
  refine ⟨heq, ?_, ?_⟩
  · rw [hargs, heq, List.forall₂_map_right_iff]
    have hall := List.rel_append htiled.lines (.cons hmade .nil)
    refine hall.imp fun args spans hline => ?_
    rw [List.forall₂_map_right_iff]
    refine hline.imp fun arg span hspan => ?_
    rw [slice_toInts hspan.le, (parse_lists sep (not_mem_slice text _ _)).1]
    exact hspan.lines
  · rw [heq, argSpans, Trace.lines, ← List.map_flatten, List.flatten_append, List.flatten_singleton, List.pairwise_map]
    exact List.Pairwise.imp (fun hle => Int.ofNat_le.mpr hle) hordered

/-- The argument of `;a` is said to start at the separator. -/
theorem separator_counted : ¬∀ ( sep : Char) (text : List Char), Located sep text := by
  intro h
  have hspans := (h ';' [';', 'a']).spans
  rw [(parse_lists ';' (by decide)).2] at hspans
  exact absurd hspans (by decide)

end RainWrt.Uline
