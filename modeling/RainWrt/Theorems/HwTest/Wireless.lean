import RainWrt.HwTest.Wireless

/-! A migrated wireless configuration holds the old device path nowhere, and migrating it again changes
    nothing. -/

namespace RainWrt.HwTest

/-! ### Lines -/

/-- Lines as `splitlines` leaves them: every one but the last ends in a newline, and holds no other. -/
inductive Lines : List Bytes → Prop where
  | nil : Lines []
  | last {l : Bytes} (hne : l ≠ []) (hb : ∀ b ∈ l, isEol b = false) : Lines [l]
  | cons {body sep : Bytes} {ls : List Bytes} (hb : ∀ b ∈ body, isEol b = false) (hs : sep = [10] ∨ sep = [13] ∨ sep = [13, 10])
      (hnext : sep = [13] → ls.flatten.head? ≠ some 10) (h : Lines ls) : Lines ((body ++ sep) :: ls)

theorem flatten_splitLinesFrom (cur t : Bytes) : (splitLinesFrom cur t).flatten = cur ++ t := by
  fun_induction splitLinesFrom cur t with
  | case1 => simp
  | case2 cur h => simp
  | case3 cur t ih => simp [ih]
  | case4 cur c t h1 h2 ih => simp [ih]
  | case5 cur c t h1 h2 ih => simp [ih]

theorem lines_splitLinesFrom {cur t : Bytes} (hc : ∀ b ∈ cur, isEol b = false) : Lines (splitLinesFrom cur t) := by
  fun_induction splitLinesFrom cur t with
  | case1 => exact .nil
  | case2 cur h => exact .last h hc
  | case3 cur t ih => exact .cons hc (.inr (.inr rfl)) (fun h => by cases h) (ih (by simp))
  | case4 cur c t h1 h2 ih =>
    have hsep : c = 10 ∨ c = 13 := by simpa [isEol] using h2
    refine .cons hc ?_ (fun h => ?_) (ih (by simp))
    · rcases hsep with rfl | rfl
      · exact .inl rfl
      · exact .inr (.inl rfl)
    · rw [flatten_splitLinesFrom, List.nil_append]
      intro hh
      obtain ⟨t', rfl⟩ : ∃ t', t = 10 :: t' := by
        rcases t with _ | ⟨x, t'⟩
        · cases hh
        · exact ⟨t', by rw [Option.some.inj hh]⟩
      exact h1 t' (List.cons.inj h).1 rfl
  | case5 cur c t h1 h2 ih =>
    refine ih fun b hb => ?_
    rcases List.mem_append.mp hb with hb | hb
    · exact hc b hb
    · rw [List.mem_singleton.mp hb]
      simpa using h2

theorem splitLinesFrom_append {cur body t : Bytes} (hb : ∀ b ∈ body, isEol b = false) :
    splitLinesFrom cur (body ++ t) = splitLinesFrom (cur ++ body) t := by
  induction body generalizing cur with
  | nil => simp
  | cons c body ih =>
    have hc : isEol c = false := hb c List.mem_cons_self
    have h13 : c ≠ 13 := fun h => by
      rw [h] at hc
      cases hc
    have hstep : splitLinesFrom cur (c :: (body ++ t)) = splitLinesFrom (cur ++ [c]) (body ++ t) := by
      rw [splitLinesFrom.eq_def]
      split
      · rename_i h
        cases h
      · rename_i h
        exact absurd (List.cons.inj h).1 h13
      · rename_i h
        obtain ⟨rfl, rfl⟩ := List.cons.inj h
        rw [if_neg (by simp [hc])]
    rw [List.cons_append, hstep, ih fun b hb' => hb b (List.mem_cons_of_mem _ hb')]
    simp

theorem splitLines_flatten {ls : List Bytes} (h : Lines ls) : splitLinesKeep ls.flatten = ls := by
  unfold splitLinesKeep
  induction h with
  | nil => rfl
  | @last l hne hb =>
    have : splitLinesFrom [] (l ++ []) = splitLinesFrom ([] ++ l) [] := splitLinesFrom_append hb
    rw [List.append_nil, List.nil_append] at this
    rw [List.flatten_singleton, this, splitLinesFrom, if_neg hne]
  | @cons body sep ls hb hs hnext h ih =>
    rw [List.flatten_cons, List.append_assoc, splitLinesFrom_append hb, List.nil_append]
    rcases hs with rfl | rfl | rfl
    · rw [List.singleton_append, splitLinesFrom.eq_def]
      split
      · rename_i h
        cases h
      · rename_i h
        cases (List.cons.inj h).1
      · rename_i h
        obtain ⟨rfl, rfl⟩ := List.cons.inj h
        rw [if_pos (by decide), ih]
    · rw [List.singleton_append, splitLinesFrom.eq_def]
      split
      · rename_i h
        cases h
      · rename_i h
        have hf := (List.cons.inj h).2
        exact absurd (by rw [hf]; rfl) (hnext rfl)
      · rename_i h
        obtain ⟨rfl, rfl⟩ := List.cons.inj h
        rw [if_pos (by decide), ih]
    · rw [List.cons_append, List.singleton_append, splitLinesFrom, ih]

theorem flatten_splitLines (data : Bytes) : (splitLinesKeep data).flatten = data := by
  rw [splitLinesKeep, flatten_splitLinesFrom, List.nil_append]

theorem lines_splitLines (data : Bytes) : Lines (splitLinesKeep data) := lines_splitLinesFrom (by simp)

/-! ### Tokens

What a reader has passed stays so when what follows is replaced by something with the same first byte. -/

theorem head?_append_congr {x t t' : Bytes} (h : t'.head? = t.head?) : (x ++ t').head? = (x ++ t).head? := by
  cases x with
  | nil => exact h
  | cons c x => rfl

theorem dropWhile_append_of_head {p : UInt8 → Bool} {x t : Bytes} (hx : ∀ b ∈ x, p b = true) (ht : ∀ c, t.head? = some c → p c = false) :
    (x ++ t).dropWhile p = t := by
  induction x with
  | nil =>
    rcases t with _ | ⟨c, t⟩
    · rfl
    · exact List.dropWhile_cons_of_neg (by simp [ht c rfl])
  | cons c x ih =>
    rw [List.cons_append, List.dropWhile_cons_of_pos (hx c List.mem_cons_self)]
    exact ih fun b hb => hx b (List.mem_cons_of_mem _ hb)

theorem takeWhile_append_of_head {p : UInt8 → Bool} {x t : Bytes} (hx : ∀ b ∈ x, p b = true) (ht : ∀ c, t.head? = some c → p c = false) :
    (x ++ t).takeWhile p = x := by
  induction x with
  | nil =>
    rcases t with _ | ⟨c, t⟩
    · rfl
    · exact List.takeWhile_cons_of_neg (by simp [ht c rfl])
  | cons c x ih =>
    rw [List.cons_append, List.takeWhile_cons_of_pos (hx c List.mem_cons_self), ih fun b hb => hx b (List.mem_cons_of_mem _ hb)]

theorem head?_dropWhile {p : UInt8 → Bool} {t : Bytes} {c : UInt8} (h : (t.dropWhile p).head? = some c) : p c = false := by
  have := List.head?_dropWhile_not p t
  rw [h] at this
  simpa using this

theorem mem_takeWhile {p : UInt8 → Bool} {t : Bytes} {b : UInt8} (h : b ∈ t.takeWhile p) : p b = true := by
  induction t with
  | nil => cases h
  | cons c t ih =>
    rw [List.takeWhile_cons] at h
    split at h
    · rcases List.mem_cons.mp h with rfl | h
      · assumption
      · exact ih h
    · cases h

/-- A stretch of bytes of one class, and what follows it. -/
theorem dropWhile_spec (p : UInt8 → Bool) (u : Bytes) : ∃ x, u = x ++ u.dropWhile p ∧
    ∀ t', t'.head? = (u.dropWhile p).head? → (x ++ t').dropWhile p = t' := by
  refine ⟨u.takeWhile p, (List.takeWhile_append_dropWhile).symm, fun t' ht => ?_⟩
  exact dropWhile_append_of_head (fun b hb => mem_takeWhile hb) fun c hc => head?_dropWhile (ht ▸ hc)

theorem takeSpace_spec {u t : Bytes} (h : takeSpace u = some t) : ∃ x, u = x ++ t ∧ ∀ t', t'.head? = t.head? → takeSpace (x ++ t') = some t' := by
  unfold takeSpace at h
  split at h
  · cases h
  · rename_i c u
    split at h
    · rename_i hc
      obtain rfl := Option.some.inj h
      obtain ⟨x, hx, hk⟩ := dropWhile_spec isWs u
      refine ⟨c :: x, by rw [List.cons_append, ← hx], fun t' ht => ?_⟩
      rw [List.cons_append, takeSpace, if_pos hc, hk t' ht]
    · cases h

theorem takeWord_spec {w u t : Bytes} (h : takeWord w u = some t) : u = w ++ t ∧ ∀ t', takeWord w (w ++ t') = some t' := by
  have hpos : ∀ t', takeWord w (w ++ t') = some t' := fun t' => by
    rw [takeWord, if_pos (List.isPrefixOf_iff_prefix.mpr (List.prefix_append w t')), List.drop_left]
  refine ⟨?_, hpos⟩
  unfold takeWord at h
  split at h
  · rename_i hw
    obtain ⟨r, rfl⟩ := List.isPrefixOf_iff_prefix.mp hw
    rw [List.drop_left] at h
    rw [Option.some.inj h]
  · cases h

/-- The three forms of a token. -/
inductive Token : Bytes → Bytes → Prop where
  | single {v : Bytes} (h : ∀ b ∈ v, isSingle b = true) : Token (39 :: (v ++ [39])) v
  | double {v : Bytes} (h : ∀ b ∈ v, isDouble b = true) : Token (34 :: (v ++ [34])) v
  | bare {v : Bytes} (hne : v ≠ []) (h : ∀ b ∈ v, isBare b = true) : Token v v

theorem takeQuoted_append {q : UInt8} {inside : UInt8 → Bool} {v rest : Bytes} (hv : ∀ b ∈ v, inside b = true) (hq : inside q = false) :
    takeQuoted q inside (v ++ q :: rest) = some (q :: (v ++ [q]), rest) := by
  have hhead : ∀ c, (q :: rest).head? = some c → inside c = false := fun c hc => by rw [← Option.some.inj hc, hq]
  rw [takeQuoted, dropWhile_append_of_head hv hhead, takeWhile_append_of_head hv hhead]
  exact if_pos rfl

/-- A token is read, whatever follows it; a bare one ends where the next byte is not bare. -/
theorem takeToken_of_token {tok v rest : Bytes} (h : Token tok v) (hr : tok = v → ∀ c, rest.head? = some c → isBare c = false) :
    takeToken (tok ++ rest) = some (tok, rest) := by
  cases h with
  | single hv =>
    rw [List.cons_append, List.append_assoc, List.singleton_append, takeToken, if_pos rfl, takeQuoted_append hv (by decide)]
  | double hv =>
    rw [List.cons_append, List.append_assoc, List.singleton_append, takeToken, if_neg (by decide), if_pos rfl, takeQuoted_append hv (by decide)]
  | bare hne hv =>
    obtain ⟨c, v', rfl⟩ := List.exists_cons_of_ne_nil hne
    have hc : isBare c = true := hv c List.mem_cons_self
    have h39 : c ≠ 39 := fun h => by
      rw [h] at hc
      cases hc
    have h34 : c ≠ 34 := fun h => by
      rw [h] at hc
      cases hc
    have hd := dropWhile_append_of_head hv (hr rfl)
    have ht := takeWhile_append_of_head hv (hr rfl)
    rw [List.cons_append] at hd ht ⊢
    rw [takeToken, if_neg h39, if_neg h34, if_pos hc, hd, ht]

theorem takeQuoted_spec {q : UInt8} {inside : UInt8 → Bool} {u tok rest : Bytes} (h : takeQuoted q inside u = some (tok, rest)) :
    ∃ v, (∀ b ∈ v, inside b = true) ∧ tok = q :: (v ++ [q]) ∧ q :: u = tok ++ rest := by
  unfold takeQuoted at h
  split at h
  · rename_i c rest' hd
    split at h
    · rename_i hc
      obtain ⟨rfl, rfl⟩ := Prod.mk.inj (Option.some.inj h)
      refine ⟨u.takeWhile inside, fun b hb => mem_takeWhile hb, rfl, ?_⟩
      have hu := List.takeWhile_append_dropWhile (p := inside) (l := u)
      rw [hd, hc] at hu
      rw [List.cons_append, List.append_assoc, List.singleton_append, hu]
    · cases h
  · cases h

theorem unquote_token {tok v : Bytes} (h : Token tok v) : unquote tok = v := by
  cases h with
  | single hv => simp [unquote]
  | double hv => simp [unquote]
  | bare hne hv =>
    obtain ⟨c, v', rfl⟩ := List.exists_cons_of_ne_nil hne
    have hc : isBare c = true := hv c List.mem_cons_self
    unfold unquote
    dsimp only
    rw [if_neg]
    rintro (rfl | rfl) <;> cases hc

theorem takeToken_spec {u tok rest : Bytes} (h : takeToken u = some (tok, rest)) : u = tok ++ rest ∧ Token tok (unquote tok) ∧
    (tok = unquote tok → ∀ c, rest.head? = some c → isBare c = false) := by
  unfold takeToken at h
  split at h
  · cases h
  · rename_i c t
    split at h
    · rename_i hc
      obtain ⟨v, hv, rfl, hu⟩ := takeQuoted_spec h
      have ht : Token (39 :: (v ++ [39])) v := .single hv
      rw [unquote_token ht, hc]
      refine ⟨hu, ht, fun he => ?_⟩
      have := congrArg List.length he
      simp at this
      omega
    · split at h
      · rename_i hc
        obtain ⟨v, hv, rfl, hu⟩ := takeQuoted_spec h
        have ht : Token (34 :: (v ++ [34])) v := .double hv
        rw [unquote_token ht, hc]
        refine ⟨hu, ht, fun he => ?_⟩
        have := congrArg List.length he
        simp at this
        omega
      · split at h
        · rename_i hc
          obtain ⟨rfl, rfl⟩ := Prod.mk.inj (Option.some.inj h)
          have hne : (c :: t).takeWhile isBare ≠ [] := by rw [List.takeWhile_cons_of_pos hc]; exact List.cons_ne_nil _ _
          have ht : Token ((c :: t).takeWhile isBare) ((c :: t).takeWhile isBare) := .bare hne fun b hb => mem_takeWhile hb
          rw [unquote_token ht]
          exact ⟨(List.takeWhile_append_dropWhile).symm, ht, fun _ c' hc' => head?_dropWhile hc'⟩
        · cases h

/-- A token stays a token when what follows starts with the same byte. -/
theorem takeToken_congr {u tok rest : Bytes} (h : takeToken u = some (tok, rest)) {rest' : Bytes} (hr : rest'.head? = rest.head?) :
    takeToken (tok ++ rest') = some (tok, rest') := by
  obtain ⟨-, ht, hb⟩ := takeToken_spec h
  exact takeToken_of_token ht fun he c hc => hb he c (hr ▸ hc)

/-! ### Option lines -/

theorem takeKeyword_spec {u t : Bytes} {k : Bool} (h : takeKeyword u = some (k, t)) : ∃ w, u = w ++ t ∧ w ≠ [] ∧
    (∀ t', takeKeyword (w ++ t') = some (k, t')) ∧ (w = bytes "option" ∨ w = bytes "list") := by
  unfold takeKeyword at h
  split at h
  · rename_i t₁ hw
    obtain ⟨rfl, rfl⟩ := Prod.mk.inj (Option.some.inj h)
    obtain ⟨hu, hk⟩ := takeWord_spec hw
    refine ⟨_, hu, by decide, fun t' => ?_, .inl rfl⟩
    rw [takeKeyword, hk]
  · obtain ⟨t₁, hw, he⟩ := Option.map_eq_some_iff.mp h
    obtain ⟨rfl, rfl⟩ := Prod.mk.inj he
    obtain ⟨hu, hk⟩ := takeWord_spec hw
    refine ⟨_, hu, by decide, fun t' => ?_, .inr rfl⟩
    have hno : takeWord (bytes "option") (bytes "list" ++ t') = none := rfl
    rw [takeKeyword, hno, hk]
    rfl

/-- An option line, cut before its value: any value with the same first byte may stand there. -/
theorem matchOption_spec {line : Bytes} {o : OptionLine} (h : matchOption line = some o) : ∃ x rest, line = x ++ (o.value ++ rest) ∧
    o.start = x.length ∧ x ≠ [] ∧ takeToken (o.value ++ rest) = some (o.value, rest) ∧
    ∀ value', takeToken (value' ++ rest) = some (value', rest) → (value' ++ rest).head? = (o.value ++ rest).head? →
      matchOption (x ++ (value' ++ rest)) = some { o with value := value' } := by
  unfold matchOption at h
  simp only [Option.bind_eq_bind, Option.bind_eq_some_iff, Prod.exists] at h
  obtain ⟨k, t₁, h1, t₃, h3, name, t₂, h2, t₄, h4, value, rest, h5, h6⟩ := h
  split at h6
  · rename_i hend
    obtain rfl := Option.some.inj h6
    obtain ⟨w₀, hw₀, hk₀⟩ := dropWhile_spec isWs line
    obtain ⟨w₁, hw₁, hne₁, hk₁, -⟩ := takeKeyword_spec h1
    obtain ⟨w₂, hw₂, hk₂⟩ := takeSpace_spec h3
    obtain ⟨hw₃, -⟩ := takeToken_spec h2
    obtain ⟨w₄, hw₄, hk₄⟩ := takeSpace_spec h4
    obtain ⟨hw₅, -⟩ := takeToken_spec h5
    have hline : line = (w₀ ++ (w₁ ++ (w₂ ++ (name ++ w₄)))) ++ t₄ := by
      rw [hw₀, hw₁, hw₂, hw₃, hw₄]
      simp
    refine ⟨w₀ ++ (w₁ ++ (w₂ ++ (name ++ w₄))), rest, by rw [← hw₅]; exact hline, ?_, by simp [hne₁], by rw [← hw₅]; exact h5, ?_⟩
    · rw [hline, List.length_append]
      dsimp only
      omega
    · intro value' htok hhead
      dsimp only at hhead
      rw [← hw₅] at hhead
      -- each reader sees the same first byte as before
      have e4 : takeSpace (w₄ ++ (value' ++ rest)) = some (value' ++ rest) := hk₄ _ hhead
      have c3 : (w₄ ++ (value' ++ rest)).head? = t₂.head? := by rw [hw₄]; exact head?_append_congr hhead
      have e3 : takeToken (name ++ (w₄ ++ (value' ++ rest))) = some (name, w₄ ++ (value' ++ rest)) := takeToken_congr h2 c3
      have c2 : (name ++ (w₄ ++ (value' ++ rest))).head? = t₃.head? := by rw [hw₃]; exact head?_append_congr c3
      have e2 : takeSpace (w₂ ++ (name ++ (w₄ ++ (value' ++ rest)))) = some (name ++ (w₄ ++ (value' ++ rest))) := hk₂ _ c2
      have c1 : (w₁ ++ (w₂ ++ (name ++ (w₄ ++ (value' ++ rest))))).head? = (line.dropWhile isWs).head? := by
        rw [hw₁, hw₂]
        exact head?_append_congr (head?_append_congr c2)
      have e0 := hk₀ _ c1
      have hassoc : (w₀ ++ (w₁ ++ (w₂ ++ (name ++ w₄)))) ++ (value' ++ rest) = w₀ ++ (w₁ ++ (w₂ ++ (name ++ (w₄ ++ (value' ++ rest))))) := by simp
      rw [matchOption, hassoc, e0]
      simp only [Option.bind_eq_bind, hk₁, Option.bind_some, e2, e3, e4, htok, hend, if_true, Option.some.injEq, OptionLine.mk.injEq, true_and]
      rw [hline]
      simp only [List.length_append]
      omega
  · cases h6

/-- An option line is neither idle nor a header. -/
theorem matchOption_excludes {line : Bytes} {o : OptionLine} (h : matchOption line = some o) : isIdle line = false ∧ matchHeader line = none := by
  unfold matchOption at h
  simp only [Option.bind_eq_bind, Option.bind_eq_some_iff, Prod.exists] at h
  obtain ⟨k, t₁, h1, -⟩ := h
  obtain ⟨w, hw, -, -, hword⟩ := takeKeyword_spec h1
  constructor
  · rw [isIdle, hw]
    rcases hword with rfl | rfl <;> rfl
  · have hno : takeWord (bytes "config") (line.dropWhile isWs) = none := by
      rw [hw]
      rcases hword with rfl | rfl <;> rfl
    rw [matchHeader, hno]
    rfl

/-! ### Scan -/

def wifiDevice : Bytes := bytes "wifi-device"

/-- The kind of section after a line. -/
def kindAfter (kind : Option Bytes) (line : Bytes) : Option Bytes :=
  if isIdle line then kind else ((matchHeader line).map fun h => unquote h.1).or kind

/-- The path that a line gives to a radio. -/
def pathOf (kind : Option Bytes) (line : Bytes) : List Bytes :=
  match matchOption line with
  | some o => if kind = some wifiDevice ∧ unquote o.name = bytes "path" then [unquote o.value] else []
  | none => []

/-- The paths of the radios, over lines in a section of kind `kind`. -/
def wifiPaths : Option Bytes → List Bytes → List Bytes
  | _, [] => []
  | kind, line :: lines => pathOf kind line ++ wifiPaths (kindAfter kind line) lines

/-- The `path` options of the `wifi-device` sections of a configuration. -/
def wifiDevicePaths (data : Bytes) : List Bytes := wifiPaths none (splitLinesKeep data)

def isRadioPath (value : Bytes) : Bool := value = oldWifiPath || value = newWifiPath

/-- A line that adds no radio path does the same at any offset. -/
def Scan.at (s : Scan) (offset : Nat) (found : List Found) : Scan := { s with offset := offset, found := found }

section
variable {s s' : Scan} {line : Bytes}

/-- The radio path that an option line adds. -/
def foundOf (s : Scan) (o : OptionLine) : Found :=
  let start := s.offset + o.start + (isQuoted o.value).toNat
  ⟨unquote o.value, start, start + (unquote o.value).length⟩

theorem scanHeader_at {kind : Bytes} {name : Option Bytes} (h : scanHeader s kind name = .ok s') :
    s'.found = s.found ∧ s'.offset = s.offset ∧ s'.kind = some (unquote kind) ∧
    ∀ o f, scanHeader (s.at o f) kind name = .ok (s'.at o f) := by
  unfold scanHeader at h ⊢
  dsimp only at h ⊢
  split at h
  · cases h
    exact ⟨rfl, rfl, rfl, fun _ _ => rfl⟩
  · rename_i name
    split at h
    · cases h
    · rename_i hn
      cases h
      refine ⟨rfl, rfl, rfl, fun o f => ?_⟩
      exact if_neg hn

/-- What an option does: nothing to the paths found, or it adds one. -/
theorem scanOption_cases {kind : Bytes} {o : OptionLine} (h : scanOption s kind o = .ok s') :
    s'.kind = s.kind ∧ s'.offset = s.offset ∧
    ((s'.found = s.found ∧ (∀ v ∈ (if kind = wifiDevice ∧ unquote o.name = bytes "path" then [unquote o.value] else []), isRadioPath v = false) ∧
        ∀ off f, scanOption (s.at off f) kind o = .ok (s'.at off f)) ∨
      (kind = wifiDevice ∧ unquote o.name = bytes "path" ∧ s.pathSeen = false ∧ o.isOption = true ∧ isRadioPath (unquote o.value) = true ∧
        s' = { s with pathSeen := true, found := s.found ++ [foundOf s o] })) := by
  unfold scanOption at h ⊢
  split at h
  · rename_i hp
    split at h
    · cases h
    · rename_i hs
      dsimp only at h
      split at h
      · rename_i hv
        cases h
        have hseen : s.pathSeen = false := by simpa using fun he => hs (.inl he)
        have hopt : o.isOption = true := Decidable.not_not.mp fun he => hs (.inr he)
        exact ⟨rfl, rfl, .inr ⟨hp.1, hp.2, hseen, hopt, by simpa [isRadioPath] using hv, rfl⟩⟩
      · rename_i hv
        cases h
        refine ⟨rfl, rfl, .inl ⟨rfl, fun v hm => ?_, fun off f => ?_⟩⟩
        · have hp' : kind = wifiDevice ∧ unquote o.name = bytes "path" := hp
          rw [if_pos hp'] at hm
          rw [List.mem_singleton.mp hm]
          simpa [isRadioPath] using hv
        · have hs' : ¬((s.at off f).pathSeen = true ∨ ¬o.isOption = true) := hs
          rw [if_pos hp, if_neg hs']
          dsimp only
          rw [if_neg hv]
          rfl
  · rename_i hp
    cases h
    refine ⟨rfl, rfl, .inl ⟨rfl, fun v hm => ?_, fun off f => if_neg hp⟩⟩
    rw [show (if kind = wifiDevice ∧ unquote o.name = bytes "path" then [unquote o.value] else []) = [] from if_neg hp] at hm
    cases hm

/-- A line adds no radio path, and does the same at any offset. -/
structure Still (s s' : Scan) (line : Bytes) : Prop where
  found : s'.found = s.found
  paths : ∀ v ∈ pathOf s.kind line, isRadioPath v = false
  shift : ∀ o f, scanLine (s.at o f) line = .ok (s'.at (o + line.length) f)

theorem scanLine_cases (h : scanLine s line = .ok s') : s'.kind = kindAfter s.kind line ∧ s'.offset = s.offset + line.length ∧
    (Still s s' line ∨ ∃ o, matchOption line = some o ∧ s.kind = some wifiDevice ∧ unquote o.name = bytes "path" ∧ s.pathSeen = false ∧
      o.isOption = true ∧ isRadioPath (unquote o.value) = true ∧
      s' = { s with pathSeen := true, offset := s.offset + line.length, found := s.found ++ [foundOf s o] }) := by
  unfold scanLine at h
  split at h
  · rename_i hi
    have hno : matchOption line = none := by
      rcases ho : matchOption line with _ | o
      · rfl
      · rw [(matchOption_excludes ho).1] at hi
        cases hi
    cases h
    refine ⟨by rw [kindAfter, if_pos hi]; rfl, rfl, .inl ⟨rfl, by simp [pathOf, hno], fun o f => ?_⟩⟩
    rw [scanLine, if_pos hi]
    rfl
  · rename_i hi
    split at h
    · rename_i kind name hh
      have hno : matchOption line = none := by
        rcases ho : matchOption line with _ | o
        · rfl
        · rw [(matchOption_excludes ho).2] at hh
          cases hh
      rcases hs : scanHeader s kind name with e | s₁
      · rw [hs] at h
        cases h
      · rw [hs] at h
        cases h
        obtain ⟨hf, ho, hk, hshift⟩ := scanHeader_at hs
        refine ⟨?_, congrArg (· + line.length) ho, .inl ⟨hf, by simp [pathOf, hno], fun o f => ?_⟩⟩
        · rw [kindAfter, if_neg hi, hh]
          exact hk
        · rw [scanLine, if_neg hi, hh]
          dsimp only
          rw [hshift]
          rfl
    · rename_i hh
      split at h
      · rename_i o kind ho hk
        have hkind : kindAfter s.kind line = s.kind := by
          rw [kindAfter, if_neg hi, hh]
          rfl
        rcases hs : scanOption s kind o with e | s₁
        · rw [hs] at h
          cases h
        · rw [hs] at h
          cases h
          obtain ⟨hk', ho', hcase⟩ := scanOption_cases hs
          refine ⟨by rw [hkind]; exact hk', congrArg (· + line.length) ho', ?_⟩
          rcases hcase with ⟨hf, hp, hshift⟩ | ⟨hw, hp, hseen, hopt, hv, rfl⟩
          · refine .inl ⟨hf, fun v hm => hp v ?_, fun off f => ?_⟩
            · rw [pathOf, ho, hk] at hm
              simpa using hm
            · have hk₁ : (s.at off f).kind = some kind := hk
              rw [scanLine, if_neg hi, hh]
              dsimp only
              rw [ho, hk₁]
              dsimp only
              rw [hshift]
              rfl
          · exact .inr ⟨o, ho, by rw [hk, hw], hp, hseen, hopt, hv, rfl⟩
      · cases h

end

/-- A line that gives a radio one of the two paths. -/
theorem scanLine_radio {s : Scan} {line : Bytes} {o : OptionLine} (hm : matchOption line = some o) (hk : s.kind = some wifiDevice)
    (hp : unquote o.name = bytes "path") (hseen : s.pathSeen = false) (hopt : o.isOption = true) (hv : isRadioPath (unquote o.value) = true) :
    scanLine s line = .ok { s with pathSeen := true, offset := s.offset + line.length, found := s.found ++ [foundOf s o] } := by
  obtain ⟨hi, hh⟩ := matchOption_excludes hm
  have hv' : unquote o.value = oldWifiPath ∨ unquote o.value = newWifiPath := by simpa [isRadioPath] using hv
  rw [scanLine, hi, if_neg (by decide), hh]
  dsimp only
  rw [hm, hk]
  dsimp only
  rw [scanOption, if_pos ⟨rfl, hp⟩, if_neg (by simp [hseen, hopt])]
  dsimp only
  rw [if_pos hv', ← hk]
  rfl

/-! ### Whole configurations -/

section
variable {s s' : Scan} {lines : List Bytes}

theorem scan_cons {line : Bytes} : (line :: lines).foldlM scanLine s = .ok s' ↔ ∃ s₁, scanLine s line = .ok s₁ ∧ lines.foldlM scanLine s₁ = .ok s' := by
  rw [List.foldlM_cons]
  exact bind_eq_ok

/-- The radio paths found are those of the lines. -/
theorem scan_found (h : lines.foldlM scanLine s = .ok s') : s'.offset = s.offset + lines.flatten.length ∧
    ∃ more, s'.found = s.found ++ more ∧ more.map Found.value = (wifiPaths s.kind lines).filter isRadioPath := by
  induction lines generalizing s with
  | nil =>
    cases h
    exact ⟨rfl, [], by simp, by simp [wifiPaths]⟩
  | cons line lines ih =>
    obtain ⟨s₁, h1, h2⟩ := scan_cons.mp h
    obtain ⟨hk, ho, hcase⟩ := scanLine_cases h1
    obtain ⟨ho', more, hf, hm⟩ := ih h2
    refine ⟨by rw [ho', ho, List.flatten_cons, List.length_append, Nat.add_assoc], ?_⟩
    rw [hk] at hm
    rcases hcase with hstill | ⟨o, ho₁, hkind, hp, -, -, hv, rfl⟩
    · refine ⟨more, by rw [hf, hstill.found], ?_⟩
      rw [wifiPaths, List.filter_append, List.filter_eq_nil_iff.mpr fun v hv => by simp [hstill.paths v hv], List.nil_append, hm]
    · have hpath : pathOf s.kind line = [unquote o.value] := by
        rw [pathOf, ho₁]
        exact if_pos ⟨hkind, hp⟩
      refine ⟨foundOf s o :: more, by rw [hf]; simp, ?_⟩
      rw [wifiPaths, List.filter_append, hpath, List.filter_cons_of_pos hv, List.filter_nil, List.map_cons, hm]
      rfl

/-- Lines that add no radio path do the same at any offset. -/
theorem scan_shift (h : lines.foldlM scanLine s = .ok s') (hf : s'.found.length = s.found.length) (o : Nat) (f : List Found) :
    lines.foldlM scanLine (s.at o f) = .ok (s'.at (o + lines.flatten.length) f) := by
  induction lines generalizing s o with
  | nil =>
    cases h
    rfl
  | cons line lines ih =>
    obtain ⟨s₁, h1, h2⟩ := scan_cons.mp h
    have hle : s₁.found.length ≤ s'.found.length := by
      obtain ⟨-, more, hm, -⟩ := scan_found h2
      rw [hm, List.length_append]
      omega
    obtain ⟨-, -, hstill | ⟨p, -, -, -, -, -, -, rfl⟩⟩ := scanLine_cases h1
    · refine scan_cons.mpr ⟨_, hstill.shift o f, ?_⟩
      rw [ih h2 (by rw [hf, hstill.found]), List.flatten_cons, List.length_append, Nat.add_assoc]
    · simp only [List.length_append, List.length_singleton] at hle
      omega

/-- The line that adds the one radio path. -/
theorem scan_single (h : lines.foldlM scanLine s = .ok s') (h0 : s.found = []) {x : Found} (hx : s'.found = [x]) :
    ∃ pre line post s₁ s₂ o, lines = pre ++ line :: post ∧ pre.foldlM scanLine s = .ok s₁ ∧ s₁.found = [] ∧ s₁.offset = s.offset + pre.flatten.length ∧
      matchOption line = some o ∧ s₁.kind = some wifiDevice ∧ unquote o.name = bytes "path" ∧ s₁.pathSeen = false ∧ o.isOption = true ∧
      isRadioPath (unquote o.value) = true ∧ x = foundOf s₁ o ∧
      s₂ = { s₁ with pathSeen := true, offset := s₁.offset + line.length, found := [x] } ∧ post.foldlM scanLine s₂ = .ok s' := by
  induction lines generalizing s with
  | nil =>
    cases h
    rw [h0] at hx
    cases hx
  | cons line lines ih =>
    obtain ⟨s₁, h1, h2⟩ := scan_cons.mp h
    obtain ⟨-, ho, hstill | ⟨o, hm, hk, hp, hseen, hopt, hv, rfl⟩⟩ := scanLine_cases h1
    · obtain ⟨pre, l, post, s₂, s₃, o, rfl, hpre, hf, hoff, rest⟩ := ih h2 (by rw [hstill.found, h0])
      refine ⟨line :: pre, l, post, s₂, s₃, o, rfl, scan_cons.mpr ⟨_, h1, hpre⟩, hf, ?_, rest⟩
      rw [hoff, ho, List.flatten_cons, List.length_append, Nat.add_assoc]
    · obtain ⟨-, more, hf, -⟩ := scan_found h2
      rw [hx, h0, List.nil_append, List.singleton_append] at hf
      have hxo : x = foundOf s o := (List.cons.inj hf).1
      refine ⟨[], line, lines, s, _, o, rfl, rfl, h0, by simp, hm, hk, hp, hseen, hopt, hv, hxo, rfl, ?_⟩
      rw [hxo]
      rw [h0, List.nil_append] at h2
      exact h2

end

/-! ### The new path -/

/-- The bytes of a literal, as a list that can be computed with. -/
theorem bytes_ofList (l : List Char) : bytes (String.ofList l) = l.map fun c => UInt8.ofNat c.toNat := by
  rw [bytes, String.toList_ofList]

theorem token_newWifiPath {tok : Bytes} (h : Token tok oldWifiPath) : ∃ tok', Token tok' newWifiPath ∧ tok'.head? = tok.head? ∧
    (tok' = newWifiPath → tok = oldWifiPath) ∧
    tok.take (isQuoted tok).toNat ++ newWifiPath ++ tok.drop ((isQuoted tok).toNat + oldWifiPath.length) = tok' := by
  have hinside : ∀ b ∈ newWifiPath, isBare b = true ∧ isSingle b = true ∧ isDouble b = true := by
    rw [newWifiPath, bytes_ofList]
    simp [isBare, isSingle, isDouble, isEol, show bytes "_./:@+-" = _ from bytes_ofList _]
  have hnew : newWifiPath.head? = some 112 := by
    rw [newWifiPath, bytes_ofList]
    rfl
  have hold : oldWifiPath.head? = some 112 := by
    rw [oldWifiPath, bytes_ofList]
    rfl
  have hquoted : ∀ q, isQuoted (q :: (oldWifiPath ++ [q])) = true →
      (q :: (oldWifiPath ++ [q])).take (isQuoted (q :: (oldWifiPath ++ [q]))).toNat ++ newWifiPath ++
        (q :: (oldWifiPath ++ [q])).drop ((isQuoted (q :: (oldWifiPath ++ [q]))).toNat + oldWifiPath.length) = q :: (newWifiPath ++ [q]) := by
    intro q hq
    rw [hq, Bool.toNat_true, Nat.add_comm, List.drop_succ_cons, List.drop_left]
    rfl
  have hne : ∀ q, q ≠ 112 → q :: (newWifiPath ++ [q]) ≠ newWifiPath := by
    intro q hq heq
    rw [← heq] at hnew
    exact hq (Option.some.inj hnew)
  cases h with
  | single hv =>
    exact ⟨39 :: (newWifiPath ++ [39]), .single fun b hb => (hinside b hb).2.1, by rw [List.head?_cons, List.head?_cons],
      fun h => absurd h (hne 39 (by decide)), hquoted 39 rfl⟩
  | double hv =>
    exact ⟨34 :: (newWifiPath ++ [34]), .double fun b hb => (hinside b hb).2.2, by rw [List.head?_cons, List.head?_cons],
      fun h => absurd h (hne 34 (by decide)), hquoted 34 rfl⟩
  | bare hne hv =>
    have hbare : isQuoted oldWifiPath = false := by
      rw [isQuoted, hold]
      rfl
    refine ⟨newWifiPath, .bare (List.ne_nil_of_mem (List.mem_of_head? hnew)) fun b hb => (hinside b hb).1, hnew.trans hold.symm, fun _ => rfl, ?_⟩
    rw [hbare, Bool.toNat_false, Nat.zero_add, List.take_zero, List.nil_append, List.drop_length, List.append_nil]

theorem length_le_of_token {tok v : Bytes} (h : Token tok v) : (isQuoted tok).toNat + v.length ≤ tok.length := by
  cases h with
  | single hv => simp [isQuoted]; omega
  | double hv => simp [isQuoted]; omega
  | bare hne hv =>
    obtain ⟨c, v', rfl⟩ := List.exists_cons_of_ne_nil hne
    have hc : isBare c = true := hv c List.mem_cons_self
    have hq : isQuoted (c :: v') = false := by
      simp only [isQuoted, List.head?_cons, Bool.or_eq_false_iff, beq_eq_false_iff_ne, ne_eq, Option.some.injEq]
      constructor <;> rintro rfl <;> cases hc
    rw [hq]
    simp

theorem not_eol_of_token {tok v : Bytes} (h : Token tok v) : ∀ b ∈ tok, isEol b = false := by
  intro b hb
  have hinside : ∀ {p : UInt8 → Bool}, (∀ b, isEol b = true → p b = false) → p b = true → isEol b = false := by
    intro p hp hpb
    cases he : isEol b
    · rfl
    · rw [hp b he] at hpb
      cases hpb
  have heol : ∀ b, isEol b = true → b = 10 ∨ b = 13 := fun b h => by simpa [isEol] using h
  cases h with
  | single hv =>
    simp only [List.mem_cons, List.mem_append, List.not_mem_nil, or_false] at hb
    rcases hb with rfl | hb | rfl
    · rfl
    · exact hinside (fun b h => by rcases heol b h with rfl | rfl <;> rfl) (hv b hb)
    · rfl
  | double hv =>
    simp only [List.mem_cons, List.mem_append, List.not_mem_nil, or_false] at hb
    rcases hb with rfl | hb | rfl
    · rfl
    · exact hinside (fun b h => by rcases heol b h with rfl | rfl <;> rfl) (hv b hb)
    · rfl
  | bare hne hv => exact hinside (fun b h => by rcases heol b h with rfl | rfl <;> rfl) (hv b hb)

/-- A newline at the end of a line stands behind a stretch without newlines. -/
theorem body_of_append {x v y body sep : Bytes} (hv : v ≠ []) (hve : ∀ b ∈ v, isEol b = false) (hs : ∀ b ∈ sep, isEol b = true)
    (h : x ++ (v ++ y) = body ++ sep) : ∃ y', y = y' ++ sep ∧ body = x ++ (v ++ y') := by
  rw [← List.append_assoc] at h
  rcases List.append_eq_append_iff.mp h with ⟨a, ha, hb⟩ | ⟨a, ha, hb⟩
  · exact ⟨a, hb, by rw [ha, List.append_assoc]⟩
  · -- the last byte of the stretch would be a newline
    rcases List.eq_nil_or_concat' a with rfl | ⟨a', c, rfl⟩
    · exact ⟨[], by simpa using hb.symm, by simpa using ha.symm⟩
    · obtain ⟨v', c', rfl⟩ := (List.eq_nil_or_concat' v).resolve_left hv
      have hc : c' = c := by
        have := congrArg List.getLast? ha
        simpa [← List.append_assoc] using this
      have h1 := hve c' (by simp)
      rw [hc, hs c (by rw [hb]; simp)] at h1
      cases h1

/-- Lines stay lines when a stretch without newlines is replaced by another, behind the first byte of a
    line. -/
theorem Lines.replace {pre post : List Bytes} {x v v' y : Bytes} (hx : x ≠ []) (hv : v ≠ []) (hve : ∀ b ∈ v, isEol b = false)
    (hve' : ∀ b ∈ v', isEol b = false) (h : Lines (pre ++ (x ++ (v ++ y)) :: post)) : Lines (pre ++ (x ++ (v' ++ y)) :: post) := by
  have hnew : ∀ {z : Bytes}, (∀ b ∈ x ++ (v ++ z), isEol b = false) → ∀ b ∈ x ++ (v' ++ z), isEol b = false := by
    intro z hz b hb
    simp only [List.mem_append] at hz hb
    rcases hb with hb | hb | hb
    · exact hz b (.inl hb)
    · exact hve' b hb
    · exact hz b (.inr (.inr hb))
  induction pre with
  | nil =>
    rw [List.nil_append] at h ⊢
    generalize hl : x ++ (v ++ y) = l at h
    cases h with
    | last hne hb => exact .last (by simp [hx]) (hnew (hl ▸ hb))
    | @cons body sep ls hb hs hnext h =>
      have hsep : ∀ b ∈ sep, isEol b = true := by
        apply List.all_eq_true.mp
        rcases hs with rfl | rfl | rfl <;> decide
      obtain ⟨y', rfl, rfl⟩ := body_of_append hv hve hsep hl
      have : x ++ (v' ++ (y' ++ sep)) = (x ++ (v' ++ y')) ++ sep := by simp
      rw [this]
      exact .cons (hnew hb) hs hnext h
  | cons l pre ih =>
    rw [List.cons_append] at h ⊢
    generalize hls : pre ++ (x ++ (v ++ y)) :: post = ls at h
    cases h with
    | last hne hb => simp at hls
    | @cons body sep ls hb hs hnext h =>
      have hhead : (pre ++ (x ++ (v' ++ y)) :: post).flatten.head? = (pre ++ (x ++ (v ++ y)) :: post).flatten.head? := by
        obtain ⟨c, x', rfl⟩ := List.exists_cons_of_ne_nil hx
        simp [List.head?_append]
      refine .cons hb hs (fun h13 => ?_) (ih (by rw [hls]; exact h))
      rw [hhead, hls]
      exact hnext h13

theorem token_split {tok v : Bytes} (h : Token tok v) :
    tok.take (isQuoted tok).toNat ++ v ++ tok.drop ((isQuoted tok).toNat + v.length) = tok := by
  cases h with
  | single hv =>
    have hq : isQuoted (39 :: (v ++ [39])) = true := by simp [isQuoted]
    simp [hq, Nat.add_comm]
  | double hv =>
    have hq : isQuoted (34 :: (v ++ [34])) = true := by simp [isQuoted]
    simp [hq, Nat.add_comm]
  | bare hne hv =>
    have hlen := length_le_of_token (.bare hne hv)
    have hq : (isQuoted tok).toNat = 0 := by omega
    simp [hq]

/-! ### The edit -/

/-- The line of an option that gives a radio a path. -/
def RadioLine (line path : Bytes) : Prop :=
  ∃ o, matchOption line = some o ∧ o.isOption = true ∧ unquote o.name = bytes "path" ∧ unquote o.value = path

/-- What a migration changes: the path of a radio, in one line. -/
structure Edit (data data' : Bytes) where
  pre : List Bytes
  lead : Bytes
  trail : Bytes
  post : List Bytes
  before : Scan
  lines : splitLinesKeep data = pre ++ (lead ++ oldWifiPath ++ trail) :: post
  lines' : splitLinesKeep data' = pre ++ (lead ++ newWifiPath ++ trail) :: post
  radio : RadioLine (lead ++ oldWifiPath ++ trail) oldWifiPath
  radio' : RadioLine (lead ++ newWifiPath ++ trail) newWifiPath
  scanned : pre.foldlM scanLine {} = .ok before
  kind : before.kind = some wifiDevice
  pathSeen : before.pathSeen = false
  found : before.found = []
  /-- The lines behind add no radio path, wherever they stand. -/
  rest : ∀ (offset : Nat) (x : Found), ∃ s, post.foldlM scanLine { before with pathSeen := true, offset := offset, found := [x] } = .ok s ∧ s.found = [x]

/-- The scan of a configuration that holds the old path nowhere. -/
def Settled (data : Bytes) : Prop :=
  ∃ s, (splitLinesKeep data).foldlM scanLine {} = .ok s ∧ s.found.length ≤ 1 ∧ ∀ f ∈ s.found, f.value ≠ oldWifiPath

theorem migrateWireless_of_settled {data : Bytes} (h : Settled data) : migrateWireless data = .ok data := by
  obtain ⟨s, hs, hl, hf⟩ := h
  rw [migrateWireless, hs, ok_bind]
  rcases hff : s.found with _ | ⟨f, _ | ⟨g, fs⟩⟩
  · rfl
  · exact if_neg (hf f (by rw [hff]; simp))
  · rw [hff] at hl
    simp at hl

theorem not_mem_of_settled {data : Bytes} (h : Settled data) : oldWifiPath ∉ wifiDevicePaths data := by
  obtain ⟨s, hs, -, hf⟩ := h
  intro hm
  obtain ⟨-, more, hmore, hval⟩ := scan_found hs
  have hmem : oldWifiPath ∈ (wifiPaths none (splitLinesKeep data)).filter isRadioPath := List.mem_filter.mpr ⟨hm, by decide⟩
  rw [show none = ({} : Scan).kind from rfl, ← hval] at hmem
  obtain ⟨f, hfm, hfv⟩ := List.mem_map.mp hmem
  exact hf f (by rw [hmore]; simpa using hfm) hfv

section
variable {data data' : Bytes}

/-- The scan of what an edit leaves. -/
theorem Edit.settled (e : Edit data data') : Settled data' := by
  obtain ⟨o, hm, hopt, hname, hvalue⟩ := e.radio'
  have hradio : isRadioPath (unquote o.value) = true := by
    rw [hvalue]
    decide
  have hline := scanLine_radio hm e.kind hname e.pathSeen hopt hradio
  rw [e.found, List.nil_append] at hline
  obtain ⟨s, hrest, hfound⟩ := e.rest (e.before.offset + (e.lead ++ newWifiPath ++ e.trail).length) (foundOf e.before o)
  refine ⟨s, ?_, by rw [hfound]; exact Nat.le_refl 1, ?_⟩
  · rw [e.lines', List.foldlM_append, e.scanned, ok_bind, List.foldlM_cons, hline, ok_bind, hrest]
  · intro f hf
    rw [hfound, List.mem_singleton] at hf
    rw [hf, foundOf]
    dsimp only
    rw [hvalue]
    decide

/-- Migrating changes nothing, or makes one edit. -/
theorem migrateWireless_cases (h : migrateWireless data = .ok data') : (data' = data ∧ Settled data) ∨ Nonempty (Edit data data') := by
  obtain ⟨s, hs, hres⟩ := bind_eq_ok.mp h
  rcases hff : s.found with _ | ⟨f, _ | ⟨g, fs⟩⟩ <;> rw [hff] at hres
  · cases hres
    exact .inl ⟨rfl, s, hs, by simp [hff], by simp [hff]⟩
  · dsimp only at hres
    split at hres
    · rename_i hold
      cases hres
      obtain ⟨pre, line, post, s₁, s₂, o, hlines, hpre, hf₁, hoff, hm, hk, hp, hseen, hopt, -, hfo, hs₂, hpost⟩ := scan_single hs rfl hff
      obtain ⟨x, rest, hline, hstart, hx, htok, hrep⟩ := matchOption_spec hm
      have hval : unquote o.value = oldWifiPath := by rw [← hold, hfo]; rfl
      obtain ⟨-, htoken, hbare⟩ := takeToken_spec htok
      rw [hval] at htoken hbare
      obtain ⟨tok', htoken', hhead', hb', hcut⟩ := token_newWifiPath htoken
      have hne : o.value ≠ [] := by
        intro h0
        rw [h0] at htoken
        cases htoken
      -- the line with the new path
      have hnewline : matchOption (x ++ (tok' ++ rest)) = some { o with value := tok' } := by
        refine hrep tok' (takeToken_of_token htoken' fun he => hbare (hb' he)) ?_
        obtain ⟨c, w, hw⟩ := List.exists_cons_of_ne_nil hne
        rw [hw] at hhead' ⊢
        rcases tok' with _ | ⟨c', w'⟩
        · cases hhead'
        · rw [List.cons_append, List.cons_append, List.head?_cons, List.head?_cons]
          exact hhead'
      -- the bytes are those of the lines with that line
      have hdata : data.take f.start ++ newWifiPath ++ data.drop f.stop = (pre ++ (x ++ (tok' ++ rest)) :: post).flatten := by
        have hflat : data = pre.flatten ++ (x ++ (o.value ++ rest) ++ post.flatten) := by
          rw [← flatten_splitLines data, hlines, hline]
          simp
        have hq := length_le_of_token htoken
        have hstart' : f.start = (pre.flatten ++ x).length + (isQuoted o.value).toNat := by
          rw [hfo, foundOf, hoff, hstart, List.length_append]
          simp
        have hstop : f.stop = (pre.flatten ++ x).length + ((isQuoted o.value).toNat + oldWifiPath.length) := by
          have : f.stop = f.start + oldWifiPath.length := by rw [hfo, ← hval]; rfl
          rw [this, hstart', Nat.add_assoc]
        have hsplit : data = (pre.flatten ++ x) ++ (o.value ++ (rest ++ post.flatten)) := by
          rw [hflat]
          simp
        rw [hstart', hstop, hsplit, List.take_length_add_append, List.drop_length_add_append, List.take_append_of_le_length (by omega),
          List.drop_append_of_le_length hq, ← hcut]
        simp
      have hlines' : Lines (pre ++ (x ++ (tok' ++ rest)) :: post) := by
        refine Lines.replace hx hne (not_eol_of_token htoken) (not_eol_of_token htoken') ?_
        rw [← hline, ← hlines]
        exact lines_splitLines data
      have hold' : x ++ o.value.take (isQuoted o.value).toNat ++ oldWifiPath ++ (o.value.drop ((isQuoted o.value).toNat + oldWifiPath.length) ++ rest) =
          line := by
        rw [hline]
        conv_rhs => rw [← token_split htoken]
        simp
      have hnew' : x ++ o.value.take (isQuoted o.value).toNat ++ newWifiPath ++ (o.value.drop ((isQuoted o.value).toNat + oldWifiPath.length) ++ rest) =
          x ++ (tok' ++ rest) := by
        rw [← hcut]
        simp
      refine .inr ⟨⟨pre, x ++ o.value.take (isQuoted o.value).toNat, o.value.drop ((isQuoted o.value).toNat + oldWifiPath.length) ++ rest, post, s₁,
        ?_, ?_, ?_, ?_, hpre, hk, hseen, hf₁, ?_⟩⟩
      · rw [hold', hlines]
      · rw [hnew', hdata, splitLines_flatten hlines']
      · rw [hold']
        exact ⟨o, hm, hopt, hp, hval⟩
      · rw [hnew']
        exact ⟨_, hnewline, hopt, hp, unquote_token htoken'⟩
      · intro offset y
        have hshift := scan_shift hpost (by rw [hff, hs₂]) offset [y]
        rw [hs₂] at hshift
        exact ⟨_, hshift, rfl⟩
    · rename_i hnew
      cases hres
      exact .inl ⟨rfl, s, hs, by simp [hff], by simpa [hff] using hnew⟩
  · cases hres

/-- Migrating leaves no old path, and migrating again changes nothing. -/
theorem migrateWireless_migrated (h : migrateWireless data = .ok data') :
    migrateWireless data' = .ok data' ∧ oldWifiPath ∉ wifiDevicePaths data' := by
  have hsettled : Settled data' := by
    rcases migrateWireless_cases h with ⟨rfl, hs⟩ | he
    · exact hs
    · obtain ⟨e⟩ := he
      exact e.settled
  exact ⟨migrateWireless_of_settled hsettled, not_mem_of_settled hsettled⟩

end

end RainWrt.HwTest
