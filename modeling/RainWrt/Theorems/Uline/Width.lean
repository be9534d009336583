import RainWrt.Uline.Line

/-! Which texts `pos_add_string` goes over without a read behind their end. -/

namespace RainWrt.Uline

/-! ### Symbols -/

/-- The value of a byte that continues a symbol has six bits. -/
theorem toNat_cont {c : Byte} (h1 : 0x80 ≤ c) (h2 : c < 0xc0) : (BitVec.ofNat 32 c.toNat - 0x80).toNat < 64 := by
  have h1' : 128 ≤ c.toNat := h1
  have h2' : c.toNat < 192 := h2
  have hn : (BitVec.ofNat 32 c.toNat).toNat = c.toNat := by
    rw [BitVec.toNat_ofNat, Nat.mod_eq_of_lt (by omega)]
  rw [BitVec.toNat_sub, hn]
  change (2 ^ 32 - 128 + c.toNat) % 2 ^ 32 < 64
  omega

/-- Shifting in a byte moves the other bits up. -/
theorem getLsbD_shiftIn {c : BitVec 32} {b : Byte} (h1 : 0x80 ≤ b) (h2 : b < 0xc0) {i : Nat} (hi : 6 ≤ i) (hi' : i < 32) :
    (shiftIn c b).getLsbD i = c.getLsbD (i - 6) := by
  have hlow : (BitVec.ofNat 32 b.toNat - 0x80).getLsbD i = false :=
    Nat.testBit_lt_two_pow (Nat.lt_of_lt_of_le (toNat_cont h1 h2) (Nat.pow_le_pow_right (by decide) hi : 2 ^ 6 ≤ 2 ^ i))
  rw [shiftIn, BitVec.getLsbD_or, hlow, BitVec.getLsbD_shiftLeft]
  simp [hi, hi']

theorem shift_in_range : ∀ n < 256, (BitVec.ofNat 32 n >>> 3 - 0x10) &&& ~~~7 = 0 → 128 ≤ n ∧ n < 192 := by
  decide +kernel

theorem range_of_not_out {c : BitVec 32} {b : Byte} (h : outOfRange c b = false) : 0x80 ≤ b ∧ b < 0xc0 := by
  simp only [outOfRange, ne_eq, decide_eq_false_iff_not, not_not] at h
  refine shift_in_range b.toNat b.toNat_lt ?_
  refine BitVec.eq_of_getLsbD_eq fun i hi => ?_
  have := congrArg (fun w : BitVec 32 => w.getLsbD i) h
  simp only [BitVec.getLsbD_and, BitVec.getLsbD_or] at this ⊢
  revert this
  generalize (~~~(7 : BitVec 32)).getLsbD i = m
  cases m with
  | false => simp
  | true => simp_all

theorem msb_bittab {c : Byte} (h1 : ¬c < 0xc2) (h2 : ¬0xf4 < c) : (bittab c).msb = true := by
  have hall : ∀ n < 256, ¬n < 0xc2 → ¬0xf4 < n → (bittab (.ofNat n)).msb = true := by decide +kernel
  have := hall c.toNat c.toNat_lt h1 h2
  rwa [UInt8.ofNat_toNat] at this

/-- A symbol is not longer than the bytes that may be read, and it is read within them. -/
theorem mbtowc_reads {b : List Byte} {s n : Nat} (hn : 0 < n) (hle : s + n ≤ b.length) :
    ∃ r, mbtowc b s n = some r ∧ ∀ ret ∈ r, ret ≤ n := by
  have hread : ∀ k < n, ∃ c, b[s + k]? = some c := fun k hk => ⟨b[s + k], List.getElem?_eq_getElem (by omega)⟩
  have hnone : ∃ r, some (none : Option Nat) = some r ∧ ∀ ret ∈ r, ret ≤ n := ⟨none, rfl, nofun⟩
  have hsome : ∀ k ≤ n, ∃ r, some (some k) = some r ∧ ∀ ret ∈ r, ret ≤ n := by
    intro k hk
    refine ⟨some k, rfl, ?_⟩
    rintro _ ⟨⟩
    exact hk
  obtain ⟨c0, hc0⟩ := hread 0 hn
  rw [Nat.add_zero] at hc0
  unfold mbtowc
  rw [if_neg (by omega)]
  simp only [hc0, Option.bind_eq_bind, Option.bind_some, Option.pure_def]
  by_cases hascii : c0 < 0x80
  · rw [if_pos hascii]
    exact hsome _ (by split_ifs <;> omega)
  rw [if_neg hascii]
  by_cases hlead : c0 < 0xc2 ∨ 0xf4 < c0
  · rw [if_pos hlead]
    exact hnone
  rw [if_neg hlead]
  rw [not_or] at hlead
  have htop := msb_bittab hlead.1 hlead.2
  generalize bittab c0 = c at htop ⊢
  by_cases hshort : n < 4 ∧ (c <<< (6 * n - 6)).msb = true
  · rw [if_pos hshort]
    exact hnone
  rw [if_neg hshort]
  -- the bit that is on top after all bytes but one are shifted in is clear if there are fewer than four
  have hclear : n < 4 → c.getLsbD (31 - (6 * n - 6)) = false := by
    intro h4
    rw [not_and] at hshort
    have := hshort h4
    rw [Bool.not_eq_true, BitVec.msb_shiftLeft, BitVec.getMsbD_eq_getLsbD] at this
    have hlt : 6 * n - 6 < 32 := by omega
    simpa [hlt] using this
  have h2 : 2 ≤ n := by
    refine Nat.not_lt.mp fun hlt => ?_
    obtain rfl : n = 1 := by omega
    have := hclear (by omega)
    rw [BitVec.msb_eq_getLsbD_last] at htop
    rw [htop] at this
    cases this
  obtain ⟨c1, hc1⟩ := hread 1 (by omega)
  simp only [hc1, Option.bind_some]
  by_cases hout : outOfRange c c1 = true
  · rw [if_pos hout]
    exact hnone
  rw [if_neg hout]
  obtain ⟨hlo1, hhi1⟩ := range_of_not_out (Bool.not_eq_true _ ▸ hout)
  by_cases htwo : (!(shiftIn c c1).msb) = true
  · rw [if_pos htwo]
    exact hsome 2 h2
  rw [if_neg htwo]
  have h3 : 3 ≤ n := by
    refine Nat.not_lt.mp fun hlt => htwo ?_
    obtain rfl : n = 2 := by omega
    rw [BitVec.msb_eq_getLsbD_last, getLsbD_shiftIn hlo1 hhi1 (by decide) (by decide), hclear (by decide)]
    rfl
  obtain ⟨c2, hc2⟩ := hread 2 (by omega)
  simp only [hc2, Option.bind_some]
  by_cases hcont2 : c2 < 0x80 ∨ 0xc0 ≤ c2
  · rw [if_pos hcont2]
    exact hnone
  rw [if_neg hcont2]
  rw [not_or, UInt8.not_lt, UInt8.not_le] at hcont2
  by_cases hthree : (!(shiftIn (shiftIn c c1) c2).msb) = true
  · rw [if_pos hthree]
    exact hsome 3 h3
  rw [if_neg hthree]
  have h4 : 4 ≤ n := by
    refine Nat.not_lt.mp fun hlt => hthree ?_
    obtain rfl : n = 3 := by omega
    rw [BitVec.msb_eq_getLsbD_last, getLsbD_shiftIn hcont2.1 hcont2.2 (by decide) (by decide),
      getLsbD_shiftIn hlo1 hhi1 (by decide) (by decide), hclear (by decide)]
    rfl
  obtain ⟨c3, hc3⟩ := hread 3 (by omega)
  simp only [hc3, Option.bind_some]
  by_cases hcont3 : c3 < 0x80 ∨ 0xc0 ≤ c3
  · rw [if_pos hcont3]
    exact hnone
  rw [if_neg hcont3]
  exact hsome 4 h4

theorem nsyms_reads (utf8 : Bool) {b : List Byte} {str len : Nat} (hle : str + len ≤ b.length) : nsyms utf8 b str len = some () := by
  have hfrom : ∀ ofs, utf8Nsyms b str len ofs = some () := by
    intro ofs
    induction h : len - ofs using Nat.strongRecOn generalizing ofs with
    | _ k ih =>
      unfold utf8Nsyms
      split_ifs with hlt
      · obtain ⟨r, hr, -⟩ := mbtowc_reads (b := b) (s := str + ofs) (n := len - ofs) (by omega) (by omega)
        simp only [hr, Option.bind_eq_bind, Option.bind_some]
        exact ih _ (by omega) _ rfl
      · rfl
  unfold nsyms
  split_ifs
  · exact hfrom 0
  · rfl

/-! ### Escape sequences -/

/-- Where a text stands with respect to escape sequences. No sequence may go on over the end of a line. -/
inductive Escaping where
  | text
  | opened
  | params
  | broken
  deriving DecidableEq

def Escaping.next (m : Escaping) (c : Byte) : Escaping :=
  match m with
  | .text => if c = KEY_ESC then .opened else .text
  | .opened => if c = 10 then .broken else if c = 91 ∨ c = 79 then .params else .text
  | .params => if c = 10 then .broken else if c ≤ 63 then .params else .text
  | .broken => .broken

/-- Every escape sequence of the text ends in the line it starts in. -/
def Closed (text : List Byte) : Prop := text.foldl Escaping.next .text = .text

instance (text : List Byte) : Decidable (Closed text) := inferInstanceAs (Decidable (_ = _))

theorem foldl_broken (text : List Byte) : text.foldl Escaping.next .broken = .broken := by
  induction text with
  | nil => rfl
  | cons c text ih => exact ih

/-- Without an escape nothing happens. -/
theorem foldl_plain {text : List Byte} (h : KEY_ESC ∉ text) : text.foldl Escaping.next .text = .text := by
  induction text with
  | nil => rfl
  | cons c text ih =>
    rw [List.mem_cons, not_or] at h
    rw [List.foldl_cons, Escaping.next, if_neg (Ne.symm h.1), ih h.2]

/-- The parameters of a sequence go up to the first byte that is above 63. -/
theorem foldl_params {text : List Byte} (hnl : 10 ∉ text) : text.foldl Escaping.next .params =
    match text.dropWhile (· ≤ 63) with
    | [] => .params
    | _ :: rest => rest.foldl Escaping.next .text := by
  induction text with
  | nil => rfl
  | cons c text ih =>
    rw [List.mem_cons, not_or] at hnl
    rw [List.foldl_cons, Escaping.next, if_neg (Ne.symm hnl.1)]
    by_cases hc : c ≤ 63
    · rw [if_pos hc, ih hnl.2, List.dropWhile_cons_of_pos (by simpa using hc)]
    · rw [if_neg hc, List.dropWhile_cons_of_neg (by simpa using hc)]

/-! ### Blocks -/

/-- The bytes from `str` on. -/
def block (b : List Byte) (str len : Nat) : List Byte := (b.drop str).take len

section
variable {b u v : List Byte} {str len : Nat} {c : Byte}

theorem block_drop (h : block b str len = u ++ v) : block b (str + u.length) (len - u.length) = v := by
  rw [block, ← List.drop_drop, ← List.drop_take]
  change (block b str len).drop u.length = v
  rw [h, List.drop_left]

theorem block_getElem? (h : block b str len = u ++ c :: v) : b[str + u.length]? = some c := by
  have hget : (block b str len)[u.length]? = some c := by
    rw [h, List.getElem?_append_right (Nat.le_refl _), Nat.sub_self, List.getElem?_cons_zero]
  have hlt : u.length < len := by
    have := congrArg List.length h
    simp only [block, List.length_take, List.length_append, List.length_cons] at this
    omega
  rwa [block, List.getElem?_take_of_lt hlt, List.getElem?_drop] at hget

theorem length_block (h : str + len ≤ b.length) : (block b str len).length = len := by
  rw [block, List.length_take, List.length_drop]
  omega

/-- `memchr` finds the first such byte, or reads everything. -/
theorem memchr_cases (b : List Byte) (str : Nat) (c : Byte) (len : Nat) :
    (∃ u v, block b str len = u ++ c :: v ∧ c ∉ u ∧ memchr b str c len = some (some u.length)) ∨
      c ∉ block b str len ∧ memchr b str c len = if str + len ≤ b.length then some none else none := by
  unfold memchr
  change _ ∨ _ ∧ (if (block b str len).findIdx (· = c) < (block b str len).length then _ else _) = _
  by_cases hmem : c ∈ block b str len
  · obtain ⟨u, v, huv, hu⟩ := List.eq_append_cons_of_mem hmem
    have hidx : (block b str len).findIdx (· = c) = u.length := by
      have hnone : ¬u.findIdx (· = c) < u.length := by
        rw [List.findIdx_lt_length]
        rintro ⟨d, hd, heq⟩
        rw [decide_eq_true_eq] at heq
        exact hu (heq ▸ hd)
      rw [huv, List.findIdx_append, if_neg hnone, List.findIdx_cons]
      simp
    have hlt : u.length < (block b str len).length := by
      rw [huv, List.length_append, List.length_cons]
      omega
    refine Or.inl ⟨u, v, huv, hu, ?_⟩
    rw [← hidx] at hlt ⊢
    exact if_pos hlt
  · refine Or.inr ⟨hmem, if_neg ?_⟩
    rw [List.findIdx_lt_length]
    rintro ⟨d, hd, heq⟩
    rw [decide_eq_true_eq] at heq
    exact hmem (heq ▸ hd)

/-- Parameters are skipped to a byte above 63, within the bytes. -/
theorem skipParams_bound {next q : Nat} (h : Line.skipParams b next = some q) : next ≤ q ∧ q < b.length := by
  obtain ⟨i, hi, rfl⟩ := Option.map_eq_some_iff.mp h
  obtain ⟨hlt, -⟩ := List.findIdx?_eq_some_iff_getElem.mp hi
  rw [List.length_drop] at hlt
  omega

/-- In a text that starts there, it is the first such byte of the text, if it has one. -/
theorem skipParams_block {next : Nat} (h : block b next len = v) :
    match v.dropWhile (· ≤ 63) with
    | [] => ∀ q, Line.skipParams b next = some q → next + v.length ≤ q
    | _ :: rest => Line.skipParams b next = some (next + (v.length - (rest.length + 1))) := by
  have hsplit : b.drop next = v ++ (b.drop next).drop len := by
    rw [← h]
    exact (List.take_append_drop len (b.drop next)).symm
  generalize (b.drop next).drop len = tail at hsplit
  have hfind : ∀ v : List Byte, match v.dropWhile (· ≤ 63) with
      | [] => ∀ i, (v ++ tail).findIdx? (63 < ·) = some i → v.length ≤ i
      | _ :: rest => (v ++ tail).findIdx? (63 < ·) = some (v.length - (rest.length + 1)) := by
    intro v
    induction v with
    | nil => exact fun i _ => Nat.zero_le i
    | cons x v ih =>
      by_cases hx : x ≤ 63
      · have hlow : ¬63 < x := UInt8.not_lt.mpr hx
        rw [List.dropWhile_cons_of_pos (by simpa using hx)]
        simp only [List.cons_append, List.findIdx?_cons, hlow, decide_false, Bool.false_eq_true, if_false]
        have hle := (List.dropWhile_sublist (l := v) (· ≤ 63)).length_le
        cases hd : v.dropWhile (· ≤ 63) with
        | nil =>
          rw [hd] at ih
          dsimp only at ih ⊢
          intro i hi
          obtain ⟨j, hj, rfl⟩ := Option.map_eq_some_iff.mp hi
          have := ih j hj
          rw [List.length_cons]
          omega
        | cons y rest =>
          rw [hd] at ih hle
          dsimp only at ih ⊢
          rw [ih, Option.map_some, List.length_cons]
          rw [List.length_cons] at hle
          congr 1
          omega
      · rw [List.dropWhile_cons_of_neg (by simpa using hx)]
        have hhigh : 63 < x := UInt8.not_le.mp hx
        simp [List.findIdx?_cons, hhigh]
  unfold Line.skipParams
  rw [hsplit]
  have := hfind v
  cases hd : v.dropWhile (· ≤ 63) with
  | nil =>
    rw [hd] at this
    dsimp only at this ⊢
    intro q hq
    obtain ⟨i, hi, rfl⟩ := Option.map_eq_some_iff.mp hq
    exact Nat.add_le_add_left (this i hi) _
  | cons x rest =>
    rw [hd] at this
    dsimp only at this ⊢
    rw [this, Option.map_some]

end

/-! ### Lines -/

section
variable {utf8 : Bool} {b : List Byte}

/-- More bytes than there are cannot be gone over. -/
theorem posAddLine_overrun (fuel : Nat) {str len : Nat} (hstr : str ≤ b.length) (hover : b.length < str + len) (hlen : len < 2 ^ 64) :
    posAddLine utf8 b fuel str len = none := by
  induction fuel generalizing str len with
  | zero => rfl
  | succ fuel ih =>
    unfold posAddLine
    obtain ⟨u, v, huv, -, hmem⟩ | ⟨-, hmem⟩ := memchr_cases b str KEY_ESC len
    · have hesc := List.getElem?_eq_some_iff.mp (block_getElem? huv)
      obtain ⟨hlt, -⟩ := hesc
      simp only [hmem, Option.bind_eq_bind, Option.bind_some, nsyms_reads utf8 (show str + u.length ≤ b.length by omega)]
      cases hc : b[str + u.length + 1]? with
      | none => rfl
      | some c =>
        obtain ⟨hnext, -⟩ := List.getElem?_eq_some_iff.mp hc
        have hgo : ∀ q, str + u.length + 1 ≤ q → q < b.length →
            posAddLine utf8 b fuel (q + 1) ((len + 2 ^ 64 - (q + 1 - str)) % 2 ^ 64) = none := by
          intro q hge hq
          have hmod : (len + 2 ^ 64 - (q + 1 - str)) % 2 ^ 64 = len - (q + 1 - str) := by omega
          rw [hmod]
          exact ih (by omega) (by omega) (by omega)
        simp only [Option.bind_some]
        split_ifs
        · cases hskip : Line.skipParams b (str + u.length + 1 + 1) with
          | none => rfl
          | some q =>
            obtain ⟨hge, hq⟩ := skipParams_bound hskip
            exact hgo q (by omega) hq
        · exact hgo _ (Nat.le_refl _) hnext
    · rw [hmem, if_neg (by omega)]
      rfl

/-- One line is gone over exactly if its escape sequences are closed. -/
theorem posAddLine_iff (hb : b.length < 2 ^ 64) (fuel : Nat) {str n : Nat} (hle : str + n ≤ b.length) (hfuel : n < fuel)
    (hnl : 10 ∉ block b str n) : posAddLine utf8 b fuel str n = some () ↔ Closed (block b str n) := by
  induction fuel generalizing str n with
  | zero => omega
  | succ fuel ih =>
    unfold posAddLine
    obtain ⟨u, v, huv, hu, hmem⟩ | ⟨hno, hmem⟩ := memchr_cases b str KEY_ESC n
    · have hlen := length_block hle
      rw [huv, List.length_append, List.length_cons] at hlen
      rw [huv, List.mem_append, List.mem_cons, not_or, not_or] at hnl
      have hclosed : Closed (block b str n) ↔ v.foldl Escaping.next .opened = .text := by
        rw [Closed, huv, List.foldl_append, foldl_plain hu]
        rfl
      rw [hclosed]
      simp only [hmem, Option.bind_eq_bind, Option.bind_some, nsyms_reads utf8 (show str + u.length ≤ b.length by omega)]
      -- what is read from behind the line runs over the end
      have hpast : ∀ q, str + n ≤ q → q < b.length →
          posAddLine utf8 b fuel (q + 1) ((n + 2 ^ 64 - (q + 1 - str)) % 2 ^ 64) = none := by
        intro q hge hq
        refine posAddLine_overrun fuel (by omega) ?_ (Nat.mod_lt _ (by decide))
        have hmod : (n + 2 ^ 64 - (q + 1 - str)) % 2 ^ 64 = n + 2 ^ 64 - (q + 1 - str) := Nat.mod_eq_of_lt (by omega)
        omega
      -- what is left of the line is gone over as before
      have hwithin : ∀ w rest, v = w ++ rest → w ≠ [] →
          (posAddLine utf8 b fuel (str + u.length + w.length + 1) ((n + 2 ^ 64 - (str + u.length + w.length + 1 - str)) % 2 ^ 64) = some () ↔
            rest.foldl Escaping.next .text = .text) := by
        intro w rest hv hw
        have hw0 := List.length_pos_iff.mpr hw
        rw [hv, List.length_append] at hlen
        have hdrop := block_drop (u := u ++ KEY_ESC :: w) (v := rest) (show block b str n = (u ++ KEY_ESC :: w) ++ rest by
          rw [huv, hv, List.append_assoc, List.cons_append])
        rw [List.length_append, List.length_cons] at hdrop
        have hmod : (n + 2 ^ 64 - (str + u.length + w.length + 1 - str)) % 2 ^ 64 = n - (u.length + (w.length + 1)) := by omega
        have hstart : str + u.length + w.length + 1 = str + (u.length + (w.length + 1)) := by omega
        rw [hmod, hstart, ih (by omega) (by omega) (by rw [hdrop]; exact fun hmem => hnl.2.2 (hv ▸ List.mem_append_right _ hmem)), hdrop, Closed]
      cases v with
      | nil =>
        rw [List.length_nil] at hlen
        refine ⟨fun h => ?_, nofun⟩
        cases hc : b[str + u.length + 1]? with
        | none =>
          rw [hc] at h
          cases h
        | some c =>
          obtain ⟨hnext, -⟩ := List.getElem?_eq_some_iff.mp hc
          simp only [hc, Option.bind_some] at h
          split_ifs at h
          · cases hskip : Line.skipParams b (str + u.length + 1 + 1) with
            | none =>
              rw [hskip] at h
              cases h
            | some q =>
              obtain ⟨hge, hq⟩ := skipParams_bound hskip
              simp only [hskip, Option.bind_some] at h
              rw [hpast q (by omega) hq] at h
              cases h
          · rw [hpast _ (by omega) hnext] at h
            cases h
      | cons c v =>
        have hc : b[str + u.length + 1]? = some c := by
          have := block_getElem? (u := u ++ [KEY_ESC]) (c := c) (v := v) (show block b str n = (u ++ [KEY_ESC]) ++ c :: v by
            rw [huv, List.append_assoc, List.singleton_append])
          rwa [List.length_append, List.length_singleton, ← Nat.add_assoc] at this
        rw [List.mem_cons, not_or] at hnl
        simp only [hc, Option.bind_some, List.foldl_cons, Escaping.next, if_neg (Ne.symm hnl.2.2.1)]
        by_cases hcsi : c = 91 ∨ c = 79
        · rw [if_pos hcsi, if_pos hcsi, foldl_params hnl.2.2.2]
          have hdrop := block_drop (u := u ++ [KEY_ESC, c]) (v := v) (show block b str n = (u ++ [KEY_ESC, c]) ++ v by
            rw [huv, List.append_assoc, List.cons_append, List.singleton_append])
          have hskip := skipParams_block hdrop
          rw [List.length_append, List.length_cons, List.length_singleton] at hskip
          rw [List.length_cons] at hlen
          have hnext : str + u.length + 1 + 1 = str + (u.length + (1 + 1)) := by omega
          have hsplit : v = v.takeWhile (· ≤ 63) ++ v.dropWhile (· ≤ 63) := List.takeWhile_append_dropWhile.symm
          rw [hnext]
          cases hd : v.dropWhile (· ≤ 63) with
          | nil =>
            rw [hd] at hskip
            dsimp only at hskip ⊢
            refine ⟨fun h => ?_, nofun⟩
            obtain ⟨q, hq, h⟩ := Option.bind_eq_some_iff.mp h
            rw [hpast q (by have := hskip q hq; omega) (skipParams_bound hq).2] at h
            cases h
          | cons x rest =>
            rw [hd] at hskip hsplit
            dsimp only at hskip ⊢
            have hgo := hwithin (c :: (v.takeWhile (· ≤ 63) ++ [x])) rest
              (by rw [List.cons_append, List.append_assoc, List.singleton_append, ← hsplit]) (List.cons_ne_nil _ _)
            have hvlen := congrArg List.length hsplit
            simp only [List.length_append, List.length_cons] at hvlen
            have hend : str + u.length + (c :: (v.takeWhile (· ≤ 63) ++ [x])).length + 1 =
                str + (u.length + (1 + 1)) + (v.length - (rest.length + 1)) + 1 := by
              simp only [List.length_append, List.length_cons, List.length_nil]
              omega
            rw [hend] at hgo
            rw [hskip, Option.bind_some]
            exact hgo
        · rw [if_neg hcsi, if_neg hcsi]
          exact hwithin [c] v rfl (List.cons_ne_nil _ _)
    · rw [hmem, if_pos hle]
      simp only [Option.bind_eq_bind, Option.bind_some, nsyms_reads utf8 hle]
      exact iff_of_true trivial (foldl_plain hno)

/-- One round of `pos_add_string`. -/
theorem posAddString_eq {str len : Nat} (h0 : len ≠ 0) : posAddString utf8 b str len =
    match memchr b str 10 len with
    | none => none
    | some none => posAddLine utf8 b (b.length + 1) str len
    | some (some i) => (if i ≠ 0 then posAddLine utf8 b (b.length + 1) str i else some ()).bind fun _ =>
        posAddString utf8 b (str + i + 1) (len - (i + 1)) := by
  rw [posAddString, if_neg h0]
  split
  · rename_i hx
    rw [hx]
  · rename_i hx
    rw [hx]
  · rename_i i hx
    rw [hx]
    dsimp only
    split_ifs <;> rfl

/-- So is a text of several lines. -/
theorem posAddString_iff (hb : b.length < 2 ^ 64) {str len : Nat} (hle : str + len ≤ b.length) :
    posAddString utf8 b str len = some () ↔ Closed (block b str len) := by
  induction len using Nat.strongRecOn generalizing str with
  | _ len ih =>
    by_cases h0 : len = 0
    · subst h0
      exact iff_of_true (by rw [posAddString, if_pos rfl]) rfl
    rw [posAddString_eq h0]
    obtain ⟨u, v, huv, hu, hmem⟩ | ⟨hno, hmem⟩ := memchr_cases b str 10 len
    · have hlen := length_block hle
      rw [huv, List.length_append, List.length_cons] at hlen
      have hline : block b str u.length = u := by
        have := congrArg (List.take u.length) huv
        rwa [List.take_left, block, List.take_take, Nat.min_eq_left (by omega)] at this
      have hrest := block_drop (u := u ++ [10]) (v := v) (show block b str len = (u ++ [10]) ++ v by
        rw [huv, List.append_assoc, List.singleton_append])
      rw [List.length_append, List.length_singleton] at hrest
      have hpiece : (if u.length ≠ 0 then posAddLine utf8 b (b.length + 1) str u.length else some ()) = some () ↔ Closed u := by
        split_ifs with hu0
        · rw [posAddLine_iff hb _ (by omega) (by omega) (by rw [hline]; exact hu), hline]
        · rw [List.eq_nil_of_length_eq_zero (not_not.mp hu0)]
          exact iff_of_true rfl rfl
      have hclosed : Closed (block b str len) ↔ Closed u ∧ Closed v := by
        rw [Closed, Closed, huv, List.foldl_append, List.foldl_cons]
        cases u.foldl Escaping.next .text with
        | text => exact ⟨fun h => ⟨rfl, h⟩, fun h => h.2⟩
        | opened => simp [Escaping.next, foldl_broken]
        | params => simp [Escaping.next, foldl_broken]
        | broken => simp [Escaping.next, foldl_broken]
      rw [hclosed, ← hpiece, ← hrest, ← ih (len - (u.length + 1)) (by omega) (by omega), hmem]
      dsimp only
      rw [Nat.add_assoc]
      cases (if u.length ≠ 0 then posAddLine utf8 b (b.length + 1) str u.length else some ()) with
      | none => exact ⟨nofun, fun h => nomatch h.1⟩
      | some _ => exact ⟨fun h => ⟨rfl, h⟩, fun h => h.2⟩
    · rw [hmem, if_pos hle]
      exact posAddLine_iff hb _ hle (by omega) hno

end

/-! ### The line buffer -/

/-- Without the symbols, which are read within what `memchr` reads, this is what the display of a line does. -/
theorem addStringLine_eq (utf8 : Bool) (b : List Byte) (fuel : Nat) {str : Nat} (len : Nat) (hstr : str ≤ b.length) :
    Line.addStringLine b fuel str len = posAddLine utf8 b fuel str len := by
  induction fuel generalizing str len with
  | zero => rfl
  | succ fuel ih =>
    unfold Line.addStringLine posAddLine memchr
    dsimp only
    by_cases hi : ((b.drop str).take len).findIdx (· = KEY_ESC) < ((b.drop str).take len).length
    · have hread : str + ((b.drop str).take len).findIdx (· = KEY_ESC) ≤ b.length := by
        rw [List.length_take, List.length_drop] at hi
        omega
      rw [if_pos hi, if_pos hi]
      simp only [Option.bind_eq_bind, Option.bind_some, nsyms_reads utf8 hread]
      generalize str + ((b.drop str).take len).findIdx (· = KEY_ESC) + 1 = next
      cases hc : b[next]? with
      | none => rfl
      | some c =>
        obtain ⟨hnext, -⟩ := List.getElem?_eq_some_iff.mp hc
        simp only [Option.bind_some]
        split_ifs
        · cases hskip : Line.skipParams b (next + 1) with
          | none => rfl
          | some q =>
            have := (skipParams_bound hskip).2
            exact ih _ (by omega)
        · exact ih _ (by omega)
    · rw [if_neg hi, if_neg hi]
      split_ifs with hle
      · exact (nsyms_reads utf8 hle).symm
      · rfl

theorem addString_eq (utf8 : Bool) (b : List Byte) {str : Nat} (len : Nat) (hstr : str ≤ b.length) :
    Line.addString b str len = posAddString utf8 b str len := by
  induction len using Nat.strongRecOn generalizing str with
  | _ len ih =>
    unfold Line.addString
    by_cases h0 : len = 0
    · subst h0
      rw [posAddString, if_pos rfl]
      simp [Nat.not_lt.mpr hstr]
    rw [posAddString_eq h0]
    unfold memchr
    dsimp only
    rw [if_neg h0]
    have hlen : ((b.drop str).take len).length = min len (b.length - str) := by rw [List.length_take, List.length_drop]
    generalize ((b.drop str).take len).findIdx (· = 10) = i
    by_cases hi : i < ((b.drop str).take len).length
    · rw [dif_pos hi, if_pos hi, addStringLine_eq utf8 b _ i hstr, ih (len - (i + 1)) (by omega) (by omega)]
      dsimp only
      split_ifs <;> rfl
    · rw [dif_neg hi, if_neg hi]
      by_cases hle : str + len ≤ b.length
      · rw [if_neg (Nat.not_lt.mpr hle), if_pos hle, addStringLine_eq utf8 b _ len hstr]
      · rw [if_pos (Nat.not_le.mp hle), if_neg hle]

/-- The cursor is moved over a text without a read behind its end. -/
def Bounded (utf8 : Bool) (str : List Byte) : Prop := posAddString utf8 str 0 str.length = some ()

/-- That is so exactly if each escape sequence of the text ends in the line it starts in. -/
theorem bounded_iff (utf8 : Bool) (str : List Byte) (h : str.length < 2 ^ 64) : Bounded utf8 str ↔ Closed str := by
  rw [Bounded, posAddString_iff h (Nat.le_of_eq (Nat.zero_add _)), block, List.drop_zero, List.take_length]

theorem bounded_iff_prompt : Bounded true [27, 91, 49, 109, 62, 27, 91, 109] ↔ Closed [27, 91, 49, 109, 62, 27, 91, 109] :=
  bounded_iff true _ (by decide)

/-- A prompt that ends with an escape is read beyond. -/
theorem escape_unbounded : ¬∀ (utf8 : Bool) (str : List Byte), str.length < 2 ^ 64 → Bounded utf8 str := by
  intro h
  exact absurd ((bounded_iff true [27] (by decide)).mp (h true [27] (by decide))) (by decide)

end RainWrt.Uline
