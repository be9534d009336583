import RainWrt.BaseFiles.Macaddr
import RainWrt.Theorems.BaseFiles.Words

/-! The addresses that `system.sh` computes: what is read from a text, sums, and single bits. -/

namespace RainWrt.BaseFiles

/-! ### Hexadecimal numbers of a width -/

/-- The last `width` digits of a number. -/
def digits : (width n : Nat) → Text
  | 0, _ => []
  | width + 1, n => digits width (n / 16) ++ [(n % 16).digitChar]

@[simp] theorem length_digits : ∀ w n, (digits w n).length = w
  | 0, _ => rfl
  | w + 1, n => by rw [digits, List.length_append, length_digits w, List.length_singleton]

theorem digits_zero : ∀ w, digits w 0 = List.replicate w '0'
  | 0 => rfl
  | w + 1 => by
    rw [digits, digits_zero w, List.replicate_succ']
    rfl

theorem printfX_eq {w n : Nat} (hw : 0 < w) (hn : n < 16 ^ w) : printfX w n = digits w n := by
  induction w generalizing n with
  | zero => cases hw
  | succ w ih =>
    rw [digits]
    by_cases hlow : n < 16
    · rw [printfX, Nat.toDigits_of_lt_base hlow, Nat.div_eq_of_lt hlow, Nat.mod_eq_of_lt hlow, digits_zero]
      rfl
    · have hw : 0 < w := Nat.pos_of_ne_zero fun h => by rw [h] at hn; omega
      have hdiv : n / 16 < 16 ^ w := Nat.div_lt_of_lt_mul (by rwa [Nat.pow_succ, Nat.mul_comm] at hn)
      have hpad : printfX (w + 1) n = printfX w (n / 16) ++ [(n % 16).digitChar] := by
        rw [printfX, Nat.toDigits_eq_if (by decide), if_neg hlow, printfX, List.leftpad, List.leftpad, List.length_append,
          List.length_singleton, Nat.add_sub_add_right, List.append_assoc]
      rw [hpad, ih hw hdiv]

theorem digits_add (v w n : Nat) : digits (v + w) n = digits v (n / 16 ^ w) ++ digits w n := by
  induction w generalizing n with
  | zero => simp [digits]
  | succ w ih =>
    rw [← Nat.add_assoc, digits, ih, digits, Nat.div_div_eq_div_mul, Nat.pow_succ', List.append_assoc]

theorem digits_two (n : Nat) : digits 2 (n % 256) = digits 2 n := by
  have h1 : n % 256 / 16 % 16 = n / 16 % 16 := by omega
  have h2 : n % 256 % 16 = n % 16 := by omega
  simp only [digits, h1, h2]

theorem hexDigit_digitChar : ∀ n < 16, hexDigit n.digitChar = n := by decide

theorem isHexDigit_digitChar : ∀ n < 16, isHexDigit n.digitChar = true := by decide

theorem hexValue_concat (s : Text) (c : Char) : hexValue (s ++ [c]) = 16 * hexValue s + hexDigit c := by
  simp [hexValue]

theorem hexValue_digits {w n : Nat} (hn : n < 16 ^ w) : hexValue (digits w n) = n := by
  induction w generalizing n with
  | zero =>
    rw [Nat.pow_zero, Nat.lt_one_iff] at hn
    rw [hn]
    rfl
  | succ w ih =>
    have hdiv : n / 16 < 16 ^ w := Nat.div_lt_of_lt_mul (by rwa [Nat.pow_succ, Nat.mul_comm] at hn)
    rw [digits, hexValue_concat, ih hdiv, hexDigit_digitChar _ (Nat.mod_lt n (by decide)), Nat.div_add_mod]

theorem isHexDigit_digits {w n : Nat} {c : Char} (h : c ∈ digits w n) : isHexDigit c = true := by
  induction w generalizing n with
  | zero => cases h
  | succ w ih =>
    rw [digits, List.mem_append, List.mem_singleton] at h
    rcases h with h | rfl
    · exact ih h
    · exact isHexDigit_digitChar _ (Nat.mod_lt n (by decide))

/-! ### Octets -/

/-- The number of some octets. -/
def number (l : List Nat) : Nat := l.foldl (fun n o => 256 * n + o) 0

/-- The last `k` octets of a number. -/
def octetsOf : (k n : Nat) → List Nat
  | 0, _ => []
  | k + 1, n => octetsOf k (n / 256) ++ [n % 256]

@[simp] theorem length_octetsOf : ∀ k n, (octetsOf k n).length = k
  | 0, _ => rfl
  | k + 1, n => by rw [octetsOf, List.length_append, length_octetsOf k, List.length_singleton]

theorem octetsOf_lt {k n o : Nat} (h : o ∈ octetsOf k n) : o < 256 := by
  induction k generalizing n with
  | zero => cases h
  | succ k ih =>
    rw [octetsOf, List.mem_append, List.mem_singleton] at h
    rcases h with h | rfl
    · exact ih h
    · exact Nat.mod_lt n (by decide)

theorem number_concat (l : List Nat) (o : Nat) : number (l ++ [o]) = 256 * number l + o := by
  simp [number]

theorem number_octetsOf {k n : Nat} (hn : n < 256 ^ k) : number (octetsOf k n) = n := by
  induction k generalizing n with
  | zero =>
    rw [Nat.pow_zero, Nat.lt_one_iff] at hn
    rw [hn]
    rfl
  | succ k ih =>
    have hdiv : n / 256 < 256 ^ k := Nat.div_lt_of_lt_mul (by rwa [Nat.pow_succ, Nat.mul_comm] at hn)
    rw [octetsOf, number_concat, ih hdiv, Nat.div_add_mod]

theorem number_lt {l : List Nat} (h : ∀ o ∈ l, o < 256) : number l < 256 ^ l.length := by
  induction l using List.reverseRecOn with
  | nil => exact Nat.one_pos
  | append_singleton l o ih =>
    have ho := h o (by simp)
    have ih := ih fun o ho => h o (List.mem_append_left _ ho)
    rw [number_concat, List.length_append, List.length_singleton, Nat.pow_succ]
    omega

theorem octetsOf_number {l : List Nat} (h : ∀ o ∈ l, o < 256) : octetsOf l.length (number l) = l := by
  induction l using List.reverseRecOn with
  | nil => rfl
  | append_singleton l o ih =>
    have ho := h o (by simp)
    have hdiv : (256 * number l + o) / 256 = number l := by omega
    have hmod : (256 * number l + o) % 256 = o := by omega
    rw [number_concat, List.length_append, List.length_singleton, octetsOf, hdiv, hmod, ih fun o ho => h o (List.mem_append_left _ ho)]

theorem digits_octets (k n : Nat) : digits (2 * k) n = (octetsOf k n).flatMap (digits 2) := by
  induction k generalizing n with
  | zero => rfl
  | succ k ih =>
    have hdiv : n / 16 ^ 2 = n / 256 := rfl
    rw [Nat.mul_succ, digits_add, hdiv, ih, octetsOf, List.flatMap_append, List.flatMap_singleton, digits_two]

/-- An address with the given octets. -/
def format (l : List Nat) : Text := [':'].intercalate (l.map (printfX 2))

/-- The usual form of an address. -/
def Canonical (m : Text) : Prop := ∃ l : List Nat, l.length = 6 ∧ (∀ o ∈ l, o < 256) ∧ m = format l

theorem map_printfX {l : List Nat} (h : ∀ o ∈ l, o < 256) : l.map (printfX 2) = l.map (digits 2) :=
  List.map_congr_left fun o ho => printfX_eq (by decide) (h o ho)

theorem hexValue_flatMap {l : List Nat} (h : ∀ o ∈ l, o < 256) : hexValue (l.flatMap (digits 2)) = number l := by
  have hlt := number_lt h
  have hpow : 256 ^ l.length = 16 ^ (2 * l.length) := by rw [Nat.pow_mul]
  conv_lhs => rw [← octetsOf_number h]
  rw [← digits_octets, hexValue_digits (hpow ▸ hlt)]

theorem digits_ne {n w : Nat} {c d : Char} (h : c ∈ digits w n) (hd : isHexDigit d = false) : c ≠ d := fun hc => by
  rw [← hc, isHexDigit_digits h] at hd
  cases hd

/-- An address without its colons. -/
theorem filter_format {l : List Nat} (h : ∀ o ∈ l, o < 256) : (format l).filter (· ≠ ':') = l.flatMap (digits 2) := by
  rw [format, map_printfX h]
  clear h
  have hfilter : ∀ o, (digits 2 o).filter (· ≠ ':') = digits 2 o := fun o => by
    rw [List.filter_eq_self]
    exact fun c hc => by simpa using digits_ne hc rfl
  induction l with
  | nil => rfl
  | cons o l ih =>
    cases l with
    | nil => simpa using hfilter o
    | cons o' l =>
      rw [List.map_cons, List.map_cons, List.intercalate_cons_cons, ← List.map_cons, List.filter_append, List.filter_append, ih,
        hfilter]
      rfl

theorem hexValue_format {l : List Nat} (h : ∀ o ∈ l, o < 256) : hexValue ((format l).filter (· ≠ ':')) = number l := by
  rw [filter_format h, hexValue_flatMap h]

theorem format_cons (o o' : Nat) (l : List Nat) : format (o :: o' :: l) = printfX 2 o ++ ':' :: format (o' :: l) := by
  simp [format, List.intercalate_cons_cons]

theorem format_singleton (o : Nat) : format [o] = printfX 2 o := by
  simp [format]

theorem colon_not_mem {o : Nat} (h : o < 256) : ':' ∉ printfX 2 o := fun hc => by
  rw [printfX_eq (by decide) h] at hc
  exact digits_ne hc rfl rfl

/-! ### Sums -/

theorem behindColons_append {p : Text} (hp : ':' ∉ p) (k : Nat) (s : Text) : behindColons (k + 1) (p ++ ':' :: s) = behindColons k s := by
  induction p with
  | nil => simp [behindColons]
  | cons c p ih =>
    have hc : c ≠ ':' := fun h => hp (by simp [h])
    simp [behindColons, hc, ih fun h => hp (List.mem_cons_of_mem c h)]

theorem threePairs_digits (n : Nat) : threePairs (digits 6 n) = format (octetsOf 3 n) := by
  have h1 := Nat.mod_lt (n / 256 / 256) (show 0 < 256 by decide)
  have h2 := Nat.mod_lt (n / 256) (show 0 < 256 by decide)
  have h3 := Nat.mod_lt n (show 0 < 256 by decide)
  have hdigits := digits_octets 3 n
  have hoctets : octetsOf 3 n = [n / 256 / 256 % 256, n / 256 % 256, n % 256] := rfl
  rw [hoctets] at hdigits
  rw [hoctets, format_cons, format_cons, format_singleton, printfX_eq (by decide) h1, printfX_eq (by decide) h2, printfX_eq (by decide) h3,
    hdigits]
  rfl

/-- The sum in the last three octets. -/
theorem toNat_nic (n : Nat) (val : Arith) : ((.ofNat 64 n + val) &&& 0xffffff#64 : Arith).toNat = (n + val.toNat) % 2 ^ 24 := by
  have hmask : (0xffffff#64 : Arith).toNat = 2 ^ 24 - 1 := rfl
  rw [BitVec.toNat_and, hmask, Nat.and_two_pow_sub_one_eq_mod, BitVec.toNat_add, BitVec.toNat_ofNat]
  omega

theorem number_three {d e f : Nat} (h : ∀ o ∈ [d, e, f], o < 256) : number [d, e, f] < 2 ^ 24 := by
  have hlt := number_lt h
  rwa [List.length_cons, List.length_cons, List.length_singleton] at hlt

theorem macaddrAdd_format {a b c d e f : Nat} (h : ∀ o ∈ [a, b, c, d, e, f], o < 256) (val : Arith) :
    macaddrAdd (format [a, b, c, d, e, f]) val = format (a :: b :: c :: octetsOf 3 ((number [d, e, f] + val.toNat) % 2 ^ 24)) := by
  have hcolon : ∀ o ∈ [a, b, c, d, e, f], ':' ∉ printfX 2 o := fun o ho => colon_not_mem (h o ho)
  have hcolon' : ∀ o ∈ [a, b, c, d, e, f], ':' ∉ (printfX 2 o).reverse := fun o ho => by simpa using hcolon o ho
  have hlow : ∀ o ∈ [d, e, f], o < 256 := fun o ho => h o (by simp only [List.mem_cons] at ho ⊢; tauto)
  have hnic : behindColons 3 (format [a, b, c, d, e, f]) = some (format [d, e, f]) := by
    rw [format_cons, format_cons, format_cons, behindColons_append (hcolon a (by simp)), behindColons_append (hcolon b (by simp)),
      behindColons_append (hcolon c (by simp)), behindColons]
  have hrev : (format [a, b, c, d, e, f]).reverse = (printfX 2 f).reverse ++ ':' :: ((printfX 2 e).reverse ++
      ':' :: ((printfX 2 d).reverse ++ ':' :: (format [a, b, c]).reverse)) := by
    simp [format_cons, format_singleton]
  have houi : behindColons 3 (format [a, b, c, d, e, f]).reverse = some (format [a, b, c]).reverse := by
    rw [hrev, behindColons_append (hcolon' f (by simp)), behindColons_append (hcolon' e (by simp)),
      behindColons_append (hcolon' d (by simp)), behindColons]
  have hsum : (number [d, e, f] + val.toNat) % 2 ^ 24 < 16 ^ 6 := Nat.mod_lt _ (by decide)
  have hoctets : ∀ n, octetsOf 3 n = [n / 256 / 256 % 256, n / 256 % 256, n % 256] := fun n => rfl
  rw [macaddrAdd, hnic, houi]
  simp only [Option.getD_some, List.reverse_reverse, hexValue_format hlow]
  rw [toNat_nic, printfX_eq (by decide) hsum, threePairs_digits, hoctets]
  simp [format_cons, format_singleton]

theorem take_eight {a b c : Nat} (ha : a < 256) (hb : b < 256) (hc : c < 256) {l : List Nat}
    (hl : l ≠ []) : (format (a :: b :: c :: l)).take 8 = format [a, b, c] := by
  obtain ⟨o, l, rfl⟩ := List.exists_cons_of_ne_nil hl
  simp only [format_cons, format_singleton, printfX_eq Nat.two_pos (show a < 16 ^ 2 from ha), printfX_eq Nat.two_pos (show b < 16 ^ 2 from hb),
    printfX_eq Nat.two_pos (show c < 16 ^ 2 from hc)]
  rfl

/-- The sums of an address: the last three octets are a number modulo `2 ^ 24`. -/
theorem macaddrAdd_sums {m : Text} (hm : Canonical m) :
    (∀ a b, macaddrAdd (macaddrAdd m a) b = macaddrAdd m (a + b)) ∧ macaddrAdd m 0 = m ∧
      ∀ a, Canonical (macaddrAdd m a) ∧ (macaddrAdd m a).take 8 = m.take 8 := by
  obtain ⟨l, hlen, hl, rfl⟩ := hm
  obtain ⟨a, b, c, d, e, f, rfl⟩ : ∃ a b c d e f, l = [a, b, c, d, e, f] := by
    match l, hlen with
    | [a, b, c, d, e, f], _ => exact ⟨a, b, c, d, e, f, rfl⟩
  have hlow : ∀ o ∈ [d, e, f], o < 256 := fun o ho => hl o (by simp only [List.mem_cons] at ho ⊢; tauto)
  have hn := number_three hlow
  have hoctets : ∀ n, ∀ o ∈ a :: b :: c :: octetsOf 3 n, o < 256 := fun n o ho => by
    simp only [List.mem_cons] at ho
    rcases ho with rfl | rfl | rfl | ho
    · exact hl _ (by simp)
    · exact hl _ (by simp)
    · exact hl _ (by simp)
    · exact octetsOf_lt ho
  refine ⟨fun x y => ?_, ?_, fun x => ⟨⟨_, ?_, hoctets _, macaddrAdd_format hl x⟩, ?_⟩⟩
  · have hsum : (number (octetsOf 3 ((number [d, e, f] + x.toNat) % 2 ^ 24)) + y.toNat) % 2 ^ 24 =
        (number [d, e, f] + (x + y).toNat) % 2 ^ 24 := by
      have hlt : (number [d, e, f] + x.toNat) % 2 ^ 24 < 256 ^ 3 := Nat.mod_lt _ (by decide)
      rw [number_octetsOf hlt, BitVec.toNat_add]
      omega
    rw [macaddrAdd_format hl, macaddrAdd_format hl]
    exact (macaddrAdd_format (hoctets _) y).trans (by rw [← hsum]; rfl)
  · have h0 : octetsOf 3 (number [d, e, f]) = [d, e, f] := octetsOf_number hlow
    have hzero : (0 : Arith).toNat = 0 := rfl
    rw [macaddrAdd_format hl, hzero, Nat.add_zero, Nat.mod_eq_of_lt hn, h0]
  · simp
  · rw [macaddrAdd_format hl, take_eight (hl a (by simp)) (hl b (by simp)) (hl c (by simp)) (List.cons_ne_nil d [e, f]),
      take_eight (hl a (by simp)) (hl b (by simp)) (hl c (by simp)) (List.ne_nil_of_length_eq_add_one (length_octetsOf 3 _))]

/-! ### Bits -/

theorem pairs_flatMap (l : List Nat) : pairs (l.flatMap (digits 2)) = l.flatMap fun o => digits 2 o ++ [':'] := by
  induction l with
  | nil => rfl
  | cons o l ih =>
    rw [List.flatMap_cons, List.flatMap_cons, ← ih]
    rfl

theorem dropColon_append (s : Text) : dropColon (s ++ [':']) = s := by
  simp [dropColon]

theorem flatMap_colon : ∀ {l : List Nat}, l ≠ [] → (l.flatMap fun o => digits 2 o ++ [':']) = [':'].intercalate (l.map (digits 2)) ++ [':']
  | [o], _ => by simp
  | o :: o' :: l, _ => by
    have ih := flatMap_colon (List.cons_ne_nil o' l)
    rw [List.map_cons] at ih
    rw [List.flatMap_cons, ih, List.map_cons, List.map_cons, List.intercalate_cons_cons]
    simp

/-- What `sed` makes of the digits of an address. -/
theorem address_twelve {n : Nat} (hn : n < 2 ^ 48) : dropColon (pairs (printfX 12 n)) = format (octetsOf 6 n) := by
  rw [printfX_eq (by decide) (show n < 16 ^ 12 from hn), digits_octets 6, pairs_flatMap, flatMap_colon, dropColon_append, format,
    map_printfX fun o ho => octetsOf_lt ho]
  exact List.ne_nil_of_length_eq_add_one (length_octetsOf 6 n)

/-- Bit `j` of an address, counted from the most significant one, which is bit 1. -/
def bitAt (m : Text) (j : Nat) : Bool := (hexValue (m.filter (· ≠ ':'))).testBit (48 - j)

theorem bitAt_address {n : Nat} (hn : n < 2 ^ 48) (j : Nat) : bitAt (format (octetsOf 6 n)) j = n.testBit (48 - j) := by
  rw [bitAt, hexValue_format fun o ho => octetsOf_lt ho, number_octetsOf hn]

theorem canonical_address (n : Nat) : Canonical (format (octetsOf 6 n)) :=
  ⟨_, length_octetsOf 6 n, fun _ ho => octetsOf_lt ho, rfl⟩

theorem Canonical.address {m : Text} (hm : Canonical m) : ∃ n < 2 ^ 48, m = format (octetsOf 6 n) ∧ hexValue (m.filter (· ≠ ':')) = n := by
  obtain ⟨l, hlen, hl, rfl⟩ := hm
  have hlt := number_lt hl
  rw [hlen] at hlt
  refine ⟨number l, hlt, ?_, hexValue_format hl⟩
  rw [← hlen, octetsOf_number hl]

section
variable {m : Text} {bit : Nat}

theorem macaddrSetbit_bits (hm : Canonical m) (h1 : 1 ≤ bit) (h48 : bit ≤ 48) :
    Canonical (macaddrSetbit m bit) ∧ ∀ j, 1 ≤ j → j ≤ 48 → bitAt (macaddrSetbit m bit) j = (j = bit || bitAt m j) := by
  obtain ⟨n, hn, hm, hvalue⟩ := hm.address
  have hpow : 2 ^ (48 - bit) < 2 ^ 48 := Nat.pow_lt_pow_right (by decide) (by omega)
  have hor : n ||| 2 ^ (48 - bit) < 2 ^ 48 := Nat.or_lt_two_pow hn hpow
  have hnat : ((.ofNat 64 n ||| .ofNat 64 (2 ^ (48 - bit)) : Arith)).toNat = n ||| 2 ^ (48 - bit) := by
    rw [BitVec.toNat_or, BitVec.toNat_ofNat, BitVec.toNat_ofNat, Nat.mod_eq_of_lt (by omega), Nat.mod_eq_of_lt (by omega)]
  have hset : macaddrSetbit m bit = format (octetsOf 6 (n ||| 2 ^ (48 - bit))) := by
    have hsub : (48 - (bit : Int)).toNat = 48 - bit := by omega
    rw [macaddrSetbit, if_pos (by omega), hvalue, hsub, hnat, address_twelve hor]
  rw [hset]
  refine ⟨canonical_address _, fun j hj1 hj => ?_⟩
  have hsame : (48 - bit = 48 - j) = (j = bit) := by
    rw [eq_iff_iff]
    omega
  rw [bitAt_address hor, bitAt, hvalue, Nat.testBit_or, Nat.testBit_two_pow, Bool.or_comm]
  simp only [hsame]

theorem macaddrUnsetbit_bits (hm : Canonical m) (h1 : 1 ≤ bit) (h48 : bit ≤ 48) :
    Canonical (macaddrUnsetbit m bit) ∧ ∀ j, 1 ≤ j → j ≤ 48 → bitAt (macaddrUnsetbit m bit) j = (j ≠ bit && bitAt m j) := by
  obtain ⟨n, hn, hm, hvalue⟩ := hm.address
  have hand : (.ofNat 64 n &&& ~~~(.ofNat 64 (2 ^ (48 - bit))) : Arith).toNat < 2 ^ 48 := by
    rw [BitVec.toNat_and, BitVec.toNat_ofNat, Nat.mod_eq_of_lt (by omega)]
    exact Nat.lt_of_le_of_lt Nat.and_le_left hn
  have hset : macaddrUnsetbit m bit = format (octetsOf 6 (.ofNat 64 n &&& ~~~(.ofNat 64 (2 ^ (48 - bit))) : Arith).toNat) := by
    have hsub : (48 - (bit : Int)).toNat = 48 - bit := by omega
    rw [macaddrUnsetbit, if_pos (by omega), hvalue, hsub, address_twelve hand]
  rw [hset]
  refine ⟨canonical_address _, fun j hj1 hj => ?_⟩
  have hsame : (48 - bit = 48 - j) = (j = bit) := by
    rw [eq_iff_iff]
    omega
  have h64 : 48 - j < 64 := by omega
  rw [bitAt_address hand, bitAt, hvalue, BitVec.testBit_toNat, BitVec.getLsbD_and, BitVec.getLsbD_not, BitVec.getLsbD_ofNat,
    BitVec.getLsbD_ofNat, Nat.testBit_two_pow, Bool.and_comm]
  simp [hsame, h64]

end

end RainWrt.BaseFiles
