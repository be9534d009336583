import RainWrt.Wifi.Macaddr

/-! The addresses that a phy makes: which are well-formed, which are sums, and which are different. -/

namespace RainWrt.Wifi.Mac

/-! ### Texts of addresses -/

theorem hexDigit_digitChar : ∀ n < 16, hexDigit n.digitChar = n := by decide

theorem hexDigit_zero : hexDigit '0' = 0 := rfl

theorem digitChar_ne_colon : ∀ n < 16, n.digitChar ≠ ':' := by decide

theorem hex_append (s : Text) (c : Char) : hex (s ++ [c]) = 16 * hex s + hexDigit c := by
  rw [hex, List.foldl_append]
  rfl

theorem hex_toDigits (n : Nat) : hex (Nat.toDigits 16 n) = n := by
  induction n using Nat.strongRecOn with
  | ind n ih =>
    rw [Nat.toDigits_eq_if (by decide)]
    split_ifs with hn
    · simp [hex, hexDigit_digitChar n hn]
    · rw [hex_append, ih (n / 16) (by omega), hexDigit_digitChar _ (Nat.mod_lt n (by decide))]
      omega

theorem colon_not_mem_toDigits (n : Nat) : ':' ∉ Nat.toDigits 16 n := by
  induction n using Nat.strongRecOn with
  | ind n ih =>
    rw [Nat.toDigits_eq_if (by decide)]
    split_ifs with hn
    · simp [(digitChar_ne_colon n hn).symm]
    · have hlast := digitChar_ne_colon (n % 16) (Nat.mod_lt n (by decide))
      simp [ih (n / 16) (by omega), hlast.symm]

theorem hex_hex02 (n : Nat) : hex (hex02 n) = n := by
  unfold hex02
  split_ifs with hn
  · simp [hex, hexDigit_digitChar n hn, hexDigit_zero]
  · exact hex_toDigits n

theorem colon_not_mem_hex02 (n : Nat) : ':' ∉ hex02 n := by
  unfold hex02
  split_ifs with hn
  · simp [(digitChar_ne_colon n hn).symm]
  · exact colon_not_mem_toDigits n

/-- What is joined is split again. -/
theorem split_join {addr : List Nat} (h : addr ≠ []) : macaddrSplit (macaddrJoin addr) = addr := by
  have hsplit : (macaddrJoin addr).splitOn ':' = addr.map hex02 := by
    refine List.splitOn_intercalate ':' (fun l hl => ?_) (by simpa using h)
    obtain ⟨n, -, rfl⟩ := List.mem_map.mp hl
    exact colon_not_mem_hex02 n
  rw [macaddrSplit, hsplit, List.map_map]
  exact (List.map_congr_left fun n _ => hex_hex02 n).trans (List.map_id addr)

def IsHexDigit (c : Char) : Prop := c ∈ "0123456789abcdefABCDEF".toList

/-- Two digits in hexadecimal, in any case. -/
def IsOctet (f : Text) : Prop := ∃ a b, f = [a, b] ∧ IsHexDigit a ∧ IsHexDigit b

/-- Six octets. -/
def IsMac (t : Text) : Prop := ∃ fs : List Text, fs.length = 6 ∧ (∀ f ∈ fs, IsOctet f) ∧ t = [':'].intercalate fs

theorem hexDigit_lt : ∀ c ∈ "0123456789abcdefABCDEF".toList, hexDigit c < 16 ∧ c ≠ ':' := by
  have h : "0123456789abcdefABCDEF".toList.all (fun c => hexDigit c < 16 ∧ c ≠ ':') = true := by decide
  exact fun c hc => of_decide_eq_true (List.all_eq_true.mp h c hc)

theorem isHexDigit_digitChar : ∀ n < 16, n.digitChar ∈ "0123456789abcdefABCDEF".toList := by decide

theorem IsOctet.hex_lt {f : Text} (h : IsOctet f) : hex f < 256 ∧ ':' ∉ f := by
  obtain ⟨a, b, rfl, ha, hb⟩ := h
  obtain ⟨halt, hane⟩ := hexDigit_lt a ha
  obtain ⟨hblt, hbne⟩ := hexDigit_lt b hb
  refine ⟨?_, by simp [hane.symm, hbne.symm]⟩
  simp only [hex, List.foldl_cons, List.foldl_nil]
  omega

theorem isOctet_hex02 {n : Nat} (h : n < 256) : IsOctet (hex02 n) := by
  unfold hex02
  split_ifs with hn
  · exact ⟨_, _, rfl, isHexDigit_digitChar 0 (by omega), isHexDigit_digitChar n hn⟩
  · rw [Nat.toDigits_eq_if (by decide), if_neg hn, Nat.toDigits_of_lt_base (by omega)]
    exact ⟨_, _, rfl, isHexDigit_digitChar _ (by omega), isHexDigit_digitChar _ (by omega)⟩

theorem IsMac.split {t : Text} (h : IsMac t) : (macaddrSplit t).length = 6 ∧ ∀ x ∈ macaddrSplit t, x < 256 := by
  obtain ⟨fs, hlen, hfs, rfl⟩ := h
  have hsplit : ([':'].intercalate fs).splitOn ':' = fs :=
    List.splitOn_intercalate ':' (fun f hf => (hfs f hf).hex_lt.2) (by rintro rfl; cases hlen)
  rw [macaddrSplit, hsplit, List.length_map]
  refine ⟨hlen, fun x hx => ?_⟩
  obtain ⟨f, hf, rfl⟩ := List.mem_map.mp hx
  exact (hfs f hf).hex_lt.1

theorem isMac_join {addr : List Nat} (hlen : addr.length = 6) : IsMac (macaddrJoin addr) ↔ ∀ x ∈ addr, x < 256 := by
  have hne : addr ≠ [] := by rintro rfl; cases hlen
  constructor
  · intro h
    have := h.split.2
    rwa [split_join hne] at this
  · intro h
    refine ⟨addr.map hex02, by rw [List.length_map, hlen], fun f hf => ?_, rfl⟩
    obtain ⟨n, hn, rfl⟩ := List.mem_map.mp hf
    exact isOctet_hex02 (h n hn)

/-- The octets of an address. -/
theorem IsMac.octets {t : Text} (h : IsMac t) : ∃ a0 a1 a2 a3 a4 a5, macaddrSplit t = [a0, a1, a2, a3, a4, a5] ∧
    a0 < 256 ∧ a1 < 256 ∧ a2 < 256 ∧ a3 < 256 ∧ a4 < 256 ∧ a5 < 256 := by
  obtain ⟨hlen, hlt⟩ := h.split
  match hsplit : macaddrSplit t, hlen with
  | [a0, a1, a2, a3, a4, a5], _ =>
    rw [hsplit] at hlt
    simp only [List.mem_cons, List.not_mem_nil, or_false, forall_eq_or_imp, forall_eq] at hlt
    exact ⟨a0, a1, a2, a3, a4, a5, rfl, hlt⟩

/-! ### The octets of what is derived -/

theorem xor_lt_iff {n x y : Nat} (hx : x < 2 ^ n) : x ^^^ y < 2 ^ n ↔ y < 2 ^ n := by
  refine ⟨fun h => ?_, Nat.xor_lt_two_pow hx⟩
  have hy := Nat.xor_lt_two_pow hx h
  rwa [← Nat.xor_assoc, Nat.xor_self, Nat.zero_xor] at hy

theorem or_two_lt {a : Nat} (h : a < 256) : a ||| 2 < 256 := Nat.or_lt_two_pow (n := 8) h (by decide)

theorem or_two_mod (a : Nat) : (a ||| 2) % 2 = a % 2 := by
  have h := @Nat.or_mod_two_eq_one a 2
  omega

theorem xor_shift_mod (a k : Nat) : (a ^^^ k <<< 2) % 2 = a % 2 := by
  have h := @Nat.xor_mod_two_eq_one a (k <<< 2)
  rw [Nat.shiftLeft_eq] at h ⊢
  omega

theorem xor_shift_inj {a k l : Nat} (h : a ^^^ k <<< 2 = a ^^^ l <<< 2) : k = l := by
  have hkl := Nat.xor_right_injective h
  simpa [Nat.shiftLeft_eq] using hkl

theorem or_two_eq {a : Nat} (h : a.testBit 1) : a ||| 2 = a := by
  refine Nat.eq_of_testBit_eq fun i => ?_
  rw [Nat.testBit_or, show (2 : Nat) = 2 ^ 1 from rfl, Nat.testBit_two_pow]
  rcases eq_or_ne 1 i with rfl | hi
  · simp [h]
  · simp [hi]

theorem testBit_two : Nat.testBit 2 1 = true := rfl

/-- The field of the first octet sets the local bit or changes another one. -/
theorem b1_ne {a k : Nat} (hk : a &&& 2 ≠ 0 → k ≠ 0) : (a ||| 2) ^^^ k <<< 2 ≠ a := by
  intro h
  have hbit := congrArg (Nat.testBit · 1) h
  have hone : a.testBit 1 := by simpa [testBit_two] using hbit.symm
  rw [or_two_eq hone] at h
  have hzero : k = 0 := by
    refine xor_shift_inj (a := a) ?_
    simpa using h
  refine hk (fun hand => ?_) hzero
  have hfalse := congrArg (Nat.testBit · 1) hand
  simp [hone, testBit_two] at hfalse

/-- Where the additive type comes out with the sum: the carry `c` into the octets, against the index that the loop adds. -/
def Carried (idx : Nat) : (c : Nat) → List Nat → Prop
  | _, [] => True
  | c, a :: l =>
    c % 256 = idx % 256 ∧
      if a + idx < 256 then (a + c) / 256 % 256 ^ l.length = 0 else Carried idx ((a + c) / 256) l

/-- The value of octets, from the last one up. -/
def value : List Nat → Nat
  | [] => 0
  | a :: l => a + 256 * value l

/-- The loop of the additive type over the octets from the last one up. -/
def addUp (idx : Nat) : List Nat → List Nat
  | [] => []
  | a :: l => if a + idx < 256 then (a + idx) :: l else ((a + idx) % 256) :: addUp idx l

theorem value_lt {l : List Nat} (h : ∀ x ∈ l, x < 256) : value l < 256 ^ l.length := by
  induction l with
  | nil => simp [value]
  | cons a l ih =>
    have ha := h a (by simp)
    have hl := ih fun x hx => h x (by simp [hx])
    simp only [value, List.length_cons, pow_succ]
    omega

theorem add_mod_eq_self {v k p : Nat} (h : v < p) : (v + k) % p = v ↔ k % p = 0 := by
  constructor
  · intro hmod
    have hdiv := Nat.div_add_mod (v + k) p
    have hk : k = p * ((v + k) / p) := by omega
    rw [hk, Nat.mul_mod_right]
  · intro hk
    rw [Nat.add_mod, hk, Nat.add_zero, Nat.mod_mod, Nat.mod_eq_of_lt h]

theorem addUp_eq_iff (idx : Nat) {l : List Nat} (h : ∀ x ∈ l, x < 256) (c : Nat) :
    value (addUp idx l) = (value l + c) % 256 ^ l.length ↔ Carried idx c l := by
  induction l generalizing c with
  | nil => simp [value, addUp, Carried, Nat.mod_one]
  | cons a l ih =>
    have ha := h a (by simp)
    have hl : ∀ x ∈ l, x < 256 := fun x hx => h x (List.mem_cons_of_mem a hx)
    have hvl := value_lt hl
    have hsum : (value (a :: l) + c) % 256 ^ (a :: l).length =
        (a + c) % 256 + 256 * ((value l + (a + c) / 256) % 256 ^ l.length) := by
      have hval : value (a :: l) + c = (a + c) % 256 + 256 * (value l + (a + c) / 256) := by
        simp only [value]
        omega
      rw [hval, List.length_cons, pow_succ, Nat.mul_comm (256 ^ l.length), Nat.mod_mul]
      congr 1
      · omega
      · congr 2
        omega
    have hcarry := add_mod_eq_self (k := (a + c) / 256) hvl
    have hrest := ih hl ((a + c) / 256)
    rw [hsum, Carried, addUp]
    split_ifs with hlt
    · rw [← hcarry, value]
      omega
    · rw [value, ← hrest]
      omega

theorem addUp_length (idx : Nat) (l : List Nat) : (addUp idx l).length = l.length := by
  induction l with
  | nil => rfl
  | cons a l ih =>
    rw [addUp]
    split_ifs <;> simp [ih]

theorem addUp_lt (idx : Nat) {l : List Nat} (h : ∀ x ∈ l, x < 256) : ∀ x ∈ addUp idx l, x < 256 := by
  induction l with
  | nil => simp [addUp]
  | cons a l ih =>
    have hl : ∀ x ∈ l, x < 256 := fun x hx => h x (List.mem_cons_of_mem a hx)
    rw [addUp]
    split_ifs with hlt
    · simpa [hlt] using hl
    · simpa [Nat.mod_lt] using ih hl

theorem addFrom_eq (idx a0 : Nat) (l s : List Nat) :
    Phy.addFrom idx l.length (a0 :: (l.reverse ++ s)) = a0 :: ((addUp idx l).reverse ++ s) := by
  induction l generalizing s with
  | nil => rfl
  | cons a l ih =>
    have hget : (a0 :: ((a :: l).reverse ++ s)).getD (l.length + 1) 0 = a := by simp
    have hset (v : Nat) : (a0 :: ((a :: l).reverse ++ s)).set (l.length + 1) v = a0 :: (l.reverse ++ v :: s) := by simp
    rw [List.length_cons, Phy.addFrom, hget, hset, hset, addUp]
    split_ifs with hlt
    · simp
    · rw [ih]
      simp

/-! ### What a recipe gives -/

namespace Phy

/-- The files and the base address hold addresses. -/
structure Sysfs (phy : Phy) (data : MacaddrOptions) : Prop where
  macaddress : ∀ t ∈ phy.macaddress, IsMac t
  addressMask : ∀ t ∈ phy.addressMask, IsMac t
  addresses : ∀ t ∈ phy.addresses, IsMac t
  base : ∀ t ∈ data.macaddrBase, IsMac t

/-- A unicast address in its text form. -/
def WellFormed (t : Text) : Prop := IsMac t ∧ (macaddrSplit t).getD 0 0 % 2 = 0

/-- The low five octets as an integer. -/
def low (addr : List Nat) : Nat := value addr.tail.reverse

namespace Recipe

def addr : Recipe → Text
  | copy addr => addr
  | derive _ _ _ addr => addr

/-- The address is unicast, and the index fits into the field that it goes to. -/
def Fits (r : Recipe) : Prop :=
  let a0 := (macaddrSplit r.addr).getD 0 0
  a0 % 2 = 0 ∧ match r with
    | copy _ => True
    | derive .b1 _ idx _ => (if a0 &&& 2 = 0 then idx - 1 else idx) < 64
    | derive .b5 _ idx _ => idx < 256
    | derive .add _ _ _ => True

/-- The additive type gives the sum. -/
def Sums : Recipe → Prop
  | derive .add mbssid idx addr =>
    let t := text (derive .add mbssid idx addr)
    low (macaddrSplit t) = (low (macaddrSplit addr) + idx) % 2 ^ 40 ∧
      (macaddrSplit t).getD 0 0 = (macaddrSplit addr).getD 0 0
  | _ => True

/-- The carry of the additive type is right. -/
def Carries : Recipe → Prop
  | derive .add _ idx addr => Carried idx idx (macaddrSplit addr).tail.reverse
  | _ => True

end Recipe

theorem derive_add (mbssid : Bool) (idx a0 a1 a2 a3 a4 a5 : Nat) :
    Phy.derive .add mbssid idx [a0, a1, a2, a3, a4, a5] = a0 :: (addUp idx [a5, a4, a3, a2, a1]).reverse := by
  simpa [Phy.derive] using addFrom_eq idx a0 [a5, a4, a3, a2, a1] []

theorem derive_length (type : MacType) (mbssid : Bool) (idx a0 a1 a2 a3 a4 a5 : Nat) :
    (Phy.derive type mbssid idx [a0, a1, a2, a3, a4, a5]).length = 6 := by
  cases type with
  | b1 => simp [Phy.derive]
  | b5 => cases mbssid <;> simp [Phy.derive]
  | add => simp [derive_add, addUp_length]

/-- The octets of a derived address. -/
theorem split_text (type : MacType) (mbssid : Bool) (idx : Nat) {addr : Text} (h : IsMac addr) :
    macaddrSplit (Recipe.derive type mbssid idx addr).text = Phy.derive type mbssid idx (macaddrSplit addr) := by
  obtain ⟨a0, a1, a2, a3, a4, a5, hsplit, -⟩ := h.octets
  refine split_join fun hnil => ?_
  have hlen := derive_length type mbssid idx a0 a1 a2 a3 a4 a5
  rw [← hsplit, hnil] at hlen
  cases hlen

theorem isMac_text (type : MacType) (mbssid : Bool) (idx : Nat) {addr : Text} (h : IsMac addr) :
    IsMac (Recipe.derive type mbssid idx addr).text ↔ ∀ x ∈ Phy.derive type mbssid idx (macaddrSplit addr), x < 256 := by
  obtain ⟨a0, a1, a2, a3, a4, a5, hsplit, -⟩ := h.octets
  refine isMac_join ?_
  rw [hsplit]
  exact derive_length type mbssid idx a0 a1 a2 a3 a4 a5

theorem wellFormed_iff {r : Recipe} (h : IsMac r.addr) : WellFormed r.text ↔ r.Fits := by
  cases r with
  | copy addr =>
    have haddr : IsMac addr := h
    simp [WellFormed, Recipe.Fits, Recipe.text, Recipe.addr, haddr]
  | derive type mbssid idx addr =>
    have haddr : IsMac addr := h
    obtain ⟨a0, a1, a2, a3, a4, a5, hsplit, h0, h1, h2, h3, h4, h5⟩ := haddr.octets
    rw [WellFormed, isMac_text type mbssid idx haddr, split_text type mbssid idx haddr, hsplit]
    have hor := or_two_lt h0
    have hormod := or_two_mod a0
    cases type with
    | b1 =>
      simp only [Phy.derive, Recipe.Fits, Recipe.addr, hsplit, List.getD_cons_zero, List.set_cons_zero]
      generalize (if a0 &&& 2 = 0 then idx - 1 else idx) = k
      have hmod : ((a0 ||| 2) ^^^ k <<< 2) % 2 = a0 % 2 := (xor_shift_mod _ k).trans hormod
      have hlt : (a0 ||| 2) ^^^ k <<< 2 < 256 ↔ k < 64 := by
        refine (xor_lt_iff (n := 8) hor).trans ?_
        rw [Nat.shiftLeft_eq]
        omega
      generalize (a0 ||| 2) ^^^ k <<< 2 = v at hmod hlt
      simp [hmod, hlt, h1, h2, h3, h4, h5, and_comm]
    | b5 =>
      have hlt : a5 ^^^ idx < 256 ↔ idx < 256 := xor_lt_iff (n := 8) h5
      cases mbssid <;>
        simp [Recipe.Fits, Recipe.addr, hsplit, Phy.derive, hlt, hor, hormod, h0, h1, h2, h3, h4, and_comm]
    | add =>
      have hup := addUp_lt idx (l := [a5, a4, a3, a2, a1]) (by simp [h1, h2, h3, h4, h5])
      have hall : ∀ x ∈ a0 :: (addUp idx [a5, a4, a3, a2, a1]).reverse, x < 256 := by simpa [h0] using hup
      simp only [Recipe.Fits, Recipe.addr, hsplit, derive_add, List.getD_cons_zero, and_true]
      exact and_iff_right hall

theorem sums_iff {r : Recipe} (h : IsMac r.addr) : r.Sums ↔ r.Carries := by
  cases r with
  | copy addr => rfl
  | derive type mbssid idx addr =>
    have haddr : IsMac addr := h
    obtain ⟨a0, a1, a2, a3, a4, a5, hsplit, h0, h1, h2, h3, h4, h5⟩ := haddr.octets
    cases type with
    | b1 => rfl
    | b5 => rfl
    | add =>
      have hup := addUp_eq_iff idx (l := [a5, a4, a3, a2, a1]) (by simp [h1, h2, h3, h4, h5]) idx
      simp only [Recipe.Sums, Recipe.Carries, split_text .add mbssid idx haddr, hsplit, derive_add, low]
      simpa using hup

theorem recipeFrom_addr (data : MacaddrOptions) (m : Text) (id : Nat) (addr : Text) (idx : Nat) :
    (recipeFrom data m id addr idx).addr = addr := by
  dsimp only [recipeFrom]
  split <;> rfl

/-- The address that a recipe starts from is one of the files or of the configuration. -/
theorem isMac_recipe {phy : Phy} {data : MacaddrOptions} {id : Nat} {r : Recipe} (h : phy.Sysfs data)
    (hr : phy.recipe data id = some r) : IsMac r.addr := by
  unfold recipe at hr
  split at hr
  case h_2 => cases hr
  case h_1 baseAddr baseMask hbase hmask =>
    have haddr : IsMac baseAddr := h.macaddress baseAddr hbase
    have hlist (i : Nat) (hi : i < phy.addresses.length) : IsMac (phy.addresses.getD i []) := by
      rw [List.getD_eq_getElem _ _ hi]
      exact h.addresses _ (List.getElem_mem hi)
    have hfrom {addr : Text} {idx : Nat} (hr : some (recipeFrom data (mask baseMask) id addr idx) = some r)
        (ha : IsMac addr) : IsMac r.addr := by
      obtain rfl := Option.some.inj hr
      rwa [recipeFrom_addr]
    dsimp only at hr
    split at hr
    case h_1 addr hmac => exact hfrom hr (h.base addr hmac)
    case h_2 =>
      split at hr
      case isFalse => exact hfrom hr haddr
      case isTrue =>
        split at hr
        · split at hr
          case isTrue hradio => exact hfrom hr (hlist _ hradio.2)
          case isFalse => exact hfrom hr haddr
        · split at hr
          case isTrue hid =>
            obtain rfl := Option.some.inj hr
            exact hlist id hid
          case isFalse => exact hfrom hr haddr

/-! ### Different addresses -/

/-- A phy without an address list, whose file then holds its own address. -/
def Bare (phy : Phy) : Prop := phy.addresses = [] ∨ phy.addresses = phy.macaddress.toList

/-- What the radio adds to an identifier. -/
def offset (phy : Phy) (data : MacaddrOptions) (baseMask : Text) : Nat :=
  if data.macaddrBase = none ∧ baseMask = noMask then 16 * phy.radio.getD 0 else 0

/-- The recipe of a phy without an address list. -/
theorem recipe_bare {phy : Phy} {data : MacaddrOptions} {b m : Text} (id : Nat) (h : phy.Bare) (hb : phy.macaddress = some b)
    (hm : phy.addressMask = some m) :
    phy.recipe data id = some (recipeFrom data (mask m) id (data.macaddrBase.getD b) (id + phy.offset data (mask m))) ∨
      (phy.recipe data id = some (.copy b) ∧ id = 0 ∧ data.macaddrBase = none ∧ phy.offset data (mask m) = 0) := by
  have hlen : phy.addresses.length ≤ 1 := by
    rcases h with h | h
    · simp [h]
    · simp [h, hb]
  have hget : id < phy.addresses.length → phy.addresses.getD id [] = b := by
    intro hid
    have hzero : id = 0 := by omega
    rcases h with h | h
    · simp [h] at hid
    · simp [h, hb, hzero]
  have hmany : ¬ (1 < phy.addresses.length) := by omega
  unfold recipe offset
  simp only [hb, hm]
  cases hbase : data.macaddrBase with
  | some addr => simp
  | none =>
    by_cases hmask : mask m = noMask
    · cases hradio : phy.radio with
      | none =>
        by_cases hid : data.numGlobal ≤ id ∧ id < phy.addresses.length
        · right
          refine ⟨?_, by omega, rfl, by simp⟩
          simp only [hmask, true_and, hid.1, or_true, if_true, if_pos hid.2, hget hid.2]
        · left
          by_cases hglobal : data.numGlobal ≤ id
          · simp [hmask, hglobal, not_and.mp hid hglobal]
          · simp [hmask, hglobal]
      | some r =>
        left
        have hnone : ¬ (r ≠ 0 ∧ r < phy.addresses.length) := by omega
        simp only [Option.any_some, decide_eq_true_eq, hmask, true_and, if_neg hnone, Option.getD_none, Option.getD_some]
        split_ifs with h
        · rw [Nat.mul_comm]
        · have hzero : r = 0 := by omega
          simp [hzero]
    · simp [hmask]

end Phy

/-- The first octet of the loop is the sum without its carry. -/
theorem addUp_cons (idx a : Nat) (l : List Nat) : ∃ l', l'.length = l.length ∧ addUp idx (a :: l) = ((a + idx) % 256) :: l' := by
  rw [addUp]
  split_ifs with hlt
  · exact ⟨l, rfl, by rw [Nat.mod_eq_of_lt hlt]⟩
  · exact ⟨addUp idx l, addUp_length idx l, rfl⟩

namespace Phy

/-- The first octet is kept, and the last one is a sum, with the index added to the octet before it on an overflow. -/
def Plain (a : List Nat) (idx : Nat) (o : List Nat) : Prop :=
  o.getD 0 0 = a.getD 0 0 ∧ o.getD 5 0 = (a.getD 5 0 + idx) % 256 ∧
    (256 ≤ a.getD 5 0 + idx → o.getD 4 0 = (a.getD 4 0 + idx) % 256)

/-- The index is in the first octet. -/
def Local (a : List Nat) (idx : Nat) (o : List Nat) : Prop :=
  let a0 := a.getD 0 0
  0 < idx ∧ o.getD 0 0 = (a0 ||| 2) ^^^ (if a0 &&& 2 = 0 then idx - 1 else idx) <<< 2

/-- The index is in the last octet. -/
def Xored (a : List Nat) (idx : Nat) (o : List Nat) : Prop :=
  o.getD 5 0 = a.getD 5 0 ^^^ idx ∧ o.getD 4 0 = a.getD 4 0

theorem plain_copy {addr : Text} (h : IsMac addr) : Plain (macaddrSplit addr) 0 (macaddrSplit addr) := by
  obtain ⟨a0, a1, a2, a3, a4, a5, hsplit, -, -, -, -, -, h5⟩ := h.octets
  rw [hsplit]
  exact ⟨rfl, (Nat.mod_eq_of_lt h5).symm, fun hover => absurd hover (Nat.not_le.mpr h5)⟩

theorem plain_add {addr : Text} (mbssid : Bool) (idx : Nat) (h : IsMac addr) :
    Plain (macaddrSplit addr) idx (macaddrSplit (Recipe.derive .add mbssid idx addr).text) := by
  rw [split_text .add mbssid idx h]
  obtain ⟨a0, a1, a2, a3, a4, a5, hsplit, -⟩ := h.octets
  rw [hsplit, derive_add]
  by_cases hlt : a5 + idx < 256
  · refine ⟨rfl, ?_, fun hover => absurd hover (Nat.not_le.mpr hlt)⟩
    simp [addUp, hlt, Nat.mod_eq_of_lt hlt]
  · obtain ⟨l, hlen, hup⟩ := addUp_cons idx a4 [a3, a2, a1]
    have hthree : l.length = 3 := hlen
    rw [addUp, if_neg hlt, hup]
    refine ⟨rfl, ?_, fun _ => ?_⟩
    · simp [hthree]
    · simp [hthree]

theorem local_b1 {addr : Text} (mbssid : Bool) {idx : Nat} (h : IsMac addr) (hidx : 0 < idx) :
    Local (macaddrSplit addr) idx (macaddrSplit (Recipe.derive .b1 mbssid idx addr).text) := by
  rw [split_text .b1 mbssid idx h]
  obtain ⟨a0, a1, a2, a3, a4, a5, hsplit, -⟩ := h.octets
  rw [hsplit]
  exact ⟨hidx, rfl⟩

theorem xored_b5 {addr : Text} (mbssid : Bool) (idx : Nat) (h : IsMac addr) :
    Xored (macaddrSplit addr) idx (macaddrSplit (Recipe.derive .b5 mbssid idx addr).text) := by
  rw [split_text .b5 mbssid idx h]
  obtain ⟨a0, a1, a2, a3, a4, a5, hsplit, -⟩ := h.octets
  rw [hsplit]
  cases mbssid <;> exact ⟨rfl, rfl⟩

theorem xored_copy (a : List Nat) : Xored a 0 a := ⟨(Nat.xor_zero _).symm, rfl⟩

theorem Plain.ne {a o o' : List Nat} {i j off : Nat} (h : Plain a (i + off) o) (h' : Plain a (j + off) o') (hi : i < 32)
    (hj : j < 32) (hij : i ≠ j) : o ≠ o' := by
  rintro rfl
  have hlast := h.2.1.symm.trans h'.2.1
  omega

theorem Xored.ne {a o o' : List Nat} {i j : Nat} (h : Xored a i o) (h' : Xored a j o') (hij : i ≠ j) : o ≠ o' := by
  rintro rfl
  exact hij (Nat.xor_right_injective (h.1.symm.trans h'.1))

theorem Local.ne {a o o' : List Nat} {i j : Nat} (h : Local a i o) (h' : Local a j o') (hij : i ≠ j) : o ≠ o' := by
  rintro rfl
  have hfield := xor_shift_inj (h.2.symm.trans h'.2)
  have hi := h.1
  have hj := h'.1
  split_ifs at hfield <;> omega

theorem Local.ne_plain {a o o' : List Nat} {i j : Nat} (h : Local a i o) (h' : Plain a j o') : o ≠ o' := by
  rintro rfl
  refine b1_ne (fun hset => ?_) (h.2.symm.trans h'.1)
  rw [if_neg hset]
  exact h.1.ne'

theorem recipeFrom_mbssid {data : MacaddrOptions} (m : Text) (id : Nat) (addr : Text) (idx : Nat) (h : 0 < data.mbssid) :
    recipeFrom data m id addr idx = .derive .b5 true idx addr := by
  simp [recipeFrom, h, macType]

theorem recipeFrom_zero {data : MacaddrOptions} (m : Text) (id : Nat) (addr : Text) (h : ¬ 0 < data.mbssid) :
    recipeFrom data m id addr 0 = .copy addr := by
  simp [recipeFrom, h]

theorem recipeFrom_derive {data : MacaddrOptions} (m : Text) (id : Nat) (addr : Text) {idx : Nat} (h : ¬ 0 < data.mbssid)
    (hidx : idx ≠ 0) :
    recipeFrom data m id addr idx = .derive (macType false (decide ((id : Int) < data.numGlobal)) (macaddrSplit m)) false idx addr := by
  simp [recipeFrom, h, hidx]

/-- The kinds of addresses without a multiple BSSID, with what each needs of the mask and the identifier. -/
def Kind (data : MacaddrOptions) (mask : List Nat) (id idx : Nat) (a o : List Nat) : Prop :=
  (Plain a idx o ∧ (id < data.numGlobal ∨ idx = 0 ∨ (mask.getD 0 0 = 0 ∧ 255 ≤ mask.getD 5 0))) ∨
    (Local a idx o ∧ 0 < mask.getD 0 0) ∨
    (Xored a idx o ∧ mask.getD 0 0 = 0 ∧ mask.getD 5 0 < 255 ∧ data.numGlobal ≤ id ∧ idx ≠ 0)

theorem kind_recipeFrom {data : MacaddrOptions} (m : Text) (id : Nat) {addr : Text} (idx : Nat) (h : IsMac addr)
    (hbss : ¬ 0 < data.mbssid) :
    Kind data (macaddrSplit m) id idx (macaddrSplit addr) (macaddrSplit (recipeFrom data m id addr idx).text) := by
  rcases eq_or_ne idx 0 with rfl | hidx
  · rw [recipeFrom_zero m id addr hbss]
    exact .inl ⟨plain_copy h, .inr (.inl rfl)⟩
  · simp only [recipeFrom_derive m id addr hbss hidx, macType, Bool.false_eq_true, if_false, decide_eq_true_eq]
    split_ifs with hglobal hfirst hlast
    · exact .inl ⟨plain_add false idx h, .inl hglobal⟩
    · exact .inr (.inl ⟨local_b1 false h (Nat.pos_of_ne_zero hidx), hfirst⟩)
    · exact .inr (.inr ⟨xored_b5 false idx h, Nat.eq_zero_of_not_pos hfirst, hlast, Int.not_lt.mp hglobal, hidx⟩)
    · exact .inl ⟨plain_add false idx h, .inr (.inr ⟨Nat.eq_zero_of_not_pos hfirst, not_lt.mp hlast⟩)⟩

/-- Different identifiers give different addresses. -/
def Distinct (phy : Phy) (data : MacaddrOptions) : Prop :=
  ∀ i < 32, ∀ j < 32, i ≠ j → ∀ s ∈ phy.macaddrGenerate data i, ∀ t ∈ phy.macaddrGenerate data j, macaddrSplit s ≠ macaddrSplit t

/-- An address that was made for an identifier, without an address list. -/
theorem generate_bare {phy : Phy} {data : MacaddrOptions} {b m t : Text} {id : Nat} (h : phy.Bare) (hb : phy.macaddress = some b)
    (hm : phy.addressMask = some m) (ht : phy.macaddrGenerate data id = some t) :
    t = (recipeFrom data (mask m) id (data.macaddrBase.getD b) (id + phy.offset data (mask m))).text ∨
      (t = data.macaddrBase.getD b ∧ id = 0 ∧ phy.offset data (mask m) = 0) := by
  obtain ⟨r, hr, rfl⟩ := Option.map_eq_some_iff.mp ht
  rcases phy.recipe_bare id h hb hm with heq | ⟨heq, hid, hbase, hoff⟩
  · left
    rw [Option.some.inj (hr.symm.trans heq)]
  · right
    rw [Option.some.inj (hr.symm.trans heq), hbase]
    exact ⟨rfl, hid, hoff⟩

theorem generate_files {phy : Phy} {data : MacaddrOptions} {id : Nat} {t : Text} (ht : phy.macaddrGenerate data id = some t) :
    ∃ b m, phy.macaddress = some b ∧ phy.addressMask = some m := by
  obtain ⟨r, hr, -⟩ := Option.map_eq_some_iff.mp ht
  unfold recipe at hr
  split at hr
  case h_1 b m hb hm => exact ⟨b, m, hb, hm⟩
  case h_2 => cases hr

/-- A sum differs from a changed last octet, unless they meet. -/
theorem Plain.ne_xored {a o o' : List Nat} {i j : Nat} (h : Plain a i o) (h' : Xored a j o') (hi : i < 256)
    (ha : a.getD 4 0 < 256 ∧ a.getD 5 0 < 256) (hj : j ≠ 0) (hap : 0 < i → a.getD 5 0 + i ≠ a.getD 5 0 ^^^ j) : o ≠ o' := by
  rintro rfl
  have hlast := h.2.1.symm.trans h'.1
  have hover := h'.2.symm
  rcases Nat.eq_zero_or_pos i with rfl | hpos
  · refine hj (Nat.xor_right_injective (x := a.getD 5 0) ?_)
    rw [Nat.add_zero, Nat.mod_eq_of_lt ha.2] at hlast
    simpa using hlast.symm
  · have hne := hap hpos
    by_cases hlt : a.getD 5 0 + i < 256
    · rw [Nat.mod_eq_of_lt hlt] at hlast
      exact hne hlast
    · have hfour := hover.trans (h.2.2 (not_lt.mp hlt))
      omega

theorem kind_generate {phy : Phy} {data : MacaddrOptions} {b m t : Text} {id : Nat} (h : phy.Bare) (hb : phy.macaddress = some b)
    (hm : phy.addressMask = some m) (hbase : IsMac (data.macaddrBase.getD b)) (hbss : ¬ 0 < data.mbssid)
    (ht : phy.macaddrGenerate data id = some t) :
    Kind data (macaddrSplit (mask m)) id (id + phy.offset data (mask m)) (macaddrSplit (data.macaddrBase.getD b)) (macaddrSplit t) := by
  rcases generate_bare h hb hm ht with rfl | ⟨rfl, rfl, hoff⟩
  · exact kind_recipeFrom (mask m) id _ hbase hbss
  · rw [hoff]
    exact .inl ⟨plain_copy hbase, .inr (.inl rfl)⟩

/-- With a multiple BSSID, the index is in the last octet. -/
theorem xored_generate {phy : Phy} {data : MacaddrOptions} {b m t : Text} {id : Nat} (h : phy.Bare) (hb : phy.macaddress = some b)
    (hm : phy.addressMask = some m) (hbase : IsMac (data.macaddrBase.getD b)) (hbss : 0 < data.mbssid)
    (ht : phy.macaddrGenerate data id = some t) :
    Xored (macaddrSplit (data.macaddrBase.getD b)) (id + phy.offset data (mask m)) (macaddrSplit t) := by
  rcases generate_bare h hb hm ht with rfl | ⟨rfl, rfl, hoff⟩
  · rw [recipeFrom_mbssid (mask m) id _ _ hbss]
    exact xored_b5 true _ hbase
  · rw [hoff]
    exact xored_copy _

/-- The radio adds nothing where the last octet of the mask matters. -/
theorem offset_eq_zero (phy : Phy) (data : MacaddrOptions) {m : Text} (h : (macaddrSplit m).getD 0 0 = 0) : phy.offset data m = 0 := by
  refine if_neg fun hno => ?_
  rw [hno.2] at h
  exact absurd h (by decide)

theorem base_isMac {phy : Phy} {data : MacaddrOptions} {b : Text} (h : phy.Sysfs data) (hb : phy.macaddress = some b) :
    IsMac (data.macaddrBase.getD b) := by
  cases hbase : data.macaddrBase with
  | none => exact h.macaddress b hb
  | some addr => exact h.base addr hbase

/-- No sum of a global address meets a changed last octet. -/
def Meetless (data : MacaddrOptions) (mask a : List Nat) : Prop :=
  0 < mask.getD 0 0 ∨ 255 ≤ mask.getD 5 0 ∨
    ∀ i j : Nat, 0 < i → (i : Int) < data.numGlobal → data.numGlobal ≤ j → j < 32 → a.getD 5 0 + i ≠ a.getD 5 0 ^^^ j

/-- A sum and a changed last octet, where the octets do not meet. -/
theorem plain_xored_ne {data : MacaddrOptions} {mask a o o' : List Nat} {i j off : Nat} (hmeet : Meetless data mask a)
    (ha : a.getD 4 0 < 256 ∧ a.getD 5 0 < 256) (hoff : mask.getD 0 0 = 0 → off = 0) (hi : i < 32) (hj : j < 32)
    (hp : Plain a (i + off) o ∧ (i < data.numGlobal ∨ i + off = 0 ∨ (mask.getD 0 0 = 0 ∧ 255 ≤ mask.getD 5 0)))
    (hx : Xored a (j + off) o' ∧ mask.getD 0 0 = 0 ∧ mask.getD 5 0 < 255 ∧ data.numGlobal ≤ j ∧ j + off ≠ 0) : o ≠ o' := by
  obtain ⟨hplain, hglobal⟩ := hp
  obtain ⟨hxored, hfirst, hlast, hmany, hne⟩ := hx
  obtain rfl := hoff hfirst
  refine hplain.ne_xored hxored (by omega) ha hne fun hpos => ?_
  have hsum := (hmeet.resolve_left (by omega)).resolve_left (by omega)
  exact hsum i j hpos (by omega) hmany hj

theorem kind_ne {data : MacaddrOptions} {mask a o o' : List Nat} {i j off : Nat} (hmeet : Meetless data mask a)
    (ha : a.getD 4 0 < 256 ∧ a.getD 5 0 < 256) (hoff : mask.getD 0 0 = 0 → off = 0) (hi : i < 32) (hj : j < 32) (hij : i ≠ j)
    (hki : Kind data mask i (i + off) a o) (hkj : Kind data mask j (j + off) a o') : o ≠ o' := by
  rcases hki with hp | hl | hx <;> rcases hkj with hp' | hl' | hx'
  · exact hp.1.ne hp'.1 hi hj hij
  · exact (hl'.1.ne_plain hp.1).symm
  · exact plain_xored_ne hmeet ha hoff hi hj hp hx'
  · exact hl.1.ne_plain hp'.1
  · exact hl.1.ne hl'.1 (by omega)
  · exact absurd hx'.2.1 hl.2.ne'
  · exact (plain_xored_ne hmeet ha hoff hj hi hp' hx).symm
  · exact absurd hx.2.1 hl'.2.ne'
  · exact hx.1.ne hx'.1 (by omega)

/-- A phy whose sums do not meet its changed last octets. -/
def Apart (phy : Phy) (data : MacaddrOptions) : Prop :=
  0 < data.mbssid ∨ ∀ b ∈ phy.macaddress, ∀ m ∈ phy.addressMask,
    Meetless data (macaddrSplit (mask m)) (macaddrSplit (data.macaddrBase.getD b))

/-- Different indices of one kind give different addresses. -/
theorem distinct_of_apart {phy : Phy} {data : MacaddrOptions} (h : phy.Sysfs data) (hbare : phy.Bare) (hap : phy.Apart data) :
    phy.Distinct data := by
  intro i hi j hj hij s hs t ht
  obtain ⟨b, m, hb, hm⟩ := generate_files hs
  have hbase := base_isMac h hb
  rcases Classical.em (0 < data.mbssid) with hbss | hbss
  · have hxi := xored_generate hbare hb hm hbase hbss hs
    have hxj := xored_generate hbare hb hm hbase hbss ht
    exact hxi.ne hxj (by omega)
  · have hki := kind_generate hbare hb hm hbase hbss hs
    have hkj := kind_generate hbare hb hm hbase hbss ht
    have hmeet := (hap.resolve_left hbss) b hb m hm
    obtain ⟨a0, a1, a2, a3, a4, a5, hsplit, -, -, -, -, h4, h5⟩ := hbase.octets
    refine kind_ne hmeet ?_ (phy.offset_eq_zero data) hi hj hij hki hkj
    rw [hsplit]
    exact ⟨h4, h5⟩

/-- A sum that meets a changed last octet gives the address of another identifier. -/
theorem apart_of_distinct {phy : Phy} {data : MacaddrOptions} (h : phy.Sysfs data) (hbare : phy.Bare) (hd : phy.Distinct data) :
    phy.Apart data := by
  rcases Classical.em (0 < data.mbssid) with hbss | hbss
  · exact .inl hbss
  · refine .inr fun b hb m hm => ?_
    have hbase := base_isMac h hb
    rcases Nat.eq_zero_or_pos ((macaddrSplit (mask m)).getD 0 0) with hfirst | hfirst
    case inr => exact .inl hfirst
    rcases Nat.lt_or_ge ((macaddrSplit (mask m)).getD 5 0) 255 with hlast | hlast
    case inr => exact .inr (.inl hlast)
    refine .inr (.inr fun i j hpos hi hmany hj hmeet => ?_)
    have hoff := phy.offset_eq_zero data hfirst
    have hgen {id : Nat} (hid : 0 < id) :
        (recipeFrom data (mask m) id (data.macaddrBase.getD b) id).text ∈ phy.macaddrGenerate data id := by
      rcases phy.recipe_bare id hbare hb hm with heq | ⟨-, hzero, -⟩
      · rw [hoff, Nat.add_zero] at heq
        simp [macaddrGenerate, heq]
      · omega
    obtain ⟨a0, a1, a2, a3, a4, a5, hsplit, -, -, -, -, -, h5⟩ := hbase.octets
    have hjglobal : ¬ (j : Int) < data.numGlobal := Int.not_lt.mpr hmany
    rw [hsplit] at hmeet
    have hsum : a5 + i = a5 ^^^ j := hmeet
    have hlt : a5 ^^^ j < 256 := Nat.xor_lt_two_pow (n := 8) h5 (by omega)
    have hadd : macType false (decide ((i : Int) < data.numGlobal)) (macaddrSplit (mask m)) = .add := by
      simp [macType, hi]
    have hb5 : macType false (decide ((j : Int) < data.numGlobal)) (macaddrSplit (mask m)) = .b5 := by
      simp only [macType, hjglobal, hfirst, hlast, decide_false, Bool.false_eq_true, if_false, lt_irrefl, if_true]
    have hi' := recipeFrom_derive (mask m) i (data.macaddrBase.getD b) hbss hpos.ne'
    have hjpos : j ≠ 0 := by omega
    have hj' := recipeFrom_derive (mask m) j (data.macaddrBase.getD b) hbss hjpos
    refine hd i (by omega) j hj (by omega) _ (hgen hpos) _ (hgen (by omega)) ?_
    rw [hi', hj', hadd, hb5, split_text _ _ _ hbase, split_text _ _ _ hbase, hsplit, derive_add]
    simp [addUp, Phy.derive, hsum, hlt]

/-! ### The derivation -/

/-- Every address is a unicast address in its text form, the additive type gives sums, and without an address list
different identifiers have different addresses. -/
def Generates (phy : Phy) (data : MacaddrOptions) : Prop :=
  (∀ id < 32, ∀ t ∈ phy.macaddrGenerate data id, WellFormed t) ∧ (∀ id < 32, ∀ r ∈ phy.recipe data id, r.Sums) ∧
    (phy.Bare → phy.Distinct data)

/-- The derivation is right where every index fits into its field, the carries come out, and the sums meet no changed octet. -/
theorem generate_iff (phy : Phy) (data : MacaddrOptions) (h : phy.Sysfs data) :
    phy.Generates data ↔ (∀ id < 32, ∀ r ∈ phy.recipe data id, r.Fits ∧ r.Carries) ∧ (phy.Bare → phy.Apart data) := by
  have hbare : (phy.Bare → phy.Distinct data) ↔ (phy.Bare → phy.Apart data) :=
    forall_congr' fun hb => ⟨apart_of_distinct h hb, distinct_of_apart h hb⟩
  rw [Generates, hbare]
  constructor
  · rintro ⟨hform, hsums, hap⟩
    refine ⟨fun id hid r hr => ⟨?_, ?_⟩, hap⟩
    · exact (wellFormed_iff (isMac_recipe h hr)).mp (hform id hid r.text (Option.mem_map_of_mem _ hr))
    · exact (sums_iff (isMac_recipe h hr)).mp (hsums id hid r hr)
  · rintro ⟨hrec, hap⟩
    refine ⟨fun id hid t ht => ?_, fun id hid r hr => ?_, hap⟩
    · obtain ⟨r, hr, rfl⟩ := Option.map_eq_some_iff.mp ht
      exact (wellFormed_iff (isMac_recipe h hr)).mpr (hrec id hid r hr).1
    · exact (sums_iff (isMac_recipe h hr)).mpr (hrec id hid r hr).2

theorem isMac_of_octets {t : Text} (addr : List Nat) (hlen : addr.length = 6) (h : ∀ x ∈ addr, x < 256)
    (ht : t = macaddrJoin addr) : IsMac t := ht ▸ (isMac_join hlen).mpr h

/-- A phy whose last octet overflows. -/
def overflowing : Phy := { macaddress := some "00:11:22:33:44:ff".toList, addressMask := some "00:00:00:00:00:00".toList }

theorem overflowing_carry : ¬ overflowing.Generates { numGlobal := 3 } := by
  rintro ⟨-, hsums, -⟩
  have hcarry := hsums 2 (by decide) (.derive .add false 2 "00:11:22:33:44:ff".toList) rfl
  unfold Recipe.Sums at hcarry
  revert hcarry
  decide

/-- A phy of one address. -/
def single : Phy := { macaddress := some "00:11:22:33:44:55".toList, addressMask := some "00:00:00:00:00:00".toList }

theorem single_sysfs : single.Sysfs {} where
  macaddress := by
    rintro t ⟨rfl⟩
    exact isMac_of_octets [0, 0x11, 0x22, 0x33, 0x44, 0x55] rfl (by decide) rfl
  addressMask := by
    rintro t ⟨rfl⟩
    exact isMac_of_octets [0, 0, 0, 0, 0, 0] rfl (by decide) rfl
  addresses := by
    intro t ht
    cases ht
  base := by
    intro t ht
    cases ht

theorem generate_single : single.Generates {} ↔
    (∀ id < 32, ∀ r ∈ single.recipe {} id, r.Fits ∧ r.Carries) ∧ (single.Bare → single.Apart {}) :=
  generate_iff single {} single_sysfs

end Phy

end RainWrt.Wifi.Mac
