import RainWrt.BaseFiles.Bootconfig
import RainWrt.Theorems.BaseFiles.Canonicalize
import RainWrt.Theorems.BaseFiles.Ipv4
import RainWrt.Theorems.Lists

/-! The flags of `bootconfig.sh`: which entry a name selects, and what a change of its flag leaves. -/

namespace RainWrt.BaseFiles.Bootconfig

/-! ### Tables -/

/-- The entries that are searched. -/
def count (file : Bytes) : Nat := min (numparts file) maxNumParts

/-- A character of a name. -/
def isNameByte (c : UInt8) : Bool := 0x30 ≤ c && c ≤ 0x3a || 0x41 ≤ c && c ≤ 0x5a || c = 0x5f || 0x61 ≤ c && c ≤ 0x7a

/-- The whole name of an entry. -/
def entryName (file : Bytes) (i : Nat) : Text := text ((slice file (12 + i * partSize) nameSize).takeWhile (· ≠ 0))

/-- A table with different names, which are padded with NUL. -/
structure WellFormed (file : Bytes) : Prop where
  magic : validMagic file = true
  padded : ∀ i < count file, ∃ name : Bytes, name ≠ [] ∧ name.length ≤ nameSize ∧ (∀ c ∈ name, isNameByte c = true) ∧
    slice file (12 + i * partSize) nameSize = name ++ List.replicate (nameSize - name.length) 0
  distinct : ∀ i < count file, ∀ j < count file, entryName file i = entryName file j → i = j

/-- Entry `i` has the name `p`. -/
def Named (file : Bytes) (p : Text) (i : Nat) : Prop := i < count file ∧ entryName file i = p

/-- Entry `i` is the only one whose name begins with `w`, as far as it is compared. -/
def Sole (file : Bytes) (w : Text) (i : Nat) : Prop :=
  i < count file ∧ (entryName file i).take 12 = w ∧ ∀ j < count file, (entryName file j).take 12 = w → j = i

def IsValue (v : Text) : Prop := v = ['0'] ∨ v = ['1']

/-- What `_set_bootconfig_primaryboot` takes for the name and for the value. -/
def arg (sh : Shell) (p v : Text) (k : Nat) : Text := ((setArgs sh p v)[k]?).getD []

/-- An entry gets the value, and the rest of the file stays. Other names and values fail, and the file stays. -/
def Right (sh : Shell) (file : Bytes) (p v : Text) : Prop :=
  let r := setPrimaryboot sh file p v
  (∀ i, Named file p i → IsValue v → r.1 = true ∧ getPrimaryboot r.2 p = v ∧
    ∀ k, k < primarybootOffset i ∨ primarybootOffset i + 4 ≤ k → r.2[k]? = file[k]?) ∧
  ((∀ i, ¬Named file p i) ∨ ¬IsValue v → r = (false, file))

/-- The name of an entry is short, and no other name begins with it. What is refused does not have the beginning of just one name and a
    value as its first two words. -/
def Meets (sh : Shell) (file : Bytes) (p v : Text) : Prop :=
  (∀ i, Named file p i → IsValue v → p.length ≤ 12 ∧ ∀ j < count file, (entryName file j).take 12 = p → entryName file j = p) ∧
  ((∀ i, ¬Named file p i) ∨ ¬IsValue v → p = [] ∨ v = [] ∨ ¬((∃ i, Sole file (arg sh p v 0) i) ∧ IsValue (arg sh p v 1)))

/-! ### Names -/

theorem eq_of_char {c : UInt8} {d : Char} (h : Char.ofNat c.toNat = d) : c = .ofNat d.toNat := by
  have hc := c.toNat_lt
  have hvalid : c.toNat.isValidChar := Or.inl (by omega)
  have hnat : c.toNat = d.toNat := by
    rw [← h, Char.ofNat, dif_pos hvalid]
    rfl
  rw [← hnat, UInt8.ofNat_toNat]

theorem isNameByte_ne {c : UInt8} (h : isNameByte c = true) : c ≠ 0 ∧ Char.ofNat c.toNat ≠ '\n' ∧ Char.ofNat c.toNat ≠ '\\' ∧
    isIfs (Char.ofNat c.toNat) = false ∧ isSpecial (Char.ofNat c.toNat) = false := by
  have hne : ∀ d : Char, isNameByte (.ofNat d.toNat) = false → Char.ofNat c.toNat ≠ d := fun d hd heq => by
    rw [eq_of_char heq, hd] at h
    cases h
  refine ⟨fun h0 => ?_, hne '\n' rfl, hne '\\' rfl, ?_, ?_⟩
  · rw [h0] at h
    cases h
  · simp [isIfs, hne ' ' rfl, hne '\t' rfl, hne '\n' rfl]
  · simp [isSpecial, hne '*' rfl, hne '?' rfl, hne '[' rfl, hne '\\' rfl]

section
variable {file : Bytes} {i : Nat}

theorem entryName_of_padded {name : Bytes} {k : Nat} (hname : ∀ c ∈ name, isNameByte c = true)
    (h : slice file (12 + i * partSize) nameSize = name ++ List.replicate k 0) : entryName file i = text name := by
  have hzeros : (List.replicate k (0 : UInt8)).takeWhile (· ≠ 0) = [] := by
    cases k <;> rfl
  rw [entryName, h, List.takeWhile_append_of_pos fun c hc => by simpa using (isNameByte_ne (hname c hc)).1, hzeros, List.append_nil]

/-- What is compared is the beginning of the name. -/
theorem nameraw_eq (hw : WellFormed file) (hi : i < count file) : nameraw file i = (entryName file i).take 12 := by
  obtain ⟨name, -, hlen, hname, hslice⟩ := hw.padded i hi
  have htwelve : slice file (12 + i * partSize) 12 = (slice file (12 + i * partSize) nameSize).take 12 := by
    rw [slice, slice, List.take_take]
    rfl
  have hfilter : ((name ++ List.replicate (nameSize - name.length) 0).take 12).filter (· ≠ 0) = name.take 12 := by
    rw [List.take_append, List.filter_append, List.take_replicate, List.filter_eq_self.mpr, List.filter_eq_nil_iff.mpr, List.append_nil]
    · intro c hc
      simp [(List.mem_replicate.mp hc).2]
    · intro c hc
      simpa using (isNameByte_ne (hname c (List.mem_of_mem_take hc))).1
  have hchars : ∀ c ∈ text (name.take 12), c ≠ '\n' ∧ c ≠ '\\' := fun c hc => by
    obtain ⟨d, hd, rfl⟩ := List.mem_map.mp hc
    obtain ⟨-, hnl, hbs, -⟩ := isNameByte_ne (hname d (List.mem_of_mem_take hd))
    exact ⟨hnl, hbs⟩
  rw [nameraw, htwelve, hslice, hfilter, substitute_of_not_mem fun h => (hchars _ h).1 rfl,
    replaceFrom_of_not_infix fun h => (hchars '\\' (h.subset (by decide))).2 rfl, entryName_of_padded hname hslice, text, text, List.map_take]

theorem length_le_of_magic (h : validMagic file = true) : 336 ≤ file.length := by
  have hend : slice file 332 4 = [0xb0, 0xb1, 0xb2, 0xb3] := by
    simp only [validMagic, Bool.and_eq_true, decide_eq_true_eq] at h
    exact h.2
  have hlen := congrArg List.length hend
  simp only [slice, List.length_take, List.length_drop, List.length_cons, List.length_nil] at hlen
  omega

/-- The name of an entry is one word, of which the shell makes nothing else. -/
theorem words_name {sh : Shell} (hpaths : ∀ w, w.any isSpecial = false → sh.paths w = [w]) (hw : WellFormed file) (hi : i < count file) :
    sh.words (entryName file i) = [entryName file i] := by
  obtain ⟨name, hne, -, hname, hslice⟩ := hw.padded i hi
  have hchars : ∀ c ∈ text name, isIfs c = false ∧ isSpecial c = false := fun c hc => by
    obtain ⟨d, hd, rfl⟩ := List.mem_map.mp hc
    exact ⟨(isNameByte_ne (hname d hd)).2.2.2.1, (isNameByte_ne (hname d hd)).2.2.2.2⟩
  rw [entryName_of_padded hname hslice, words_of_not_special hpaths fun c hc => (hchars c hc).2]
  exact fields_of_not_ifs (by simpa [text] using hne) fun c hc => (hchars c hc).1

/-! ### The search -/

theorem filter_range_eq {n : Nat} {q : Nat → Bool} : (List.range n).filter q = [i] ↔ i < n ∧ q i = true ∧ ∀ j < n, q j = true → j = i := by
  have hmem : ∀ j, j ∈ (List.range n).filter q ↔ j < n ∧ q j = true := fun j => by simp
  constructor
  · intro h
    simp only [h, List.mem_singleton] at hmem
    exact ⟨((hmem i).mp rfl).1, ((hmem i).mp rfl).2, fun j hj hq => (hmem j).mpr ⟨hj, hq⟩⟩
  · rintro ⟨hi, hq, hall⟩
    refine List.Perm.eq_singleton ?_
    refine (List.perm_ext_iff_of_nodup (List.nodup_range.filter q) (List.nodup_singleton i)).mpr fun j => ?_
    rw [hmem, List.mem_singleton]
    exact ⟨fun hj => hall j hj.1 hj.2, fun hj => by rw [hj]; exact ⟨hi, hq⟩⟩

theorem partidx_eq (hw : WellFormed file) {w : Text} : partidx file w = [i] ↔ Sole file w i := by
  rw [partidx, filter_range_eq, Sole]
  refine and_congr_right fun hi => and_congr ?_ (forall_congr' fun j => imp_congr_right fun hj => ?_)
  · rw [decide_eq_true_eq, nameraw_eq hw hi, eq_comm]
  · rw [decide_eq_true_eq, nameraw_eq hw hj, eq_comm]

/-! ### A change of a flag -/

section
variable {d : Bytes}

/-- A change of a flag leaves what lies in front of it and behind it. -/
theorem slice_flag (hlen : 336 ≤ file.length) (hi : i < 16) (hd : d.length = 4) {o n : Nat}
    (ho : o + n ≤ primarybootOffset i ∨ primarybootOffset i + 4 ≤ o) : slice (writeAt file (primarybootOffset i) d) o n = slice file o n := by
  have hroom : primarybootOffset i + d.length ≤ file.length := by
    simp only [primarybootOffset, partSize, nameSize]
    omega
  rcases ho with ho | ho
  · exact slice_writeAt_before hroom ho
  · exact slice_writeAt_after hroom (by omega)

theorem validMagic_flag (hlen : 336 ≤ file.length) (hi : i < 16) (hd : d.length = 4) :
    validMagic (writeAt file (primarybootOffset i) d) = validMagic file := by
  rw [validMagic, slice_flag hlen hi hd, slice_flag hlen hi hd, validMagic]
  · right
    simp only [primarybootOffset, partSize, nameSize]
    omega
  · left
    simp only [primarybootOffset, partSize, nameSize]
    omega

theorem numparts_flag (hlen : 336 ≤ file.length) (hi : i < 16) (hd : d.length = 4) :
    numparts (writeAt file (primarybootOffset i) d) = numparts file := by
  rw [numparts, word_eq_slice, slice_flag hlen hi hd, ← word_eq_slice, numparts]
  left
  simp only [primarybootOffset, partSize, nameSize]
  omega

theorem partidx_flag (hlen : 336 ≤ file.length) (hi : i < 16) (hd : d.length = 4) (w : Text) :
    partidx (writeAt file (primarybootOffset i) d) w = partidx file w := by
  have hname : ∀ j, nameraw (writeAt file (primarybootOffset i) d) j = nameraw file j := fun j => by
    rw [nameraw, slice_flag hlen hi hd, nameraw]
    simp only [primarybootOffset, partSize, nameSize]
    omega
  rw [partidx, numparts_flag hlen hi hd, partidx]
  simp only [hname]

theorem word_flag (hlen : 336 ≤ file.length) (hi : i < 16) (hd : d.length = 4) :
    word (writeAt file (primarybootOffset i) d) (primarybootOffset i) = word d 0 := by
  have hroom : primarybootOffset i + d.length ≤ file.length := by
    simp only [primarybootOffset, partSize, nameSize]
    omega
  have hself := slice_writeAt_self hroom
  rw [hd] at hself
  rw [word_eq_slice, hself]

end

theorem lt_sixteen (hi : i < count file) : i < 16 := Nat.lt_of_lt_of_le hi (Nat.min_le_right _ _)

/-- The bytes of a value. -/
def valueBytes (v : Text) : Bytes := if v = ['0'] then [0, 0, 0, 0] else [1, 0, 0, 0]

theorem setField_sole {w v : Text} (hp : partidx file w = [i]) (hv : IsValue v) :
    setField file w v = (true, writeAt file (primarybootOffset i) (valueBytes v)) := by
  rw [setField, hp]
  rcases hv with rfl | rfl
  · rfl
  · rfl

theorem setField_other {w v : Text} (h : ¬((∃ i, partidx file w = [i]) ∧ IsValue v)) : setField file w v = (false, file) := by
  unfold setField
  split
  · next i hp =>
    have hv : ¬IsValue v := fun hv => h ⟨⟨i, hp⟩, hv⟩
    rw [if_neg fun h0 => hv (Or.inl h0), if_neg fun h1 => hv (Or.inr h1)]
  · rfl

theorem getPrimaryboot_flag {w v : Text} (hlen : 336 ≤ file.length) (hi : i < 16) (hp : partidx file w = [i]) (hv : IsValue v) :
    getPrimaryboot (writeAt file (primarybootOffset i) (valueBytes v)) w = v := by
  have hd : (valueBytes v).length = 4 := by
    rcases hv with rfl | rfl <;> rfl
  have hi16 : i < maxNumParts := hi
  rw [getPrimaryboot, partidx_flag hlen hi hd, hp]
  simp only [if_pos hi16]
  rw [word_flag hlen hi hd]
  rcases hv with rfl | rfl <;> rfl

theorem length_valueBytes {v : Text} (hv : IsValue v) : (valueBytes v).length = 4 := by
  rcases hv with rfl | rfl <;> rfl

end

/-! ### set_bootconfig_primaryboot -/

section
variable {sh : Shell} {file : Bytes} {p v : Text}

theorem setPrimaryboot_eq (hw : WellFormed file) (hp : p ≠ []) (hv : v ≠ []) :
    setPrimaryboot sh file p v = setField file (arg sh p v 0) (arg sh p v 1) := by
  rw [setPrimaryboot, if_neg (by simp [hp, hv]), hw.magic]
  rfl

theorem setPrimaryboot_iff (hw : WellFormed file) :
    setPrimaryboot sh file p v = (false, file) ↔ p = [] ∨ v = [] ∨ ¬((∃ i, Sole file (arg sh p v 0) i) ∧ IsValue (arg sh p v 1)) := by
  by_cases hp : p = []
  · simp [setPrimaryboot, hp]
  by_cases hv : v = []
  · simp [setPrimaryboot, hv]
  rw [setPrimaryboot_eq hw hp hv, or_iff_right hp, or_iff_right hv]
  constructor
  · rintro h ⟨⟨i, hi⟩, hvalue⟩
    rw [setField_sole ((partidx_eq hw).mpr hi) hvalue] at h
    cases h
  · rintro h
    refine setField_other fun ⟨⟨i, hi⟩, hvalue⟩ => h ⟨⟨i, (partidx_eq hw).mp hi⟩, hvalue⟩

theorem setArgs_named (hpaths : ∀ w, w.any isSpecial = false → sh.paths w = [w]) (hw : WellFormed file) {i : Nat} (hnamed : Named file p i)
    (hv : IsValue v) : setArgs sh p v = [p, v] := by
  have hvalue : sh.words v = [v] := by
    rcases hv with rfl | rfl
    · exact words_of_not_special hpaths (by simp [isSpecial])
    · exact words_of_not_special hpaths (by simp [isSpecial])
  have hname := words_name hpaths hw hnamed.1
  rw [hnamed.2] at hname
  rw [setArgs, hname, hvalue]
  rfl

theorem getElem?_writeAt {buf d : Bytes} {off k : Nat} (h : off + d.length ≤ buf.length) (hk : k < off ∨ off + d.length ≤ k) :
    (writeAt buf off d)[k]? = buf[k]? := by
  simp only [writeAt, List.getElem?_append, List.getElem?_take, List.getElem?_drop, List.length_append, List.length_take]
  grind

theorem right_iff (hpaths : ∀ w, w.any isSpecial = false → sh.paths w = [w]) (hw : WellFormed file) :
    Right sh file p v ↔ Meets sh file p v := by
  refine and_congr ?_ (imp_congr_right fun _ => setPrimaryboot_iff hw)
  refine forall_congr' fun i => imp_congr_right fun hnamed => imp_congr_right fun hv => ?_
  have hlen := length_le_of_magic hw.magic
  have hp : p ≠ [] := by
    obtain ⟨name, hne, -, hname, hslice⟩ := hw.padded i hnamed.1
    rw [← hnamed.2, entryName_of_padded hname hslice]
    simpa [text] using hne
  have hvne : v ≠ [] := by
    rcases hv with rfl | rfl <;> exact List.cons_ne_nil _ _
  have hargs := setArgs_named hpaths hw hnamed hv
  have hset : setPrimaryboot sh file p v = setField file p v := by
    rw [setPrimaryboot_eq hw hp hvne, arg, arg, hargs]
    rfl
  rw [hset]
  constructor
  · rintro ⟨hok, -⟩
    have hsole : ∃ j, partidx file p = [j] := by
      by_contra hno
      rw [setField_other fun h => hno h.1] at hok
      cases hok
    obtain ⟨j, hj⟩ := hsole
    obtain ⟨hjlt, hjp, hall⟩ := (partidx_eq hw).mp hj
    have hshort : p.length ≤ 12 := by
      rw [← hjp, List.length_take]
      omega
    have hij := hall i hnamed.1 (by rw [hnamed.2, List.take_of_length_le hshort])
    refine ⟨hshort, fun k hk hkp => ?_⟩
    rw [hall k hk hkp, ← hij, hnamed.2]
  · rintro ⟨hshort, hall⟩
    have hsole : Sole file p i := by
      refine ⟨hnamed.1, by rw [hnamed.2, List.take_of_length_le hshort], fun j hj hjp => ?_⟩
      exact hw.distinct j hj i hnamed.1 ((hall j hj hjp).trans hnamed.2.symm)
    have hidx := (partidx_eq hw).mpr hsole
    have hi := lt_sixteen hnamed.1
    have hd := length_valueBytes hv
    rw [setField_sole hidx hv]
    refine ⟨rfl, getPrimaryboot_flag hlen hi hidx hv, fun k hk => getElem?_writeAt ?_ (by rwa [hd])⟩
    simp only [primarybootOffset, partSize, nameSize]
    omega

/-! ### toggle_bootconfig_primaryboot -/

/-- The other value. -/
def flip (v : Text) : Text := if v = ['0'] then ['1'] else ['0']

theorem flip_value (hv : IsValue v) : IsValue (flip v) ∧ flip (flip v) = v := by
  rcases hv with rfl | rfl
  · exact ⟨Or.inr rfl, rfl⟩
  · exact ⟨Or.inl rfl, rfl⟩

theorem togglePrimaryboot_value {i : Nat} (hp : p ≠ []) (hmagic : validMagic file = true) (hidx : partidx file p = [i])
    (hget : getPrimaryboot file p = v) (hv : IsValue v) :
    togglePrimaryboot file p = (true, writeAt file (primarybootOffset i) (valueBytes (flip v))) := by
  rw [togglePrimaryboot, if_neg hp, hmagic, hget]
  rcases hv with rfl | rfl
  · exact setField_sole hidx (Or.inr rfl)
  · exact setField_sole hidx (Or.inl rfl)

theorem togglePrimaryboot_other (h : ¬IsValue (getPrimaryboot file p)) : togglePrimaryboot file p = (false, file) := by
  have h0 : getPrimaryboot file p ≠ ['0'] := fun h0 => h (Or.inl h0)
  have h1 : getPrimaryboot file p ≠ ['1'] := fun h1 => h (Or.inr h1)
  rw [togglePrimaryboot]
  simp only [if_neg h0, if_neg h1, ite_self]

/-- The bytes behind a value that is read. -/
theorem slice_of_getPrimaryboot {i : Nat} (hlen : 336 ≤ file.length) (hi : i < 16) (hidx : partidx file p = [i])
    (hget : getPrimaryboot file p = v) (hv : IsValue v) : slice file (primarybootOffset i) 4 = valueBytes v := by
  have hi16 : i < maxNumParts := hi
  rw [getPrimaryboot, hidx] at hget
  simp only [if_pos hi16] at hget
  have hroom : primarybootOffset i + 4 ≤ file.length := by
    simp only [primarybootOffset, partSize, nameSize]
    omega
  rw [← le32_word hroom]
  rcases hv with rfl | rfl
  · have h0 : word file (primarybootOffset i) = 0 := UInt32.toNat_inj.mp (decimal_inj.mp hget)
    rw [h0]
    rfl
  · have h1 : word file (primarybootOffset i) = 1 := UInt32.toNat_inj.mp (decimal_inj.mp hget)
    rw [h1]
    rfl

theorem toggle_twice (hw : WellFormed file) (p : Text) : (togglePrimaryboot (togglePrimaryboot file p).2 p).2 = file := by
  by_cases hv : IsValue (getPrimaryboot file p)
  swap
  · rw [togglePrimaryboot_other hv, togglePrimaryboot_other hv]
  by_cases hp : p = []
  · simp [togglePrimaryboot, hp]
  have hlen := length_le_of_magic hw.magic
  have hidx : ∃ i, partidx file p = [i] := by
    unfold getPrimaryboot at hv
    split at hv
    · next i hidx => exact ⟨i, hidx⟩
    · rcases hv with hv | hv <;> cases hv
  obtain ⟨i, hidx⟩ := hidx
  have hi := lt_sixteen ((partidx_eq hw).mp hidx).1
  have hslice := slice_of_getPrimaryboot hlen hi hidx rfl hv
  obtain ⟨hflip, hback⟩ := flip_value hv
  have hd := length_valueBytes hv
  have hd' := length_valueBytes hflip
  have hroom : primarybootOffset i + 4 ≤ file.length := by
    simp only [primarybootOffset, partSize, nameSize]
    omega
  have hwrite : writeAt (valueBytes (flip (getPrimaryboot file p))) 0 (valueBytes (getPrimaryboot file p)) = valueBytes (getPrimaryboot file p) := by
    rw [writeAt, List.take_zero, List.nil_append, hd, Nat.zero_add, List.drop_of_length_le (by omega), List.append_nil]
  rw [togglePrimaryboot_value hp hw.magic hidx rfl hv,
    togglePrimaryboot_value hp (by rw [validMagic_flag hlen hi hd', hw.magic]) (by rw [partidx_flag hlen hi hd', hidx])
      (getPrimaryboot_flag hlen hi hidx hflip) hflip, hback]
  have htwice := @writeAt_writeAt file (valueBytes (flip (getPrimaryboot file p))) (primarybootOffset i)
    (valueBytes (getPrimaryboot file p)) 0 (by rwa [hd']) (by omega)
  rw [Nat.add_zero, hwrite, ← hslice] at htwice
  rw [← hslice]
  exact htwice.trans (writeAt_slice hroom)

end

/-- Setting a flag is right exactly under the condition on names and words, and two toggles restore the file. -/
theorem bootconfig_iff (sh : Shell) (hpaths : ∀ w, w.any isSpecial = false → sh.paths w = [w]) {file : Bytes} (hw : WellFormed file) :
    (∀ p v, Right sh file p v ↔ Meets sh file p v) ∧ ∀ p, (togglePrimaryboot (togglePrimaryboot file p).2 p).2 = file :=
  ⟨fun _ _ => right_iff hpaths hw, toggle_twice hw⟩

/-- A table with the given names, whose flags are zero. -/
def table (names : List Bytes) : Bytes :=
  [0xa0, 0xa1, 0xa2, 0xa3, 0, 0, 0, 0] ++ le32 (.ofNat names.length) ++
    ((names ++ List.replicate (16 - names.length) []).flatMap fun (name : Bytes) => name ++ List.replicate (20 - name.length) 0) ++ [0xb0, 0xb1, 0xb2, 0xb3]

/-- A table with one name of thirteen characters. -/
def longTable : Bytes := table ["0:BOOTCONFIG1".toList.map fun c => .ofNat c.toNat]

theorem longTable_wellFormed : WellFormed longTable := by
  have hcount : count longTable = 1 := by decide
  refine ⟨by decide, fun i hi => ?_, fun i hi j hj _ => by omega⟩
  obtain rfl : i = 0 := by omega
  exact ⟨"0:BOOTCONFIG1".toList.map fun c => .ofNat c.toNat, by decide, by decide, forall_mem_of_all _ (by decide), by decide⟩

/-- A name of thirteen characters is not found. -/
theorem bootconfig_long_name : WellFormed longTable ∧ ¬Right emptyDir longTable "0:BOOTCONFIG1".toList ['1'] := by
  refine ⟨longTable_wellFormed, fun h => ?_⟩
  have hnamed : Named longTable "0:BOOTCONFIG1".toList 0 := ⟨by decide, by decide⟩
  have hmeets := (right_iff (fun _ _ => rfl) longTable_wellFormed).mp h
  exact absurd (hmeets.1 0 hnamed (Or.inr rfl)).1 (by decide)

theorem bootconfig_iff_long : (togglePrimaryboot (togglePrimaryboot longTable "0:BOOTCONFIG".toList).2 "0:BOOTCONFIG".toList).2 = longTable :=
  (bootconfig_iff emptyDir (fun _ _ => rfl) longTable_wellFormed).2 _

end RainWrt.BaseFiles.Bootconfig
