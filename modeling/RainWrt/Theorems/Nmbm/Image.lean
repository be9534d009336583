import RainWrt.Nmbm.Flash

/-! An info table that was encoded passes the checks of the loader and gives back the tables. -/

namespace RainWrt.Nmbm

/-! ### Sizes -/

namespace Chip
variable (c : Chip)

theorem pgSize_pos : 0 < c.pgSize := Nat.two_pow_pos _

theorem blkSize_pos : 0 < c.blkSize := Nat.two_pow_pos _

theorem pgSize_le : c.pgSize ≤ 2 ^ 30 :=
  Nat.pow_le_pow_right (by decide) (by have := c.pgShift_le; have := c.blkShift_lt; omega)

theorem pgSize_dvd_blkSize : c.pgSize ∣ c.blkSize := Nat.pow_dvd_pow 2 c.pgShift_le

theorem le_alignPage (n : Nat) : n ≤ c.alignPage n := by
  have h := Nat.div_add_mod (n + c.pgSize - 1) c.pgSize
  have hm := Nat.mod_lt (n + c.pgSize - 1) c.pgSize_pos
  have := c.pgSize_pos
  rw [alignPage, Nat.mul_comm]
  omega

theorem alignPage_lt (n : Nat) : c.alignPage n < n + c.pgSize := by
  have h := Nat.div_mul_le_self (n + c.pgSize - 1) c.pgSize
  have := c.pgSize_pos
  rw [alignPage]
  omega

theorem pgSize_dvd_alignPage (n : Nat) : c.pgSize ∣ c.alignPage n := Nat.dvd_mul_left _ _

theorem pgSize_dvd_infoTableSize : c.pgSize ∣ c.infoTableSize :=
  Nat.dvd_add (Nat.dvd_add (c.pgSize_dvd_alignPage _) (c.pgSize_dvd_alignPage _)) (c.pgSize_dvd_alignPage _)

/-- The three parts of an info table, one after the other. -/
theorem offsets : 32 ≤ c.stateTableOff ∧ c.stateTableOff + c.stateTableSize ≤ c.mappingTableOff ∧
    c.mappingTableOff + c.mappingTableSize ≤ c.infoTableSize := by
  refine ⟨c.le_alignPage 32, ?_, ?_⟩
  · have := c.le_alignPage c.stateTableSize
    unfold mappingTableOff
    omega
  · have := c.le_alignPage c.mappingTableSize
    unfold infoTableSize
    omega

theorem infoTableSize_lt : c.infoTableSize < 2 ^ 32 := by
  have h1 := c.alignPage_lt 32
  have h2 := c.alignPage_lt c.stateTableSize
  have h3 := c.alignPage_lt c.mappingTableSize
  have h4 := c.pgSize_le
  have h5 := c.totalBlks_lt
  simp only [infoTableSize, mappingTableOff, stateTableOff]
  simp only [stateTableSize, mappingTableSize] at h2 h3 ⊢
  omega

end Chip

/-- The two tables have the sizes that the chip asks for, at the places that the chip asks for. -/
structure Formed (ni : Instance) : Prop where
  stateOff : ni.infoTable.stateTableOff = .ofNat ni.chip.stateTableOff
  mappingOff : ni.infoTable.mappingTableOff = .ofNat ni.chip.mappingTableOff
  state : 4 * ni.blockState.length = ni.chip.stateTableSize
  mapping : ni.blockMapping.length = ni.chip.totalBlks

/-! ### Checksum -/

theorem word_congr {a b : Bytes} {o : Nat} (h : slice a o 4 = slice b o 4) : word a o = word b o := by
  show ((words (slice a o 4)).head?).getD 0 = ((words (slice b o 4)).head?).getD 0
  rw [h]

section
variable {data : Bytes}

theorem length_updateChecksum (h : 16 ≤ data.length) : (updateChecksum data).length = data.length := by
  have h1 : (writeAt data 12 (le32 0)).length = data.length := length_writeAt (by simp; omega)
  simp only [updateChecksum]
  rw [length_writeAt (by simp; omega), h1]

/-- The checksum changes its own word only. -/
theorem slice_updateChecksum (h : 16 ≤ data.length) {o size : Nat} (ho : o + size ≤ 12 ∨ 16 ≤ o) :
    slice (updateChecksum data) o size = slice data o size := by
  have h1 : (writeAt data 12 (le32 0)).length = data.length := length_writeAt (by simp; omega)
  simp only [updateChecksum]
  rcases ho with ho | ho
  · rw [slice_writeAt_before (by simp; omega) ho, slice_writeAt_before (by simp; omega) ho]
  · rw [slice_writeAt_after (by simp; omega) (by simp; omega), slice_writeAt_after (by simp; omega) (by simp; omega)]

/-- A header that was given its checksum passes `nmbm_check_header`. -/
theorem checkHeader_updateChecksum {size : Nat} (h16 : 16 < (word data 8).toNat) (hlen : (word data 8).toNat ≤ data.length)
    (hsize : (word data 8).toNat ≤ size) : checkHeader (updateChecksum data) size = true := by
  have hl : 16 ≤ data.length := by omega
  have hword : word (updateChecksum data) 8 = word data 8 := word_congr (slice_updateChecksum hl (.inl (by decide)))
  have h0 : (writeAt data 12 (le32 0)).length = data.length := length_writeAt (by simp; omega)
  have hw0 : word (writeAt data 12 (le32 0)) 8 = word data 8 :=
    word_congr (slice_writeAt_before (by simp; omega) (by decide))
  -- the bytes that the sum is taken over: the header with a zero sum, then the rest
  have hsum : writeAt ((updateChecksum data).take 16) 12 (le32 0) ++ slice (updateChecksum data) 16 ((word data 8).toNat - 16) =
      (writeAt data 12 (le32 0)).take (word data 8).toNat := by
    rw [slice_updateChecksum hl (.inr (Nat.le_refl _))]
    apply List.ext_getElem?
    intro i
    simp only [updateChecksum, writeAt, slice, length_le32, List.take_take, List.getElem?_append, List.getElem?_take,
      List.getElem?_drop, List.length_append, List.length_take, List.length_drop]
    grind
  have hcheck : word (updateChecksum data) 12 = crc32Le 0 ((writeAt data 12 (le32 0)).take (word data 8).toNat) := by
    simp only [updateChecksum, hw0]
    rw [show word _ 12 = ((words (slice _ 12 4)).head?).getD 0 from rfl]
    rw [show (4 : Nat) = (le32 (crc32Le 0 ((writeAt data 12 (le32 0)).take (word data 8).toNat))).length from rfl,
      slice_writeAt_self (by simp; omega)]
    have := words_le32_append (crc32Le 0 ((writeAt data 12 (le32 0)).take (word data 8).toNat)) []
    rw [List.append_nil] at this
    rw [this]
    rfl
  simp only [checkHeader, hword]
  rw [if_neg (by omega), if_pos h16, ← crc32Le_append, hsum, hcheck]
  simp

end

/-! ### Image -/

section
variable {ni : Instance} {h : InfoTableHeader}

/-- The image before its checksum is filled in. -/
def rawImage (ni : Instance) (h : InfoTableHeader) : Bytes :=
  writeAt (writeAt (writeAt (List.replicate ni.chip.infoTableSize 0xff) ni.infoTable.stateTableOff.toNat (unwords ni.blockState))
    ni.infoTable.mappingTableOff.toNat (unwords ni.blockMapping)) 0 h.toBytes

theorem length_toBytes (h : InfoTableHeader) : h.toBytes.length = 32 := by
  rw [InfoTableHeader.toBytes, length_unwords]
  rfl

theorem Formed.offs (hf : Formed ni) : ni.infoTable.stateTableOff.toNat = ni.chip.stateTableOff ∧
    ni.infoTable.mappingTableOff.toNat = ni.chip.mappingTableOff := by
  obtain ⟨h1, h2, h3⟩ := ni.chip.offsets
  have h4 := ni.chip.infoTableSize_lt
  rw [hf.stateOff, hf.mappingOff, UInt32.toNat_ofNat', UInt32.toNat_ofNat', Nat.mod_eq_of_lt (by omega), Nat.mod_eq_of_lt (by omega)]
  exact ⟨rfl, rfl⟩

/-- What the three copies of `nmbm_generate_info_table_cache` leave. -/
theorem rawImage_spec (hf : Formed ni) : (rawImage ni h).length = ni.chip.infoTableSize ∧
    slice (rawImage ni h) 0 32 = h.toBytes ∧
    slice (rawImage ni h) ni.chip.stateTableOff ni.chip.stateTableSize = unwords ni.blockState ∧
    slice (rawImage ni h) ni.chip.mappingTableOff ni.chip.mappingTableSize = unwords ni.blockMapping := by
  obtain ⟨h1, h2, h3⟩ := ni.chip.offsets
  obtain ⟨o1, o2⟩ := hf.offs
  have hst : (unwords ni.blockState).length = ni.chip.stateTableSize := by rw [length_unwords, hf.state]
  have hmap : (unwords ni.blockMapping).length = ni.chip.mappingTableSize := by
    rw [length_unwords, hf.mapping, Chip.mappingTableSize]
    omega
  have hh := length_toBytes h
  simp only [rawImage, o1, o2]
  have l1 : (writeAt (List.replicate ni.chip.infoTableSize 0xff) ni.chip.stateTableOff (unwords ni.blockState)).length =
      ni.chip.infoTableSize := by rw [length_writeAt (by rw [List.length_replicate]; omega), List.length_replicate]
  have l2 : (writeAt (writeAt (List.replicate ni.chip.infoTableSize 0xff) ni.chip.stateTableOff (unwords ni.blockState))
      ni.chip.mappingTableOff (unwords ni.blockMapping)).length = ni.chip.infoTableSize := by rw [length_writeAt (by omega), l1]
  refine ⟨?_, ?_, ?_, ?_⟩
  · rw [length_writeAt (by omega), l2]
  · rw [← hh, slice_writeAt_self (by omega)]
  · rw [slice_writeAt_after (by omega) (by omega), slice_writeAt_before (by omega) (by omega), ← hst,
      slice_writeAt_self (by rw [List.length_replicate]; omega)]
  · rw [slice_writeAt_after (by omega) (by omega), ← hmap, slice_writeAt_self (by omega)]

theorem tableImage_eq (ni : Instance) (h : InfoTableHeader) : tableImage ni h = updateChecksum (rawImage ni h) := rfl

theorem length_tableImage (hf : Formed ni) : (tableImage ni h).length = ni.chip.infoTableSize := by
  obtain ⟨h1, h2, h3⟩ := ni.chip.offsets
  rw [tableImage_eq, length_updateChecksum (by rw [(rawImage_spec hf).1]; omega), (rawImage_spec hf).1]

/-- A word of the header, other than the checksum, is read back. -/
theorem word_tableImage (hf : Formed ni) {i : Nat} (hi : i < 8) (hne : i ≠ 3) :
    word (tableImage ni h) (4 * i) = word h.toBytes (4 * i) := by
  obtain ⟨h1, h2, h3⟩ := ni.chip.offsets
  obtain ⟨l, hd, -, -⟩ := rawImage_spec (h := h) hf
  rw [tableImage_eq, word_congr (slice_updateChecksum (by omega) (by omega))]
  apply word_congr
  rw [← hd]
  apply List.ext_getElem?
  intro j
  simp only [slice, List.getElem?_take, List.getElem?_drop]
  split
  · rw [if_pos (by omega), Nat.zero_add]
  · rfl

theorem word_toBytes (h : InfoTableHeader) : word h.toBytes 0 = h.magic ∧ word h.toBytes 8 = h.size ∧
    word h.toBytes 16 = h.writeCount ∧ word h.toBytes 20 = h.stateTableOff ∧ word h.toBytes 24 = h.mappingTableOff := by
  have hw := word_unwords [h.magic, h.version, h.size, h.checksum, h.writeCount, h.stateTableOff, h.mappingTableOff, h.padding] []
  rw [List.append_nil] at hw
  exact ⟨hw 0 (by simp), hw 2 (by simp), hw 4 (by simp), hw 5 (by simp), hw 6 (by simp)⟩

/-- The header of `ni`, ready to be written. -/
structure Stamped (ni : Instance) (h : InfoTableHeader) : Prop where
  magic : h.magic = nmbmMagicInfoTable
  size : h.size = .ofNat ni.chip.infoTableSize
  stateOff : h.stateTableOff = ni.infoTable.stateTableOff
  mappingOff : h.mappingTableOff = ni.infoTable.mappingTableOff

theorem stamped_generateHeader (ni : Instance) : Stamped ni (generateHeader ni) := ⟨rfl, rfl, rfl, rfl⟩

theorem ofBytes_tableImage (hf : Formed ni) (hs : Stamped ni h) :
    (InfoTableHeader.ofBytes (tableImage ni h)).magic = nmbmMagicInfoTable ∧
    (InfoTableHeader.ofBytes (tableImage ni h)).size.toNat = ni.chip.infoTableSize ∧
    (InfoTableHeader.ofBytes (tableImage ni h)).writeCount = h.writeCount ∧
    (InfoTableHeader.ofBytes (tableImage ni h)).stateTableOff.toNat = ni.chip.stateTableOff ∧
    (InfoTableHeader.ofBytes (tableImage ni h)).mappingTableOff.toNat = ni.chip.mappingTableOff := by
  obtain ⟨w0, w2, w4, w5, w6⟩ := word_toBytes h
  obtain ⟨o1, o2⟩ := hf.offs
  have hw {i : Nat} (hi : i < 8) (hne : i ≠ 3) := word_tableImage (h := h) hf hi hne
  have hsz := ni.chip.infoTableSize_lt
  simp only [InfoTableHeader.ofBytes]
  refine ⟨?_, ?_, ?_, ?_, ?_⟩
  · rw [← hs.magic, ← w0]
    exact hw (i := 0) (by decide) (by decide)
  · rw [hw (i := 2) (by decide) (by decide), w2, hs.size, UInt32.toNat_ofNat', Nat.mod_eq_of_lt hsz]
  · rw [hw (i := 4) (by decide) (by decide), w4]
  · rw [hw (i := 5) (by decide) (by decide), w5, hs.stateOff, o1]
  · rw [hw (i := 6) (by decide) (by decide), w6, hs.mappingOff, o2]

theorem imageState_tableImage (hf : Formed ni) (hs : Stamped ni h) : imageState ni (tableImage ni h) = ni.blockState := by
  obtain ⟨h1, h2, h3⟩ := ni.chip.offsets
  obtain ⟨l, -, hst, -⟩ := rawImage_spec (h := h) hf
  rw [imageState, (ofBytes_tableImage hf hs).2.2.2.1, tableImage_eq, slice_updateChecksum (by omega) (.inr (by omega)), hst, words_unwords]

theorem imageMapping_tableImage (hf : Formed ni) (hs : Stamped ni h) : imageMapping ni (tableImage ni h) = ni.blockMapping := by
  obtain ⟨h1, h2, h3⟩ := ni.chip.offsets
  obtain ⟨l, -, -, hm⟩ := rawImage_spec (h := h) hf
  rw [imageMapping, (ofBytes_tableImage hf hs).2.2.2.2, tableImage_eq, slice_updateChecksum (by omega) (.inr (by omega)), hm, words_unwords]

/-- The loader accepts the header and the checksum. -/
theorem checkHeader_tableImage (hf : Formed ni) (hs : Stamped ni h) :
    checkInfoTableHeader ni (tableImage ni h) = true ∧ checkHeader (tableImage ni h) ni.chip.infoTableSize = true := by
  obtain ⟨h1, h2, h3⟩ := ni.chip.offsets
  obtain ⟨b1, b2, -, b4, b5⟩ := ofBytes_tableImage hf hs
  have hsz := ni.chip.infoTableSize_lt
  constructor
  · simp only [checkInfoTableHeader, b1, b2, b4, b5, sub32]
    simp
    omega
  · obtain ⟨l, hd, -, -⟩ := rawImage_spec (h := h) hf
    have hword : (word (rawImage ni h) 8).toNat = ni.chip.infoTableSize := by
      rw [← b2]
      show _ = (word (updateChecksum (rawImage ni h)) 8).toNat
      rw [word_congr (slice_updateChecksum (by omega) (.inl (by decide)))]
    rw [tableImage_eq]
    exact checkHeader_updateChecksum (by omega) (by omega) (by omega)

end

end RainWrt.Nmbm
