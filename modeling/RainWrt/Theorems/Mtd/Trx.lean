import RainWrt.Mtd.Trx

/-! The header in flash after it was fixed: what it says of the data behind it, and that nothing else is changed. -/

namespace RainWrt.Mtd.Trx

/-! ### Reading from the good blocks -/

/-- The bytes of a window that are in good blocks. -/
def goodData (d : Device) (flash : Bytes) (x n : Nat) : Bytes :=
  (List.range' x n).filterMap fun y => if d.nand && d.bad (y / d.erasesize) then none else flash[y]?

section
variable {d : Device} {flash flash' data : Bytes} {x n m k : Nat}

theorem readAt_eq_some {buf : Bytes} {pos : Nat} {r : Bytes} : readAt buf pos n = some r ↔ pos + n ≤ buf.length ∧ slice buf pos n = r := by
  unfold readAt
  split_ifs with h
  · simp [h]
  · simp [h]

theorem inBlock_eq (hk : d.erasesize = 2 ^ k) (x : Nat) : d.inBlock x = x % d.erasesize := by
  unfold Device.inBlock
  rw [hk, Nat.and_two_pow_sub_one_eq_mod]

theorem blockOffset_eq (hk : d.erasesize = 2 ^ k) (x : Nat) : d.blockOffset x = x / d.erasesize * d.erasesize := by
  unfold Device.blockOffset
  rw [inBlock_eq hk, Nat.div_mul_self_eq_mod_sub_self]

theorem goodData_add : goodData d flash x (n + m) = goodData d flash x n ++ goodData d flash (x + n) m := by
  unfold goodData
  rw [← List.filterMap_append, ← List.range'_append_1]

theorem filterMap_range'_getElem? (h : x + n ≤ flash.length) : (List.range' x n).filterMap (fun y => flash[y]?) = slice flash x n := by
  induction n generalizing x with
  | zero => simp [slice]
  | succ n ih =>
    have hx : x < flash.length := by omega
    rw [List.range'_succ, List.filterMap_cons_some (List.getElem?_eq_getElem hx), ih (by omega)]
    simp only [slice]
    rw [List.drop_eq_getElem_cons hx, List.take_succ_cons]

/-- Inside of a block all bytes are good or none is. -/
theorem goodData_of_block (hn : x % d.erasesize + n ≤ d.erasesize) (h : x + n ≤ flash.length) :
    goodData d flash x n = if d.nand && d.bad (x / d.erasesize) then [] else slice flash x n := by
  have hblock : ∀ y ∈ List.range' x n, y / d.erasesize = x / d.erasesize := by
    intro y hy
    obtain ⟨hle, hlt⟩ := List.mem_range'_1.mp hy
    have hdiv := Nat.div_add_mod x d.erasesize
    apply Nat.div_eq_of_lt_le
    · rw [Nat.mul_comm]
      omega
    · rw [Nat.succ_mul, Nat.mul_comm]
      omega
  unfold goodData
  rw [List.filterMap_congr fun y hy => by rw [hblock y hy]]
  split_ifs
  · simp
  · exact filterMap_range'_getElem? h

/-- What is read of one block. -/
theorem readChunk_spec (hk : d.erasesize = 2 ^ k) (hlen : flash.length = d.size) (hsize : d.size < 2 ^ 31) (hx : x ≤ d.size)
    (hn : x % d.erasesize + n ≤ d.erasesize) {isBad : Bool} {chunk : Bytes} (hbad : d.blockIsBad (d.blockOffset x) = some isBad)
    (hchunk : (if isBad then some [] else readAt flash x n) = some chunk) : chunk = goodData d flash x n ∧ x + n ≤ d.size := by
  have hpos : 0 < d.erasesize := by
    rw [hk]
    exact Nat.two_pow_pos k
  have hdiv := Nat.div_add_mod x d.erasesize
  rw [Nat.mul_comm] at hdiv
  rw [blockOffset_eq hk] at hbad
  unfold Device.blockIsBad at hbad
  cases hnand : d.nand with
  | false =>
    rw [hnand] at hbad
    obtain rfl := Option.some.inj hbad
    obtain ⟨hle, rfl⟩ := readAt_eq_some.mp hchunk
    rw [goodData_of_block hn hle, hnand, ← hlen]
    exact ⟨rfl, hle⟩
  | true =>
    rw [hnand, if_pos rfl] at hbad
    unfold mtdBlockIsBad toInt at hbad
    have hmod : x / d.erasesize * d.erasesize % 2 ^ 32 = x / d.erasesize * d.erasesize := Nat.mod_eq_of_lt (by omega)
    simp only [hmod, if_pos (show x / d.erasesize * d.erasesize < 2 ^ 31 by omega)] at hbad
    split at hbad
    case isTrue => cases hbad
    case isFalse hinside =>
      have hlt : x / d.erasesize * d.erasesize < d.count * d.erasesize := by
        unfold Nand.size at hinside
        omega
      have hend : (x / d.erasesize + 1) * d.erasesize ≤ d.count * d.erasesize :=
        Nat.mul_le_mul_right _ (Nat.lt_of_mul_lt_mul_right hlt)
      have hle : x + n ≤ d.size := by
        unfold Nand.size
        rw [Nat.succ_mul] at hend
        omega
      rw [Int.toNat_natCast, Nat.mul_div_cancel _ hpos] at hbad
      obtain rfl := Option.some.inj hbad
      rw [goodData_of_block hn (hlen ▸ hle), hnand, Bool.true_and]
      refine ⟨?_, hle⟩
      split_ifs at hchunk ⊢
      · exact (Option.some.inj hchunk).symm
      · exact (readAt_eq_some.mp hchunk).2.symm

/-- A round of the loop. -/
theorem readData_inv (hn : n ≠ 0) (h : readData d flash x n = some data) :
    ∃ isBad chunk rest, 0 < min (d.erasesize - d.inBlock x) n ∧ d.blockIsBad (d.blockOffset x) = some isBad ∧
      (if isBad then some [] else readAt flash x (min (d.erasesize - d.inBlock x) n)) = some chunk ∧
      readData d flash (x + min (d.erasesize - d.inBlock x) n) (n - min (d.erasesize - d.inBlock x) n) = some rest ∧
      data = chunk ++ rest := by
  rw [readData, if_neg hn] at h
  dsimp only at h
  split at h
  case isFalse => cases h
  case isTrue hpos =>
    split at h
    case h_1 => cases h
    case h_2 isBad hbad =>
      split at h
      case h_1 => cases h
      case h_2 chunk hchunk =>
        obtain ⟨rest, hrest, rfl⟩ := Option.map_eq_some_iff.mp h
        exact ⟨isBad, chunk, rest, hpos, hbad, hchunk, hrest, rfl⟩

/-- The loop reads the bytes of the window that are in good blocks. -/
theorem readData_spec (hk : d.erasesize = 2 ^ k) (hlen : flash.length = d.size) (hsize : d.size < 2 ^ 31) (hx : x ≤ d.size)
    (h : readData d flash x n = some data) : data = goodData d flash x n := by
  induction n using Nat.strong_induction_on generalizing x data with
  | _ n ih =>
    rcases eq_or_ne n 0 with rfl | hn
    · rw [readData, if_pos rfl] at h
      rw [← Option.some.inj h]
      rfl
    · obtain ⟨isBad, chunk, rest, hpos, hbad, hchunk, hrest, rfl⟩ := readData_inv hn h
      rw [inBlock_eq hk] at hpos hchunk hrest
      have hmod := Nat.mod_lt x (show 0 < d.erasesize by rw [hk]; exact Nat.two_pow_pos k)
      obtain ⟨rfl, hle⟩ := readChunk_spec hk hlen hsize hx (by omega) hbad hchunk
      have hsplit : n = min (d.erasesize - x % d.erasesize) n + (n - min (d.erasesize - x % d.erasesize) n) := by omega
      rw [ih _ (by omega) hle hrest, ← goodData_add, ← hsplit]

/-- Only what is there from the start of the window on is read. -/
theorem readData_congr (hlen : flash'.length = flash.length) (h : ∀ y, x ≤ y → flash'[y]? = flash[y]?)
    (hdata : readData d flash x n = some data) : readData d flash' x n = some data := by
  induction n using Nat.strong_induction_on generalizing x data with
  | _ n ih =>
    have hread (m : Nat) : readAt flash' x m = readAt flash x m := by
      unfold readAt
      rw [hlen]
      congr 2
      apply List.ext_getElem?
      intro i
      simp only [slice, List.getElem?_take, List.getElem?_drop]
      rw [h _ (Nat.le_add_right _ _)]
    rcases eq_or_ne n 0 with rfl | hn
    · rw [readData, if_pos rfl] at hdata ⊢
      exact hdata
    · obtain ⟨isBad, chunk, rest, hpos, hbad, hchunk, hrest, rfl⟩ := readData_inv hn hdata
      have hrest' := ih _ (by omega) (fun y hy => h y (by omega)) hrest
      rw [readData, if_neg hn]
      simp only [if_pos hpos, hbad, hread, hchunk, hrest']
      rfl

end

/-! ### The fields of the header -/

/-- The fields `len` and `crc32`. -/
def fields (data : Bytes) : Bytes := lenField data ++ crcField data

@[simp] theorem length_lenField (data : Bytes) : (lenField data).length = 4 := rfl

@[simp] theorem length_crcField (data : Bytes) : (crcField data).length = 4 := rfl

@[simp] theorem length_fields (data : Bytes) : (fields data).length = 8 := rfl

section
variable {block data : Bytes} {offset : Nat}

theorem headerFixed_eq (h : offset + 12 ≤ block.length) :
    headerFixed block offset data = some (decide (slice block (offset + 4) 8 = fields data)) := by
  have hlen : (slice block (offset + 4) 4).length = (lenField data).length := by
    rw [slice, List.length_take, List.length_drop]
    show min 4 _ = 4
    omega
  unfold headerFixed
  rw [readAt_eq_some.mpr ⟨by omega, rfl⟩, readAt_eq_some.mpr ⟨by omega, rfl⟩, slice_add block (offset + 4) 4 4]
  simp only [Option.bind_eq_bind, Option.bind_some]
  unfold fields
  split_ifs with hsame
  · simp [hsame]
  · have hne : slice block (offset + 4) 4 ++ slice block (offset + 4 + 4) 4 ≠ lenField data ++ crcField data := fun h =>
      hsame (List.append_inj h hlen).1
    simp [hne]

/-- A header that is all in the block is given the fields, if it has others. -/
theorem fixHeader_eq (h : offset + 12 ≤ block.length) : fixHeader block offset data =
    some (if slice block (offset + 4) 8 = fields data then none else some (writeAt block (offset + 4) (fields data))) := by
  unfold fixHeader
  rw [headerFixed_eq h]
  simp only [Option.bind_eq_bind, Option.bind_some, decide_eq_true_eq]
  split_ifs with hsame
  · rfl
  · have hroom : offset + 4 + (lenField data).length ≤ block.length := by
      rw [length_lenField]
      omega
    have hboth : offset + 4 + (lenField data).length + (crcField data).length ≤ block.length := by
      rw [length_lenField, length_crcField]
      omega
    have hsecond : storeAt (writeAt block (offset + 4) (lenField data)) (offset + 8) (crcField data) =
        some (writeAt (writeAt block (offset + 4) (lenField data)) (offset + 8) (crcField data)) := if_pos (by
      rw [length_writeAt hroom]
      exact hboth)
    rw [storeAt, if_pos hroom, Option.bind_some, hsecond, Option.bind_some]
    exact congrArg (fun block => some (some block)) (writeAt_append hroom)

/-- The fields of a header at the end of the block are not all in the buffer. -/
theorem fixHeader_eq_none (h : block.length < offset + 12) : fixHeader block offset data = none := by
  have hcrc : readAt block (offset + 8) 4 = none := if_neg (by omega)
  have hstore (buf : Bytes) (hbuf : buf.length = block.length) : storeAt buf (offset + 8) (crcField data) = none := if_neg (by
    rw [hbuf, length_crcField]
    omega)
  unfold fixHeader headerFixed
  rw [hcrc]
  cases hlen : readAt block (offset + 4) 4 with
  | none => rfl
  | some len =>
    simp only [Option.bind_eq_bind, Option.bind_some]
    split_ifs
    · rfl
    · have hroom : offset + 4 + (lenField data).length ≤ block.length := (readAt_eq_some.mp hlen).1
      rw [storeAt, if_pos hroom, Option.bind_some, hstore _ (length_writeAt hroom)]
      rfl

end

/-! ### Calls -/

section
variable {c : Call} {flash flash' block data : Bytes} {offset dataSize : Nat}

/-- A call that gets to the header with its data. -/
structure Accepted (c : Call) (flash : Bytes) (offset dataSize : Nat) (block data : Bytes) : Prop where
  room : ((offset + 12) % 2 ^ c.bits + c.dataSize dataSize) % 2 ^ c.bits ≤ c.d.size
  first : c.malloc c.d.erasesize = true
  blockRead : readAt flash (c.d.blockOffset offset) c.d.erasesize = some block
  magicRead : readAt block (c.d.inBlock offset) 4 = some c.magic
  second : c.malloc (c.dataSize dataSize) = true
  dataRead : readData c.d flash ((offset + 12) % 2 ^ c.bits) (c.dataSize dataSize) = some data

theorem Accepted.eq (h : Accepted c flash offset dataSize block data) :
    mtdFixtrx c flash offset dataSize = (fixHeader block (c.d.inBlock offset) data).map (writeBack c.d flash offset) := by
  unfold mtdFixtrx
  simp only [if_neg (Nat.not_lt.mpr h.room), h.first, h.blockRead, h.magicRead, h.second, h.dataRead]
  simp

/-- A call that is not rejected gets there, or it reads the magic outside of the block. -/
theorem accepted_of_ne (h : mtdFixtrx c flash offset dataSize ≠ some .rejected) :
    (∃ block data, Accepted c flash offset dataSize block data) ∨
      (mtdFixtrx c flash offset dataSize = none ∧ ∃ block, readAt flash (c.d.blockOffset offset) c.d.erasesize = some block ∧
        readAt block (c.d.inBlock offset) 4 = none) := by
  by_cases hroom : c.d.size < ((offset + 12) % 2 ^ c.bits + c.dataSize dataSize) % 2 ^ c.bits
  · exact absurd (by simp only [mtdFixtrx, if_pos hroom]) h
  cases hfirst : c.malloc c.d.erasesize with
  | false => exact absurd (by simp [mtdFixtrx, hfirst]) h
  | true =>
    cases hblock : readAt flash (c.d.blockOffset offset) c.d.erasesize with
    | none => exact absurd (by simp [mtdFixtrx, hblock]) h
    | some block =>
      cases hmagic : readAt block (c.d.inBlock offset) 4 with
      | none =>
        refine Or.inr ⟨?_, block, rfl, hmagic⟩
        simp only [mtdFixtrx, if_neg hroom, hfirst, hblock, hmagic]
        rfl
      | some magic =>
        by_cases hsame : magic = c.magic
        · cases hsecond : c.malloc (c.dataSize dataSize) with
          | false => exact absurd (by simp [mtdFixtrx, hfirst, hblock, hmagic, hsecond]) h
          | true =>
            cases hdata : readData c.d flash ((offset + 12) % 2 ^ c.bits) (c.dataSize dataSize) with
            | none => exact absurd (by simp [mtdFixtrx, hfirst, hblock, hmagic, hsecond, hdata]) h
            | some data => exact Or.inl ⟨block, data, Nat.not_lt.mp hroom, hfirst, hblock, hsame ▸ hmagic, hsecond, hdata⟩
        · exact absurd (by simp [mtdFixtrx, hfirst, hblock, hmagic, hsame]) h

/-- The header describes the data of the good blocks and nothing else is changed: it does so already, or its block is written with
    the new fields and the next call finds nothing to do. -/
def Fixes (c : Call) (flash : Bytes) (offset dataSize : Nat) : Prop :=
  let data := goodData c.d flash (offset + 12) (c.dataSize dataSize)
  data.length ≤ c.dataSize dataSize ∧
    ((mtdFixtrx c flash offset dataSize = some .alreadyFixed ∧ slice flash (offset + 4) 8 = fields data) ∨
      ∃ flash', mtdFixtrx c flash offset dataSize = some (.fixed flash' (offset / c.d.erasesize)) ∧
        flash' = writeAt flash (offset + 4) (fields data) ∧ mtdFixtrx c flash' offset dataSize = some .alreadyFixed)

theorem length_goodData_le {d : Device} {x n : Nat} : (goodData d flash x n).length ≤ n := by
  unfold goodData
  exact (List.length_filterMap_le _ _).trans (List.length_range' ..).le

/-- What a call reads, with the header all in its block. -/
theorem Accepted.places (h : Accepted c flash offset dataSize block data) {k : Nat} (hk : c.d.erasesize = 2 ^ k)
    (hbits : 32 ≤ c.bits) (hlen : flash.length = c.d.size) (hsize : c.d.size < 2 ^ 31)
    (hfits : offset % c.d.erasesize + 12 ≤ c.d.erasesize) :
    c.d.blockOffset offset + c.d.inBlock offset = offset ∧ c.d.blockOffset offset + c.d.erasesize ≤ flash.length ∧
      block = slice flash (c.d.blockOffset offset) c.d.erasesize ∧ block.length = c.d.erasesize ∧
      c.d.inBlock offset + 12 ≤ block.length ∧ (offset + 12) % 2 ^ c.bits = offset + 12 ∧
      data = goodData c.d flash (offset + 12) (c.dataSize dataSize) := by
  obtain ⟨hend, hblock⟩ := readAt_eq_some.mp h.blockRead
  have hdiv := Nat.div_add_mod offset c.d.erasesize
  rw [Nat.mul_comm] at hdiv
  have hadd : c.d.blockOffset offset + c.d.inBlock offset = offset := by
    rw [blockOffset_eq hk, inBlock_eq hk, hdiv]
  have hlength : block.length = c.d.erasesize := by
    rw [← hblock, slice, List.length_take, List.length_drop]
    omega
  rw [← inBlock_eq hk] at hfits
  have hpow : 2 ^ 32 ≤ 2 ^ c.bits := Nat.pow_le_pow_right (by decide) hbits
  have hmod : (offset + 12) % 2 ^ c.bits = offset + 12 := Nat.mod_eq_of_lt (by omega)
  have hread := h.dataRead
  rw [hmod] at hread
  exact ⟨hadd, hend, hblock.symm, hlength, by omega, hmod, readData_spec hk hlen hsize (by omega) hread⟩

/-- The call after one that wrote the fields finds them. -/
theorem Accepted.again (h : Accepted c flash offset dataSize block data) (hadd : c.d.blockOffset offset + c.d.inBlock offset = offset)
    (hend : c.d.blockOffset offset + c.d.erasesize ≤ flash.length) (hlength : block.length = c.d.erasesize)
    (hfits : c.d.inBlock offset + 12 ≤ block.length) (hmod : (offset + 12) % 2 ^ c.bits = offset + 12)
    (hflash : flash' = writeAt flash (c.d.blockOffset offset) (writeAt block (c.d.inBlock offset + 4) (fields data)))
    (hsame : flash' = writeAt flash (offset + 4) (fields data)) : mtdFixtrx c flash' offset dataSize = some .alreadyFixed := by
  have hroom : c.d.inBlock offset + 4 + (fields data).length ≤ block.length := by
    rw [length_fields]
    omega
  have hroom' : offset + 4 + (fields data).length ≤ flash.length := by
    rw [length_fields]
    omega
  have hnew : (writeAt block (c.d.inBlock offset + 4) (fields data)).length = c.d.erasesize := (length_writeAt hroom).trans hlength
  have hlen' : flash'.length = flash.length := by
    rw [hsame, length_writeAt hroom']
  have hread : readAt flash' (c.d.blockOffset offset) c.d.erasesize = some (writeAt block (c.d.inBlock offset + 4) (fields data)) := by
    refine readAt_eq_some.mpr ⟨by omega, ?_⟩
    have hself (b : Bytes) (hb : c.d.blockOffset offset + b.length ≤ flash.length) :
        slice (writeAt flash (c.d.blockOffset offset) b) (c.d.blockOffset offset) b.length = b := slice_writeAt_self hb
    have hread := hself _ (hnew ▸ hend)
    rwa [hnew, ← hflash] at hread
  have hmagic : readAt (writeAt block (c.d.inBlock offset + 4) (fields data)) (c.d.inBlock offset) 4 = some c.magic := by
    obtain ⟨hle, hslice⟩ := readAt_eq_some.mp h.magicRead
    refine readAt_eq_some.mpr ⟨by omega, ?_⟩
    rw [slice_writeAt_before hroom (by omega), hslice]
  have hdata : readData c.d flash' ((offset + 12) % 2 ^ c.bits) (c.dataSize dataSize) = some data := by
    refine readData_congr hlen' (fun y hy => ?_) h.dataRead
    have hafter : slice _ y 1 = slice flash y 1 := slice_writeAt_after hroom' (by rw [length_fields]; omega)
    have hget (buf : Bytes) : buf[y]? = (slice buf y 1)[0]? := by simp [slice]
    rw [hget, hget, hsame, hafter]
  have haccepted : Accepted c flash' offset dataSize (writeAt block (c.d.inBlock offset + 4) (fields data)) data :=
    ⟨h.room, h.first, hread, hmagic, h.second, hdata⟩
  have hfields : slice (writeAt block (c.d.inBlock offset + 4) (fields data)) (c.d.inBlock offset + 4) 8 = fields data :=
    slice_writeAt_self hroom
  rw [haccepted.eq, fixHeader_eq (by omega), if_pos hfields]
  rfl

/-- With the erase size a power of two, a header is fixed just if the fields up to its checksum are in one block. -/
theorem fixtrx_iff {k : Nat} (hk : c.d.erasesize = 2 ^ k) (hbits : 32 ≤ c.bits) (hlen : flash.length = c.d.size)
    (hsize : c.d.size < 2 ^ 31) (h : mtdFixtrx c flash offset dataSize ≠ some .rejected) :
    Fixes c flash offset dataSize ↔ offset % c.d.erasesize + 12 ≤ c.d.erasesize := by
  constructor
  · -- a header that is cut off is read behind the end of the buffer
    intro hfixes
    by_contra hcut
    have hnone : mtdFixtrx c flash offset dataSize = none := by
      rcases accepted_of_ne h with ⟨block, data, haccepted⟩ | ⟨hnone, -⟩
      · obtain ⟨hend, hblock⟩ := readAt_eq_some.mp haccepted.blockRead
        have hlength : block.length = c.d.erasesize := by
          rw [← hblock, slice, List.length_take, List.length_drop]
          omega
        rw [haccepted.eq, fixHeader_eq_none (by rw [inBlock_eq hk]; omega)]
        rfl
      · exact hnone
    rw [Fixes, hnone] at hfixes
    rcases hfixes.2 with ⟨h, -⟩ | ⟨flash', h, -⟩
    · cases h
    · cases h
  · intro hfits
    obtain ⟨block, data, haccepted⟩ : ∃ block data, Accepted c flash offset dataSize block data := by
      rcases accepted_of_ne h with haccepted | ⟨-, block, hblock, hmagic⟩
      · exact haccepted
      · obtain ⟨hend, hslice⟩ := readAt_eq_some.mp hblock
        have hlength : block.length = c.d.erasesize := by
          rw [← hslice, slice, List.length_take, List.length_drop]
          omega
        rw [readAt, if_pos (by rw [inBlock_eq hk]; omega)] at hmagic
        cases hmagic
    obtain ⟨hadd, hend, hblock, hlength, hinside, hmod, hdata⟩ := haccepted.places hk hbits hlen hsize hfits
    have hrun := haccepted.eq
    rw [fixHeader_eq hinside] at hrun
    have hfields : slice block (c.d.inBlock offset + 4) 8 = slice flash (offset + 4) 8 := by
      rw [hblock, slice_slice (by omega), ← Nat.add_assoc, hadd]
    refine ⟨length_goodData_le, ?_⟩
    rw [← hdata]
    by_cases hsame : slice block (c.d.inBlock offset + 4) 8 = fields data
    · rw [if_pos hsame] at hrun
      exact Or.inl ⟨hrun, hfields ▸ hsame⟩
    · rw [if_neg hsame] at hrun
      simp only [Option.map_some, writeBack] at hrun
      cases herases : c.d.erases (c.d.blockOffset offset) with
      | false =>
        rw [herases] at hrun
        exact absurd hrun h
      | true =>
        rw [herases, if_pos rfl] at hrun
        have hpos : 0 < c.d.erasesize := by
          rw [hk]
          exact Nat.two_pow_pos k
        have hnumber : c.d.blockOffset offset / c.d.erasesize = offset / c.d.erasesize := by
          rw [blockOffset_eq hk, Nat.mul_div_cancel _ hpos]
        have hwritten : writeAt flash (c.d.blockOffset offset) (writeAt block (c.d.inBlock offset + 4) (fields data)) =
            writeAt flash (offset + 4) (fields data) := by
          rw [← writeAt_writeAt (by omega) (by rw [length_fields]; omega), ← Nat.add_assoc, hadd, hblock, writeAt_slice hend]
        rw [hnumber, hwritten] at hrun
        exact Or.inr ⟨_, hrun, rfl, haccepted.again hadd hend hlength hinside hmod hwritten.symm rfl⟩

end

/-- A NAND flash of two blocks of 64 KiB. -/
def twoBlocks : Call := ⟨32, ⟨⟨65536, 2, fun _ => false⟩, true⟩, [72, 68, 82, 48], fun _ => true⟩

/-- A header at a place in such a flash. -/
def headerAt (offset : Nat) : Bytes := writeAt (List.replicate 131072 0) offset twoBlocks.magic

theorem length_headerAt {offset : Nat} (h : offset + 4 ≤ 131072) : (headerAt offset).length = 131072 :=
  (length_writeAt (by rw [List.length_replicate]; exact h)).trans List.length_replicate

theorem length_firstBlock {offset : Nat} (h : offset + 4 ≤ 131072) : (slice (headerAt offset) 0 65536).length = 65536 := by
  rw [slice, List.length_take, List.length_drop, length_headerAt h]
  rfl

/-- Data of one block is read in one round. -/
theorem readData_one {d : Device} {flash chunk : Bytes} {x n : Nat} (hpos : 0 < n) (hbad : d.blockIsBad (d.blockOffset x) = some false)
    (hchunk : min (d.erasesize - d.inBlock x) n = n) (hread : readAt flash x n = some chunk) : readData d flash x n = some chunk := by
  rw [readData, if_neg hpos.ne']
  simp only [hchunk, if_pos hpos, hbad, hread, Bool.false_eq_true, if_false]
  rw [readData, if_pos (Nat.sub_self n)]
  simp

/-- A call for a header in the first block, the data of which is in one block. -/
theorem accepted_headerAt {offset : Nat} (hoffset : offset + 4 ≤ 65536) (hblock : twoBlocks.d.inBlock offset = offset)
    (hx : (offset + 12) % 2 ^ 32 = offset + 12) (hroom : offset + 12 + 65524 ≤ 131072)
    (hbad : twoBlocks.d.blockIsBad (twoBlocks.d.blockOffset (offset + 12)) = some false)
    (hchunk : min (65536 - twoBlocks.d.inBlock (offset + 12)) 65524 = 65524) :
    Accepted twoBlocks (headerAt offset) offset 0 (slice (headerAt offset) 0 65536) (slice (headerAt offset) (offset + 12) 65524) where
  room := by
    have hbits : (offset + 12) % 2 ^ twoBlocks.bits = offset + 12 := hx
    have hsize : twoBlocks.dataSize 0 = 65524 := rfl
    have hall : twoBlocks.d.size = 131072 := rfl
    rw [hbits, hsize, hall]
    exact (Nat.mod_le _ _).trans hroom
  first := rfl
  blockRead := by
    have hstart : twoBlocks.d.blockOffset offset = 0 := by rw [Device.blockOffset, hblock, Nat.sub_self]
    have hsize : twoBlocks.d.erasesize = 65536 := rfl
    rw [hstart, hsize]
    exact if_pos (by rw [length_headerAt (by omega)]; decide)
  magicRead := by
    rw [hblock, readAt, if_pos (by rw [length_firstBlock (by omega)]; exact hoffset), slice_slice (by omega), Nat.zero_add]
    exact congrArg some (slice_writeAt_self (by rw [List.length_replicate]; exact hoffset.trans (by decide)))
  second := rfl
  dataRead := by
    have hbits : (offset + 12) % 2 ^ twoBlocks.bits = offset + 12 := hx
    have hsize : twoBlocks.dataSize 0 = 65524 := rfl
    rw [hbits, hsize]
    exact readData_one (by decide) hbad hchunk (if_pos (by rw [length_headerAt (by omega)]; exact hroom))

theorem fixtrx_first : Fixes twoBlocks (headerAt 0) 0 0 := by
  have haccepted := @accepted_headerAt 0 (by decide) (by decide) (by decide) (by decide) (by decide) (by decide)
  have herases : twoBlocks.d.erases (twoBlocks.d.blockOffset 0) = true := by decide
  refine (fixtrx_iff (k := 16) rfl (by decide) (length_headerAt (by decide)) (by decide) ?_).mpr (by decide)
  rw [haccepted.eq, fixHeader_eq (by rw [length_firstBlock (by decide)]; decide)]
  split_ifs
  · simp [writeBack]
  · simp [writeBack, herases]

/-- The checksum of a header eight bytes before the end of its block is behind the buffer. -/
theorem header_cut : mtdFixtrx twoBlocks (headerAt 65528) 65528 0 = none := by
  have haccepted := @accepted_headerAt 65528 (by decide) (by decide) (by decide) (by decide) (by decide) (by decide)
  have hblock : twoBlocks.d.inBlock 65528 = 65528 := by decide
  rw [haccepted.eq, fixHeader_eq_none (by rw [length_firstBlock (by decide), hblock]; decide)]
  rfl

end RainWrt.Mtd.Trx
