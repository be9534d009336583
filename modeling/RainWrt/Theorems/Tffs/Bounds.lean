import RainWrt.Theorems.Tffs.Lookup

/-! When the TFFS reader stays in its allocations: the headers of the blocks, the links of the segments and the texts of the
    name table are all trusted. -/

namespace RainWrt.Tffs

variable {F : Flash} {val : Bytes} {pos : Nat}

/-! ### Names -/

/-- Records of an id, a text that ends with NUL, and the bytes up to a multiple of four. Those of the last one may be missing. -/
inductive NameTable : Bytes → Prop
  | last {id name pad : Bytes} (hid : id.length = 4) (hname : 0 ∉ name)
      (hpad : name.length + 1 + pad.length ≤ getWalkSize (name.length + 1)) : NameTable (id ++ name ++ 0 :: pad)
  | record {id name pad rest : Bytes} (hid : id.length = 4) (hname : 0 ∉ name)
      (hpad : name.length + 1 + pad.length = getWalkSize (name.length + 1)) (h : NameTable rest) :
      NameTable (id ++ name ++ 0 :: pad ++ rest)

section
variable {id name rest l : Bytes}

theorem takeWhile_name (hid : id.length = 4) (hname : 0 ∉ name) : ((id ++ name ++ 0 :: rest).drop 4).takeWhile (· ≠ 0) = name := by
  have hall : ∀ b ∈ name, decide (b ≠ 0) = true := fun b hb => decide_eq_true fun h => hname (h ▸ hb)
  rw [List.append_assoc, List.drop_left' hid, List.takeWhile_append_of_pos hall, List.takeWhile_cons_of_neg (by simp), List.append_nil]

/-- A text that ends inside the value. -/
theorem split_name (hname : (l.drop 4).takeWhile (· ≠ 0) = name) (hin : 4 + name.length < l.length) :
    (l.take 4).length = 4 ∧ 0 ∉ name ∧ l = l.take 4 ++ name ++ 0 :: l.drop (4 + (name.length + 1)) := by
  have hsplit := List.takeWhile_append_dropWhile (p := fun b : UInt8 => decide (b ≠ 0)) (l := l.drop 4)
  rw [hname] at hsplit
  refine ⟨by rw [List.length_take]; omega, fun h0 => ?_, ?_⟩
  · rw [← hname] at h0
    simpa using List.all_eq_true.mp List.all_takeWhile _ h0
  · cases hrest : (l.drop 4).dropWhile (· ≠ 0) with
    | nil =>
      rw [hrest, List.append_nil] at hsplit
      have := congrArg List.length hsplit
      rw [List.length_drop] at this
      omega
    | cons b rest =>
      have hb := List.head?_dropWhile_not (fun b : UInt8 => decide (b ≠ 0)) (l.drop 4)
      rw [hrest] at hb
      obtain rfl : b = 0 := by simpa using hb
      rw [hrest] at hsplit
      have hdrop : l.drop (4 + (name.length + 1)) = rest := by
        rw [← List.drop_drop, ← hsplit, List.drop_append, List.drop_of_length_le (by omega)]
        simp
      rw [hdrop, List.append_assoc, hsplit, List.take_append_drop]

theorem NameTable.lt_length (h : NameTable l) : 4 + ((l.drop 4).takeWhile (· ≠ 0)).length < l.length := by
  cases h with
  | last hid hname =>
    rw [takeWhile_name hid hname]
    simp [hid]
  | record hid hname _ _ =>
    rw [List.append_assoc _ _ _, List.cons_append, takeWhile_name hid hname]
    simp [hid]

/-- A value is a name table if what is behind its first record is one, or missing. -/
theorem nameTable_iff (hname : (l.drop 4).takeWhile (· ≠ 0) = name) (hin : 4 + name.length < l.length) :
    NameTable l ↔ l.length ≤ 4 + getWalkSize (name.length + 1) ∨ NameTable (l.drop (4 + getWalkSize (name.length + 1))) := by
  obtain ⟨hid, h0, hl⟩ := split_name hname hin
  constructor
  · intro h
    cases h with
    | @last id name' pad hid' hname' hpad =>
      rw [takeWhile_name hid' hname'] at hname
      subst hname
      left
      simp [hid']
      omega
    | @record id name' pad rest hid' hname' hpad h =>
      rw [List.append_assoc _ _ rest, List.cons_append, takeWhile_name hid' hname'] at hname
      subst hname
      right
      have hlen : (id ++ name' ++ 0 :: pad).length = 4 + getWalkSize (name'.length + 1) := by
        simp [hid']
        omega
      rwa [List.drop_left' hlen]
  · intro h
    have hwalk : name.length + 1 ≤ getWalkSize (name.length + 1) := by
      simp only [getWalkSize]
      omega
    rcases Nat.lt_or_ge (4 + getWalkSize (name.length + 1)) l.length with hlt | hge
    · have htail := List.take_append_drop (getWalkSize (name.length + 1) - (name.length + 1)) (l.drop (4 + (name.length + 1)))
      rw [List.drop_drop, Nat.add_assoc, Nat.add_sub_cancel' hwalk] at htail
      rw [hl, ← htail, ← List.cons_append, ← List.append_assoc]
      refine .record hid h0 ?_ (h.resolve_left (Nat.not_le.mpr hlt))
      rw [List.length_take, List.length_drop]
      omega
    · rw [hl]
      refine .last hid h0 ?_
      rw [List.length_drop]
      omega

end

theorem parse_faultless : parseKeyNames F val pos ≠ .error .fault ↔ NameTable (val.drop pos) := by
  fun_induction parseKeyNames F val pos with
  | case1 pos name next hin hnext ih =>
    have hname : ((val.drop pos).drop 4).takeWhile (· ≠ 0) = name := by rw [List.drop_drop]
    have hlong : ¬(val.drop pos).length ≤ 4 + getWalkSize (name.length + 1) := by
      rw [List.length_drop]
      omega
    rw [nameTable_iff hname (by rw [List.length_drop]; omega), or_iff_right hlong, List.drop_drop, ← Nat.add_assoc]
    refine Iff.trans ?_ ih
    cases parseKeyNames F val next with
    | error stop => rfl
    | ok items => simp
  | case2 pos name next hin hnext =>
    have hname : ((val.drop pos).drop 4).takeWhile (· ≠ 0) = name := by rw [List.drop_drop]
    rw [nameTable_iff hname (by rw [List.length_drop]; omega)]
    refine ⟨fun _ => .inl ?_, fun _ => by simp⟩
    rw [List.length_drop]
    omega
  | case3 pos name hout =>
    have hname : ((val.drop pos).drop 4).takeWhile (· ≠ 0) = name := by rw [List.drop_drop]
    refine ⟨fun h => absurd rfl h, fun h => absurd h.lt_length ?_⟩
    rw [hname, List.length_drop]
    omega

/-! ### Images -/

/-- A device of one block with four sectors, each of which starts with the given bytes. -/
def image (pages : List Bytes) : Flash where
  size := 0x2000
  erasesize := 0x2000
  page k := if k < 4 then some ((pages.getD k [] ++ List.replicate sectorSize 0).take sectorSize) else none
  oob _ := some (List.replicate sectorOobSize 0xff)
  bigEndian := true
  readOobSectorHealth := false
  heap := 2 ^ 32
  erasesize_ne := by decide
  length_page k p hp := by
    split_ifs at hp with hk
    obtain rfl := Option.some.inj hp
    refine ⟨by simp, ?_⟩
    change (k + 1) * 0x800 ≤ 0x2000
    omega
  length_oob k o ho := by
    obtain rfl := Option.some.inj ho
    simp

/-- `AVM_TFFS`, with the low halves of the two numbers of bad sectors. -/
def header (bad₀ bad₁ : Bytes) : Bytes :=
  [0x41, 0x56, 0x4d, 0x5f, 0x54, 0x46, 0x46, 0x53, 0, 0, 0, 3, 0, 0, 0, 2] ++ List.replicate 16 0 ++ bad₀ ++ List.replicate 4 0 ++ bad₁

/-- Segment `seg` of revision `rev` of entry 256. -/
def entrySector (rev seg next : UInt8) (val : Bytes) : Bytes :=
  [0, 0, 1, 0, 0, 0, 0, .ofNat val.length, 0, 0, 0, 0, 0, 0, 0, rev, 0, 0, 0, seg, 0, 0, 0, next] ++ val

/-- Two revisions of an entry, the newer one in two parts. -/
def partition : Flash := image [header [0, 0, 0, 0] [0, 0, 0, 0], entrySector 2 1 0 [0x62], entrySector 1 0 0 [0x78], entrySector 2 0 1 [0x61]]

/-- The state behind the scan of an image with a header and no bad sectors. -/
def scanned : State := ⟨[false, true, true, true, true, true, true, true], [0x41564d5f, 0, 0, 0]⟩

theorem partition_scanned : scanMtd partition = .ok (1, scanned) := by
  decide

/-! ### The reader -/

/-- The reader stays in its allocations exactly if the headers, the links and the name table do. -/
theorem reader_iff (F : Flash) : (scanMtd F ≠ .error .fault ↔ HeadersFit F) ∧
    (∀ s id, Reached F s → (findEntry F id s ≠ .error .fault ↔ LinksFit F (visible F id s))) ∧
    ∀ val, parseKeyNames F val 0 ≠ .error .fault ↔ NameTable val :=
  ⟨scan_faultless, fun _ _ hs => find_faultless (ready_of_reached hs).sized, fun _ => parse_faultless⟩

/-- The newest revision of the partition is found, through links that reach its parts. -/
theorem reader_iff_partition : findEntry partition 0x100 scanned = .ok (some [0x61, 0x62], ⟨scanned.sectors, [0x41564d5f, 0x100, 0x100, 0x100]⟩) ∧
    LinksFit partition (visible partition 0x100 scanned) := by
  have hfound : findEntry partition 0x100 scanned = .ok (some [0x61, 0x62], ⟨scanned.sectors, [0x41564d5f, 0x100, 0x100, 0x100]⟩) := by
    decide
  exact ⟨hfound, ((reader_iff partition).2.1 _ 0x100 (.scanned partition_scanned)).mp (by rw [hfound]; simp)⟩

/-- A number in a header is behind the end of the bitmap, and a segment is behind the one that its link names. -/
theorem reader_outside : scanMtd (image [header [0, 1, 0, 0] [0, 0, 0, 0]]) = .error .fault ∧
    ∃ s, scanMtd (image [header [0, 0, 0, 0] [0, 0, 0, 0], entrySector 1 3 1 [0x78]]) = .ok (1, s) ∧
      findEntry (image [header [0, 0, 0, 0] [0, 0, 0, 0], entrySector 1 3 1 [0x78]]) 0x100 s = .error .fault :=
  ⟨by decide, scanned, by decide, by decide⟩

end RainWrt.Tffs
