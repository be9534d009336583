import RainWrt.Mtd.Append
import RainWrt.Theorems.Mtd.Scan

/-! The entry that `add_dirent` writes is one that `mtd_parse_jffs2data` reads back, and leads to the place where the next node is
    written. Adding a file leaves the nodes that are there alone. -/

namespace RainWrt.Mtd.Jffs2

open Trx

/-! ### Numbers -/

@[simp] theorem length_stored (big : Bool) (size n : Nat) : (stored big size n).length = size := by
  cases big <;> simp [stored]

theorem foldl_stored (n init size : Nat) :
    (((List.range size).map fun i => UInt8.ofNat (n / 256 ^ i)).reverse).foldl (fun m b => m * 256 + b.toNat) init =
      init * 256 ^ size + n % 256 ^ size := by
  induction size generalizing init with
  | zero => simp [Nat.mod_one]
  | succ size ih =>
    have hbyte : (UInt8.ofNat (n / 256 ^ size)).toNat = n / 256 ^ size % 256 := UInt8.toNat_ofNat'
    rw [List.range_succ, List.map_append, List.reverse_append, List.map_singleton, List.reverse_singleton, List.singleton_append,
      List.foldl_cons, ih, hbyte, Nat.mod_pow_succ]
    generalize n / 256 ^ size % 256 = d
    ring

/-- A number that is stored is read back. -/
@[simp] theorem number_stored (big : Bool) (size n : Nat) : number big (stored big size n) = n % 256 ^ size := by
  have h := foldl_stored n 0 size
  rw [Nat.zero_mul, Nat.zero_add] at h
  cases big <;> simpa [number, stored] using h

theorem number_stored_of_lt {size n : Nat} (big : Bool) (h : n < 256 ^ size) : number big (stored big size n) = n := by
  rw [number_stored, Nat.mod_eq_of_lt h]

/-! ### Fields -/

theorem slice_skip {a b : Bytes} {off n : Nat} (h : a.length ≤ off) : slice (a ++ b) off n = slice b (off - a.length) n := by
  obtain ⟨k, rfl⟩ := Nat.exists_eq_add_of_le h
  rw [slice_append_right, Nat.add_sub_cancel_left]

theorem slice_here {a b : Bytes} {n : Nat} (h : a.length = n) : slice (a ++ b) 0 n = a := by
  rw [slice, List.drop_zero, List.take_left' h]

theorem slice_all (a : Bytes) : slice a 0 a.length = a := by rw [slice, List.drop_zero, List.take_length]

@[simp] theorem length_storedCrc (big : Bool) (bytes : Bytes) : (storedCrc big bytes).length = 4 := length_stored ..

@[simp] theorem length_nodeStart (big : Bool) (nodetype totlen : Nat) : (nodeStart big nodetype totlen).length = 8 := by
  simp [nodeStart]

section
variable {big : Bool} {type pino version ino : Nat} {name : Bytes}

@[simp] theorem length_direntStart : (direntStart big type pino version ino name).length = 32 := by simp [direntStart]

@[simp] theorem length_rawDirent : (rawDirent big type pino version ino name).length = 40 + name.length := by
  simp [rawDirent]
  omega

theorem rawDirent_magic : slice (rawDirent big type pino version ino name) 0 2 = stored big 2 jffs2MagicBitmask := by
  simp (disch := simp) [rawDirent, direntStart, nodeStart, slice_here]

theorem rawDirent_nodetype : slice (rawDirent big type pino version ino name) 2 2 = stored big 2 jffs2NodetypeDirent := by
  simp (disch := simp) [rawDirent, direntStart, nodeStart, slice_skip, slice_here]

theorem rawDirent_totlen : slice (rawDirent big type pino version ino name) 4 4 = stored big 4 (40 + name.length) := by
  simp (disch := simp) [rawDirent, direntStart, nodeStart, slice_skip, slice_here]

theorem rawDirent_pino : slice (rawDirent big type pino version ino name) 12 4 = stored big 4 pino := by
  simp (disch := simp) [rawDirent, direntStart, slice_skip, slice_here]

theorem rawDirent_version : slice (rawDirent big type pino version ino name) 16 4 = stored big 4 version := by
  simp (disch := simp) [rawDirent, direntStart, slice_skip, slice_here]

theorem rawDirent_ino : slice (rawDirent big type pino version ino name) 20 4 = stored big 4 ino := by
  simp (disch := simp) [rawDirent, direntStart, slice_skip, slice_here]

theorem rawDirent_nsize : slice (rawDirent big type pino version ino name) 28 1 = stored big 1 name.length := by
  simp (disch := simp) [rawDirent, direntStart, slice_skip, slice_here]

theorem rawDirent_name : slice (rawDirent big type pino version ino name) 40 name.length = name := by
  simp (disch := simp) [rawDirent, slice_skip, slice_all]

end

/-- The names that `strncmp` takes for the directory are its beginnings. -/
theorem strncmp_name {buf name dir : Bytes} {pos : Nat} (h0 : 0 ∉ name) (hbuf : ∀ i < name.length, buf[pos + i]? = name[i]?) :
    strncmp buf pos dir name.length = some (name.isPrefixOf dir) := by
  induction name generalizing dir pos with
  | nil => rfl
  | cons c cs ih =>
    rw [List.mem_cons, not_or] at h0
    have hc : buf[pos]? = some c := by simpa using hbuf 0 (by simp)
    cases dir with
    | nil => simp [strncmp, hc, Ne.symm h0.1]
    | cons d ds =>
      by_cases hcd : c = d
      · subst hcd
        have hrest : ∀ i < cs.length, buf[pos + 1 + i]? = cs[i]? := by
          intro i hi
          have h := hbuf (i + 1) (by simpa using hi)
          rwa [List.getElem?_cons_succ, ← Nat.add_assoc, Nat.add_right_comm] at h
        rw [List.length_cons, strncmp_same hc (Ne.symm h0.1), ih h0.2 hrest]
        simp [List.isPrefixOf]
      · rw [List.length_cons, strncmp_ne hc hcd]
        simp [List.isPrefixOf, hcd]

/-! ### Reading an entry -/

section
variable {big : Bool} {buf node dir name : Bytes} {ofs i n type pino version ino : Nat} {s : Scan}

/-- A field of a node that stands in the block. -/
theorem field_at (hat : slice buf ofs node.length = node) (hroom : ofs + node.length ≤ buf.length) (h : i + n ≤ node.length) :
    field big buf (ofs + i) n = some (number big (slice node i n)) := by
  have hslice : slice buf (ofs + i) n = slice node i n := by rw [← slice_slice h, hat]
  rw [field, if_pos (by omega), hslice]

theorem getElem?_slice {buf : Bytes} {off size i : Nat} (h : i < size) : (slice buf off size)[i]? = buf[off + i]? := by
  rw [slice, List.getElem?_take, if_pos h, List.getElem?_drop]

/-- What the scan learns of an entry. -/
def Scan.meet (dir : Bytes) (ofs pino version ino : Nat) (name : Bytes) (s : Scan) : Scan :=
  let isDir := dir ≠ [] ∧ pino = 1 ∧ name.isPrefixOf dir
  { targetIno := if isDir then ino else s.targetIno
    lastIno := max s.lastIno ino
    lastVersion := max s.lastVersion version
    sets := if isDir then s.sets ++ [ofs] else s.sets }

theorem parseNode_dirent (hat : slice buf ofs (40 + name.length) = rawDirent big type pino version ino name)
    (hroom : ofs + (40 + name.length) ≤ buf.length) (hname : 0 ∉ name) (hlen : name.length < 256) (hp : pino < 2 ^ 32)
    (hv : version < 2 ^ 32) (hi : ino < 2 ^ 32) :
    parseNode big buf dir ofs s =
      some (some ((ofs + PAD (40 + name.length)) % 2 ^ 32, Scan.meet dir ofs pino version ino name s)) := by
  have hnode : slice buf ofs (rawDirent big type pino version ino name).length = rawDirent big type pino version ino name := by
    rw [length_rawDirent, hat]
  have hin : ofs + (rawDirent big type pino version ino name).length ≤ buf.length := by rwa [length_rawDirent]
  have hfield : ∀ i n, i + n ≤ 40 + name.length →
      field big buf (ofs + i) n = some (number big (slice (rawDirent big type pino version ino name) i n)) :=
    fun i n h => field_at hnode hin (by rwa [length_rawDirent])
  have hmagic : field big buf ofs 2 = some jffs2MagicBitmask := by
    have h := hfield 0 2 (by omega)
    rwa [Nat.add_zero, rawDirent_magic, number_stored_of_lt big (by decide)] at h
  have htype : field big buf (ofs + 2) 2 = some jffs2NodetypeDirent := by
    rw [hfield 2 2 (by omega), rawDirent_nodetype, number_stored_of_lt big (by decide)]
  have htotlen : field big buf (ofs + 4) 4 = some (40 + name.length) := by
    rw [hfield 4 4 (by omega), rawDirent_totlen, number_stored_of_lt big (by omega)]
  have hpino : field big buf (ofs + 12) 4 = some pino := by
    rw [hfield 12 4 (by omega), rawDirent_pino, number_stored_of_lt big (by omega)]
  have hversion : field big buf (ofs + 16) 4 = some version := by
    rw [hfield 16 4 (by omega), rawDirent_version, number_stored_of_lt big (by omega)]
  have hino : field big buf (ofs + 20) 4 = some ino := by
    rw [hfield 20 4 (by omega), rawDirent_ino, number_stored_of_lt big (by omega)]
  have hnsize : field big buf (ofs + 28) 1 = some name.length := by
    rw [hfield 28 1 (by omega), rawDirent_nsize, number_stored_of_lt big (by omega)]
  have hbytes : ∀ i < name.length, buf[ofs + 40 + i]? = name[i]? := by
    intro i hi
    have h : slice buf (ofs + 40) name.length = name := by
      rw [← slice_slice (show 40 + name.length ≤ 40 + name.length from Nat.le_refl _), hat, rawDirent_name]
    rw [← getElem?_slice hi, h]
  have hcmp : strncmp buf (ofs + 40) dir name.length = some (name.isPrefixOf dir) := strncmp_name hname hbytes
  have hlook : lookAt big buf dir ofs s = some { s with
      targetIno := (Scan.meet dir ofs pino version ino name s).targetIno, sets := (Scan.meet dir ofs pino version ino name s).sets } := by
    unfold lookAt Scan.meet
    by_cases hd : dir = []
    · simp [hd]
    · by_cases h1 : pino = 1
      · by_cases hpre : name.isPrefixOf dir = true
        · simp [hd, hpino, h1, hnsize, hcmp, hpre, hino]
        · simp [hd, hpino, h1, hnsize, hcmp, hpre]
      · simp [hd, hpino, h1]
  have hend : ¬buf.length ≤ ofs := by omega
  unfold parseNode
  rw [if_neg hend]
  simp [hmagic, htotlen, htype, hlook, store, hino, hversion, Scan.meet]

end

/-! ### Writing -/

section
variable {h : Host} {s : Writer} {name : Bytes}

/-- The buffer is left as it was before an offset. -/
def Keeps (buf buf' : Bytes) (ofs : Nat) : Prop :=
  buf'.length = buf.length ∧ ∀ i n, i + n ≤ ofs → slice buf' i n = slice buf i n

theorem Keeps.trans {a b c : Bytes} {o o' : Nat} (h : Keeps a b o) (h' : Keeps b c o') (hle : o ≤ o') : Keeps a c o :=
  ⟨h'.1.trans h.1, fun i n hi => (h'.2 i n (by omega)).trans (h.2 i n hi)⟩

theorem storeAt_keeps (buf : Bytes) (ofs : Nat) (data : Bytes) (hroom : ofs + data.length ≤ buf.length) :
    ∃ buf', storeAt buf ofs data = some buf' ∧ Keeps buf buf' ofs ∧ slice buf' ofs data.length = data :=
  ⟨writeAt buf ofs data, if_pos hroom, ⟨length_writeAt hroom, fun _ _ hi => slice_writeAt_before hroom hi⟩, slice_writeAt_self hroom⟩

/-- Padding that does not fill the block. -/
theorem pad_inside {d : Device} (hbuf : s.buf.length = d.erasesize) (hroom : (s.ofs + 3) / 4 * 4 < d.erasesize) :
    ∃ buf, pad d 4 s = some { s with buf, ofs := (s.ofs + 3) / 4 * 4 } ∧ Keeps s.buf buf s.ofs := by
  by_cases h0 : s.ofs % 4 = 0
  · have hofs : (s.ofs + 3) / 4 * 4 = s.ofs := by omega
    refine ⟨s.buf, ?_, rfl, fun _ _ _ => rfl⟩
    rw [pad, if_pos ⟨h0, by omega⟩, hofs]
  · have hofs : s.ofs + (4 - s.ofs % 4) = (s.ofs + 3) / 4 * 4 := by omega
    have hlt : s.ofs < d.erasesize := by omega
    obtain ⟨buf, hstore, hkeeps, -⟩ := storeAt_keeps s.buf s.ofs
      (.replicate (4 - s.ofs % 4) 0xff) (by rw [List.length_replicate]; omega)
    refine ⟨buf, ?_, hkeeps⟩
    have hmod : (s.ofs + 3) / 4 * 4 % d.erasesize = (s.ofs + 3) / 4 * 4 := Nat.mod_eq_of_lt hroom
    have hpos : (s.ofs + 3) / 4 * 4 ≠ 0 := by omega
    rw [pad, if_neg (fun h => h0 h.1), if_pos hlt]
    simp [Writer.put, hstore, hofs, hmod, hpos]

/-- The size of a block that the machine can address. -/
structure Host.Sane (h : Host) : Prop where
  small : h.d.erasesize < 2 ^ 31
  bits : 32 ≤ h.bits

@[simp] theorem length_cleanMarker (big : Bool) : (cleanMarker big).length = 12 := by cases big <;> rfl

/-- Where the next node is put: behind the marker, in a block that is not begun. -/
def Writer.start (s : Writer) : Nat := if s.ofs = 0 then 12 else s.ofs

/-- A block is begun with the marker. -/
theorem prepEraseblock_inside (big : Bool) (hroom : s.start ≤ s.buf.length) :
    ∃ buf, prepEraseblock big s = some { s with buf, ofs := s.start } ∧ Keeps s.buf buf s.ofs ∧ (s.ofs = 0 → slice buf 0 12 = cleanMarker big) := by
  unfold Writer.start at hroom ⊢
  by_cases h0 : s.ofs = 0
  · rw [if_pos h0] at hroom ⊢
    obtain ⟨buf, hstore, hkeeps, hmarker⟩ := storeAt_keeps s.buf s.ofs (cleanMarker big) (by rw [length_cleanMarker]; omega)
    rw [length_cleanMarker, h0] at hmarker
    refine ⟨buf, ?_, hkeeps, fun _ => hmarker⟩
    rw [prepEraseblock, if_neg (by omega), Writer.put, hstore, length_cleanMarker, h0]
    rfl
  · rw [if_neg h0] at hroom ⊢
    refine ⟨s.buf, ?_, ⟨rfl, fun _ _ _ => rfl⟩, fun h => absurd h h0⟩
    rw [prepEraseblock, if_pos (Nat.pos_of_ne_zero h0)]

/-- The scan goes past the marker and learns nothing of it. -/
theorem parseNode_marker {big : Bool} {buf : Bytes} (hmarker : slice buf 0 12 = cleanMarker big) (hroom : 12 ≤ buf.length) (dir : Bytes) (scan : Scan) :
    parseNode big buf dir 0 scan = some (some (12, scan)) := by
  have hat : slice buf 0 (cleanMarker big).length = cleanMarker big := by rw [length_cleanMarker, hmarker]
  have hin : 0 + (cleanMarker big).length ≤ buf.length := by rwa [length_cleanMarker, Nat.zero_add]
  have hmagic : field big buf 0 2 = some jffs2MagicBitmask := by
    rw [show (0 : Nat) = 0 + 0 from rfl, field_at hat hin (by simp)]
    cases big <;> rfl
  have htotlen : field big buf (0 + 4) 4 = some 12 := by
    rw [field_at hat hin (by simp)]
    cases big <;> rfl
  have htype : field big buf (0 + 2) 2 = some 0x2003 := by
    rw [field_at hat hin (by simp)]
    cases big <;> rfl
  unfold parseNode
  rw [if_neg (by omega)]
  simp [hmagic, htotlen, htype, PAD, jffs2NodetypeDirent]

/-- An entry for which there is room in the block is written behind what is there. -/
theorem addDirent_inside (hs : h.Sane) (hbuf : s.buf.length = h.d.erasesize) (hlen : name.length < 256)
    (hroom : (s.start + 40 + name.length + 3) / 4 * 4 < h.d.erasesize) (type parent : Nat) :
    ∃ buf, addDirent h name type parent s = some (s.lastIno + 1,
        { s with buf, ofs := (s.start + 40 + name.length + 3) / 4 * 4, lastIno := s.lastIno + 2, lastVersion := s.lastVersion + 1 }) ∧
      Keeps s.buf buf s.ofs ∧ (s.ofs = 0 → slice buf 0 12 = cleanMarker h.big) ∧
      slice buf s.start (40 + name.length) = rawDirent h.big type parent s.lastVersion (s.lastIno + 1) name := by
  have hbits : (2 : Nat) ^ 32 ≤ 2 ^ h.bits := Nat.pow_le_pow_right (by omega) hs.bits
  have hsmall := hs.small
  have hstart : s.ofs ≤ s.start := by
    unfold Writer.start
    split_ifs <;> omega
  have hmarked : s.ofs = 0 → 12 ≤ s.start := fun h0 => by rw [Writer.start, if_pos h0]
  have htest : ¬(2 ^ h.bits + s.ofs - h.d.erasesize) % 2 ^ h.bits < 40 + name.length := by
    rw [Nat.mod_eq_of_lt (by omega)]
    omega
  obtain ⟨buf₀, hprep, hkeeps₀, hmarker⟩ := prepEraseblock_inside h.big (s := s) (by omega)
  obtain ⟨buf, hstore, hkeeps, hnode⟩ := storeAt_keeps buf₀ s.start
    (rawDirent h.big type parent s.lastVersion (s.lastIno + 1) name) (by rw [length_rawDirent, hkeeps₀.1]; omega)
  rw [length_rawDirent] at hnode
  obtain ⟨buf', hpad, hkeeps'⟩ := pad_inside (d := h.d) (s := { s with
    buf, ofs := s.start + 40 + name.length, lastIno := s.lastIno + 2, lastVersion := s.lastVersion + 1 })
    ((hkeeps.1.trans hkeeps₀.1).trans hbuf) hroom
  have hbehind := hkeeps.trans hkeeps' (by simp only; omega)
  refine ⟨buf', ?_, hkeeps₀.trans hbehind hstart, fun h0 => ?_, ?_⟩
  · rw [addDirent, if_neg htest]
    simp [hprep, hstore, Nat.mod_eq_of_lt hlen, hpad]
  · rw [hbehind.2 _ _ (by have := hmarked h0; omega), hmarker h0]
  · rw [hkeeps'.2 _ _ (by simp only; omega), hnode]

/-- The scan reads back an entry that has been written, and goes on where the writer does. -/
theorem addDirent_parsed (hs : h.Sane) (hbuf : s.buf.length = h.d.erasesize) (hofs : s.ofs % 4 = 0)
    (hlen : name.length < 256) (hroom : (s.start + 40 + name.length + 3) / 4 * 4 < h.d.erasesize) (hname : 0 ∉ name)
    (hversion : s.lastVersion < 2 ^ 32) (hino : s.lastIno + 1 < 2 ^ 32) {parent : Nat} (hparent : parent < 2 ^ 32) (type : Nat) :
    ∃ t, addDirent h name type parent s = some (s.lastIno + 1, t) ∧ Keeps s.buf t.buf s.ofs ∧
      (s.ofs = 0 → slice t.buf 0 12 = cleanMarker h.big ∧ ∀ dir scan, parseNode h.big t.buf dir 0 scan = some (some (s.start, scan))) ∧
      ∀ dir scan, parseNode h.big t.buf dir s.start scan =
        some (some (t.ofs, Scan.meet dir s.start parent s.lastVersion (s.lastIno + 1) name scan)) := by
  obtain ⟨buf, hadd, hkeeps, hmarker, hnode⟩ := addDirent_inside hs hbuf hlen hroom type parent
  have hsmall := hs.small
  have hinside : s.start + (40 + name.length) ≤ buf.length := by
    rw [hkeeps.1, hbuf]
    omega
  have hstart : s.start % 4 = 0 := by
    unfold Writer.start
    split_ifs <;> omega
  refine ⟨_, hadd, hkeeps, fun h0 => ⟨hmarker h0, fun dir scan => ?_⟩, fun dir scan => ?_⟩
  · rw [Writer.start, if_pos h0]
    exact parseNode_marker (hmarker h0) (by omega) dir scan
  · have hnext : (s.start + PAD (40 + name.length)) % 2 ^ 32 = (s.start + 40 + name.length + 3) / 4 * 4 := by
      rw [PAD]
      omega
    rw [← hnext]
    exact parseNode_dirent hnode hinside hname hlen hparent hversion hino

end

/-- A machine with a flash of eight good blocks. -/
def goodHost : Host := { d := { erasesize := 131072, count := 8, bad := fun _ => false, nand := true }, big := false, bits := 32 }

/-- The writer before its first node. -/
def unbegun : Writer where
  blocks _ := goodHost.d.erased
  mtdofs := 0
  buf := .replicate 131072 0xff
  lastIno := 1
  lastVersion := 0

/-- The first entry stands behind the marker. -/
theorem addDirent_parsed_unbegun : ∃ t, addDirent goodHost [0x61] dtReg 1 unbegun = some (2, t) ∧ slice t.buf 0 12 = cleanMarker false ∧
    ∀ dir scan, parseNode false t.buf dir 0 scan = some (some (12, scan)) ∧
      parseNode false t.buf dir 12 scan = some (some (t.ofs, Scan.meet dir 12 1 0 2 [0x61] scan)) := by
  have hbuf : unbegun.buf.length = 131072 := List.length_replicate
  have hsane : goodHost.Sane := ⟨by decide, by decide⟩
  obtain ⟨t, hadd, -, hmarker, hentry⟩ := @addDirent_parsed goodHost unbegun [0x61] hsane hbuf (by decide) (by decide) (by decide) (by decide) (by decide)
    (by decide) 1 (by decide) dtReg
  exact ⟨t, hadd, (hmarker rfl).1, fun dir scan => ⟨(hmarker rfl).2 dir scan, hentry dir scan⟩⟩

/-! ### What is left alone -/

/-- The writer goes on from `s` to `t`: the blocks before its place and the bad blocks are as they were. -/
structure Onward (d : Device) (s t : Writer) : Prop where
  mtdofs : s.mtdofs ≤ t.mtdofs
  before : ∀ b < s.mtdofs / d.erasesize, t.blocks b = s.blocks b
  bad : d.nand = true → ∀ b, d.bad b = true → t.blocks b = s.blocks b

section
variable {d : Device} {s t u : Writer} {h : Host} {size ino offset parent : Nat} {data name dir path : Bytes} {f : File}

theorem Onward.of_eq (hofs : t.mtdofs = s.mtdofs) (hblocks : t.blocks = s.blocks) : Onward d s t :=
  ⟨hofs ▸ Nat.le_refl _, fun b _ => congrFun hblocks b, fun _ b _ => congrFun hblocks b⟩

theorem Onward.refl : Onward d s s := .of_eq rfl rfl

theorem Onward.trans (h : Onward d s t) (h' : Onward d t u) : Onward d s u where
  mtdofs := Nat.le_trans h.mtdofs h'.mtdofs
  before b hb := (h'.before b (Nat.lt_of_lt_of_le hb (Nat.div_le_div_right h.mtdofs))).trans (h.before b hb)
  bad hn b hb := (h'.bad hn b hb).trans (h.bad hn b hb)

/-- The loop ends at a good block, or behind the partition. -/
theorem skipBad_spec {rounds pos pos' : Nat} (hskip : skipBad d rounds pos = some pos') :
    pos ≤ pos' ∧ ∃ bad, d.blockIsBad pos' = some bad ∧ (bad = true → d.size ≤ pos') := by
  induction rounds generalizing pos with
  | zero => cases hskip
  | succ rounds ih =>
    obtain ⟨bad, hbad, hskip⟩ := Option.bind_eq_some_iff.mp hskip
    split at hskip
    · obtain ⟨hle, hend⟩ := ih hskip
      exact ⟨by omega, hend⟩
    · next hstop =>
      cases hskip
      refine ⟨Nat.le_refl _, bad, hbad, fun htrue => ?_⟩
      rw [htrue] at hstop
      simpa using hstop

theorem good_of_blockIsBad {pos : Nat} (hsize : d.size < 2 ^ 31) (hn : d.nand = true) (hpos : pos ≤ d.size) {bad : Bool}
    (h : d.blockIsBad pos = some bad) : pos < d.size ∧ d.bad (pos / d.erasesize) = bad := by
  have hint : toInt pos = pos := by
    unfold toInt
    rw [Nat.mod_eq_of_lt (by omega)]
    exact if_pos (by omega)
  rw [Device.blockIsBad, if_pos hn, mtdBlockIsBad, hint] at h
  split_ifs at h with hout
  exact ⟨by omega, by simpa using h⟩

theorem onward_flush (hsize : d.size < 2 ^ 31) (h : flush d s = some t) : Onward d s t := by
  obtain ⟨m, hskip, h⟩ := Option.bind_eq_some_iff.mp h
  obtain ⟨hle, bad, hbad, hend⟩ := skipBad_spec hskip
  cases h
  have hblocks : ∀ b, b ≠ m / d.erasesize ∨ d.size < m + d.erasesize →
      (if m + d.erasesize ≤ d.size then overwrite s.blocks (m / d.erasesize) (if d.erases m then d.erased else s.blocks (m / d.erasesize)) s.buf
        else s.blocks) b = s.blocks b := by
    intro b hb
    split_ifs with hin
    · exact if_neg (hb.resolve_right (by omega))
    · exact if_neg (hb.resolve_right (by omega))
    · rfl
  refine ⟨by simp only; omega, fun b hb => hblocks b (.inl ?_), fun hn b hb => hblocks b ?_⟩
  · exact Nat.ne_of_lt (Nat.lt_of_lt_of_le hb (Nat.div_le_div_right hle))
  · by_contra hwritten
    push Not at hwritten
    obtain ⟨rfl, hin⟩ := hwritten
    obtain ⟨hlt, hgood⟩ := good_of_blockIsBad hsize hn (Nat.le_of_add_right_le hin) hbad
    have := hend (hgood.symm.trans hb)
    omega

theorem onward_put (h : s.put data = some t) : Onward d s t := by
  obtain ⟨buf, -, rfl⟩ := Option.map_eq_some_iff.mp h
  exact .of_eq rfl rfl

/-- A step that is only made sometimes. -/
theorem onward_ite {β : Type} {c : Prop} [Decidable c] (step : Writer → Option Writer) {rest : Writer → Option β} {res : β}
    (h : (if c then step s >>= rest else some s >>= rest) = some res) (hstep : ∀ u, step s = some u → Onward d s u) :
    ∃ u, Onward d s u ∧ rest u = some res := by
  split at h
  · obtain ⟨u, hu, h⟩ := Option.bind_eq_some_iff.mp h
    exact ⟨u, hstep u hu, h⟩
  · exact ⟨s, .refl, h⟩

theorem onward_pad (hsize : d.size < 2 ^ 31) (h : pad d size s = some t) : Onward d s t := by
  unfold pad at h
  split at h
  · cases h
    exact .refl
  · obtain ⟨u, hu, h⟩ := onward_ite (d := d) (fun s => s.put (.replicate (size - s.ofs % size) 0xff)) h fun u hu => onward_put hu
    have hofs : Onward d u { u with ofs := u.ofs % d.erasesize } := .of_eq rfl rfl
    dsimp only at h
    split at h
    · exact hu.trans (hofs.trans (onward_flush hsize h))
    · cases h
      exact hu.trans hofs

theorem onward_prepEraseblock {big : Bool} (h : prepEraseblock big s = some t) : Onward d s t := by
  unfold prepEraseblock at h
  split at h
  · cases h
    exact .refl
  · exact onward_put h

theorem onward_begin {big : Bool} (hsize : d.size < 2 ^ 31) (h : (pad d size s >>= prepEraseblock big) = some t) : Onward d s t := by
  obtain ⟨u, hpad, hprep⟩ := Option.bind_eq_some_iff.mp h
  exact (onward_pad hsize hpad).trans (onward_prepEraseblock hprep)

theorem onward_addData (hsize : h.d.size < 2 ^ 31) (hadd : addData h data s = some t) : Onward h.d s t := by
  obtain ⟨u, hu, hput⟩ := onward_ite (fun s => pad h.d h.d.erasesize s >>= prepEraseblock h.big) hadd fun u => onward_begin hsize
  exact hu.trans (onward_put hput)

theorem onward_addDirent {type : Nat} (hsize : h.d.size < 2 ^ 31) (hadd : addDirent h name type parent s = some (ino, t)) : Onward h.d s t := by
  obtain ⟨u, hu, hadd⟩ := onward_ite (pad h.d h.d.erasesize) hadd fun u => onward_pad hsize
  obtain ⟨v, hprep, hadd⟩ := Option.bind_eq_some_iff.mp hadd
  obtain ⟨buf, -, hadd⟩ := Option.bind_eq_some_iff.mp hadd
  obtain ⟨w, hend, hadd⟩ := Option.bind_eq_some_iff.mp hadd
  cases hadd
  have hnode : Onward h.d v { v with buf, ofs := v.ofs + 40 + name.length % 256, lastIno := v.lastIno + 2, lastVersion := v.lastVersion + 1 } := .of_eq rfl rfl
  exact (hu.trans (onward_prepEraseblock hprep)).trans (hnode.trans (onward_pad hsize hend))

theorem onward_addDir (hsize : h.d.size < 2 ^ 31) (hadd : addDir h name parent s = some (ino, t)) : Onward h.d s t := by
  obtain ⟨⟨inode, u⟩, hdirent, hadd⟩ := Option.bind_eq_some_iff.mp hadd
  obtain ⟨v, hv, hadd⟩ := onward_ite (pad h.d h.d.erasesize) hadd fun u => onward_pad hsize
  obtain ⟨w, hprep, hadd⟩ := Option.bind_eq_some_iff.mp hadd
  obtain ⟨x, hdata, hadd⟩ := Option.bind_eq_some_iff.mp hadd
  obtain ⟨y, hend, hadd⟩ := Option.bind_eq_some_iff.mp hadd
  cases hadd
  exact ((onward_addDirent hsize hdirent).trans hv).trans
    ((onward_prepEraseblock hprep).trans ((onward_addData hsize hdata).trans (onward_pad hsize hend)))

theorem onward_makeRoom (hsize : h.d.size < 2 ^ 31) {rounds : Nat} (hroom : makeRoom h rounds s = some t) : Onward h.d s t := by
  induction rounds generalizing s with
  | zero => cases hroom
  | succ rounds ih =>
    unfold makeRoom at hroom
    split at hroom
    · cases hroom
      exact .refl
    · obtain ⟨v, hbegin, hroom⟩ := Option.bind_eq_some_iff.mp hroom
      obtain ⟨u, hpad, hprep⟩ := Option.bind_eq_some_iff.mp hbegin
      exact ((onward_pad hsize hpad).trans (onward_prepEraseblock hprep)).trans (ih hroom)

theorem onward_addPiece (hsize : h.d.size < 2 ^ 31) (hadd : addPiece h f ino offset data s = some t) : Onward h.d s t := by
  obtain ⟨u, hnode, hadd⟩ := Option.bind_eq_some_iff.mp hadd
  obtain ⟨v, hdata, hadd⟩ := Option.bind_eq_some_iff.mp hadd
  obtain ⟨w, hend, hprep⟩ := Option.bind_eq_some_iff.mp hadd
  have hversion : Onward h.d s { s with lastVersion := s.lastVersion + 1 } := .of_eq rfl rfl
  exact (hversion.trans (onward_addData hsize hnode)).trans ((onward_addData hsize hdata).trans ((onward_pad hsize hend).trans (onward_prepEraseblock hprep)))

theorem onward_addPieces (hsize : h.d.size < 2 ^ 31) {rest : Bytes} (hadd : addPieces h f ino offset rest s = some t) : Onward h.d s t := by
  induction offset, rest, s using addPieces.induct h with
  | case1 offset rest s hroom =>
    rw [addPieces, hroom] at hadd
    cases hadd
  | case2 offset rest s u hroom hend =>
    rw [addPieces, hroom] at hadd
    dsimp only at hadd
    rw [if_pos hend] at hadd
    cases hadd
    exact onward_makeRoom hsize hroom
  | case3 offset rest s u hroom hmore ih =>
    rw [addPieces, hroom] at hadd
    dsimp only at hadd
    rw [if_neg hmore] at hadd
    obtain ⟨v, hpiece, hadd⟩ := Option.bind_eq_some_iff.mp hadd
    exact (onward_makeRoom hsize hroom).trans ((onward_addPiece hsize hpiece).trans (ih v hadd))

theorem onward_addFile {file : Option File} (hsize : h.d.size < 2 ^ 31) (hadd : addFile h path file parent s = some t) : Onward h.d s t := by
  cases file with
  | none =>
    cases hadd
    exact .refl
  | some f =>
    obtain ⟨⟨inode, u⟩, hdirent, hadd⟩ := Option.bind_eq_some_iff.mp hadd
    have hu := onward_addDirent hsize hdirent
    dsimp only at hadd
    split at hadd
    · cases hadd
      exact hu
    · exact hu.trans (onward_addPieces hsize hadd)

theorem onward_finish (hsize : h.d.size < 2 ^ 31) (hend : finish h s = some t) : Onward h.d s t := by
  obtain ⟨v, hmark, hlast⟩ := Option.bind_eq_some_iff.mp hend
  obtain ⟨u, hpad, hdata⟩ := Option.bind_eq_some_iff.mp hmark
  exact ((onward_pad hsize hpad).trans (onward_addData hsize hdata)).trans (onward_pad hsize hlast)

theorem onward_append {file : Option File} {target : Nat} (hsize : h.d.size < 2 ^ 31) (happ : append h path file dir target s = some t) :
    Onward h.d s t := by
  unfold append at happ
  dsimp only at happ
  split at happ
  · obtain ⟨⟨inode, u⟩, hdir, happ⟩ := Option.bind_eq_some_iff.mp happ
    obtain ⟨v, hfile, hend⟩ := Option.bind_eq_some_iff.mp happ
    exact (onward_addDir hsize hdir).trans ((onward_addFile hsize hfile).trans (onward_finish hsize hend))
  · obtain ⟨⟨inode, u⟩, hsome, happ⟩ := Option.bind_eq_some_iff.mp happ
    cases hsome
    obtain ⟨v, hfile, hend⟩ := Option.bind_eq_some_iff.mp happ
    exact (onward_addFile hsize hfile).trans (onward_finish hsize hend)

/-- The search ends at the first block that does not begin with a node. -/
theorem search_free {big : Bool} {blocks : Nat → Bytes} {left k₀ k : Nat} {scan found : Scan}
    (hsearch : search big blocks dir left k₀ scan = some (.free k found)) : field big (blocks k) 0 2 ≠ some jffs2MagicBitmask := by
  induction left generalizing k₀ scan with
  | zero => cases hsearch
  | succ left ih =>
    obtain ⟨magic, hmagic, hsearch⟩ := Option.bind_eq_some_iff.mp hsearch
    split_ifs at hsearch with hendian hnode
    · cases hsearch
    · cases hsearch
      exact fun heq => hnode (Option.some.inj (hmagic.symm.trans heq))
    · split at hsearch
      · exact ih hsearch
      · cases hsearch

/-- Where a file is added, the nodes that are there stay, up to the first block that does not begin with one, and no bad block is
    written. Where nothing is added, nothing is changed. -/
theorem mtdWriteJffs2_leaves {file : Option File} {blocks blocks' : Nat → Bytes} {ok : Bool} (hpos : 0 < h.d.erasesize) (hsize : h.d.size < 2 ^ 31)
    (hwrite : mtdWriteJffs2 h path file dir blocks = some (ok, blocks')) :
    (ok = false → blocks' = blocks) ∧
      ∀ b, (∀ j ≤ b, field h.big (blocks j) 0 2 = some jffs2MagicBitmask) ∨ (h.d.nand = true ∧ h.d.bad b = true) → blocks' b = blocks b := by
  obtain ⟨searched, hsearch, hwrite⟩ := Option.bind_eq_some_iff.mp hwrite
  cases searched with
  | wrongEndian =>
    cases hwrite
    exact ⟨fun _ => rfl, fun _ _ => rfl⟩
  | noRoom =>
    cases hwrite
    exact ⟨fun _ => rfl, fun _ _ => rfl⟩
  | free k found =>
    obtain ⟨t, happ, hwrite⟩ := Option.bind_eq_some_iff.mp hwrite
    cases hwrite
    have honward := onward_append hsize happ
    have hfree := search_free hsearch
    refine ⟨fun h => (by cases h), fun b hb => ?_⟩
    rcases hb with hnodes | ⟨hn, hbad⟩
    · refine honward.before b ?_
      dsimp only
      rw [Nat.mul_div_cancel _ hpos]
      by_contra hle
      exact hfree (hnodes k (Nat.le_of_not_lt hle))
    · exact honward.bad hn b hbad

end

end RainWrt.Mtd.Jffs2
