import RainWrt.Theorems.Lists
import RainWrt.Upgrade.Tar

/-! What a reader finds in an archive that `tar.sh` prints. The reader takes nothing but what the format
    has: a header with its checksum, the content up to the next multiple of 512, and two blocks of zeros at the end. -/

namespace RainWrt.Upgrade.Tar

/-! ### The reader -/

structure Entry where
  name : Bytes
  content : Bytes
  mtime : Nat
  deriving DecidableEq

/-- The number in a field: octal digits up to a NUL at its end. -/
def readOctal (field : Bytes) : Option Nat :=
  if field.getLast? = some 0 ∧ field.dropLast ≠ [] ∧ field.dropLast.all (fun b => 0x30 ≤ b && b ≤ 0x37) then
    some (Nat.ofDigitChars 8 (field.dropLast.map fun b => Char.ofNat b.toNat) 0)
  else none

/-- The name, the size and the time in a header. -/
def readHeader (h : Bytes) : Option (Bytes × Nat × Nat) := do
  let size ← readOctal (slice h 124 12)
  let mtime ← readOctal (slice h 136 12)
  let sum ← readOctal (slice h 148 7)
  if h.length = 512 ∧ slice h 257 5 = ascii "ustar".toList ∧ slice h 156 1 = ascii "0".toList ∧
      sum = ((h.take 148 ++ List.replicate 8 0x20 ++ h.drop 156).map UInt8.toNat).sum then
    some ((slice h 0 100).takeWhile (· ≠ 0), size, mtime)
  else none

/-- A member at the start of an archive, and what is behind it. -/
def readMember (b : Bytes) : Option (Entry × Bytes) := do
  let (name, size, mtime) ← readHeader (b.take 512)
  let rest := b.drop 512
  let padding := (512 - size % 512) % 512
  if size + padding ≤ rest.length ∧ slice rest size padding = List.replicate padding 0 then
    some (⟨name, rest.take size, mtime⟩, rest.drop (size + padding))
  else none

def readMembers : (rounds : Nat) → Bytes → Option (List Entry)
  | 0, _ => none
  | rounds + 1, b =>
    if b = List.replicate 1024 0 then some []
    else do
      let (entry, rest) ← readMember b
      let entries ← readMembers rounds rest
      some (entry :: entries)

/-- The members of an archive. -/
def readArchive (b : Bytes) : Option (List Entry) := readMembers b.length b

/-! ### Members -/

/-- What is given to `tar_print_member`. -/
structure Member extends Entry where
  short : name.length ≤ 100
  relative : name.head? ≠ some 0x2f
  named : ∀ b ∈ name, b ≠ 0 ∧ b ≠ 1
  text : ∀ b ∈ content, b ≠ 0

/-- `tar_print_member` for each member, and `tar_print_trailer`. -/
def archive (ms : List Member) : Bytes := (ms.flatMap fun m => tarPrintMember m.name m.content m.mtime) ++ tarPrintTrailer

/-- The numbers of the header have room, and there is something to pad. -/
def Member.Fits (m : Member) : Prop := m.content.length < 8 ^ 11 ∧ m.mtime < 8 ^ 11

def Member.Meets (m : Member) : Prop := m.Fits ∧ m.content.length % 512 ≠ 0

instance (m : Member) : Decidable m.Meets := inferInstanceAs (Decidable ((_ ∧ _) ∧ _))

/-! ### Numbers in fields -/

theorem exists_octal {n : Nat} {c : Char} (h : c ∈ Nat.toDigits 8 n) : ∃ k < 8, c = k.digitChar := by
  induction n using Nat.strongRecOn with
  | ind n ih =>
    rw [Nat.toDigits_eq_if (by decide)] at h
    split_ifs at h with hn
    · exact ⟨n, hn, List.mem_singleton.mp h⟩
    · rcases List.mem_append.mp h with h | h
      · exact ih (n / 8) (by omega) h
      · exact ⟨n % 8, Nat.mod_lt n (by decide), List.mem_singleton.mp h⟩

theorem octal_leftpad {w n : Nat} {c : Char} (h : c ∈ (Nat.toDigits 8 n).leftpad w '0') : ∃ k < 8, c = k.digitChar := by
  rw [List.leftpad, List.mem_append] at h
  rcases h with h | h
  · exact ⟨0, by decide, (List.mem_replicate.mp h).2⟩
  · exact exists_octal h

theorem octal_byte : ∀ k < 8, (0x30 ≤ UInt8.ofNat k.digitChar.toNat && UInt8.ofNat k.digitChar.toNat ≤ 0x37) = true ∧
    Char.ofNat (UInt8.ofNat k.digitChar.toNat).toNat = k.digitChar := by
  decide

theorem mem_printf {w n : Nat} {b : UInt8} (h : b ∈ printf 8 w n) : (0x30 ≤ b && b ≤ 0x37) = true := by
  obtain ⟨c, hc, rfl⟩ := List.mem_map.mp h
  obtain ⟨k, hk, rfl⟩ := octal_leftpad hc
  exact (octal_byte k hk).1

theorem ne_of_mem_printf {w n : Nat} {b : UInt8} (h : b ∈ printf 8 w n) : b ≠ 0 ∧ b ≠ 1 := by
  have hb := mem_printf h
  refine ⟨fun h0 => ?_, fun h1 => ?_⟩
  · rw [h0] at hb
    cases hb
  · rw [h1] at hb
    cases hb

theorem length_printf (w n : Nat) : (printf 8 w n).length = max w (Nat.toDigits 8 n).length := by
  rw [printf, ascii, List.length_map, List.length_leftpad]

theorem length_printf_of_lt {w n : Nat} (hw : 0 < w) (hn : n < 8 ^ w) : (printf 8 w n).length = w := by
  rw [length_printf]
  exact Nat.max_eq_left ((Nat.length_toDigits_le_iff (by decide) hw).mpr hn)

theorem lt_length_printf {w n : Nat} (hw : 0 < w) (hn : ¬n < 8 ^ w) : w < (printf 8 w n).length := by
  have hlen := mt (Nat.length_toDigits_le_iff (by decide) hw).mp hn
  rw [length_printf]
  omega

theorem ofDigitChars_zeros (k : Nat) (l : List Char) : Nat.ofDigitChars 8 (List.replicate k '0' ++ l) 0 = Nat.ofDigitChars 8 l 0 := by
  induction k with
  | zero => rfl
  | succ k ih => exact ih

theorem readOctal_printf {w : Nat} (hw : 0 < w) (n : Nat) : readOctal (printf 8 w n ++ [0]) = some n := by
  have hvalue : Nat.ofDigitChars 8 ((printf 8 w n).map fun b => Char.ofNat b.toNat) 0 = n := by
    have hchars : (printf 8 w n).map (fun b => Char.ofNat b.toNat) = (Nat.toDigits 8 n).leftpad w '0' := by
      rw [printf, ascii, List.map_map]
      refine (List.map_congr_left fun c hc => ?_).trans (List.map_id _)
      obtain ⟨k, hk, rfl⟩ := octal_leftpad hc
      exact (octal_byte k hk).2
    rw [hchars, List.leftpad, ofDigitChars_zeros, Nat.ofDigitChars_toDigits (by decide) (by decide)]
  have hne : printf 8 w n ≠ [] := fun h => by
    have hlen := length_printf w n
    rw [h, List.length_nil] at hlen
    omega
  rw [readOctal, List.dropLast_concat, List.getLast?_concat, if_pos ⟨rfl, hne, List.all_eq_true.mpr fun b hb => mem_printf hb⟩, hvalue]

/-- A field that ends within a number cannot be read. -/
theorem readOctal_take (k w n : Nat) : readOctal ((printf 8 w n).take k) = none := by
  rw [readOctal, if_neg]
  rintro ⟨h, -⟩
  exact (ne_of_mem_printf (List.mem_of_mem_take (List.mem_of_getLast? h))).1 rfl

theorem readOctal_zeros (k : Nat) : readOctal (List.replicate k 0) = none := by
  rw [readOctal, if_neg]
  rintro ⟨-, hne, hall⟩
  rw [List.dropLast_replicate] at hne hall
  obtain ⟨b, hb⟩ := List.exists_mem_of_ne_nil _ hne
  have h0 := List.all_eq_true.mp hall b hb
  rw [(List.mem_replicate.mp hb).2] at h0
  cases h0

/-! ### What is printed -/

theorem slice_at {a b c : Bytes} {off n : Nat} (ha : a.length = off) (hb : b.length = n) : slice (a ++ (b ++ c)) off n = b := by
  rw [slice, ← ha, List.drop_left, ← hb, List.take_left]

theorem tr_append (a b : Bytes) : tr (a ++ b) = tr a ++ tr b := List.map_append

theorem tr_of_ne {s : Bytes} (h : ∀ b ∈ s, b ≠ 1) : tr s = s :=
  (List.map_congr_left fun b hb => if_neg (h b hb)).trans (List.map_id s)

theorem tr_pad (n : Nat) : tr (pad n) = List.replicate (min n 100) 0 := by
  rw [pad, tr, List.map_replicate]
  rfl

theorem tr_printf (w n : Nat) : tr (printf 8 w n ++ [1]) = printf 8 w n ++ [0] := by
  rw [tr_append, tr_of_ne fun b hb => (ne_of_mem_printf hb).2]
  rfl

theorem sum_le (s : Bytes) : (s.map UInt8.toNat).sum ≤ 255 * s.length := by
  induction s with
  | nil => exact Nat.le_refl 0
  | cons b s ih =>
    have hb := b.toNat_lt
    rw [List.map_cons, List.sum_cons, List.length_cons]
    omega

theorem sum_zeros (k : Nat) : ((List.replicate k (0 : UInt8)).map UInt8.toNat).sum = 0 := by
  rw [List.map_replicate, List.sum_replicate_nat]
  rfl

/-! ### The header -/

/-- The header in front of the size. -/
def nameFields (name : Bytes) : Bytes := name ++ List.replicate (100 - name.length) 0 ++ (tr (printf 10 7 644 ++ [1]) ++ (printf 8 7 0 ++ [0]) ++ (printf 8 7 0 ++ [0]))

/-- What is printed for a member up to its content. -/
def Member.header (m : Member) : Bytes :=
  nameFields m.name ++ ((printf 8 11 m.content.length ++ [0]) ++ ((printf 8 11 m.mtime ++ [0]) ++
    ((printf 8 6 (checksum (header1 m.name m.content.length m.mtime)) ++ [0]) ++ ([0x20] ++ (tr header2 ++ List.replicate 183 0)))))

theorem length_nameFields {name : Bytes} (h : name.length ≤ 100) : (nameFields name).length = 124 := by
  have hzero : (printf 8 7 0).length = 7 := by decide
  have hmode : (tr (printf 10 7 644 ++ [1])).length = 8 := by decide
  simp only [nameFields, List.length_append, List.length_replicate, List.length_singleton, hzero, hmode]
  omega

theorem length_header2 : (tr header2).length = 173 := by
  have htype : (printf 10 0 0).length = 1 := by decide
  have hroot : (ascii "root".toList).length = 4 := rfl
  have hmagic : (ascii "ustar  ".toList).length = 7 := rfl
  have hpad : ∀ n, (pad n).length = min n 100 := fun n => List.length_replicate
  rw [tr, List.length_map, header2]
  simp only [List.length_append, htype, hroot, hmagic, hpad, List.length_nil]
  rfl

section
variable {m : Member}

theorem Member.strip (m : Member) : (stripSlash m.name).take 100 = m.name := by
  have hstrip : stripSlash m.name = m.name := by
    unfold stripSlash
    split
    · next heq =>
      have hne := m.relative
      rw [heq] at hne
      exact absurd rfl hne
    · rfl
  rw [hstrip, List.take_of_length_le m.short]

theorem tr_header1 (m : Member) : tr (header1 m.name m.content.length m.mtime) =
    nameFields m.name ++ ((printf 8 11 m.content.length ++ [0]) ++ (printf 8 11 m.mtime ++ [0])) := by
  have hname : tr m.name = m.name := tr_of_ne fun b hb => (m.named b hb).2
  have hpad : min (100 - m.name.length) 100 = 100 - m.name.length := by omega
  rw [header1]
  rw [tr_append _ (printf 8 11 m.mtime ++ [1]), tr_append _ (printf 8 11 m.content.length ++ [1]), tr_append _ (printf 8 7 0 ++ [1]),
    tr_append _ (printf 8 7 0 ++ [1]), tr_append _ (printf 10 7 644 ++ [1]), tr_append m.name, tr_pad, tr_printf, tr_printf, tr_printf,
    hname, hpad, nameFields]
  simp only [List.append_assoc]

theorem tarPrintMember_eq (m : Member) : tarPrintMember m.name m.content m.mtime =
    m.header ++ (m.content ++ tarPrintPadding (512 - m.content.length % 512)) := by
  have hchecksum : ∀ n, tr (printf 8 6 n ++ [0, 0x20]) = (printf 8 6 n ++ [0]) ++ [0x20] := fun n => by
    rw [tr_append, tr_of_ne fun b hb => (ne_of_mem_printf hb).2, List.append_assoc]
    rfl
  rw [tarPrintMember, m.strip, Member.header, tr_append, tr_append, tr_header1, hchecksum]
  simp only [tarPrintPadding, List.append_assoc]

theorem length_header1 (h : m.Fits) : (tr (header1 m.name m.content.length m.mtime)).length = 148 := by
  rw [tr_header1]
  simp only [List.length_append, length_nameFields m.short, length_printf_of_lt (Nat.succ_pos 10) h.1,
    length_printf_of_lt (Nat.succ_pos 10) h.2, List.length_singleton]

theorem checksum_lt (h : m.Fits) : checksum (header1 m.name m.content.length m.mtime) < 8 ^ 6 := by
  have hlen := length_header1 h
  have hsum := sum_le (tr (header1 m.name m.content.length m.mtime ++ List.replicate 8 0x20 ++ header2))
  rw [tr_append, tr_append, List.length_append, List.length_append, hlen, length_header2] at hsum
  rw [checksum, tr_append, tr_append]
  have hblank : (tr (List.replicate 8 0x20)).length = 8 := rfl
  omega

theorem length_header (h : m.Fits) : m.header.length = 512 := by
  simp only [Member.header, List.length_append, length_nameFields m.short, length_printf_of_lt (Nat.succ_pos 10) h.1,
    length_printf_of_lt (Nat.succ_pos 10) h.2, length_printf_of_lt (Nat.succ_pos 5) (checksum_lt h), List.length_singleton, length_header2,
    List.length_replicate]

/-- The sum of the printed header, with blanks for the checksum, is the checksum. -/
theorem sum_header (h : m.Fits) : ((m.header.take 148 ++ List.replicate 8 0x20 ++ m.header.drop 156).map UInt8.toNat).sum =
    checksum (header1 m.name m.content.length m.mtime) := by
  have hlen := length_header1 h
  have hsix := length_printf_of_lt (Nat.succ_pos 5) (checksum_lt h)
  have hsplit : m.header = tr (header1 m.name m.content.length m.mtime) ++
      ((printf 8 6 (checksum (header1 m.name m.content.length m.mtime)) ++ [0] ++ [0x20]) ++ (tr header2 ++ List.replicate 183 0)) := by
    rw [tr_header1, Member.header]
    simp only [List.append_assoc]
  have hdrop : m.header.drop 156 = tr header2 ++ List.replicate 183 0 := by
    rw [hsplit, ← List.append_assoc, List.drop_left']
    simp only [List.length_append, hlen, hsix, List.length_singleton]
  have htake : m.header.take 148 = tr (header1 m.name m.content.length m.mtime) := by
    rw [hsplit, List.take_left' hlen]
  have hblank : tr (List.replicate 8 0x20) = List.replicate 8 0x20 := by decide
  rw [htake, hdrop, checksum, tr_append, tr_append, hblank]
  simp only [List.map_append, List.sum_append, sum_zeros, Nat.add_zero]

/-- The parts of the header in which the reader looks. -/
theorem fields_header (h : m.Fits) : slice m.header 0 100 = m.name ++ List.replicate (100 - m.name.length) 0 ∧
    slice m.header 124 12 = printf 8 11 m.content.length ++ [0] ∧ slice m.header 136 12 = printf 8 11 m.mtime ++ [0] ∧
    slice m.header 148 7 = printf 8 6 (checksum (header1 m.name m.content.length m.mtime)) ++ [0] ∧
    slice m.header 156 1 = ascii "0".toList ∧ slice m.header 257 5 = ascii "ustar".toList := by
  have hname := length_nameFields m.short
  have hsize : (printf 8 11 m.content.length ++ [0]).length = 12 := by
    rw [List.length_append, length_printf_of_lt (Nat.succ_pos 10) h.1, List.length_singleton]
  have hmtime : (printf 8 11 m.mtime ++ [0]).length = 12 := by
    rw [List.length_append, length_printf_of_lt (Nat.succ_pos 10) h.2, List.length_singleton]
  have hsum : (printf 8 6 (checksum (header1 m.name m.content.length m.mtime)) ++ [0]).length = 7 := by
    rw [List.length_append, length_printf_of_lt (Nat.succ_pos 5) (checksum_lt h), List.length_singleton]
  rw [Member.header]
  generalize printf 8 11 m.content.length ++ [0] = size at *
  generalize printf 8 11 m.mtime ++ [0] = mtime at *
  generalize printf 8 6 (checksum (header1 m.name m.content.length m.mtime)) ++ [0] = sum at *
  have hbehind : ∀ k n, slice (nameFields m.name ++ (size ++ (mtime ++ (sum ++ ([0x20] ++ (tr header2 ++ List.replicate 183 0)))))) (156 + k) n =
      slice (tr header2 ++ List.replicate 183 0) k n := fun k n => by
    have hlen : (nameFields m.name ++ size ++ mtime ++ sum ++ [0x20]).length = 156 := by
      simp only [List.length_append, hname, hsize, hmtime, hsum, List.length_singleton]
    have hsplit : nameFields m.name ++ (size ++ (mtime ++ (sum ++ ([0x20] ++ (tr header2 ++ List.replicate 183 0))))) =
        (nameFields m.name ++ size ++ mtime ++ sum ++ [0x20]) ++ (tr header2 ++ List.replicate 183 0) := by
      simp only [List.append_assoc]
    rw [hsplit, ← hlen, slice_append_right]
  refine ⟨?_, slice_at hname hsize, ?_, ?_, ?_, ?_⟩
  · have hzeros : (m.name ++ List.replicate (100 - m.name.length) 0).length = 100 := by
      have hshort := m.short
      rw [List.length_append, List.length_replicate]
      omega
    rw [nameFields, List.append_assoc]
    exact slice_at (a := []) rfl hzeros
  · rw [← List.append_assoc]
    exact slice_at (by rw [List.length_append, hname, hsize]) hmtime
  · rw [← List.append_assoc, ← List.append_assoc]
    exact slice_at (by rw [List.length_append, List.length_append, hname, hsize, hmtime]) hsum
  · rw [hbehind 0 1]
    rfl
  · rw [hbehind 101 5]
    rfl

theorem readHeader_header (h : m.Fits) : readHeader m.header = some (m.name, m.content.length, m.mtime) := by
  obtain ⟨hname, hsize, hmtime, hsum, htype, hmagic⟩ := fields_header h
  have htake : (m.name ++ List.replicate (100 - m.name.length) 0).takeWhile (· ≠ 0) = m.name := by
    have hzeros : ∀ k, (List.replicate k (0 : UInt8)).takeWhile (· ≠ 0) = [] := fun k => by
      cases k <;> rfl
    rw [List.takeWhile_append_of_pos fun b hb => by simpa using (m.named b hb).1, hzeros, List.append_nil]
  rw [readHeader, hsize, hmtime, hsum, readOctal_printf (Nat.succ_pos 10), readOctal_printf (Nat.succ_pos 10),
    readOctal_printf (Nat.succ_pos 5)]
  simp only [Option.bind_eq_bind, Option.bind_some]
  rw [if_pos ⟨length_header h, hmagic, htype, (sum_header h).symm⟩, hname, htake]

/-! ### Members in an archive -/

/-- What the reader makes of a member and the rest of the archive. -/
theorem readMember_print (h : m.Fits) (rest : Bytes) : readMember (tarPrintMember m.name m.content m.mtime ++ rest) =
    some (m.toEntry, (if m.content.length % 512 = 0 then List.replicate 512 0 else []) ++ rest) := by
  have hlen := length_header h
  rw [tarPrintMember_eq, readMember, List.append_assoc, List.take_left' hlen, List.drop_left' hlen, readHeader_header h]
  simp only [Option.bind_eq_bind, Option.bind_some, List.append_assoc]
  by_cases hfull : m.content.length % 512 = 0
  · have hnone : (512 - m.content.length % 512) % 512 = 0 := by omega
    have hblock : 512 - m.content.length % 512 = 512 := by omega
    rw [hnone, hblock, if_pos hfull, if_pos, List.take_left, Nat.add_zero, List.drop_left]
    · rfl
    · refine ⟨by simp, ?_⟩
      rw [slice, List.take_zero]
      rfl
  · have hpad : (512 - m.content.length % 512) % 512 = 512 - m.content.length % 512 := Nat.mod_eq_of_lt (by omega)
    rw [hpad, if_neg hfull, if_pos, List.take_left, ← List.drop_drop, List.drop_left, tarPrintPadding, List.nil_append]
    · rw [List.drop_left' List.length_replicate]
    · refine ⟨by simp [tarPrintPadding], ?_⟩
      exact slice_at rfl List.length_replicate

theorem readHeader_none {h : Bytes} (hn : readOctal (slice h 124 12) = none ∨ readOctal (slice h 136 12) = none) : readHeader h = none := by
  rw [readHeader]
  rcases hn with hn | hn
  · rw [hn]
    rfl
  · rw [hn]
    cases readOctal (slice h 124 12) <;> rfl

theorem slice_take {l : Bytes} {off k n : Nat} (h : off + k ≤ n) : slice (l.take n) off k = slice l off k := by
  rw [slice, List.drop_take, List.take_take, Nat.min_eq_left (by omega), slice]

/-- A number that has no room in its field fills it. -/
theorem slice_long {a rest : Bytes} {off n : Nat} (ha : a.length = off) (hn : ¬n < 8 ^ 11) :
    slice (a ++ ((printf 8 11 n ++ [0]) ++ rest)) off 12 = (printf 8 11 n).take 12 := by
  have hlong : 11 < (printf 8 11 n).length := lt_length_printf (Nat.succ_pos 10) hn
  rw [slice, ← ha, List.drop_left, List.append_assoc, List.take_append_of_le_length (by omega)]

/-- A number without room in its field ends the reading. -/
theorem readMember_of_not_fits (h : ¬m.Fits) (rest : Bytes) : readMember (tarPrintMember m.name m.content m.mtime ++ rest) = none := by
  have hname := length_nameFields m.short
  have hheader : readHeader ((tarPrintMember m.name m.content m.mtime ++ rest).take 512) = none := by
    refine readHeader_none ?_
    rw [slice_take (by decide), slice_take (by decide), tarPrintMember_eq, Member.header, List.append_assoc, List.append_assoc]
    by_cases hsize : m.content.length < 8 ^ 11
    · have hmtime : ¬m.mtime < 8 ^ 11 := fun hm => h ⟨hsize, hm⟩
      right
      rw [List.append_assoc (_ ++ [0]), List.append_assoc (_ ++ [0]), ← List.append_assoc, slice_long _ hmtime, readOctal_take]
      rw [List.length_append, hname, List.length_append, length_printf_of_lt (Nat.succ_pos 10) hsize, List.length_singleton]
    · left
      rw [List.append_assoc (_ ++ [0]), slice_long hname hsize, readOctal_take]
  rw [readMember, hheader]
  rfl

theorem readMember_zeros (rest : Bytes) : readMember (List.replicate 512 0 ++ rest) = none := by
  have hslice : slice (List.replicate 512 (0 : UInt8)) 124 12 = List.replicate 12 0 := by
    rw [slice, List.drop_replicate, List.take_replicate]
    rfl
  rw [readMember, List.take_left' List.length_replicate, readHeader, hslice, readOctal_zeros]
  rfl

end

theorem archive_cons (m : Member) (ms : List Member) : archive (m :: ms) = tarPrintMember m.name m.content m.mtime ++ archive ms := by
  rw [archive, List.flatMap_cons, List.append_assoc, archive]

theorem length_archive (ms : List Member) : ms.length + 1024 ≤ (archive ms).length := by
  induction ms with
  | nil => exact Nat.le_of_eq List.length_replicate.symm
  | cons m ms ih =>
    have hpad : 0 < (tarPrintPadding (512 - m.content.length % 512)).length := by
      rw [tarPrintPadding, List.length_replicate]
      omega
    rw [archive_cons, tarPrintMember_eq, List.length_append, List.length_append, List.length_append, List.length_cons]
    omega

theorem archive_ne_zeros {b : Bytes} (h : b.length ≠ 1024) : b ≠ List.replicate 1024 0 := fun hb => h (by rw [hb, List.length_replicate])

/-- The reader finds the members exactly if none of them is padded with a whole block. -/
theorem readMembers_iff {ms : List Member} {rounds : Nat} (h : ms.length < rounds) :
    readMembers rounds (archive ms) = some (ms.map (·.toEntry)) ↔ ∀ m ∈ ms, m.Meets := by
  induction ms generalizing rounds with
  | nil =>
    obtain ⟨rounds, rfl⟩ := Nat.exists_eq_succ_of_ne_zero (Nat.pos_iff_ne_zero.mp h)
    have htrailer : archive [] = List.replicate 1024 0 := rfl
    rw [readMembers, if_pos htrailer]
    simp
  | cons m ms ih =>
    rw [List.length_cons] at h
    obtain ⟨rounds, rfl⟩ := Nat.exists_eq_succ_of_ne_zero (Nat.pos_iff_ne_zero.mp (Nat.zero_lt_of_lt h))
    have hlen := length_archive (m :: ms)
    rw [List.length_cons] at hlen
    rw [readMembers, if_neg (archive_ne_zeros (by omega)), archive_cons, List.forall_mem_cons]
    by_cases hfits : m.Fits
    · rw [readMember_print hfits]
      by_cases hfull : m.content.length % 512 = 0
      · -- The reader comes to a block of zeros, which is neither a member nor the end.
        have hend : readMembers rounds (List.replicate 512 0 ++ archive ms) = none := by
          have hlen := length_archive ms
          cases rounds with
          | zero => rfl
          | succ rounds =>
            rw [readMembers, if_neg (archive_ne_zeros (by rw [List.length_append, List.length_replicate]; omega)), readMember_zeros]
            rfl
        simp only [if_pos hfull, Option.bind_eq_bind, Option.bind_some, hend, Option.bind_none, reduceCtorEq, false_iff]
        exact fun hall => hall.1.2 hfull
      · simp only [if_neg hfull, List.nil_append, Option.bind_eq_bind, Option.bind_some, List.map_cons]
        rw [← ih (Nat.lt_of_succ_lt_succ h)]
        have hmeets : m.Meets := ⟨hfits, hfull⟩
        cases readMembers rounds (archive ms) with
        | none => simp
        | some entries => simp [hmeets]
    · rw [readMember_of_not_fits hfits]
      simp only [Option.bind_eq_bind, Option.bind_none, reduceCtorEq, false_iff]
      exact fun hall => hfits hall.1.1

/-- An archive is read back exactly if its sizes and times have room in the header, and no content ends with a block. -/
theorem archive_iff (ms : List Member) : readArchive (archive ms) = some (ms.map (·.toEntry)) ↔ ∀ m ∈ ms, m.Meets :=
  readMembers_iff (by have := length_archive ms; omega)

/-- A member without content. -/
def emptyMember : Member where
  name := ascii "etc/empty".toList
  content := []
  mtime := 0
  short := by decide
  relative := by decide
  named := forall_mem_of_all _ (by decide)
  text := fun _ hb => nomatch hb

/-- A block of zeros stands behind the header of an empty member. -/
theorem archive_of_empty : readArchive (archive [emptyMember]) ≠ some [emptyMember.toEntry] := fun h => by
  have hlen := length_archive [emptyMember]
  have hmeets := (@readMembers_iff [emptyMember] _ (Nat.lt_of_lt_of_le (by simp) hlen)).mp h
  exact (hmeets emptyMember List.mem_cons_self).2 rfl

end RainWrt.Upgrade.Tar
