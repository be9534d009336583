import RainWrt.Bcm4908img

/-! Creating, parsing and extracting an image. The parser finds the first boundaries with the magics, and the checksum
    of the tail is that of the appended files, without the padding. -/

namespace RainWrt.Bcm4908img

/-! ### Boundaries -/

/-- None of the boundaries from `off` up to `x` has the property. -/
def Absent (P : Nat → Prop) (off x : Nat) : Prop := ∀ o, off ≤ o → o < x → stride ∣ o - off → ¬P o

/-- `x` is the first boundary from `off` that has the property. -/
structure First (P : Nat → Prop) (off x : Nat) : Prop where
  le : off ≤ x
  dvd : stride ∣ x - off
  holds : P x
  absent : Absent P off x

section
variable {P : Nat → Prop} {off x : Nat}

theorem dvd_next (h : off + stride ≤ x) : stride ∣ x - off ↔ stride ∣ x - (off + stride) := by
  have hx : x - off = x - (off + stride) + stride := by omega
  rw [hx, Nat.dvd_add_left (Nat.dvd_refl _)]

theorem next_le (h : off < x) (hd : stride ∣ x - off) : off + stride ≤ x := by
  have := Nat.le_of_dvd (by omega) hd
  omega

theorem absent_next (h : off < x) : Absent P off x ↔ ¬P off ∧ Absent P (off + stride) x := by
  constructor
  · intro ha
    refine ⟨ha off (Nat.le_refl _) h (by simp), fun o ho hox hd => ?_⟩
    exact ha o (Nat.le_of_add_right_le ho) hox ((dvd_next ho).mpr hd)
  · rintro ⟨hP, ha⟩ o ho hox hd
    rcases Nat.eq_or_lt_of_le ho with rfl | hlt
    · exact hP
    · have hle := next_le hlt hd
      exact ha o hle hox ((dvd_next hle).mp hd)

theorem absent_of_le (h : x ≤ off) : Absent P off x := fun _ ho hox _ => absurd (Nat.lt_of_lt_of_le hox h) (Nat.not_lt.mpr ho)

theorem first_self (h : P off) : First P off off := ⟨Nat.le_refl _, by simp, h, absent_of_le (Nat.le_refl _)⟩

/-- The search for the first boundary as a loop. -/
theorem first_next : First P off x ↔ (P off ∧ x = off) ∨ (¬P off ∧ First P (off + stride) x) := by
  constructor
  · intro hf
    rcases Nat.eq_or_lt_of_le hf.le with rfl | hlt
    · exact Or.inl ⟨hf.holds, rfl⟩
    · have hle := next_le hlt hf.dvd
      obtain ⟨hP, ha⟩ := (absent_next hlt).mp hf.absent
      exact Or.inr ⟨hP, hle, (dvd_next hle).mp hf.dvd, hf.holds, ha⟩
  · rintro (⟨hP, rfl⟩ | ⟨hP, hf⟩)
    · exact first_self hP
    · have hlt : off < x := Nat.lt_of_lt_of_le (Nat.lt_add_of_pos_right (by decide)) hf.le
      exact ⟨Nat.le_of_lt hlt, (dvd_next hf.le).mpr hf.dvd, hf.holds, (absent_next hlt).mpr ⟨hP, hf.absent⟩⟩

/-- Searching from the same place finds one place. -/
theorem First.unique {y : Nat} (hx : First P off x) (hy : First P off y) : x = y := by
  rcases Nat.lt_trichotomy x y with hlt | heq | hlt
  · exact absurd hx.holds (hy.absent x hx.le hlt hx.dvd)
  · exact heq
  · exact absurd hy.holds (hx.absent y hy.le hlt hy.dvd)

theorem First.congr {Q : Nat → Prop} (h : First P off x) (hPQ : ∀ o, o ≤ x → (P o ↔ Q o)) : First Q off x :=
  ⟨h.le, h.dvd, (hPQ x (Nat.le_refl x)).mp h.holds, fun o ho hox hd hq => h.absent o ho hox hd ((hPQ o (Nat.le_of_lt hox)).mpr hq)⟩

end

/-! ### What the parser looks for -/

def Jffs2 (img : Bytes) (o : Nat) : Prop := be (slice img o 2) = 0x8519
def Ubi (img : Bytes) (o : Nat) : Prop := be (slice img o 4) = 0x55424923
def Erased (img : Bytes) (o : Nat) : Prop := isAllFf (slice img o 256) = true

section
variable {img : Bytes} {t off : Nat}

theorem fread_ok {size : Nat} (h : off + size ≤ img.length) : fread img off size = .ok (slice img off size) := if_pos h

theorem slice_take {buf : Bytes} {o n m : Nat} (h : n ≤ m) : (slice buf o m).take n = slice buf o n := by
  rw [slice, List.take_take, Nat.min_eq_left h, slice]

theorem slice_of_erased {o n : Nat} (h : Erased img o) (hn : n ≤ 256) : ∃ k ≤ n, slice img o n = List.replicate k 0xff := by
  refine ⟨(slice img o n).length, List.length_take_le _ _, List.eq_replicate_of_mem fun x hx => ?_⟩
  rw [← slice_take hn] at hx
  simpa using List.all_eq_true.mp h x (List.mem_of_mem_take hx)

theorem not_ubi_of_erased {o : Nat} (h : Erased img o) : ¬Ubi img o := by
  obtain ⟨k, hk, heq⟩ := slice_of_erased (n := 4) h (by decide)
  have hne : ∀ k ≤ 4, be (List.replicate k 0xff) ≠ 0x55424923 := by decide
  rw [Ubi, heq]
  exact hne k hk

theorem not_erased_of_jffs2 {o : Nat} (h : Jffs2 img o) : ¬Erased img o := by
  intro he
  obtain ⟨k, hk, heq⟩ := slice_of_erased (n := 2) he (by decide)
  have hne : ∀ k ≤ 2, be (List.replicate k 0xff) ≠ 0x8519 := by decide
  rw [Jffs2, heq] at h
  exact hne k hk h

/-- A place has one of the magics only. -/
theorem not_ubi_of_jffs2 {b : Nat} (h : Jffs2 img b) : ¬Ubi img b := by
  intro hubi
  have hlen : (slice img b 4).length ≤ 4 := List.length_take_le _ _
  unfold Jffs2 at h
  unfold Ubi at hubi
  rw [← slice_take (show 2 ≤ 4 by decide)] at h
  revert h hubi hlen
  generalize slice img b 4 = buf
  intro hubi h hlen
  rcases buf with _ | ⟨x, _ | ⟨y, _ | ⟨z, _ | ⟨w, rest⟩⟩⟩⟩
  · simp [be] at h
  · have := x.toNat_lt
    simp [be] at h
    omega
  · have := x.toNat_lt
    have := y.toNat_lt
    simp [be] at h hubi
    omega
  · have := x.toNat_lt
    have := y.toNat_lt
    have := z.toNat_lt
    simp [be] at h hubi
    omega
  · obtain rfl : rest = [] := List.length_eq_zero_iff.mp (by simp only [List.length_cons] at hlen; omega)
    have := z.toNat_lt
    have := w.toNat_lt
    simp [be] at h hubi
    omega

theorem findBootfs_eq_ok (ht : t + tailSize ≤ img.length) {b : Nat} :
    findBootfs img t off = .ok b ↔ First (Jffs2 img) off b ∧ b < t := by
  rw [tailSize] at ht
  fun_induction findBootfs img t off with
  | case1 off hlt ih =>
    rw [fread_ok (by omega), first_next]
    by_cases hj : Jffs2 img off
    · have hm : be (slice img off 2) = 0x8519 := hj
      simp only [bind, Except.bind, pure, Except.pure, hm, if_true, Except.ok.injEq, hj, true_and, not_true_eq_false,
        false_and, or_false]
      exact ⟨fun h => ⟨h.symm, h ▸ hlt⟩, fun h => h.1.symm⟩
    · have hm : ¬be (slice img off 2) = 0x8519 := hj
      simp only [bind, Except.bind, hm, if_false, hj, false_and, not_false_eq_true, true_and, false_or]
      exact ih
  | case2 off hge =>
    simp only [reduceCtorEq, false_iff, not_and]
    intro hf
    have := hf.le
    omega

/-- The first boundary with UBI, and the padding before it: 0 if there is none. -/
structure Rootfs (img : Bytes) (t b r p : Nat) : Prop where
  first : First (Ubi img) b r
  lt : r < t
  padding : (p = 0 ∧ Absent (Erased img) b r ∧ r + 256 ≤ img.length) ∨ (First (Erased img) b p ∧ p < r)

theorem findRootfs_found (ht : t + tailSize ≤ img.length) {p r q : Nat} (hp : p ≠ 0) :
    findRootfs img t off p = .ok (r, q) ↔ First (Ubi img) off r ∧ r < t ∧ q = p := by
  rw [tailSize] at ht
  fun_induction findRootfs img t off p with
  | case1 off padding hlt ih =>
    rw [if_neg hp, fread_ok (by omega), first_next]
    simp only [bind, Except.bind, hp, false_and, if_false, slice_take (Nat.le_refl 4)] at ih ⊢
    by_cases hu : Ubi img off
    · have hm : be (slice img off 4) = 0x55424923 := hu
      simp only [hm, if_true, pure, Except.pure, Except.ok.injEq, Prod.mk.injEq, hu, true_and, not_true_eq_false, false_and,
        or_false]
      exact ⟨fun h => ⟨h.1.symm, h.1 ▸ hlt, h.2.symm⟩, fun h => ⟨h.1.symm, h.2.2.symm⟩⟩
    · have hm : ¬be (slice img off 4) = 0x55424923 := hu
      simp only [hm, if_false, hu, false_and, not_false_eq_true, true_and, false_or]
      exact ih (slice img off 4) hp
  | case2 off padding hge =>
    simp only [reduceCtorEq, false_iff, not_and]
    intro hf
    have := hf.le
    omega

theorem rootfs_next {b r p : Nat} (hu : ¬Ubi img b) (he : ¬Erased img b) : Rootfs img t b r p ↔ Rootfs img t (b + stride) r p := by
  constructor
  · rintro ⟨hf, hlt, hpad⟩
    obtain ⟨hn, -⟩ | ⟨-, hf'⟩ := first_next.mp hf
    · exact absurd hn hu
    · have hb : b < r := Nat.lt_of_lt_of_le (Nat.lt_add_of_pos_right (by decide)) hf'.le
      refine ⟨hf', hlt, ?_⟩
      rcases hpad with ⟨h0, ha, hr⟩ | ⟨hp, hpr⟩
      · exact Or.inl ⟨h0, ((absent_next hb).mp ha).2, hr⟩
      · obtain ⟨hn, -⟩ | ⟨-, hp'⟩ := first_next.mp hp
        · exact absurd hn he
        · exact Or.inr ⟨hp', hpr⟩
  · rintro ⟨hf, hlt, hpad⟩
    have hb : b < r := Nat.lt_of_lt_of_le (Nat.lt_add_of_pos_right (by decide)) hf.le
    refine ⟨first_next.mpr (Or.inr ⟨hu, hf⟩), hlt, ?_⟩
    rcases hpad with ⟨h0, ha, hr⟩ | ⟨hp, hpr⟩
    · exact Or.inl ⟨h0, (absent_next hb).mpr ⟨he, ha⟩, hr⟩
    · exact Or.inr ⟨first_next.mpr (Or.inr ⟨he, hp⟩), hpr⟩

theorem rootfs_self {r p : Nat} (hu : Ubi img off) :
    Rootfs img t off r p ↔ off < t ∧ off + 256 ≤ img.length ∧ r = off ∧ p = 0 := by
  constructor
  · rintro ⟨hf, hlt, hpad⟩
    obtain ⟨-, rfl⟩ | ⟨hn, -⟩ := first_next.mp hf
    · rcases hpad with ⟨h0, -, hr⟩ | ⟨hp, hpr⟩
      · exact ⟨hlt, hr, rfl, h0⟩
      · exact absurd hp.le (Nat.not_le.mpr hpr)
    · exact absurd hu hn
  · rintro ⟨hlt, hr, rfl, rfl⟩
    exact ⟨first_self hu, hlt, Or.inl ⟨rfl, absent_of_le (Nat.le_refl _), hr⟩⟩

theorem rootfs_erased {r p : Nat} (he : Erased img off) :
    Rootfs img t off r p ↔ First (Ubi img) (off + stride) r ∧ r < t ∧ p = off := by
  have hu := not_ubi_of_erased he
  constructor
  · rintro ⟨hf, hlt, hpad⟩
    obtain ⟨hn, -⟩ | ⟨-, hf'⟩ := first_next.mp hf
    · exact absurd hn hu
    · refine ⟨hf', hlt, ?_⟩
      rcases hpad with ⟨-, ha, -⟩ | ⟨hp, -⟩
      · have hb : off < r := Nat.lt_of_lt_of_le (Nat.lt_add_of_pos_right (by decide)) hf'.le
        exact absurd he ((absent_next hb).mp ha).1
      · obtain ⟨-, heq⟩ | ⟨hn, -⟩ := first_next.mp hp
        · exact heq
        · exact absurd he hn
  · rintro ⟨hf, hlt, rfl⟩
    have hb : p < r := Nat.lt_of_lt_of_le (Nat.lt_add_of_pos_right (by decide)) hf.le
    exact ⟨first_next.mpr (Or.inr ⟨hu, hf⟩), hlt, Or.inr ⟨first_self he, hb⟩⟩

/-- Where an image ends before 256 bytes are read, no rootfs is found. -/
theorem not_rootfs {r p : Nat} (ht : t + tailSize ≤ img.length) (hlen : ¬off + 256 ≤ img.length) : ¬Rootfs img t off r p := by
  rintro ⟨hf, hlt, hpad⟩
  rw [tailSize] at ht
  obtain ⟨-, rfl⟩ | ⟨-, hf'⟩ := first_next.mp hf
  · rcases hpad with ⟨-, -, hr⟩ | ⟨hp, hpr⟩
    · exact hlen hr
    · exact absurd hp.le (Nat.not_le.mpr hpr)
  · have hle := hf'.le
    rw [stride] at hle
    omega

theorem findRootfs_eq_ok (ht : t + tailSize ≤ img.length) {p r : Nat} (h0 : ¬Erased img off ∨ 0 < off) :
    findRootfs img t off 0 = .ok (r, p) ↔ Rootfs img t off r p := by
  induction hn : t - off using Nat.strongRecOn generalizing off with
  | _ n ih =>
    rw [findRootfs]
    by_cases hlt : off < t
    · rw [if_pos hlt, if_pos rfl]
      by_cases hlen : off + 256 ≤ img.length
      · rw [fread_ok hlen]
        simp only [bind, Except.bind, true_and, slice_take (show 4 ≤ 256 by decide)]
        by_cases he : Erased img off
        · have ha : isAllFf (slice img off 256) = true := he
          have hm : ¬be (slice img off 4) = 0x55424923 := not_ubi_of_erased he
          have hoff : off ≠ 0 := Nat.pos_iff_ne_zero.mp (h0.resolve_left (not_not_intro he))
          rw [rootfs_erased he, ← findRootfs_found ht hoff]
          simp only [ha, if_true, hm, if_false]
        · have ha : ¬isAllFf (slice img off 256) = true := he
          simp only [ha, if_false, Bool.false_eq_true]
          by_cases hu : Ubi img off
          · have hm : be (slice img off 4) = 0x55424923 := hu
            rw [rootfs_self hu]
            simp only [hm, if_true, pure, Except.pure, Except.ok.injEq, Prod.mk.injEq]
            exact ⟨fun h => ⟨hlt, hlen, h.1.symm, h.2.symm⟩, fun h => ⟨h.2.2.1.symm, h.2.2.2.symm⟩⟩
          · have hm : ¬be (slice img off 4) = 0x55424923 := hu
            have hpos : 0 < stride := by decide
            rw [rootfs_next hu he]
            simp only [hm, if_false]
            exact ih (t - (off + stride)) (by omega) (Or.inr (by omega)) rfl
      · have hr : ¬Rootfs img t off r p := not_rootfs ht hlen
        rw [fread, if_neg hlen]
        simp only [bind, Except.bind, reduceCtorEq, hr]
    · rw [if_neg hlt]
      simp only [reduceCtorEq, false_iff]
      intro hf
      have := hf.first.le
      have := hf.lt
      omega

end

/-! ### Parsing -/

theorem bcm4908imgCrc32_append (crc : UInt32) (a b : Bytes) :
    bcm4908imgCrc32 crc (a ++ b) = bcm4908imgCrc32 (bcm4908imgCrc32 crc a) b := List.foldl_append

theorem foldl_crc32 (crc : UInt32) (bufs : List Bytes) : bufs.foldl bcm4908imgCrc32 crc = bcm4908imgCrc32 crc bufs.flatten := by
  induction bufs generalizing crc with
  | nil => rfl
  | cons buf bufs ih => rw [List.foldl_cons, ih, List.flatten_cons, bcm4908imgCrc32_append]

theorem sum_eq {img : Bytes} {off length : Nat} (h : off + length ≤ img.length) :
    sum img off length = .ok (bcm4908imgCrc32 0xffffffff (slice img off length)) := by
  rw [sum, fread_ok h]
  simp only [bind, Except.bind, pure, Except.pure, foldl_crc32, flatten_pieces (show 0 < 1024 by decide)]

/-- The checksum that the parser computes is the one in the tail. -/
def Summed (img : Bytes) : Prop :=
  bcm4908imgCrc32 0xffffffff (slice img (cferomOffset img) (tailOffset img - cferomOffset img)) = word img (tailOffset img)

section
variable {img : Bytes}

theorem tailOffset_le (h : 1024 ≤ img.length) : tailOffset img + tailSize ≤ img.length := by
  rw [tailOffset, tailSize, linksysSize]
  split <;> omega

theorem fread_eq_ok {off size : Nat} {buf : Bytes} :
    fread img off size = .ok buf ↔ off + size ≤ img.length ∧ slice img off size = buf := by
  rw [fread]
  split <;> simp [*]

theorem bind_eq_ok {α β : Type} {x : Except Err α} {f : α → Except Err β} {b : β} :
    (x >>= f) = .ok b ↔ ∃ a, x = .ok a ∧ f a = .ok b := by
  cases x <;> simp [bind, Except.bind]

/-- When the parser succeeds, and with what. -/
theorem parse_eq_ok {info : Info} : parse img = .ok info ↔
    1024 ≤ img.length ∧ First (Jffs2 img) (cferomOffset img) info.bootfsOffset ∧ info.bootfsOffset < tailOffset img ∧
      Rootfs img (tailOffset img) info.bootfsOffset info.rootfsOffset info.paddingOffset ∧ Summed img ∧
      info.cferomOffset = cferomOffset img ∧ info.tailOffset = tailOffset img ∧
      info.crc32 = word img (tailOffset img) ∧ info.tail = Tail.ofBytes (slice img (tailOffset img) tailSize) := by
  have hword : (Tail.ofBytes (slice img (tailOffset img) tailSize)).crc32 = word img (tailOffset img) := by
    rw [Tail.ofBytes, word_slice (by decide), Nat.add_zero]
  constructor
  · intro h
    obtain ⟨_, hhead, h⟩ := bind_eq_ok.mp h
    obtain ⟨_, -, h⟩ := bind_eq_ok.mp h
    obtain ⟨b, hb, h⟩ := bind_eq_ok.mp h
    obtain ⟨⟨r, p⟩, hr, h⟩ := bind_eq_ok.mp h
    obtain ⟨crc, hcrc, h⟩ := bind_eq_ok.mp h
    obtain ⟨buf, hbuf, h⟩ := bind_eq_ok.mp h
    have hlen : 1024 ≤ img.length := by
      have := (fread_eq_ok.mp hhead).1
      omega
    have ht := tailOffset_le hlen
    obtain ⟨hf, hlt⟩ := (findBootfs_eq_ok ht).mp hb
    obtain ⟨-, rfl⟩ := fread_eq_ok.mp hbuf
    have hroot := (findRootfs_eq_ok ht (Or.inl (not_erased_of_jffs2 hf.holds))).mp hr
    have hle := hf.le
    rw [sum_eq (by omega), Except.ok.injEq] at hcrc
    simp only [hword] at h
    split at h
    · cases h
    · rename_i heq
      rw [not_not] at heq
      subst crc
      obtain rfl := Except.ok.inj h
      simp only [Summed, heq, and_self, and_true]
      exact ⟨hlen, hf, hlt, hroot⟩
  · rintro ⟨hlen, hf, hlt, hroot, hsum, hc, htl, hcrc, htail⟩
    have ht := tailOffset_le hlen
    have hle := hf.le
    have hb := (findBootfs_eq_ok ht).mpr ⟨hf, hlt⟩
    have hr := (findRootfs_eq_ok ht (Or.inl (not_erased_of_jffs2 hf.holds))).mpr hroot
    obtain ⟨c, b, p, r, t, crc, tail⟩ := info
    simp only at hf hlt hroot hc htl hcrc htail hle hb hr
    refine bind_eq_ok.mpr ⟨_, fread_ok (by omega), bind_eq_ok.mpr ⟨_, fread_ok (by omega), bind_eq_ok.mpr ⟨b, hb,
      bind_eq_ok.mpr ⟨(r, p), hr, bind_eq_ok.mpr ⟨_, sum_eq (by omega), bind_eq_ok.mpr ⟨_, fread_ok ht, ?_⟩⟩⟩⟩⟩⟩
    rw [Summed] at hsum
    simp only [hword, hsum, ne_eq, not_true_eq_false, if_false, pure, Except.pure, hc, htl, hcrc, htail]

end

/-! ### Creating -/

/-- What an option appends from files. -/
def appended (files : String → Option Bytes) : Opt → Bytes
  | .f path => (files path).getD []
  | .a _ => []
  | .A _ => []

theorem appendPieces_eq (trx : Bytes) (crc : UInt32) (length : Nat) (bufs : List Bytes) :
    appendPieces trx crc length bufs = (trx ++ bufs.flatten, bcm4908imgCrc32 crc bufs.flatten, length + bufs.flatten.length) := by
  induction bufs generalizing trx crc length with
  | nil => simp [appendPieces, bcm4908imgCrc32]
  | cons buf bufs ih => simp [appendPieces, ih, bcm4908imgCrc32_append, Nat.add_assoc]

theorem appendFile_eq (file : Option Bytes) (trx : Bytes) (crc : UInt32) :
    appendFile file trx crc = file.map fun data => (trx ++ data, bcm4908imgCrc32 crc data, data.length) := by
  simp only [appendFile, appendPieces_eq, flatten_pieces (show 0 < 1024 by decide), Nat.zero_add]

theorem appendZeros_eq {trx trx' : Bytes} {length bytes : Nat} (h : appendZeros trx length = some (trx', bytes)) :
    trx' = trx ++ List.replicate bytes 0 := by
  rw [appendZeros] at h
  split at h
  · cases h
    rfl
  · cases h

theorem align_eq {trx trx' : Bytes} {curOffset alignment bytes : Nat} (h : align trx curOffset alignment = some (trx', bytes)) :
    trx' = trx ++ List.replicate bytes 0 := by
  rw [align] at h
  split at h
  · split at h
    · cases h
    · exact appendZeros_eq h
  · cases h
    simp

section
variable {files : String → Option Bytes}

/-- An option appends to the file, and the checksum goes on with what it appends from files. -/
theorem option_spec (s : Creator) (o : Opt) :
    (∃ rest, (s.option files o).trx = s.trx ++ rest) ∧ (s.option files o).crc32 = bcm4908imgCrc32 s.crc32 (appended files o) := by
  cases o with
  | f path =>
    rw [Creator.option, appendFile_eq, appended]
    cases files path with
    | none => exact ⟨⟨[], by simp⟩, rfl⟩
    | some data => exact ⟨⟨data, rfl⟩, rfl⟩
  | a alignment =>
    rw [Creator.option]
    split
    · exact ⟨⟨[], by simp⟩, rfl⟩
    · rename_i heq
      exact ⟨⟨_, align_eq heq⟩, rfl⟩
  | A offset =>
    rw [Creator.option]
    split
    · exact ⟨⟨[], by simp⟩, rfl⟩
    · split
      · exact ⟨⟨[], by simp⟩, rfl⟩
      · rename_i heq
        exact ⟨⟨_, appendZeros_eq heq⟩, rfl⟩

theorem foldl_option (s : Creator) (opts : List Opt) :
    (∃ rest, (opts.foldl (Creator.option files) s).trx = s.trx ++ rest) ∧
      (opts.foldl (Creator.option files) s).crc32 = bcm4908imgCrc32 s.crc32 (opts.flatMap (appended files)) := by
  induction opts generalizing s with
  | nil => exact ⟨⟨[], by simp⟩, rfl⟩
  | cons o opts ih =>
    obtain ⟨⟨x, hx⟩, hcrc⟩ := @option_spec files s o
    obtain ⟨⟨y, hy⟩, hcrc'⟩ := ih (s.option files o)
    refine ⟨⟨x ++ y, ?_⟩, ?_⟩
    · rw [List.foldl_cons, hy, hx, List.append_assoc]
    · rw [List.foldl_cons, hcrc', hcrc, List.flatMap_cons, bcm4908imgCrc32_append]

theorem options_crc32 (opts : List Opt) :
    (options files opts).crc32 = bcm4908imgCrc32 0xffffffff (opts.flatMap (appended files)) := (foldl_option {} opts).2

/-- The bytes are part of an appended file and come to lie at `off`. -/
def Contains (files : String → Option Bytes) (opts : List Opt) (off : Nat) (data : Bytes) : Prop :=
  ∃ pre path post x y, opts = pre ++ .f path :: post ∧ files path = some (x ++ data ++ y) ∧
    off = (options files pre).trx.length + x.length

theorem slice_middle (a data c : Bytes) : slice (a ++ (data ++ c)) a.length data.length = data := by
  rw [← Nat.add_zero a.length, slice_append_right, slice, List.drop_zero, List.take_left]

theorem Contains.slice_eq {opts : List Opt} {off : Nat} {data : Bytes} (h : Contains files opts off data) :
    off + data.length ≤ (options files opts).trx.length ∧ slice (options files opts).trx off data.length = data := by
  obtain ⟨pre, path, post, x, y, rfl, hp, rfl⟩ := h
  obtain ⟨rest, hrest⟩ := (@foldl_option files ((options files pre).option files (.f path)) post).1
  have htrx : (options files (pre ++ .f path :: post)).trx = ((options files pre).trx ++ x) ++ (data ++ (y ++ rest)) := by
    rw [options, List.foldl_append, List.foldl_cons, ← options, hrest, Creator.option, appendFile_eq, hp]
    simp
  rw [htrx, ← List.length_append, slice_middle]
  simp only [List.length_append, and_true]
  omega

end

/-! ### The image -/

section
variable {s : Creator}

theorem length_image : s.image.length = s.trx.length + tailSize := by
  rw [Creator.image, List.length_append, Tail.bytes, length_unwords]
  rfl

theorem slice_image {off size : Nat} (h : off + size ≤ s.trx.length) : slice s.image off size = slice s.trx off size :=
  slice_append_left h

/-- The tail holds the checksum of the files. -/
theorem word_image : word s.image s.trx.length = s.crc32 := by
  rw [word_eq_slice, Creator.image, ← Nat.add_zero s.trx.length, slice_append_right, ← word_eq_slice]
  have h := word_unwords [s.crc32, 0x00005732, 0x4908, 3, 0x2] [] 0 (Nat.succ_pos _)
  rwa [List.append_nil] at h

end

/-! ### The round trip -/

/-- The appended files contain a JFFS2 bootfs and behind it a UBI rootfs, both on boundaries. -/
structure Holds (files : String → Option Bytes) (opts : List Opt) (b : Nat) (bootfs : Bytes) (r : Nat) (rootfs : Bytes) : Prop where
  hasBootfs : Contains files opts b bootfs
  jffs2 : be (bootfs.take 2) = 0x8519
  hasRootfs : Contains files opts r rootfs
  ubi : be (rootfs.take 4) = 0x55424923
  aligned : stride ∣ b ∧ stride ∣ r
  lt : b < r

/-- The image is accepted, and exactly the appended bootfs and rootfs are extracted. -/
structure RoundTrip (img : Bytes) (b : Nat) (bootfs : Bytes) (r : Nat) (rootfs : Bytes) : Prop where
  range : ∃ info, parse img = .ok info ∧ extractRange info "bootfs" = .ok (b, bootfs.length) ∧
    extractRange info "rootfs" = .ok (r, rootfs.length)
  bootfs : extract img "bootfs" = .ok bootfs
  rootfs : extract img "rootfs" = .ok rootfs

/-- The parser takes the bootfs and the rootfs for the first ones, the bootfs reaches to the rootfs or to an erased block,
    and nothing follows the rootfs. -/
structure Laid (img : Bytes) (b : Nat) (bootfs : Bytes) (r : Nat) (rootfs : Bytes) : Prop where
  header : 1024 ≤ img.length
  jffs2 : First (Jffs2 img) (cferomOffset img) b
  ubi : First (Ubi img) b r
  gap : (b + bootfs.length = r ∧ Absent (Erased img) b r ∧ r + 256 ≤ img.length) ∨
    (First (Erased img) b (b + bootfs.length) ∧ b + bootfs.length < r)
  rest : tailOffset img = r + rootfs.length

section
variable {info : Info} {img : Bytes} {b r n m : Nat} {bootfs rootfs : Bytes}

theorem range_eq_ok {x y : Nat} : (if x = 0 then .error Err.EINVAL else .ok (y, x)) = (.ok (b, n) : Except Err (Nat × Nat)) ↔
    n ≠ 0 ∧ y = b ∧ x = n := by
  by_cases h : x = 0
  · simp only [h, if_true, reduceCtorEq, false_iff]
    rintro ⟨hn, -, rfl⟩
    exact hn rfl
  · simp only [h, if_false, Except.ok.injEq, Prod.mk.injEq]
    exact ⟨fun e => ⟨e.2 ▸ h, e⟩, fun e => e.2⟩

theorem extractRange_bootfs : extractRange info "bootfs" = .ok (b, n) ↔ n ≠ 0 ∧ info.bootfsOffset = b ∧
    (if info.paddingOffset = 0 then info.rootfsOffset else info.paddingOffset) - info.bootfsOffset = n := by
  simp only [extractRange, String.reduceEq, if_false, if_true, bind, Except.bind, pure, Except.pure]
  exact range_eq_ok

theorem extractRange_rootfs : extractRange info "rootfs" = .ok (r, m) ↔ m ≠ 0 ∧ info.rootfsOffset = r ∧
    info.tailOffset - info.rootfsOffset = m := by
  simp only [extractRange, String.reduceEq, if_false, if_true, bind, Except.bind, pure, Except.pure]
  exact range_eq_ok

/-- The ranges as a matter of the layout. -/
theorem laid_of_ranges (h : parse img = .ok info) (hb : extractRange info "bootfs" = .ok (b, bootfs.length))
    (hr : extractRange info "rootfs" = .ok (r, rootfs.length)) : Laid img b bootfs r rootfs ∧ Summed img := by
  obtain ⟨hlen, hf, hlt, hroot, hsum, -, htail, -, -⟩ := parse_eq_ok.mp h
  obtain ⟨hn, rfl, hend⟩ := extractRange_bootfs.mp hb
  obtain ⟨hm, rfl, hrest⟩ := extractRange_rootfs.mp hr
  refine ⟨⟨hlen, hf, hroot.first, ?_, by omega⟩, hsum⟩
  rcases hroot.padding with ⟨h0, ha, h256⟩ | ⟨hp, hpr⟩
  · rw [if_pos h0] at hend
    exact Or.inl ⟨by omega, ha, h256⟩
  · have hne : info.paddingOffset ≠ info.bootfsOffset := fun heq => not_erased_of_jffs2 hf.holds (heq ▸ hp.holds)
    have hle := hp.le
    rw [if_neg (by omega)] at hend
    have hp' : info.bootfsOffset + bootfs.length = info.paddingOffset := by omega
    rw [hp']
    exact Or.inr ⟨hp, hpr⟩

theorem ranges_of_laid (hl : Laid img b bootfs r rootfs) (hsum : Summed img) (hn : bootfs ≠ []) (hm : rootfs ≠ []) :
    ∃ info, parse img = .ok info ∧ extractRange info "bootfs" = .ok (b, bootfs.length) ∧
      extractRange info "rootfs" = .ok (r, rootfs.length) := by
  have hn' := List.length_pos_iff.mpr hn
  have hm' := List.length_pos_iff.mpr hm
  have hrest := hl.rest
  have hble := hl.ubi.le
  obtain ⟨p, hp, hend⟩ : ∃ p, Rootfs img (tailOffset img) b r p ∧ (if p = 0 then r else p) = b + bootfs.length := by
    rcases hl.gap with ⟨heq, ha, h256⟩ | ⟨he, hlt⟩
    · exact ⟨0, ⟨hl.ubi, by omega, Or.inl ⟨rfl, ha, h256⟩⟩, by rw [if_pos rfl, heq]⟩
    · exact ⟨b + bootfs.length, ⟨hl.ubi, by omega, Or.inr ⟨he, hlt⟩⟩, if_neg (by omega)⟩
  refine ⟨⟨cferomOffset img, b, p, r, tailOffset img, word img (tailOffset img), Tail.ofBytes (slice img (tailOffset img) tailSize)⟩,
    parse_eq_ok.mpr ?_, extractRange_bootfs.mpr ?_, extractRange_rootfs.mpr ?_⟩
  · simp only [and_self, and_true]
    exact ⟨hl.header, hl.jffs2, by omega, hp, hsum⟩
  · simp only [hend, true_and]
    omega
  · simp only [true_and]
    omega

theorem extract_eq {type : String} {data : Bytes} {off : Nat} (h : parse img = .ok info)
    (hr : extractRange info type = .ok (off, data.length)) (hle : off + data.length ≤ img.length)
    (hd : slice img off data.length = data) : extract img type = .ok data := by
  rw [extract, h]
  simp only [bind, Except.bind, hr, fread_ok hle, hd]

end

theorem of_create {files : String → Option Bytes} {opts : List Opt} {img : Bytes} (h : create files opts = some img) :
    img = (options files opts).image := by
  rw [create] at h
  split at h
  · exact (Option.some.inj h).symm
  · cases h

/-- In an image without parts of a vendor the checksum of the body meets that of the files alone. -/
theorem summed_iff {files : String → Option Bytes} {opts : List Opt} (hcf : cferomOffset (options files opts).image = 0)
    (ht : tailOffset (options files opts).image = (options files opts).trx.length) :
    Summed (options files opts).image ↔ bcm4908imgCrc32 0xffffffff (options files opts).trx =
      bcm4908imgCrc32 0xffffffff (opts.flatMap (appended files)) := by
  rw [Summed, hcf, ht, word_image, options_crc32, Nat.sub_zero, slice_image (Nat.le_of_eq (Nat.zero_add _)), slice,
    List.drop_zero, List.take_length]

/-- The round trip works exactly where the layout is recognised and the checksum over the body is the one in the tail. For
    an image without parts of a vendor this is the checksum of the files alone. -/
theorem roundTrip_iff {files : String → Option Bytes} {opts : List Opt} {img bootfs rootfs : Bytes} {b r : Nat}
    (hc : create files opts = some img) (h : Holds files opts b bootfs r rootfs) :
    (RoundTrip img b bootfs r rootfs ↔ Laid img b bootfs r rootfs ∧ Summed img) ∧
      (cferomOffset img = 0 → tailOffset img = (options files opts).trx.length →
        (Summed img ↔ bcm4908imgCrc32 0xffffffff (options files opts).trx =
          bcm4908imgCrc32 0xffffffff (opts.flatMap (appended files)))) := by
  obtain rfl := of_create hc
  refine ⟨⟨?_, ?_⟩, summed_iff⟩
  · rintro ⟨⟨info, hp, hb, hr⟩, -, -⟩
    exact laid_of_ranges hp hb hr
  · rintro ⟨hl, hsum⟩
    have hn : bootfs ≠ [] := by
      rintro rfl
      exact absurd h.jffs2 (by decide)
    have hm : rootfs ≠ [] := by
      rintro rfl
      exact absurd h.ubi (by decide)
    obtain ⟨info, hp, hb, hr⟩ := ranges_of_laid hl hsum hn hm
    obtain ⟨hble, hbs⟩ := h.hasBootfs.slice_eq
    obtain ⟨hrle, hrs⟩ := h.hasRootfs.slice_eq
    have hlen := length_image (s := options files opts)
    exact ⟨⟨info, hp, hb, hr⟩, extract_eq hp hb (by omega) (by rw [slice_image hble, hbs]),
      extract_eq hp hr (by omega) (by rw [slice_image hrle, hrs])⟩

/-! ### Images of two files -/

/-- A rootfs of 256 bytes. -/
def sampleRootfs : Bytes := [0x55, 0x42, 0x49, 0x23] ++ List.replicate 252 0

def twoFiles (bootfs : Bytes) (path : String) : Option Bytes :=
  if path = "bootfs" then some bootfs else if path = "rootfs" then some sampleRootfs else none

def twoOpts : List Opt := [.f "bootfs", .a 0x20000, .f "rootfs"]

/-- A bootfs that fills its block. -/
def wholeBootfs : Bytes := [0x85, 0x19, 0x03, 0x20] ++ List.replicate 131068 0

/-- Four bytes are missing to a block. The second word brings the checksum to 0, where zeros leave it. -/
def shortBootfs : Bytes := [0x85, 0x19, 0xce, 0x29, 0xb9, 0x9c] ++ (List.replicate 131061 0 ++ [1])

theorem length_sampleRootfs : sampleRootfs.length = 256 := by
  rw [sampleRootfs, List.length_append, List.length_replicate]
  rfl

theorem length_wholeBootfs : wholeBootfs.length = 0x20000 := by
  rw [wholeBootfs, List.length_append, List.length_replicate]
  rfl

theorem length_shortBootfs : shortBootfs.length = 0x1fffc := by
  rw [shortBootfs, List.length_append, List.length_append, List.length_replicate]
  rfl

section
variable {bootfs : Bytes} {n : Nat}

theorem appended_two : twoOpts.flatMap (appended (twoFiles bootfs)) = bootfs ++ sampleRootfs := by
  simp [twoOpts, appended, twoFiles]

/-- The image of two files with `n` bytes of padding between them. -/
theorem options_two (h : align bootfs bootfs.length 0x20000 = some (bootfs ++ List.replicate n 0, n)) :
    (options (twoFiles bootfs) twoOpts).trx = bootfs ++ (List.replicate n 0 ++ sampleRootfs) ∧
      create (twoFiles bootfs) twoOpts = some (options (twoFiles bootfs) twoOpts).image := by
  have ha : sizeT 0x20000 = 0x20000 := rfl
  have hr : (options (twoFiles bootfs) twoOpts).reports = [] := by
    simp [options, twoOpts, Creator.option, appendFile_eq, twoFiles, ha, h]
  refine ⟨?_, by rw [create, if_pos hr]⟩
  simp [options, twoOpts, Creator.option, appendFile_eq, twoFiles, ha, h]

theorem holds_two (h : align bootfs bootfs.length 0x20000 = some (bootfs ++ List.replicate n 0, n)) (hn : bootfs.length + n = 0x20000)
    (hj : be (bootfs.take 2) = 0x8519) : Holds (twoFiles bootfs) twoOpts 0 bootfs 0x20000 sampleRootfs where
  hasBootfs := ⟨[], "bootfs", [.a 0x20000, .f "rootfs"], [], [], rfl, by simp [twoFiles], rfl⟩
  jffs2 := hj
  hasRootfs := by
    refine ⟨[.f "bootfs", .a 0x20000], "rootfs", [], [], [], rfl, by simp [twoFiles], ?_⟩
    have ha : sizeT 0x20000 = 0x20000 := rfl
    simp [options, Creator.option, appendFile_eq, twoFiles, ha, h, hn]
  ubi := rfl
  aligned := ⟨Nat.dvd_zero _, Nat.dvd_refl _⟩
  lt := by decide

/-- The parser takes such an image for one without parts of a vendor. -/
theorem offsets_two {s : Creator} (htrx : s.trx = bootfs ++ (List.replicate n 0 ++ sampleRootfs)) (hlen : 4 ≤ bootfs.length)
    (hj : be (bootfs.take 4) ≠ 0x2a23245e) : cferomOffset s.image = 0 ∧ tailOffset s.image = s.trx.length := by
  have hfirst : slice s.image 0 4 = bootfs.take 4 := by
    rw [Creator.image, htrx, List.append_assoc, slice_append_left (by omega), slice, List.drop_zero]
  have hlast : slice s.image (s.image.length - linksysSize) 9 = List.replicate 9 0 := by
    have hoff : s.image.length - linksysSize = (bootfs ++ List.replicate n 0).length + 20 := by
      rw [length_image, htrx, List.length_append, List.length_append, List.length_append, length_sampleRootfs, tailSize, linksysSize]
      omega
    rw [hoff, Creator.image, htrx, ← List.append_assoc, List.append_assoc, slice_append_right,
      slice_append_left (by rw [length_sampleRootfs]; decide)]
    rfl
  rw [cferomOffset, tailOffset, hfirst, if_neg hj, hlast, if_neg (by decide), length_image]
  exact ⟨rfl, rfl⟩

/-- Such an image with a rootfs on its boundary is laid out as one. -/
theorem laid_two {s : Creator} (htrx : s.trx = bootfs ++ (List.replicate n 0 ++ sampleRootfs)) (hn : bootfs.length + n = 0x20000)
    (hlen : 4 ≤ bootfs.length) (hj : be (bootfs.take 2) = 0x8519) (hchk : be (bootfs.take 4) ≠ 0x2a23245e) :
    Laid s.image 0 (bootfs ++ List.replicate n 0) 0x20000 sampleRootfs := by
  obtain ⟨hcf, ht⟩ := offsets_two htrx hlen hchk
  have hblock : (bootfs ++ List.replicate n 0).length = 0x20000 := by
    rw [List.length_append, List.length_replicate, hn]
  have htl : s.trx.length = 0x20000 + 256 := by
    rw [htrx, ← List.append_assoc, List.length_append, hblock, length_sampleRootfs]
  have himage := length_image (s := s)
  rw [htl, tailSize] at himage
  have hslice : ∀ k ≤ 4, slice s.image 0 k = bootfs.take k := by
    intro k hk
    rw [Creator.image, htrx, List.append_assoc, slice_append_left (by omega), slice, List.drop_zero]
  have hjffs2 : Jffs2 s.image 0 := by
    rw [Jffs2, hslice 2 (by decide), hj]
  have hubi := not_ubi_of_jffs2 hjffs2
  have hroot : Ubi s.image 0x20000 := by
    have hoff : s.image = (bootfs ++ List.replicate n 0) ++ (sampleRootfs ++ Tail.bytes { crc32 := s.crc32 }) := by
      rw [Creator.image, htrx]
      simp only [List.append_assoc]
    have hright := slice_append_right (bootfs ++ List.replicate n 0) (sampleRootfs ++ Tail.bytes { crc32 := s.crc32 }) 0 4
    rw [hblock, Nat.add_zero] at hright
    rw [Ubi, hoff, hright, slice_append_left (by rw [length_sampleRootfs]; decide)]
    rfl
  have hone : ∀ {P : Nat → Prop}, ¬P 0 → Absent P 0 0x20000 := fun h0 =>
    (absent_next (by decide)).mpr ⟨h0, absent_of_le (Nat.le_refl _)⟩
  refine ⟨by omega, by rw [hcf]; exact first_self hjffs2, ⟨Nat.zero_le _, Nat.dvd_refl _, hroot, hone hubi⟩,
    Or.inl ⟨by rw [hblock], hone (not_erased_of_jffs2 hjffs2), by omega⟩, ?_⟩
  rw [ht, htl, length_sampleRootfs]

end

/-- A bootfs that fills its block makes the round trip: nothing is padded. -/
theorem roundTrip_whole : ∃ img, create (twoFiles wholeBootfs) twoOpts = some img ∧
    Holds (twoFiles wholeBootfs) twoOpts 0 wholeBootfs 0x20000 sampleRootfs ∧
    RoundTrip img 0 wholeBootfs 0x20000 sampleRootfs := by
  have hal : align wholeBootfs wholeBootfs.length 0x20000 = some (wholeBootfs ++ List.replicate 0 0, 0) := by
    rw [length_wholeBootfs, align, if_neg (by decide), List.replicate_zero, List.append_nil]
  obtain ⟨htrx, hc⟩ := options_two hal
  have hlen : 4 ≤ wholeBootfs.length := by rw [length_wholeBootfs]; decide
  have hh := holds_two hal (by rw [length_wholeBootfs]) rfl
  obtain ⟨hcf, ht⟩ := offsets_two htrx hlen (by decide)
  refine ⟨_, hc, hh, ((roundTrip_iff hc hh).1).mpr ⟨?_, ?_⟩⟩
  · have hlaid := laid_two htrx (by rw [length_wholeBootfs]) hlen rfl (by decide)
    rwa [List.replicate_zero, List.append_nil] at hlaid
  · refine ((roundTrip_iff hc hh).2 hcf ht).mpr ?_
    rw [htrx, appended_two, List.replicate_zero, List.nil_append]

theorem crc32_zeros (n : Nat) : bcm4908imgCrc32 0 (List.replicate n 0) = 0 := by
  induction n with
  | zero => rfl
  | succ n ih => exact ih

theorem crc32_shortBootfs : bcm4908imgCrc32 0xffffffff shortBootfs = 0x77073096 := by
  have h0 : bcm4908imgCrc32 0xffffffff [0x85, 0x19, 0xce, 0x29, 0xb9, 0x9c] = 0 := by decide
  rw [shortBootfs, bcm4908imgCrc32_append, bcm4908imgCrc32_append, h0, crc32_zeros]
  decide

/-- The checksum over the rootfs, in four stretches, behind a bootfs without padding and behind one with four bytes of it. -/
theorem crc32_sampleRootfs : bcm4908imgCrc32 0x77073096 sampleRootfs = 0xd9893cba ∧ bcm4908imgCrc32 0x3d6029b0 sampleRootfs = 0xebe3abc9 := by
  have hroot : sampleRootfs = ([0x55, 0x42, 0x49, 0x23] ++ List.replicate 60 0) ++ (List.replicate 64 0 ++ (List.replicate 64 0 ++ List.replicate 64 0)) := by
    rw [sampleRootfs, List.append_assoc, List.replicate_append_replicate, List.replicate_append_replicate, List.replicate_append_replicate]
  have h1 : bcm4908imgCrc32 0x77073096 ([0x55, 0x42, 0x49, 0x23] ++ List.replicate 60 0) = 0xe5b8e5ca := by decide +kernel
  have h2 : bcm4908imgCrc32 0xe5b8e5ca (List.replicate 64 0) = 0x4d7a29ec := by decide +kernel
  have h3 : bcm4908imgCrc32 0x4d7a29ec (List.replicate 64 0) = 0xb0b11f08 := by decide +kernel
  have h4 : bcm4908imgCrc32 0xb0b11f08 (List.replicate 64 0) = 0xd9893cba := by decide +kernel
  have p1 : bcm4908imgCrc32 0x3d6029b0 ([0x55, 0x42, 0x49, 0x23] ++ List.replicate 60 0) = 0xb057cb50 := by decide +kernel
  have p2 : bcm4908imgCrc32 0xb057cb50 (List.replicate 64 0) = 0xef53c211 := by decide +kernel
  have p3 : bcm4908imgCrc32 0xef53c211 (List.replicate 64 0) = 0x9356e3ae := by decide +kernel
  have p4 : bcm4908imgCrc32 0x9356e3ae (List.replicate 64 0) = 0xebe3abc9 := by decide +kernel
  rw [hroot]
  simp only [bcm4908imgCrc32_append, h1, h2, h3, h4, p1, p2, p3, p4, and_self]

/-- Four bytes of padding, and the image that was created is not accepted. -/
theorem not_roundTrip_padded : ∃ img, create (twoFiles shortBootfs) twoOpts = some img ∧
    Holds (twoFiles shortBootfs) twoOpts 0 shortBootfs 0x20000 sampleRootfs ∧ (∀ info, parse img ≠ .ok info) ∧
    ¬RoundTrip img 0 shortBootfs 0x20000 sampleRootfs := by
  have hal : align shortBootfs shortBootfs.length 0x20000 = some (shortBootfs ++ List.replicate 4 0, 4) := by
    rw [length_shortBootfs, align, if_pos (by decide), if_neg (by decide), appendZeros, if_pos (by decide)]
  obtain ⟨htrx, hc⟩ := options_two hal
  obtain ⟨hcf, ht⟩ := offsets_two htrx (by rw [length_shortBootfs]; decide) (by decide)
  have hsum : ¬Summed (options (twoFiles shortBootfs) twoOpts).image := by
    have hpad : bcm4908imgCrc32 0x77073096 (List.replicate 4 0) = 0x3d6029b0 := by decide +kernel
    rw [summed_iff hcf ht, htrx, appended_two, bcm4908imgCrc32_append, bcm4908imgCrc32_append _ shortBootfs, crc32_shortBootfs,
      bcm4908imgCrc32_append, hpad, crc32_sampleRootfs.1, crc32_sampleRootfs.2]
    decide
  have hp : ∀ info, parse (options (twoFiles shortBootfs) twoOpts).image ≠ .ok info := by
    intro info h
    obtain ⟨-, -, -, -, hs, -⟩ := parse_eq_ok.mp h
    exact hsum hs
  refine ⟨_, hc, holds_two hal (by rw [length_shortBootfs]) rfl, hp, ?_⟩
  rintro ⟨⟨info, h, -⟩, -, -⟩
  exact hp info h

end RainWrt.Bcm4908img
