import RainWrt.Mtd

/-! Where `mtd write` puts the blocks of an image. -/

namespace RainWrt.Mtd

/-! ### Counting good blocks -/

/-- The number of good blocks among the first `j` from block `p` on. -/
def goodCount (d : Nand) (p j : Nat) : Nat := (List.range j).countP fun k => !d.bad (p + k)

section
variable {d : Nand} {p j k : Nat}

theorem goodCount_succ (d : Nand) (p j : Nat) : goodCount d p (j + 1) = goodCount d p j + if d.bad (p + j) then 0 else 1 := by
  rw [goodCount, List.range_succ, List.countP_append, List.countP_singleton, ← goodCount]
  cases d.bad (p + j) <;> rfl

theorem goodCount_mono (h : j ≤ k) : goodCount d p j ≤ goodCount d p k := by
  induction h with
  | refl => exact Nat.le_refl _
  | step _ ih =>
    rw [goodCount_succ]
    omega

theorem goodCount_eq_of_bad (h : j ≤ k) (hb : ∀ i, j ≤ i → i < k → d.bad (p + i) = true) : goodCount d p k = goodCount d p j := by
  induction h with
  | refl => rfl
  | @step m hm ih =>
    rw [Nat.succ_eq_add_one, goodCount_succ, hb m hm (by omega), ih fun i hi hlt => hb i hi (by omega)]
    rfl

/-- The first good block from a block on. -/
theorem exists_next {m : Nat} (h : goodCount d p j < goodCount d p m) :
    ∃ k, j ≤ k ∧ k < m ∧ d.bad (p + k) = false ∧ ∀ i, j ≤ i → i < k → d.bad (p + i) = true := by
  induction m with
  | zero => exact absurd h (Nat.not_lt.mpr (Nat.zero_le _))
  | succ m ih =>
    by_cases hm : goodCount d p j < goodCount d p m
    · obtain ⟨k, hjk, hkm, hk⟩ := ih hm
      exact ⟨k, hjk, by omega, hk⟩
    · have hjm : j ≤ m := by
        by_contra hlt
        exact absurd (goodCount_mono (d := d) (p := p) (show m + 1 ≤ j by omega)) (by omega)
      have hgood : d.bad (p + m) = false := by
        cases hb : d.bad (p + m) with
        | false => rfl
        | true =>
          rw [goodCount_succ, hb] at h
          exact absurd h hm
      refine ⟨m, hjm, by omega, hgood, fun i hji him => ?_⟩
      cases hb : d.bad (p + i) with
      | true => rfl
      | false =>
        have hsucc := goodCount_succ d p i
        rw [hb] at hsucc
        have h1 := goodCount_mono (d := d) (p := p) hji
        have h2 := goodCount_mono (d := d) (p := p) (show i + 1 ≤ m by omega)
        simp only [Bool.false_eq_true, if_false] at hsucc
        omega

end

/-! ### One block of the image -/

section
variable {d : Nand} {p j j' : Nat} {s s' : Writer}

/-- The loop looks at the `j`th block from the start next. -/
structure Looks (d : Nand) (p : Nat) (s : Writer) (j : Nat) : Prop where
  e : s.e = j * d.erasesize
  pos : s.pos = (p + j) * d.erasesize
  w : s.w + s.skipBadBlocks = s.e

/-- The block that is erased then: its offset has 32 bits. -/
def target (d : Nand) (p j : Nat) : Nat := (p + j) * d.erasesize % 2 ^ 32 / d.erasesize

/-- Block `j'` is the first one from `j` on that is found good, and the erasing succeeds. -/
structure Finds (d : Nand) (p j j' : Nat) : Prop where
  le : j ≤ j'
  skipped : ∀ k, j ≤ k → k < j' → d.bad k = true
  good : d.bad j' = false
  int : j' * d.erasesize < 2 ^ 31
  count : j' < d.count
  aligned : (p + j') * d.erasesize % 2 ^ 32 % d.erasesize = 0
  inside : (p + j') * d.erasesize % 2 ^ 32 < d.size
  erases : d.bad (target d p j') = false

/-- The state behind the erasing. -/
def Writer.afterErase (d : Nand) (p j j' : Nat) (s : Writer) : Writer :=
  { s.put (target d p j') d.erased with
    e := (j' + 1) * d.erasesize
    pos := (p + j') * d.erasesize
    skipBadBlocks := s.skipBadBlocks + (j' - j) * d.erasesize }

theorem mtdBlockIsBad_eq (hes : 0 < d.erasesize) (hint : j * d.erasesize < 2 ^ 31) (hj : j < d.count) :
    mtdBlockIsBad d (j * d.erasesize) = some (d.bad j) := by
  have hmod : j * d.erasesize % 2 ^ 32 = j * d.erasesize := Nat.mod_eq_of_lt (by omega)
  have hsize : j * d.erasesize < d.size := Nat.mul_lt_mul_of_pos_right hj hes
  simp only [mtdBlockIsBad, toInt, hmod, if_pos hint]
  rw [if_neg (by omega), Int.toNat_natCast, Nat.mul_div_cancel _ hes]

theorem of_mtdBlockIsBad_eq_some (hes : 0 < d.erasesize) (hlt : j * d.erasesize < 2 ^ 32) {b : Bool}
    (h : mtdBlockIsBad d (j * d.erasesize) = some b) : b = d.bad j ∧ j * d.erasesize < 2 ^ 31 ∧ j < d.count := by
  have hmod : j * d.erasesize % 2 ^ 32 = j * d.erasesize := Nat.mod_eq_of_lt hlt
  simp only [mtdBlockIsBad, toInt, hmod] at h
  by_cases hint : j * d.erasesize < 2 ^ 31
  · rw [if_pos hint] at h
    split_ifs at h with hout
    have hj : j < d.count := by
      have : j * d.erasesize < d.count * d.erasesize := by
        simp only [Nand.size] at hout
        omega
      exact Nat.lt_of_mul_lt_mul_right this
    rw [Int.toNat_natCast, Nat.mul_div_cancel _ hes] at h
    cases h
    exact ⟨rfl, hint, hj⟩
  · rw [if_neg hint, if_pos (Or.inl (by omega))] at h
    cases h

/-- One round of the loop. -/
theorem eraseLoop_succ (hes : 0 < d.erasesize) (h : Looks d p s j) (rounds : Nat) :
    eraseLoop d (p * d.erasesize) (rounds + 1) s =
      (mtdBlockIsBad d (j * d.erasesize)).bind fun bad =>
        if bad then
          eraseLoop d (p * d.erasesize) rounds
            { s with skipBadBlocks := s.skipBadBlocks + d.erasesize, e := s.e + d.erasesize, pos := s.pos + d.erasesize }
        else
          (mtdEraseBlock d s ((p + j) * d.erasesize)).bind fun s => eraseLoop d (p * d.erasesize) rounds { s with e := s.e + d.erasesize } := by
  have hw := h.w
  have hsum : j * d.erasesize + p * d.erasesize = (p + j) * d.erasesize := by rw [← Nat.add_mul, Nat.add_comm]
  rw [eraseLoop, if_pos (by omega), h.e, hsum]
  rfl

/-- The loop ends behind the block that it erased. -/
theorem eraseLoop_erased (rounds : Nat) (h : s.w + s.skipBadBlocks + d.erasesize = s.e) :
    eraseLoop d (p * d.erasesize) (rounds + 1) s = some s := by
  rw [eraseLoop, if_neg (by omega)]

theorem Looks.skip (h : Looks d p s j) :
    Looks d p { s with skipBadBlocks := s.skipBadBlocks + d.erasesize, e := s.e + d.erasesize, pos := s.pos + d.erasesize } (j + 1) where
  e := by
    dsimp only
    rw [h.e, Nat.succ_mul]
  pos := by
    dsimp only
    rw [h.pos, ← Nat.add_assoc, Nat.succ_mul]
  w := by
    dsimp only
    rw [← h.w]
    omega

theorem afterErase_skip (hlt : j < j') (t : Nat × Nat) :
    Writer.afterErase d p (j + 1) j' { s with skipBadBlocks := s.skipBadBlocks + d.erasesize, e := t.1, pos := t.2 } =
      s.afterErase d p j j' := by
  have hskip : s.skipBadBlocks + d.erasesize + (j' - (j + 1)) * d.erasesize = s.skipBadBlocks + (j' - j) * d.erasesize := by
    have hsub : j' - j = j' - (j + 1) + 1 := by omega
    rw [hsub, Nat.succ_mul]
    omega
  simp only [Writer.afterErase, Writer.put, hskip]

/-- Erasing the block that is looked at. -/
theorem erase_eq (h : Looks d p s j) (s' : Writer) (hs : s' = s.put (target d p j) d.erased) :
    { s' with e := s'.e + d.erasesize } = s.afterErase d p j j := by
  rw [hs]
  simp only [Writer.afterErase, Writer.put, h.e, h.pos, Nat.succ_mul, Nat.sub_self, Nat.zero_mul, Nat.add_zero]

theorem looks_erased (h : Looks d p s j) :
    (s.afterErase d p j j).w + (s.afterErase d p j j).skipBadBlocks + d.erasesize = (s.afterErase d p j j).e := by
  simp only [Writer.afterErase, Writer.put, Nat.sub_self, Nat.zero_mul, Nat.add_zero, Nat.succ_mul, ← h.e]
  have := h.w
  omega

theorem eraseLoop_of_finds (hes : 0 < d.erasesize) (h : Looks d p s j) (hf : Finds d p j j') {rounds : Nat}
    (hr : j' - j + 2 ≤ rounds) : eraseLoop d (p * d.erasesize) rounds s = some (s.afterErase d p j j') := by
  induction rounds generalizing s j with
  | zero => omega
  | succ rounds ih =>
    have hle := Nat.mul_le_mul_right d.erasesize hf.le
    have hint := hf.int
    have hcount := hf.count
    have hjj' := hf.le
    rw [eraseLoop_succ hes h, mtdBlockIsBad_eq hes (by omega) (by omega), Option.bind_some]
    rcases Nat.eq_or_lt_of_le hf.le with rfl | hlt
    · have herase : mtdEraseBlock d s ((p + j) * d.erasesize) = some (s.put (target d p j) d.erased) := by
        have hnot : ¬((p + j) * d.erasesize % 2 ^ 32 % d.erasesize ≠ 0 ∨ d.size ≤ (p + j) * d.erasesize % 2 ^ 32 ∨
            d.bad ((p + j) * d.erasesize % 2 ^ 32 / d.erasesize) = true) := by
          rintro (hne | hle | hbad)
          · exact hne hf.aligned
          · exact Nat.not_lt.mpr hle hf.inside
          · exact absurd hbad (by rw [show (p + j) * d.erasesize % 2 ^ 32 / d.erasesize = target d p j from rfl, hf.erases]; decide)
        rw [mtdEraseBlock, if_neg hnot]
        rfl
      obtain ⟨rounds, rfl⟩ : ∃ r, rounds = r + 1 := ⟨rounds - 1, by omega⟩
      rw [hf.good, if_neg (by decide), herase, Option.bind_some, erase_eq h _ rfl, eraseLoop_erased _ (looks_erased h)]
    · rw [hf.skipped j (Nat.le_refl _) hlt, if_pos rfl, ih h.skip ⟨hlt, fun k hk => hf.skipped k (by omega), hf.good, hf.int, hf.count,
        hf.aligned, hf.inside, hf.erases⟩ (by omega)]
      exact congrArg some (afterErase_skip hlt (_, _))

theorem finds_of_eraseLoop (hes : 0 < d.erasesize ∧ d.erasesize < 2 ^ 31) (h : Looks d p s j) (hlt : j * d.erasesize < 2 ^ 32) {rounds : Nat}
    (hr : eraseLoop d (p * d.erasesize) rounds s = some s') : ∃ j', Finds d p j j' ∧ s' = s.afterErase d p j j' := by
  induction rounds generalizing s j with
  | zero => cases hr
  | succ rounds ih =>
    rw [eraseLoop_succ hes.1 h] at hr
    obtain ⟨bad, hbad, hr⟩ := Option.bind_eq_some_iff.mp hr
    obtain ⟨rfl, hint, hcount⟩ := of_mtdBlockIsBad_eq_some hes.1 hlt hbad
    cases hb : d.bad j with
    | true =>
      rw [hb, if_pos rfl] at hr
      obtain ⟨j', hf, hs'⟩ := ih h.skip (by rw [Nat.succ_mul]; omega) hr
      have hle := hf.le
      refine ⟨j', ⟨by omega, fun k hjk hkj => ?_, hf.good, hf.int, hf.count, hf.aligned, hf.inside, hf.erases⟩, ?_⟩
      · rcases Nat.eq_or_lt_of_le hjk with rfl | hjk
        · exact hb
        · exact hf.skipped k hjk hkj
      · rw [hs']
        exact afterErase_skip hle (_, _)
    | false =>
      rw [hb, if_neg (by decide)] at hr
      obtain ⟨s₁, herase, hr⟩ := Option.bind_eq_some_iff.mp hr
      rw [mtdEraseBlock] at herase
      split_ifs at herase with hnot
      rw [not_or, not_or] at hnot
      rw [erase_eq h s₁ (Option.some.inj herase).symm] at hr
      cases rounds with
      | zero => cases hr
      | succ rounds =>
        rw [eraseLoop_erased _ (looks_erased h)] at hr
        cases hr
        exact ⟨j, ⟨Nat.le_refl _, fun k hjk hkj => by omega, hb, hint, hcount, by simpa using hnot.1, by omega, Bool.eq_false_iff.mpr hnot.2.2⟩, rfl⟩

/-- The state behind a block of the image. -/
def Writer.afterBlock (d : Nand) (p j j' : Nat) (buf : Bytes) (s : Writer) : Writer :=
  let s := s.afterErase d p j j'
  { s.put (p + j') (List.zipWith (· &&& ·) (s.blocks (p + j')) (pad d buf)) with
    pos := (p + j' + 1) * d.erasesize
    w := s.w + d.erasesize }

theorem looks_afterBlock (h : Looks d p s j) (hle : j ≤ j') (buf : Bytes) : Looks d p (s.afterBlock d p j j' buf) (j' + 1) where
  e := rfl
  pos := rfl
  w := by
    have hw := h.w
    have hj : j' * d.erasesize = (j' - j) * d.erasesize + j * d.erasesize := by rw [← Nat.add_mul, Nat.sub_add_cancel hle]
    simp only [Writer.afterBlock, Writer.afterErase, Writer.put, Nat.succ_mul]
    rw [h.e] at hw
    omega

theorem write_afterErase (hes : 0 < d.erasesize) (s : Writer) (p j j' : Nat) (buf : Bytes) :
    (write d (s.afterErase d p j j') (pad d buf)).map (fun s => { s with w := s.w + d.erasesize }) =
      if p + j' < d.count then some (s.afterBlock d p j j' buf) else none := by
  have hpos : (s.afterErase d p j j').pos = (p + j') * d.erasesize := rfl
  have hiff : (p + j') * d.erasesize + d.erasesize > d.size ↔ ¬p + j' < d.count := by
    rw [← Nat.succ_mul, Nand.size, gt_iff_lt, Nat.mul_lt_mul_right hes]
    omega
  rw [write, hpos, Nat.mul_div_cancel _ hes]
  by_cases hlt : p + j' < d.count
  · rw [if_neg (by rw [hiff]; exact fun h => h hlt), if_pos hlt, Option.map_some]
    simp only [Writer.afterBlock, Writer.put, Nat.succ_mul]
  · rw [if_pos (hiff.mpr hlt), if_neg hlt, Option.map_none]

theorem writeBlock_of_finds (hes : 0 < d.erasesize) (h : Looks d p s j) (hf : Finds d p j j') (hlt : p + j' < d.count) (buf : Bytes) :
    writeBlock d (p * d.erasesize) s buf = some (s.afterBlock d p j j' buf) := by
  have hcount := hf.count
  have hwrite := write_afterErase hes s p j j' buf
  rw [if_pos hlt] at hwrite
  rw [writeBlock, eraseLoop_of_finds hes h hf (by omega)]
  obtain ⟨s₁, hs₁, heq⟩ := Option.map_eq_some_iff.mp hwrite
  simp only [Option.bind_eq_bind, Option.bind_some, hs₁]
  exact congrArg some heq

theorem finds_of_writeBlock (hes : 0 < d.erasesize ∧ d.erasesize < 2 ^ 31) (h : Looks d p s j) (hlt : j * d.erasesize < 2 ^ 32) {buf : Bytes}
    (hr : writeBlock d (p * d.erasesize) s buf = some s') :
    ∃ j', Finds d p j j' ∧ p + j' < d.count ∧ s' = s.afterBlock d p j j' buf := by
  rw [writeBlock] at hr
  obtain ⟨s₁, herase, hr⟩ := Option.bind_eq_some_iff.mp hr
  obtain ⟨j', hf, rfl⟩ := finds_of_eraseLoop hes h hlt herase
  have hwrite := write_afterErase hes.1 s p j j' buf
  obtain ⟨s₂, hs₂, hr⟩ := Option.bind_eq_some_iff.mp hr
  rw [hs₂, Option.map_some, Option.some.inj hr] at hwrite
  split_ifs at hwrite with hcount
  exact ⟨j', hf, hcount, Option.some.inj hwrite⟩

end

/-! ### The whole image -/

theorem writeLoop_eq {d : Nand} (hes : 0 < d.erasesize) (o : Nat) {buf file : Bytes} (hb : buf.length ≤ d.erasesize) (s : Writer) :
    writeLoop d o s buf file = (pieces d.erasesize (buf ++ file)).foldlM (writeBlock d o) s := by
  induction hn : buf.length + file.length using Nat.strongRecOn generalizing s buf file with
  | ind n ih =>
    have htake : buf ++ file.take (d.erasesize - buf.length) = (buf ++ file).take d.erasesize := by
      rw [List.take_append, List.take_of_length_le hb]
    have hdrop : file.drop (d.erasesize - buf.length) = (buf ++ file).drop d.erasesize := by
      rw [List.drop_append, List.drop_of_length_le hb, List.nil_append]
    rw [writeLoop, htake]
    by_cases hnil : buf ++ file = []
    · rw [hnil, List.take_nil, if_pos List.length_nil]
      rfl
    · have hpos : 0 < (buf ++ file).length := List.length_pos_of_ne_nil hnil
      have hlen : ¬((buf ++ file).take d.erasesize).length = 0 := by
        rw [List.length_take]
        omega
      have hless : ([] : Bytes).length + ((buf ++ file).drop d.erasesize).length < n := by
        rw [List.length_append] at hpos
        rw [List.length_drop, List.length_append, List.length_nil]
        omega
      rw [if_neg hlen, pieces_cons hes hnil, List.foldlM_cons, hdrop]
      have hrec := fun s => ih _ hless (Nat.zero_le _) s rfl
      simp only [List.nil_append] at hrec
      simp only [hrec]

section
variable {d : Nand} {p j : Nat} {s s' : Writer}

/-- What a run that ends has done: the blocks that it looked at, and what it left alone. -/
structure Ran (d : Nand) (p j n : Nat) (s s' : Writer) : Prop where
  int : ∀ k, j ≤ k → goodCount d 0 k < n → k * d.erasesize < 2 ^ 31
  touched : ∀ b ∈ s.touched, b ∈ s'.touched
  wrote : ∀ k, j ≤ k → goodCount d 0 k < n → d.bad k = false → p + k ∈ s'.touched
  erased : ∀ k, j ≤ k → goodCount d 0 k < n → d.bad k = false → target d p k < p → s'.blocks (target d p k) = d.erased
  kept : ∀ b, (∀ k, j ≤ k → goodCount d 0 k < n → d.bad k = false → b ≠ p + k ∧ b ≠ target d p k) → s'.blocks b = s.blocks b
  stays : ∀ b < p, s.blocks b = d.erased → s'.blocks b = d.erased

theorem afterBlock_blocks (s : Writer) (j j' : Nat) (buf : Bytes) (b : Nat) :
    (s.afterBlock d p j j' buf).blocks b =
      if b = p + j' then List.zipWith (· &&& ·) ((s.afterErase d p j j').blocks (p + j')) (pad d buf)
      else if b = target d p j' then d.erased else s.blocks b := rfl

theorem afterBlock_touched (s : Writer) (j j' : Nat) (buf : Bytes) :
    (s.afterBlock d p j j' buf).touched = s.touched ++ [target d p j'] ++ [p + j'] := rfl

theorem goodCount_finds {j' : Nat} (hf : Finds d p j j') :
    (∀ k, j ≤ k → k ≤ j' → goodCount d 0 k = goodCount d 0 j) ∧ goodCount d 0 (j' + 1) = goodCount d 0 j + 1 := by
  have heq : ∀ k, j ≤ k → k ≤ j' → goodCount d 0 k = goodCount d 0 j := by
    intro k hjk hkj
    apply goodCount_eq_of_bad hjk
    intro i hi hlt
    rw [Nat.zero_add]
    exact hf.skipped i hi (by omega)
  refine ⟨heq, ?_⟩
  rw [goodCount_succ, heq j' hf.le (Nat.le_refl _), Nat.zero_add, hf.good]
  rfl

/-- A run that ends has looked at every block up to the last one that it wrote. -/
theorem ran_of_foldlM (hes : 0 < d.erasesize ∧ d.erasesize < 2 ^ 31) {bufs : List Bytes} (h : Looks d p s j) (hlt : j * d.erasesize < 2 ^ 32)
    (hr : bufs.foldlM (writeBlock d (p * d.erasesize)) s = some s') : Ran d p j (goodCount d 0 j + bufs.length) s s' := by
  induction bufs generalizing s j with
  | nil =>
    cases hr
    have hno : ∀ k, j ≤ k → ¬goodCount d 0 k < goodCount d 0 j + ([] : List Bytes).length := fun k hk =>
      Nat.not_lt.mpr (goodCount_mono hk)
    exact ⟨fun k hk h => absurd h (hno k hk), fun _ h => h, fun k hk h => absurd h (hno k hk), fun k hk h => absurd h (hno k hk),
      fun _ _ => rfl, fun _ _ h => h⟩
  | cons buf bufs ih =>
    obtain ⟨s₁, hs₁, hr⟩ := Option.bind_eq_some_iff.mp hr
    obtain ⟨j', hf, hcount, rfl⟩ := finds_of_writeBlock hes h hlt hs₁
    obtain ⟨heq, hsucc⟩ := goodCount_finds hf
    have hint := hf.int
    have hle := hf.le
    have hran := ih (looks_afterBlock h hf.le buf) (by rw [Nat.succ_mul]; omega) hr
    rw [hsucc, Nat.add_assoc, Nat.add_comm 1, ← List.length_cons (a := buf)] at hran
    -- the blocks up to `j'` are those of this round
    have hsplit : ∀ k, j ≤ k → d.bad k = false → k = j' ∨ j' + 1 ≤ k := by
      intro k hk hgood
      by_contra hnot
      rw [not_or] at hnot
      have := hf.skipped k hk (by omega)
      rw [hgood] at this
      cases this
    refine ⟨fun k hk hlt => ?_, fun b hb => ?_, fun k hk hlt hgood => ?_, fun k hk hlt hgood htarget => ?_, fun b hb => ?_,
      fun b hb herased => ?_⟩
    · by_cases hkj : k ≤ j'
      · exact Nat.lt_of_le_of_lt (Nat.mul_le_mul_right _ hkj) hint
      · exact hran.int k (by omega) hlt
    · apply hran.touched
      rw [afterBlock_touched]
      simp [hb]
    · rcases hsplit k hk hgood with rfl | hk
      · apply hran.touched
        rw [afterBlock_touched]
        simp
      · exact hran.wrote k hk hlt hgood
    · rcases hsplit k hk hgood with rfl | hk
      · apply hran.stays _ htarget
        rw [afterBlock_blocks, if_neg (by omega), if_pos rfl]
      · exact hran.erased k hk hlt hgood htarget
    · have hthis := hb j' hf.le (by rw [heq j' hf.le (Nat.le_refl _), List.length_cons]; omega) hf.good
      rw [hran.kept b fun k hk => hb k (by omega), afterBlock_blocks, if_neg hthis.1, if_neg hthis.2]
    · apply hran.stays b hb
      rw [afterBlock_blocks, if_neg (by omega)]
      split_ifs
      · rfl
      · exact herased

/-- The image is written to the right blocks: of the blocks that are looked at, each one is as good as the one that is
    written, and the numbers fit into the types that they are passed in. -/
def Agrees (d : Nand) (p n : Nat) : Prop :=
  ∀ k, goodCount d p k < n → d.bad k = d.bad (p + k) ∧ k * d.erasesize < 2 ^ 31 ∧ (d.bad k = false → (p + k) * d.erasesize < 2 ^ 32)

theorem zipWith_erased (d : Nand) (buf : Bytes) (h : buf.length ≤ d.erasesize) :
    List.zipWith (· &&& ·) d.erased (pad d buf) = pad d buf := by
  have hlen : (pad d buf).length = d.erasesize := by
    rw [pad, List.length_append, List.length_replicate]
    omega
  apply List.ext_getElem
  · rw [List.length_zipWith, Nand.erased, List.length_replicate, hlen, Nat.min_self]
  · intro i hi hi'
    rw [List.getElem_zipWith]
    simp only [Nand.erased, List.getElem_replicate]
    apply UInt8.toNat_inj.mp
    rw [UInt8.toNat_and, Nat.and_comm]
    exact (Nat.and_two_pow_sub_one_eq_mod _ 8).trans (Nat.mod_eq_of_lt (UInt8.toNat_lt _))

/-- The image ends up in the first good blocks. -/
structure Lays (d : Nand) (p : Nat) (bufs : List Bytes) (j i : Nat) (s s' : Writer) : Prop where
  touched : ∀ b ∈ s'.touched, b ∈ s.touched ∨ d.bad b = false
  kept : ∀ b < p + j, s'.blocks b = s.blocks b
  holds : ∀ k, j ≤ k → d.bad (p + k) = false → goodCount d p k < i + bufs.length →
    s'.blocks (p + k) = pad d (bufs.getD (goodCount d p k - i) [])

theorem lays_of_agrees (hes : 0 < d.erasesize) {bufs : List Bytes} {n i : Nat} (hag : Agrees d p n) (hn : n ≤ goodCount d p (d.count - p))
    (hi : goodCount d p j = i) (hin : i + bufs.length = n) (hlen : ∀ buf ∈ bufs, buf.length ≤ d.erasesize) (h : Looks d p s j) :
    ∃ s', bufs.foldlM (writeBlock d (p * d.erasesize)) s = some s' ∧ Lays d p bufs j i s s' := by
  induction bufs generalizing s j i with
  | nil =>
    refine ⟨s, rfl, fun b hb => Or.inl hb, fun _ _ => rfl, fun k hk _ hlt => ?_⟩
    have := goodCount_mono (d := d) (p := p) hk
    rw [List.length_nil] at hlt
    omega
  | cons buf bufs ih =>
    rw [List.length_cons] at hin
    obtain ⟨j', hle, hcount, hgood, hbad⟩ := exists_next (show goodCount d p j < goodCount d p (d.count - p) by omega)
    have heq : ∀ k, j ≤ k → k ≤ j' → goodCount d p k = i := fun k hjk hkj =>
      (goodCount_eq_of_bad hjk fun m hm hlt => hbad m hm (by omega)).trans hi
    obtain ⟨hsame, hint, hfit⟩ := hag j' (by rw [heq j' hle (Nat.le_refl _)]; omega)
    have hfound : d.bad j' = false := hsame.trans hgood
    have hmod : (p + j') * d.erasesize % 2 ^ 32 = (p + j') * d.erasesize := Nat.mod_eq_of_lt (hfit hfound)
    have htarget : target d p j' = p + j' := by rw [target, hmod, Nat.mul_div_cancel _ hes]
    have hf : Finds d p j j' := by
      refine ⟨hle, fun k hjk hkj => ?_, hfound, hint, by omega, ?_, ?_, ?_⟩
      · rw [(hag k (by rw [heq k hjk (by omega)]; omega)).1]
        exact hbad k hjk hkj
      · rw [hmod, Nat.mul_mod_left]
      · rw [hmod]
        exact Nat.mul_lt_mul_of_pos_right (show p + j' < d.count by omega) hes
      · rw [htarget]
        exact hgood
    have hsucc : goodCount d p (j' + 1) = i + 1 := by
      rw [goodCount_succ, hgood, heq j' hle (Nat.le_refl _)]
      rfl
    obtain ⟨s', hs', hlays⟩ := ih hsucc (by omega) (fun b hb => hlen b (List.mem_cons_of_mem _ hb)) (looks_afterBlock h hle buf)
    refine ⟨s', ?_, fun b hb => ?_, fun b hb => ?_, fun k hk hkgood hlt => ?_⟩
    · rw [List.foldlM_cons, writeBlock_of_finds hes h hf (by omega)]
      exact hs'
    · rcases hlays.touched b hb with hb | hb
      · rw [afterBlock_touched, htarget, List.mem_append, List.mem_append, List.mem_singleton] at hb
        rcases hb with (hb | rfl) | rfl
        · exact Or.inl hb
        · exact Or.inr hgood
        · exact Or.inr hgood
      · exact Or.inr hb
    · rw [hlays.kept b (by omega), afterBlock_blocks, htarget, if_neg (by omega), if_neg (by omega)]
    · by_cases hkj : j' + 1 ≤ k
      · have hmono := goodCount_mono (d := d) (p := p) hkj
        rw [List.length_cons] at hlt
        rw [hlays.holds k hkj hkgood (by omega), show goodCount d p k - i = goodCount d p k - (i + 1) + 1 by omega, List.getD_cons_succ]
      · have hk' : k = j' := by
          by_contra hne
          have := hbad k hk (by omega)
          rw [hkgood] at this
          cases this
        subst hk'
        have hblock : (s.afterErase d p j k).blocks (p + k) = d.erased := by
          simp only [Writer.afterErase, Writer.put, htarget, if_true]
        rw [hlays.kept (p + k) (by omega), afterBlock_blocks, if_pos rfl, hblock, zipWith_erased d buf (hlen buf List.mem_cons_self),
          heq k hle (Nat.le_refl _), Nat.sub_self]
        rfl

theorem target_cases (hes : 0 < d.erasesize) {k : Nat} (hint : k * d.erasesize < 2 ^ 31) :
    ((p + k) * d.erasesize < 2 ^ 32 ∧ target d p k = p + k) ∨ (2 ^ 32 ≤ (p + k) * d.erasesize ∧ target d p k < p) := by
  by_cases hfit : (p + k) * d.erasesize < 2 ^ 32
  · exact Or.inl ⟨hfit, by rw [target, Nat.mod_eq_of_lt hfit, Nat.mul_div_cancel _ hes]⟩
  · refine Or.inr ⟨by omega, ?_⟩
    have hsum : (p + k) * d.erasesize = p * d.erasesize + k * d.erasesize := Nat.add_mul ..
    have hmod : (p + k) * d.erasesize % 2 ^ 32 < p * d.erasesize := by omega
    exact Nat.div_lt_of_lt_mul (by rw [Nat.mul_comm d.erasesize p]; exact hmod)

theorem goodCount_congr {j : Nat} (h : ∀ k < j, d.bad k = d.bad (p + k)) : goodCount d 0 j = goodCount d p j := by
  apply List.countP_congr
  intro k hk
  rw [Nat.zero_add, h k (List.mem_range.mp hk)]

end

theorem exists_ne_of_length {n : Nat} (hn : 0 < n) (y : Bytes) : ∃ x : Bytes, x.length = n ∧ x ≠ y := by
  by_cases hy : y = List.replicate n 0
  · refine ⟨List.replicate n 1, List.length_replicate, fun h => ?_⟩
    rw [hy, List.replicate_inj] at h
    rcases h.2 with h | h
    · omega
    · exact absurd h (by decide)
  · exact ⟨List.replicate n 0, List.length_replicate, fun h => hy h.symm⟩

/-! ### The layout -/

/-- No bad block is erased or written, the blocks before the offset are as before, and the good ones from there on hold
    the blocks of the image. -/
def Laid (d : Nand) (p : Nat) (image : Bytes) (blocks : Nat → Bytes) (r : Option Writer) : Prop :=
  ∃ s, r = some s ∧ (∀ b ∈ s.touched, d.bad b = false) ∧ (∀ b < p, s.blocks b = blocks b) ∧
    ∀ k, p + k < d.count → d.bad (p + k) = false → goodCount d p k < (pieces d.erasesize image).length →
      s.blocks (p + k) = pad d ((pieces d.erasesize image).getD (goodCount d p k) [])

section
variable {d : Nand} {p : Nat} {buf file : Bytes}

theorem looks_start (blocks : Nat → Bytes) : Looks d p { blocks, pos := p * d.erasesize } 0 :=
  ⟨(Nat.zero_mul _).symm, rfl, rfl⟩

theorem laid_of_agrees (hes : 0 < d.erasesize) (hbuf : buf.length ≤ d.erasesize)
    (hn : (pieces d.erasesize (buf ++ file)).length ≤ goodCount d p (d.count - p)) (blocks : Nat → Bytes)
    (hag : Agrees d p (pieces d.erasesize (buf ++ file)).length) :
    Laid d p (buf ++ file) blocks (mtdWrite d (p * d.erasesize) blocks buf file) := by
  have hlen : ∀ b ∈ pieces d.erasesize (buf ++ file), b.length ≤ d.erasesize := fun _ hb => length_le_of_mem_splitEvery hb
  obtain ⟨s, hs, hlays⟩ := lays_of_agrees hes hag hn (show goodCount d p 0 = 0 from rfl) (Nat.zero_add _) hlen (looks_start blocks)
  refine ⟨s, ?_, fun b hb => ?_, fun b hb => ?_, fun k _ hgood hlt => ?_⟩
  · rw [mtdWrite, writeLoop_eq hes _ hbuf, hs]
  · rcases hlays.touched b hb with hb | hb
    · cases hb
    · exact hb
  · exact hlays.kept b hb
  · exact hlays.holds k (Nat.zero_le _) hgood (by omega)

theorem agrees_of_laid (hes : 0 < d.erasesize ∧ d.erasesize < 2 ^ 31) (hbuf : buf.length ≤ d.erasesize)
    (hn : (pieces d.erasesize (buf ++ file)).length ≤ goodCount d p (d.count - p))
    (hlaid : ∀ blocks, (∀ b, (blocks b).length = d.erasesize) →
      Laid d p (buf ++ file) blocks (mtdWrite d (p * d.erasesize) blocks buf file)) :
    Agrees d p (pieces d.erasesize (buf ++ file)).length := by
  have hrun : ∀ x : Bytes, x.length = d.erasesize → ∃ s, Ran d p 0 (pieces d.erasesize (buf ++ file)).length
      { blocks := fun _ => x, pos := p * d.erasesize } s ∧ Laid d p (buf ++ file) (fun _ => x) (some s) := by
    intro x hx
    have hl := hlaid (fun _ => x) fun _ => hx
    have hl' := hl
    obtain ⟨s, hs, -⟩ := hl
    refine ⟨s, ?_, hs ▸ hl'⟩
    rw [mtdWrite, writeLoop_eq hes.1 _ hbuf] at hs
    have hran := ran_of_foldlM hes (looks_start _) (by rw [Nat.zero_mul]; decide) hs
    rwa [show goodCount d 0 0 = 0 from rfl, Nat.zero_add] at hran
  intro k
  induction k using Nat.strongRecOn with
  | ind k ih =>
    intro hlt
    have hcount : goodCount d 0 k = goodCount d p k :=
      goodCount_congr fun m hm => (ih m hm (Nat.lt_of_le_of_lt (goodCount_mono (Nat.le_of_lt hm)) hlt)).1
    have hlt₀ : goodCount d 0 k < (pieces d.erasesize (buf ++ file)).length := by rw [hcount]; exact hlt
    have hzeros : (List.replicate d.erasesize (0 : UInt8)).length = d.erasesize := List.length_replicate
    have hint : k * d.erasesize < 2 ^ 31 := by
      obtain ⟨s, hran, -⟩ := hrun _ hzeros
      exact hran.int k (Nat.zero_le _) hlt₀
    have hsame : d.bad k = d.bad (p + k) := by
      cases hk : d.bad k with
      | false =>
        obtain ⟨s, hran, s', hs', htouched, -⟩ := hrun _ hzeros
        cases hs'
        exact (htouched _ (hran.wrote k (Nat.zero_le _) hlt₀ hk)).symm
      | true =>
        by_contra hpk
        have hpk : d.bad (p + k) = false := by simpa using Ne.symm hpk
        -- the block is skipped although it is good: it keeps what it held
        obtain ⟨x, hx, hne⟩ := exists_ne_of_length hes.1 (pad d ((pieces d.erasesize (buf ++ file)).getD (goodCount d p k) []))
        obtain ⟨s, hran, s', hs', -, -, hholds⟩ := hrun x hx
        cases hs'
        have hinside : p + k < d.count := by
          by_contra hout
          have := goodCount_mono (d := d) (p := p) (show d.count - p ≤ k by omega)
          omega
        apply hne
        rw [← hholds k hinside hpk hlt]
        refine (hran.kept (p + k) fun m hm hltm hgood => ?_).symm
        have hmk : m ≠ k := fun heq => by rw [heq, hk] at hgood; cases hgood
        rcases target_cases (p := p) hes.1 (hran.int m hm hltm) with ⟨-, ht⟩ | ⟨-, ht⟩
        · rw [ht]
          omega
        · omega
    refine ⟨hsame, hint, fun hk => ?_⟩
    rcases target_cases (p := p) hes.1 hint with ⟨hfit, -⟩ | ⟨-, ht⟩
    · exact hfit
    · -- a block before the offset is erased
      exfalso
      obtain ⟨x, hx, hne⟩ := exists_ne_of_length hes.1 d.erased
      obtain ⟨s, hran, s', hs', -, hkept, -⟩ := hrun x hx
      cases hs'
      exact hne ((hkept _ ht).symm.trans (hran.erased k (Nat.zero_le _) hlt₀ hk ht))

/-- The layout is right for all contents of the partition exactly where each block that is looked at is as good as the one
    that is written for it. -/
theorem mtdWrite_iff (hes : 0 < d.erasesize ∧ d.erasesize < 2 ^ 31) (hbuf : buf.length ≤ d.erasesize)
    (hn : (pieces d.erasesize (buf ++ file)).length ≤ goodCount d p (d.count - p)) :
    (∀ blocks, (∀ b, (blocks b).length = d.erasesize) →
      Laid d p (buf ++ file) blocks (mtdWrite d (p * d.erasesize) blocks buf file)) ↔
    Agrees d p (pieces d.erasesize (buf ++ file)).length :=
  ⟨agrees_of_laid hes hbuf hn, fun hag blocks _ => laid_of_agrees hes.1 hbuf hn blocks hag⟩

end

/-- A partition with a bad block. -/
def sample : Nand where
  erasesize := 131072
  count := 8
  bad b := b == 1

/-- The bad block is where the image has to go, but the block at the start is looked at. -/
theorem mtdWrite_shifted : (pieces sample.erasesize ([] ++ [1, 2, 3, 4])).length ≤ goodCount sample 1 (sample.count - 1) ∧
    ¬∀ blocks, (∀ b, (blocks b).length = sample.erasesize) →
      Laid sample 1 ([] ++ [1, 2, 3, 4]) blocks (mtdWrite sample (1 * sample.erasesize) blocks [] [1, 2, 3, 4]) := by
  have hn : (pieces sample.erasesize ([] ++ [1, 2, 3, 4])).length ≤ goodCount sample 1 (sample.count - 1) := by decide
  refine ⟨hn, fun hlaid => ?_⟩
  have hag := agrees_of_laid (by decide) (by decide) hn hlaid
  exact absurd (hag 0 (by decide)).1 (by decide)

/-- A partition in which each other block is bad. -/
def halved : Nand where
  erasesize := 131072
  count := 8
  bad b := b % 2 == 1

/-- A block and two bytes. -/
theorem pieces_halved : pieces halved.erasesize ([1, 2] ++ List.replicate 131072 7) = [[1, 2] ++ List.replicate 131070 7, [7, 7]] := by
  have hes : 0 < halved.erasesize := by decide
  have htake : ([1, 2] ++ List.replicate 131072 (7 : UInt8)).take halved.erasesize = [1, 2] ++ List.replicate 131070 7 := by
    simp only [halved, List.take_append, List.take_replicate, List.length_cons, List.length_nil]
    rfl
  have hdrop : ([1, 2] ++ List.replicate 131072 (7 : UInt8)).drop halved.erasesize = [7, 7] := by
    simp only [halved, List.drop_append, List.drop_replicate, List.length_cons, List.length_nil]
    rfl
  rw [pieces_cons hes (List.append_ne_nil_of_left_ne_nil (List.cons_ne_nil _ _) _), htake, hdrop]
  rfl

/-- The image goes to two blocks behind the offset, around a bad one. -/
theorem mtdWrite_around : ∃ s, mtdWrite halved (2 * halved.erasesize) (fun _ => List.replicate halved.erasesize 0) [1, 2]
      (List.replicate 131072 7) = some s ∧
    s.blocks 1 = List.replicate halved.erasesize 0 ∧ s.blocks 2 = pad halved ([1, 2] ++ List.replicate 131070 7) ∧
    s.blocks 4 = pad halved [7, 7] := by
  have hlen : (pieces halved.erasesize ([1, 2] ++ List.replicate 131072 7)).length = 2 := by rw [pieces_halved]; rfl
  have hag : Agrees halved 2 2 := by
    intro k hk
    have hlow : k < 3 := by
      by_contra hno
      have hmono := goodCount_mono (d := halved) (p := 2) (show 3 ≤ k by omega)
      rw [show goodCount halved 2 3 = 2 by decide] at hmono
      omega
    interval_cases k <;> decide
  obtain ⟨s, hs, -, hbefore, hlaid⟩ := (@mtdWrite_iff halved 2 [1, 2] _ (by decide) (by decide)
    (by rw [hlen]; decide)).mpr (by rw [hlen]; exact hag) (fun _ => List.replicate halved.erasesize 0)
    fun _ => List.length_replicate
  rw [hlen, pieces_halved] at hlaid
  exact ⟨s, hs, hbefore 1 (by decide), hlaid 0 (by decide) rfl (by decide), hlaid 2 (by decide) rfl (by decide)⟩

end RainWrt.Mtd
