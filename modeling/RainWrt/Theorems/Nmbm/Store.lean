import RainWrt.Theorems.Nmbm.Image
import RainWrt.Theorems.Nmbm.Mgmt

/-! Data that was written and read back is on the chip. A table that `nmbm_write_info_table` reports as
    written lies on the good blocks of the range that it reports. -/

namespace RainWrt

/-! ### Pieces -/

theorem dvd_length_splitEvery {m n : Nat} (hn : m ∣ n) : ∀ {k : Nat} {l : Bytes}, m ∣ l.length →
    ∀ c ∈ splitEvery n k l, m ∣ c.length
  | 0, _, _, _, hc => by cases hc
  | _ + 1, [], _, _, hc => by cases hc
  | k + 1, b :: l, hl, c, hc => by
    rcases List.mem_cons.mp hc with rfl | hc
    · rw [List.length_take]
      rcases Nat.le_total n (b :: l).length with h | h
      · rwa [Nat.min_eq_left h]
      · rwa [Nat.min_eq_right h]
    · refine dvd_length_splitEvery hn ?_ c hc
      rw [List.length_drop]
      rcases Nat.le_total n (b :: l).length with h | h
      · exact Nat.dvd_sub hl hn
      · rw [Nat.sub_eq_zero_of_le h]
        exact Nat.dvd_zero m

theorem length_splitEvery {n : Nat} (hn : 0 < n) : ∀ {k : Nat} {l : Bytes}, l.length ≤ k →
    (splitEvery n k l).length = (l.length + n - 1) / n
  | 0, [], _ => by simp [splitEvery, Nat.div_eq_of_lt (show n - 1 < n by omega)]
  | 0, _ :: _, h => by simp at h
  | _ + 1, [], _ => by simp [splitEvery, Nat.div_eq_of_lt (show n - 1 < n by omega)]
  | k + 1, b :: l, h => by
    have hk : ((b :: l).drop n).length ≤ k := by simp only [List.length_drop]; simp only [List.length_cons] at h ⊢; omega
    rw [splitEvery, List.length_cons, length_splitEvery hn hk, List.length_drop, List.length_cons]
    rcases Nat.le_total n (l.length + 1) with hle | hle
    · rw [show l.length + 1 + n - 1 = (l.length + 1 - n + n - 1) + n by omega, Nat.add_div_right _ hn]
    · rw [Nat.sub_eq_zero_of_le hle, Nat.zero_add, Nat.div_eq_of_lt (show n - 1 < n by omega),
        show l.length + 1 + n - 1 = l.length + n by omega, Nat.add_div_right _ hn, Nat.div_eq_of_lt (by omega)]

theorem length_pieces {n : Nat} (hn : 0 < n) (l : Bytes) : (pieces n l).length = (l.length + n - 1) / n :=
  length_splitEvery hn (Nat.le_refl _)

theorem dvd_length_pieces {m n : Nat} (hn : m ∣ n) {l : Bytes} (hl : m ∣ l.length) {c : Bytes} (hc : c ∈ pieces n l) :
    m ∣ c.length := dvd_length_splitEvery hn hl c hc

/-- A string of whole pieces has whole pieces only. -/
theorem length_of_mem_splitEvery {n : Nat} (hn : 0 < n) : ∀ {k : Nat} {l : Bytes}, n ∣ l.length →
    ∀ c ∈ splitEvery n k l, c.length = n
  | 0, _, _, _, hc => by cases hc
  | _ + 1, [], _, _, hc => by cases hc
  | k + 1, b :: l, hl, c, hc => by
    have hle : n ≤ (b :: l).length := Nat.le_of_dvd (by simp) hl
    rcases List.mem_cons.mp hc with rfl | hc
    · rw [List.length_take, Nat.min_eq_left hle]
    · exact length_of_mem_splitEvery hn (by rw [List.length_drop]; exact Nat.dvd_sub hl (Nat.dvd_refl n)) c hc

theorem length_of_mem_pieces {n : Nat} (hn : 0 < n) {l : Bytes} (hl : n ∣ l.length) {c : Bytes} (hc : c ∈ pieces n l) :
    c.length = n := length_of_mem_splitEvery hn hl c hc

theorem length_pieces_of_dvd {n : Nat} (hn : 0 < n) {l : Bytes} (hl : n ∣ l.length) : (pieces n l).length = l.length / n := by
  obtain ⟨k, hk⟩ := hl
  rw [length_pieces hn, hk, Nat.mul_div_cancel_left _ hn, show n * k + n - 1 = (n - 1) + n * k by omega,
    Nat.add_mul_div_left _ _ hn, Nat.div_eq_of_lt (by omega), Nat.zero_add]

theorem pieces_single {n : Nat} {l : Bytes} (hpos : 0 < l.length) (hle : l.length ≤ n) : pieces n l = [l] := by
  cases l with
  | nil => simp at hpos
  | cons b l =>
    rw [pieces, List.length_cons, splitEvery, List.take_of_length_le hle, List.drop_of_length_le hle]
    cases l.length <;> rfl

namespace Nand
variable {n n' : Nand} {pgSize b : Nat}

theorem peekPages_congr (hp : n'.page b = n.page b) (he : n'.emptyOk = n.emptyOk) (count p : Nat) :
    n'.peekPages pgSize b count p = n.peekPages pgSize b count p := by
  induction count generalizing p with
  | zero => rfl
  | succ count ih =>
    have h : n'.peek pgSize b p = n.peek pgSize b p := by simp only [peek, hp, he]
    simp only [peekPages, h, ih]

/-- Block `b` holds `chunk` in its first pages. -/
def Holds (n : Nand) (pgSize b : Nat) (chunk : Bytes) : Prop :=
  n.peekPages pgSize b (chunk.length / pgSize) 0 = .ok chunk

theorem Holds.congr {chunk : Bytes} (h : n.Holds pgSize b chunk) (hp : n'.page b = n.page b) (he : n'.emptyOk = n.emptyOk) :
    n'.Holds pgSize b chunk := by
  rw [Holds, peekPages_congr hp he]
  exact h

end Nand

namespace Nmbm
open Nand

/-! ### Verified writes -/

theorem writeVerifyPages_page_lt (b p : Nat) (ds : List Bytes) (s : State) {p' : Nat} (h : p' < p) :
    (writeVerifyPages b p ds s).2.nand.page b p' = s.nand.page b p' := by
  induction ds generalizing p s with
  | nil => rfl
  | cons d ds ih =>
    unfold writeVerifyPages
    have hw : (writePhysPage s b p (padPage s.ni.chip d)).2.nand.page b p' = s.nand.page b p' :=
      writeTry_page_of_ne (by omega) _ _
    rcases hr : writePhysPage s b p (padPage s.ni.chip d) with ⟨_ | _, s₁⟩ <;> rw [hr] at hw <;> dsimp only
    · exact hw
    · have hq := (readPhysPage_step s₁ b p).nand.page
      rcases hr' : readPhysPage s₁ b p with ⟨_ | r, s₂⟩ <;> rw [hr'] at hq <;> dsimp only
      · rw [hq]
        exact hw
      · split
        · rw [ih (p + 1) s₂ (by omega), hq]
          exact hw
        · rw [hq]
          exact hw

/-- Pages that were verified one after the other read back together. -/
theorem writeVerifyPages_peek {b : Nat} {ds : List Bytes} {p : Nat} {s s' : State} (h : writeVerifyPages b p ds s = (true, s'))
    (hd : ∀ d ∈ ds, d.length = s.ni.chip.pgSize) :
    s'.nand.peekPages s.ni.chip.pgSize b ds.length p = .ok ds.flatten := by
  induction ds generalizing p s with
  | nil => rfl
  | cons d ds ih =>
    unfold writeVerifyPages at h
    have hw := writePhysPage_step s b p (padPage s.ni.chip d)
    rcases hr : writePhysPage s b p (padPage s.ni.chip d) with ⟨_ | _, s₁⟩ <;> rw [hr] at h hw <;> dsimp only at h
    · cases h
    · have hv := readPhysPage_step s₁ b p
      have hni : s₁.ni = s.ni := hw.ni
      rcases hr' : readPhysPage s₁ b p with ⟨_ | r, s₂⟩ <;> rw [hr'] at h hv <;> dsimp only at h
      · cases h
      · split at h
        · rename_i heq
          have hni₂ : s₂.ni = s.ni := hv.ni.trans hni
          -- what was read back is the whole page
          have hpeek : s₁.nand.peek s.ni.chip.pgSize b p = .ok r := by
            have := readPhysPage_ok s₁ b p (d := r) (by rw [hr'])
            rwa [hni] at this
          have hrd : r = d := by
            rw [← heq, List.take_of_length_le (Nat.le_of_eq ?_)]
            rw [length_peek hpeek, hd d List.mem_cons_self]
          have hrest := ih h fun x hx => by rw [hni₂]; exact hd x (List.mem_cons_of_mem _ hx)
          rw [hni₂] at hrest
          have hpage : s'.nand.page b p = s₁.nand.page b p := by
            have := writeVerifyPages_page_lt b (p + 1) ds s₂ (Nat.lt_succ_self p)
            rw [h] at this
            exact this.trans (congrFun (congrFun hv.nand.page b) p)
          have hempty : s'.nand.emptyOk = s₁.nand.emptyOk := by
            have := (writeVerifyPages_step b (p + 1) ds s₂).nand.emptyOk
            rw [h] at this
            exact this.trans hv.nand.emptyOk
          have hpeek' : s'.nand.peek s.ni.chip.pgSize b p = .ok d := by
            rw [← hrd, ← hpeek]
            simp only [peek, hpage, hempty]
          simp only [List.length_cons, peekPages, hpeek', hrest, List.flatten_cons]
        · cases h

theorem writeVerifyData_holds {b : Nat} {chunk : Bytes} {s s' : State} (h : writeVerifyData s b chunk = (true, s'))
    (hd : s.ni.chip.pgSize ∣ chunk.length) : s'.nand.Holds s.ni.chip.pgSize b chunk := by
  have hp := writeVerifyPages_peek h fun d => length_of_mem_pieces s.ni.chip.pgSize_pos hd
  rwa [length_pieces_of_dvd s.ni.chip.pgSize_pos hd, flatten_pieces s.ni.chip.pgSize_pos] at hp

/-! ### Tables -/

theorem writeMgmtBlock_false {s s' : State} {ba : Nat} {chunk : Bytes} (h : writeMgmtBlock s ba chunk = (false, s')) :
    s'.ni.good ba = false := by
  have hret : ∀ t : State, t.ni.good ba = true → (retireBlock t ba).ni.good ba = false := fun t ht => by
    rw [retireBlock, setBlockState_bad_good (by rw [(markPhysBadBlock_step t ba).ni]; exact ht)]
    simp
  unfold writeMgmtBlock at h
  split at h
  · rename_i hg
    have hc := (checkBadPhysBlock_step s ba).ni
    rcases hr : checkBadPhysBlock s ba with ⟨_ | _, s₁⟩ <;> rw [hr] at h hc <;> dsimp only at h hc
    · have he := (eraseBlockAndCheck_step (noteMgmt s₁ ba) ba).ni
      rcases hr₂ : eraseBlockAndCheck (noteMgmt s₁ ba) ba with ⟨_ | _, s₂⟩ <;> rw [hr₂] at h he <;> dsimp only at h he
      · cases h
        exact hret s₂ (by rw [he]; exact (congrArg (Instance.good · ba) hc).trans hg)
      · have hw := (writeVerifyPages_step ba 0 (pieces s₂.ni.chip.pgSize chunk) s₂).ni
        rcases hr₃ : writeVerifyData s₂ ba chunk with ⟨_ | _, s₃⟩ <;> rw [hr₃] at h <;> dsimp only at h
        · rw [writeVerifyData] at hr₃
          rw [hr₃] at hw
          cases h
          exact hret s₃ (by rw [hw, he]; exact (congrArg (Instance.good · ba) hc).trans hg)
        · cases h
    · cases h
      rw [setBlockState_bad_good (by rw [hc]; exact hg)]
      simp
  · rename_i hg
    cases h
    simpa using hg

theorem writeMgmtBlock_true {s s' : State} {ba : Nat} {chunk : Bytes} (h : writeMgmtBlock s ba chunk = (true, s'))
    (hd : s.ni.chip.pgSize ∣ chunk.length) : s'.ni = s.ni ∧ s.ni.good ba = true ∧ s'.nand.Holds s.ni.chip.pgSize ba chunk := by
  unfold writeMgmtBlock at h
  split at h
  · rename_i hg
    have hc := (checkBadPhysBlock_step s ba).ni
    rcases hr : checkBadPhysBlock s ba with ⟨_ | _, s₁⟩ <;> rw [hr] at h hc <;> dsimp only at h hc
    · have he := (eraseBlockAndCheck_step (noteMgmt s₁ ba) ba).ni
      rcases hr₂ : eraseBlockAndCheck (noteMgmt s₁ ba) ba with ⟨_ | _, s₂⟩ <;> rw [hr₂] at h he <;> dsimp only at h he
      · cases h
      · have hni : s₂.ni = s.ni := he.trans hc
        have hw := (writeVerifyPages_step ba 0 (pieces s₂.ni.chip.pgSize chunk) s₂).ni
        rcases hr₃ : writeVerifyData s₂ ba chunk with ⟨_ | _, s₃⟩ <;> rw [hr₃] at h <;> dsimp only at h
        · cases h
        · cases h
          have hold := writeVerifyData_holds hr₃ (by rwa [hni])
          rw [writeVerifyData] at hr₃
          rw [hr₃] at hw
          rw [hni] at hold
          exact ⟨hw.trans hni, hg, hold⟩
    · cases h
  · cases h

/-- The blocks of `[lo, hi)` that are recorded as good. -/
def goodBlocks (ni : Instance) (lo hi : Nat) : List Nat := (List.range' lo (hi - lo)).filter ni.good

/-- The blocks `bs` hold the pieces `cs`, one each. -/
abbrev Stored (n : Nand) (c : Chip) (bs : List Nat) (cs : List Bytes) : Prop := List.Forall₂ (n.Holds c.pgSize) bs cs

theorem Stored.congr {n n' : Nand} {c : Chip} {bs : List Nat} {cs : List Bytes} (h : Stored n c bs cs)
    (hp : ∀ b ∈ bs, n'.page b = n.page b) (he : n'.emptyOk = n.emptyOk) : Stored n' c bs cs := by
  induction h with
  | nil => exact .nil
  | cons hb _ ih =>
    exact .cons (hb.congr (hp _ List.mem_cons_self) he) (ih fun b h => hp b (List.mem_cons_of_mem _ h))

theorem goodBlocks_cons {ni : Instance} {lo hi : Nat} (h : lo < hi) :
    goodBlocks ni lo hi = if ni.good lo then lo :: goodBlocks ni (lo + 1) hi else goodBlocks ni (lo + 1) hi := by
  obtain ⟨k, hk⟩ : ∃ k, hi - lo = k + 1 := ⟨hi - lo - 1, by omega⟩
  rw [goodBlocks, goodBlocks, hk, show hi - (lo + 1) = k by omega, List.range'_succ, List.filter_cons]

theorem mem_goodBlocks {ni : Instance} {lo hi b : Nat} : b ∈ goodBlocks ni lo hi ↔ lo ≤ b ∧ b < hi ∧ ni.good b = true := by
  simp only [goodBlocks, List.mem_filter, List.mem_range'_1, and_assoc]
  constructor
  · rintro ⟨h1, h2, h3⟩
    exact ⟨h1, by omega, h3⟩
  · rintro ⟨h1, h2, h3⟩
    exact ⟨h1, by omega, h3⟩

/-- A write that succeeds leaves the pieces on the good blocks that it went over, and the last of these
    is the block before the end. -/
theorem writeMgmtLoop_stored {n : Nat} {s s' : State} {ba : Nat} {cs : List Bytes} {start : Option Nat} {st en : Nat}
    (h : writeMgmtLoop n s ba cs start = (some (st, en), s')) (hd : ∀ c ∈ cs, s.ni.chip.pgSize ∣ c.length) :
    Stored s'.nand s.ni.chip (goodBlocks s'.ni ba en) cs ∧
      (start = none → (goodBlocks s'.ni ba en).head? = some st) ∧ (cs ≠ [] → s'.ni.good (en - 1) = true) := by
  induction n generalizing s ba cs start with
  | zero =>
    cases cs with
    | nil =>
      rcases start with _ | x
      · cases h
      · cases h
        simp [goodBlocks]
    | cons c cs => cases h
  | succ n ih =>
    cases cs with
    | nil =>
      rcases start with _ | x
      · cases h
      · cases h
        simp [goodBlocks]
    | cons c cs =>
      unfold writeMgmtLoop at h
      have hstep := writeMgmtBlock_step s ba c
      rcases hr : writeMgmtBlock s ba c with ⟨_ | _, s₁⟩ <;> rw [hr] at h hstep <;> dsimp only at h
      · have hchip : s₁.ni.chip = s.ni.chip := hstep.sameMap.chip
        obtain ⟨h1, h2, h3⟩ := ih h fun c hc => by rw [hchip]; exact hd c hc
        have hle := (writeMgmtLoop_some (congrArg Prod.fst h)).1
        have hrest := writeMgmtLoop_step n s₁ (ba + 1) (c :: cs) start
        rw [h] at hrest
        have hbad : s'.ni.good ba = false := by
          rw [hrest.kept ba fun h _ => by omega]
          exact writeMgmtBlock_false hr
        rw [hchip] at h1
        rw [goodBlocks_cons (by omega), if_neg (by simp [hbad])]
        exact ⟨h1, h2, h3⟩
      · obtain ⟨hni, hg, hold⟩ := writeMgmtBlock_true hr (hd c List.mem_cons_self)
        obtain ⟨h1, -, h3⟩ := ih h fun c hc => by rw [hni]; exact hd c (List.mem_cons_of_mem _ hc)
        have hle := writeMgmtLoop_some (congrArg Prod.fst h)
        have hrest := writeMgmtLoop_step n s₁ (ba + 1) cs (some (start.getD ba))
        rw [h] at hrest
        have hgood : s'.ni.good ba = true := by rw [hrest.kept ba fun h _ => by omega, hni, hg]
        rw [goodBlocks_cons (by omega), if_pos hgood]
        rw [hni] at h1
        refine ⟨.cons (hold.congr (hrest.page ba fun h _ => by omega) hrest.emptyOk) h1, fun hs => ?_, fun _ => ?_⟩
        · rcases hle.2.2 with h4 | ⟨h4, -⟩
          · subst hs
            exact h4
          · cases h4
        · cases cs with
          | nil =>
            have hen : en = ba + 1 := by
              cases n <;> (cases h; rfl)
            rw [hen]
            exact hgood
          | cons c' cs => exact h3 (by simp)

/-- Nothing is stored below the first block of a table. -/
theorem goodBlocks_of_head {ni : Instance} {lo hi st : Nat} (h : (goodBlocks ni lo hi).head? = some st) :
    goodBlocks ni lo hi = goodBlocks ni st hi := by
  obtain ⟨k, hk⟩ : ∃ k, k = hi - lo := ⟨_, rfl⟩
  induction k generalizing lo with
  | zero =>
    rw [goodBlocks, ← hk] at h
    cases h
  | succ k ih =>
    rw [goodBlocks_cons (by omega)] at h
    split at h
    · cases h
      rfl
    · rename_i hg
      rw [goodBlocks_cons (by omega), if_neg hg]
      exact ih h (by omega)

section
variable {s s' : State} {ba limit st en : Nat}

theorem writeInfoTable_stored (h : writeInfoTable s ba limit = (some (st, en), s'))
    (hd : s.ni.infoTableCache.length = s.ni.chip.infoTableSize) :
    Stored s'.nand s.ni.chip (goodBlocks s'.ni st en) (pieces s.ni.chip.blkSize s.ni.infoTableCache) := by
  obtain ⟨h1, h2, -⟩ := writeMgmtLoop_stored h fun c =>
    dvd_length_pieces s.ni.chip.pgSize_dvd_blkSize (by rw [hd]; exact s.ni.chip.pgSize_dvd_infoTableSize)
  rwa [goodBlocks_of_head (h2 rfl)] at h1

theorem writeDescending_stored {lo n : Nat} (h : writeDescending lo n s = (some (st, en), s'))
    (hd : s.ni.infoTableCache.length = s.ni.chip.infoTableSize) :
    Stored s'.nand s.ni.chip (goodBlocks s'.ni st en) (pieces s.ni.chip.blkSize s.ni.infoTableCache) := by
  induction n generalizing s with
  | zero => exact writeInfoTable_stored h hd
  | succ n ih =>
    unfold writeDescending at h
    have hw := writeInfoTable_step s (lo + (n + 1)) s.ni.mappingBlocksTopBa
    rcases hr : writeInfoTable s (lo + (n + 1)) s.ni.mappingBlocksTopBa with ⟨_ | r, s₁⟩ <;> rw [hr] at h hw <;> dsimp only at h hw
    · have hchip := hw.sameMap.chip
      have hcache := hw.cache.1
      have := ih h (by rw [hcache, hchip]; exact hd)
      rwa [hcache, hchip] at this
    · cases h
      exact writeInfoTable_stored hr hd

theorem writeBehind_stored {lo : Nat} (h : writeBehind s lo = (some (some (st, en)), s'))
    (hd : s.ni.infoTableCache.length = s.ni.chip.infoTableSize) :
    Stored s'.nand s.ni.chip (goodBlocks s'.ni st en) (pieces s.ni.chip.blkSize s.ni.infoTableCache) := by
  unfold writeBehind at h
  rcases hw : reserveSpare s.ni lo with _ | w <;> rw [hw] at h
  · cases h
  · dsimp only at h
    rcases hr : writeDescending lo (w - lo) s with ⟨r, s₁⟩
    rw [hr] at h
    cases h
    exact writeDescending_stored hr hd

end

end Nmbm

end RainWrt
