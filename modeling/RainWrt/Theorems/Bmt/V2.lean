import RainWrt.Bmt.V2

/-! The second version of `mtk_bmt`: what a scan writes into the tables, and what remapping keeps of them. -/

namespace RainWrt.Bmt.V2
variable {g : Chip} {good : Nat → Bool}

/-! ### Words -/

namespace Words
variable {w : Words} {i j k v : Nat}

theorem set_self : w.set i v i = v := if_pos rfl

theorem set_of_ne (h : j ≠ i) : w.set i v j = w j := if_neg h

theorem setBlock_of_ne (h : i ≠ g.tableSize + 2 * k) : w.setBlock g k v i = w i := set_of_ne h

theorem setMapped_of_ne (h : i ≠ g.tableSize + 2 * k + 1) : w.setMapped g k v i = w i := set_of_ne h

@[simp] theorem block_setMapped : (w.setMapped g k v).block g j = w.block g j := set_of_ne (by omega)

@[simp] theorem mapped_setBlock : (w.setBlock g k v).mapped g j = w.mapped g j := set_of_ne (by omega)

theorem mapped_setMapped_of_ne (h : j ≠ k) : (w.setMapped g k v).mapped g j = w.mapped g j := set_of_ne (by omega)

@[simp] theorem mapped_setMapped : (w.setMapped g k v).mapped g k = v := set_self

theorem block_set_of_lt (h : i < g.tableSize) : (w.set i v).block g k = w.block g k := set_of_ne (by omega)

theorem mapped_set_of_lt (h : i < g.tableSize) : (w.set i v).mapped g k = w.mapped g k := set_of_ne (by omega)

end Words

/-! ### Scanning -/

theorem findValid_spec {budget block r : Nat} (h : findValid g good budget block = r) (hr : r ≠ 0) :
    block ≤ r ∧ r < g.totalBlks ∧ good r = true := by
  induction budget generalizing block with
  | zero =>
    unfold findValid at h
    split at h
    · exact absurd h.symm hr
    · split at h
      · next hlt hgood => exact h ▸ ⟨Nat.le_refl _, Nat.not_le.mp hlt, hgood⟩
      · exact absurd h.symm hr
  | succ budget ih =>
    unfold findValid at h
    split at h
    · exact absurd h.symm hr
    · split at h
      · next hlt hgood => exact h ▸ ⟨Nat.le_refl _, Nat.not_le.mp hlt, hgood⟩
      · obtain ⟨hle, hlt, hgood⟩ := ih h
        exact ⟨by omega, hlt, hgood⟩

theorem findValidBlock_spec (hg : g.totalBlks < 2 ^ 16) {block : Nat} (hblock : block ≤ g.totalBlks)
    (hr : findValidBlock g good block ≠ 0) :
    block ≤ findValidBlock g good block ∧ findValidBlock g good block < g.totalBlks ∧ good (findValidBlock g good block) = true := by
  have hmod : block % 2 ^ 16 = block := Nat.mod_eq_of_lt (by omega)
  have hspec := @findValid_spec _ _ _ (block % 2 ^ 16) _ rfl hr
  rw [hmod] at hspec
  simpa only [findValidBlock, hmod] using hspec

/-- The loop over the data area fills its words with good blocks, each above the one before. -/
theorem scanData_spec (hg : g.totalBlks < 2 ^ 16) (n i : Nat) (w : Words) (hi : 0 < i) (hprev : w (i - 1) < g.totalBlks)
    (hok : (scanData g good n i w).1 = true) :
    let w' := (scanData g good n i w).2
    (∀ k, k < i ∨ i + n ≤ k → w' k = w k) ∧
    ∀ k, i ≤ k → k < i + n → w' (k - 1) < w' k ∧ w' k < g.totalBlks ∧ good (w' k) = true := by
  induction n generalizing i w with
  | zero => exact ⟨fun _ _ => rfl, fun k h h' => by omega⟩
  | succ n ih =>
    unfold scanData at hok ⊢
    dsimp only at hok ⊢
    split at hok
    · cases hok
    · next hne =>
      rw [if_neg hne]
      obtain ⟨hle, hlt, hgood⟩ := findValidBlock_spec hg hprev hne
      generalize findValidBlock g good (w (i - 1) + 1) = block at *
      have hself : w.set i block i = block := Words.set_self
      obtain ⟨hsame, hfilled⟩ := ih (i + 1) (w.set i block) (by omega) (by rw [Nat.add_sub_cancel, hself]; exact hlt) hok
      refine ⟨fun k hk => ?_, fun k hk hk' => ?_⟩
      · rw [hsame k (by omega), Words.set_of_ne (by omega)]
      · rcases Nat.eq_or_lt_of_le hk with rfl | hlt'
        · rw [hsame i (Or.inl (Nat.lt_succ_self i)), hsame (i - 1) (Or.inl (by omega)), hself, Words.set_of_ne (by omega)]
          exact ⟨hle, hlt, hgood⟩
        · exact hfilled k hlt' (by omega)

/-- The loop over the pool fills its entries with good blocks, each above the one before. -/
theorem scanPool_spec (hg : g.totalBlks < 2 ^ 16) (n i block : Nat) (w : Words) (hblock : block ≤ g.totalBlks) :
    let r := scanPool g good n i block w
    i ≤ r.1 ∧ r.1 ≤ i + (g.totalBlks - block) ∧
    (∀ k, k < g.tableSize + 2 * i → r.2 k = w k) ∧
    (∀ k, i ≤ k → k < r.1 → block ≤ r.2.block g k ∧ r.2.block g k < g.totalBlks ∧ good (r.2.block g k) = true) ∧
    ∀ k k', i ≤ k → k < k' → k' < r.1 → r.2.block g k < r.2.block g k' := by
  induction n generalizing i block w with
  | zero => exact ⟨Nat.le_refl _, Nat.le_add_right _ _, fun _ _ => rfl, fun k h h' => absurd h' (Nat.not_lt.mpr h), fun k k' h h' h'' => absurd h'' (by simp only [scanPool]; omega)⟩
  | succ n ih =>
    unfold scanPool
    dsimp only
    split
    · exact ⟨Nat.le_refl _, Nat.le_add_right _ _, fun _ _ => rfl, fun k h h' => absurd h' (Nat.not_lt.mpr h), fun k k' h h' h'' => absurd h'' (by omega)⟩
    · next hne =>
      obtain ⟨hle, hlt, hgood⟩ := findValidBlock_spec hg hblock hne
      generalize findValidBlock g good block = found at *
      obtain ⟨hlow, hhigh, hsame, hfilled, hrising⟩ := ih (i + 1) (found + 1) ((w.setBlock g i found).setMapped g i NO_MAPPED) hlt
      generalize scanPool g good n (i + 1) (found + 1) ((w.setBlock g i found).setMapped g i NO_MAPPED) = r at *
      have hself : r.2.block g i = found := by
        rw [Words.block, hsame _ (by omega), Words.setMapped_of_ne (by omega)]
        exact Words.set_self
      refine ⟨by omega, by omega, fun k hk => ?_, fun k hk hk' => ?_, fun k k' hk hk' hr => ?_⟩
      · rw [hsame k (by omega), Words.setMapped_of_ne (by omega), Words.setBlock_of_ne (by omega)]
      · rcases Nat.eq_or_lt_of_le hk with rfl | hlt'
        · rw [hself]
          exact ⟨hle, hlt, hgood⟩
        · obtain ⟨h, h'⟩ := hfilled k hlt' hk'
          exact ⟨by omega, h'⟩
      · rcases Nat.eq_or_lt_of_le hk with rfl | hlt'
        · rw [hself]
          exact (hfilled k' hk' hr).1
        · exact hrising k k' hlt' hk' hr

/-- What a scan promises: the data area has good blocks in increasing order, its first one apart, and the pool good blocks above them. -/
structure Scanned (g : Chip) (good : Nat → Bool) (w : Words) (bmtBlkIdx : Nat) : Prop where
  data : ∀ i j, i < j → j < g.poolLba → w i < w j
  dataGood : ∀ i, 0 < i → i < g.poolLba → good (w i) = true
  pool : ∀ k k', k < k' → k' ≤ bmtBlkIdx → w.block g k < w.block g k'
  poolGood : ∀ k ≤ bmtBlkIdx, good (w.block g k) = true
  above : ∀ i < g.poolLba, ∀ k ≤ bmtBlkIdx, w i < w.block g k

/-- A sequence whose neighbours rise is increasing. -/
theorem lt_of_steps {w : Words} {n : Nat} (h : ∀ k, 1 ≤ k → k < n → w (k - 1) < w k) {i j : Nat} (hij : i < j) (hj : j < n) : w i < w j := by
  induction j with
  | zero => omega
  | succ j ih =>
    have hstep := h (j + 1) (by omega) hj
    rw [Nat.add_sub_cancel] at hstep
    rcases Nat.eq_or_lt_of_le (Nat.le_of_lt_succ hij) with rfl | hlt
    · exact hstep
    · exact Nat.lt_trans (ih hlt (by omega)) hstep

theorem scanBadBlocks_spec (hg : g.totalBlks < 2 ^ 16) (w : Words) (hok : (scanBadBlocks g good w).ok = true) :
    ∃ (n : Nat) (wd wp : Words), (scanBadBlocks g good w).bmtBlkIdx = n ∧ (scanBadBlocks g good w).words = wp.setMapped g n BMT_MAPPED ∧
      n < g.totalBlks ∧ wd 0 = 0 ∧
      (∀ k, 1 ≤ k → k < g.poolLba → wd (k - 1) < wd k ∧ good (wd k) = true) ∧
      (∀ k, k < g.tableSize → wp k = wd k) ∧
      (∀ k ≤ n, wd (g.poolLba - 1) < wp.block g k ∧ good (wp.block g k) = true) ∧
      ∀ k k', k < k' → k' ≤ n → wp.block g k < wp.block g k' := by
  unfold scanBadBlocks at hok ⊢
  dsimp only at hok ⊢
  generalize hdata : scanData g good (g.poolLba - 1) 1 (w.set 0 0) = d at hok ⊢
  obtain ⟨ok, wd⟩ := d
  dsimp only at hok ⊢
  cases ok with
  | false => cases hok
  | true =>
    simp only [Bool.not_true, if_neg Bool.false_ne_true] at hok ⊢
    split at hok
    · cases hok
    · next hroom =>
      simp only [if_neg hroom] at hok ⊢
      have h0 : w.set 0 0 0 = 0 := Words.set_self
      have hpos : 0 < g.totalBlks := by omega
      obtain ⟨hsame, hfilled⟩ := scanData_spec hg (g.poolLba - 1) 1 (w.set 0 0) Nat.one_pos (h0 ▸ hpos) (by rw [hdata])
      rw [hdata] at hsame hfilled
      dsimp only at hsame hfilled
      have hlast : wd (g.poolLba - 1) < g.totalBlks := by
        rcases Nat.lt_or_ge 1 g.poolLba with h | h
        · exact (hfilled (g.poolLba - 1) (by omega) (by omega)).2.1
        · have hzero : g.poolLba - 1 = 0 := by omega
          rw [hzero, hsame 0 (Or.inl Nat.one_pos), h0]
          exact hpos
      have hmod : (wd (g.poolLba - 1) + 1) % 2 ^ 16 = wd (g.poolLba - 1) + 1 := Nat.mod_eq_of_lt (by omega)
      rw [hmod] at hok ⊢
      obtain ⟨-, hcount, hkept, hentries, hrising⟩ := @scanPool_spec g good hg g.totalBlks 0 (wd (g.poolLba - 1) + 1) wd hlast
      generalize scanPool g good g.totalBlks 0 (wd (g.poolLba - 1) + 1) wd = r at *
      have hr : 1 ≤ r.1 := of_decide_eq_true hok
      have hidx : (r.1 + 2 ^ 16 - 1) % 2 ^ 16 = r.1 - 1 := by omega
      rw [hidx]
      refine ⟨r.1 - 1, wd, r.2, rfl, rfl, by omega, (hsame 0 (Or.inl Nat.one_pos)).trans h0, fun k hk hk' => ?_,
        fun k hk => hkept k (by omega), fun k hk => ?_, fun k k' hk hk' => hrising k k' (Nat.zero_le _) hk (by omega)⟩
      · obtain ⟨hlt, -, hgood⟩ := hfilled k hk (by omega)
        exact ⟨hlt, hgood⟩
      · obtain ⟨hlow, -, hgood⟩ := hentries k (Nat.zero_le _) (by omega)
        exact ⟨hlow, hgood⟩

/-- A scan keeps its promise if and only if the data area fits in `bb_tbl`. -/
theorem scanned_iff (hg : g.totalBlks < 2 ^ 16) (w : Words) (hok : (scanBadBlocks g good w).ok = true) :
    Scanned g good (scanBadBlocks g good w).words (scanBadBlocks g good w).bmtBlkIdx ↔ g.poolLba ≤ g.tableSize := by
  constructor
  · intro h
    by_contra hlt
    exact Nat.lt_irrefl _ (h.above g.tableSize (Nat.not_le.mp hlt) 0 (Nat.zero_le _))
  · intro hle
    obtain ⟨n, wd, wp, hidx, hwords, -, -, hdata, hkept, hpool, hrising⟩ := scanBadBlocks_spec hg w hok
    rw [hidx, hwords]
    have hsame : ∀ i, i < g.poolLba → wp.setMapped g n BMT_MAPPED i = wd i := fun i hi => by
      rw [Words.setMapped_of_ne (by omega), hkept i (by omega)]
    have hinc : ∀ i j, i < j → j < g.poolLba → wd i < wd j := fun i j hij hj =>
      lt_of_steps (fun k hk hk' => (hdata k hk hk').1) hij hj
    refine ⟨fun i j hij hj => ?_, fun i hi hi' => ?_, fun k k' hk hk' => ?_, fun k hk => ?_, fun i hi k hk => ?_⟩
    · rw [hsame i (by omega), hsame j hj]
      exact hinc i j hij hj
    · rw [hsame i hi']
      exact (hdata i hi hi').2
    · rw [Words.block_setMapped, Words.block_setMapped]
      exact hrising k k' hk hk'
    · rw [Words.block_setMapped]
      exact (hpool k hk).2
    · rw [hsame i hi, Words.block_setMapped]
      rcases Nat.eq_or_lt_of_le (Nat.le_sub_one_of_lt hi) with heq | hlt
      · rw [heq]
        exact (hpool k hk).1
      · exact Nat.lt_trans (hinc i _ hlt (by omega)) (hpool k hk).1

/-! ### Writing the tables -/

section
variable {β : Type} {env : Env β}

/-- An entry keeps its block if and only if it could be written. -/
theorem uploadTo_words (s : State β) (n : Nat) :
    (uploadTo g env s n).2.words = if (uploadTo g env s n).1 then s.words else s.words.setBlock g n 0 := by
  cases herase : (nandErase env s (s.words.block g n)).1 with
  | false =>
    simp only [uploadTo, herase, Bool.false_eq_true, if_false]
    rfl
  | true =>
    cases hwrite : (writeBmt env (nandErase env s (s.words.block g n)).2 (s.words.block g n)).1 with
    | false =>
      simp only [uploadTo, herase, hwrite, Bool.false_eq_true, if_false, if_true]
      rfl
    | true =>
      simp only [uploadTo, herase, hwrite, if_true]
      rfl

theorem uploadTo_flash (s : State β) (n : Nat) {b : Nat} (h : b ≠ s.words.block g n) : (uploadTo g env s n).2.flash b = s.flash b := by
  have herase : (nandErase env s (s.words.block g n)).2.flash b = s.flash b := if_neg h
  have hwrite : (writeBmt env (nandErase env s (s.words.block g n)).2 (s.words.block g n)).2.flash b = s.flash b :=
    (if_neg h).trans herase
  cases herased : (nandErase env s (s.words.block g n)).1 with
  | false => simp only [uploadTo, herased, Bool.false_eq_true, if_false, herase]
  | true =>
    cases hwritten : (writeBmt env (nandErase env s (s.words.block g n)).2 (s.words.block g n)).1 with
    | false => simp only [uploadTo, herased, hwritten, Bool.false_eq_true, if_false, if_true, hwrite]
    | true => simp only [uploadTo, herased, hwritten, if_true, hwrite]

/-- Only the blocks of entries that are not in use are erased or written. -/
theorem uploadBmt_flash (n : Nat) (s : State β) {b : Nat}
    (h : ∀ k ≤ n, s.words.mapped g k ≠ NORMAL_MAPPED → b ≠ s.words.block g k) : (uploadBmt g env n s).2.flash b = s.flash b := by
  induction n generalizing s with
  | zero =>
    unfold uploadBmt
    split
    · rfl
    · next hfree =>
      have hkept := @uploadTo_flash g β env s 0 b (h 0 (Nat.le_refl _) hfree)
      dsimp only
      split <;> exact hkept
  | succ n ih =>
    unfold uploadBmt
    split
    · rfl
    · next hfree =>
      have hkept := @uploadTo_flash g β env s (n + 1) b (h (n + 1) (Nat.le_refl _) hfree)
      dsimp only
      split
      · exact hkept
      · next hfailed =>
        have hwords := @uploadTo_words g β env s (n + 1)
        rw [if_neg hfailed] at hwords
        refine (ih _ fun k hk hk' => ?_).trans hkept
        rw [hwords, Words.mapped_setBlock] at hk'
        rw [hwords]
        have hsame : (s.words.setBlock g (n + 1) 0).block g k = s.words.block g k := Words.setBlock_of_ne (by omega)
        rw [hsame]
        exact h k (by omega) hk'

/-- The words of the data area stay, whatever fails. -/
theorem uploadBmt_words_lt (n : Nat) (s : State β) {i : Nat} (hi : i < g.tableSize) : (uploadBmt g env n s).2.words i = s.words i := by
  have hto : ∀ (s : State β) n, (uploadTo g env s n).2.words i = s.words i := fun s n => by
    rw [uploadTo_words]
    split
    · rfl
    · exact Words.setBlock_of_ne (by omega)
  induction n generalizing s with
  | zero =>
    unfold uploadBmt
    split
    · rfl
    · dsimp only
      split <;> exact hto s 0
  | succ n ih =>
    unfold uploadBmt
    split
    · rfl
    · dsimp only
      split
      · exact hto s (n + 1)
      · exact (ih _).trans (hto s (n + 1))

/-- The tables end in an entry at or below the first one tried; the entries above it lost their blocks, and none of them is in use. -/
theorem uploadBmt_spec (n : Nat) (s : State β) (h : (uploadBmt g env n s).1 ≠ NONE) :
    let m := (uploadBmt g env n s).1
    m ≤ n ∧ (∀ k, m ≤ k → k ≤ n → s.words.mapped g k ≠ NORMAL_MAPPED) ∧
    (∀ i, (∀ k, m < k → k ≤ n → i ≠ g.tableSize + 2 * k) → (uploadBmt g env n s).2.words i = s.words i) := by
  induction n generalizing s with
  | zero =>
    unfold uploadBmt at h ⊢
    split at h
    · exact absurd rfl h
    · next hfree =>
      have hwords := @uploadTo_words g β env s 0
      rw [if_neg hfree]
      dsimp only at h ⊢
      cases hok : (uploadTo g env s 0).1 with
      | false =>
        rw [hok, if_neg Bool.false_ne_true] at h
        exact absurd rfl h
      | true =>
        rw [hok, if_pos rfl] at hwords
        rw [if_pos rfl]
        refine ⟨Nat.le_refl _, fun k _ hk => ?_, fun i _ => congrFun hwords i⟩
        rw [Nat.le_zero.mp hk]
        exact hfree
  | succ n ih =>
    unfold uploadBmt at h ⊢
    split at h
    · exact absurd rfl h
    · next hfree =>
      have hwords := @uploadTo_words g β env s (n + 1)
      rw [if_neg hfree]
      dsimp only at h ⊢
      cases hok : (uploadTo g env s (n + 1)).1 with
      | false =>
        rw [hok, if_neg Bool.false_ne_true] at h hwords
        rw [if_neg Bool.false_ne_true]
        obtain ⟨hle, hunused, hsame⟩ := ih (uploadTo g env s (n + 1)).2 h
        generalize uploadBmt g env n (uploadTo g env s (n + 1)).2 = r at *
        refine ⟨by omega, fun k hk hk' => ?_, fun i hi => ?_⟩
        · rcases Nat.eq_or_lt_of_le hk' with rfl | hlt
          · exact hfree
          · have hk'' := hunused k hk (by omega)
            rwa [hwords, Words.mapped_setBlock] at hk''
        · rw [hsame i fun k hk hk' => hi k hk (by omega), hwords]
          exact Words.setBlock_of_ne (hi (n + 1) (by omega) (Nat.le_refl _))
      | true =>
        rw [hok, if_pos rfl] at hwords
        rw [if_pos rfl]
        refine ⟨Nat.le_refl _, fun k hk hk' => ?_, fun i _ => congrFun hwords i⟩
        rw [Nat.le_antisymm hk' hk]
        exact hfree

end

/-! ### Remapping -/

section
variable {β : Type}

/-- What the tables keep: the blocks in use are different, each is below the pool or that of a used entry of the pool, and the
    entry of the tables themselves is not in use. -/
structure Kept (g : Chip) (w : Words) (bmtBlkIdx : Nat) : Prop where
  inj : ∀ i j, i < g.poolLba → j < g.poolLba → w i = w j → i = j
  pool : ∀ k k', k < k' → k' ≤ bmtBlkIdx → w.block g k < w.block g k'
  used : ∀ i < g.poolLba, (∀ k ≤ bmtBlkIdx, w i < w.block g k) ∨
    ∃ k < bmtBlkIdx, w.mapped g k = NORMAL_MAPPED ∧ w i = w.block g k
  own : w.mapped g bmtBlkIdx ≠ NORMAL_MAPPED

theorem Scanned.kept {w : Words} {n : Nat} (h : Scanned g good w n) (hown : w.mapped g n ≠ NORMAL_MAPPED) : Kept g w n where
  inj i j hi hj heq := by
    rcases Nat.lt_trichotomy i j with hlt | rfl | hlt
    · exact absurd heq (Nat.ne_of_lt (h.data i j hlt hj))
    · rfl
    · exact absurd heq (Nat.ne_of_gt (h.data j i hlt hi))
  pool := h.pool
  used i hi := Or.inl (h.above i hi)
  own := hown

theorem Kept.block_inj {w : Words} {n k k' : Nat} (h : Kept g w n) (hk : k ≤ n) (hk' : k' ≤ n) (heq : w.block g k = w.block g k') : k = k' := by
  rcases Nat.lt_trichotomy k k' with hlt | rfl | hlt
  · exact absurd heq (Nat.ne_of_lt (h.pool k k' hlt hk'))
  · rfl
  · exact absurd heq (Nat.ne_of_gt (h.pool k' k hlt hk))

/-- No block in use is the one of the tables. -/
theorem Kept.ne_bmt {w : Words} {n i : Nat} (h : Kept g w n) (hi : i < g.poolLba) : w i ≠ w.block g n := by
  rcases h.used i hi with hlow | ⟨k, hk, -, heq⟩
  · exact Nat.ne_of_lt (hlow n (Nat.le_refl _))
  · rw [heq]
    exact Nat.ne_of_lt (h.pool k n hk (Nat.le_refl _))

/-- Only the words of the entries that were given up differ. -/
theorem upload_words (hfit : g.poolLba ≤ g.tableSize) {env : Env β} {s : State β} (hok : (upload g env s).bmtBlkIdx ≠ NONE)
    {i : Nat} (hi : i < g.poolLba) : (upload g env s).words i = s.words i :=
  (uploadBmt_spec s.bmtBlkIdx s hok).2.2 i fun k _ _ => by omega

theorem Kept.upload (hfit : g.poolLba ≤ g.tableSize) {env : Env β} {s : State β} (h : Kept g s.words s.bmtBlkIdx)
    (hok : (upload g env s).bmtBlkIdx ≠ NONE) : Kept g (upload g env s).words (upload g env s).bmtBlkIdx := by
  have hwords : ∀ i < g.poolLba, (V2.upload g env s).words i = s.words i := fun i hi => upload_words hfit hok hi
  obtain ⟨hle, hunused, hsame⟩ := uploadBmt_spec s.bmtBlkIdx s hok
  change (V2.upload g env s).bmtBlkIdx ≤ _ at hle
  change ∀ k, (V2.upload g env s).bmtBlkIdx ≤ k → _ at hunused
  change ∀ i, (∀ k, (V2.upload g env s).bmtBlkIdx < k → _ → _) → (V2.upload g env s).words i = _ at hsame
  generalize V2.upload g env s = s' at *
  have hblock : ∀ k ≤ s'.bmtBlkIdx, s'.words.block g k = s.words.block g k := fun k hk => hsame _ fun k' hk' _ => by omega
  have hmapped : ∀ k, s'.words.mapped g k = s.words.mapped g k := fun k => hsame _ fun k' hk' _ => by omega
  refine ⟨fun i j hi hj heq => ?_, fun k k' hk hk' => ?_, fun i hi => ?_, ?_⟩
  · rw [hwords i hi, hwords j hj] at heq
    exact h.inj i j hi hj heq
  · rw [hblock k (by omega), hblock k' hk']
    exact h.pool k k' hk (by omega)
  · rw [hwords i hi]
    rcases h.used i hi with hlow | ⟨k, hk, hnormal, heq⟩
    · refine Or.inl fun k hk => ?_
      rw [hblock k hk]
      exact hlow k (by omega)
    -- an entry in use is below the one where the tables end
    · have hlt : k < s'.bmtBlkIdx := by
        by_contra hge
        exact hunused k (Nat.not_lt.mp hge) (Nat.le_of_lt hk) hnormal
      refine Or.inr ⟨k, hlt, (hmapped k).trans hnormal, ?_⟩
      rw [hblock k (Nat.le_of_lt hlt)]
      exact heq
  · rw [hmapped]
    exact hunused _ (Nat.le_refl _) hle

/-- A free block is not in use. -/
theorem Kept.free_ne {w : Words} {n k i : Nat} (h : Kept g w n) (hk : k < n) (hfree : w.mapped g k = NO_MAPPED) (hi : i < g.poolLba) :
    w i ≠ w.block g k := by
  intro heq
  rcases h.used i hi with hlow | ⟨k', hk', hnormal, heq'⟩
  · exact absurd heq (Nat.ne_of_lt (hlow k (Nat.le_of_lt hk)))
  · have hkk := h.block_inj (Nat.le_of_lt hk) (Nat.le_of_lt hk') (heq.symm.trans heq')
    rw [← hkk, hfree] at hnormal
    exact absurd hnormal (by decide)

/-- The tables with a free entry of the pool in the place of a block. -/
theorem Kept.remap (hfit : g.poolLba ≤ g.tableSize) {w : Words} {n k block : Nat} (h : Kept g w n) (hk : k < n)
    (hfree : w.mapped g k = NO_MAPPED) (hblock : block < g.tableSize) :
    Kept g ((w.setMapped g k NORMAL_MAPPED).set block (w.block g k)) n := by
  have hentry : ∀ k', ((w.setMapped g k NORMAL_MAPPED).set block (w.block g k)).block g k' = w.block g k' := fun k' => by
    rw [Words.block_set_of_lt hblock, Words.block_setMapped]
  have hmapped : ∀ k', k' ≠ k → ((w.setMapped g k NORMAL_MAPPED).set block (w.block g k)).mapped g k' = w.mapped g k' := fun k' hk' => by
    rw [Words.mapped_set_of_lt hblock, Words.mapped_setMapped_of_ne hk']
  have hmarked : ((w.setMapped g k NORMAL_MAPPED).set block (w.block g k)).mapped g k = NORMAL_MAPPED := by
    rw [Words.mapped_set_of_lt hblock, Words.mapped_setMapped]
  have hself : (w.setMapped g k NORMAL_MAPPED).set block (w.block g k) block = w.block g k := Words.set_self
  have hother : ∀ i < g.poolLba, i ≠ block → (w.setMapped g k NORMAL_MAPPED).set block (w.block g k) i = w i := fun i hi hne => by
    rw [Words.set_of_ne hne, Words.setMapped_of_ne (by omega)]
  have hnew : ∀ i < g.poolLba, w i ≠ w.block g k := fun i hi => h.free_ne hk hfree hi
  generalize (w.setMapped g k NORMAL_MAPPED).set block (w.block g k) = w' at *
  refine ⟨fun i j hi hj heq => ?_, fun k₁ k₂ hlt hle => ?_, fun i hi => ?_, ?_⟩
  · by_cases hib : i = block
    · by_cases hjb : j = block
      · exact hib.trans hjb.symm
      · rw [hib, hself, hother j hj hjb] at heq
        exact absurd heq.symm (hnew j hj)
    · rw [hother i hi hib] at heq
      by_cases hjb : j = block
      · rw [hjb, hself] at heq
        exact absurd heq (hnew i hi)
      · rw [hother j hj hjb] at heq
        exact h.inj i j hi hj heq
  · rw [hentry, hentry]
    exact h.pool k₁ k₂ hlt hle
  · by_cases hib : i = block
    · exact Or.inr ⟨k, hk, hmarked, by rw [hib, hself, hentry]⟩
    · rw [hother i hi hib]
      rcases h.used i hi with hlow | ⟨k', hk', hnormal, heq⟩
      · exact Or.inl fun k' hk' => (hentry k').symm ▸ hlow k' hk'
      · refine Or.inr ⟨k', hk', ?_, (hentry k').symm ▸ heq⟩
        by_cases hkk : k' = k
        · exact hkk ▸ hmarked
        · exact (hmapped k' hkk).trans hnormal
  · rw [hmapped n (Nat.ne_of_gt hk)]
    exact h.own

/-- The runs of a chip: the tables are written, and blocks are remapped. -/
inductive Reaches (g : Chip) (s₀ : State β) : State β → Prop
  | start : Reaches g s₀ s₀
  | upload {s} (env : Env β) : Reaches g s₀ s → (upload g env s).bmtBlkIdx ≠ NONE → Reaches g s₀ (upload g env s)
  | remap {s} (env : Env β) (block mappedBlock : Nat) (copyLen : Int) : Reaches g s₀ s → block < g.tableSize →
      (remapBlock g env s block mappedBlock copyLen).1 = true → (remapBlock g env s block mappedBlock copyLen).2.bmtBlkIdx ≠ NONE →
      Reaches g s₀ (remapBlock g env s block mappedBlock copyLen).2

/-- A successful remapping takes a free entry of the pool, fills its block, and then the tables are written. -/
theorem remapBlock_spec {env : Env β} {s : State β} {block mappedBlock : Nat} {copyLen : Int}
    (htrue : (remapBlock g env s block mappedBlock copyLen).1 = true) :
    ∃ k < s.bmtBlkIdx, s.words.mapped g k = NO_MAPPED ∧ ∃ flash,
      (remapBlock g env s block mappedBlock copyLen).2 =
        upload g env { s with words := (s.words.setMapped g k NORMAL_MAPPED).set block (s.words.block g k), flash } ∧
      (mappedBlock ≠ s.words.block g k → flash (s.words.block g k) =
        let blank := (env.erase (s.words.block g k) (s.flash (s.words.block g k))).2
        if copyLen > 0 then env.copy blank (s.flash mappedBlock) copyLen else blank) := by
  revert htrue
  unfold remapBlock
  cases hfind : findValidBlockInPool g s.words s.bmtBlkIdx with
  | none => exact fun h => nomatch h
  | some k =>
    intro _
    have hmem := List.mem_of_find?_eq_some hfind
    have hfree := List.find?_some hfind
    simp only [decide_eq_true_eq] at hfree
    refine ⟨k, List.mem_range.mp hmem, hfree.2, ?_⟩
    dsimp only
    split
    · refine ⟨_, rfl, fun hne => ?_⟩
      simp only [nandErase, if_true, if_neg hne]
    · refine ⟨_, rfl, fun _ => ?_⟩
      simp only [if_true]

theorem Reaches.kept {s₀ s : State β} (h : Reaches g s₀ s) (hfit : g.poolLba ≤ g.tableSize) (h₀ : Kept g s₀.words s₀.bmtBlkIdx) :
    Kept g s.words s.bmtBlkIdx := by
  induction h with
  | start => exact h₀
  | upload env _ hok ih => exact ih.upload hfit hok
  | remap env block mappedBlock copyLen _ hblock htrue hok ih =>
    obtain ⟨k, hk, hfree, flash, heq, -⟩ := remapBlock_spec htrue
    rw [heq] at hok ⊢
    exact Kept.upload hfit (s := { words := _, bmtBlkIdx := _, flash }) (ih.remap hfit hk hfree hblock) hok

/-- Only the remapped block gets another place. -/
theorem remapBlock_frame (hfit : g.poolLba ≤ g.tableSize) {env : Env β} {s : State β} {block mappedBlock : Nat} {copyLen : Int}
    (htrue : (remapBlock g env s block mappedBlock copyLen).1 = true)
    (hok : (remapBlock g env s block mappedBlock copyLen).2.bmtBlkIdx ≠ NONE) {i : Nat} (hi : i < g.poolLba) (hne : i ≠ block) :
    (remapBlock g env s block mappedBlock copyLen).2.words i = s.words i := by
  obtain ⟨k, -, -, flash, heq, -⟩ := remapBlock_spec htrue
  rw [heq] at hok ⊢
  rw [upload_words hfit hok hi]
  dsimp only
  rw [Words.set_of_ne hne, Words.setMapped_of_ne (by omega)]

end

/-- A scan keeps its promise if and only if the data area fits in `bb_tbl`. Then, in every run that remaps blocks of `bb_tbl`, no
    two logical blocks share a block, none has the block of the tables, and remapping moves one logical block only. -/
theorem mapping_kept (g : Chip) (hg : g.totalBlks < 2 ^ 16) (good : Nat → Bool) (w : Words) (hok : (scanBadBlocks g good w).ok = true) :
    (Scanned g good (scanBadBlocks g good w).words (scanBadBlocks g good w).bmtBlkIdx ↔ g.poolLba ≤ g.tableSize) ∧
    (g.poolLba ≤ g.tableSize → ∀ (β : Type) (flash : Nat → β) (s : State β),
      Reaches g { words := (scanBadBlocks g good w).words, bmtBlkIdx := (scanBadBlocks g good w).bmtBlkIdx, flash } s →
      Set.InjOn s.words {b | b < g.poolLba} ∧
      (∀ b < g.poolLba, s.words b ≠ s.words.block g s.bmtBlkIdx) ∧
      ∀ (env : Env β) (block mappedBlock : Nat) (copyLen : Int), (remapBlock g env s block mappedBlock copyLen).1 = true →
        (remapBlock g env s block mappedBlock copyLen).2.bmtBlkIdx ≠ NONE →
        ∀ b < g.poolLba, b ≠ block → (remapBlock g env s block mappedBlock copyLen).2.words b = s.words b) := by
  refine ⟨scanned_iff hg w hok, fun hfit β flash s hreach => ?_⟩
  have hscanned := (scanned_iff hg w hok).mpr hfit
  have hown : (scanBadBlocks g good w).words.mapped g (scanBadBlocks g good w).bmtBlkIdx ≠ NORMAL_MAPPED := by
    obtain ⟨n, wd, wp, hidx, hwords, -⟩ := scanBadBlocks_spec hg w hok
    rw [hidx, hwords, Words.mapped_setMapped]
    decide
  have hkept := hreach.kept hfit (hscanned.kept hown)
  exact ⟨fun i hi j hj heq => hkept.inj i j hi hj heq, fun b hb => hkept.ne_bmt hb,
    fun env block mappedBlock copyLen htrue hidx b hb hne => remapBlock_frame hfit htrue hidx hb hne⟩

/-- A chip of eight blocks, four of them in the pool. -/
def small : Chip := { blkShift := 17, totalBlks := 8, tableSize := 8, poolLba := 4, bbMax := 1 }

theorem mapping_kept_small : Scanned small (fun b => b ≠ 2) (scanBadBlocks small (fun b => b ≠ 2) fun _ => 0xffff).words
    (scanBadBlocks small (fun b => b ≠ 2) fun _ => 0xffff).bmtBlkIdx :=
  (mapping_kept small (by decide) (fun b => b ≠ 2) (fun _ => 0xffff) (by decide)).1.mpr (by decide)

/-- The check of the number of blocks lets a data area through that is longer than `bb_tbl`. -/
theorem scan_not_kept : ¬∀ (g : Chip) (good : Nat → Bool) (w : Words), g.totalBlks < 2 ^ 16 →
    g.totalBlks ≤ g.tableSize + g.tableSize * 2 / 100 → (scanBadBlocks g good w).ok = true →
    Scanned g good (scanBadBlocks g good w).words (scanBadBlocks g good w).bmtBlkIdx := by
  intro h
  have hok : (scanBadBlocks { blkShift := 17, totalBlks := 204, tableSize := 200, poolLba := 201, bbMax := 4 } (fun _ => true) fun _ => 0xffff).ok = true := by
    decide +kernel
  exact absurd ((scanned_iff (by decide) _ hok).mp (h _ _ _ (by decide) (by decide) hok)) (by decide)

end RainWrt.Bmt.V2
