import RainWrt.Bmt.Boot
import RainWrt.Theorems.Bmt.Device

/-! Booting with the tables of the second version: which tables a boot finds again, and that what was written before is read behind it. -/

namespace RainWrt.Bmt

namespace V2

/-! ### Tables as bytes -/

section
variable {g : Chip} {c : Pages} {off : Nat} {w : Words} {i : Nat}

/-- The sizes of a block of tables: pages of an even number of bytes, with room for the FDM beside the first one. -/
structure Stored (c : Pages) (off : Nat) : Prop where
  page : 0 < c.pgSize
  even : 2 ∣ c.pgSize
  oob : off + 4 ≤ c.oobSize

theorem length_words (w : Words) (n : Nat) : ((List.range n).flatMap fun i => le16 (w i)).length = 2 * n := by
  induction n with
  | zero => rfl
  | succ n ih => rw [List.range_succ, List.flatMap_append, List.length_append, ih]; rfl

theorem le_bufsz (hst : Stored c off) : 4 + 4 * g.tableSize ≤ bmtPgs g c * c.pgSize := by
  have hdiv := Nat.div_add_mod (4 + 4 * g.tableSize + (c.pgSize - 1)) c.pgSize
  have hlt := Nat.mod_lt (4 + 4 * g.tableSize + (c.pgSize - 1)) hst.page
  rw [Nat.mul_comm] at hdiv
  have hpage := hst.page
  unfold bmtPgs
  omega

theorem le_wordCount (hst : Stored c off) : 2 * g.tableSize ≤ wordCount g c := by
  have hle := le_bufsz (g := g) hst
  unfold wordCount
  omega

theorem length_tableBytes (hst : Stored c off) (w : Words) : (tableBytes g c w).length = bmtPgs g c * c.pgSize := by
  have hle := le_bufsz (g := g) hst
  obtain ⟨m, hm⟩ := Nat.dvd_mul_left_of_dvd hst.even (bmtPgs g c)
  rw [tableBytes, List.length_append, length_words, wordCount]
  simp only [bbbtSignature, List.length_append, List.length_cons, List.length_nil]
  omega

/-- A word is read as it was written. -/
theorem wordsOf_tableBytes (hw : w i < 2 ^ 16) (hi : i < wordCount g c) : wordsOf (tableBytes g c w) i = w i := by
  have hbyte : ∀ (n : Nat), i < n → ∀ j < 2, ((List.range n).flatMap fun i => le16 (w i))[2 * i + j]? = (le16 (w i))[j]? := by
    intro n
    induction n with
    | zero => intro hn; omega
    | succ n ih =>
      intro hn j hj
      rw [List.range_succ, List.flatMap_append]
      rcases Nat.eq_or_lt_of_le (Nat.le_of_lt_succ hn) with rfl | hlt
      · rw [List.getElem?_append_right (by rw [length_words]; omega), length_words, Nat.add_sub_cancel_left]
        simp
      · rw [List.getElem?_append_left (by rw [length_words]; omega)]
        exact ih hlt j hj
  have hget : ∀ j < 2, (tableBytes g c w).getD (4 + 2 * i + j) 0xff = (le16 (w i)).getD j 0xff := by
    intro j hj
    have hskip : (tableBytes g c w)[4 + 2 * i + j]? = ((List.range (wordCount g c)).flatMap fun i => le16 (w i))[2 * i + j]? := by
      rw [tableBytes, List.getElem?_append_right (by simp [bbbtSignature]; omega)]
      congr 1
      simp [bbbtSignature]
      omega
    rw [List.getD_eq_getElem?_getD, List.getD_eq_getElem?_getD, hskip, hbyte _ hi j hj]
  have h0 := hget 0 (by decide)
  have h1 := hget 1 (by decide)
  rw [Nat.add_zero] at h0
  rw [wordsOf, h0, h1]
  have hlo : w i % 256 % 2 ^ 8 = w i % 256 := Nat.mod_mod _ _
  have hhi : w i / 256 % 256 % 2 ^ 8 = w i / 256 := by omega
  simp only [le16, List.getD_cons_zero, List.getD_cons_succ, UInt8.toNat_ofNat']
  omega

/-- Whole pages of a text, one behind the other. -/
theorem flatMap_pages (bytes : Bytes) (pg n : Nat) : ((List.range n).flatMap fun p => (bytes.drop (p * pg)).take pg) = bytes.take (n * pg) := by
  induction n with
  | zero => simp
  | succ n ih => rw [List.range_succ, List.flatMap_append, ih, List.flatMap_singleton, Nat.succ_mul, List.take_add]

theorem bmtPgs_pos (hst : Stored c off) : 0 < bmtPgs g c := by
  have hpage := hst.page
  exact Nat.div_pos (by omega) hpage

/-- A stored table is read as it was written, with the signature beside it. -/
theorem nandRead_tableBlock (hst : Stored c off) (w : Words) :
    nandRead c off (bmtPgs g c) (tableBlock g c off w) = some (tableBytes g c w, 0xff :: sig) := by
  obtain ⟨n, hn⟩ := Nat.exists_eq_succ_of_ne_zero (bmtPgs_pos (g := g) hst).ne'
  let oobOf (p : Nat) : Bytes := if p = 0 then List.replicate (1 + off) 0xff ++ sig else []
  let page (p : Nat) : Bytes × Bytes :=
    (((tableBytes g c w).drop (p * c.pgSize)).take c.pgSize, oobOf p ++ List.replicate (c.oobSize - (oobOf p).length) 0xff)
  have hpages : ((List.range (bmtPgs g c)).mapM fun p => c.read (tableBlock g c off w p)) = some ((List.range (bmtPgs g c)).map page) := by
    rw [mapM_eq_some, List.forall₂_map_right_iff, List.forall₂_same]
    intro p hp
    simp [tableBlock, List.mem_range.mp hp, Pages.program, Pages.read, page, oobOf]
  have hdat : ((List.range (bmtPgs g c)).map page).flatMap (·.1) = tableBytes g c w := by
    rw [List.flatMap_map, flatMap_pages, ← length_tableBytes hst w, List.take_length]
  have hoob : ((((List.range (bmtPgs g c)).map page).flatMap (·.2)).drop off).take 4 = 0xff :: sig := by
    rw [hn, List.range_succ_eq_map, List.map_cons, List.flatMap_cons]
    have hfirst : (page 0).2 = List.replicate off 0xff ++ (0xff :: sig ++ List.replicate (c.oobSize - (1 + off + 3)) 0xff) := by
      simp [page, oobOf, sig, List.replicate_add, Nat.add_comm 1 off]
    rw [hfirst, List.append_assoc, List.drop_append, List.drop_replicate, Nat.sub_self, List.length_replicate, Nat.sub_self, List.drop_zero]
    rfl
  rw [nandRead, hpages, Option.map_some, hdat, hoob]

theorem isValidBmt_tableBytes (w : Words) : isValidBmt (tableBytes g c w) (0xff :: sig) = true := by
  simp [isValidBmt, tableBytes, bbbtSignature, sig]

end

/-! ### Searching -/

section
variable {g : Chip} {c : Pages} {off : Nat} {w : Words} {flash : Nat → Block}

theorem getBmtIndex_skip {n i m : Nat} (hn : i + m < i + n) (h : ∀ k, i ≤ k → k < i + m → w.block g k ≠ 0 ∧ w.mapped g k ≠ BMT_MAPPED) :
    getBmtIndex g w n i = getBmtIndex g w (n - m) (i + m) := by
  induction m generalizing n i with
  | zero => rfl
  | succ m ih =>
    obtain ⟨n, rfl⟩ : ∃ n', n = n' + 1 := ⟨n - 1, by omega⟩
    obtain ⟨hblock, hmapped⟩ := h i (Nat.le_refl _) (by omega)
    rw [getBmtIndex, if_neg hblock, if_neg hmapped, ih (by omega) fun k hk hk' => h k (by omega) (by omega), Nat.succ_sub_succ,
      Nat.add_assoc, Nat.add_comm 1 m]

/-- The blocks behind `b` hold no tables. -/
def NoneAbove (g : Chip) (c : Pages) (off : Nat) (flash : Nat → Block) (b : Nat) : Prop :=
  ∀ b' < g.totalBlks, b < b' → ∀ buf fdm, nandRead c off (bmtPgs g c) (flash b') = some (buf, fdm) → isValidBmt buf fdm = false

/-- The search comes to the last block that holds tables. -/
theorem search_eq {b n : Nat} (hst : Stored c off) (hlba : g.poolLba ≤ b) (hn : g.poolLba + n ≤ g.totalBlks) (hb : b < g.poolLba + n)
    (hblock : flash b = tableBlock g c off w) (hnone : NoneAbove g c off flash b) : search g c off flash n =
      .ofIndex (wordsOf (tableBytes g c w)) (getBmtIndex g (wordsOf (tableBytes g c w)) (entryCount g c) 0) := by
  induction n with
  | zero => omega
  | succ n ih =>
    rw [search]
    rcases Nat.eq_or_lt_of_le (Nat.le_of_lt_succ (show b < g.poolLba + n + 1 by omega)) with rfl | hlt
    · rw [hblock, nandRead_tableBlock hst]
      simp only [isValidBmt_tableBytes, Bool.not_true, Bool.false_eq_true, if_false]
    · have hrest := ih (by omega) hlt
      split
      · exact hrest
      · next buf fdm hread =>
        rw [hnone _ (by omega) hlt _ _ hread]
        exact hrest

end

/-! ### Runs -/

/-- Operations on a chip that succeed do what they should. -/
structure Honest (g : Chip) (c : Pages) (off : Nat) (env : Env Block) : Prop where
  erase : ∀ b old, (env.erase b old).1 = true → (env.erase b old).2 = .erased
  writeBmt : ∀ w b, (env.writeBmt w b .erased).1 = true → (env.writeBmt w b .erased).2 = tableBlock g c off w

/-- What is done with a chip behind its boot. -/
inductive Uses (g : Chip) (c : Pages) (off : Nat) : State Block → State Block → Prop
  | store {s} (b : Nat) (blk : Block) : b ≠ s.words.block g s.bmtBlkIdx →
      Uses g c off s { s with flash := fun b' => if b' = b then blk else s.flash b' }
  | remap {s} (env : Env Block) (block mappedBlock : Nat) (copyLen : Int) : Honest g c off env → block < g.tableSize →
      Uses g c off s (remapBlock g env s block mappedBlock copyLen).2
  | unmap {s} (env : Env Block) (block : Nat) : Honest g c off env → block < g.tableSize → block < 2 ^ 16 → Uses g c off s (unmapBlock g env s block)
  | free {s} (env : Env Block) (mainBlocks : Nat) : Honest g c off env → Uses g c off s (debugFree g env mainBlocks s)

/-- A run in which there is always a block for the tables. -/
inductive Run (g : Chip) (c : Pages) (off : Nat) (s₀ : State Block) : State Block → Prop
  | start : Run g c off s₀ s₀
  | step {s s'} : Run g c off s₀ s → Uses g c off s s' → s'.bmtBlkIdx ≠ NONE → Run g c off s₀ s'

/-- What holds of the entries of the pool; those behind `bmtBlkIdx` have lost their blocks. -/
structure Entries (g : Chip) (last : Nat) (w : Words) (bmtBlkIdx : Nat) : Prop where
  le : bmtBlkIdx ≤ last
  block_ne : ∀ k ≤ bmtBlkIdx, w.block g k ≠ 0
  block_pool : ∀ k ≤ bmtBlkIdx, g.poolLba ≤ w.block g k ∧ w.block g k < g.totalBlks
  block_eq : ∀ k, bmtBlkIdx < k → k ≤ last → w.block g k = 0
  mapped_ne : ∀ k < last, w.mapped g k ≠ BMT_MAPPED
  mapped_eq : w.mapped g last = BMT_MAPPED
  small : ∀ i, w i < 2 ^ 16

section
variable {g : Chip} {c : Pages} {off last : Nat} {env : Env Block} {s : State Block} {w w' : Words} {n : Nat}

theorem Words.set_small (hw : ∀ i, w i < 2 ^ 16) {k v : Nat} (hv : v < 2 ^ 16) (i : Nat) : w.set k v i < 2 ^ 16 := by
  unfold Words.set
  split
  · exact hv
  · exact hw i

/-- Words of `bb_tbl` do not matter, nor do marks of entries in use. -/
theorem Entries.congr (h : Entries g last w n) (hblock : ∀ k ≤ last, w'.block g k = w.block g k)
    (hmapped : ∀ k ≤ last, w'.mapped g k = BMT_MAPPED ↔ w.mapped g k = BMT_MAPPED) (hsmall : ∀ i, w' i < 2 ^ 16) : Entries g last w' n where
  le := h.le
  block_ne k hk := by
    rw [hblock k (Nat.le_trans hk h.le)]
    exact h.block_ne k hk
  block_pool k hk := by
    rw [hblock k (Nat.le_trans hk h.le)]
    exact h.block_pool k hk
  block_eq k hk hk' := (hblock k hk').trans (h.block_eq k hk hk')
  mapped_ne k hk hb := h.mapped_ne k hk ((hmapped k (Nat.le_of_lt hk)).mp hb)
  mapped_eq := (hmapped last (Nat.le_refl _)).mpr h.mapped_eq
  small := hsmall

/-- Where the tables end up they stand as they are, and the entries behind have lost their blocks. -/
theorem uploadBmt_stored (henv : Honest g c off env) (n : Nat) (s : State Block) (hok : (uploadBmt g env n s).1 ≠ NONE) :
    (uploadBmt g env n s).2.flash ((uploadBmt g env n s).2.words.block g (uploadBmt g env n s).1) = tableBlock g c off (uploadBmt g env n s).2.words ∧
    ∀ k, (uploadBmt g env n s).1 < k → k ≤ n → (uploadBmt g env n s).2.words.block g k = 0 := by
  have hto : ∀ (s : State Block) n, (uploadTo g env s n).1 = true → (uploadTo g env s n).2.words = s.words ∧
      (uploadTo g env s n).2.flash (s.words.block g n) = tableBlock g c off s.words := by
    intro s n h
    refine ⟨by rw [uploadTo_words, if_pos h], ?_⟩
    cases herase : (env.erase (s.words.block g n) (s.flash (s.words.block g n))).1 with
    | false => simp [uploadTo, nandErase, herase] at h
    | true =>
      simp only [uploadTo, nandErase, writeBmt, herase, if_true, henv.erase _ _ herase] at h ⊢
      split at h
      · next hwrite =>
        simp only [hwrite, if_true]
        rw [henv.erase _ _ herase]
        exact henv.writeBmt _ _ hwrite
      · cases h
  induction n generalizing s with
  | zero =>
    unfold uploadBmt at hok ⊢
    split at hok
    · exact absurd rfl hok
    · next hfree =>
      rw [if_neg hfree]
      dsimp only at hok ⊢
      split at hok
      · next h =>
        rw [if_pos h]
        obtain ⟨hwords, hflash⟩ := hto s 0 h
        rw [hwords]
        exact ⟨hflash, fun k hk hk' => by omega⟩
      · exact absurd rfl hok
  | succ n ih =>
    unfold uploadBmt at hok ⊢
    split at hok
    · exact absurd rfl hok
    · next hfree =>
      rw [if_neg hfree]
      dsimp only at hok ⊢
      split at hok
      · next h =>
        rw [if_pos h]
        obtain ⟨hwords, hflash⟩ := hto s (n + 1) h
        rw [hwords]
        exact ⟨hflash, fun k hk hk' => by omega⟩
      · next h =>
        rw [if_neg h]
        obtain ⟨hflash, hzero⟩ := ih (uploadTo g env s (n + 1)).2 hok
        refine ⟨hflash, fun k hk hk' => ?_⟩
        rcases Nat.eq_or_lt_of_le hk' with rfl | hlt
        · have hsame := (uploadBmt_spec n (uploadTo g env s (n + 1)).2 hok).2.2 (g.tableSize + 2 * (n + 1)) fun k _ hk => by omega
          have hwords := @uploadTo_words g _ env s (n + 1)
          rw [if_neg h] at hwords
          rw [Words.block, hsame, hwords]
          exact Words.set_self
        · exact hzero k hk (Nat.le_of_lt_succ hlt)

/-- What holds between two operations: the tables stand on the flash as they are in memory. -/
structure Intact (g : Chip) (c : Pages) (off last : Nat) (s : State Block) : Prop where
  entries : Entries g last s.words s.bmtBlkIdx
  stored : s.flash (s.words.block g s.bmtBlkIdx) = tableBlock g c off s.words

theorem intact_upload (henv : Honest g c off env) (h : Entries g last s.words s.bmtBlkIdx) (hok : (upload g env s).bmtBlkIdx ≠ NONE) :
    Intact g c off last (upload g env s) := by
  obtain ⟨hstored, hzero⟩ := uploadBmt_stored henv s.bmtBlkIdx s hok
  obtain ⟨hle, -, hsame⟩ := uploadBmt_spec s.bmtBlkIdx s hok
  have hblock : ∀ k, k ≤ (upload g env s).bmtBlkIdx ∨ s.bmtBlkIdx < k → (upload g env s).words.block g k = s.words.block g k := fun k hk =>
    hsame _ fun k' hk' hk'' => by
      have : (uploadBmt g env s.bmtBlkIdx s).1 = (upload g env s).bmtBlkIdx := rfl
      omega
  have hmapped : ∀ k, (upload g env s).words.mapped g k = s.words.mapped g k := fun k => hsame _ fun k' _ _ => by omega
  refine ⟨⟨Nat.le_trans hle h.le, fun k hk => ?_, fun k hk => ?_, fun k hk hk' => ?_, fun k hk => ?_, ?_, fun i => ?_⟩, hstored⟩
  · rw [hblock k (.inl hk)]
    exact h.block_ne k (Nat.le_trans hk hle)
  · rw [hblock k (.inl hk)]
    exact h.block_pool k (Nat.le_trans hk hle)
  · rcases Nat.lt_or_ge s.bmtBlkIdx k with hlt | hge
    · rw [hblock k (.inr hlt)]
      exact h.block_eq k hlt hk'
    · exact hzero k hk hge
  · rw [hmapped]
    exact h.mapped_ne k hk
  · rw [hmapped]
    exact h.mapped_eq
  · by_cases hi : ∃ k, (upload g env s).bmtBlkIdx < k ∧ k ≤ s.bmtBlkIdx ∧ i = g.tableSize + 2 * k
    · obtain ⟨k, hk, hk', rfl⟩ := hi
      exact Nat.lt_of_le_of_lt (Nat.le_of_eq (hzero k hk hk')) (by decide)
    · have hi' := hsame i fun k hk hk' heq => hi ⟨k, hk, hk', heq⟩
      exact Nat.lt_of_le_of_lt (Nat.le_of_eq hi') (h.small i)

theorem mapped_freeUnused (used : Nat → Bool) (l : List Nat) (w : Words) (k : Nat) : (freeUnused g used l w).mapped g k =
    if k ∈ l ∧ unused g used w k = true then NO_MAPPED else w.mapped g k := by
  induction l generalizing w with
  | nil => simp [freeUnused]
  | cons i l ih =>
    rw [freeUnused, List.foldl_cons, ← freeUnused, ih]
    by_cases hi : unused g used w i = true
    · rw [if_pos hi]
      rcases eq_or_ne k i with rfl | hne
      · have hfreed : unused g used (w.setMapped g k NO_MAPPED) k = false := by
          unfold unused
          rw [Words.mapped_setMapped]
          rfl
        simp [hi, hfreed]
      · simp [unused, Words.mapped_setMapped_of_ne hne, hne]
    · rw [if_neg hi]
      rcases eq_or_ne k i with rfl | hne
      · simp [hi]
      · simp [hne]

theorem freeUnused_apart (used : Nat → Bool) (l : List Nat) (w : Words) {i : Nat} (h : ∀ k ∈ l, i ≠ g.tableSize + 2 * k + 1) :
    freeUnused g used l w i = w i := by
  induction l generalizing w with
  | nil => rfl
  | cons k l ih =>
    rw [freeUnused, List.foldl_cons, ← freeUnused, ih _ fun k hk => h k (List.mem_cons_of_mem _ hk)]
    split
    · exact Words.setMapped_of_ne (h k List.mem_cons_self)
    · rfl

theorem freeUnused_small (used : Nat → Bool) (l : List Nat) (w : Words) (hw : ∀ i, w i < 2 ^ 16) (i : Nat) : freeUnused g used l w i < 2 ^ 16 := by
  induction l generalizing w with
  | nil => exact hw i
  | cons k l ih =>
    rw [freeUnused, List.foldl_cons, ← freeUnused]
    refine ih _ fun i => ?_
    split
    · exact Words.set_small hw (by decide) i
    · exact hw i

theorem Intact.uses {s' : State Block} (h : Intact g c off last s) (hu : Uses g c off s s') (hok : s'.bmtBlkIdx ≠ NONE) :
    Intact g c off last s' := by
  cases hu with
  | store b blk hne =>
    refine ⟨h.entries, ?_⟩
    dsimp only
    rw [if_neg hne.symm]
    exact h.stored
  | remap env block mappedBlock copyLen henv hblock =>
    cases hres : (remapBlock g env s block mappedBlock copyLen).1 with
    | false =>
      have hsame : (remapBlock g env s block mappedBlock copyLen).2 = s := by
        unfold remapBlock at hres ⊢
        split at hres
        · rfl
        · cases hres
      rw [hsame]
      exact h
    | true =>
      obtain ⟨k, hk, hfree, flash, heq, -⟩ := remapBlock_spec hres
      rw [heq] at hok ⊢
      refine intact_upload henv ?_ hok
      refine h.entries.congr (fun k' _ => by rw [Words.block_set_of_lt hblock, Words.block_setMapped]) (fun k' hk' => ?_) ?_
      · rw [Words.mapped_set_of_lt hblock]
        rcases eq_or_ne k' k with rfl | hne
        · rw [Words.mapped_setMapped, hfree]
          simp [NORMAL_MAPPED, NO_MAPPED, BMT_MAPPED]
        · rw [Words.mapped_setMapped_of_ne hne]
      · exact Words.set_small (Words.set_small h.entries.small (by decide)) (h.entries.small _)
  | unmap env block henv hblock hsmall =>
    refine intact_upload (s := { s with words := s.words.set block block }) henv ?_ hok
    refine h.entries.congr (fun k _ => Words.block_set_of_lt hblock) (fun k _ => ?_) (Words.set_small h.entries.small hsmall)
    rw [Words.mapped_set_of_lt hblock]
  | free env mainBlocks henv =>
    unfold debugFree at hok ⊢
    dsimp only at hok ⊢
    split at hok
    · next hany =>
      rw [if_pos hany]
      refine intact_upload henv (h.entries.congr (fun k _ => freeUnused_apart _ _ _ fun k' _ => by omega) (fun k _ => ?_)
        (freeUnused_small _ _ _ h.entries.small)) hok
      rw [mapped_freeUnused]
      split
      · next hk =>
        simp only [unused, Bool.and_eq_true, decide_eq_true_eq] at hk
        simp [hk.2.1, NO_MAPPED, NORMAL_MAPPED, BMT_MAPPED]
      · exact Iff.rfl
    · next hany =>
      rw [if_neg hany]
      exact h

theorem Run.intact {s₀ : State Block} (h : Run g c off s₀ s) (h₀ : Intact g c off last s₀) : Intact g c off last s := by
  induction h with
  | start => exact h₀
  | step _ hu hok ih => exact ih.uses hu hok

/-- A search finds the tables again that never had to give up a block. -/
theorem Intact.search (h : Intact g c off last s) (hst : Stored c off) (hroom : 2 * (last + 1) ≤ g.tableSize)
    (hnone : NoneAbove g c off s.flash (s.words.block g s.bmtBlkIdx)) :
    search g c off s.flash (g.totalBlks - g.poolLba) =
      if s.bmtBlkIdx = last ∧ last ≠ 0 then .found last (wordsOf (tableBytes g c s.words)) else .nothing := by
  have hcount : 2 * g.tableSize ≤ wordCount g c := le_wordCount hst
  have hentries : last < entryCount g c := by
    unfold entryCount
    omega
  have hread : ∀ i < wordCount g c, wordsOf (tableBytes g c s.words) i = s.words i := fun i hi => wordsOf_tableBytes (h.entries.small i) hi
  have hreadBlock : ∀ k ≤ last, (wordsOf (tableBytes g c s.words)).block g k = s.words.block g k := fun k hk => hread _ (by omega)
  have hreadMapped : ∀ k ≤ last, (wordsOf (tableBytes g c s.words)).mapped g k = s.words.mapped g k := fun k hk => hread _ (by omega)
  obtain ⟨hlba, hlt⟩ := h.entries.block_pool _ (Nat.le_refl _)
  rw [search_eq hst hlba (by omega) (by omega) h.stored hnone]
  generalize wordsOf (tableBytes g c s.words) = w at *
  have hidx := h.entries.le
  rcases Nat.eq_or_lt_of_le hidx with heq | hgt
  · have hindex : getBmtIndex g w (entryCount g c) 0 = some last := by
      rw [getBmtIndex_skip (m := last) (by omega) fun k _ hk => ?_, Nat.zero_add]
      · obtain ⟨n, hn⟩ : ∃ n, entryCount g c - last = n + 1 := ⟨entryCount g c - last - 1, by omega⟩
        rw [hn, getBmtIndex, if_neg, if_pos]
        · rw [hreadMapped last (Nat.le_refl _)]
          exact h.entries.mapped_eq
        · rw [hreadBlock last (Nat.le_refl _)]
          exact h.entries.block_ne last heq.ge
      · rw [hreadBlock k (by omega), hreadMapped k (by omega)]
        exact ⟨h.entries.block_ne k (by omega), h.entries.mapped_ne k (by omega)⟩
    rw [hindex]
    split
    · next hcond =>
      obtain ⟨m, hm⟩ := Nat.exists_eq_succ_of_ne_zero hcond.2
      rw [hm]
      rfl
    · next hcond =>
      have hzero : last = 0 := by
        by_contra hne
        exact hcond ⟨heq, hne⟩
      rw [hzero]
      rfl
  · have hindex : getBmtIndex g w (entryCount g c) 0 = some 0 := by
      rw [getBmtIndex_skip (m := s.bmtBlkIdx + 1) (by omega) fun k _ hk => ?_, Nat.zero_add]
      · obtain ⟨n, hn⟩ : ∃ n, entryCount g c - (s.bmtBlkIdx + 1) = n + 1 := ⟨entryCount g c - (s.bmtBlkIdx + 1) - 1, by omega⟩
        rw [hn, getBmtIndex, if_pos]
        rw [hreadBlock _ (by omega)]
        exact h.entries.block_eq _ (Nat.lt_succ_self _) (by omega)
      · rw [hreadBlock k (by omega), hreadMapped k (by omega)]
        exact ⟨h.entries.block_ne k (by omega), h.entries.mapped_ne k (by omega)⟩
    rw [hindex, if_neg fun hcond => Nat.ne_of_lt hgt hcond.1]
    rfl

/-! ### The first boot -/

theorem findValidBlock_small (hg : g.totalBlks < 2 ^ 16) (good : Nat → Bool) (block : Nat) : findValidBlock g good block < 2 ^ 16 := by
  by_cases h : findValidBlock g good block = 0
  · rw [h]
    decide
  · exact Nat.lt_trans (findValid_spec rfl h).2.1 hg

theorem scanData_small (hg : g.totalBlks < 2 ^ 16) (good : Nat → Bool) (n i : Nat) {w : Words} (hw : ∀ i, w i < 2 ^ 16) (k : Nat) :
    (scanData g good n i w).2 k < 2 ^ 16 := by
  induction n generalizing i w with
  | zero => exact hw k
  | succ n ih =>
    have hset := Words.set_small hw (k := i) (findValidBlock_small hg good (w (i - 1) + 1))
    rw [scanData]
    split
    · exact hset k
    · exact ih (i + 1) hset

/-- The entries of the pool are free. -/
theorem scanPool_free (hg : g.totalBlks < 2 ^ 16) (good : Nat → Bool) (n i block : Nat) {w : Words} (hw : ∀ i, w i < 2 ^ 16) :
    (scanPool g good n i block w).1 ≤ i + n ∧ (∀ k, (scanPool g good n i block w).2 k < 2 ^ 16) ∧ (∀ k < i, (scanPool g good n i block w).2.mapped g k = w.mapped g k) ∧
    ∀ k, i ≤ k → k < (scanPool g good n i block w).1 → (scanPool g good n i block w).2.mapped g k = NO_MAPPED := by
  induction n generalizing i block w with
  | zero => exact ⟨Nat.le_refl _, hw, fun _ _ => rfl, fun k h h' => absurd h' (Nat.not_lt.mpr h)⟩
  | succ n ih =>
    rw [scanPool]
    split
    · exact ⟨Nat.le_add_right _ _, hw, fun _ _ => rfl, fun k h h' => absurd h' (Nat.not_lt.mpr h)⟩
    · have hset := Words.set_small (Words.set_small hw (k := g.tableSize + 2 * i) (findValidBlock_small hg good block))
        (k := g.tableSize + 2 * i + 1) (v := NO_MAPPED) (by decide)
      obtain ⟨hcount, hsmall, hbelow, hfree⟩ := ih (i + 1) (findValidBlock g good block + 1) hset
      refine ⟨Nat.le_trans hcount (by omega), hsmall, fun k hk => ?_, fun k hk hk' => ?_⟩
      · exact (hbelow k (by omega)).trans ((Words.mapped_setMapped_of_ne (by omega)).trans Words.mapped_setBlock)
      · rcases Nat.eq_or_lt_of_le hk with rfl | hlt
        · exact (hbelow i (Nat.lt_succ_self i)).trans Words.mapped_setMapped
        · exact hfree k hlt hk'

theorem scanBadBlocks_marks (hg : g.totalBlks < 2 ^ 16) {good : Nat → Bool} {w : Words} (hw : ∀ i, w i < 2 ^ 16) (hok : (scanBadBlocks g good w).ok = true) :
    (∀ i, (scanBadBlocks g good w).words i < 2 ^ 16) ∧
    (∀ k < (scanBadBlocks g good w).bmtBlkIdx, (scanBadBlocks g good w).words.mapped g k = NO_MAPPED) ∧
    (scanBadBlocks g good w).words.mapped g (scanBadBlocks g good w).bmtBlkIdx = BMT_MAPPED := by
  have hdata := scanData_small hg good (g.poolLba - 1) 1 (Words.set_small hw (k := 0) (v := 0) (by decide))
  unfold scanBadBlocks at hok ⊢
  dsimp only at hok ⊢
  generalize scanData g good (g.poolLba - 1) 1 (w.set 0 0) = d at hok hdata ⊢
  obtain ⟨ok, wd⟩ := d
  dsimp only at hok hdata ⊢
  cases ok with
  | false => cases hok
  | true =>
    simp only [Bool.not_true, if_neg Bool.false_ne_true] at hok ⊢
    split at hok
    · cases hok
    · next hroom =>
      rw [if_neg hroom]
      obtain ⟨hcount, hsmall, -, hfree⟩ := scanPool_free hg good g.totalBlks 0 ((wd (g.poolLba - 1) + 1) % 2 ^ 16) hdata
      generalize scanPool g good g.totalBlks 0 ((wd (g.poolLba - 1) + 1) % 2 ^ 16) wd = r at *
      have hr : 1 ≤ r.1 := of_decide_eq_true hok
      have hidx : (r.1 + 2 ^ 16 - 1) % 2 ^ 16 = r.1 - 1 := by omega
      dsimp only
      rw [hidx]
      refine ⟨Words.set_small hsmall (by decide), fun k hk => ?_, Words.mapped_setMapped⟩
      rw [Words.mapped_setMapped_of_ne (Nat.ne_of_lt hk)]
      exact hfree k (Nat.zero_le _) (by omega)

/-- The entries that a scan leaves. -/
theorem entries_scan (hg : g.totalBlks < 2 ^ 16) (hfit : g.poolLba ≤ g.tableSize) (good : Nat → Bool) (hgood : ∀ b, good b = true → b < g.totalBlks)
    {w : Words} (hw : ∀ i, w i < 2 ^ 16) (hok : (scanBadBlocks g good w).ok = true) :
    Entries g (scanBadBlocks g good w).bmtBlkIdx (scanBadBlocks g good w).words (scanBadBlocks g good w).bmtBlkIdx ∧
    g.poolLba + (scanBadBlocks g good w).bmtBlkIdx < g.totalBlks := by
  have hscanned := (scanned_iff hg w hok).mpr hfit
  obtain ⟨hsmall, hfree, hlast⟩ := scanBadBlocks_marks hg hw hok
  have hdata : ∀ i < g.poolLba, i ≤ (scanBadBlocks g good w).words i := by
    intro i hi
    induction i with
    | zero => exact Nat.zero_le _
    | succ i ih =>
      have hlt := hscanned.data i (i + 1) (Nat.lt_succ_self i) hi
      have hle := ih (by omega)
      omega
  have hpos : ∀ k ≤ (scanBadBlocks g good w).bmtBlkIdx, 0 < (scanBadBlocks g good w).words.block g k := by
    obtain ⟨n, wd, wp, hidx, hwords, -, -, -, -, hpool, -⟩ := scanBadBlocks_spec hg w hok
    rw [hidx, hwords]
    intro k hk
    rw [Words.block_setMapped]
    exact Nat.lt_of_le_of_lt (Nat.zero_le _) (hpool k hk).1
  -- the entries rise from `pool_lba` on
  have hpool : ∀ k ≤ (scanBadBlocks g good w).bmtBlkIdx, g.poolLba + k ≤ (scanBadBlocks g good w).words.block g k := by
    intro k hk
    induction k with
    | zero =>
      rcases Nat.eq_zero_or_pos g.poolLba with hzero | hlba
      · omega
      · have hle := hdata (g.poolLba - 1) (by omega)
        have hlt := hscanned.above (g.poolLba - 1) (by omega) 0 (Nat.zero_le _)
        omega
    | succ k ih =>
      have hlt := hscanned.pool k (k + 1) (Nat.lt_succ_self k) hk
      have hle := ih (by omega)
      omega
  have hin : ∀ k ≤ (scanBadBlocks g good w).bmtBlkIdx, (scanBadBlocks g good w).words.block g k < g.totalBlks := fun k hk =>
    hgood _ (hscanned.poolGood k hk)
  refine ⟨⟨Nat.le_refl _, fun k hk => (hpos k hk).ne', fun k hk => ⟨by have := hpool k hk; omega, hin k hk⟩, fun k hk hk' => by omega, fun k hk => ?_,
    hlast, hsmall⟩, ?_⟩
  · rw [hfree k hk]
    decide
  · have hle := hpool _ (Nat.le_refl _)
    have hlt := hin _ (Nat.le_refl _)
    omega

theorem clearBmtTbl_small {left : Words} (h : ∀ i, left i < 2 ^ 16) (i : Nat) : clearBmtTbl g left i < 2 ^ 16 := by
  unfold clearBmtTbl
  split
  · decide
  · exact h i

/-- A chip without tables has them behind its first boot. -/
theorem intact_initAnew (hg : g.totalBlks < 2 ^ 16) (hfit : g.poolLba ≤ g.tableSize) (henv : Honest g c off env) {left : Words} (hleft : ∀ i, left i < 2 ^ 16)
    {flash : Nat → Block} (h : initAnew g c off env left flash = some s) :
    Intact g c off (scanFlash g c off left flash).bmtBlkIdx s ∧ g.poolLba + (scanFlash g c off left flash).bmtBlkIdx < g.totalBlks := by
  unfold initAnew at h
  split at h
  · cases h
  · dsimp only at h
    split at h
    · cases h
    · next hok =>
      split at h
      · cases h
      · next hidx =>
        cases h
        have hscan : (scanFlash g c off left flash).ok = true := by simpa using hok
        obtain ⟨hentries, hlt⟩ := entries_scan hg hfit (fun b => decide (b < g.totalBlks) && firstPageGood c off (flash b))
          (fun b hb => by
            simp only [Bool.and_eq_true, decide_eq_true_eq] at hb
            exact hb.1) (clearBmtTbl_small hleft) hscan
        exact ⟨intact_upload henv hentries hidx, hlt⟩

variable (g c off) in
/-- In every run from a boot without tables on, whatever fails, a boot finds the same tables again if they are still where they were at
    first, which is not the first entry of the pool. If their block had to be given up they are not found: the chip is scanned as a new
    one, and its remapped blocks are lost. No table may be left behind the block of the tables. -/
theorem boot_again (hg : g.totalBlks < 2 ^ 16) (hst : Stored c off) (hfit : g.poolLba ≤ g.tableSize)
    (hroom : 2 * (g.totalBlks - g.poolLba) ≤ g.tableSize) (henv : Honest g c off env) {left : Words} (hleft : ∀ i, left i < 2 ^ 16)
    {flash : Nat → Block} {s₀ s : State Block} (h₀ : initAnew g c off env left flash = some s₀) (hrun : Run g c off s₀ s)
    (hnone : NoneAbove g c off s.flash (s.words.block g s.bmtBlkIdx)) :
    if s.bmtBlkIdx = (scanFlash g c off left flash).bmtBlkIdx ∧ s.bmtBlkIdx ≠ 0 then
      ∃ w, (∀ i < wordCount g c, w i = s.words i) ∧ ∀ env left, initTables g c off env left s.flash = some { s with words := w }
    else ∀ env left, initTables g c off env left s.flash = initAnew g c off env left s.flash := by
  obtain ⟨hintact₀, hlt⟩ := intact_initAnew hg hfit henv hleft h₀
  have hintact := hrun.intact hintact₀
  have hsearch := hintact.search hst (by omega) hnone
  by_cases hidx : s.bmtBlkIdx = (scanFlash g c off left flash).bmtBlkIdx ∧ s.bmtBlkIdx ≠ 0
  · rw [if_pos hidx]
    rw [if_pos ⟨hidx.1, hidx.1 ▸ hidx.2⟩] at hsearch
    refine ⟨_, fun i hi => wordsOf_tableBytes (hintact.entries.small i) hi, fun env left => ?_⟩
    rw [initTables, hsearch, hidx.1]
  · rw [if_neg hidx]
    have hidx' : ¬(s.bmtBlkIdx = (scanFlash g c off left flash).bmtBlkIdx ∧ (scanFlash g c off left flash).bmtBlkIdx ≠ 0) :=
      fun h => hidx ⟨h.1, h.1 ▸ h.2⟩
    rw [if_neg hidx'] at hsearch
    intro env left
    rw [initTables, hsearch]

end

/-- Nothing fails on a chip with pages of four bytes. -/
def smallPages : Pages := { count := 2 ^ 15, pgSize := 4, oobSize := 4, emptyOk := true }

def smallEnv : Env Block where
  erase _ _ := (true, .erased)
  writeBmt w _ _ := (true, tableBlock small smallPages 0 w)
  copy dest src limit := smallPages.nandCopy dest src limit

/-- A chip of eight blocks is booted, and a block of it remapped. -/
def smallRun : Option (State Block) := (initAnew small smallPages 0 smallEnv (fun _ => 0xffff) fun _ => .erased).map fun s =>
  (remapBlock small smallEnv s 1 1 0).2

/-- The block is still remapped behind the next boot. -/
theorem boot_again_small : ∃ s w, smallRun = some s ∧ w 1 = 4 ∧ ∀ env left, initTables small smallPages 0 env left s.flash = some { s with words := w } := by
  have henv : Honest small smallPages 0 smallEnv := ⟨fun _ _ _ => rfl, fun _ _ _ => rfl⟩
  obtain ⟨s₀, h₀⟩ : ∃ s₀, initAnew small smallPages 0 smallEnv (fun _ => 0xffff) (fun _ => .erased) = some s₀ :=
    Option.isSome_iff_exists.mp (by decide)
  have hrun : smallRun = some (remapBlock small smallEnv s₀ 1 1 0).2 := by rw [smallRun, h₀, Option.map_some]
  have hfacts : smallRun.map (fun s => (s.words 1, s.bmtBlkIdx, s.words.block small 3)) = some (4, 3, 7) := by decide
  have hscan : (scanFlash small smallPages 0 (fun _ => 0xffff) fun _ => .erased).bmtBlkIdx = 3 := by decide
  rw [hrun, Option.map_some, Option.some.injEq, Prod.mk.injEq, Prod.mk.injEq] at hfacts
  obtain ⟨hword, hidx, hblock⟩ := hfacts
  have hboot := boot_again small smallPages 0 (by decide) ⟨by decide, by decide, by decide⟩ (by decide) (by decide) henv (fun _ => by decide) h₀
    (.step .start (.remap smallEnv 1 1 0 henv (by decide)) (by rw [hidx]; decide)) (by
      rw [hidx, hblock]
      intro b hb hlt
      exact absurd hb (Nat.not_lt.mpr hlt))
  rw [if_pos ⟨hidx.trans hscan.symm, by rw [hidx]; decide⟩] at hboot
  obtain ⟨w, hw, hinit⟩ := hboot
  exact ⟨_, w, hrun, (hw 1 (by decide)).trans hword, hinit⟩

/-! ### Entries that are not in use -/

section
variable {β : Type} {g : Chip} {env : Env β} {s : State β} {w : Words} {n k mainBlocks : Nat}

theorem mappingMask_iff (h : Kept g w n) (hk : k < n) : mappingMask g mainBlocks w n k = true ↔ ∃ i < mainBlocks, i ≠ 0 ∧ w i ≠ i ∧ w i = w.block g k := by
  have hfind : ∀ i, (List.range n).find? (fun k => w i = w.block g k) = some k ↔ w i = w.block g k := by
    intro i
    constructor
    · intro hsome
      simpa using List.find?_some hsome
    · intro heq
      cases hres : (List.range n).find? fun k => w i = w.block g k with
      | none =>
        have hnone := List.find?_eq_none.mp hres k (List.mem_range.mpr hk)
        simp [heq] at hnone
      | some k' =>
        have heq' : w i = w.block g k' := by simpa using List.find?_some hres
        have hk' := List.mem_range.mp (List.mem_of_find?_eq_some hres)
        rw [h.block_inj (Nat.le_of_lt hk') (Nat.le_of_lt hk) (heq'.symm.trans heq)]
  simp only [mappingMask, List.any_eq_true, List.mem_range, Bool.and_eq_true, decide_eq_true_eq, hfind]
  exact ⟨fun ⟨i, hi, ⟨h0, hne⟩, heq⟩ => ⟨i, hi, h0, hne, heq⟩, fun ⟨i, hi, h0, hne, heq⟩ => ⟨i, hi, ⟨h0, hne⟩, heq⟩⟩

/-- The entries that the blocks left out by the mask are mapped to. -/
def Overlooked (g : Chip) (mainBlocks : Nat) (w : Words) (n k : Nat) : Prop := k < n ∧ ∃ i < g.poolLba, (i = 0 ∨ mainBlocks ≤ i) ∧ w i = w.block g k

theorem unused_of_overlooked (h : Kept g w n) (hmain : mainBlocks ≤ g.poolLba) (ho : Overlooked g mainBlocks w n k) :
    unused g (mappingMask g mainBlocks w n) w k = true := by
  obtain ⟨hk, i, hi, hout, heq⟩ := ho
  have hnormal : w.mapped g k = NORMAL_MAPPED := by
    rcases h.used i hi with hlow | ⟨k', hk', hnormal, heq'⟩
    · exact absurd heq (Nat.ne_of_lt (hlow k (Nat.le_of_lt hk)))
    · rwa [h.block_inj (Nat.le_of_lt hk) (Nat.le_of_lt hk') (heq.symm.trans heq')]
  have hmask : mappingMask g mainBlocks w n k = false := by
    rw [← Bool.not_eq_true, mappingMask_iff h hk]
    rintro ⟨j, hj, h0, -, heq'⟩
    have hij := h.inj i j hi (by omega) (heq.trans heq'.symm)
    omega
  simp [unused, hnormal, hmask]

/-- What is freed is not in use, if no entry is overlooked. -/
theorem kept_freeUnused (hfit : g.poolLba ≤ g.tableSize) (h : Kept g w n) (hpool : ∀ k ≤ n, g.poolLba ≤ w.block g k)
    (ho : ∀ k, ¬Overlooked g mainBlocks w n k) : Kept g (freeUnused g (mappingMask g mainBlocks w n) (List.range (n + 1)) w) n := by
  have hdata : ∀ i < g.poolLba, freeUnused g (mappingMask g mainBlocks w n) (List.range (n + 1)) w i = w i := fun i hi =>
    freeUnused_apart _ _ _ fun k _ => by omega
  have hblock : ∀ k, (freeUnused g (mappingMask g mainBlocks w n) (List.range (n + 1)) w).block g k = w.block g k := fun k =>
    freeUnused_apart _ _ _ fun k' _ => by omega
  have hmapped := mapped_freeUnused (g := g) (mappingMask g mainBlocks w n) (List.range (n + 1)) w
  generalize freeUnused g (mappingMask g mainBlocks w n) (List.range (n + 1)) w = w' at *
  refine ⟨fun i j hi hj heq => ?_, fun k k' hk hk' => ?_, fun i hi => ?_, ?_⟩
  · rw [hdata i hi, hdata j hj] at heq
    exact h.inj i j hi hj heq
  · rw [hblock, hblock]
    exact h.pool k k' hk hk'
  · rw [hdata i hi]
    rcases h.used i hi with hlow | ⟨k, hk, hnormal, heq⟩
    · exact .inl fun k hk => (hblock k).symm ▸ hlow k hk
    -- the block is in the mask, as it is mapped elsewhere
    · refine .inr ⟨k, hk, ?_, (hblock k).symm ▸ heq⟩
      have hin : i ≠ 0 ∧ i < mainBlocks := by
        by_contra hout
        exact ho k ⟨hk, i, hi, by omega, heq⟩
      have hle := hpool k (Nat.le_of_lt hk)
      have hmask := (mappingMask_iff h hk).mpr ⟨i, hin.2, hin.1, by omega, heq⟩
      rw [hmapped, if_neg fun hu => ?_]
      · exact hnormal
      · simp [unused, hmask] at hu
  · rw [hmapped]
    split
    · decide
    · exact h.own

theorem debugFree_kept_iff (hfit : g.poolLba ≤ g.tableSize) (hmain : mainBlocks ≤ g.poolLba) (h : Kept g s.words s.bmtBlkIdx)
    (hpool : ∀ k ≤ s.bmtBlkIdx, g.poolLba ≤ s.words.block g k) (hok : (debugFree g env mainBlocks s).bmtBlkIdx ≠ NONE) :
    Kept g (debugFree g env mainBlocks s).words (debugFree g env mainBlocks s).bmtBlkIdx ↔ ∀ k, ¬Overlooked g mainBlocks s.words s.bmtBlkIdx k := by
  constructor
  · intro hkept k ho
    have hunused := unused_of_overlooked h hmain ho
    obtain ⟨hk, i, hi, -, heq⟩ := ho
    have hany : (List.range (s.bmtBlkIdx + 1)).any (unused g (mappingMask g mainBlocks s.words s.bmtBlkIdx) s.words) = true :=
      List.any_eq_true.mpr ⟨k, List.mem_range.mpr (by omega), hunused⟩
    unfold debugFree at hok hkept
    dsimp only at hok hkept
    rw [if_pos hany] at hok hkept
    have hblock : ∀ k, (freeUnused g (mappingMask g mainBlocks s.words s.bmtBlkIdx) (List.range (s.bmtBlkIdx + 1)) s.words).block g k = s.words.block g k :=
      fun k => freeUnused_apart _ _ _ fun k' _ => by omega
    have hdata := freeUnused_apart (g := g) (mappingMask g mainBlocks s.words s.bmtBlkIdx) (List.range (s.bmtBlkIdx + 1)) s.words (i := i) fun k' _ => by omega
    have hfreed := mapped_freeUnused (g := g) (mappingMask g mainBlocks s.words s.bmtBlkIdx) (List.range (s.bmtBlkIdx + 1)) s.words k
    rw [if_pos ⟨List.mem_range.mpr (by omega), hunused⟩] at hfreed
    generalize freeUnused g (mappingMask g mainBlocks s.words s.bmtBlkIdx) (List.range (s.bmtBlkIdx + 1)) s.words = w' at *
    obtain ⟨hle, -, hsame⟩ := uploadBmt_spec s.bmtBlkIdx { s with words := w' } hok
    change (upload g env { s with words := w' }).bmtBlkIdx ≤ _ at hle
    change ∀ i, (∀ k, (upload g env { s with words := w' }).bmtBlkIdx < k → _ → _) → (upload g env { s with words := w' }).words i = w' i at hsame
    generalize upload g env { s with words := w' } = t at *
    have htblock : ∀ k' ≤ t.bmtBlkIdx, t.words.block g k' = s.words.block g k' := fun k' hk' =>
      (hsame _ fun k'' _ _ => by omega).trans (hblock k')
    have htmapped : t.words.mapped g k = NO_MAPPED := (hsame _ fun k'' _ _ => by omega).trans hfreed
    have hword : t.words i = s.words i := (hsame i fun k'' _ _ => by omega).trans hdata
    rcases hkept.used i hi with hlow | ⟨k', hk', hnormal, heq'⟩
    · -- the block of the tables, or the entry itself, is not above
      have hlt := hlow (min k t.bmtBlkIdx) (Nat.min_le_right _ _)
      rw [htblock _ (Nat.min_le_right _ _), hword, heq] at hlt
      rcases Nat.eq_or_lt_of_le (Nat.min_le_left k t.bmtBlkIdx) with heqk | hltk
      · rw [heqk] at hlt
        exact Nat.lt_irrefl _ hlt
      · exact Nat.lt_asymm hlt (h.pool _ k hltk (Nat.le_of_lt hk))
    · rw [hword, htblock k' (Nat.le_of_lt hk'), heq] at heq'
      rw [← h.block_inj (Nat.le_of_lt hk) (by omega) heq', htmapped] at hnormal
      exact absurd hnormal (by decide)
  · intro ho
    unfold debugFree at hok ⊢
    dsimp only at hok ⊢
    split at hok
    · next hany =>
      rw [if_pos hany]
      exact (kept_freeUnused hfit h hpool ho).upload hfit hok
    · next hany =>
      rw [if_neg hany]
      exact h

theorem Reaches.block {s₀ : State β} (h : Reaches g s₀ s) :
    s.bmtBlkIdx ≤ s₀.bmtBlkIdx ∧ ∀ k ≤ s.bmtBlkIdx, s.words.block g k = s₀.words.block g k := by
  have hupload : ∀ (env : Env β) (s : State β), (V2.upload g env s).bmtBlkIdx ≠ NONE → (V2.upload g env s).bmtBlkIdx ≤ s.bmtBlkIdx ∧
      ∀ k ≤ (V2.upload g env s).bmtBlkIdx, (V2.upload g env s).words.block g k = s.words.block g k := by
    intro env s hok
    obtain ⟨hle, -, hsame⟩ := uploadBmt_spec s.bmtBlkIdx s hok
    refine ⟨hle, fun k hk => hsame _ fun k' hk' _ => ?_⟩
    have : (uploadBmt g env s.bmtBlkIdx s).1 = (V2.upload g env s).bmtBlkIdx := rfl
    omega
  induction h with
  | start => exact ⟨Nat.le_refl _, fun _ _ => rfl⟩
  | upload env _ hok ih =>
    obtain ⟨hle, hsame⟩ := hupload env _ hok
    exact ⟨Nat.le_trans hle ih.1, fun k hk => (hsame k hk).trans (ih.2 k (Nat.le_trans hk hle))⟩
  | remap env block mappedBlock copyLen _ hblock htrue hok ih =>
    obtain ⟨k₀, -, -, flash, heq, -⟩ := remapBlock_spec htrue
    rw [heq] at hok ⊢
    obtain ⟨hle, hsame⟩ := hupload env _ hok
    refine ⟨Nat.le_trans hle ih.1, fun k hk => (hsame k hk).trans ?_⟩
    rw [← ih.2 k (Nat.le_trans hk hle), Words.block_set_of_lt hblock, Words.block_setMapped]

/-- In every run from a scan on, freeing the entries that are not in use keeps what the tables promise if and only if none is
    overlooked: the mask leaves out the first block and those behind the device. -/
theorem frees_iff (g : Chip) (hg : g.totalBlks < 2 ^ 16) (hfit : g.poolLba ≤ g.tableSize) (good : Nat → Bool) (hgood : ∀ b, good b = true → b < g.totalBlks)
    (w : Words) (hw : ∀ i, w i < 2 ^ 16) (hscan : (scanBadBlocks g good w).ok = true) (flash : Nat → β) (s : State β)
    (hreach : Reaches g { words := (scanBadBlocks g good w).words, bmtBlkIdx := (scanBadBlocks g good w).bmtBlkIdx, flash } s)
    (env : Env β) (mainBlocks : Nat) (hmain : mainBlocks ≤ g.poolLba) (hok : (debugFree g env mainBlocks s).bmtBlkIdx ≠ NONE) :
    Kept g (debugFree g env mainBlocks s).words (debugFree g env mainBlocks s).bmtBlkIdx ↔ ∀ k, ¬Overlooked g mainBlocks s.words s.bmtBlkIdx k := by
  obtain ⟨hentries, -⟩ := entries_scan hg hfit good hgood hw hscan
  have hown : (scanBadBlocks g good w).words.mapped g (scanBadBlocks g good w).bmtBlkIdx ≠ NORMAL_MAPPED := by
    rw [hentries.mapped_eq]
    decide
  have hkept := hreach.kept hfit (((scanned_iff hg w hscan).mpr hfit).kept hown)
  obtain ⟨hle, hblock⟩ := hreach.block
  refine debugFree_kept_iff hfit hmain hkept (fun k hk => ?_) hok
  rw [hblock k hk]
  exact (hentries.block_pool k (Nat.le_trans hk hle)).1

/-- Surroundings in which nothing fails. -/
def sureEnv : Env Unit := ⟨fun _ _ => (true, ()), fun _ _ _ => (true, ()), fun _ _ _ => ()⟩

def scannedSmall : State Unit where
  words := (scanBadBlocks small (fun b => b < 8) fun _ => 0xffff).words
  bmtBlkIdx := (scanBadBlocks small (fun b => b < 8) fun _ => 0xffff).bmtBlkIdx
  flash _ := ()

/-- The first block is remapped, and then its new block is taken for free. -/
theorem frees_first : ¬Kept small (debugFree small sureEnv 2 (remapBlock small sureEnv scannedSmall 0 0 0).2).words
    (debugFree small sureEnv 2 (remapBlock small sureEnv scannedSmall 0 0 0).2).bmtBlkIdx := by
  have hiff := frees_iff small (by decide) (by decide) (fun b => b < 8) (fun b hb => of_decide_eq_true hb) (fun _ => 0xffff) (fun _ => by decide) (by decide)
    (fun _ => ()) _ (.remap sureEnv 0 0 0 (.start : Reaches small scannedSmall scannedSmall) (by decide) (by decide) (by decide)) sureEnv 2 (by decide) (by decide)
  rw [hiff]
  intro hno
  refine hno 0 ⟨by decide, 0, by decide, .inl rfl, by decide⟩

end

end V2

/-! ### Sessions -/

section
variable {g : V2.Chip} {c : Pages} {n off threshold last : Nat} {out : Outside} {left : V2.Words} {flash : Nat → Block} {s : Device}

/-- What holds of the tables between requests: they are whole, in the block that they were in at first, and nothing is written behind it. -/
structure Settled (g : V2.Chip) (c : Pages) (off last : Nat) (flash : Nat → Block) (top : Nat) (s : V2.State Block) : Prop where
  intact : V2.Intact g c off last s
  idx : s.bmtBlkIdx = last
  behind : ∀ b, top < b → s.flash b = flash b

end

end RainWrt.Bmt
