import RainWrt.Theorems.Nmbm.Load
import RainWrt.Theorems.Nmbm.Runs

/-! What a search finds after a table was written. The writer skips bad blocks wherever they lie; the
    loader counts them against the size of the table. So the two agree on a table without a gap. -/

namespace RainWrt.Nmbm
open Nand

/-! ### Tables without a gap -/

/-- Consecutive blocks that hold the pieces of the rest of a table are read as that rest. -/
theorem windowFrom_of_stored {n : Nand} {ni : Instance} {img : Bytes} (hl : img.length = ni.chip.infoTableSize) {k fuel ba off : Nat}
    (hoff : off ≤ ni.chip.infoTableSize) (hfuel : (img.drop off).length ≤ fuel)
    (hst : Stored n ni.chip (List.range' ba k) (splitEvery ni.chip.blkSize fuel (img.drop off)))
    (hg : ∀ b, ba ≤ b → b < ba + k → ni.good b = true ∧ n.bad b = false) : windowFrom n ni k ba off = some (img.drop off) := by
  have hblk := ni.chip.blkSize_pos
  induction k generalizing fuel ba off with
  | zero =>
    have hnil : img.drop off = [] := by
      have hf := flatten_splitEvery hblk hfuel
      rw [← hf, List.forall₂_nil_left_iff.mp hst]
      rfl
    have hlen := congrArg List.length hnil
    rw [List.length_drop, List.length_nil, hl] at hlen
    rw [windowFrom, if_pos (by omega), hnil]
  | succ k ih =>
    rw [List.range'_succ] at hst
    rcases hdrop : img.drop off with _ | ⟨x, xs⟩
    · rw [hdrop] at hst
      cases fuel <;> cases hst
    · cases fuel with
      | zero =>
        rw [hdrop] at hfuel
        simp at hfuel
      | succ fuel =>
        rw [hdrop, splitEvery, ← hdrop] at hst
        obtain ⟨hb, hrest⟩ := List.forall₂_cons.mp hst
        have hlen : ((img.drop off).take ni.chip.blkSize).length = chunkAt ni.chip off := by
          rw [List.length_take, List.length_drop, hl, chunkAt, Nat.min_comm]
        have hnext : (img.drop off).drop ni.chip.blkSize = img.drop (off + chunkAt ni.chip off) := by
          rw [List.drop_drop]
          unfold chunkAt
          rcases Nat.le_total (ni.chip.infoTableSize - off) ni.chip.blkSize with h | h
          · rw [Nat.min_eq_left h, List.drop_of_length_le (by omega), List.drop_of_length_le (by omega)]
          · rw [Nat.min_eq_right h]
        rw [Nand.Holds, hlen] at hb
        rw [hnext] at hrest
        have hle : chunkAt ni.chip off ≤ ni.chip.infoTableSize - off := Nat.min_le_left _ _
        have hpos : 0 < (img.drop off).length := by rw [hdrop]; simp
        have hd := congrArg List.length hnext
        rw [List.length_drop] at hd
        have hw := ih (by omega) (by omega) hrest fun b h1 h2 => hg b (by omega) (by omega)
        rw [windowFrom_eq_some (hg ba (Nat.le_refl _) (by omega)).1 (hg ba (Nat.le_refl _) (by omega)).2 hb hw, ← hnext,
          List.take_append_drop, hdrop]

theorem length_filter_eq {α : Type} {p : α → Bool} {l : List α} (h : (l.filter p).length = l.length) : l.filter p = l :=
  List.filter_sublist.eq_of_length h

/-- The blocks of a table that takes no more room than it needs. -/
theorem goodBlocks_consecutive {ni : Instance} {st k : Nat} (h : (goodBlocks ni st (st + k)).length = k) :
    goodBlocks ni st (st + k) = List.range' st k := by
  rw [goodBlocks, Nat.add_sub_cancel_left] at h ⊢
  exact length_filter_eq (by rw [h, List.length_range'])

/-! ### Agreement -/

/-- The loader reads the chip as the writer left it. -/
structure SameFlash (n n' : Nand) : Prop where
  page : n'.page = n.page
  bad : n'.bad = n.bad
  emptyOk : n'.emptyOk = n.emptyOk
  sound : n'.Sound

/-- A search over `[lo, hi)` finds a table that starts at block `st` or before it, and loads the given
    tables. -/
def Finds (r : State) (lo hi st : Nat) (blockState blockMapping : List UInt32) : Prop :=
  ∃ f r', searchInfoTable r lo hi false = (some f, r') ∧ f.startBa ≤ st ∧ r'.ni.blockState = blockState ∧
    r'.ni.blockMapping = blockMapping

/-- The first table that is accepted before block `st` holds the given tables. -/
def EarlierHolds (r : State) (lo hi st : Nat) (blockState blockMapping : List UInt32) : Prop :=
  ∃ b img top, b < st ∧ FirstAccepted r.nand r.ni lo (sub32 hi r.ni.chip.tableBlocks) b img top ∧ imageState r.ni img = blockState ∧ imageMapping r.ni img = blockMapping

/-- The table `img` in `[st, en)` has no gap, the search gets to it, and the loader takes its blocks for
    good and its mapping for possible. -/
structure Reachable (r : State) (hi st en : Nat) (img : Bytes) : Prop where
  limit : st < sub32 hi r.ni.chip.tableBlocks
  consecutive : en = st + r.ni.chip.tableBlocks
  good : ∀ b, st ≤ b → b < en → r.ni.good b = true ∧ r.nand.bad b = false
  tables : (checkInfoTable r.ni st en img).isSome = true

section
variable {w₀ w w' r : State} {ba limit st en lo hi : Nat}

/-- The image that was written is valid and lies on the good blocks of the range. -/
theorem stored_image (hf : Formed w₀.ni) (hc : w.ni.chip = w₀.ni.chip)
    (himg : w.ni.infoTableCache = (generateInfoTableCache w₀).2.ni.infoTableCache) (hw : writeInfoTable w ba limit = (some (st, en), w'))
    (hr : SameFlash w'.nand r.nand) (hrc : r.ni.chip = w.ni.chip) :
    w.ni.infoTableCache.length = r.ni.chip.infoTableSize ∧ checkInfoTableHeader r.ni w.ni.infoTableCache = true ∧
      checkHeader w.ni.infoTableCache r.ni.chip.infoTableSize = true ∧ imageState r.ni w.ni.infoTableCache = w₀.ni.blockState ∧
      imageMapping r.ni w.ni.infoTableCache = w₀.ni.blockMapping ∧
      Stored r.nand r.ni.chip (goodBlocks w'.ni st en) (pieces r.ni.chip.blkSize w.ni.infoTableCache) := by
  have hs := stamped_generateHeader w₀.ni
  have hcache : w.ni.infoTableCache = tableImage w₀.ni (generateHeader w₀.ni) := himg
  have hlen : w.ni.infoTableCache.length = w.ni.chip.infoTableSize := by rw [hcache, length_tableImage hf, hc]
  have hchip : r.ni.chip = w₀.ni.chip := hrc.trans hc
  obtain ⟨h1, h2⟩ := checkHeader_tableImage hf hs
  refine ⟨by rw [hlen, hrc], ?_, ?_, ?_, ?_, ?_⟩
  · rw [hcache, checkInfoTableHeader_congr hchip rfl, h1]
  · rw [hcache, hchip, h2]
  · rw [hcache, ← imageState_tableImage hf hs]
    simp only [imageState, hchip]
  · rw [hcache, ← imageMapping_tableImage hf hs]
    simp only [imageMapping, hchip]
  · rw [hrc]
    exact (writeInfoTable_stored hw hlen).congr (fun b _ => congrFun hr.page b) hr.emptyOk

/-- After a table was written, a search finds the tables that were written if an earlier table holds them,
    or no earlier table is accepted and the written one can be reached. If the blocks that the writer
    skipped are bad for the loader as well, the search finds them in no other case. -/
theorem search_agrees_with_write (hf : Formed w₀.ni) (hc : w.ni.chip = w₀.ni.chip)
    (himg : w.ni.infoTableCache = (generateInfoTableCache w₀).2.ni.infoTableCache) (hw : writeInfoTable w ba limit = (some (st, en), w'))
    (hr : SameFlash w'.nand r.nand) (hrc : r.ni.chip = w.ni.chip) (hrl : r.ni.infoTableCache.length = r.ni.chip.infoTableSize)
    (hlo : lo ≤ st) :
    ((EarlierHolds r lo hi st w₀.ni.blockState w₀.ni.blockMapping ∨ (NoneAccepted r.nand r.ni lo st ∧ Reachable r hi st en w.ni.infoTableCache)) →
      Finds r lo hi st w₀.ni.blockState w₀.ni.blockMapping) ∧
    ((∀ b, st ≤ b → b < en → w'.ni.good b = false → r.ni.good b = false ∨ r.nand.bad b = true) →
      Finds r lo hi st w₀.ni.blockState w₀.ni.blockMapping →
      EarlierHolds r lo hi st w₀.ni.blockState w₀.ni.blockMapping ∨ (NoneAccepted r.nand r.ni lo st ∧ Reachable r hi st en w.ni.infoTableCache)) := by
  obtain ⟨hlen, hhdr, hsum, hst, hmp, hstored⟩ := stored_image hf hc himg hw hr hrc
  obtain ⟨-, hsten, -⟩ := writeInfoTable_eq_some hw
  obtain ⟨-, -, hK⟩ := tableBlocks_bounds r.ni.chip
  -- the table lies on as many blocks as it needs, and its last block is the last one of the range
  have hcount : (goodBlocks w'.ni st en).length = r.ni.chip.tableBlocks := by
    rw [List.Forall₂.length_eq hstored, length_pieces r.ni.chip.blkSize_pos, hlen]
    rfl
  have hlast : w'.ni.good (en - 1) = true := by
    refine (writeMgmtLoop_stored hw fun c => dvd_length_pieces w.ni.chip.pgSize_dvd_blkSize ?_).2.2 fun hnil => ?_
    · rw [hlen, hrc]
      exact w.ni.chip.pgSize_dvd_infoTableSize
    · have := congrArg List.length hnil
      rw [length_pieces w.ni.chip.blkSize_pos, ← hrc, hlen] at this
      exact absurd this (Nat.ne_of_gt hK)
  -- a table without a gap is what its window holds
  have hwindow : en = st + r.ni.chip.tableBlocks → (∀ b, st ≤ b → b < en → r.ni.good b = true ∧ r.nand.bad b = false) →
      windowFrom r.nand r.ni r.ni.chip.tableBlocks st 0 = some w.ni.infoTableCache := by
    intro he hg
    rw [he] at hcount hstored hg
    rw [goodBlocks_consecutive hcount] at hstored
    exact windowFrom_of_stored hlen (Nat.zero_le _) (Nat.le_refl _) hstored hg
  have hspec := searchInfoTable_spec hr.sound hrl lo hi false
  constructor
  · intro hcond
    -- the first accepted table holds what was written
    have hfirst : ∃ b img top, b ≤ st ∧ FirstAccepted r.nand r.ni lo (sub32 hi r.ni.chip.tableBlocks) b img top ∧
        imageState r.ni img = w₀.ni.blockState ∧ imageMapping r.ni img = w₀.ni.blockMapping := by
      rcases hcond with ⟨b, img, top, h2, ha, h4, h5⟩ | ⟨hno, hre⟩
      · exact ⟨b, img, top, Nat.le_of_lt h2, ha, h4, h5⟩
      · obtain ⟨top, htop⟩ := Option.isSome_iff_exists.mp hre.tables
        refine ⟨st, _, top, Nat.le_refl _, ⟨hlo, hre.limit, ⟨hwindow hre.consecutive hre.good, hhdr, hsum, ?_⟩, hno⟩, hst, hmp⟩
        rw [← hre.consecutive]
        exact htop
    obtain ⟨b, img, top, h2, ha, h4, h5⟩ := hfirst
    rcases hspec with ⟨b', img', top', s₁, n, ha', hl, -, he⟩ | ⟨hno', -⟩
    · obtain ⟨rfl, rfl, -⟩ := ha.unique ha'
      refine ⟨_, _, he, h2, ?_, ?_⟩
      · rw [← h4]
        simp [loadedBy, loadTables, imageState, hl.chip]
      · rw [← h5]
        simp [loadedBy, loadTables, imageMapping, hl.chip]
    · exact absurd ha.accepted (hno' b ha.le ha.lt img top)
  · rintro hview ⟨f, r', hfind, hle, h4, h5⟩
    rcases hspec with ⟨b, img, top, s₁, n, ha, hl, -, he⟩ | ⟨-, s₁, -, hnone⟩
    · have hfr : (some f, r') = (some (foundAt r.ni.chip b img top), { s₁ with nand := n, ni := loadedBy false img s₁.ni }) :=
        hfind.symm.trans he
      obtain ⟨hfe, hre⟩ := Prod.mk.inj hfr
      obtain rfl := Option.some.inj hfe
      subst hre
      have h4' : imageState r.ni img = w₀.ni.blockState := by
        rw [← h4]
        simp [loadedBy, loadTables, imageState, hl.chip]
      have h5' : imageMapping r.ni img = w₀.ni.blockMapping := by
        rw [← h5]
        simp [loadedBy, loadTables, imageMapping, hl.chip]
      have hle' : b ≤ st := hle
      rcases Nat.lt_or_eq_of_le hle' with hlt | rfl
      · exact .inl ⟨b, img, top, hlt, ha, h4', h5'⟩
      · refine .inr ⟨ha.none, ?_⟩
        have hgood := windowFrom_good ha.accepted.window
        -- a gap would be a block that the loader cannot use
        have hen : en = b + r.ni.chip.tableBlocks := by
          by_contra hne
          have hlong : b + r.ni.chip.tableBlocks < en := by
            have := List.length_filter_le w'.ni.good (List.range' b (en - b))
            rw [List.length_range'] at this
            have hc' : ((List.range' b (en - b)).filter w'.ni.good).length = r.ni.chip.tableBlocks := hcount
            omega
          have hall : ∀ x, b ≤ x → x < b + r.ni.chip.tableBlocks → w'.ni.good x = true := by
            intro x hx1 hx2
            by_contra hbad
            obtain ⟨hg, hb⟩ := hgood x hx1 hx2
            rcases hview x hx1 (by omega) (by simpa using hbad) with h | h
            · rw [hg] at h
              cases h
            · rw [hb] at h
              cases h
          have hsub : (List.range' b r.ni.chip.tableBlocks ++ [en - 1]).length ≤ (goodBlocks w'.ni b en).length := by
            refine List.Nodup.length_le_of_subset ?_ ?_
            · refine List.Nodup.append (List.nodup_range' ..) (List.nodup_singleton _) ?_
              intro x hx hy
              rw [List.mem_singleton] at hy
              have := List.mem_range'_1.mp hx
              omega
            · intro x hx
              rw [mem_goodBlocks]
              rcases List.mem_append.mp hx with hx | hx
              · have := List.mem_range'_1.mp hx
                exact ⟨by omega, by omega, hall x (by omega) (by omega)⟩
              · rw [List.mem_singleton] at hx
                subst hx
                exact ⟨by omega, by omega, hlast⟩
          rw [hcount, List.length_append, List.length_range', List.length_singleton] at hsub
          omega
        have hblocks : ∀ x, b ≤ x → x < en → r.ni.good x = true ∧ r.nand.bad x = false := fun x h1 h2 => hgood x h1 (by omega)
        have himg' : img = w.ni.infoTableCache := Option.some.inj (ha.accepted.window.symm.trans (hwindow hen hblocks))
        subst himg'
        exact ⟨ha.lt, hen, hblocks, by rw [hen, ha.accepted.tables]; rfl⟩
    · rw [hfind] at hnone
      cases hnone

end

/-- A chip of 24 blocks with two pages each, on which a table takes two blocks. -/
def pairChip : Chip :=
  ⟨24, 7, 6, 64, smallChip.totalBlks_pos, smallChip.totalBlks_lt, smallChip.pgShift_ge, by decide, by decide⟩

/-- A new instance on the pair chip, with its image made. -/
def pairWriter (bad : List Nat) : State := (generateInfoTableCache (freshState pairChip 8 0 true false (erasedNand bad))).2

/-- A new instance on the chip that the writer left behind. -/
def pairLoader (bad : List Nat) : State :=
  freshState pairChip 8 0 true false { (writeInfoTable (pairWriter bad) 12 24).2.nand with fault := fun _ => .none }

theorem sameFlash_unfailing (n : Nand) : SameFlash n { n with fault := fun _ => .none } := ⟨rfl, rfl, rfl, fun _ => rfl⟩

theorem eq_of_fst_some {α β : Type} {p : Option α × β} {a : α} (h : p.1 = some a) : p = (some a, p.2) := by
  rw [← h]

set_option maxRecDepth 100000 in
theorem search_agrees_with_write_pair :
    Finds (pairLoader [14]) 12 24 12 (pairWriter [14]).ni.blockState (pairWriter [14]).ni.blockMapping := by
  obtain ⟨h1, h2, h3, h4, h5⟩ : (writeInfoTable (pairWriter [14]) 12 24).1 = some (12, 14) ∧
      12 < sub32 24 pairChip.tableBlocks ∧ 14 = 12 + pairChip.tableBlocks ∧
      (∀ b < 14, 12 ≤ b → (pairLoader [14]).ni.good b = true ∧ (pairLoader [14]).nand.bad b = false) ∧
      (checkInfoTable (pairLoader [14]).ni 12 14 (pairWriter [14]).ni.infoTableCache).isSome = true := by decide +kernel
  have hw := eq_of_fst_some h1
  have hf := formed_freshState pairChip 8 0 true false (erasedNand [14])
  have hs : SameFlash (writeInfoTable (pairWriter [14]) 12 24).2.nand (pairLoader [14]).nand :=
    sameFlash_unfailing _
  have hl : (pairLoader [14]).ni.infoTableCache.length = (pairLoader [14]).ni.chip.infoTableSize := List.length_replicate
  have hre : Reachable (pairLoader [14]) 24 12 14 (pairWriter [14]).ni.infoTableCache := ⟨h2, h3, fun b hb hb' => h4 b hb' hb, h5⟩
  have hno : NoneAccepted (pairLoader [14]).nand (pairLoader [14]).ni 12 12 := fun b hb hb' => absurd hb' (Nat.not_lt.mpr hb)
  exact (search_agrees_with_write (w := pairWriter [14]) hf rfl rfl hw hs rfl hl (Nat.le_refl 12)).1 (.inr ⟨hno, hre⟩)

set_option maxRecDepth 100000 in
/-- With block 13 bad, the table goes to blocks 12 and 14, and no search finds it. -/
theorem search_disagrees_with_write :
    (writeInfoTable (pairWriter [13]) 12 24).1 = some (12, 15) ∧
      ¬Finds (pairLoader [13]) 12 24 12 (pairWriter [13]).ni.blockState (pairWriter [13]).ni.blockMapping := by
  obtain ⟨h1, h2⟩ : (writeInfoTable (pairWriter [13]) 12 24).1 = some (12, 15) ∧
      (searchInfoTable (pairLoader [13]) 12 24 false).1 = none := by decide
  refine ⟨h1, ?_⟩
  rintro ⟨f, r', hf, -⟩
  rw [hf] at h2
  cases h2

end RainWrt.Nmbm
