import RainWrt.Bmt.Copy
import RainWrt.Theorems.Bmt.V2
import RainWrt.Theorems.Nmbm.Runs

/-! What a copy keeps of a block that went bad. -/

namespace RainWrt.Bmt
variable {c : Pages}

/-! ### Copying -/

/-- Each page below the limit that could be read before reads back from the other block, with the same data and the same
    out-of-band bytes. -/
def Survives (c : Pages) (old new : Block) (limit : Int) : Prop :=
  ∀ p < c.count, (p * c.pgSize : Nat) < limit → ∀ bytes oob, c.read (old p) = some (bytes, oob) →
    ∃ oob', c.read (new p) = some (bytes, oob') ∧ oob'.take c.ooblen = oob.take c.ooblen

/-- No page below the limit has out-of-band bytes, and only blank ones are behind a page that cannot be read. -/
def Harmless (c : Pages) (old : Block) (limit : Int) : Prop :=
  ∀ p < c.count, (p * c.pgSize : Nat) < limit → ∀ bytes oob, c.read (old p) = some (bytes, oob) →
    oob.take c.ooblen = List.replicate c.ooblen 0xff ∧
    ((∃ q < p, c.read (old q) = none) → c.emptyOk = true ∧ bytes = List.replicate c.pgSize 0xff)

namespace Pages
variable {src dest : Block} {limit : Int}

/-- The loop leaves the pages before it alone. -/
theorem copyLoop_of_lt {n i p : Nat} (hp : p < i) : c.copyLoop src limit n i dest p = dest p := by
  induction n generalizing i dest with
  | zero => rfl
  | succ n ih =>
    unfold copyLoop
    split
    · rfl
    · cases c.read (src i) with
      | none => rfl
      | some r =>
        dsimp only
        rw [ih (Nat.lt_succ_of_lt hp), if_neg (Nat.ne_of_lt hp)]

/-- A page is copied if all pages up to it can be read. -/
theorem copyLoop_copied {n i p : Nat} (hi : i ≤ p) (hp : p < i + n) (hlimit : (p * c.pgSize : Nat) < limit)
    (hread : ∀ q, i ≤ q → q < p → c.read (src q) ≠ none) {bytes oob : Bytes} (hsrc : c.read (src p) = some (bytes, oob)) :
    c.copyLoop src limit n i dest p = c.program bytes (oob.take c.ooblen) 0 := by
  induction n generalizing i dest with
  | zero => omega
  | succ n ih =>
    have hle : i * c.pgSize ≤ p * c.pgSize := Nat.mul_le_mul_right _ hi
    unfold copyLoop
    rw [if_neg (by omega)]
    rcases Nat.eq_or_lt_of_le hi with rfl | hlt
    · rw [hsrc]
      dsimp only
      rw [copyLoop_of_lt (Nat.lt_succ_self i), if_pos rfl]
    · cases hq : c.read (src i) with
      | none => exact absurd hq (hread i (Nat.le_refl _) hlt)
      | some r => exact ih hlt (by omega) fun q hq hq' => hread q (by omega) hq'

/-- A page behind one that cannot be read is not copied. -/
theorem copyLoop_stopped {n i p q : Nat} (hi : i ≤ q) (hqp : q < p) (hq : c.read (src q) = none) :
    c.copyLoop src limit n i dest p = dest p := by
  induction n generalizing i dest with
  | zero => rfl
  | succ n ih =>
    unfold copyLoop
    split
    · rfl
    · cases hr : c.read (src i) with
      | none => rfl
      | some r =>
        have hne : i ≠ q := fun heq => by
          rw [heq, hq] at hr
          cases hr
        dsimp only
        rw [ih (by omega), if_neg (by omega)]

theorem take_blank : (List.replicate c.oobSize (0xff : UInt8)).take c.ooblen = List.replicate c.ooblen 0xff := by
  have hle : c.ooblen ≤ c.oobSize := Nat.le_trans (Nat.min_le_left _ _) (Nat.div_le_self _ _)
  rw [List.take_replicate, Nat.min_eq_left hle]

/-- What a copied page reads back. -/
theorem read_program (bytes oob : Bytes) : c.read (c.program bytes oob 0) = some (bytes, List.replicate c.oobSize 0xff) := by
  simp [program, read]

end Pages

/-- A copy keeps what could be read exactly when nothing is lost by copying no out-of-band bytes, and none of the pages behind an
    unreadable one. -/
theorem survives_nandCopy (c : Pages) (old : Block) (limit : Int) :
    Survives c old (c.nandCopy .erased old limit) limit ↔ Harmless c old limit := by
  constructor
  · intro h p hp hlimit bytes oob hread
    obtain ⟨oob', hnew, hoob⟩ := h p hp hlimit bytes oob hread
    by_cases hstop : ∃ q < p, c.read (old q) = none
    · obtain ⟨q, hq, hnone⟩ := hstop
      rw [Pages.nandCopy, Pages.copyLoop_stopped (Nat.zero_le q) hq hnone] at hnew
      cases hempty : c.emptyOk with
      | false => simp [Block.erased, Pages.read, hempty] at hnew
      | true =>
        simp only [Block.erased, Pages.read, hempty, if_true, Option.some.injEq, Prod.mk.injEq] at hnew
        rw [← hnew.2, Pages.take_blank] at hoob
        exact ⟨hoob.symm, fun _ => ⟨rfl, hnew.1.symm⟩⟩
    · have hall : ∀ q, 0 ≤ q → q < p → c.read (old q) ≠ none := fun q _ hq hnone => hstop ⟨q, hq, hnone⟩
      rw [Pages.nandCopy, Pages.copyLoop_copied (Nat.zero_le p) (by omega) hlimit hall hread, Pages.read_program] at hnew
      simp only [Option.some.injEq, Prod.mk.injEq, true_and] at hnew
      rw [← hnew, Pages.take_blank] at hoob
      exact ⟨hoob.symm, fun hstop' => absurd hstop' hstop⟩
  · intro h p hp hlimit bytes oob hread
    obtain ⟨hoob, hblank⟩ := h p hp hlimit bytes oob hread
    refine ⟨List.replicate c.oobSize 0xff, ?_, by rw [hoob, Pages.take_blank]⟩
    by_cases hstop : ∃ q < p, c.read (old q) = none
    · obtain ⟨hempty, hbytes⟩ := hblank hstop
      obtain ⟨q, hq, hnone⟩ := hstop
      rw [Pages.nandCopy, Pages.copyLoop_stopped (Nat.zero_le q) hq hnone, hbytes]
      simp only [Block.erased, Pages.read, hempty, if_true]
    · have hall : ∀ q, 0 ≤ q → q < p → c.read (old q) ≠ none := fun q _ hq hnone => hstop ⟨q, hq, hnone⟩
      rw [Pages.nandCopy, Pages.copyLoop_copied (Nat.zero_le p) (by omega) hlimit hall hread, Pages.read_program]

/-- Without a length nothing has to survive. -/
theorem survives_of_nonpos {old new : Block} {limit : Int} (h : limit ≤ 0) : Survives c old new limit ∧ Harmless c old limit :=
  ⟨fun p _ hlimit => by omega, fun p _ hlimit => by omega⟩

/-- The block that a remapping leaves, copied or not. -/
theorem survives_remapped {old new : Block} {limit : Int}
    (h : new = if limit > 0 then c.nandCopy .erased old limit else .erased) : Survives c old new limit ↔ Harmless c old limit := by
  by_cases hpos : limit > 0
  · rw [h, if_pos hpos]
    exact survives_nandCopy c old limit
  · obtain ⟨hs, hh⟩ := @survives_of_nonpos c old new limit (Int.not_lt.mp hpos)
    exact iff_of_true hs hh

/-! ### The second version -/

/-- What a remapping leaves where the remapped block is read from then on. -/
theorem remapBlock_block {g : V2.Chip} {env : V2.Env Block} {s : V2.State Block} {block : Nat} {copyLen : Int}
    (hkept : V2.Kept g s.words s.bmtBlkIdx) (hfit : g.poolLba ≤ g.tableSize) (hblock : block < g.poolLba)
    (hrange : (mappingBlockInRange g.toGeometry block).isSome) :
    let r := V2.remapBlock g (withCopy c env) s block (s.words block) copyLen
    r.1 = true → (∀ old, (env.erase (r.2.words block) old).2 = .erased) →
    r.2.flash (V2.getMappingBlockIndex g r.2.words block) =
      if copyLen > 0 then c.nandCopy .erased (s.flash (s.words block)) copyLen else .erased := by
  intro r htrue herase
  obtain ⟨k, hk, hfree, flash, heq, hflash⟩ := V2.remapBlock_spec htrue
  have hnew : r.2.words block = s.words.block g k := by
    rw [heq]
    refine (V2.uploadBmt_words_lt _ _ (by omega)).trans ?_
    exact V2.Words.set_self
  have hmap : V2.getMappingBlockIndex g r.2.words block = s.words.block g k := by
    unfold V2.getMappingBlockIndex
    rw [if_neg (Nat.not_le.mpr hblock), if_neg (by simpa [Option.isNone_iff_eq_none, Option.isSome_iff_ne_none] using hrange), hnew]
  have hne : s.words block ≠ s.words.block g k := hkept.free_ne hk hfree hblock
  rw [hmap]
  have hupload : r.2.flash (s.words.block g k) = flash (s.words.block g k) := by
    rw [heq]
    refine V2.uploadBmt_flash _ _ fun k' hk' hmapped => ?_
    dsimp only at hk' hmapped ⊢
    rw [V2.Words.mapped_set_of_lt (by omega)] at hmapped
    rw [V2.Words.block_set_of_lt (by omega), V2.Words.block_setMapped]
    intro hsame
    rw [← hkept.block_inj (Nat.le_of_lt hk) hk' hsame, V2.Words.mapped_setMapped] at hmapped
    exact hmapped rfl
  rw [hupload, hflash hne]
  rw [hnew] at herase
  dsimp only [withCopy]
  rw [herase]

/-! ### NMBM -/

section
open Nmbm
variable {s : Nmbm.State}

theorem good_setBlockState {ba : Nat} (h : ba / 16 < s.ni.blockState.length) : (setBlockState s ba blockStBad).ni.good ba = false := by
  obtain ⟨k, hk⟩ := setBlockState_ni s ba blockStBad
  rw [hk, Instance.good, getBlockState, getBlockStateRaw_set, if_pos ⟨rfl, h⟩]
  decide

theorem mem_tableBlocks {s s' : Nmbm.State} {new : List Event} (h : s'.trace = new ++ s.trace) {ba : Nat} :
    ba ∈ tableBlocks s s' ↔ ∃ ni, .mgmt ba ni ∈ new := by
  have htake : s'.trace.take (s'.trace.length - s.trace.length) = new := by
    rw [h, List.length_append, Nat.add_sub_cancel, List.take_left']
    rfl
  rw [tableBlocks, htake, List.mem_filterMap]
  constructor
  · rintro ⟨ev, hev, hba⟩
    cases ev with
    | mgmt b ni =>
      obtain rfl := Option.some.inj hba
      exact ⟨ni, hev⟩
    | stateChanged b => cases hba
    | cacheGenerated => cases hba
    | clean => cases hba
    | map ni => cases hba
  · rintro ⟨ni, hev⟩
    exact ⟨_, hev, rfl⟩

/-- What a successful remapping does when it takes one of the two top spare blocks: the new entry is that block, a block of its own,
    and the tables are written to other blocks. -/
theorem remapBlockNmbm_spec (hinv : MapInv 1 s) (hformed : Formed s.ni) {block mappedBlock copyLen : Nat}
    (htrue : (Nmbm.remapBlock s block mappedBlock copyLen).1 = true)
    (hskip : ∀ ev ∈ (Nmbm.remapBlock s block mappedBlock copyLen).2.trace, ev.SkipsAtMost 1) :
    let s' := (Nmbm.remapBlock s block mappedBlock copyLen).2
    ∃ pb : UInt32, Nmbm.getMappingBlockIndex s'.ni block = some pb ∧ (s'.ni.blockMapping.getD block 0).toNat = pb.toNat ∧
      pb.toNat ≠ mappedBlock ∧ pb.toNat ∉ tableBlocks s s' := by
  have hinv₁ := hinv.states (setBlockState_states s mappedBlock blockStBad)
  have hlayout := mapBlock_layout hinv₁.layout block
  rcases remapBlock_cases s block mappedBlock copyLen with ⟨-, hr⟩ | ⟨s₁, -, -, hr⟩ | ⟨s₁, n, hlt, hm, -, hr⟩
  · rw [hr] at htrue
    cases htrue
  · rw [hr] at htrue
    cases htrue
  rw [hr] at hskip ⊢
  rw [hm] at hlayout
  obtain ⟨hmgmt, -⟩ := updateInfoTable_maintains (s := { s₁ with nand := n }) hlayout.1
  generalize (updateInfoTable { s₁ with nand := n }).2 = s' at *
  obtain ⟨evs, htrace, hevs⟩ := hmgmt.trace
  dsimp only at htrace hevs
  obtain ⟨k, hk⟩ := setBlockState_ni s mappedBlock blockStBad
  have hcall := hskip (.map (setBlockState s mappedBlock blockStBad).ni)
    (htrace ▸ List.mem_append_right evs (hlayout.2.mem List.mem_cons_self))
  rcases mapBlock_cases (setBlockState s mappedBlock blockStBad) block with ⟨-, hc⟩ | ⟨-, hc⟩ | ⟨pb, -, hwalk, hc⟩ <;> rw [hm] at hc
  · cases hc
  · cases hc
  obtain rfl := (Prod.mk.inj hc).2
  obtain ⟨hlow, hhigh, htop⟩ := walk_range hinv₁.layout hinv₁.placed hcall hwalk
  have hword := toNat_ofNat_block hinv₁.placed hhigh
  have hgood := (blockWalkDesc_some hwalk).2.2
  have hlen : block < (setBlockState s mappedBlock blockStBad).ni.blockMapping.length := by
    have h1 := hinv.placed.length
    have h2 := hinv.placed.data_le
    have h3 := hinv.placed.start_le
    have h4 := hinv.placed.top_lt
    have h5 := hinv.placed.sig_lt
    rw [hk]
    dsimp only
    omega
  have hentry : s'.ni.blockMapping[block]? = some (UInt32.ofNat pb) := by
    rw [hmgmt.same.blockMapping]
    exact List.getElem?_set_self hlen
  refine ⟨UInt32.ofNat pb, ?_, ?_, ?_, ?_⟩
  · have hcount : s'.ni.dataBlockCount = s.ni.dataBlockCount := by
      rw [hmgmt.same.dataBlockCount]
      show (setBlockState s mappedBlock blockStBad).ni.dataBlockCount = _
      rw [hk]
    rw [Nmbm.getMappingBlockIndex, hcount, if_neg (Nat.not_le.mpr hlt), hentry]
  · rw [List.getD_eq_getElem?_getD, hentry]
    rfl
  -- the block that went bad is no longer good
  · rw [hword]
    rintro rfl
    have hdata : pb / 16 < s.ni.blockState.length := by
      have hstates := hformed.state
      have h1 := hinv.placed.sig_lt
      have h2 := hinv.placed.top_lt
      have hsize : s.ni.chip.stateTableSize = (s.ni.chip.totalBlks + 15) / 16 * 4 := rfl
      have htotal : s.ni.blockCount = s.ni.chip.totalBlks := rfl
      have hends : (setBlockState s pb blockStBad).ni.mappingBlocksTopBa = s.ni.mappingBlocksTopBa := by rw [hk]
      omega
    rw [good_setBlockState hdata] at hgood
    cases hgood
  -- the tables are written below the new top of the spare region
  · obtain ⟨pre, hpre, hnote⟩ : ∃ pre, (setBlockState s mappedBlock blockStBad).trace = pre ++ s.trace ∧
        ∀ ev ∈ pre, ev = .stateChanged mappedBlock := by
      rcases setBlockState_trace s mappedBlock blockStBad with h | h
      · exact ⟨[.stateChanged mappedBlock], h, fun ev hev => List.mem_singleton.mp hev⟩
      · exact ⟨[], h, fun ev hev => nomatch hev⟩
    have hall : s'.trace = (evs ++ .map (setBlockState s mappedBlock blockStBad).ni :: pre) ++ s.trace := by
      rw [htrace, noteMap, hpre, List.append_assoc, List.cons_append]
    rw [hword, mem_tableBlocks hall]
    rintro ⟨ni, hmem⟩
    rcases List.mem_append.mp hmem with hmem | hmem
    · rcases hevs _ hmem with (⟨b, hb⟩ | ⟨b, ni', hb, -, hhi, -⟩) | hb | hb
      · cases hb
      · obtain ⟨rfl, -⟩ := Event.mgmt.inj hb
        have hnext : pb < (setBlockState s mappedBlock blockStBad).ni.mappingBlocksTopBa - 1 := hhi
        omega
      · cases hb
      · cases hb
    · rcases List.mem_cons.mp hmem with hmem | hmem
      · cases hmem
      · cases hnote _ hmem

/-- What a remapping leaves in the block of the new entry. -/
theorem remapBlockNmbm_block (hinv : MapInv 1 s) (hformed : Formed s.ni) {tables : Nat → Block → Block} {flash : Nat → Block}
    {block mappedBlock : Nat} {copyLen : Int} :
    let r := remapBlockNmbm c tables s flash block mappedBlock copyLen
    r.1 = true → (∀ ev ∈ r.2.1.trace, ev.SkipsAtMost 1) → ∃ pb, Nmbm.getMappingBlockIndex r.2.1.ni block = some pb ∧
      r.2.2 pb.toNat = if copyLen > 0 then c.nandCopy .erased (flash mappedBlock) copyLen else .erased := by
  intro r htrue hskip
  obtain ⟨pb, hmap, hentry, hne, htables⟩ := remapBlockNmbm_spec hinv hformed htrue hskip
  refine ⟨pb, hmap, ?_⟩
  have hok : (Nmbm.remapBlock s block mappedBlock copyLen.toNat).1 = true := htrue
  simp only [r, remapBlockNmbm, if_neg htables, hok, hentry, true_and, if_true]
  by_cases hpos : copyLen > 0
  · simp only [if_pos hpos, if_true, if_neg hne.symm]
  · simp only [if_neg hpos, if_true]

end

/-! ### Remapping -/

/-- After a remapping each page that could be read before and is below the copied length reads back with the same data and
    out-of-band bytes if and only if the copy of the block was harmless. For NMBM, this is so when each call of `nmbm_map_block`
    found a good block among the two top ones of the spare region. -/
theorem remap_survives_iff (c : Pages) :
    (∀ (g : V2.Chip) (env : V2.Env Block) (s : V2.State Block) (block : Nat) (copyLen : Int),
      V2.Kept g s.words s.bmtBlkIdx → g.poolLba ≤ g.tableSize → block < g.poolLba →
      (mappingBlockInRange g.toGeometry block).isSome →
      let r := V2.remapBlock g (withCopy c env) s block (s.words block) copyLen
      r.1 = true → (∀ old, (env.erase (r.2.words block) old).2 = .erased) →
      (Survives c (s.flash (s.words block)) (r.2.flash (V2.getMappingBlockIndex g r.2.words block)) copyLen ↔
        Harmless c (s.flash (s.words block)) copyLen)) ∧
    (∀ (chip : Nmbm.Chip) (maxRatio maxReservedBlocks : Nat) (emptyPageEccOk forceCreate : Bool) (n : Nand) (s : Nmbm.State)
      (ops : List Nmbm.Op) (tables : Nat → Block → Block) (flash : Nat → Block) (block mappedBlock : Nat) (copyLen : Int),
      Nmbm.createNew (Nmbm.freshState chip maxRatio maxReservedBlocks emptyPageEccOk forceCreate n) = (true, s) →
      let r := remapBlockNmbm c tables (Nmbm.run s ops) flash block mappedBlock copyLen
      r.1 = true → (∀ ev ∈ r.2.1.trace, ev.SkipsAtMost 1) →
      ∃ pb, Nmbm.getMappingBlockIndex r.2.1.ni block = some pb ∧
        (Survives c (flash mappedBlock) (r.2.2 pb.toNat) copyLen ↔ Harmless c (flash mappedBlock) copyLen)) := by
  constructor
  · intro g env s block copyLen hkept hfit hblock hrange r htrue herase
    exact survives_remapped (remapBlock_block hkept hfit hblock hrange htrue herase)
  · intro chip maxRatio maxReservedBlocks emptyPageEccOk forceCreate n s ops tables flash block mappedBlock copyLen hcreate r htrue hskip
    have hbefore : ∀ ev ∈ (Nmbm.run s ops).trace, ev.SkipsAtMost 1 := fun ev hev =>
      hskip ev ((Nmbm.remapBlock_layout (Nmbm.run_layout (Nmbm.createNew_layout hcreate) ops).1 block mappedBlock copyLen.toNat).2.mem hev)
    have hstore := (Nmbm.createNew_store hcreate (Nmbm.formed_freshState ..)).run ops
    obtain ⟨pb, hmap, hblock⟩ := remapBlockNmbm_block (Nmbm.run_inv hcreate rfl hbefore) hstore.formed htrue hskip
    exact ⟨pb, hmap, survives_remapped hblock⟩

/-- Blocks of four pages with one out-of-band byte for each of them. -/
def fourPages : Pages := { count := 4, pgSize := 64, oobSize := 4, emptyOk := true }

/-- Surroundings in which nothing fails. -/
def calm : V2.Env Block :=
  { erase := fun _ _ => (true, .erased), writeBmt := fun _ _ old => (true, old), copy := fun dest _ _ => dest }

/-- The tables of the small chip, and a block 0 whose pages hold these. -/
def smallState (first : Block) : V2.State Block where
  words := (V2.scanBadBlocks V2.small (fun b => b ≠ 2) fun _ => 0xffff).words
  bmtBlkIdx := (V2.scanBadBlocks V2.small (fun b => b ≠ 2) fun _ => 0xffff).bmtBlkIdx
  flash b := if b = 0 then first else .erased

theorem kept_smallState (first : Block) : V2.Kept V2.small (smallState first).words (smallState first).bmtBlkIdx := by
  have hok : (V2.scanBadBlocks V2.small (fun b => b ≠ 2) fun _ => 0xffff).ok = true := by decide
  exact ((V2.scanned_iff (by decide) _ hok).mpr (by decide)).kept (by decide)

/-- A block with one readable page in front. -/
def onePage (oob : UInt8) : Block := fun p => if p = 0 then .data (List.replicate 64 0) (List.replicate 4 oob) else .unreadable

/-- Logical block 1 of a small chip with NMBM goes bad. -/
def smallRemap : Bool × Nmbm.State × (Nat → Block) :=
  remapBlockNmbm fourPages (fun _ old => old) (Nmbm.run (Nmbm.createNew (Nmbm.freshState Nmbm.smallChip 8 0 true false (Nmbm.erasedNand [20]))).2
    [.remap 0 0 0]) (fun _ => onePage 0xff) 1 1 256

set_option maxRecDepth 100000 in
theorem remap_survives_small :
    (Survives fourPages (onePage 0xff)
        ((V2.remapBlock V2.small (withCopy fourPages calm) (smallState (onePage 0xff)) 0 ((smallState (onePage 0xff)).words 0) 256).2.flash
          (V2.getMappingBlockIndex V2.small
            (V2.remapBlock V2.small (withCopy fourPages calm) (smallState (onePage 0xff)) 0 ((smallState (onePage 0xff)).words 0) 256).2.words 0)) 256 ↔
      Harmless fourPages (onePage 0xff) 256) ∧
    ∃ pb, Nmbm.getMappingBlockIndex smallRemap.2.1.ni 1 = some pb ∧
      (Survives fourPages (onePage 0xff) (smallRemap.2.2 pb.toNat) 256 ↔ Harmless fourPages (onePage 0xff) 256) := by
  obtain ⟨hv2, hnmbm⟩ := remap_survives_iff fourPages
  refine ⟨hv2 V2.small calm (smallState (onePage 0xff)) 0 256 (kept_smallState _) (by decide) (by decide) (by decide)
    (by decide) fun _ => rfl, ?_⟩
  obtain ⟨h1, h2, h3⟩ : (Nmbm.createNew (Nmbm.freshState Nmbm.smallChip 8 0 true false (Nmbm.erasedNand [20]))).1 = true ∧
      smallRemap.1 = true ∧ ∀ ev ∈ smallRemap.2.1.trace, ev.SkipsAtMost 1 := by decide
  exact hnmbm Nmbm.smallChip 8 0 true false (Nmbm.erasedNand [20]) _ [.remap 0 0 0] (fun _ old => old) (fun _ => onePage 0xff) 1 1 256
    (Nmbm.eq_of_fst h1) h2 h3

/-- The out-of-band bytes of a page are lost. -/
theorem remap_not_survives : ¬∀ (c : Pages) (g : V2.Chip) (env : V2.Env Block) (s : V2.State Block) (block : Nat) (copyLen : Int),
    V2.Kept g s.words s.bmtBlkIdx → g.poolLba ≤ g.tableSize → block < g.poolLba → (mappingBlockInRange g.toGeometry block).isSome →
    let r := V2.remapBlock g (withCopy c env) s block (s.words block) copyLen
    r.1 = true → (∀ old, (env.erase (r.2.words block) old).2 = .erased) →
    Survives c (s.flash (s.words block)) (r.2.flash (V2.getMappingBlockIndex g r.2.words block)) copyLen := by
  intro h
  have hkept := kept_smallState (onePage 0)
  have htrue : (V2.remapBlock V2.small (withCopy fourPages calm) (smallState (onePage 0)) 0 ((smallState (onePage 0)).words 0) 256).1 = true := by
    decide
  have hsurvives := h fourPages V2.small calm (smallState (onePage 0)) 0 256 hkept (by decide) (by decide) (by decide) htrue fun _ => rfl
  have hharmless := (survives_remapped (remapBlock_block hkept (by decide) (by decide) (by decide) htrue fun _ => rfl)).mp hsurvives
  exact absurd (hharmless 0 (by decide) (by decide) (List.replicate 64 0) (List.replicate 4 0) (by decide)).1 (by decide)

end RainWrt.Bmt
