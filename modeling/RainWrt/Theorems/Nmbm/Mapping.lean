import RainWrt.Nmbm.Create
import RainWrt.Theorems.Nmbm.Layout

/-! Where user data lies over whole runs. A logical block is mapped below `mgmt_start_ba` or to a spare
    block that was taken from the top of the spare region. `nmbm_map_block` takes the first good block
    from `mapping_blocks_top_ba` down but lowers the bound by one only, so what a run keeps depends on how
    many bad blocks such a walk skips. -/

namespace RainWrt.Nmbm

/-! ### Runs -/

/-- The operations of a run after creation. -/
inductive Op where
  | remap (block mappedBlock copyLen : Nat)
  | update
  deriving DecidableEq, Repr

def step (s : State) : Op → State
  | .remap block mappedBlock copyLen => (remapBlock s block mappedBlock copyLen).2
  | .update => (updateInfoTable s).2

def run (s : State) (ops : List Op) : State := ops.foldl step s

/-- A new instance on chip `n`. -/
def freshState (c : Chip) (maxRatio maxReservedBlocks : Nat) (emptyPageEccOk forceCreate : Bool) (n : Nand) : State where
  ni := initStructure c maxRatio maxReservedBlocks emptyPageEccOk forceCreate
  nand := n

/-- When `nmbm_map_block` is called, the first good block is among the `d + 1` top ones of the spare
    region, or there is none left. -/
def Event.SkipsAtMost (d : Nat) : Event → Prop
  | .map ni =>
    blockWalkDesc ni ni.mappingBlocksTopBa 0 ni.mappingBlocksBa = none ∨
      ∃ k < d + 1, ni.good (ni.mappingBlocksTopBa - k) = true
  | _ => True

instance (d : Nat) (e : Event) : Decidable (e.SkipsAtMost d) :=
  match e with
  | .map _ => inferInstanceAs (Decidable (_ ∨ _))
  | .mgmt _ _ => isTrue trivial
  | .stateChanged _ => isTrue trivial
  | .cacheGenerated => isTrue trivial
  | .clean => isTrue trivial

/-- No two logical blocks of the data area have the same entry. -/
def MappingInjective (ni : Instance) : Prop :=
  ∀ i < ni.dataBlockCount, ∀ j < ni.dataBlockCount, ni.blockMapping[i]? = ni.blockMapping[j]? → i = j

instance (ni : Instance) : Decidable (MappingInjective ni) :=
  inferInstanceAs (Decidable (∀ i < _, ∀ j < _, _ → _))

/-- The block that is handed to the chip holds neither user data nor the signature. -/
def Event.Safe : Event → Prop
  | .mgmt b ni =>
    (∀ i < ni.dataBlockCount, ∀ e ∈ ni.blockMapping[i]?, e.toNat ≠ b) ∧ b ≠ ni.signatureBa
  | _ => True

instance (e : Event) : Decidable e.Safe :=
  match e with
  | .mgmt b ni =>
    -- entries are words: the search for an instance must not end at one that tries all of them
    have : Decidable (∀ i < ni.dataBlockCount, ∀ e ∈ ni.blockMapping[i]?, e.toNat ≠ b) :=
      @Nat.decidableBallLT _ _ fun i _ => Option.decidableForallMem (ni.blockMapping[i]?)
    inferInstanceAs (Decidable (_ ∧ _))
  | .map _ => isTrue trivial
  | .stateChanged _ => isTrue trivial
  | .cacheGenerated => isTrue trivial
  | .clean => isTrue trivial

/-- Every logical block is mapped below the management area, or to a block above the spare region less
    its top `d` blocks. -/
structure Placed (d : Nat) (ni : Instance) : Prop where
  length : ni.blockMapping.length = ni.blockCount
  data_le : ni.dataBlockCount ≤ ni.mgmtStartBa
  start_le : ni.mgmtStartBa ≤ ni.mappingBlocksTopBa
  top_lt : ni.mappingBlocksTopBa < ni.signatureBa
  sig_lt : ni.signatureBa < ni.blockCount
  entry : ∀ i < ni.dataBlockCount, ∀ e ∈ ni.blockMapping[i]?,
    e.toNat < ni.mgmtStartBa ∨ (ni.mappingBlocksTopBa < e.toNat + d ∧ e.toNat < ni.signatureBa)

section
variable {d : Nat} {a b : Instance}

theorem Placed.of_same (h : Placed d a) (hs : SameMap a b) : Placed d b where
  length := by rw [hs.blockMapping, h.length, Instance.blockCount, Instance.blockCount, hs.chip]
  data_le := by rw [hs.dataBlockCount, hs.mgmtStartBa]; exact h.data_le
  start_le := by rw [hs.mgmtStartBa, hs.mappingBlocksTopBa]; exact h.start_le
  top_lt := by rw [hs.mappingBlocksTopBa, hs.signatureBa]; exact h.top_lt
  sig_lt := by rw [hs.signatureBa, Instance.blockCount, hs.chip]; exact h.sig_lt
  entry i hi e he := by
    rw [hs.blockMapping] at he
    rw [hs.dataBlockCount] at hi
    rw [hs.mgmtStartBa, hs.mappingBlocksTopBa, hs.signatureBa]
    exact h.entry i hi e he

theorem MappingInjective.of_same (h : MappingInjective a) (hs : SameMap a b) : MappingInjective b := by
  unfold MappingInjective
  rw [hs.blockMapping, hs.dataBlockCount]
  exact h

/-- Lowering the top of the spare region keeps the placement. -/
theorem Placed.lower (h : Placed d a) {top : Nat} (hs : a.mgmtStartBa ≤ top) (ht : top ≤ a.mappingBlocksTopBa) :
    Placed d { a with mappingBlocksTopBa := top } where
  length := h.length
  data_le := h.data_le
  start_le := hs
  top_lt := Nat.lt_of_le_of_lt ht h.top_lt
  sig_lt := h.sig_lt
  entry i hi e he := by
    rcases h.entry i hi e he with hlt | ⟨hgt, hlt⟩
    · exact .inl hlt
    · exact .inr ⟨Nat.lt_of_le_of_lt ht hgt, hlt⟩

end

/-! ### Mapping a block -/

/-- The state in which `nmbm_map_block` looks for a spare block. -/
def noteMap (s : State) : State := { s with trace := .map s.ni :: s.trace }

/-- The instance after logical block `lb` was mapped to `pb`. -/
def mapped (ni : Instance) (lb pb : Nat) : Instance :=
  { ni with
    blockMapping := ni.blockMapping.set lb (.ofNat pb)
    mappingBlocksTopBa := ni.mappingBlocksTopBa - 1
    blockMappingChanged := ni.blockMappingChanged + 1 }

/-- What `nmbm_map_block` can do. -/
theorem mapBlock_cases (s : State) (lb : Nat) :
    (s.ni.mappingBlocksBa = s.ni.mappingBlocksTopBa ∧ mapBlock s lb = (false, noteMap s)) ∨
    (blockWalkDesc s.ni s.ni.mappingBlocksTopBa 0 s.ni.mappingBlocksBa = none ∧
      mapBlock s lb = (false, { (updateInfoTable (noteMap s)).2 with
        ni.mappingBlocksTopBa := (updateInfoTable (noteMap s)).2.ni.mappingBlocksBa })) ∨
    (∃ pb, s.ni.mappingBlocksBa ≠ s.ni.mappingBlocksTopBa ∧
      blockWalkDesc s.ni s.ni.mappingBlocksTopBa 0 s.ni.mappingBlocksBa = some pb ∧
      mapBlock s lb = (true, { noteMap s with ni := mapped s.ni lb pb })) := by
  unfold mapBlock
  dsimp only
  by_cases he : s.ni.mappingBlocksBa = s.ni.mappingBlocksTopBa
  · exact .inl ⟨he, if_pos he⟩
  · rw [if_neg he]
    rcases hw : blockWalkDesc s.ni s.ni.mappingBlocksTopBa 0 s.ni.mappingBlocksBa with _ | pb
    · exact .inr (.inl ⟨rfl, rfl⟩)
    · exact .inr (.inr ⟨pb, he, rfl, rfl⟩)

section
variable {d : Nat} {ni : Instance}

/-- The spare block that is taken: at most `d` below the top of the spare region, and above its bottom. -/
theorem walk_range (hL : Layout ni) (hP : Placed d ni) {pb : Nat} (hskip : (Event.map ni).SkipsAtMost d)
    (hw : blockWalkDesc ni ni.mappingBlocksTopBa 0 ni.mappingBlocksBa = some pb) :
    ni.mappingBlocksBa < pb ∧ pb ≤ ni.mappingBlocksTopBa ∧ ni.mappingBlocksTopBa ≤ pb + d := by
  obtain ⟨h1, h2, h3⟩ := blockWalkDesc_some hw
  have hlim : walkLimit ni ni.mappingBlocksBa = ni.mappingBlocksBa := by
    have := hL.le_top
    have := hP.top_lt
    have := hP.sig_lt
    unfold walkLimit
    rw [if_neg (by omega)]
  rw [hlim] at h1
  refine ⟨h1, h2, ?_⟩
  rcases hskip with hnone | ⟨k, hk, hg⟩
  · rw [hnone] at hw
    cases hw
  · have := walkDescLoop_highest hw hg (Nat.sub_le _ _)
    omega

theorem toNat_ofNat_block (hP : Placed d ni) {pb : Nat} (h : pb ≤ ni.mappingBlocksTopBa) : (UInt32.ofNat pb).toNat = pb := by
  have h1 := hP.top_lt
  have h2 := hP.sig_lt
  have h3 := ni.chip.totalBlks_lt
  have h4 : ni.blockCount = ni.chip.totalBlks := rfl
  rw [UInt32.toNat_ofNat', Nat.mod_eq_of_lt (by omega)]

/-- Mapping logical block `lb` of the data area, or the one just behind it, keeps the placement. -/
theorem Placed.map (hL : Layout ni) (hP : Placed d ni) {lb pb dbc : Nat} (hskip : (Event.map ni).SkipsAtMost d)
    (hw : blockWalkDesc ni ni.mappingBlocksTopBa 0 ni.mappingBlocksBa = some pb)
    (hdbc : dbc ≤ ni.mgmtStartBa) (hlb : ∀ i < dbc, i ≠ lb → i < ni.dataBlockCount) :
    Placed d { mapped ni lb pb with dataBlockCount := dbc } := by
  obtain ⟨h1, h2, h3⟩ := walk_range hL hP hskip hw
  have hs := hL.start_le
  have ht := hL.le_top
  have htl := hP.top_lt
  have hpb := toNat_ofNat_block hP h2
  refine ⟨by simp [mapped, Instance.blockCount, hP.length], hdbc, ?_, ?_, hP.sig_lt, fun i hi e he => ?_⟩
  · show ni.mgmtStartBa ≤ ni.mappingBlocksTopBa - 1
    omega
  · show ni.mappingBlocksTopBa - 1 < ni.signatureBa
    omega
  · show _ < ni.mgmtStartBa ∨ (ni.mappingBlocksTopBa - 1 < _ ∧ _ < ni.signatureBa)
    have he' : (ni.blockMapping.set lb (.ofNat pb))[i]? = some e := he
    rw [List.getElem?_set] at he'
    by_cases hi' : i = lb
    · subst hi'
      rw [if_pos rfl] at he'
      split at he'
      · cases he'
        right
        omega
      · cases he'
    · rw [if_neg (Ne.symm hi')] at he'
      rcases hP.entry i (hlb i hi hi') e he' with hlt | ⟨hgt, hlt⟩
      · exact .inl hlt
      · exact .inr ⟨by omega, hlt⟩

/-- Without skipped blocks the new entry differs from all others. -/
theorem MappingInjective.map (hL : Layout ni) (hP : Placed 0 ni) (hI : MappingInjective ni) {lb pb dbc : Nat}
    (hskip : (Event.map ni).SkipsAtMost 0) (hw : blockWalkDesc ni ni.mappingBlocksTopBa 0 ni.mappingBlocksBa = some pb)
    (hlen : lb < ni.blockMapping.length) (hlb : ∀ i < dbc, i ≠ lb → i < ni.dataBlockCount) :
    MappingInjective { mapped ni lb pb with dataBlockCount := dbc } := by
  obtain ⟨h1, h2, h3⟩ := walk_range hL hP hskip hw
  have hs := hL.start_le
  have hpb := toNat_ofNat_block hP h2
  have hget : ∀ i, (ni.blockMapping.set lb (.ofNat pb))[i]? =
      if lb = i then some (UInt32.ofNat pb) else ni.blockMapping[i]? := by
    intro i
    rw [List.getElem?_set]
    by_cases h : lb = i
    · rw [if_pos h, if_pos h, if_pos hlen]
    · rw [if_neg h, if_neg h]
  -- the entry of another logical block is not the spare block that was taken
  have hother : ∀ i < dbc, i ≠ lb → ni.blockMapping[i]? ≠ some (UInt32.ofNat pb) := by
    intro i hi hne he
    rcases hP.entry i (hlb i hi hne) _ he with h | ⟨h, -⟩ <;> rw [hpb] at h <;> omega
  intro i hi j hj hij
  have hij' : (ni.blockMapping.set lb (.ofNat pb))[i]? = (ni.blockMapping.set lb (.ofNat pb))[j]? := hij
  rw [hget, hget] at hij'
  by_cases h : lb = i <;> by_cases h' : lb = j
  · omega
  · rw [if_pos h, if_neg h'] at hij'
    exact absurd hij'.symm (hother j hj (Ne.symm h'))
  · rw [if_neg h, if_pos h'] at hij'
    exact absurd hij' (hother i hi (Ne.symm h))
  · rw [if_neg h, if_neg h'] at hij'
    exact hI i (hlb i hi (Ne.symm h)) j (hlb j hj (Ne.symm h')) hij'

end

/-! ### The invariant -/

/-- What holds in a run in which `nmbm_map_block` skips at most `d` blocks. -/
structure MapInv (d : Nat) (s : State) : Prop where
  layout : Layout s.ni
  placed : Placed d s.ni
  injective : d = 0 → MappingInjective s.ni
  safe : d ≤ 1 → ∀ e ∈ s.trace, e.Safe

/-- Table maintenance hands no block of user data to the chip. -/
theorem UpdateEvent.safe {d : Nat} {ni : Instance} {e : Event} (hd : d ≤ 1) (hP : Placed d ni) (he : UpdateEvent ni e) :
    e.Safe := by
  rcases he with (⟨b, rfl⟩ | ⟨b, ni', rfl, hlo, hhi, hs⟩) | rfl | rfl
  · trivial
  · have hP' := hP.of_same hs
    have htop := hP'.top_lt
    rw [← hs.mgmtStartBa] at hlo
    rw [← hs.mappingBlocksTopBa] at hhi
    refine ⟨fun i hi x hx heq => ?_, by omega⟩
    rcases hP'.entry i hi x hx with h | ⟨h, -⟩ <;> omega
  · trivial
  · trivial

section
variable {d : Nat} {s s' : State}

theorem MapInv.of_maintains (hP : Placed d s.ni) (hI : d = 0 → MappingInjective s.ni) (hS : d ≤ 1 → ∀ e ∈ s.trace, e.Safe)
    (hm : Maintains s s') : MapInv d s' where
  layout := hm.2
  placed := hP.of_same hm.1.same
  injective hd := (hI hd).of_same hm.1.same
  safe hd e he := by
    obtain ⟨evs, ht, hev⟩ := hm.1.trace
    rw [ht] at he
    rcases List.mem_append.mp he with he | he
    · exact (hev e he).safe hd hP
    · exact hS hd e he

theorem MapInv.maintains (h : MapInv d s) (hm : Maintains s s') : MapInv d s' :=
  .of_maintains h.placed h.injective h.safe hm

/-- `s'` comes from `s` by changes of block states and of the chip's content. -/
structure StateStep (s s' : State) : Prop where
  ni : ∃ bs k, s'.ni = { s.ni with blockState := bs, blockStateChanged := k }
  length : s'.ni.blockState.length = s.ni.blockState.length
  trace : ∀ e ∈ s'.trace, e ∈ s.trace ∨ ∃ b, e = .stateChanged b

theorem StateStep.refl (s : State) : StateStep s s := ⟨⟨_, _, rfl⟩, rfl, fun _ he => .inl he⟩

theorem StateStep.trans {s s' s'' : State} (h : StateStep s s') (h' : StateStep s' s'') : StateStep s s'' where
  ni := by
    obtain ⟨bs, k, hk⟩ := h.ni
    obtain ⟨bs', k', hk'⟩ := h'.ni
    exact ⟨bs', k', by rw [hk', hk]⟩
  length := h'.length.trans h.length
  trace e he := by
    rcases h'.trace e he with he | he
    · exact h.trace e he
    · exact .inr he

theorem FlashStep.states {b : Nat} (h : FlashStep b s s') : StateStep s s' :=
  ⟨⟨_, _, by rw [h.ni]⟩, by rw [h.ni], fun e he => .inl (by rwa [h.trace] at he)⟩

theorem StateStep.sameMap (h : StateStep s s') : SameMap s.ni s'.ni := by
  obtain ⟨bs, k, hk⟩ := h.ni
  rw [hk]
  exact ⟨rfl, rfl, rfl, rfl, rfl, rfl, rfl, rfl, rfl, rfl⟩

theorem MapInv.states (h : MapInv d s) (hs : StateStep s s') : MapInv d s' := by
  refine ⟨?_, h.placed.of_same hs.sameMap, fun hd => (h.injective hd).of_same hs.sameMap, fun hd e he => ?_⟩
  · obtain ⟨bs, k, hk⟩ := hs.ni
    rw [hk]
    exact ⟨h.layout.start_le, h.layout.le_top, h.layout.main, h.layout.backup, h.layout.backup_le⟩
  · rcases hs.trace e he with he | ⟨b, rfl⟩
    · exact h.safe hd e he
    · trivial

theorem setBlockState_ni (s : State) (ba : Nat) (st : UInt32) : ∃ k,
    (setBlockState s ba st).ni =
      { s.ni with blockState := setBlockStateRaw s.ni.blockState ba st, blockStateChanged := k } := by
  unfold setBlockState
  dsimp only
  split
  · exact ⟨_, rfl⟩
  · exact ⟨_, rfl⟩

theorem setBlockState_trace (s : State) (ba : Nat) (st : UInt32) :
    (setBlockState s ba st).trace = .stateChanged ba :: s.trace ∨ (setBlockState s ba st).trace = s.trace := by
  unfold setBlockState
  dsimp only
  split
  · exact .inl rfl
  · exact .inr rfl

theorem setBlockState_states (s : State) (ba : Nat) (st : UInt32) : StateStep s (setBlockState s ba st) := by
  obtain ⟨k, hk⟩ := setBlockState_ni s ba st
  refine ⟨⟨_, k, hk⟩, by rw [hk, length_setBlockStateRaw], fun e he => ?_⟩
  rcases setBlockState_trace s ba st with ht | ht <;> rw [ht] at he
  · rcases List.mem_cons.mp he with rfl | he
    · exact .inr ⟨ba, rfl⟩
    · exact .inl he
  · exact .inl he

/-! ### Mapping keeps the invariant -/

/-- Mapping a block keeps the layout, and the record of what happened grows. -/
theorem mapBlock_layout (hL : Layout s.ni) (lb : Nat) :
    Layout (mapBlock s lb).2.ni ∧ .map s.ni :: s.trace <:+ (mapBlock s lb).2.trace := by
  rcases mapBlock_cases s lb with ⟨-, h⟩ | ⟨-, h⟩ | ⟨pb, hne, -, h⟩ <;> rw [h]
  · exact ⟨hL, List.suffix_rfl⟩
  · obtain ⟨hL', ht⟩ := updateInfoTable_layout (s := noteMap s) hL
    exact ⟨⟨hL'.start_le, Nat.le_refl _, hL'.main, hL'.backup, hL'.backup_le⟩, ht⟩
  · have hle := hL.le_top
    refine ⟨⟨hL.start_le, ?_, hL.main, hL.backup, hL.backup_le⟩, List.suffix_rfl⟩
    show s.ni.mappingBlocksBa ≤ s.ni.mappingBlocksTopBa - 1
    omega

theorem MapInv.noteMap (h : MapInv d s) : MapInv d (noteMap s) where
  layout := h.layout
  placed := h.placed
  injective := h.injective
  safe hd e he := by
    rcases List.mem_cons.mp he with rfl | he
    · trivial
    · exact h.safe hd e he

/-- A mapping that fails. -/
theorem MapInv.mapBlock_false (h : MapInv d s) {lb : Nat} {s' : State} (hm : mapBlock s lb = (false, s')) : MapInv d s' := by
  rcases mapBlock_cases s lb with ⟨-, hc⟩ | ⟨-, hc⟩ | ⟨pb, -, -, hc⟩ <;> rw [hm] at hc
  · rw [(Prod.mk.inj hc).2]
    exact h.noteMap
  · have hu := h.noteMap.maintains (updateInfoTable_maintains h.noteMap.layout)
    rw [(Prod.mk.inj hc).2]
    have hL := hu.layout
    exact ⟨⟨hL.start_le, Nat.le_refl _, hL.main, hL.backup, hL.backup_le⟩, hu.placed.lower hL.start_le hL.le_top,
      hu.injective, hu.safe⟩
  · cases hc

/-- A mapping that succeeds, of a block of the data area or of the one just behind it. -/
theorem MapInv.mapBlock_true (h : MapInv d s) {lb dbc : Nat} {s' : State} (hm : mapBlock s lb = (true, s'))
    (hskip : (Event.map s.ni).SkipsAtMost d) (hlen : lb < s.ni.blockCount) (hdbc : dbc ≤ s.ni.mgmtStartBa)
    (hlb : ∀ i < dbc, i ≠ lb → i < s.ni.dataBlockCount) : MapInv d { s' with ni.dataBlockCount := dbc } := by
  obtain ⟨hL, -⟩ := mapBlock_layout h.layout lb
  rw [hm] at hL
  rcases mapBlock_cases s lb with ⟨-, hc⟩ | ⟨-, hc⟩ | ⟨pb, -, hw, hc⟩ <;> rw [hm] at hc
  · cases hc
  · cases hc
  · obtain rfl := (Prod.mk.inj hc).2
    refine ⟨⟨hL.start_le, hL.le_top, hL.main, hL.backup, hL.backup_le⟩, h.placed.map h.layout hskip hw hdbc hlb, fun hd => ?_,
      h.noteMap.safe⟩
    subst hd
    exact (h.injective rfl).map h.layout h.placed hskip hw (by rw [h.placed.length]; exact hlen) hlb

end

/-! ### Operations -/

section
variable {d : Nat} {s : State}

theorem onBlock_nandCopy (pgSize dest src maxOffset k p : Nat) (n : Nand) :
    Nand.OnBlock dest n (nandCopy pgSize dest src maxOffset k p n) := by
  induction k generalizing p n with
  | zero => exact .refl _ n
  | succ k ih =>
    unfold nandCopy
    split
    · exact .refl _ n
    · have hq := Nand.quiet_read n src p pgSize
      rcases hr : n.read pgSize src p with ⟨_ | data, n₁⟩ <;> rw [hr] at hq <;> dsimp only
      · exact .of_quiet hq
      · have hp := Nand.onBlock_program n₁ dest p data
        rcases hr₂ : n₁.program dest p data with ⟨_ | _, n₂⟩ <;> rw [hr₂] at hp <;> dsimp only
        · exact (Nand.OnBlock.of_quiet hq).trans hp
        · exact ((Nand.OnBlock.of_quiet hq).trans hp).trans (ih ..)

/-- What `remap_block_nmbm` can do. The copy goes to the block that was just mapped. -/
theorem remapBlock_cases (s : State) (block mappedBlock copyLen : Nat) :
    (s.ni.dataBlockCount ≤ block ∧ remapBlock s block mappedBlock copyLen = (false, s)) ∨
    (∃ s₁, block < s.ni.dataBlockCount ∧ mapBlock (setBlockState s mappedBlock blockStBad) block = (false, s₁) ∧
      remapBlock s block mappedBlock copyLen = (false, s₁)) ∨
    (∃ s₁ n, block < s.ni.dataBlockCount ∧ mapBlock (setBlockState s mappedBlock blockStBad) block = (true, s₁) ∧
      Nand.OnBlock (s₁.ni.blockMapping.getD block 0).toNat s₁.nand n ∧
      remapBlock s block mappedBlock copyLen = (true, (updateInfoTable { s₁ with nand := n }).2)) := by
  unfold remapBlock
  by_cases hb : block ≥ s.ni.dataBlockCount
  · exact .inl ⟨hb, if_pos hb⟩
  · rw [if_neg hb]
    rcases hr : mapBlock (setBlockState s mappedBlock blockStBad) block with ⟨_ | _, s₁⟩ <;> dsimp only
    · exact .inr (.inl ⟨s₁, by omega, rfl, rfl⟩)
    · refine .inr (.inr ⟨s₁, _, by omega, rfl, ?_, rfl⟩)
      have he := Nand.onBlock_erase s₁.nand (s₁.ni.blockMapping.getD block 0).toNat
      split
      · exact he.trans (onBlock_nandCopy ..)
      · exact he

theorem setBlockState_layout (hL : Layout s.ni) (ba : Nat) (st : UInt32) :
    Layout (setBlockState s ba st).ni ∧ s.trace <:+ (setBlockState s ba st).trace := by
  constructor
  · obtain ⟨k, hk⟩ := setBlockState_ni s ba st
    rw [hk]
    exact ⟨hL.start_le, hL.le_top, hL.main, hL.backup, hL.backup_le⟩
  · rcases setBlockState_trace s ba st with h | h
    · rw [h]
      exact List.suffix_cons _ _
    · exact ⟨[], h.symm⟩

theorem remapBlock_layout (hL : Layout s.ni) (block mappedBlock copyLen : Nat) :
    Layout (remapBlock s block mappedBlock copyLen).2.ni ∧ s.trace <:+ (remapBlock s block mappedBlock copyLen).2.trace := by
  obtain ⟨hL', ht⟩ := setBlockState_layout hL mappedBlock blockStBad
  obtain ⟨h1, h2⟩ := mapBlock_layout hL' block
  have h3 := ht.trans ((List.suffix_cons _ _).trans h2)
  rcases remapBlock_cases s block mappedBlock copyLen with ⟨-, h⟩ | ⟨s₁, -, hm, h⟩ | ⟨s₁, n, -, hm, -, h⟩ <;> rw [h]
  · exact ⟨hL, List.suffix_rfl⟩
  · rw [hm] at h1 h3
    exact ⟨h1, h3⟩
  · rw [hm] at h1 h3
    obtain ⟨h4, h5⟩ := updateInfoTable_layout (s := { s₁ with nand := n }) h1
    exact ⟨h4, h3.trans h5⟩

theorem MapInv.remapBlock (h : MapInv d s) {block mappedBlock copyLen : Nat}
    (hskip : ∀ e ∈ (remapBlock s block mappedBlock copyLen).2.trace, e.SkipsAtMost d) :
    MapInv d (remapBlock s block mappedBlock copyLen).2 := by
  have h₁ := h.states (setBlockState_states s mappedBlock blockStBad)
  have hL := mapBlock_layout h₁.layout block
  rcases remapBlock_cases s block mappedBlock copyLen with ⟨-, hr⟩ | ⟨s₁, -, hm, hr⟩ | ⟨s₁, n, hlt, hm, -, hr⟩ <;> rw [hr] at hskip ⊢
  · exact h
  · exact h₁.mapBlock_false hm
  · rw [hm] at hL
    obtain ⟨k, hk⟩ := setBlockState_ni s mappedBlock blockStBad
    have hd : (setBlockState s mappedBlock blockStBad).ni.dataBlockCount = s.ni.dataBlockCount := by rw [hk]
    -- the update that follows keeps the record of the mapping
    have hmap := hskip _ ((updateInfoTable_layout (s := { s₁ with nand := n }) hL.1).2.mem (hL.2.mem List.mem_cons_self))
    have hP := h₁.placed
    have hcount : block < (setBlockState s mappedBlock blockStBad).ni.blockCount := by
      have h1 := hP.start_le
      have h2 := hP.top_lt
      have h3 := hP.sig_lt
      have h4 := hP.data_le
      omega
    have h₂ := h₁.mapBlock_true hm hmap hcount hP.data_le fun i hi _ => hi
    have hdata : s₁.ni.dataBlockCount = (setBlockState s mappedBlock blockStBad).ni.dataBlockCount := by
      rcases mapBlock_cases (setBlockState s mappedBlock blockStBad) block with ⟨-, hc⟩ | ⟨-, hc⟩ | ⟨pb, -, -, hc⟩ <;>
        rw [hm] at hc
      · cases hc
      · cases hc
      · rw [(Prod.mk.inj hc).2]
        rfl
    rw [← hdata] at h₂
    exact MapInv.maintains (s := { s₁ with nand := n }) ⟨h₂.layout, h₂.placed, h₂.injective, h₂.safe⟩
      (updateInfoTable_maintains hL.1)

/-! ### Runs -/

theorem step_layout (hL : Layout s.ni) (op : Op) : Layout (step s op).ni ∧ s.trace <:+ (step s op).trace := by
  cases op with
  | remap block mappedBlock copyLen => exact remapBlock_layout hL block mappedBlock copyLen
  | update => exact updateInfoTable_layout hL

theorem run_layout (hL : Layout s.ni) (ops : List Op) : Layout (run s ops).ni ∧ s.trace <:+ (run s ops).trace := by
  induction ops generalizing s with
  | nil => exact ⟨hL, List.suffix_rfl⟩
  | cons op ops ih =>
    obtain ⟨h1, h2⟩ := step_layout hL op
    obtain ⟨h3, h4⟩ := ih h1
    exact ⟨h3, h2.trans h4⟩

theorem MapInv.step (h : MapInv d s) {op : Op} (hskip : ∀ e ∈ (step s op).trace, e.SkipsAtMost d) : MapInv d (step s op) := by
  cases op with
  | remap block mappedBlock copyLen => exact h.remapBlock hskip
  | update => exact h.maintains (updateInfoTable_maintains h.layout)

theorem MapInv.run (h : MapInv d s) {ops : List Op} (hskip : ∀ e ∈ (run s ops).trace, e.SkipsAtMost d) :
    MapInv d (run s ops) := by
  induction ops generalizing s with
  | nil => exact h
  | cons op ops ih =>
    have hL := (step_layout h.layout op).1
    exact ih (h.step fun e he => hskip e ((run_layout hL ops).2.mem he)) hskip

end

end RainWrt.Nmbm
