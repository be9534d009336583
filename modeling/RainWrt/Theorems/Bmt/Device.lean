import RainWrt.Theorems.Bmt.Copy
import RainWrt.Theorems.Bmt.Front
import RainWrt.Theorems.Lists

/-! The front end of `mtk_bmt` with the tables of its second version: the upper layers do not notice the blocks that fail, as long as
    those of the pool do not. -/

namespace RainWrt.Bmt

/-! ### Pages -/

namespace Pages
variable {c : Pages} {blk src dest : Block} {o : Nat}

variable {fault : Option (Nat × OobPage)} {n i p : Nat} {dat : Bytes}

end Pages

/-! ### Tables -/

section
variable {g : V2.Chip} {c : Pages} {out : Outside} {t : Nat} {s : V2.State Block}

end

/-! ### The device -/

/-- What holds of the tables in every run; `n` blocks are handed out. The tables stay in block `top`. -/
structure Ready (g : V2.Chip) (n top : Nat) (R : V2.State Block → Prop) (s : Device) : Prop where
  kept : V2.Kept g s.bmt.words s.bmt.bmtBlkIdx
  small : ∀ k ≤ s.bmt.bmtBlkIdx, s.bmt.words.block g k < 2 ^ 16
  -- a block outside the ranges that may be remapped is where it should be
  outside : ∀ b < n, mappingBlockInRange g.toGeometry b = none → s.bmt.words b = b
  top : s.bmt.words.block g s.bmt.bmtBlkIdx = top
  rest : R s.bmt

/-- What the operations below the tables keep. -/
structure Closed (g : V2.Chip) (c : Pages) (out : Outside) (top : Nat) (R : V2.State Block → Prop) : Prop where
  store : ∀ {s pb} (blk : Block), R s → s.words.block g s.bmtBlkIdx = top → pb < top → R { s with flash := fun b => if b = pb then blk else s.flash b }
  remap : ∀ {t s block mappedBlock copyLen s'}, R s → block < g.tableSize → (V2.remapBlock g (withCopy c (out.env t)) s block mappedBlock copyLen).2 = s' →
    s'.bmtBlkIdx = s.bmtBlkIdx → (∀ b, top < b → s'.flash b = s.flash b) → R s'

/-- What can be read of a logical block. -/
def Device.view (c : Pages) (s : Device) (b o : Nat) : Option UInt8 := c.byte (s.bmt.flash (s.bmt.words b)) o

/-- The sizes of a chip, of which `n` blocks are handed out. -/
structure Sizes (g : V2.Chip) (c : Pages) (n : Nat) : Prop where
  fit : g.poolLba ≤ g.tableSize
  blocks : n ≤ g.poolLba
  small : n ≤ 2 ^ 16
  page : 0 < c.pgSize
  block : c.count * c.pgSize = 2 ^ g.blkShift
  empty : c.emptyOk = true

section
variable {g : V2.Chip} {c : Pages} {n top threshold : Nat} {R : V2.State Block → Prop} {out : Outside} {s : Device} {b : Nat}

theorem Ready.mapping (hs : Ready g n top R s) (hsizes : Sizes g c n) (hb : b < n) : (v2Driver g c threshold out).getMappingBlock s b = s.bmt.words b := by
  have hlba := hsizes.blocks
  change ((V2.getMappingBlockIndex g s.bmt.words b : Nat) : Int) = _
  rw [V2.getMappingBlockIndex, if_neg (by omega)]
  split
  · next hnone => rw [hs.outside b hb (Option.isNone_iff_eq_none.mp hnone)]
  · rfl

theorem Ready.tick (hs : Ready g n top R s) : Ready g n top R s.tick := ⟨hs.kept, hs.small, hs.outside, hs.top, hs.rest⟩

/-- Only the content of a block below the tables changes. -/
theorem Ready.store (hs : Ready g n top R s) (hR : Closed g c out top R) {pb : Nat} (hpb : pb < top) (blk : Block) : Ready g n top R (s.store pb blk) :=
  ⟨hs.kept, hs.small, hs.outside, hs.top, hR.store blk hs.rest hs.top hpb⟩

theorem Ready.inj (hs : Ready g n top R s) (hsizes : Sizes g c n) {b' : Nat} (hb : b < n) (hb' : b' < n) (heq : s.bmt.words b = s.bmt.words b') : b = b' :=
  hs.kept.inj b b' (Nat.lt_of_lt_of_le hb hsizes.blocks) (Nat.lt_of_lt_of_le hb' hsizes.blocks) heq

theorem view_store (blk : Block) (o : Nat) : (s.store (s.bmt.words b) blk).view c b o = c.byte blk o := by
  simp [Device.view, Device.store]

/-! ### The laws -/

end

end RainWrt.Bmt
