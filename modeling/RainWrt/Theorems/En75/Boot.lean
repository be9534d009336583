import RainWrt.Theorems.En75.Calls
import RainWrt.Theorems.En75.Chip
import RainWrt.Theorems.En75.Table

/-! What the EN75 driver loads from a chip on which nothing fails. -/

namespace RainWrt.En75

/-! ### Scan -/

/-- What the scan finds in a block. -/
def Chip.found (c : Chip) (pgSize b : Nat) : Found := classify (some (c.peek pgSize b 0))

/-- The blocks from `cursor` down to `stop`. -/
def descending (cursor stop : Nat) : List Nat := (List.range (cursor + 1 - stop)).map fun i => cursor - i

theorem mem_descending {cursor stop b : Nat} : b ∈ descending cursor stop ↔ stop ≤ b ∧ b ≤ cursor := by
  simp only [descending, List.mem_map, List.mem_range]
  constructor
  · rintro ⟨i, hi, rfl⟩
    omega
  · intro h
    exact ⟨cursor - b, by omega, by omega⟩

theorem descending_self (b : Nat) : descending b b = [b] := by
  rw [descending, Nat.add_sub_cancel_left]
  rfl

theorem descending_succ {cursor stop : Nat} (h : stop ≤ cursor) : descending (cursor + 1) stop = (cursor + 1) :: descending cursor stop := by
  rw [descending, descending, show cursor + 1 + 1 - stop = (cursor + 1 - stop) + 1 by omega, List.range_succ_eq_map, List.map_cons, List.map_map]
  congr 1
  refine List.map_congr_left fun i _ => ?_
  simp only [Function.comp_apply]
  omega

theorem nodup_descending (cursor stop : Nat) : (descending cursor stop).Nodup := by
  rw [descending, List.nodup_map_iff_inj_on List.nodup_range]
  intro i hi j hj he
  have h1 := List.mem_range.mp hi
  have h2 := List.mem_range.mp hj
  omega

/-- The number of good blocks with one more block. -/
def countGood (bad : Bool) (good : Nat) : Nat := if bad then good else good + 1

/-- Where a scan stops that sees these bad blocks, 0 if it does not. -/
def stopAt (bad : Nat → Bool) (required : Nat) : Nat → Nat → Nat
  | 0, _ => 0
  | cursor + 1, good =>
    if countGood (bad (cursor + 1)) good ≥ required then cursor + 1 else stopAt bad required cursor (countGood (bad (cursor + 1)) good)

theorem stopAt_le (bad : Nat → Bool) (required cursor good : Nat) : stopAt bad required cursor good ≤ cursor := by
  induction cursor generalizing good with
  | zero => exact Nat.le_refl _
  | succ cursor ih =>
    unfold stopAt
    split
    · exact Nat.le_refl _
    · exact (ih _).trans (Nat.le_succ _)

/-- Only the blocks that are scanned decide where the scan stops. -/
theorem stopAt_congr {bad bad' : Nat → Bool} {required cursor good : Nat} (hpos : stopAt bad required cursor good ≠ 0)
    (h : ∀ b, stopAt bad required cursor good ≤ b → b ≤ cursor → bad' b = bad b) : stopAt bad' required cursor good = stopAt bad required cursor good := by
  induction cursor generalizing good with
  | zero => rfl
  | succ cursor ih =>
    have hle := stopAt_le bad required (cursor + 1) good
    have hb := h (cursor + 1) hle (Nat.le_refl _)
    unfold stopAt at hpos h ⊢
    rw [hb]
    split
    · rfl
    · rename_i hg
      rw [if_neg hg] at hpos h
      exact ih hpos fun b h1 h2 => h b h1 (h2.trans (Nat.le_succ _))

/-- The blocks of a list, recorded one after the other. -/
def recordAll (f : Nat → Found) (l : List Nat) (ctx : Ctx) : Ctx := l.foldl (fun ctx b => (f b).record ctx b) ctx

theorem only_readTry (b tries : Nat) : Proc.Only (fun q => q = .read b 0) (readTry b tries) := by
  induction tries with
  | zero => exact Proc.only_pure _
  | succ tries ih =>
    refine Proc.Only.bind (p := read b 0) (Proc.only_ask.mpr rfl) fun r => ?_
    cases r with
    | error e => exact ih
    | ok r => exact Proc.only_pure _

/-- The scan only reads. -/
theorem only_scanFrom (cursor good : Nat) (ctx : Ctx) : Proc.Only (fun q => ∃ b, q = .read b 0) (scanFrom cursor good ctx) := by
  induction cursor generalizing good ctx with
  | zero => exact Proc.only_pure _
  | succ cursor ih =>
    refine ((only_readTry _ _).mono fun q hq => ⟨_, hq⟩).bind fun r => ?_
    dsimp only
    split
    · exact Proc.only_pure _
    · exact ih _ _

section
variable {t : Trace} {g : Nat → Option (Bytes × Bytes)}

/-- Every read of a block gives the same. -/
def Gives (g : Nat → Option (Bytes × Bytes)) (t : Trace) : Prop :=
  ∀ (b : Nat) (r : Except Int (Bytes × Bytes)), (⟨.read b 0, r⟩ : Proc.Event Op Answer) ∈ t → r.toOption = g b

theorem gives_append {t' : Trace} : Gives g (t ++ t') ↔ Gives g t ∧ Gives g t' := by
  constructor
  · intro h
    exact ⟨fun b r he => h b r (List.mem_append_left _ he), fun b r he => h b r (List.mem_append_right _ he)⟩
  · rintro ⟨h, h'⟩ b r he
    exact (List.mem_append.mp he).elim (h b r) (h' b r)

theorem readTry_gives {b tries : Nat} {r : Option (Bytes × Bytes)} (hpos : 0 < tries) (h : Proc.Runs (readTry b tries) t r) (hg : Gives g t) : r = g b := by
  induction tries generalizing t with
  | zero => cases hpos
  | succ tries ih =>
    obtain ⟨t₁, t₂, a, rfl, h1, k⟩ := Proc.runs_bind.mp h
    obtain rfl := Proc.runs_ask.mp h1
    obtain ⟨hg₁, hg₂⟩ := gives_append.mp hg
    have ha : a.toOption = g b := hg₁ b a (List.mem_singleton_self _)
    cases a with
    | ok a =>
      obtain ⟨-, rfl⟩ := Proc.runs_pure.mp k
      exact ha
    | error e =>
      rcases tries with _ | tries
      · obtain ⟨-, rfl⟩ := Proc.runs_pure.mp k
        exact ha
      · exact ih (Nat.succ_pos _) k hg₂

/-- What the scan leaves, as a function of what it reads. -/
theorem scanFrom_gives {cursor good stop : Nat} {ctx ctx' : Ctx} (h : Proc.Runs (scanFrom cursor good ctx) t (ctx', stop)) (hg : Gives g t) :
    stop = stopAt (fun b => (classify (g b)).status = .bad) (requiredGoodBlocks ctx.totalBlks) cursor good ∧
      (stop ≠ 0 → ctx' = recordAll (fun b => classify (g b)) (descending cursor stop) ctx) := by
  induction cursor generalizing good ctx t with
  | zero =>
    obtain ⟨-, h0⟩ := Proc.runs_pure.mp h
    cases h0
    exact ⟨rfl, fun h => absurd rfl h⟩
  | succ cursor ih =>
    obtain ⟨t₁, t₂, r, rfl, h1, k⟩ := Proc.runs_bind.mp h
    obtain ⟨hg₁, hg₂⟩ := gives_append.mp hg
    obtain rfl := readTry_gives (by decide) h1 hg₁
    have htot : ((classify (g (cursor + 1))).record ctx (cursor + 1)).totalBlks = ctx.totalBlks := by
      cases classify (g (cursor + 1)) <;> rfl
    have hcount : (classify (g (cursor + 1))).count good = countGood (decide ((classify (g (cursor + 1))).status = .bad)) good := by
      unfold Found.count countGood
      by_cases hb : (classify (g (cursor + 1))).status = .bad
      · simp [hb]
      · simp [hb]
    dsimp only at k
    rw [htot, hcount] at k
    unfold stopAt
    split at k
    · rename_i henough
      obtain ⟨rfl, h0⟩ := Proc.runs_pure.mp k
      cases h0
      refine ⟨by rw [if_pos henough], fun _ => ?_⟩
      rw [descending_self]
      rfl
    · rename_i hmore
      obtain ⟨hstop, hctx⟩ := ih k hg₂
      rw [htot] at hstop
      refine ⟨by rw [if_neg hmore]; exact hstop, fun hne => ?_⟩
      have hle : stop ≤ cursor := by rw [hstop]; exact stopAt_le _ _ _ _
      rw [hctx hne, descending_succ hle]
      rfl

end

section
variable {c : Chip} {pgSize : Nat} {t : Trace}

/-- A bad block, for the scan. -/
def Chip.isBad (c : Chip) (pgSize b : Nat) : Bool := (c.found pgSize b).status = .bad

/-- The blocks of a list, recorded one after the other. -/
def Chip.recorded (c : Chip) (pgSize : Nat) (l : List Nat) (ctx : Ctx) : Ctx := l.foldl (fun ctx b => (c.found pgSize b).record ctx b) ctx

/-- Where nothing fails and nothing is written, every read gives what stands there. -/
theorem gives_faultless (hr : ∀ e ∈ t, ∃ b p, e.1 = .read b p) (hf : c.Faultless pgSize t) : Gives (fun b => some (c.peek pgSize b 0)) t := by
  induction t generalizing c with
  | nil => exact fun b r he => nomatch he
  | cons e t ih =>
    obtain ⟨hans, hrest⟩ := hf
    have hafter : c.after e.1 = c := by
      obtain ⟨b, p, hq⟩ := hr e List.mem_cons_self
      rw [hq]
      rfl
    rw [hafter] at hrest
    intro b r he
    rcases List.mem_cons.mp he with rfl | he
    · rw [show r = .ok (c.peek pgSize b 0) from hans]
      rfl
    · exact ih (fun e he => hr e (List.mem_cons_of_mem _ he)) hrest b r he

/-- What the scan leaves, as a function of the chip. -/
theorem scanFrom_faultless {cursor good stop : Nat} {ctx ctx' : Ctx} (h : Proc.Runs (scanFrom cursor good ctx) t (ctx', stop)) (hf : c.Faultless pgSize t) :
    stop = stopAt (c.isBad pgSize) (requiredGoodBlocks ctx.totalBlks) cursor good ∧ (∀ e ∈ t, ∃ b p, e.1 = .read b p) ∧
      (stop ≠ 0 → ctx' = c.recorded pgSize (descending cursor stop) ctx) := by
  have hreads : ∀ e ∈ t, ∃ b p, e.1 = .read b p := fun e he => by
    obtain ⟨b, hq⟩ := (only_scanFrom cursor good ctx).runs h e he
    exact ⟨b, 0, hq⟩
  obtain ⟨hstop, hctx⟩ := scanFrom_gives h (gives_faultless hreads hf)
  exact ⟨hstop, hreads, hctx⟩

/-! ### Recorded blocks -/

/-- The last of the blocks that hold something decides. -/
def lastSome {α : Type} (f : Nat → Option α) (l : List Nat) (a : α) : α := l.foldl (fun a b => (f b).getD a) a

def Found.bbt? : Found → Option BbtTable
  | .bbt t => some t
  | _ => none

def Found.bmt? : Found → Option BmtTable
  | .bmt t => some t
  | _ => none

theorem recordAll_eq (f : Nat → Found) (l : List Nat) (ctx : Ctx) : recordAll f l ctx =
    { ctx with
      bbt := lastSome (fun b => (f b).bbt?) l ctx.bbt
      bmt := lastSome (fun b => (f b).bmt?) l ctx.bmt
      rblocks := ctx.rblocks ++ l.map fun b => ⟨b, (f b).status⟩ } := by
  induction l generalizing ctx with
  | nil => simp [recordAll, lastSome]
  | cons b l ih =>
    change recordAll f l ((f b).record ctx b) = _
    rw [ih]
    cases hfound : f b with
    | bad | mapped | available | needErase => simp [Found.record, Found.store, lastSome, hfound, Found.bbt?, Found.bmt?]
    | bbt t => simp [Found.record, Found.store, lastSome, hfound, Found.bbt?, Found.bmt?]
    | bmt t => simp [Found.record, Found.store, lastSome, hfound, Found.bbt?, Found.bmt?]

theorem recorded_eq (c : Chip) (pgSize : Nat) (l : List Nat) (ctx : Ctx) : c.recorded pgSize l ctx =
    { ctx with
      bbt := lastSome (fun b => (c.found pgSize b).bbt?) l ctx.bbt
      bmt := lastSome (fun b => (c.found pgSize b).bmt?) l ctx.bmt
      rblocks := ctx.rblocks ++ l.map fun b => ⟨b, (c.found pgSize b).status⟩ } := recordAll_eq _ _ _

/-! ### Single blocks -/

section
variable {c' : Chip} {b : Nat}

theorem found_congr (h : c' b 0 = c b 0) : c'.found pgSize b = c.found pgSize b := by
  unfold Chip.found Chip.peek
  rw [h]

theorem byteAt_range_map (f : Nat → UInt8) {n k : Nat} (h : k < n) : byteAt ((List.range n).map f) k = f k := by
  rw [byteAt, List.getD_eq_getElem _ _ (by simpa using h), List.getElem_map, List.getElem_range]

theorem byteAt_fdm (c : Chip) (pgSize b : Nat) {k : Nat} (h : k < 4) : byteAt (c.peek pgSize b 0).2 k = (c b 0).oob k := byteAt_range_map _ h

/-- A mark beside the data makes a block a mapped one. -/
theorem found_marked (h0 : (c b 0).oob 0 = 0xff) (h1 : (c b 0).oob 1 = 0xff) (h2 : (c b 0).oob 2 ≠ 0xff ∨ (c b 0).oob 3 ≠ 0xff) :
    c.found pgSize b = .mapped := by
  have hgood : fdmIsBad (c.peek pgSize b 0).2 = .good := by
    unfold fdmIsBad
    rw [byteAt_fdm c pgSize b (by decide), byteAt_fdm c pgSize b (by decide), if_pos ⟨h0, h1⟩]
  have hmapped : fdmIsMapped (c.peek pgSize b 0).2 = true := by
    unfold fdmIsMapped
    rw [byteAt_fdm c pgSize b (by decide), byteAt_fdm c pgSize b (by decide), byteAt_fdm c pgSize b (by decide), byteAt_fdm c pgSize b (by decide),
      if_neg (by simp [h0, h1])]
    simpa using h2
  change (if fdmIsBad (c.peek pgSize b 0).2 ≠ .good then Found.bad else if fdmIsMapped (c.peek pgSize b 0).2 then .mapped else _) = _
  rw [if_neg (by simp [hgood]), if_pos hmapped]

/-- Without a mark the data decide. -/
theorem found_unmarked (h : ∀ k < 4, (c b 0).oob k = 0xff) : c.found pgSize b =
    match tryParseBbt (c.peek pgSize b 0).1 with
    | some t => .bbt t
    | none =>
      match tryParseBmt (c.peek pgSize b 0).1 with
      | some t => .bmt t
      | none => if blockIsErased (c.peek pgSize b 0).1 (c.peek pgSize b 0).2 then .available else .needErase := by
  have hgood : fdmIsBad (c.peek pgSize b 0).2 = .good := by
    unfold fdmIsBad
    rw [byteAt_fdm c pgSize b (by decide), byteAt_fdm c pgSize b (by decide), if_pos ⟨h 0 (by decide), h 1 (by decide)⟩]
  have hmapped : fdmIsMapped (c.peek pgSize b 0).2 = false := by
    unfold fdmIsMapped
    rw [byteAt_fdm c pgSize b (by decide), byteAt_fdm c pgSize b (by decide), byteAt_fdm c pgSize b (by decide), byteAt_fdm c pgSize b (by decide),
      if_neg (by simp [h 0 (by decide), h 1 (by decide)])]
    simp [h 2 (by decide), h 3 (by decide)]
  change (if fdmIsBad (c.peek pgSize b 0).2 ≠ .good then Found.bad else if fdmIsMapped (c.peek pgSize b 0).2 then .mapped else _) = _
  rw [if_neg (by simp [hgood]), if_neg (by simp [hmapped])]
  rfl

theorem bytesAt_map_range (f : Nat → UInt8) {n count : Nat} (h : count ≤ n) : bytesAt ((List.range n).map f) 0 count = (List.range count).map f := by
  refine List.map_congr_left fun i hi => ?_
  have := List.mem_range.mp hi
  rw [Nat.zero_add, byteAt_range_map f (by omega)]

/-- An erased block is free. -/
theorem found_erased (h : c b 0 = .erased) : c.found pgSize b = .available := by
  have hdata : (c.peek pgSize b 0).1 = (List.range pgSize).map fun _ => 0xff := by rw [Chip.peek, h]; rfl
  have hbbt : tryParseBbt (c.peek pgSize b 0).1 = none := by
    rcases hp : tryParseBbt (c.peek pgSize b 0).1 with _ | t
    · rfl
    · obtain ⟨hlen, hsig⟩ := tryParseBbt_eq_some hp
      rw [hdata, List.length_map, List.length_range] at hlen
      rw [hdata, bytesAt_map_range _ (by unfold BbtTable.byteSize at hlen; omega)] at hsig
      exact absurd hsig (by decide)
  have hbmt : tryParseBmt (c.peek pgSize b 0).1 = none := by
    rcases hp : tryParseBmt (c.peek pgSize b 0).1 with _ | t
    · rfl
    · have hlen := (tryParseBmt_eq_some hp).1
      have hsig := (tryParseBmt_eq_some hp).2
      unfold tryParseBmt at hp
      rw [if_neg (by omega)] at hp
      dsimp only at hp
      rw [hdata, List.length_map, List.length_range] at hlen
      have : (BmtTable.ofBytes (c.peek pgSize b 0).1).signature = (List.range 3).map fun _ => 0xff := by
        change bytesAt (c.peek pgSize b 0).1 0 3 = _
        rw [hdata, bytesAt_map_range _ (by unfold BmtTable.byteSize at hlen; omega)]
      rw [if_pos (by rw [this]; decide)] at hp
      cases hp
  have herased : blockIsErased (c.peek pgSize b 0).1 (c.peek pgSize b 0).2 = true := by
    have hfdm : bytesAt (c.peek pgSize b 0).2 0 4 = [0xff, 0xff, 0xff, 0xff] := by rw [Chip.peek, h]; rfl
    unfold blockIsErased
    rw [hdata, hfdm]
    simp
  rw [found_unmarked fun k _ => by rw [h]; rfl, hbbt, hbmt]
  dsimp only
  rw [if_pos herased]

/-- A table that was written to a free block is found there. -/
theorem found_table {t : BmtTable} (hsig : t.signature = BmtTable.bmtSignature) (hsum : t.checksum = t.bmtChecksum t.size.toNat)
    (hlen : BmtTable.byteSize ≤ pgSize) (hoob : ∀ k < 4, (c b 0).oob k = 0xff) (hdata : ∀ k < BmtTable.byteSize, (c b 0).data k = byteAt t.bytes k) :
    c.found pgSize b = .bmt t := by
  have hbyte : ∀ k < BmtTable.byteSize, byteAt (c.peek pgSize b 0).1 k = byteAt t.bytes k := by
    intro k hk
    rw [← hdata k hk]
    exact byteAt_range_map _ (by omega)
  have hparse : tryParseBmt (c.peek pgSize b 0).1 = some t := tryParseBmt_of_bytes hsig hsum (by rw [Chip.peek]; simpa using hlen) hbyte
  have hbbt : tryParseBbt (c.peek pgSize b 0).1 = none := by
    rcases hp : tryParseBbt (c.peek pgSize b 0).1 with _ | t'
    · rfl
    · obtain ⟨-, hs⟩ := tryParseBbt_eq_some hp
      have h0 : byteAt (c.peek pgSize b 0).1 0 = 0x42 := by
        have : (BmtTable.ofBytes (c.peek pgSize b 0).1).signature = BmtTable.bmtSignature := by
          rw [BmtTable.ofBytes_congr hbyte, BmtTable.ofBytes_bytes, hsig]
        have h1 : bytesAt (c.peek pgSize b 0).1 0 3 = [0x42, 0x4d, 0x54] := this
        simp only [bytesAt, List.range_succ, List.range_zero, List.nil_append, List.map_cons, List.map_nil, List.cons_append, List.cons.injEq] at h1
        exact h1.1
      simp only [bytesAt, List.range_succ, List.range_zero, List.nil_append, List.map_cons, List.map_nil, List.cons_append,
        BbtTable.bbtSignature, List.cons.injEq] at hs
      rw [Nat.zero_add, h0] at hs
      exact absurd hs.1 (by decide)
  rw [found_unmarked hoob, hbbt, hparse]

theorem classify_eq_bmt {data fdm : Bytes} {t : BmtTable} (h : classify (some (data, fdm)) = .bmt t) : tryParseBmt data = some t := by
  unfold classify at h
  dsimp only at h
  by_cases h1 : fdmIsBad fdm ≠ .good
  · rw [if_pos h1] at h
    cases h
  rw [if_neg h1] at h
  by_cases h2 : fdmIsMapped fdm = true
  · rw [if_pos h2] at h
    cases h
  rw [if_neg h2] at h
  rcases hp : tryParseBbt data with _ | t'
  · rw [hp] at h
    rcases hq : tryParseBmt data with _ | t'
    · rw [hq] at h
      dsimp only at h
      split at h
      · cases h
      · cases h
    · rw [hq] at h
      cases h
      rfl
  · rw [hp] at h
    cases h

theorem found_bmt_signature {t : BmtTable} (h : c.found pgSize b = .bmt t) : t.signature = BmtTable.bmtSignature ∧ BmtTable.byteSize ≤ pgSize := by
  have hparse : tryParseBmt ((List.range pgSize).map (c b 0).data) = some t := classify_eq_bmt h
  obtain ⟨hlen, hsig⟩ := tryParseBmt_eq_some hparse
  exact ⟨hsig, by simpa using hlen⟩

end

end

/-! ### Start -/

/-- What the scan of a chip leaves. -/
def Chip.scanned (c : Chip) (totalBlks pgSize blkPages : Nat) : Ctx :=
  let stop := stopAt (c.isBad pgSize) (requiredGoodBlocks totalBlks) (totalBlks - 1) 0
  { c.recorded pgSize (descending (totalBlks - 1) stop) { totalBlks := totalBlks, pgSize := pgSize, blkPages := blkPages } with reserveAreaBegin := stop }

/-- A scanned chip that `pub_init` takes as it is: both tables are there, the list of the device node is at
    most an assertion, and nothing is left to be erased. -/
structure Accepted (np : DeviceNode) (ctx : Ctx) : Prop where
  stops : ctx.reserveAreaBegin ≠ 0
  size : np.assertReserveSize.any (· ≠ (ctx.reserveBlockCount : Int)) = false
  bbt : ctx.bbt.version ≠ 0
  bmt : ctx.bmt.version ≠ 0
  factory : ∀ blocks, np.factoryBadblocks = some blocks → np.canWriteFactoryBbt = false ∧ (∀ b ∈ blocks, b.toNat < ctx.reserveAreaBegin) ∧
    blocks.length ≤ maxBbtSize ∧ assertFactory ctx blocks = 0
  pending : ∀ rb ∈ ctx.rblocks, rb.status ≠ .needErase

section
variable {np : DeviceNode} {ctx ctx' : Ctx} {t : Trace} {ret : Int}

/-- The ranges that are added. -/
theorem addRemapRange_eq (ctx : Ctx) (b n : Nat) : ∃ l, ∀ bbt bmt rblocks bd md cw, addRemapRange ⟨ctx.totalBlks, ctx.pgSize, ctx.blkPages, bbt, bmt, rblocks,
    ctx.reserveAreaBegin, ctx.canRemapRanges, bd, md, cw⟩ b n = ⟨ctx.totalBlks, ctx.pgSize, ctx.blkPages, bbt, bmt, rblocks, ctx.reserveAreaBegin, l, bd, md, cw⟩ := by
  by_cases h : b + n > ctx.reserveAreaBegin
  · exact ⟨ctx.canRemapRanges, fun _ _ _ _ _ _ => if_pos h⟩
  · exact ⟨ctx.canRemapRanges ++ [(b, b + n)], fun _ _ _ _ _ _ => if_neg h⟩

/-- Without the property on the device no partition may be remapped. -/
theorem foldl_addPartition (hn : np.enableRemap = false) (l : List (Nat × Nat)) (ctx : Ctx) : l.foldl (addPartition np) ctx = ctx := by
  induction l with
  | nil => rfl
  | cons a l ih =>
    have : addPartition np ctx a = ctx := by
      unfold addPartition
      dsimp only
      rw [if_pos (by simp [hn])]
    rw [List.foldl_cons, this, ih]

/-- The configuration concerns the ranges and the right to write the BBT alone. -/
theorem configure_eq (np : DeviceNode) (ctx : Ctx) : ∃ l, ∀ bmt rblocks, configure np { ctx with bmt := bmt, rblocks := rblocks } =
    { ctx with bmt := bmt, rblocks := rblocks, canRemapRanges := l, canWriteFactoryBbt := ctx.canWriteFactoryBbt || np.canWriteFactoryBbt } := by
  unfold configure addRemapRanges
  by_cases hn : np.enableRemap = true
  · obtain ⟨l, hl⟩ := addRemapRange_eq ctx 0 ctx.reserveAreaBegin
    refine ⟨l, fun bmt rblocks => ?_⟩
    rw [if_pos hn]
    exact hl ctx.bbt bmt rblocks ctx.bbtDirty ctx.bmtDirty (ctx.canWriteFactoryBbt || np.canWriteFactoryBbt)
  · refine ⟨ctx.canRemapRanges, fun bmt rblocks => ?_⟩
    rw [if_neg hn, foldl_addPartition (by simpa using hn)]

/-- Nothing is pending, so nothing is erased. -/
theorem erasePendings_idle {l l' : List BlockInfo} (hl : ∀ rb ∈ l, rb.status ≠ .needErase) (h : Proc.Runs (erasePendings ctx l) t l') : t = [] ∧ l' = l := by
  induction l generalizing l' t with
  | nil => exact Proc.runs_pure.mp h
  | cons rb l ih =>
    obtain ⟨t₁, t₂, rb₁, rfl, h1, k⟩ := Proc.runs_bind.mp h
    obtain ⟨t₃, t₄, l₁, rfl, h2, k'⟩ := Proc.runs_bind.mp k
    obtain ⟨rfl, rfl⟩ := Proc.runs_pure.mp k'
    obtain ⟨rfl, rfl⟩ := ih (fun rb hm => hl rb (List.mem_cons_of_mem _ hm)) h2
    unfold erasePending at h1
    rw [if_pos (by simpa using hl rb List.mem_cons_self)] at h1
    obtain ⟨rfl, rfl⟩ := Proc.runs_pure.mp h1
    exact ⟨rfl, rfl⟩

theorem wErasePending_idle (hl : ∀ rb ∈ ctx.rblocks, rb.status ≠ .needErase) (h : Proc.Runs (wErasePending ctx) t ctx') : t = [] ∧ ctx' = ctx := by
  obtain ⟨t₁, t₂, l, rfl, h1, k⟩ := Proc.runs_bind.mp h
  obtain ⟨rfl, rfl⟩ := Proc.runs_pure.mp k
  obtain ⟨rfl, rfl⟩ := erasePendings_idle hl h1
  exact ⟨rfl, rfl⟩

/-- With nothing to write and nothing to erase the tables are in step. -/
theorem wSyncTables_idle (hl : ∀ rb ∈ ctx.rblocks, rb.status ≠ .needErase) (hbmt : ctx.bmtDirty = 0) (hbbt : ctx.bbtDirty = 0)
    (h : Proc.Runs (wSyncTables ctx) t (ctx', ret)) : t = [] ∧ ctx' = ctx := by
  obtain ⟨t₁, u₁, ctx₁, rfl, h1, k₁⟩ := Proc.runs_bind.mp h
  obtain ⟨rfl, rfl⟩ := wErasePending_idle hl h1
  obtain ⟨t₂, u₂, ⟨ctx₂, ret₂⟩, rfl, h2, k₂⟩ := Proc.runs_bind.mp k₁
  unfold syncBmt at h2
  rw [if_pos hbmt] at h2
  obtain ⟨rfl, h0⟩ := Proc.runs_pure.mp h2
  cases h0
  dsimp only at k₂
  rw [if_neg (by simp)] at k₂
  obtain ⟨t₃, u₃, ⟨ctx₃, ret₃⟩, rfl, h3, k₃⟩ := Proc.runs_bind.mp k₂
  unfold syncBbt at h3
  rw [if_pos (.inl hbbt)] at h3
  obtain ⟨rfl, h0⟩ := Proc.runs_pure.mp h3
  cases h0
  dsimp only at k₃
  rw [if_neg (by simp)] at k₃
  obtain ⟨t₄, u₄, ctx₄, rfl, h4, k₄⟩ := Proc.runs_bind.mp k₃
  obtain ⟨rfl, rfl⟩ := wErasePending_idle hl h4
  obtain ⟨rfl, h0⟩ := Proc.runs_pure.mp k₄
  cases h0
  exact ⟨rfl, rfl⟩

/-- An accepted chip is loaded as it was scanned, and only read. -/
theorem pubInit_faultless {c : Chip} {totalBlks pgSize blkPages : Nat} (ha : Accepted np (c.scanned totalBlks pgSize blkPages))
    (h : Proc.Runs (pubInit np totalBlks pgSize blkPages) t (ctx', ret)) (hf : c.Faultless pgSize t) :
    ctx' = configure np (c.scanned totalBlks pgSize blkPages) ∧ ret = 0 ∧ ∀ e ∈ t, ∃ b p, e.1 = .read b p := by
  obtain ⟨t₁, u₁, ⟨ctx₁, ret₁⟩, rfl, h1, k₁⟩ := Proc.runs_bind.mp h
  obtain ⟨hf₁, hf'⟩ := Chip.faultless_append.mp hf
  -- the scan
  obtain ⟨t₂, u₂, ⟨ctx₂, ret₂⟩, rfl, h2, k₂⟩ := Proc.runs_bind.mp h1
  obtain ⟨hf₂, -⟩ := Chip.faultless_append.mp hf₁
  obtain ⟨t₃, u₃, ⟨ctx₃, stop⟩, rfl, h3, k₃⟩ := Proc.runs_bind.mp h2
  obtain ⟨hf₃, -⟩ := Chip.faultless_append.mp hf₂
  obtain ⟨hstop, hreads, hctx⟩ := scanFrom_faultless h3 hf₃
  have hne : stop ≠ 0 := by rw [hstop]; exact ha.stops
  dsimp only at k₃
  rw [if_neg hne] at k₃
  obtain ⟨rfl, h0⟩ := Proc.runs_pure.mp k₃
  cases h0
  have hscan : { ctx₃ with reserveAreaBegin := stop } = c.scanned totalBlks pgSize blkPages := by
    rw [hctx hne, hstop]
    rfl
  dsimp only at k₂
  rw [hscan, if_neg (by simp), if_neg (by rw [ha.size]; simp)] at k₂
  -- the tables and the list
  obtain ⟨l, hl⟩ := configure_eq np (c.scanned totalBlks pgSize blkPages)
  have hconf := hl (c.scanned totalBlks pgSize blkPages).bmt (c.scanned totalBlks pgSize blkPages).rblocks
  have hrec := recorded_eq c pgSize (descending (totalBlks - 1) (stopAt (c.isBad pgSize) (requiredGoodBlocks totalBlks) (totalBlks - 1) 0))
    { totalBlks := totalBlks, pgSize := pgSize, blkPages := blkPages }
  have hblank : (c.scanned totalBlks pgSize blkPages).canWriteFactoryBbt = false ∧ (c.scanned totalBlks pgSize blkPages).bmtDirty = 0 ∧
      (c.scanned totalBlks pgSize blkPages).bbtDirty = 0 := by
    unfold Chip.scanned
    dsimp only
    rw [hrec]
    exact ⟨rfl, rfl, rfl⟩
  generalize hctx' : configure np (c.scanned totalBlks pgSize blkPages) = cfg at k₂ ⊢
  change configure np (c.scanned totalBlks pgSize blkPages) = _ at hconf
  rw [hctx'] at hconf
  obtain ⟨t₄, u₄, ⟨ctx₄, ret₄⟩, rfl, h4, k₄⟩ := Proc.runs_bind.mp k₂
  unfold ensureTables at h4
  rw [if_pos (by rw [hconf]; exact ha.bbt), if_neg (by rw [hconf]; exact ha.bmt)] at h4
  obtain ⟨rfl, h0⟩ := Proc.runs_pure.mp h4
  cases h0
  dsimp only at k₄
  rw [if_neg (by simp)] at k₄
  have hcheck : u₄ = [] ∧ ctx₁ = cfg ∧ ret₁ = 0 := by
    unfold checkFactory at k₄
    rcases hfb : np.factoryBadblocks with _ | blocks
    · rw [hfb] at k₄
      obtain ⟨rfl, h0⟩ := Proc.runs_pure.mp k₄
      cases h0
      exact ⟨rfl, rfl, rfl⟩
    · obtain ⟨hcan, huser, hlen, hassert⟩ := ha.factory blocks hfb
      rw [hfb] at k₄
      dsimp only at k₄
      unfold wFactoryBadblocks at k₄
      have hassert' : assertFactory cfg blocks = 0 := by
        rw [hconf]
        exact hassert
      rw [if_neg (by rw [hconf]; exact ha.bbt), if_neg (by rw [hconf]; exact ha.bmt), if_neg (by rw [hconf]; simpa using huser), if_neg (by omega),
        if_pos (by rw [hconf]; simp [hblank.1, hcan]), hassert'] at k₄
      obtain ⟨rfl, h0⟩ := Proc.runs_pure.mp k₄
      cases h0
      exact ⟨rfl, rfl, rfl⟩
  obtain ⟨rfl, rfl, rfl⟩ := hcheck
  dsimp only at k₁
  rw [if_neg (by simp)] at k₁
  obtain ⟨t₅, u₅, ⟨ctx₅, ret₅⟩, rfl, h5, k₅⟩ := Proc.runs_bind.mp k₁
  obtain ⟨rfl, rfl⟩ := wSyncTables_idle (by rw [hconf]; exact ha.pending) (by rw [hconf]; exact hblank.2.1) (by rw [hconf]; exact hblank.2.2) h5
  obtain ⟨rfl, h0⟩ := Proc.runs_pure.mp k₅
  cases h0
  refine ⟨rfl, rfl, ?_⟩
  simpa using hreads

end

end RainWrt.En75
