import RainWrt.Theorems.En75.Crash

/-! What the EN75 driver finds when it starts again after a remap was cut off. -/

namespace RainWrt.En75

/-! ### Which table is found -/

/-- A table is written beside the old ones, which are then erased in the order of the scan: either the old
    table decides, or the new one. -/
theorem lastSome_replaced {α : Type} {f g : Nat → Option α} {l gone : List Nat} {y : Nat} {a new : α} (hl : l.Nodup) (hex : ∃ b ∈ l, f b ≠ none)
    (hy : y ∈ l) (hfy : f y = none) (hgone : gone <+: l.filter fun b => (f b).isSome)
    (hg : ∀ b ∈ l, g b = if b = y then some new else if b ∈ gone then none else f b) : lastSome g l a = new ∨ lastSome g l a = lastSome f l a := by
  obtain ⟨l₁, o, l₂, old, rfl, ho, hn⟩ := exists_last hex
  have hgy : g y = some new := by rw [hg y hy, if_pos rfl]
  have hoy : o ≠ y := by
    rintro rfl
    rw [ho] at hfy
    cases hfy
  have htail : l₂.filter (fun b => (f b).isSome) = [] := by
    rw [List.filter_eq_nil_iff]
    intro b hb
    rw [hn b hb]
    simp
  have hfilter : (l₁ ++ o :: l₂).filter (fun b => (f b).isSome) = (l₁.filter fun b => (f b).isSome) ++ [o] := by
    rw [List.filter_append, List.filter_cons_of_pos (by rw [ho]; rfl), htail]
  rw [hfilter, List.prefix_concat_iff] at hgone
  obtain ⟨-, ho₂, hdis⟩ := List.nodup_append.mp hl
  rcases hgone with rfl | hgone
  · -- all the old tables are gone
    left
    rw [lastSome_of_single (n := y) (fun b hb hne => ?_) hgy, if_pos hy]
    rw [hg b hb, if_neg hne]
    split
    · rfl
    · rename_i hmem
      rw [List.mem_append, List.mem_filter, List.mem_singleton, not_or] at hmem
      rcases List.mem_append.mp hb with hb | hb
      · by_contra hsome
        exact hmem.1 ⟨hb, Option.isSome_iff_ne_none.mpr hsome⟩
      · rcases List.mem_cons.mp hb with rfl | hb
        · exact absurd rfl hmem.2
        · exact hn b hb
  · -- the old table that decides is still there
    have ho' : o ∉ gone := by
      intro hmem
      have := (List.mem_filter.mp (hgone.subset hmem)).1
      exact hdis o this o List.mem_cons_self rfl
    have hgo : g o = some old := by rw [hg o (by simp), if_neg hoy, if_neg ho', ho]
    rw [lastSome_append, lastSome_append]
    change lastSome g l₂ ((g o).getD _) = new ∨ lastSome g l₂ ((g o).getD _) = lastSome f l₂ ((f o).getD _)
    rw [hgo, ho, Option.getD_some, Option.getD_some, lastSome_of_none hn]
    by_cases hy₂ : y ∈ l₂
    · left
      rw [lastSome_of_single (n := y) (fun b hb hne => ?_) hgy, if_pos hy₂]
      rw [hg b (by simp [hb]), if_neg hne, hn b hb, ite_self]
    · right
      rw [lastSome_of_none]
      intro b hb
      have hne : b ≠ y := by
        rintro rfl
        exact hy₂ hb
      rw [hg b (by simp [hb]), if_neg hne, hn b hb, ite_self]

/-! ### Blocks that do not disturb the start -/

/-- Neither bad, nor a BBT, nor left to be erased. -/
def Found.Neutral (f : Found) : Prop := f.status ≠ .bad ∧ f.bbt? = none ∧ f.status ≠ .needErase

theorem neutral_of_status {f : Found} (h : f.status = .available ∨ f.status = .mapped ∨ f.status = .bmt) : f.Neutral := by
  cases f with
  | bad | needErase | bbt => simp [Found.status] at h
  | mapped | available | bmt => exact ⟨nofun, rfl, nofun⟩

section
variable {np : DeviceNode} {c c₁ : Chip} {ctx ctx₁ : Ctx} {m : BmtTable}

/-- Blocks change only from one harmless content to another. -/
theorem survives_of_neutral (h : Consistent np c ctx)
    (hb : ∀ b ∈ ctx.area, c₁.found ctx.pgSize b = c.found ctx.pgSize b ∨ ((c.found ctx.pgSize b).Neutral ∧ (c₁.found ctx.pgSize b).Neutral))
    (hm : lastSome (fun b => (c₁.found ctx.pgSize b).bmt?) ctx.area .blank = m) (hv : m.version ≠ 0) : Survives c c₁ ctx m := by
  refine ⟨fun b hmem => ?_, fun b hmem => ?_, fun b hmem => ?_, hm, hv⟩
  · rcases hb b hmem with hsame | ⟨⟨h1, -, -⟩, ⟨h2, -, -⟩⟩
    · unfold Chip.isBad
      rw [hsame]
    · unfold Chip.isBad
      simp [h1, h2]
  · rcases hb b hmem with hsame | ⟨⟨-, h1, -⟩, ⟨-, h2, -⟩⟩
    · rw [hsame]
    · rw [h1, h2]
  · rcases hb b hmem with hsame | ⟨-, ⟨-, -, h2⟩⟩
    · rw [hsame]
      exact h.pending ⟨b, _⟩ (h.mem_rblocks.mpr ⟨hmem, rfl⟩)
    · exact h2

theorem Consistent.version (h : Consistent np c ctx) : ctx.bmt.version ≠ 0 := by
  have hv := h.accepted.bmt
  rw [congrArg Ctx.bmt (scanned_eq c ctx.totalBlks ctx.pgSize ctx.blkPages), ← h.fields.stop] at hv
  rw [h.fields.bmt]
  exact hv

/-- Some block of the chip holds the BMT. -/
theorem Consistent.exists_bmt (h : Consistent np c ctx) : ∃ b ∈ ctx.area, (c.found ctx.pgSize b).bmt? ≠ none := by
  by_contra hno
  have hnone : ∀ b ∈ ctx.area, (c.found ctx.pgSize b).bmt? = none := fun b hb => by
    by_contra hsome
    exact hno ⟨b, hb, hsome⟩
  have hblank := h.fields.bmt
  rw [lastSome_of_none hnone] at hblank
  exact h.version (by rw [hblank]; rfl)

theorem Consistent.signature (h : Consistent np c ctx) : ctx.bmt.signature = BmtTable.bmtSignature ∧ BmtTable.byteSize ≤ ctx.pgSize := by
  obtain ⟨l₁, o, l₂, x, hl, ho, hn⟩ := exists_last h.exists_bmt
  have hx : ctx.bmt = x := by
    rw [h.fields.bmt, hl, lastSome_append]
    change lastSome _ l₂ (((c.found ctx.pgSize o).bmt?).getD _) = x
    rw [ho, lastSome_of_none hn]
    rfl
  rw [hx]
  cases hfound : c.found ctx.pgSize o with
  | bmt t =>
    rw [hfound] at ho
    obtain rfl := Option.some.inj ho
    exact found_bmt_signature hfound
  | bad | mapped | available | needErase | bbt =>
    rw [hfound] at ho
    cases ho

/-- The state that is loaded keeps the invariant of a state with the same entries. -/
theorem inv_reloaded (hi : ctx₁.Inv) (hr : ctx₁.reserveAreaBegin = ctx.reserveAreaBegin) (he : m.entries = ctx₁.bmt.entries)
    (hm : ∀ e ∈ m.entries, e.dst.toNat ∈ ctx.area ∧ (c₁.found ctx.pgSize e.dst.toNat).status = .mapped) : (ctx.reloaded c₁ m).Inv := by
  refine ⟨?_, fun e hmem => ?_, ?_, fun e hmem => ?_⟩
  · change (m.entries.map BmtEntry.src).Nodup
    rw [he]
    exact hi.src_nodup
  · change e.src.toNat < ctx.reserveAreaBegin
    rw [← hr]
    exact hi.src_user e (he ▸ hmem)
  · change (m.entries.map BmtEntry.dst).Nodup
    rw [he]
    exact hi.dst_nodup
  · obtain ⟨harea, hst⟩ := hm e hmem
    exact List.mem_map.mpr ⟨_, harea, by rw [hst]⟩

theorem Consistent.shaped_reloaded (h : Consistent np c ctx) : (ctx.reloaded c₁ m).Shaped :=
  shaped_of_area h.total h.reserve_lt rfl

/-- The loaded state maps as a state with the same entries and the same factory bad blocks. -/
theorem getMappingBlock_reloaded (hb : ctx₁.bbt.blocks = ctx.bbt.blocks) (hr : ctx₁.reserveAreaBegin = ctx.reserveAreaBegin)
    (he : m.entries = ctx₁.bmt.entries) (v : Nat) : (ctx.reloaded c₁ m).getMappingBlock v = ctx₁.getMappingBlock v := by
  have hbbt : (ctx.reloaded c₁ m).getMappingBlockBbt v = ctx₁.getMappingBlockBbt v := getMappingBlockBbt_congr hb.symm hr.symm v
  have hent : (ctx.reloaded c₁ m).bmt.entries = ctx₁.bmt.entries := he
  unfold Ctx.getMappingBlock
  rw [hbbt, hent]

/-- No two user blocks share a place. -/
theorem getMappingBlock_injective (hs : ctx.Shaped) (hi : ctx.Inv) {v w p : Nat} (hv : ctx.getMappingBlock v = some p) (hw : ctx.getMappingBlock w = some p) :
    v = w := by
  have hplace : ∀ {v : Nat}, ctx.getMappingBlock v = some p → ∃ b, ctx.getMappingBlockBbt v = some b ∧
      ((∃ e ∈ ctx.bmt.entries, e.src.toNat = b ∧ e.dst.toNat = p) ∨ b = p) := by
    intro v hv
    rcases hb : ctx.getMappingBlockBbt v with _ | b
    · unfold Ctx.getMappingBlock at hv
      rw [hb] at hv
      cases hv
    · refine ⟨b, rfl, ?_⟩
      by_cases hex : ∃ e ∈ ctx.bmt.entries, e.src.toNat = b
      · obtain ⟨e, he, hsrc⟩ := hex
        rw [getMappingBlock_of_mem hi hb he hsrc] at hv
        exact .inl ⟨e, he, hsrc, Option.some.inj hv⟩
      · rw [getMappingBlock_of_forall hb fun e he hsrc => hex ⟨e, he, hsrc⟩] at hv
        exact .inr (Option.some.inj hv)
  obtain ⟨b, hb, hcase⟩ := hplace hv
  obtain ⟨b', hb', hcase'⟩ := hplace hw
  have hreserve : ∀ e ∈ ctx.bmt.entries, ctx.reserveAreaBegin ≤ e.dst.toNat := fun e he => (hs.area _ (hi.dst_mapped e he)).1
  have hlt := (getMappingBlockBbt_eq_some.mp hb).2
  have hlt' := (getMappingBlockBbt_eq_some.mp hb').2
  rcases hcase with ⟨e, he, hsrc, hdst⟩ | rfl
  · rcases hcase' with ⟨e', he', hsrc', hdst'⟩ | rfl
    · have heq : e = e' := List.inj_on_of_nodup_map hi.dst_nodup he he' (UInt16.toNat_inj.mp (hdst.trans hdst'.symm))
      rw [heq, hsrc'] at hsrc
      exact getMappingBlockBbt_inj hb (by rw [← hsrc]; exact hb')
    · have := hreserve e he
      omega
  · rcases hcase' with ⟨e', he', hsrc', hdst'⟩ | rfl
    · have := hreserve e' he'
      omega
    · exact getMappingBlockBbt_inj hb hb'

end

/-! ### The remap, cut off -/

section
variable {c : Chip} {t : Trace} {b : Nat}

/-- What is programmed beside the data of a block, and nothing else, leaves its data. -/
theorem run_data (h : ∀ e ∈ t, e.1 ≠ .erase b ∧ ∀ p d o, e.1 = .program b p d o → d = []) (p : Nat) : (c.run t b p).data = (c b p).data := by
  induction t generalizing c with
  | nil => rfl
  | cons e t ih =>
    have hone : (c.after e.1 b p).data = (c b p).data := by
      obtain ⟨h1, h2⟩ := h e List.mem_cons_self
      rcases he : e.1 with blk | ⟨blk, page, data, oob⟩ | _ | _
      · exact congrArg PageBytes.data (Chip.erase_of_ne (fun hb => h1 (by rw [he, hb])) p)
      · by_cases hb : b = blk
        · subst hb
          obtain rfl := h2 page data oob he
          change (Chip.program c b page [] oob b p).data = _
          unfold Chip.program
          split
          · exact Chip.overlay_nil _
          · rfl
        · exact congrArg PageBytes.data (Chip.program_of_ne hb p page data oob)
      · rfl
      · rfl
    change ((c.after e.1).run t b p).data = _
    rw [ih fun e he => h e (List.mem_cons_of_mem _ he), hone]

/-- What is programmed into the data of a block, and nothing else, leaves the bytes beside them. -/
theorem run_oob (h : ∀ e ∈ t, e.1 ≠ .erase b ∧ ∀ p d o, e.1 = .program b p d o → o = []) (p : Nat) : (c.run t b p).oob = (c b p).oob := by
  induction t generalizing c with
  | nil => rfl
  | cons e t ih =>
    have hone : (c.after e.1 b p).oob = (c b p).oob := by
      obtain ⟨h1, h2⟩ := h e List.mem_cons_self
      rcases he : e.1 with blk | ⟨blk, page, data, oob⟩ | _ | _
      · exact congrArg PageBytes.oob (Chip.erase_of_ne (fun hb => h1 (by rw [he, hb])) p)
      · by_cases hb : b = blk
        · subst hb
          obtain rfl := h2 page data oob he
          change (Chip.program c b page data [] b p).oob = _
          unfold Chip.program
          split
          · exact Chip.overlay_nil _
          · rfl
        · exact congrArg PageBytes.oob (Chip.program_of_ne hb p page data oob)
      · rfl
      · rfl
    change ((c.after e.1).run t b p).oob = _
    rw [ih fun e he => h e (List.mem_cons_of_mem _ he), hone]

/-- An erased block that gets a mark is found as a mapped one, whatever data are then programmed. -/
theorem found_mark {pgSize block : Nat} (hblock : block < 65535) (hc : c b 0 = .erased)
    (h : ∀ e ∈ t, e.1 ≠ .erase b ∧ ∀ p d o, e.1 = .program b p d o → o = []) :
    ((c.program b 0 [] (markBytes block)).run t).found pgSize b = .mapped := by
  have hoob : (((c.program b 0 [] (markBytes block)).run t) b 0).oob = overlay (fun _ => 0xff) (markBytes block) := by
    rw [run_oob h]
    unfold Chip.program
    rw [if_pos ⟨rfl, rfl⟩, hc]
    rfl
  have hbyte : ∀ k, (((c.program b 0 [] (markBytes block)).run t) b 0).oob k = (markBytes block).getD k 0xff := fun k => by rw [hoob, Chip.overlay_erased]
  refine found_marked (hbyte 0) (hbyte 1) ?_
  rw [hbyte 2, hbyte 3]
  by_contra hno
  rw [not_or, not_not, not_not] at hno
  have h2 : ((block % 65536) / 256) % 256 = 255 := by
    simpa [markBytes, be16, UInt8.ext_iff, UInt8.toNat_ofNat', UInt16.toNat_ofNat'] using congrArg UInt8.toNat hno.1
  have h3 : block % 256 = 255 := by
    simpa [markBytes, be16, UInt8.toNat_ofNat', UInt16.toNat_ofNat'] using congrArg UInt8.toNat hno.2
  omega

/-- The operations of a remap behind the mark: reads, programs of the replacement, and the mark of the worn block. -/
def Copying (x block : Nat) (e : Proc.Event Op Answer) : Prop :=
  (∃ b p, e.1 = .read b p) ∨ (∃ p d, e.1 = .program x p d []) ∨ e.1 = .program block 0 [] wornBytes

variable {np : DeviceNode} {ctx : Ctx} {x block : Nat} {s : Trace}

theorem Copying.other {e : Proc.Event Op Answer} (h : Copying x block e) (hx : b ≠ x) (hb : b ≠ block) :
    e.1 ≠ .erase b ∧ ∀ p d o, e.1 ≠ .program b p d o := by
  rcases h with ⟨_, _, h⟩ | ⟨p, d, h⟩ | h
  · rw [h]
    exact ⟨nofun, fun _ _ _ => nofun⟩
  · rw [h]
    refine ⟨nofun, fun p d o hq => hx ?_⟩
    injection hq with h1
    exact h1.symm
  · rw [h]
    refine ⟨nofun, fun p d o hq => hb ?_⟩
    injection hq with h1
    exact h1.symm

theorem Copying.replacement {e : Proc.Event Op Answer} (h : Copying x block e) (hx : x ≠ block) :
    e.1 ≠ .erase x ∧ ∀ p d o, e.1 = .program x p d o → o = [] := by
  rcases h with ⟨_, _, h⟩ | ⟨p, d, h⟩ | h
  · rw [h]
    exact ⟨nofun, fun _ _ _ => nofun⟩
  · rw [h]
    refine ⟨nofun, fun p d o hq => ?_⟩
    injection hq with h1 h2 h3 h4
    exact h4.symm
  · rw [h]
    refine ⟨nofun, fun p d o hq => absurd ?_ hx⟩
    injection hq with h1
    exact h1.symm

theorem Copying.worn {e : Proc.Event Op Answer} (h : Copying x block e) (hx : x ≠ block) :
    e.1 ≠ .erase block ∧ ∀ p d o, e.1 = .program block p d o → d = [] := by
  rcases h with ⟨_, _, h⟩ | ⟨p, d, h⟩ | h
  · rw [h]
    exact ⟨nofun, fun _ _ _ => nofun⟩
  · rw [h]
    refine ⟨nofun, fun p d o hq => absurd ?_ hx⟩
    injection hq with h1
  · rw [h]
    refine ⟨nofun, fun p d o hq => ?_⟩
    injection hq with h1 h2 h3 h4
    exact h3.symm

/-- Behind the mark the replacement is a mapped block, and the rest of the reserve area is as it was. -/
theorem found_copying (h : Consistent np c ctx) (hx : ⟨x, .available⟩ ∈ ctx.rblocks) (hblock : block < ctx.reserveAreaBegin)
    (hs : ∀ e ∈ s, Copying x block e) (hb : b ∈ ctx.area) :
    (c.run (programEvent x 0 [] (markBytes block) :: s)).found ctx.pgSize b = if b = x then .mapped else c.found ctx.pgSize b := by
  have harea := h.mem_area.mp hb
  have hxa := h.shaped.area _ hx
  have hlt := h.reserve_lt
  have htot := h.total
  split
  · rename_i hbx
    subst hbx
    refine found_mark (by omega) (h.free _ hx rfl 0) fun e he => ?_
    exact (hs e he).replacement (by omega)
  · rename_i hbx
    refine found_congr ?_
    change ((c.program x 0 [] (markBytes block)).run s) b 0 = c b 0
    rw [Chip.run_of_ne (fun e he => (hs e he).other hbx (by omega)), Chip.program_of_ne hbx]

theorem run_erases (c : Chip) (gone : List Nat) (b p : Nat) : c.run (gone.map eraseEvent) b p = if b ∈ gone then .erased else c b p := by
  induction gone generalizing c with
  | nil => simp
  | cons g gone ih =>
    change (c.erase g).run (gone.map eraseEvent) b p = _
    rw [ih]
    by_cases hmem : b ∈ gone
    · simp [hmem]
    · by_cases hbg : b = g
      · subst hbg
        simp [hmem, Chip.erase_self]
      · simp [hmem, hbg, Chip.erase_of_ne hbg]

/-- The new table is written, and some of the old ones are erased. -/
theorem found_writing {y : Nat} {new : BmtTable} {gone : List Nat} (h : Consistent np c ctx) (hx : ⟨x, .available⟩ ∈ ctx.rblocks)
    (hy : ⟨y, .available⟩ ∈ ctx.rblocks) (hxy : y ≠ x) (hblock : block < ctx.reserveAreaBegin) (hs : ∀ e ∈ s, Copying x block e)
    (hsig : new.signature = BmtTable.bmtSignature) (hsum : new.checksum = new.bmtChecksum new.size.toNat)
    (hgone : ∀ g ∈ gone, (c.found ctx.pgSize g).status = .bmt) (hb : b ∈ ctx.area) :
    (c.run (programEvent x 0 [] (markBytes block) :: s ++ programEvent y 0 new.bytes [] :: gone.map eraseEvent)).found ctx.pgSize b =
      if b = x then .mapped else if b = y then .bmt new else if b ∈ gone then .available else c.found ctx.pgSize b := by
  have hstx : (c.found ctx.pgSize x).status = .available := (h.mem_rblocks.mp hx).2.symm
  have hsty : (c.found ctx.pgSize y).status = .available := (h.mem_rblocks.mp hy).2.symm
  have hxg : x ∉ gone := fun hm => absurd (hstx.symm.trans (hgone x hm)) (by decide)
  have hyg : y ∉ gone := fun hm => absurd (hsty.symm.trans (hgone y hm)) (by decide)
  have hya := h.shaped.area _ hy
  have hlt := h.reserve_lt
  have hcopy := @found_copying c b np ctx x block s h hx hblock hs hb
  generalize hc₁ : c.run (programEvent x 0 [] (markBytes block) :: s) = c₁ at hcopy
  have hrun : c.run (programEvent x 0 [] (markBytes block) :: s ++ programEvent y 0 new.bytes [] :: gone.map eraseEvent) =
      (c₁.program y 0 new.bytes []).run (gone.map eraseEvent) := by
    rw [Chip.run_append, hc₁]
    rfl
  have hpage : ∀ b, (c₁.program y 0 new.bytes []).run (gone.map eraseEvent) b 0 = if b ∈ gone then .erased else c₁.program y 0 new.bytes [] b 0 :=
    fun b => run_erases _ gone b 0
  rw [hrun]
  by_cases hbx : b = x
  · subst hbx
    rw [if_pos rfl] at hcopy ⊢
    rw [← hcopy]
    refine found_congr ?_
    rw [hpage, if_neg hxg, Chip.program_of_ne hxy.symm]
  rw [if_neg hbx] at hcopy ⊢
  by_cases hby : b = y
  · subst hby
    rw [if_pos rfl]
    have hyfree : c₁ b 0 = .erased := by
      rw [← hc₁]
      change ((c.program x 0 [] (markBytes block)).run s) b 0 = _
      rw [Chip.run_of_ne (fun e he => (hs e he).other hbx (by simp only at hya; omega)), Chip.program_of_ne hbx]
      exact h.free _ hy rfl 0
    have hcell : (c₁.program b 0 new.bytes []).run (gone.map eraseEvent) b 0 = ⟨overlay (fun _ => 0xff) new.bytes, fun _ => 0xff⟩ := by
      rw [hpage, if_neg hyg, Chip.program, if_pos ⟨rfl, rfl⟩, hyfree, Chip.overlay_nil]
      rfl
    refine found_table hsig hsum h.signature.2 (fun k _ => by rw [hcell]) fun k hk => ?_
    rw [hcell]
    refine (Chip.overlay_erased _ _).trans ?_
    have hlen : k < new.bytes.length := by rw [BmtTable.length_bytes]; exact hk
    rw [byteAt, List.getD_eq_getElem _ _ hlen, List.getD_eq_getElem _ _ hlen]
  rw [if_neg hby]
  split
  · rename_i hmem
    refine found_erased ?_
    rw [hpage, if_pos hmem]
  · rename_i hmem
    rw [← hcopy]
    refine found_congr ?_
    rw [hpage, if_neg hmem, Chip.program_of_ne hby]

end

/-! ### What must be left -/

/-- What a power loss must leave of a remap of block `u`, which was at `m`, once the driver has started again. -/
structure Recovered (c : Chip) (ctx : Ctx) (u m : Nat) (len : Int) (t : Trace) (ctx' : Ctx) : Prop where
  others : ∀ v, v ≠ u → ctx'.getMappingBlock v = ctx.getMappingBlock v
  /-- The block is where it was or at the copy, which reaches as far as a copy was asked for. -/
  place : ∃ p, ctx'.getMappingBlock u = some p ∧ (∀ e ∈ t, e.1 ≠ .erase p) ∧ ∀ page < ctx.blkPages, (p = m ∨ ((page * ctx.pgSize : Nat) : Int) < len) →
    ∀ i < ctx.pgSize, (c.run t p page).data i = (c m page).data i
  apart : ∀ cs ctx'', Run ctx' cs ctx'' → ∀ v w p, ctx''.getMappingBlock v = some p → ctx''.getMappingBlock w = some p → v = w

/-- The power may go off between any two operations of the remap. -/
def CrashSafe (np : DeviceNode) (c : Chip) (ctx : Ctx) (u m : Nat) (len : Int) : Prop :=
  ∀ t, Proc.Steps (pubRemapBlock ctx u m len) t → c.Faultless ctx.pgSize t →
    ∀ t' ctx' ret, Proc.Runs (pubInit np ctx.totalBlks ctx.pgSize ctx.blkPages) t' (ctx', ret) → (c.run t).Faultless ctx.pgSize t' →
      ret = 0 ∧ Recovered c ctx u m len (t ++ t') ctx'

/-- The call is not refused: the block may be remapped, the table has room, and a block is free. -/
structure Proceeds (ctx : Ctx) (u : Nat) : Prop where
  range : ctx.canRemapRanges.any (fun r => r.1 ≤ u && u < r.2) = true
  room : ctx.bmt.size ≠ 0xff
  free : ctx.findAvailableBlock false ≠ none

section
variable {np : DeviceNode} {c : Chip} {ctx ctx' : Ctx} {t t' : Trace} {u m p : Nat} {len ret : Int} {table : BmtTable}

theorem recovered_of_survives (h : Consistent np c ctx) (hf : ctx.Fits) (hs : Survives c (c.run t) ctx table) (hi : (ctx.reloaded (c.run t) table).Inv)
    (hothers : ∀ v, v ≠ u → (ctx.reloaded (c.run t) table).getMappingBlock v = ctx.getMappingBlock v)
    (hp : (ctx.reloaded (c.run t) table).getMappingBlock u = some p) (herase : ∀ e ∈ t, e.1 ≠ .erase p)
    (hdata : ∀ page < ctx.blkPages, (p = m ∨ ((page * ctx.pgSize : Nat) : Int) < len) → ∀ i < ctx.pgSize, (c.run t p page).data i = (c m page).data i)
    (hr : Proc.Runs (pubInit np ctx.totalBlks ctx.pgSize ctx.blkPages) t' (ctx', ret)) (hfl : (c.run t).Faultless ctx.pgSize t') :
    ret = 0 ∧ Recovered c ctx u m len (t ++ t') ctx' := by
  obtain ⟨rfl, rfl, hreads⟩ := hs.pubInit h hr hfl
  refine ⟨rfl, hothers, ⟨p, hp, fun e he => ?_, ?_⟩, fun cs ctx'' hrun v w q hv hw => ?_⟩
  · rcases List.mem_append.mp he with he | he
    · exact herase e he
    · obtain ⟨b, p, hq⟩ := hreads e he
      rw [hq]
      exact nofun
  · rw [Chip.run_append, Chip.run_reads hreads]
    exact hdata
  · obtain ⟨hshaped, hinv, -⟩ := hrun.keeps h.shaped_reloaded hi hf
    exact getMappingBlock_injective hshaped hinv hv hw

theorem bmt?_of_status {f : Found} (h : f.status ≠ .bmt) : f.bmt? = none := by
  cases f with
  | bmt => exact absurd rfl h
  | bad | mapped | available | needErase | bbt => rfl

/-- A mapped block stays one. -/
def StaysMapped (c c₁ : Chip) (ctx : Ctx) : Prop := ∀ b ∈ ctx.area, (c.found ctx.pgSize b).status = .mapped → (c₁.found ctx.pgSize b).status = .mapped

theorem StaysMapped.dst {c₁ : Chip} (hs : StaysMapped c c₁ ctx) (h : Consistent np c ctx) {e : BmtEntry} (he : e ∈ ctx.bmt.entries) :
    e.dst.toNat ∈ ctx.area ∧ (c₁.found ctx.pgSize e.dst.toNat).status = .mapped := by
  obtain ⟨harea, hst⟩ := h.mem_rblocks.mp (h.inv.dst_mapped e he)
  exact ⟨harea, hs _ harea hst.symm⟩

/-- The table that was there is found again: at most, free blocks have become mapped ones. -/
theorem recovered_old (h : Consistent np c ctx) (hf : ctx.Fits) (hfound : ∀ b ∈ ctx.area, (c.run t).found ctx.pgSize b = c.found ctx.pgSize b ∨
      ((c.found ctx.pgSize b).status = .available ∧ ((c.run t).found ctx.pgSize b).status = .mapped)) (hm : ctx.getMappingBlock u = some m)
    (herase : ∀ e ∈ t, e.1 ≠ .erase m) (hdata : ∀ page, (c.run t m page).data = (c m page).data)
    (hr : Proc.Runs (pubInit np ctx.totalBlks ctx.pgSize ctx.blkPages) t' (ctx', ret)) (hfl : (c.run t).Faultless ctx.pgSize t') :
    ret = 0 ∧ Recovered c ctx u m len (t ++ t') ctx' := by
  have hmapped : StaysMapped c (c.run t) ctx := by
    intro b hb hst
    rcases hfound b hb with hsame | ⟨hav, -⟩
    · rw [hsame, hst]
    · exact absurd (hst.symm.trans hav) (by decide)
  have hlast : lastSome (fun b => ((c.run t).found ctx.pgSize b).bmt?) ctx.area .blank = ctx.bmt := by
    rw [h.fields.bmt]
    refine lastSome_congr fun b hb => ?_
    rcases hfound b hb with hsame | ⟨hav, hst⟩
    · rw [hsame]
    · rw [bmt?_of_status (by rw [hst]; decide), bmt?_of_status (by rw [hav]; decide)]
  have hs : Survives c (c.run t) ctx ctx.bmt := by
    refine survives_of_neutral h (fun b hb => ?_) hlast h.version
    rcases hfound b hb with hsame | ⟨hav, hst⟩
    · exact .inl hsame
    · exact .inr ⟨neutral_of_status (.inl hav), neutral_of_status (.inr (.inl hst))⟩
  have hinv : (ctx.reloaded (c.run t) ctx.bmt).Inv := inv_reloaded h.inv rfl rfl fun e he => hmapped.dst h he
  refine recovered_of_survives h hf hs hinv (fun v _ => getMappingBlock_reloaded rfl rfl rfl v) ((getMappingBlock_reloaded rfl rfl rfl u).trans hm) herase ?_ hr hfl
  intro page _ _ i _
  rw [hdata]

/-! ### A block that is remapped for the first time -/

section
variable {block i n : Nat} {x y : BlockInfo} {s : Trace}

/-- The blocks with the BMT, in the order of the scan. -/
theorem Consistent.bmt_blocks (h : Consistent np c ctx) : (ctx.rblocks.filter (·.status = .bmt)).map BlockInfo.index =
    ctx.area.filter fun b => ((c.found ctx.pgSize b).bmt?).isSome := by
  have hsame : (fun b => decide ((c.found ctx.pgSize b).status = .bmt)) = fun b => ((c.found ctx.pgSize b).bmt?).isSome := by
    funext b
    cases c.found ctx.pgSize b with
    | bmt | bad | mapped | available | needErase | bbt => rfl
  rw [h.fields.rblocks, List.filter_map, List.map_map, ← hsame]
  exact List.map_id _

/-- What a remap leaves on the chip once the new table is written and some of the old ones are erased. -/
structure Written (c : Chip) (ctx : Ctx) (block i : Nat) (x : BlockInfo) (len : Int) (t : Trace) : Prop where
  found : ∃ y ∈ ctx.area, (c.found ctx.pgSize y).status = .available ∧ y ≠ x.index ∧ ∃ gone, gone <+: (ctx.area.filter fun b => ((c.found ctx.pgSize b).bmt?).isSome) ∧
    ∀ b ∈ ctx.area, (c.run t).found ctx.pgSize b = if b = x.index then .mapped else if b = y then .bmt (ctx.remapped block i x.index).syncedBmt
      else if b ∈ gone then .available else c.found ctx.pgSize b
  kept : ∀ e ∈ t, e.1 ≠ .erase block ∧ e.1 ≠ .erase x.index
  old : ∀ page, (c.run t block page).data = (c block page).data
  copy : ∀ page < ctx.blkPages, ((page * ctx.pgSize : Nat) : Int) < len → ∀ i < ctx.pgSize, (c.run t x.index page).data i = (c block page).data i

theorem entries_syncedBmt (ctx : Ctx) : ctx.syncedBmt.entries = ctx.bmt.entries := entries_clearFrom ctx.bmt ctx.reserveBlockCount

/-- A new entry leaves the header of the table. -/
theorem header_remapped (ctx : Ctx) (block i d : Nat) : (ctx.remapped block i d).syncedBmt.signature = ctx.bmt.signature ∧
    (ctx.remapped block i d).syncedBmt.version = ctx.bmt.version := by
  change (ctx.bmt.assign block d).signature = _ ∧ (ctx.bmt.assign block d).version = _
  unfold BmtTable.assign
  split
  · exact ⟨rfl, rfl⟩
  · exact ⟨rfl, rfl⟩

/-- Either table does. -/
theorem Written.recovered (hw : Written c ctx block i x len t) (h : Consistent np c ctx) (hf : ctx.Fits) (hb : ctx.getMappingBlockBbt u = some block)
    (hnone : ctx.bmt.indexOf block = none) (hfull : ctx.bmt.size ≠ 0xff) (hx : ctx.rblocks[i]? = some x) (hav : x.status = .available)
    (hr : Proc.Runs (pubInit np ctx.totalBlks ctx.pgSize ctx.blkPages) t' (ctx', ret)) (hfl : (c.run t).Faultless ctx.pgSize t') :
    ret = 0 ∧ Recovered c ctx u block len (t ++ t') ctx' := by
  obtain ⟨y, hy, hyav, hxy, gone, hgone, hfound⟩ := hw.found
  have hxm := List.mem_of_getElem? hx
  obtain ⟨hxa, hst⟩ := h.mem_rblocks.mp hxm
  rw [hav] at hst
  have hlt := (getMappingBlockBbt_eq_some.mp hb).2
  have hxr := h.mem_area.mp hxa
  have hgst : ∀ g ∈ gone, (c.found ctx.pgSize g).status = .bmt := by
    intro g hg
    have hsome := (List.mem_filter.mp (hgone.subset hg)).2
    by_contra hne
    rw [bmt?_of_status hne] at hsome
    cases hsome
  have hmapped : StaysMapped c (c.run t) ctx := by
    intro b hb hm
    rw [hfound b hb]
    split
    · rfl
    · rw [if_neg, if_neg, hm]
      · intro hg
        exact absurd (hm.symm.trans (hgst b hg)) (by decide)
      · rintro rfl
        exact absurd (hm.symm.trans hyav) (by decide)
  have hneutral : ∀ b ∈ ctx.area, (c.run t).found ctx.pgSize b = c.found ctx.pgSize b ∨ ((c.found ctx.pgSize b).Neutral ∧ ((c.run t).found ctx.pgSize b).Neutral) := by
    intro b hb
    rw [hfound b hb]
    by_cases h1 : b = x.index
    · rw [if_pos h1, h1]
      exact .inr ⟨neutral_of_status (.inl hst.symm), neutral_of_status (.inr (.inl rfl))⟩
    · rw [if_neg h1]
      by_cases h2 : b = y
      · rw [if_pos h2, h2]
        exact .inr ⟨neutral_of_status (.inl hyav), neutral_of_status (.inr (.inr rfl))⟩
      · rw [if_neg h2]
        by_cases h3 : b ∈ gone
        · rw [if_pos h3]
          exact .inr ⟨neutral_of_status (.inr (.inr (hgst b h3))), neutral_of_status (.inl rfl)⟩
        · rw [if_neg h3]
          exact .inl rfl
  have hlast : lastSome (fun b => ((c.run t).found ctx.pgSize b).bmt?) ctx.area .blank = (ctx.remapped block i x.index).syncedBmt ∨
      lastSome (fun b => ((c.run t).found ctx.pgSize b).bmt?) ctx.area .blank = ctx.bmt := by
    rw [h.fields.bmt]
    refine lastSome_replaced (nodup_descending _ _) h.exists_bmt hy (bmt?_of_status (by rw [hyav]; decide)) hgone fun b hb => ?_
    rw [hfound b hb]
    by_cases h1 : b = x.index
    · subst h1
      have hfx : (c.found ctx.pgSize x.index).bmt? = none := bmt?_of_status (by rw [← hst]; decide)
      rw [if_pos rfl, if_neg hxy.symm, hfx, ite_self]
      rfl
    · rw [if_neg h1]
      split
      · rfl
      · split
        · rfl
        · rfl
  rcases hlast with hlast | hlast
  · have hmoves : Moves ctx (ctx.remapped block i x.index) block := moves_add h.shaped h.inv hx hav hlt hnone hfull (ctx.bmtDirty + 1)
    have hent : (ctx.remapped block i x.index).syncedBmt.entries = ctx.bmt.entries ++ [⟨.ofNat block, .ofNat x.index⟩] := by
      rw [entries_syncedBmt]
      exact entries_assign_none hnone hfull
    have htot := h.total
    have hdst : (UInt16.ofNat x.index).toNat = x.index := UInt16.toNat_ofNat_of_lt' (show _ < 65536 by omega)
    have hsrc : (UInt16.ofNat block).toNat = block := UInt16.toNat_ofNat_of_lt' (show _ < 65536 by omega)
    have hs := survives_of_neutral h hneutral hlast (by rw [(header_remapped ctx block i x.index).2]; exact h.version)
    have hinv : (ctx.reloaded (c.run t) (ctx.remapped block i x.index).syncedBmt).Inv := by
      refine inv_reloaded hmoves.inv rfl (entries_syncedBmt _) fun e he => ?_
      rw [hent] at he
      rcases List.mem_append.mp he with he | he
      · exact hmapped.dst h he
      · rw [List.mem_singleton.mp he, hdst, hfound _ hxa, if_pos rfl]
        exact ⟨hxa, rfl⟩
    have hmap := fun v => @getMappingBlock_reloaded (c.run t) ctx (ctx.remapped block i x.index) _ rfl rfl (entries_syncedBmt _) v
    refine recovered_of_survives h hf hs hinv (fun v hv => (hmap v).trans (hmoves.getMappingBlock h.inv hb hv)) (p := x.index) ?_
      (fun e he => (hw.kept e he).2) (fun page hp hor => ?_) hr hfl
    · rw [hmap, getMappingBlock_of_mem hmoves.inv (hb : (ctx.remapped block i x.index).getMappingBlockBbt u = some block)
        (by rw [← entries_syncedBmt, hent]; exact List.mem_append_right _ (List.mem_singleton_self _)) hsrc, hdst]
    · rcases hor with heq | hlen
      · omega
      · exact hw.copy page hp hlen
  · have hs := survives_of_neutral h hneutral hlast h.version
    have hinv : (ctx.reloaded (c.run t) ctx.bmt).Inv := inv_reloaded h.inv rfl rfl fun e he => hmapped.dst h he
    refine recovered_of_survives h hf hs hinv (fun v _ => getMappingBlock_reloaded rfl rfl rfl v)
      ((getMappingBlock_reloaded rfl rfl rfl u).trans (getMappingBlock_of_forall hb (indexOf_eq_none hnone))) (fun e he => (hw.kept e he).1) ?_ hr hfl
    intro page _ _ k _
    rw [hw.old]

end

end

end RainWrt.En75
