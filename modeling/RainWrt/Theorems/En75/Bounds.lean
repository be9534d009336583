import RainWrt.Theorems.En75.Boot

/-! The tables of the EN75 driver in their arrays: what is cleared behind the entries, and how many entries are counted. -/

namespace RainWrt.En75

/-! ### What stays -/

/-- Nothing is written behind the table. -/
def Inside (q : Op) : Prop := q ≠ .overrun

/-- The chip, the reserve area and the BBT stay, and the entries of the BMT change as `E` says. -/
structure Keeps (E : List BmtEntry → List BmtEntry → Prop) (ctx ctx' : Ctx) : Prop where
  total : ctx'.totalBlks = ctx.totalBlks
  reserve : ctx'.reserveAreaBegin = ctx.reserveAreaBegin
  blocks : ctx'.bbt.blocks = ctx.bbt.blocks
  entries : E ctx.bmt.entries ctx'.bmt.entries

theorem Keeps.refl (ctx : Ctx) : Keeps Eq ctx ctx := ⟨rfl, rfl, rfl, rfl⟩

theorem Keeps.trans {ctx ctx' ctx'' : Ctx} {E : List BmtEntry → List BmtEntry → Prop} (h : Keeps E ctx ctx') (h' : Keeps Eq ctx' ctx'') :
    Keeps E ctx ctx'' :=
  ⟨h'.total.trans h.total, h'.reserve.trans h.reserve, h'.blocks.trans h.blocks, h'.entries ▸ h.entries⟩

theorem Keeps.mono {ctx ctx' : Ctx} {E E' : List BmtEntry → List BmtEntry → Prop} (h : Keeps E ctx ctx') (hE : ∀ l l', E l l' → E' l l') :
    Keeps E' ctx ctx' := ⟨h.total, h.reserve, h.blocks, hE _ _ h.entries⟩

theorem Keeps.fits {ctx ctx' : Ctx} {E : List BmtEntry → List BmtEntry → Prop} (h : Keeps E ctx ctx') (hf : ctx.Fits) : ctx'.Fits := by
  unfold Ctx.Fits Ctx.reserveBlockCount at hf ⊢
  rw [h.total, h.reserve]
  exact hf

/-! ### Synchronisation -/

section
variable {ctx : Ctx}

theorem inside_erase (b : Nat) : Inside (.erase b) := nofun
theorem inside_program (b p : Nat) (d o : Bytes) : Inside (.program b p d o) := nofun
theorem inside_read (b p : Nat) : Inside (.read b p) := nofun

theorem only_erasePendings (ctx : Ctx) (l : List BlockInfo) : Proc.Only Inside (erasePendings ctx l) := by
  induction l with
  | nil => exact Proc.only_pure _
  | cons info l ih =>
    refine Proc.Only.bind ?_ fun _ => ih.bind fun _ => Proc.only_pure _
    unfold erasePending
    split
    · exact Proc.only_pure _
    · refine (only_wEraseOne (inside_erase _)).bind fun ret => ?_
      split
      · exact Proc.only_pure _
      · split
        · exact Proc.only_pure _
        · exact (only_wMarkBad (inside_program _ _ _ _)).bind fun _ => Proc.only_pure _

theorem ensures_wErasePending (ctx : Ctx) : Proc.Ensures Inside (fun ctx' => Keeps Eq ctx ctx' ∧ ctx'.bmtDirty = ctx.bmtDirty) (wErasePending ctx) :=
  (only_erasePendings ctx ctx.rblocks).ensures.bind fun _ _ => Proc.ensures_pure ⟨⟨rfl, rfl, rfl, rfl⟩, rfl⟩

theorem ensures_updateTable (startFromEnd : Bool) (data : Bytes) (tries : Nat) (ctx : Ctx) :
    Proc.Ensures Inside (fun r => Keeps Eq ctx r.1) (updateTable startFromEnd data tries ctx) := by
  induction tries generalizing ctx with
  | zero => exact Proc.ensures_pure (.refl _)
  | succ tries ih =>
    unfold updateTable
    split
    · exact Proc.ensures_pure (.refl _)
    · rename_i info _
      refine (only_wWrite (inside_program _ _ _ _)).ensures.bind fun ret _ => ?_
      split
      · exact Proc.ensures_pure (.refl _)
      · exact (ih (ctx.setStatus info .needErase)).mono fun r h => ⟨h.total, h.reserve, h.blocks, h.entries⟩

theorem ensures_syncBmt (hf : ctx.bmtDirty = 0 ∨ ctx.Fits) : Proc.Ensures Inside (fun r => Keeps Eq ctx r.1) (syncBmt ctx) := by
  unfold syncBmt
  split
  · exact Proc.ensures_pure (.refl _)
  · next hdirty =>
    unfold clearBmt
    dsimp only
    rw [if_pos (show ctx.reserveBlockCount ≤ maxBmtSize from hf.resolve_left hdirty)]
    refine (ensures_updateTable _ _ _ _).bind fun r h => ?_
    have hk : Keeps Eq ctx r.1 := ⟨h.total, h.reserve, h.blocks, (entries_clearFrom ctx.bmt ctx.reserveBlockCount).symm.trans h.entries⟩
    obtain ⟨ctx', res⟩ := r
    cases res with
    | error e => exact Proc.ensures_pure hk
    | ok info => exact Proc.ensures_pure ⟨hk.total, hk.reserve, hk.blocks, hk.entries⟩

theorem ensures_syncBbt (ctx : Ctx) : Proc.Ensures Inside (fun r => Keeps Eq ctx r.1) (syncBbt ctx) := by
  unfold syncBbt
  split
  · exact Proc.ensures_pure (.refl _)
  · refine (ensures_updateTable _ _ _ _).bind fun r h => ?_
    have hk : Keeps Eq ctx r.1 := ⟨h.total, h.reserve, h.blocks.trans (blocks_withChecksum _), h.entries⟩
    obtain ⟨ctx', res⟩ := r
    cases res with
    | error e => exact Proc.ensures_pure hk
    | ok info => exact Proc.ensures_pure ⟨hk.total, hk.reserve, hk.blocks, hk.entries⟩

/-- Where the BMT is not stored, or the reserve area fits the table, the tables are stored as they are. -/
theorem ensures_wSyncTables (hf : ctx.bmtDirty = 0 ∨ ctx.Fits) : Proc.Ensures Inside (fun r => Keeps Eq ctx r.1) (wSyncTables ctx) := by
  unfold wSyncTables
  refine (ensures_wErasePending ctx).bind fun ctx₁ ⟨h₁, hdirty⟩ => ?_
  refine (ensures_syncBmt (hf.imp hdirty.trans h₁.fits)).bind fun ⟨ctx₂, ret₂⟩ h₂ => ?_
  dsimp only
  split
  · exact Proc.ensures_pure (h₁.trans h₂)
  · refine (ensures_syncBbt ctx₂).bind fun ⟨ctx₃, ret₃⟩ h₃ => ?_
    dsimp only
    split
    · exact Proc.ensures_pure ((h₁.trans h₂).trans h₃)
    · exact (ensures_wErasePending ctx₃).bind fun ctx₄ ⟨h₄, _⟩ => Proc.ensures_pure (((h₁.trans h₂).trans h₃).trans h₄)

/-- A sync writes behind the table exactly if the BMT is dirty and there are more blocks in reserve than the table has entries. -/
theorem wSyncTables_overruns_iff {t : Trace} {r : Ctx × Int} (h : Proc.Runs (wSyncTables ctx) t r) :
    (∃ e ∈ t, e.1 = .overrun) ↔ ctx.bmtDirty ≠ 0 ∧ ¬ctx.Fits := by
  constructor
  · rintro ⟨e, he, hover⟩
    by_contra hno
    rw [not_and_not_right] at hno
    have hf : ctx.bmtDirty = 0 ∨ ctx.Fits := or_iff_not_imp_left.mpr hno
    exact (ensures_wSyncTables hf _ _ h).1 e he hover
  · rintro ⟨hdirty, hfits⟩
    obtain ⟨t₁, t₂, ctx₁, rfl, h₁, k⟩ := Proc.runs_bind.mp h
    obtain ⟨-, hkeeps, hsame⟩ := ensures_wErasePending ctx _ _ h₁
    have hfits₁ : ¬ctx₁.reserveBlockCount ≤ maxBmtSize := by
      unfold Ctx.Fits Ctx.reserveBlockCount at hfits
      unfold Ctx.reserveBlockCount
      rwa [hkeeps.total, hkeeps.reserve]
    obtain ⟨t₃, t₄, a, rfl, h₂, -⟩ := Proc.runs_bind.mp k
    unfold syncBmt at h₂
    rw [if_neg (hsame ▸ hdirty)] at h₂
    obtain ⟨t₅, t₆, ctx₂, rfl, h₃, -⟩ := Proc.runs_bind.mp h₂
    unfold clearBmt at h₃
    dsimp only at h₃
    rw [if_neg hfits₁] at h₃
    have hone : t₅ = [⟨.overrun, ctx₂⟩] := Proc.runs_ask.mp h₃
    exact ⟨⟨.overrun, ctx₂⟩, by simp [hone], rfl⟩

end

/-! ### Single entries -/

/-- One entry is taken out at most. -/
inductive Removes (l : List BmtEntry) : List BmtEntry → Prop
  | same : Removes l l
  | remove (i : Nat) {l' : List BmtEntry} (hi : i < l.length) (h : l'.Perm (l.eraseIdx i)) : Removes l l'

theorem Removes.subperm {l l' : List BmtEntry} (h : Removes l l') : l'.Subperm l := by
  cases h with
  | same => exact List.Subperm.refl l
  | remove i hi h => exact h.subperm.trans (List.eraseIdx_sublist l i).subperm

/-- What a call does to the entries of the BMT. -/
inductive Edit (l : List BmtEntry) : List BmtEntry → Prop
  | removes {l' : List BmtEntry} (h : Removes l l') : Edit l l'
  | change (i : Nat) (f : BmtEntry → BmtEntry) : Edit l (l.modify i f)
  | add (e : BmtEntry) : Edit l (l ++ [e])

theorem Edit.same {l : List BmtEntry} : Edit l l := .removes .same

section
variable {ctx : Ctx}

theorem only_copyPages (ctx : Ctx) (d s : Nat) (m : Int) (page pages : Nat) : Proc.Only Inside (copyPages ctx d s m page pages) := by
  induction pages generalizing page with
  | zero => exact Proc.only_pure _
  | succ pages ih =>
    unfold copyPages
    split
    · exact Proc.only_pure _
    · refine (Proc.only_ask.mpr (inside_read _ _)).bind fun r => ?_
      cases r with
      | error e => exact Proc.only_pure _
      | ok r =>
        refine (Proc.only_ask.mpr (inside_program _ _ _ _)).bind fun ret => ?_
        split
        · exact Proc.only_pure _
        · exact ih _

theorem only_copyBlock (ctx : Ctx) (n c : Nat) (len : Int) : Proc.Only Inside (copyBlock ctx n c len) := by
  unfold copyBlock
  split
  · exact Proc.only_pure _
  · exact only_retry (only_copyPages _ _ _ _ _ _) _

theorem edit_assign {t : BmtTable} (hs : t.size ≠ 0xff) (b d : Nat) : Edit t.entries (t.assign b d).entries := by
  cases h : t.indexOf b with
  | none =>
    rw [entries_assign_none h hs]
    exact .add _
  | some i =>
    rw [entries_assign_some h]
    exact .change _ _

/-- An entry is set or added, and only below the limit. -/
theorem ensures_wRemapBlock (ctx : Ctx) (block : Nat) (maybe : Option Nat) (len : Int) :
    Proc.Ensures Inside (fun r => Keeps Edit ctx r.1) (wRemapBlock ctx block maybe len) := by
  have hsame : Keeps Edit ctx ctx := ⟨rfl, rfl, rfl, .same⟩
  unfold wRemapBlock
  split
  · exact Proc.ensures_pure hsame
  · rename_i hfull
    split
    · exact Proc.ensures_pure hsame
    · rename_i i _
      have hmake : Proc.Only Inside (wMakeMapping ctx ⟨ctx.rblockIndex i, .available⟩ block) := by
        unfold wMakeMapping
        split
        · exact Proc.only_pure _
        · split
          · exact Proc.only_pure _
          · exact only_wWrite (inside_program _ _ _ _)
      refine hmake.ensures.bind fun ret _ => ?_
      split
      · exact Proc.ensures_pure ⟨rfl, rfl, rfl, .same⟩
      · refine (only_copyBlock _ _ _ _).ensures.bind fun _ _ => ?_
        unfold enterMapping
        refine (only_wMarkBad (inside_program _ _ _ _)).ensures.bind fun _ _ => Proc.ensures_pure ?_
        cases maybe with
        | none => exact ⟨rfl, rfl, rfl, edit_assign hfull _ _⟩
        | some m => exact ⟨rfl, rfl, rfl, edit_assign hfull _ _⟩

/-- An entry that there is is taken out. -/
theorem ensures_wUnmapBlock (ctx : Ctx) (block : Nat) (ue : UnmapErase) :
    Proc.Ensures Inside (fun r => Keeps Removes ctx r.1 ∧ r.1.bbt = ctx.bbt) (wUnmapBlock ctx block ue) := by
  have hsame : Keeps Removes ctx ctx := ⟨rfl, rfl, rfl, .same⟩
  unfold wUnmapBlock
  cases hk : ctx.bmt.indexOf block with
  | none => exact Proc.ensures_pure ⟨hsame, rfl⟩
  | some k =>
    obtain ⟨e, he, -⟩ := indexOf_eq_some hk
    have hlt := (List.getElem?_eq_some_iff.mp he).1
    have hsize := length_entries ctx.bmt
    have hedit : Removes ctx.bmt.entries (ctx.bmt.remove k).entries := .remove k hlt (entries_remove (by omega))
    dsimp only
    split
    · exact Proc.ensures_pure ⟨hsame, rfl⟩
    · split
      · exact Proc.ensures_pure ⟨⟨rfl, rfl, rfl, hedit⟩, rfl⟩
      · refine (only_wEraseOne (inside_erase _)).ensures.bind fun ret _ => ?_
        split
        · exact Proc.ensures_pure ⟨hsame, rfl⟩
        · exact Proc.ensures_pure ⟨⟨rfl, rfl, rfl, hedit⟩, rfl⟩

/-- A call changes one entry at most. -/
theorem ensures_call (hf : ctx.Fits) (c : Call) : Proc.Ensures Inside (Keeps Edit ctx) (c.prog ctx) := by
  have hsame : Keeps Edit ctx ctx := ⟨rfl, rfl, rfl, .same⟩
  have hsync : ∀ {ctx₁}, Keeps Edit ctx ctx₁ → Proc.Ensures Inside (fun r => Keeps Edit ctx r.1) (wSyncTables ctx₁) := fun h₁ =>
    (ensures_wSyncTables (.inr (h₁.fits hf))).mono fun _ h => h₁.trans h
  cases c with
  | remap u m len =>
    refine Proc.Ensures.bind (R := fun r => Keeps Edit ctx r.1) ?_ fun r h => Proc.ensures_pure h
    unfold pubRemapBlock
    split
    · exact Proc.ensures_pure hsame
    · dsimp only
      split
      · exact Proc.ensures_pure hsame
      · split
        · exact Proc.ensures_pure hsame
        · refine (ensures_wRemapBlock _ _ _ _).bind fun ⟨ctx₁, ret⟩ h₁ => ?_
          exact (hsync h₁).bind fun ⟨ctx₂, ret₂⟩ h₂ => Proc.ensures_pure h₂
  | unmap u =>
    unfold Call.prog pubUnmapBlock
    dsimp only
    split
    · exact Proc.ensures_pure hsame
    · split
      · exact Proc.ensures_pure hsame
      · refine (ensures_wUnmapBlock _ _ _).bind fun ⟨ctx₁, ret⟩ h₁ => ?_
        exact (hsync (h₁.1.mono fun _ _ => Edit.removes)).bind fun ⟨ctx₂, ret₂⟩ h₂ => Proc.ensures_pure h₂

end

/-! ### Reconstruction -/

theorem toNat_succ_of_lt {n : UInt8} (h : n.toNat < 255) : (n + 1).toNat = n.toNat + 1 := by
  rw [UInt8.toNat_add]
  simp only [UInt8.reduceToNat]
  omega

theorem toNat_succ_mod (n : UInt8) : (n + 1).toNat = (n.toNat + 1) % 256 := by
  rw [UInt8.toNat_add]
  simp only [UInt8.reduceToNat]

/-- Up to the limit an entry goes behind the others. -/
theorem entries_push {t : BmtTable} (h : t.size.toNat < 255) (e : BmtEntry) : (t.push e).entries = t.entries ++ [e] := by
  have hlen : t.size.toNat < t.table.length := by
    rw [t.table_length, maxBmtSize]
    omega
  simp only [BmtTable.entries, BmtTable.push, toNat_succ_of_lt h]
  rw [List.take_add_one, List.getElem?_set_self hlen, List.take_set_of_le (Nat.le_refl _)]
  rfl

theorem blocks_push {t : BbtTable} (h : t.size.toNat < 255) (b : Nat) : (t.push b).blocks = t.blocks ++ [.ofNat b] := by
  have hlen : t.size.toNat < t.table.length := by
    rw [t.table_length, maxBbtSize]
    omega
  simp only [BbtTable.blocks, BbtTable.push, toNat_succ_of_lt h]
  rw [List.take_add_one, List.getElem?_set_self hlen, List.take_set_of_le (Nat.le_refl _)]
  rfl

/-- The mapping that a read of a reserve block gives. -/
def mappingFound (reserveAreaBegin : Nat) : Proc.Event Op Answer → Option BmtEntry
  | ⟨.read i _, .ok (_, fdm)⟩ =>
    if i < reserveAreaBegin then none
    else if fdmIsBad fdm ≠ .good ∨ (be16At fdm 2).toNat ≥ reserveAreaBegin then none
    else some ⟨be16At fdm 2, .ofNat i⟩
  | _ => none

/-- The bad block that a read of a user block gives. -/
def badFound (reserveAreaBegin : Nat) : Proc.Event Op Answer → Option UInt16
  | ⟨.read i _, .error _⟩ => if i ≥ reserveAreaBegin then none else some (.ofNat i)
  | ⟨.read i _, .ok (_, fdm)⟩ =>
    if i ≥ reserveAreaBegin then none
    else if fdmIsBad fdm = .good ∨ fdmIsBad fdm = .worn then none
    else some (.ofNat i)
  | _ => none

/-- A counter of eight bits, and what is counted as long as it does not wrap. -/
def Counts {α : Type} (size size' : UInt8) (l l' new : List α) : Prop :=
  size'.toNat = (size.toNat + new.length) % 256 ∧ (size.toNat + new.length < 256 → l' = l ++ new)

section
variable {α : Type} {size size' size'' : UInt8} {l l' l'' new : List α} {a : α}

theorem counts_nil : Counts size size l l [] := by
  have := size.toNat_lt
  exact ⟨by rw [List.length_nil, Nat.add_zero, Nat.mod_eq_of_lt this], fun _ => (List.append_nil l).symm⟩

theorem Counts.cons (h : Counts (size + 1) size' l' l'' new) (hl : size.toNat < 255 → l' = l ++ [a]) : Counts size size' l l'' (a :: new) := by
  obtain ⟨hsize, hnew⟩ := h
  rw [toNat_succ_mod] at hsize
  refine ⟨by rw [hsize, List.length_cons]; omega, fun hlt => ?_⟩
  rw [List.length_cons] at hlt
  have hone := toNat_succ_of_lt (n := size) (by omega)
  rw [hnew (by omega), hl (by omega), List.append_assoc, List.singleton_append]

/-- The entries are the counted ones exactly as long as there are fewer than 256. -/
theorem Counts.iff (h : Counts size size' l l' new) (hsize : size.toNat = l.length) (hlen : l'.length = size'.toNat) :
    l' = l ++ new ↔ l.length + new.length < 256 := by
  constructor
  · intro heq
    have hlt := size'.toNat_lt
    rw [heq, List.length_append] at hlen
    omega
  · intro hlt
    exact h.2 (by omega)

end

section
variable {ctx ctx' : Ctx} {t : Trace}

theorem reconstructBmt_counts {count : Nat} (h : Proc.Runs (reconstructBmt count ctx) t ctx') :
    Counts ctx.bmt.size ctx'.bmt.size ctx.bmt.entries ctx'.bmt.entries (t.filterMap (mappingFound ctx.reserveAreaBegin)) := by
  induction count generalizing ctx t with
  | zero =>
    obtain ⟨rfl, rfl⟩ := Proc.runs_pure.mp h
    exact counts_nil
  | succ count ih =>
    obtain ⟨t₁, t₂, r, rfl, h1, k⟩ := Proc.runs_bind.mp h
    obtain rfl := Proc.runs_ask.mp h1
    cases r with
    | error e =>
      have hnone : mappingFound ctx.reserveAreaBegin ⟨.read (ctx.reserveAreaBegin + count) 0, .error e⟩ = none := rfl
      rw [List.singleton_append, List.filterMap_cons, hnone]
      exact ih k
    | ok r =>
      obtain ⟨data, fdm⟩ := r
      dsimp only at k
      have hfound : mappingFound ctx.reserveAreaBegin ⟨.read (ctx.reserveAreaBegin + count) 0, .ok (data, fdm)⟩ =
          if fdmIsBad fdm ≠ .good ∨ (be16At fdm 2).toNat ≥ ctx.reserveAreaBegin then none
          else some ⟨be16At fdm 2, .ofNat (ctx.reserveAreaBegin + count)⟩ := if_neg (Nat.not_lt.mpr (Nat.le_add_right _ _))
      rw [List.singleton_append, List.filterMap_cons, hfound]
      by_cases hc : fdmIsBad fdm ≠ .good ∨ (be16At fdm 2).toNat ≥ ctx.reserveAreaBegin
      · rw [if_pos hc] at k ⊢
        exact ih k
      · rw [if_neg hc] at k ⊢
        exact (ih k).cons fun hlt => entries_push hlt _

theorem entries_reset (t : BmtTable) : t.reset.entries = [] := rfl

/-- The mappings that are found are all stored exactly if there are fewer than 256. -/
theorem rReconstructBmt_entries_iff (h : Proc.Runs (rReconstructBmt ctx) t ctx') :
    ctx'.bmt.entries = t.filterMap (mappingFound ctx.reserveAreaBegin) ↔ (t.filterMap (mappingFound ctx.reserveAreaBegin)).length < 256 := by
  have hc := (reconstructBmt_counts h).iff rfl (length_entries _)
  rw [entries_reset] at hc
  simpa using hc

theorem reconstructBbt_counts {bbt bbt' : BbtTable} {i count : Nat} (hi : i + count ≤ ctx.reserveAreaBegin)
    (h : Proc.Runs (reconstructBbt ctx i count bbt) t bbt') :
    Counts bbt.size bbt'.size bbt.blocks bbt'.blocks (t.filterMap (badFound ctx.reserveAreaBegin)) := by
  induction count generalizing i bbt t with
  | zero =>
    obtain ⟨rfl, rfl⟩ := Proc.runs_pure.mp h
    exact counts_nil
  | succ count ih =>
    have hlow : ¬i ≥ ctx.reserveAreaBegin := by omega
    have hrest : i + 1 + count ≤ ctx.reserveAreaBegin := by omega
    unfold reconstructBbt at h
    split at h
    · exact ih hrest h
    · obtain ⟨t₁, t₂, r, rfl, h1, k⟩ := Proc.runs_bind.mp h
      obtain rfl := Proc.runs_ask.mp h1
      rw [List.singleton_append, List.filterMap_cons]
      cases r with
      | error e =>
        have hfound : badFound ctx.reserveAreaBegin ⟨.read i 0, .error e⟩ = some (.ofNat i) := if_neg hlow
        rw [hfound]
        exact (ih hrest k).cons fun hlt => blocks_push hlt _
      | ok r =>
        obtain ⟨data, fdm⟩ := r
        dsimp only at k
        have hfound : badFound ctx.reserveAreaBegin ⟨.read i 0, .ok (data, fdm)⟩ =
            if fdmIsBad fdm = .good ∨ fdmIsBad fdm = .worn then none else some (.ofNat i) := if_neg hlow
        rw [hfound]
        by_cases hc : fdmIsBad fdm = .good ∨ fdmIsBad fdm = .worn
        · rw [if_pos hc] at k ⊢
          exact ih hrest k
        · rw [if_neg hc] at k ⊢
          exact (ih hrest k).cons fun hlt => blocks_push hlt _

theorem blocks_sortBbt (t : BbtTable) : t.sortBbt.blocks = t.blocks.insertionSort (· ≤ ·) := by
  have hlen : (t.blocks.insertionSort (· ≤ ·)).length = t.size.toNat := by rw [List.length_insertionSort, length_blocks]
  exact List.take_left' hlen

/-- The bad blocks that are found are all stored exactly if there are fewer than 256. -/
theorem rReconstructBbt_blocks_iff (h : Proc.Runs (rReconstructBbt ctx) t (ctx', 0)) :
    ctx'.bbt.blocks = (t.filterMap (badFound ctx.reserveAreaBegin)).insertionSort (· ≤ ·) ↔
      (t.filterMap (badFound ctx.reserveAreaBegin)).length < 256 := by
  unfold rReconstructBbt at h
  split at h
  · obtain ⟨-, h0⟩ := Proc.runs_pure.mp h
    cases h0
  · obtain ⟨t₁, t₂, bbt, rfl, h1, k⟩ := Proc.runs_bind.mp h
    obtain ⟨rfl, h0⟩ := Proc.runs_pure.mp k
    cases h0
    have hcounts := reconstructBbt_counts (by omega) h1
    have hc := hcounts.iff rfl (length_blocks _)
    rw [List.append_nil, blocks_sortBbt]
    have hfresh : BbtTable.fresh.blocks = [] := rfl
    rw [hfresh, List.nil_append, List.length_nil, Nat.zero_add] at hc
    rw [← hc]
    constructor
    · intro heq
      have hl := congrArg List.length heq
      rw [List.length_insertionSort, List.length_insertionSort, length_blocks] at hl
      have hlt := bbt.size.toNat_lt
      have hzero : BbtTable.fresh.size.toNat = 0 := rfl
      exact hcounts.2 (by omega)
    · intro heq
      rw [heq]

end

/-! ### The factory list -/

/-- The blocks of the list that are not there yet, behind the others. -/
def listed (l : List UInt16) : List UInt32 → List UInt16
  | [] => l
  | b :: blocks => if l.any (·.toNat = b.toNat) then listed l blocks else listed (l ++ [.ofNat b.toNat]) blocks

section
variable {l : List UInt16} {b : UInt32} {blocks : List UInt32}

theorem any_toNat : l.any (·.toNat = b.toNat) = true ↔ ∃ x ∈ l, x.toNat = b.toNat := by simp

theorem nodup_listed (hl : l.Nodup) (hb : ∀ b ∈ blocks, b.toNat < 65536) : (listed l blocks).Nodup := by
  induction blocks generalizing l with
  | nil => exact hl
  | cons b blocks ih =>
    have hrest : ∀ b ∈ blocks, b.toNat < 65536 := fun b h => hb b (List.mem_cons_of_mem _ h)
    unfold listed
    split
    · exact ih hl hrest
    · rename_i hno
      refine ih (List.nodup_append.mpr ⟨hl, List.nodup_singleton _, ?_⟩) hrest
      rintro x hx _ hy rfl
      refine hno (any_toNat.mpr ⟨x, hx, ?_⟩)
      rw [List.mem_singleton.mp hy, UInt16.toNat_ofNat', Nat.mod_eq_of_lt (hb b List.mem_cons_self)]

theorem mem_listed (hb : ∀ b ∈ blocks, b.toNat < 65536) {x : UInt16} :
    x ∈ listed l blocks ↔ x ∈ l ∨ ∃ b ∈ blocks, b.toNat = x.toNat := by
  induction blocks generalizing l with
  | nil => simp [listed]
  | cons b blocks ih =>
    have hrest : ∀ b ∈ blocks, b.toNat < 65536 := fun b h => hb b (List.mem_cons_of_mem _ h)
    have heq : ∀ y : UInt16, y = .ofNat b.toNat ↔ b.toNat = y.toNat := by
      intro y
      have := hb b List.mem_cons_self
      rw [← UInt16.toNat_inj, UInt16.toNat_ofNat', Nat.mod_eq_of_lt this, eq_comm]
    unfold listed
    split
    · rename_i hany
      obtain ⟨y, hy, hyb⟩ := any_toNat.mp hany
      rw [ih hrest, List.exists_mem_cons_iff]
      constructor
      · rintro (h | h)
        · exact Or.inl h
        · exact Or.inr (Or.inr h)
      · rintro (h | h | h)
        · exact Or.inl h
        · rw [UInt16.toNat_inj.mp (h.symm.trans hyb.symm)]
          exact Or.inl hy
        · exact Or.inr h
    · rw [ih hrest, List.mem_append, List.mem_singleton, heq, List.exists_mem_cons_iff, or_assoc]

end

/-- The list holds exactly the given blocks, in ascending order. -/
def Lists (l : List UInt16) (blocks : List UInt32) : Prop :=
  l.Pairwise (· < ·) ∧ ∀ x, x ∈ l ↔ ∃ b ∈ blocks, b.toNat = x.toNat

theorem lists_sorted {blocks : List UInt32} (hb : ∀ b ∈ blocks, b.toNat < 65536) :
    Lists ((listed [] blocks).insertionSort (· ≤ ·)) blocks := by
  constructor
  · have hnodup : ((listed [] blocks).insertionSort (· ≤ ·)).Nodup :=
      (List.perm_insertionSort _ _).nodup_iff.mpr (nodup_listed List.nodup_nil hb)
    have hle : ((listed [] blocks).insertionSort (· ≤ ·)).Pairwise (· ≤ ·) := List.pairwise_insertionSort _ _
    exact (List.Pairwise.and hle hnodup).imp fun ⟨h, hne⟩ => UInt16.lt_of_le_of_ne h hne
  · intro x
    rw [List.mem_insertionSort, mem_listed hb]
    simp

section
variable {ctx : Ctx} {blocks : List UInt32}

theorem ensures_clearBbt {i : Nat} (hs : ctx.bbt.size.toNat = i) :
    Proc.Ensures Inside (fun ctx' => ∃ bbt : BbtTable, ctx' = { ctx with bbt } ∧ bbt.size.toNat = 0) (clearBbt blocks i ctx) := by
  induction i generalizing ctx with
  | zero => exact Proc.ensures_pure ⟨ctx.bbt, rfl, hs⟩
  | succ i ih =>
    have hrest := @ih { ctx with bbt := ctx.bbt.takeOut i } (takeOut_eq hs).1
    unfold clearBbt
    dsimp only
    split
    · exact hrest
    · exact (only_wEraseOne (inside_erase _)).ensures.bind fun _ _ => hrest

/-- Nothing is added. -/
def Loses (l l' : List BmtEntry) : Prop := l'.Subperm l

theorem ensures_unmapFactory (blocks : List UInt32) (ctx : Ctx) :
    Proc.Ensures Inside (fun ctx' => Keeps Loses ctx ctx' ∧ ctx'.bbt = ctx.bbt) (unmapFactory blocks ctx) := by
  induction blocks generalizing ctx with
  | nil => exact Proc.ensures_pure ⟨⟨rfl, rfl, rfl, List.Subperm.refl _⟩, rfl⟩
  | cons block blocks ih =>
    unfold unmapFactory
    split
    · exact ih ctx
    · split
      · exact ih ctx
      · refine (ensures_wUnmapBlock _ _ _).bind fun ⟨ctx₁, ret⟩ ⟨h₁, hb₁⟩ => ?_
        refine (ih ctx₁).mono fun ctx₂ ⟨h₂, hb₂⟩ => ⟨?_, hb₂.trans hb₁⟩
        exact ⟨h₂.total.trans h₁.total, h₂.reserve.trans h₁.reserve, h₂.blocks.trans h₁.blocks, List.Subperm.trans h₂.entries h₁.entries.subperm⟩

theorem ensures_addFactory (blocks : List UInt32) (ctx : Ctx) (hlen : ctx.bbt.size.toNat + blocks.length < 256) :
    Proc.Ensures Inside (fun ctx' => ∃ bbt : BbtTable, ctx' = { ctx with bbt } ∧ bbt.blocks = listed ctx.bbt.blocks blocks ∧
      bbt.version = ctx.bbt.version ∧ bbt.signature = ctx.bbt.signature) (addFactory blocks ctx) := by
  induction blocks generalizing ctx with
  | nil => exact Proc.ensures_pure ⟨ctx.bbt, rfl, rfl, rfl, rfl⟩
  | cons block blocks ih =>
    rw [List.length_cons] at hlen
    unfold addFactory listed
    split
    · exact ih ctx (by omega)
    · refine (only_wMarkBad (inside_program _ _ _ _)).ensures.bind fun _ _ => ?_
      have hpush := blocks_push (t := ctx.bbt) (by omega) block.toNat
      rw [← hpush]
      refine ih { ctx with bbt := ctx.bbt.push block.toNat } ?_
      have hsize : (ctx.bbt.push block.toNat).size.toNat = ctx.bbt.size.toNat + 1 := toNat_succ_of_lt (by omega)
      simp only [hsize]
      omega

/-- The chip and the reserve area stay. -/
structure Frame (ctx ctx' : Ctx) : Prop where
  total : ctx'.totalBlks = ctx.totalBlks
  reserve : ctx'.reserveAreaBegin = ctx.reserveAreaBegin

theorem Frame.fits {ctx' : Ctx} (h : Frame ctx ctx') (hf : ctx.Fits) : ctx'.Fits := by
  unfold Ctx.Fits Ctx.reserveBlockCount at hf ⊢
  rw [h.total, h.reserve]
  exact hf

theorem Frame.trans {ctx' ctx'' : Ctx} (h : Frame ctx ctx') (h' : Frame ctx' ctx'') : Frame ctx ctx'' :=
  ⟨h'.total.trans h.total, h'.reserve.trans h.reserve⟩

theorem ensures_setFactory (hlen : blocks.length < 256) (h16 : ∀ b ∈ blocks, b.toNat < 65536) :
    Proc.Ensures Inside (fun ctx' => Frame ctx ctx' ∧ Loses ctx.bmt.entries ctx'.bmt.entries ∧ Lists ctx'.bbt.blocks blocks)
      (setFactory ctx blocks) := by
  unfold setFactory
  refine (ensures_clearBbt rfl).bind fun ctx₁ ⟨bbt, h₁, hsize⟩ => ?_
  subst h₁
  refine (ensures_unmapFactory blocks _).bind fun ctx₂ ⟨h₂, hb₂⟩ => ?_
  have hempty : ctx₂.bbt.blocks = [] := by
    rw [hb₂, BbtTable.blocks, hsize, List.take_zero]
  refine (ensures_addFactory blocks ctx₂ (by rw [hb₂, hsize]; omega)).bind fun ctx₃ ⟨bbt₃, h₃, hb₃, _, _⟩ => Proc.ensures_pure ?_
  subst h₃
  refine ⟨⟨h₂.total, h₂.reserve⟩, h₂.entries, ?_⟩
  simp only [blocks_sortBbt, hb₃, hempty]
  exact lists_sorted h16

/-- A list that is set is stored as it is given, and the BMT loses the blocks of it. -/
structure Checked (np : DeviceNode) (ctx ctx' : Ctx) : Prop where
  frame : Frame ctx ctx'
  bmt : Loses ctx.bmt.entries ctx'.bmt.entries
  bbt : ctx'.bbt.blocks = ctx.bbt.blocks ∨ ∃ blocks, np.factoryBadblocks = some blocks ∧ Lists ctx'.bbt.blocks blocks

theorem checked_refl (np : DeviceNode) (ctx : Ctx) : Checked np ctx ctx := ⟨⟨rfl, rfl⟩, List.Subperm.refl _, .inl rfl⟩

theorem ensures_wFactoryBadblocks {np : DeviceNode} (hn : np.factoryBadblocks = some blocks) (hlen : blocks.length < 256)
    (h16 : ctx.reserveAreaBegin ≤ 65536) : Proc.Ensures Inside (fun r => Checked np ctx r.1) (wFactoryBadblocks ctx blocks) := by
  have hsame : ∀ ret : Int, Proc.Ensures Inside (fun r => Checked np ctx r.1) (pure (ctx, ret) : Fl (Ctx × Int)) := fun _ =>
    Proc.ensures_pure (checked_refl np ctx)
  unfold wFactoryBadblocks
  split
  · exact hsame _
  split
  · exact hsame _
  split
  · exact hsame _
  · rename_i huser
    split
    · exact hsame _
    split
    · exact hsame _
    · have hb : ∀ b ∈ blocks, b.toNat < 65536 := by
        intro b hb
        have hlt : ¬b.toNat ≥ ctx.reserveAreaBegin := fun h => huser (List.any_eq_true.mpr ⟨b, hb, by simpa using h⟩)
        omega
      exact (ensures_setFactory hlen hb).bind fun ctx' ⟨hf, he, hl⟩ => Proc.ensures_pure ⟨hf, he, .inr ⟨blocks, hn, hl⟩⟩

theorem ensures_checkFactory {np : DeviceNode} (hlen : ∀ blocks, np.factoryBadblocks = some blocks → blocks.length < 256)
    (h16 : ctx.reserveAreaBegin ≤ 65536) : Proc.Ensures Inside (fun r => Checked np ctx r.1) (checkFactory np ctx) := by
  unfold checkFactory
  rcases hn : np.factoryBadblocks with _ | blocks
  · exact Proc.ensures_pure (checked_refl np ctx)
  · exact ensures_wFactoryBadblocks hn (hlen blocks hn) h16

end

/-! ### Reconstructed tables -/

section
variable {ctx ctx' : Ctx} {t : Trace}

/-- The BMT is reconstructed from the reserve area. -/
theorem only_reconstructBmt (count : Nat) (ctx : Ctx) : Proc.Only (fun q => ∃ i p, q = .read i p ∧ ctx.reserveAreaBegin ≤ i) (reconstructBmt count ctx) := by
  induction count generalizing ctx with
  | zero => exact Proc.only_pure _
  | succ count ih =>
    unfold reconstructBmt
    refine (Proc.only_ask.mpr ⟨_, _, rfl, Nat.le_add_right _ _⟩).bind fun r => ?_
    cases r with
    | error e => exact ih ctx
    | ok r =>
      dsimp only
      split
      · exact ih ctx
      · exact ih { ctx with bmt := ctx.bmt.push _ }

/-- The BBT is reconstructed from the blocks before it. -/
theorem only_reconstructBbt (ctx : Ctx) {i count n : Nat} (hi : i + count ≤ n) (bbt : BbtTable) :
    Proc.Only (fun q => ∃ b p, q = .read b p ∧ b < n) (reconstructBbt ctx i count bbt) := by
  induction count generalizing i bbt with
  | zero => exact Proc.only_pure _
  | succ count ih =>
    have hrest : i + 1 + count ≤ n := by omega
    unfold reconstructBbt
    split
    · exact ih hrest _
    · refine (Proc.only_ask.mpr ⟨_, _, rfl, by omega⟩).bind fun r => ?_
      cases r with
      | error e => exact ih hrest _
      | ok r =>
        dsimp only
        split
        · exact ih hrest _
        · exact ih hrest _

theorem filterMap_badFound_eq_nil {n : Nat} (h : ∀ e ∈ t, ∃ i p, e.1 = Op.read i p ∧ n ≤ i) : t.filterMap (badFound n) = [] := by
  refine List.filterMap_eq_nil_iff.mpr fun ⟨q, r⟩ he => ?_
  obtain ⟨i, p, rfl, hi⟩ := h _ he
  cases r with
  | error e => exact if_pos hi
  | ok r => exact if_pos hi

theorem filterMap_mappingFound_eq_nil {n : Nat} (h : ∀ e ∈ t, ∃ i p, e.1 = Op.read i p ∧ i < n) : t.filterMap (mappingFound n) = [] := by
  refine List.filterMap_eq_nil_iff.mpr fun ⟨q, r⟩ he => ?_
  obtain ⟨i, p, rfl, hi⟩ := h _ he
  cases r with
  | error e => rfl
  | ok r => exact if_pos hi

/-- Each table is as it was, or holds everything that was found for it. -/
structure Ensured (ctx : Ctx) (t : Trace) (ctx' : Ctx) : Prop where
  frame : Frame ctx ctx'
  bmt : ctx'.bmt.entries = ctx.bmt.entries ∨ ctx'.bmt.entries = t.filterMap (mappingFound ctx.reserveAreaBegin)
  bbt : ctx'.bbt.blocks = ctx.bbt.blocks ∨ ctx'.bbt.blocks = (t.filterMap (badFound ctx.reserveAreaBegin)).insertionSort (· ≤ ·)

/-- Everything that is found has room in the tables. -/
def Room (reserveAreaBegin : Nat) (t : Trace) : Prop :=
  (t.filterMap (mappingFound reserveAreaBegin)).length < 256 ∧ (t.filterMap (badFound reserveAreaBegin)).length < 256

theorem ensured_refl (ctx : Ctx) : Ensured ctx [] ctx := ⟨⟨rfl, rfl⟩, .inl rfl, .inl rfl⟩

theorem frame_reconstructBmt {count : Nat} (h : Proc.Runs (reconstructBmt count ctx) t ctx') : Frame ctx ctx' ∧ ctx'.bbt = ctx.bbt := by
  induction count generalizing ctx t with
  | zero =>
    obtain ⟨-, rfl⟩ := Proc.runs_pure.mp h
    exact ⟨⟨rfl, rfl⟩, rfl⟩
  | succ count ih =>
    obtain ⟨t₁, t₂, r, rfl, -, k⟩ := Proc.runs_bind.mp h
    cases r with
    | error e => exact ih k
    | ok r =>
      dsimp only at k
      split at k
      · exact ih k
      · obtain ⟨hf, hb⟩ := ih k
        exact ⟨⟨hf.total, hf.reserve⟩, hb⟩

theorem ensured_rReconstructBmt (hroom : Room ctx.reserveAreaBegin t) (h : Proc.Runs (rReconstructBmt ctx) t ctx') :
    Ensured ctx t ctx' ∧ ctx'.bbt = ctx.bbt ∧ t.filterMap (badFound ctx.reserveAreaBegin) = [] := by
  obtain ⟨hf, hb⟩ := frame_reconstructBmt h
  refine ⟨⟨⟨hf.total, hf.reserve⟩, .inr ((rReconstructBmt_entries_iff h).mpr hroom.1), .inl (congrArg _ hb)⟩, hb, ?_⟩
  exact filterMap_badFound_eq_nil ((only_reconstructBmt _ { ctx with bmt := ctx.bmt.reset, bmtDirty := ctx.bmtDirty + 1 }).runs h)

theorem ensured_rReconstructBbt {ret : Int} (hroom : Room ctx.reserveAreaBegin t) (h : Proc.Runs (rReconstructBbt ctx) t (ctx', ret)) :
    Ensured ctx t ctx' ∧ ctx'.bmt = ctx.bmt ∧ t.filterMap (mappingFound ctx.reserveAreaBegin) = [] := by
  have h' := h
  unfold rReconstructBbt at h'
  split at h'
  · obtain ⟨rfl, h0⟩ := Proc.runs_pure.mp h'
    cases h0
    exact ⟨ensured_refl ctx, rfl, rfl⟩
  · obtain ⟨t₁, t₂, bbt, rfl, h1, k⟩ := Proc.runs_bind.mp h'
    obtain ⟨rfl, h0⟩ := Proc.runs_pure.mp k
    cases h0
    refine ⟨⟨⟨rfl, rfl⟩, .inl rfl, .inr ((rReconstructBbt_blocks_iff h).mpr hroom.2)⟩, rfl, ?_⟩
    rw [List.append_nil]
    exact filterMap_mappingFound_eq_nil ((only_reconstructBbt ctx (by omega) _).runs h1)

/-- The tables are found, or reconstructed in full. -/
theorem ensured_ensureTables {np : DeviceNode} {ret : Int} (hroom : Room ctx.reserveAreaBegin t) (h : Proc.Runs (ensureTables np ctx) t (ctx', ret)) :
    Ensured ctx t ctx' := by
  have hsame : ∀ {ret₀ : Int}, Proc.Runs (pure (ctx, ret₀) : Fl (Ctx × Int)) t (ctx', ret) → Ensured ctx t ctx' := by
    intro ret₀ h
    obtain ⟨rfl, h0⟩ := Proc.runs_pure.mp h
    cases h0
    exact ensured_refl ctx
  have hbmt : Proc.Runs (do
      let ctx ← rReconstructBmt ctx
      pure (ctx, (0 : Int))) t (ctx', ret) → Ensured ctx t ctx' := by
    intro h
    obtain ⟨t₁, t₂, ctx₁, rfl, h1, k⟩ := Proc.runs_bind.mp h
    obtain ⟨rfl, h0⟩ := Proc.runs_pure.mp k
    cases h0
    rw [List.append_nil] at hroom ⊢
    exact (ensured_rReconstructBmt hroom h1).1
  unfold ensureTables at h
  split at h
  · split at h
    · exact hbmt h
    · exact hsame h
  · split at h
    · exact hsame h
    · split at h
      · split at h
        · exact hbmt h
        · exact hsame h
      · split at h
        · exact (ensured_rReconstructBbt hroom h).1
        · obtain ⟨t₁, t₂, ctx₁, rfl, h1, h2⟩ := Proc.runs_bind.mp h
          rw [Room, List.filterMap_append, List.filterMap_append, List.length_append, List.length_append] at hroom
          obtain ⟨he₁, hb₁, hnil₁⟩ := ensured_rReconstructBmt ⟨by omega, by omega⟩ h1
          have hr : ctx₁.reserveAreaBegin = ctx.reserveAreaBegin := he₁.frame.reserve
          obtain ⟨he₂, hm₂, hnil₂⟩ := ensured_rReconstructBbt ⟨by rw [hr]; omega, by rw [hr]; omega⟩ h2
          rw [hr] at hnil₂
          refine ⟨he₁.frame.trans he₂.frame, ?_, ?_⟩
          · rw [hm₂, List.filterMap_append, hnil₂, List.append_nil]
            exact he₁.bmt
          · rw [List.filterMap_append, hnil₁, List.nil_append, ← hr]
            rcases he₂.bbt with hb | hb
            · exact .inl (hb.trans (congrArg _ hb₁))
            · exact .inr hb

theorem ensures_ensureTables (np : DeviceNode) (ctx : Ctx) : Proc.Ensures Inside (fun r => Frame ctx r.1) (ensureTables np ctx) := by
  have hbmt : Proc.Ensures Inside (Frame ctx) (rReconstructBmt ctx) := fun t ctx' h => by
    obtain ⟨hf, -⟩ := frame_reconstructBmt h
    refine ⟨((only_reconstructBmt _ { ctx with bmt := ctx.bmt.reset, bmtDirty := ctx.bmtDirty + 1 }).mono ?_).runs h, hf.total, hf.reserve⟩
    rintro _ ⟨i, p, rfl, -⟩
    exact inside_read i p
  have hbbt : ∀ ctx₁, Frame ctx ctx₁ → Proc.Ensures Inside (fun r => Frame ctx r.1) (rReconstructBbt ctx₁) := by
    intro ctx₁ h₁
    unfold rReconstructBbt
    split
    · exact Proc.ensures_pure h₁
    · refine ((only_reconstructBbt ctx₁ (Nat.le_refl _) _).mono ?_).ensures.bind fun _ _ => Proc.ensures_pure ⟨h₁.total, h₁.reserve⟩
      rintro _ ⟨i, p, rfl, -⟩
      exact inside_read i p
  have hsame : ∀ ret : Int, Proc.Ensures Inside (fun r => Frame ctx r.1) (pure (ctx, ret) : Fl (Ctx × Int)) := fun _ =>
    Proc.ensures_pure ⟨rfl, rfl⟩
  unfold ensureTables
  split
  · split
    · exact hbmt.bind fun _ h => Proc.ensures_pure h
    · exact hsame 0
  · split
    · exact hsame _
    · split
      · split
        · exact hbmt.bind fun _ h => Proc.ensures_pure h
        · exact hsame 0
      · split
        · exact hbbt ctx ⟨rfl, rfl⟩
        · exact hbmt.bind fun ctx₁ h₁ => hbbt ctx₁ h₁

end

/-! ### Sessions -/

/-- The driver starts and is called, until it ends. -/
def session (np : DeviceNode) (totalBlks pgSize blkPages : Nat) (calls : List Call) : Fl Ctx := do
  let (ctx, ret) ← pubInit np totalBlks pgSize blkPages
  if ret ≠ 0 then pure ctx else calls.foldlM Call.prog ctx

/-- `MAX_FACTORY_BAD_BLOCKS_OF`. -/
def maxFactoryBadBlocksOf : Nat := 32

section
variable (np : DeviceNode) (totalBlks pgSize blkPages : Nat)

/-- A run in which no counter wraps: each step stores what it has to store. -/
inductive Counted : Trace → Ctx → Prop
  | scanned {t : Trace} {ctx : Ctx} {ret : Int} (h : Proc.Runs (rScanReserve { totalBlks := totalBlks, pgSize := pgSize, blkPages := blkPages }) t (ctx, ret)) :
    Counted t ctx
  | ensured {t t' : Trace} {ctx ctx' : Ctx} {ret : Int} (h : Counted t ctx) (hr : Proc.Runs (ensureTables np (configure np ctx)) t' (ctx', ret))
      (he : Ensured (configure np ctx) t' ctx') : Counted (t ++ t') ctx'
  | checked {t t' : Trace} {ctx ctx' : Ctx} {ret : Int} (h : Counted t ctx) (hr : Proc.Runs (checkFactory np ctx) t' (ctx', ret))
      (hc : Checked np ctx ctx') : Counted (t ++ t') ctx'
  | synced {t t' : Trace} {ctx ctx' : Ctx} {ret : Int} (h : Counted t ctx) (hr : Proc.Runs (wSyncTables ctx) t' (ctx', ret))
      (hk : Keeps Eq ctx ctx') : Counted (t ++ t') ctx'
  | called {t t' : Trace} {ctx ctx' : Ctx} {c : Call} (h : Counted t ctx) (hr : Proc.Runs (c.prog ctx) t' ctx')
      (hk : Keeps Edit ctx ctx') : Counted (t ++ t') ctx'

/-- A run on a chip whose reserve area is no larger than the BMT, and which holds no more than fits the tables. -/
def Limited (t : Trace) : Prop :=
  ∀ t₁ u ctx, t = t₁ ++ u → Proc.Runs (rScanReserve { totalBlks := totalBlks, pgSize := pgSize, blkPages := blkPages }) t₁ (ctx, 0) →
    ctx.Fits ∧ ∀ t₂ u₂ r, u = t₂ ++ u₂ → Proc.Runs (ensureTables np (configure np ctx)) t₂ r → Room ctx.reserveAreaBegin t₂

end

section
variable {np : DeviceNode} {totalBlks pgSize blkPages : Nat} {ctx ctx' : Ctx} {t t' : Trace}

theorem frame_configure (np : DeviceNode) (ctx : Ctx) : Frame ctx (configure np ctx) := by
  obtain ⟨l, hl⟩ := configure_eq np ctx
  have h := hl ctx.bmt ctx.rblocks
  change configure np ctx = _ at h
  rw [h]
  exact ⟨rfl, rfl⟩

theorem only_rScanReserve (ctx : Ctx) : Proc.Only Inside (rScanReserve ctx) := by
  have hscan := (only_scanFrom (ctx.totalBlks - 1) 0 ctx).mono fun q ⟨b, hq⟩ => (hq ▸ inside_read b 0 : Inside q)
  refine hscan.bind fun r => ?_
  dsimp only
  split
  · exact Proc.only_pure _
  · exact Proc.only_pure _

theorem inside_append {t₁ t₂ : Trace} (h₁ : ∀ e ∈ t₁, Inside e.1) (h₂ : ∀ e ∈ t₂, Inside e.1) : ∀ e ∈ t₁ ++ t₂, Inside e.1 :=
  fun e he => (List.mem_append.mp he).elim (h₁ e) (h₂ e)

theorem counted_calls (hf : ctx.Fits) (h : Counted np totalBlks pgSize blkPages t ctx) {calls : List Call}
    (hr : Proc.Runs (calls.foldlM Call.prog ctx) t' ctx') : (∀ e ∈ t', Inside e.1) ∧ Counted np totalBlks pgSize blkPages (t ++ t') ctx' := by
  induction calls generalizing ctx t t' with
  | nil =>
    obtain ⟨rfl, rfl⟩ := Proc.runs_pure.mp hr
    exact ⟨by simp, by rwa [List.append_nil]⟩
  | cons c calls ih =>
    rw [List.foldlM_cons] at hr
    obtain ⟨t₁, t₂, ctx₁, rfl, h1, h2⟩ := Proc.runs_bind.mp hr
    obtain ⟨hin₁, hk₁⟩ := ensures_call hf c t₁ ctx₁ h1
    obtain ⟨hin₂, hc₂⟩ := ih (hk₁.fits hf) (.called h h1 hk₁) h2
    rw [List.append_assoc] at hc₂
    exact ⟨inside_append hin₁ hin₂, hc₂⟩

theorem rScanReserve_le (h : Proc.Runs (rScanReserve ctx) t (ctx', 0)) : ctx'.reserveAreaBegin ≤ ctx.totalBlks - 1 := by
  obtain ⟨t₁, t₂, ⟨ctx₁, stop⟩, rfl, h1, k⟩ := Proc.runs_bind.mp h
  have hle := (scanFrom_le h1).1
  dsimp only at k
  split at k
  · obtain ⟨-, h0⟩ := Proc.runs_pure.mp k
    cases h0
  · obtain ⟨-, h0⟩ := Proc.runs_pure.mp k
    cases h0
    exact hle

/-- From the scan to the list: nothing is written behind a table, and no counter has wrapped. -/
theorem counted_wInit {ret : Int} (ht : totalBlks ≤ 65535) (hl : ∀ blocks, np.factoryBadblocks = some blocks → blocks.length ≤ maxFactoryBadBlocksOf)
    (hlim : Limited np totalBlks pgSize blkPages (t ++ t'))
    (h : Proc.Runs (wInit np { totalBlks := totalBlks, pgSize := pgSize, blkPages := blkPages }) t (ctx, ret)) :
    (∀ e ∈ t, Inside e.1) ∧ Counted np totalBlks pgSize blkPages t ctx ∧ (ret = 0 → ctx.Fits) := by
  obtain ⟨t₁, u₁, ⟨ctx₁, ret₁⟩, rfl, h1, k₁⟩ := Proc.runs_bind.mp h
  have hin₁ := (only_rScanReserve _).runs h1
  dsimp only at k₁
  split at k₁
  · rename_i hne
    obtain ⟨rfl, h0⟩ := Proc.runs_pure.mp k₁
    cases h0
    exact ⟨by simpa using hin₁, by simpa using .scanned h1, fun h => absurd h hne⟩
  · rename_i hz
    obtain rfl : ret₁ = 0 := by simpa using hz
    obtain ⟨hfits, hroom⟩ := hlim t₁ (u₁ ++ t') ctx₁ (List.append_assoc _ _ _) h1
    have hbegin := rScanReserve_le h1
    split at k₁
    · obtain ⟨rfl, h0⟩ := Proc.runs_pure.mp k₁
      cases h0
      exact ⟨by simpa using hin₁, by simpa using .scanned h1, fun _ => hfits⟩
    · obtain ⟨t₂, u₂, ⟨ctx₂, ret₂⟩, rfl, h2, k₂⟩ := Proc.runs_bind.mp k₁
      have hframe := frame_configure np ctx₁
      have hin₂ := (ensures_ensureTables np _ _ _ h2).1
      have he₂ := ensured_ensureTables (by rw [hframe.reserve]; exact hroom t₂ (u₂ ++ t') _ (List.append_assoc _ _ _) h2) h2
      have hc₂ : Counted np totalBlks pgSize blkPages (t₁ ++ t₂) ctx₂ := .ensured (.scanned h1) h2 he₂
      have hfits₂ := (hframe.trans he₂.frame).fits hfits
      dsimp only at k₂
      split at k₂
      · obtain ⟨rfl, h0⟩ := Proc.runs_pure.mp k₂
        cases h0
        rw [List.append_nil]
        exact ⟨inside_append hin₁ hin₂, hc₂, fun _ => hfits₂⟩
      · have h16 : ctx₂.reserveAreaBegin ≤ 65536 := by
          rw [(hframe.trans he₂.frame).reserve]
          dsimp only at hbegin
          omega
        have hlen : ∀ blocks, np.factoryBadblocks = some blocks → blocks.length < 256 := fun blocks hn => by
          have := hl blocks hn
          rw [maxFactoryBadBlocksOf] at this
          omega
        obtain ⟨hin₃, hk₃⟩ := ensures_checkFactory hlen h16 _ _ k₂
        refine ⟨inside_append hin₁ (inside_append hin₂ hin₃), ?_, fun _ => hk₃.frame.fits hfits₂⟩
        rw [← List.append_assoc]
        exact .checked hc₂ k₂ hk₃

theorem counted_pubInit {ret : Int} (ht : totalBlks ≤ 65535) (hl : ∀ blocks, np.factoryBadblocks = some blocks → blocks.length ≤ maxFactoryBadBlocksOf)
    (hlim : Limited np totalBlks pgSize blkPages (t ++ t')) (h : Proc.Runs (pubInit np totalBlks pgSize blkPages) t (ctx, ret)) :
    (∀ e ∈ t, Inside e.1) ∧ Counted np totalBlks pgSize blkPages t ctx ∧ (ret = 0 → ctx.Fits) := by
  obtain ⟨t₁, u₁, ⟨ctx₁, ret₁⟩, rfl, h1, k₁⟩ := Proc.runs_bind.mp h
  rw [List.append_assoc] at hlim
  obtain ⟨hin₁, hc₁, hf₁⟩ := counted_wInit ht hl hlim h1
  dsimp only at k₁
  split at k₁
  · rename_i hne
    obtain ⟨rfl, h0⟩ := Proc.runs_pure.mp k₁
    cases h0
    rw [List.append_nil]
    exact ⟨hin₁, hc₁, hf₁⟩
  · rename_i hz
    have hfits := hf₁ (by simpa using hz)
    obtain ⟨t₂, u₂, ⟨ctx₂, ret₂⟩, rfl, h2, k₂⟩ := Proc.runs_bind.mp k₁
    obtain ⟨rfl, h0⟩ := Proc.runs_pure.mp k₂
    cases h0
    obtain ⟨hin₂, hk₂⟩ := ensures_wSyncTables (.inr hfits) _ _ h2
    rw [List.append_nil]
    exact ⟨inside_append hin₁ hin₂, .synced hc₁ h2 hk₂, fun _ => hk₂.fits hfits⟩

/-- Few blocks and a short run fit. -/
theorem limited_of_small (hb : totalBlks ≤ maxBmtSize) (hlen : t.length < 256) : Limited np totalBlks pgSize blkPages t := by
  rintro t₁ u ctx rfl h1
  obtain ⟨t₂, t₃, ⟨ctx₁, stop⟩, rfl, h2, k⟩ := Proc.runs_bind.mp h1
  have htotal := (scanFrom_le h2).2
  dsimp only at k
  split at k
  · obtain ⟨-, h0⟩ := Proc.runs_pure.mp k
    cases h0
  · obtain ⟨-, h0⟩ := Proc.runs_pure.mp k
    cases h0
    refine ⟨?_, ?_⟩
    · unfold Ctx.Fits Ctx.reserveBlockCount
      dsimp only at htotal ⊢
      omega
    · rintro t₄ u₂ r rfl -
      have hlt : t₄.length < 256 := by
        simp only [List.length_append] at hlen
        omega
      exact ⟨(List.length_filterMap_le _ _).trans_lt hlt, (List.length_filterMap_le _ _).trans_lt hlt⟩

/-- On a chip of which no more is in reserve and no more is found than fits, no session writes behind a table
    or lets a counter wrap. -/
theorem session_bounded (ht : totalBlks ≤ 65535) (hl : ∀ blocks, np.factoryBadblocks = some blocks → blocks.length ≤ maxFactoryBadBlocksOf)
    {calls : List Call} (h : Proc.Runs (session np totalBlks pgSize blkPages calls) t ctx) (hlim : Limited np totalBlks pgSize blkPages t) :
    (∀ e ∈ t, e.1 ≠ .overrun) ∧ Counted np totalBlks pgSize blkPages t ctx := by
  obtain ⟨t₁, u₁, ⟨ctx₁, ret₁⟩, rfl, h1, k₁⟩ := Proc.runs_bind.mp h
  obtain ⟨hin₁, hc₁, hf₁⟩ := counted_pubInit ht hl hlim h1
  dsimp only at k₁
  split at k₁
  · obtain ⟨rfl, rfl⟩ := Proc.runs_pure.mp k₁
    rw [List.append_nil]
    exact ⟨hin₁, hc₁⟩
  · rename_i hz
    obtain ⟨hin₂, hc₂⟩ := counted_calls (hf₁ (by simpa using hz)) hc₁ k₁
    exact ⟨inside_append hin₁ hin₂, hc₂⟩

end

/-- A chip without tables. -/
def freshNode : DeviceNode := { canWriteFactoryBbt := true, enableRemap := true, factoryBadblocks := none }

/-- Nothing fails, and the blocks from a number on are bad. -/
def badFrom (n : Nat) : (q : Op) → Answer q
  | .erase _ => (0 : Int)
  | .program _ _ _ _ => (0 : Int)
  | .read b _ => .ok ([], if b ≥ n then [0, 0, 0xff, 0xff] else [0xff, 0xff, 0xff, 0xff])
  | .overrun => nullCtx

theorem session_bounded_fresh : ∃ t ctx, Proc.Runs (session freshNode 25 2048 64 [.remap 3 3 0]) t ctx ∧
    ctx.bmt.size = 1 ∧ ⟨23, .mapped⟩ ∈ ctx.rblocks ∧ (∀ e ∈ t, e.1 ≠ .overrun) ∧ Counted freshNode 25 2048 64 t ctx := by
  have hrun := Proc.runs_follow (badFrom 25) (session freshNode 25 2048 64 [.remap 3 3 0])
  have hlen : (Proc.follow (badFrom 25) (session freshNode 25 2048 64 [.remap 3 3 0])).1.length < 256 := by decide
  have hmapped : (Proc.follow (badFrom 25) (session freshNode 25 2048 64 [.remap 3 3 0])).2.bmt.size = 1 ∧
      ⟨23, .mapped⟩ ∈ (Proc.follow (badFrom 25) (session freshNode 25 2048 64 [.remap 3 3 0])).2.rblocks := by decide +kernel
  exact ⟨_, _, hrun, hmapped.1, hmapped.2, session_bounded (by decide) (fun _ h => nomatch h) hrun (limited_of_small (by decide) hlen)⟩

/-- Of 300 blocks those from 67 on are bad, so 257 are in reserve: the first start writes behind the table. -/
theorem session_overruns : ∃ np totalBlks pgSize blkPages calls t ctx, totalBlks ≤ 65535 ∧ Proc.Runs (session np totalBlks pgSize blkPages calls) t ctx ∧
    ∃ e ∈ t, e.1 = Op.overrun := by
  have hany : (Proc.follow (badFrom 67) (session freshNode 300 2048 64 [])).1.any (·.1 = .overrun) = true := by decide +kernel
  obtain ⟨e, he, heq⟩ := List.any_eq_true.mp hany
  exact ⟨freshNode, 300, 2048, 64, [], _, _, by decide, Proc.runs_follow (badFrom 67) _, e, he, by simpa using heq⟩

end RainWrt.En75
