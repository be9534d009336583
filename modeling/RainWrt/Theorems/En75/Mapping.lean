import RainWrt.En75.Init

/-! The mapping of user blocks, read off the two tables, and what the changes of the BMT do to it. -/

namespace RainWrt.En75

/-! ### Shifting by the BBT -/

/-- The shift of a block by a list of bad blocks. -/
def shift (bad : List UInt16) (block : Nat) : Nat := bad.foldl (fun block b => if b.toNat ≤ block then block + 1 else block) block

theorem shift_lt_shift (bad : List UInt16) {u v : Nat} (h : u < v) : shift bad u < shift bad v := by
  induction bad generalizing u v with
  | nil => exact h
  | cons b bad ih =>
    refine ih ?_
    dsimp only
    split <;> split <;> omega

theorem shift_le (bad : List UInt16) (u : Nat) : shift bad u ≤ u + bad.length := by
  induction bad generalizing u with
  | nil => exact Nat.le_refl _
  | cons b bad ih =>
    refine (ih _).trans ?_
    dsimp only
    rw [List.length_cons]
    split <;> omega

section
variable {ctx ctx' : Ctx} {u v b : Nat}

theorem getMappingBlockBbt_eq_some : ctx.getMappingBlockBbt u = some b ↔ b = shift ctx.bbt.blocks u ∧ b < ctx.reserveAreaBegin := by
  change (if shift ctx.bbt.blocks u ≥ ctx.reserveAreaBegin then none else some (shift ctx.bbt.blocks u)) = some b ↔ _
  split
  · simp only [reduceCtorEq, false_iff, not_and]
    omega
  · simp only [Option.some.injEq]
    omega

theorem getMappingBlockBbt_inj (hu : ctx.getMappingBlockBbt u = some b) (hv : ctx.getMappingBlockBbt v = some b) : u = v := by
  obtain ⟨h1, -⟩ := getMappingBlockBbt_eq_some.mp hu
  obtain ⟨h2, -⟩ := getMappingBlockBbt_eq_some.mp hv
  rcases Nat.lt_trichotomy u v with h | h | h
  · have := shift_lt_shift ctx.bbt.blocks h
    omega
  · exact h
  · have := shift_lt_shift ctx.bbt.blocks h
    omega

theorem length_blocks (t : BbtTable) : t.blocks.length = t.size.toNat := by
  have := t.size.toNat_lt
  rw [BbtTable.blocks, List.length_take, t.table_length, maxBbtSize]
  omega

/-- A block inside the size of the device has a place in the user area. -/
theorem getMappingBlockBbt_isSome (h : u < ctx.userBlocks) : ∃ b, ctx.getMappingBlockBbt u = some b := by
  refine ⟨_, getMappingBlockBbt_eq_some.mpr ⟨rfl, ?_⟩⟩
  have := shift_le ctx.bbt.blocks u
  rw [length_blocks] at this
  unfold Ctx.userBlocks at h
  omega

end

/-! ### Entries of the BMT -/

section
variable {t : BmtTable} {b d i : Nat} {e : BmtEntry}

theorem length_entries (t : BmtTable) : t.entries.length = t.size.toNat := by
  have := t.size.toNat_lt
  rw [BmtTable.entries, List.length_take, t.table_length, maxBmtSize]
  omega

/-- No block is mapped twice. -/
def BmtTable.SrcNodup (t : BmtTable) : Prop := (t.entries.map BmtEntry.src).Nodup

theorem BmtTable.SrcNodup.eq (h : t.SrcNodup) {e' : BmtEntry} (he : e ∈ t.entries) (he' : e' ∈ t.entries) (hs : e.src = e'.src) : e = e' :=
  List.inj_on_of_nodup_map h he he' hs

/-- The entry that decides for a block is the one that there is. -/
theorem find_reverse_eq_some (h : t.SrcNodup) : t.entries.reverse.find? (·.src.toNat = b) = some e ↔ e ∈ t.entries ∧ e.src.toNat = b := by
  constructor
  · intro hf
    exact ⟨List.mem_reverse.mp (List.mem_of_find?_eq_some hf), by simpa using List.find?_some hf⟩
  · rintro ⟨hm, hb⟩
    rcases hf : t.entries.reverse.find? (·.src.toNat = b) with _ | e'
    · have := List.find?_eq_none.mp hf e (List.mem_reverse.mpr hm)
      simp [hb] at this
    · have hm' := List.mem_reverse.mp (List.mem_of_find?_eq_some hf)
      have hb' : e'.src.toNat = b := by simpa using List.find?_some hf
      rw [h.eq hm hm' (UInt16.toNat_inj.mp (hb.trans hb'.symm)), ← hf]

/-- Two tables with the same entries for a block map it to the same place. -/
theorem find_reverse_congr {t' : BmtTable} (h : t.SrcNodup) (h' : t'.SrcNodup) (hm : ∀ e : BmtEntry, e.src.toNat = b → (e ∈ t'.entries ↔ e ∈ t.entries)) :
    t'.entries.reverse.find? (·.src.toNat = b) = t.entries.reverse.find? (·.src.toNat = b) := by
  refine Option.ext fun e => ?_
  rw [find_reverse_eq_some h, find_reverse_eq_some h']
  constructor
  · rintro ⟨he, hb⟩
    exact ⟨(hm e hb).mp he, hb⟩
  · rintro ⟨he, hb⟩
    exact ⟨(hm e hb).mpr he, hb⟩

theorem indexOf_eq_some (h : t.indexOf b = some i) : ∃ e, t.entries[i]? = some e ∧ e.src.toNat = b := by
  obtain ⟨hi, hp, -⟩ := List.findIdx?_eq_some_iff_getElem.mp h
  exact ⟨_, List.getElem?_eq_getElem hi, by simpa using hp⟩

theorem indexOf_eq_none (h : t.indexOf b = none) : ∀ e ∈ t.entries, e.src.toNat ≠ b := by
  intro e he
  simpa using List.findIdx?_eq_none_iff.mp h e he

/-! ### Changes of the BMT -/

/-- A new entry goes behind the others. -/
theorem entries_assign_none (h : t.indexOf b = none) (hs : t.size ≠ 0xff) :
    (t.assign b d).entries = t.entries ++ [⟨.ofNat b, .ofNat d⟩] := by
  have hlt := t.size.toNat_lt
  have hne : t.size.toNat ≠ 255 := fun h0 => hs (UInt8.toNat_inj.mp h0)
  have hsize : (t.size + 1).toNat = t.size.toNat + 1 := by
    rw [UInt8.toNat_add]
    simp only [UInt8.reduceToNat]
    omega
  have hlen : t.size.toNat < t.table.length := by
    rw [t.table_length, maxBmtSize]
    omega
  unfold BmtTable.assign
  rw [h]
  simp only [BmtTable.entries, hsize]
  rw [List.take_add_one, List.getElem?_set_self hlen, List.take_set_of_le (Nat.le_refl _)]
  rfl

/-- The entry of a block that is mapped gets a new place. -/
theorem entries_assign_some (h : t.indexOf b = some i) :
    (t.assign b d).entries = t.entries.modify i fun e => { e with dst := .ofNat d } := by
  unfold BmtTable.assign
  rw [h]
  apply List.ext_getElem?
  intro j
  simp only [BmtTable.entries, List.getElem?_take, List.getElem?_modify]
  split
  · rfl
  · rfl

/-- The last entry comes into the place of the one that is removed. -/
theorem entries_remove (h : i < t.size.toNat) : ((t.remove i).entries).Perm (t.entries.eraseIdx i) := by
  have hlt := t.size.toNat_lt
  have hlen := length_entries t
  have hsize : (UInt8.ofNat (t.size.toNat - 1)).toNat = t.size.toNat - 1 := UInt8.toNat_ofNat_of_lt' (show _ < 256 by omega)
  obtain ⟨l, a, hl⟩ : ∃ l a, t.entries = l ++ [a] := by
    rcases List.eq_nil_or_concat t.entries with h0 | ⟨l, a, hla⟩
    · rw [h0] at hlen
      simp at hlen
      omega
    · exact ⟨l, a, by rw [hla, List.concat_eq_append]⟩
  have hll : l.length = t.size.toNat - 1 := by
    rw [hl, List.length_append, List.length_singleton] at hlen
    omega
  have hlast : t.table.getD (t.size.toNat - 1) .zero = a := by
    have h1 : t.entries[t.size.toNat - 1]? = some a := by rw [hl, ← hll, List.getElem?_append_right (Nat.le_refl _), Nat.sub_self]; rfl
    have h2 : t.entries[t.size.toNat - 1]? = t.table[t.size.toNat - 1]? := by
      rw [BmtTable.entries, List.getElem?_take_of_lt (by omega)]
    rw [List.getD_eq_getElem?_getD, ← h2, h1]
    rfl
  have hrem : (t.remove i).entries = ((l ++ [a]).set i a).take l.length := by
    unfold BmtTable.entries BmtTable.remove
    dsimp only
    rw [hsize, hlast, List.take_set_of_le (Nat.le_refl _), hll, ← hl, BmtTable.entries, ← List.take_set, List.take_take, Nat.min_eq_left (by omega)]
  rw [hrem, hl]
  rcases Nat.lt_or_ge i l.length with hi | hi
  · rw [List.set_append_left _ _ hi, List.take_left' (by simp), List.eraseIdx_append_of_lt_length hi]
    exact (List.set_perm_cons_eraseIdx hi a).trans (List.perm_append_singleton a _).symm
  · rw [List.set_append_right _ _ hi, List.take_left' rfl, List.eraseIdx_append_of_length_le hi]
    have : i - l.length = 0 := by omega
    rw [this]
    simp

end

end RainWrt.En75
