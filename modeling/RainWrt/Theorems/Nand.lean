import RainWrt.Nand

/-! What an operation leaves as it was. An operation on a block does not touch the other blocks, and an
    operation on a page does not touch the other pages of its block. -/

namespace RainWrt.Nand

/-- `n'` comes from `n` by operations on block `b`. -/
structure OnBlock (b : Nat) (n n' : Nand) : Prop where
  page : ∀ b', b' ≠ b → n'.page b' = n.page b'
  bad : ∀ b', b' ≠ b → n'.bad b' = n.bad b'
  fault : n'.fault = n.fault
  emptyOk : n'.emptyOk = n.emptyOk
  log : ∃ ops, n'.log = ops ++ n.log ∧ ∀ o ∈ ops, o.ba = b

/-- `n'` comes from `n` by operations that keep all content and all bad marks. -/
structure Quiet (n n' : Nand) : Prop where
  page : n'.page = n.page
  bad : n'.bad = n.bad
  fault : n'.fault = n.fault
  emptyOk : n'.emptyOk = n.emptyOk
  log : n'.log = n.log

namespace Quiet
variable {n n' n'' : Nand}

theorem refl (n : Nand) : Quiet n n := ⟨rfl, rfl, rfl, rfl, rfl⟩

theorem tick (n : Nand) : Quiet n n.tick := ⟨rfl, rfl, rfl, rfl, rfl⟩

theorem trans (h : Quiet n n') (h' : Quiet n' n'') : Quiet n n'' :=
  ⟨h'.page.trans h.page, h'.bad.trans h.bad, h'.fault.trans h.fault, h'.emptyOk.trans h.emptyOk, h'.log.trans h.log⟩

theorem sound (h : Quiet n n') (hs : n.Sound) : n'.Sound := by
  intro k
  rw [h.fault]
  exact hs k

theorem peek (h : Quiet n n') (pgSize b p : Nat) : n'.peek pgSize b p = n.peek pgSize b p := by
  simp only [Nand.peek, h.page, h.emptyOk]

end Quiet

namespace OnBlock
variable {b : Nat} {n n' n'' : Nand}

theorem refl (b : Nat) (n : Nand) : OnBlock b n n :=
  ⟨fun _ _ => rfl, fun _ _ => rfl, rfl, rfl, [], rfl, by simp⟩

theorem trans (h : OnBlock b n n') (h' : OnBlock b n' n'') : OnBlock b n n'' where
  page b' hb := (h'.page b' hb).trans (h.page b' hb)
  bad b' hb := (h'.bad b' hb).trans (h.bad b' hb)
  fault := h'.fault.trans h.fault
  emptyOk := h'.emptyOk.trans h.emptyOk
  log := by
    obtain ⟨ops, hl, ho⟩ := h.log
    obtain ⟨ops', hl', ho'⟩ := h'.log
    refine ⟨ops' ++ ops, by rw [hl', hl, List.append_assoc], fun o h => ?_⟩
    rcases List.mem_append.mp h with h | h
    · exact ho' o h
    · exact ho o h

theorem of_quiet (h : Quiet n n') : OnBlock b n n' :=
  ⟨fun _ _ => by rw [h.page], fun _ _ => by rw [h.bad], h.fault, h.emptyOk, [], h.log, by simp⟩

end OnBlock

section
variable (n : Nand) (b p : Nat)

theorem onBlock_store (k : OpKind) (c : Content) (hc : ∀ b', b' ≠ b → c b' = n.page b') :
    OnBlock b n (n.store k b c) :=
  ⟨hc, fun _ _ => rfl, rfl, rfl, [⟨k, b, c⟩], rfl, by simp⟩

theorem setBlock_of_ne {c : Content} {f : Nat → Page} {b' : Nat} (h : b' ≠ b) : setBlock c b f b' = c b' :=
  if_neg h

theorem onBlock_erase : OnBlock b n (n.erase b).2 := by
  unfold Nand.erase
  split <;> exact onBlock_store n b _ _ fun _ h => setBlock_of_ne b h

theorem onBlock_program (bytes : Bytes) : OnBlock b n (n.program b p bytes).2 := by
  unfold Nand.program
  split <;> exact onBlock_store n b _ _ fun _ h => setBlock_of_ne b h

theorem quiet_read (pgSize : Nat) : Quiet n (n.read pgSize b p).2 := by
  unfold Nand.read
  split <;> exact Quiet.tick n

theorem onBlock_blockIsbad : OnBlock b n (n.blockIsbad b).2 := by
  unfold Nand.blockIsbad
  split
  · refine ⟨fun _ _ => rfl, fun b' h => ?_, rfl, rfl, [], rfl, by simp⟩
    simp [h]
  · exact .of_quiet (Quiet.tick n)

theorem page_blockIsbad : (n.blockIsbad b).2.page = n.page := by
  unfold Nand.blockIsbad
  split <;> rfl

theorem onBlock_blockMarkbad : OnBlock b n (n.blockMarkbad b) := by
  unfold Nand.blockMarkbad
  split
  · exact .of_quiet (Quiet.tick n)
  · refine ⟨fun _ _ => rfl, fun b' h => ?_, rfl, rfl, [], rfl, by simp⟩
    simp [h]

/-- A program operation leaves the other pages of the block. -/
theorem program_page_of_ne (bytes : Bytes) {p' : Nat} (h : p' ≠ p) :
    (n.program b p bytes).2.page b p' = n.page b p' := by
  unfold Nand.program
  split <;> simp [store, setPage, setBlock, h]

theorem read_ok {pgSize : Nat} {d : Bytes} (h : (n.read pgSize b p).1 = .ok d) : n.peek pgSize b p = .ok d := by
  unfold Nand.read at h
  split at h
  · exact h
  · cases h

end

theorem length_fitPage (pgSize : Nat) (bytes : Bytes) : (fitPage pgSize bytes).length = pgSize := by
  simp only [fitPage, List.length_take, List.length_append, List.length_replicate]
  omega

theorem length_peek {n : Nand} {pgSize b p : Nat} {d : Bytes} (h : n.peek pgSize b p = .ok d) : d.length = pgSize := by
  unfold peek at h
  split at h
  · rw [← Except.ok.inj h, length_fitPage]
  · split at h
    · rw [← Except.ok.inj h, List.length_replicate]
    · cases h
  · cases h

end RainWrt.Nand
