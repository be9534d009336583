import RainWrt.Nmbm.Flash
import RainWrt.Theorems.Nand

/-! The driver's chip operations keep the instance and touch one block. Data that was written and read
    back is on the chip. -/

namespace RainWrt.Nmbm
open Nand

/-- `s'` comes from `s` by chip operations on block `b`. -/
structure FlashStep (b : Nat) (s s' : State) : Prop where
  ni : s'.ni = s.ni
  trace : s'.trace = s.trace
  nand : OnBlock b s.nand s'.nand

/-- `s'` comes from `s` by reading. -/
structure ReadStep (s s' : State) : Prop where
  ni : s'.ni = s.ni
  trace : s'.trace = s.trace
  nand : Quiet s.nand s'.nand

theorem ReadStep.refl (s : State) : ReadStep s s := ⟨rfl, rfl, .refl _⟩

theorem ReadStep.trans {s s' s'' : State} (h : ReadStep s s') (h' : ReadStep s' s'') : ReadStep s s'' :=
  ⟨h'.ni.trans h.ni, h'.trace.trans h.trace, h.nand.trans h'.nand⟩

theorem FlashStep.refl (b : Nat) (s : State) : FlashStep b s s := ⟨rfl, rfl, .refl _ _⟩

theorem FlashStep.trans {b : Nat} {s s' s'' : State} (h : FlashStep b s s') (h' : FlashStep b s' s'') : FlashStep b s s'' :=
  ⟨h'.ni.trans h.ni, h'.trace.trans h.trace, h.nand.trans h'.nand⟩

theorem ReadStep.flash {b : Nat} {s s' : State} (h : ReadStep s s') : FlashStep b s s' :=
  ⟨h.ni, h.trace, .of_quiet h.nand⟩

/-! ### Operations with retry -/

theorem quiet_readTry (pgSize b p t : Nat) (e : ReadError) (n : Nand) : Quiet n (readTry pgSize b p t e n).2 := by
  induction t generalizing n e with
  | zero => exact .refl n
  | succ t ih =>
    unfold readTry
    have h := quiet_read n b p pgSize
    rcases hr : n.read pgSize b p with ⟨_ | _, n'⟩ <;> rw [hr] at h
    · exact h.trans (ih _ n')
    · exact h

theorem readTry_ok {pgSize b p t : Nat} {e : ReadError} {n : Nand} {d : Bytes}
    (h : (readTry pgSize b p t e n).1 = .ok d) : n.peek pgSize b p = .ok d := by
  induction t generalizing n e with
  | zero => cases h
  | succ t ih =>
    unfold readTry at h
    have hq := quiet_read n b p pgSize
    rcases hr : n.read pgSize b p with ⟨_ | d', n'⟩ <;> rw [hr] at hq h
    · rw [← hq.peek]
      exact ih h
    · rw [← h]
      exact read_ok n b p (by rw [hr])

/-- Without failures a read gives what the page holds. -/
theorem readTry_sound {pgSize b p t : Nat} {e : ReadError} {n : Nand} (hs : n.Sound) (ht : 0 < t) :
    (readTry pgSize b p t e n).1 = n.peek pgSize b p := by
  induction t generalizing n e with
  | zero => omega
  | succ t ih =>
    have hread : n.read pgSize b p = (n.peek pgSize b p, n.tick) := by simp [Nand.read, hs n.time, Fault.none]
    have hq := Quiet.tick n
    unfold readTry
    rw [hread]
    rcases hp : n.peek pgSize b p with e' | d
    · rcases t with _ | t
      · rfl
      · show (readTry pgSize b p (t + 1) e' n.tick).1 = _
        rw [ih (hq.sound hs) (by omega), hq.peek, hp]
    · rfl

theorem onBlock_writeTry (b p : Nat) (bytes : Bytes) (t : Nat) (n : Nand) : OnBlock b n (writeTry b p bytes t n).2 := by
  induction t generalizing n with
  | zero => exact .refl b n
  | succ t ih =>
    unfold writeTry
    have h := onBlock_program n b p bytes
    rcases hr : n.program b p bytes with ⟨_ | _, n'⟩ <;> rw [hr] at h
    · exact h.trans (ih n')
    · exact h

theorem writeTry_page_of_ne {b p p' : Nat} {bytes : Bytes} (hp : p' ≠ p) (t : Nat) (n : Nand) :
    (writeTry b p bytes t n).2.page b p' = n.page b p' := by
  induction t generalizing n with
  | zero => rfl
  | succ t ih =>
    unfold writeTry
    have h := program_page_of_ne n b p bytes hp
    rcases hr : n.program b p bytes with ⟨_ | _, n'⟩ <;> rw [hr] at h
    · exact (ih n').trans h
    · exact h

theorem onBlock_eraseTry (b t : Nat) (n : Nand) : OnBlock b n (eraseTry b t n).2 := by
  induction t generalizing n with
  | zero => exact .refl b n
  | succ t ih =>
    unfold eraseTry
    have h := onBlock_erase n b
    rcases hr : n.erase b with ⟨_ | _, n'⟩ <;> rw [hr] at h
    · exact h.trans (ih n')
    · exact h

section
variable (s : State) (b p : Nat)

theorem readPhysPage_step : ReadStep s (readPhysPage s b p).2 := ⟨rfl, rfl, quiet_readTry ..⟩

theorem writePhysPage_step (bytes : Bytes) : FlashStep b s (writePhysPage s b p bytes).2 :=
  ⟨rfl, rfl, onBlock_writeTry ..⟩

theorem erasePhysBlock_step : FlashStep b s (erasePhysBlock s b).2 := ⟨rfl, rfl, onBlock_eraseTry ..⟩

theorem checkBadPhysBlock_step : FlashStep b s (checkBadPhysBlock s b).2 := ⟨rfl, rfl, onBlock_blockIsbad ..⟩

theorem markPhysBadBlock_step : FlashStep b s (markPhysBadBlock s b) := ⟨rfl, rfl, onBlock_blockMarkbad ..⟩

theorem readPhysPage_ok {d : Bytes} (h : (readPhysPage s b p).1 = .ok d) : s.nand.peek s.ni.chip.pgSize b p = .ok d :=
  readTry_ok h

theorem readPhysPage_sound (hs : s.nand.Sound) : (readPhysPage s b p).1 = s.nand.peek s.ni.chip.pgSize b p :=
  readTry_sound hs (by decide)

end

/-! ### Blocks -/

theorem checkEmptyPages_step (b n p : Nat) (s : State) : ReadStep s (checkEmptyPages b n p s).2 := by
  induction n generalizing p s with
  | zero => exact .refl s
  | succ n ih =>
    unfold checkEmptyPages
    have h := readPhysPage_step s b p
    rcases hr : readPhysPage s b p with ⟨(_ | _) | _, s'⟩ <;> rw [hr] at h
    · exact h
    · exact h.trans (ih ..)
    · exact h.trans (ih ..)

theorem eraseBlockAndCheck_step (s : State) (b : Nat) : FlashStep b s (eraseBlockAndCheck s b).2 := by
  unfold eraseBlockAndCheck
  have h := erasePhysBlock_step s b
  rcases hr : erasePhysBlock s b with ⟨_ | _, s'⟩ <;> rw [hr] at h
  · exact h
  · dsimp only
    split
    · exact h.trans (checkEmptyPages_step ..).flash
    · exact h

theorem writeVerifyPages_step (b p : Nat) (ds : List Bytes) (s : State) :
    FlashStep b s (writeVerifyPages b p ds s).2 := by
  induction ds generalizing p s with
  | nil => exact .refl b s
  | cons d ds ih =>
    unfold writeVerifyPages
    have hw := writePhysPage_step s b p (padPage s.ni.chip d)
    rcases hr : writePhysPage s b p (padPage s.ni.chip d) with ⟨_ | _, s'⟩ <;> rw [hr] at hw
    · exact hw
    · have hv := readPhysPage_step s' b p
      dsimp only
      rcases hr' : readPhysPage s' b p with ⟨_ | r, s''⟩ <;> rw [hr'] at hv
      · exact hw.trans hv.flash
      · dsimp only
        split
        · exact (hw.trans hv.flash).trans (ih ..)
        · exact hw.trans hv.flash

theorem readPages_step (b n p : Nat) (s : State) : ReadStep s (readPages b n p s).2 := by
  induction n generalizing p s with
  | zero => exact .refl s
  | succ n ih =>
    unfold readPages
    have h := readPhysPage_step s b p
    rcases hr : readPhysPage s b p with ⟨_ | d, s'⟩ <;> rw [hr] at h
    · exact h
    · have h' := ih (p + 1) s'
      rcases hr' : readPages b n (p + 1) s' with ⟨_ | ds, s''⟩ <;> simp only [hr'] at h' ⊢ <;> exact h.trans h'

theorem readData_step (s : State) (b p size : Nat) : ReadStep s (readData s b p size).2 := by
  unfold readData
  have h := readPages_step b ((size + s.ni.chip.pgSize - 1) / s.ni.chip.pgSize) p s
  rcases hr : readPages b ((size + s.ni.chip.pgSize - 1) / s.ni.chip.pgSize) p s with ⟨_ | d, s'⟩ <;> rw [hr] at h <;> exact h

end RainWrt.Nmbm
