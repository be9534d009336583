import RainWrt.Nmbm.Attach
import RainWrt.Theorems.Nmbm.Store

/-! Which table a search finds when reading works. The loader gives a table as many blocks as its size
    needs, so every block of such a window has to be usable; blocks that the loader takes for bad on its
    way are in no window that it could load later. A chip that is not attached was only read. -/

namespace RainWrt

theorem writeAt_nil (buf : Bytes) (off : Nat) : writeAt buf off [] = buf := by simp [writeAt]

theorem writeAt_all {buf d : Bytes} (h : d.length = buf.length) : writeAt buf 0 d = d := by
  simp [writeAt, List.drop_of_length_le (Nat.le_of_eq h.symm)]

namespace Nand
variable {n : Nand} {pgSize b : Nat}

theorem length_peekPages {count p : Nat} {d : Bytes} (h : n.peekPages pgSize b count p = .ok d) : d.length = count * pgSize := by
  induction count generalizing p d with
  | zero =>
    cases h
    simp
  | succ count ih =>
    unfold peekPages at h
    split at h
    · cases h
    · rename_i hd
      split at h
      · cases h
      · rename_i hds
        cases h
        rw [List.length_append, length_peek hd, ih hds, Nat.succ_mul, Nat.add_comm]

/-- Fewer pages can be read where more can. -/
theorem peekPages_le {count count' p : Nat} (hc : count' ≤ count) {d : Bytes} (h : n.peekPages pgSize b count p = .ok d) :
    ∃ d', n.peekPages pgSize b count' p = .ok d' := by
  induction count' generalizing count p d with
  | zero => exact ⟨[], rfl⟩
  | succ count' ih =>
    obtain ⟨count, rfl⟩ : ∃ m, count = m + 1 := ⟨count - 1, by omega⟩
    unfold peekPages at h ⊢
    split at h
    · cases h
    · rename_i hd
      split at h
      · cases h
      · rename_i hds
        obtain ⟨ds, hds'⟩ := ih (by omega) hds
        exact ⟨_, by rw [hds']⟩

end Nand

namespace Nmbm
open Nand

/-! ### Reading without failures -/

section
variable {s : State}

theorem readPages_sound (hs : s.nand.Sound) (b n p : Nat) : (readPages b n p s).1 = s.nand.peekPages s.ni.chip.pgSize b n p := by
  induction n generalizing p s with
  | zero => rfl
  | succ n ih =>
    unfold readPages peekPages
    have hr := readPhysPage_sound s b p hs
    have hq := readPhysPage_step s b p
    rcases hx : readPhysPage s b p with ⟨_ | d, s₁⟩ <;> rw [hx] at hr hq <;> dsimp only at hr hq ⊢ <;> rw [← hr]
    have h := ih (s := s₁) (hq.nand.sound hs) (p + 1)
    have hpk : s₁.nand.peekPages s.ni.chip.pgSize b n (p + 1) = s.nand.peekPages s.ni.chip.pgSize b n (p + 1) :=
      peekPages_congr (congrFun hq.nand.page b) hq.nand.emptyOk n (p + 1)
    rw [hq.ni, hpk] at h
    dsimp only
    rw [← h]
    rcases hy : readPages b n (p + 1) s₁ with ⟨_ | ds, s₂⟩ <;> rfl

theorem readData_sound (hs : s.nand.Sound) (b : Nat) {size : Nat} (hd : s.ni.chip.pgSize ∣ size) :
    (readData s b 0 size).1 = s.nand.peekPages s.ni.chip.pgSize b (size / s.ni.chip.pgSize) 0 := by
  have hpos := s.ni.chip.pgSize_pos
  have hcount : (size + s.ni.chip.pgSize - 1) / s.ni.chip.pgSize = size / s.ni.chip.pgSize := by
    have h := length_pieces_of_dvd (l := List.replicate size 0) hpos (by simpa using hd)
    rw [length_pieces hpos] at h
    simpa using h
  unfold readData
  rw [hcount]
  have h := readPages_sound hs b (size / s.ni.chip.pgSize) 0
  rcases hx : readPages b (size / s.ni.chip.pgSize) 0 s with ⟨_ | d, s₁⟩ <;> rw [hx] at h <;> dsimp only at h ⊢
  · exact h
  · rw [← h, List.take_of_length_le (Nat.le_of_eq ?_)]
    rw [length_peekPages h.symm, Nat.div_mul_cancel hd]

theorem checkBadPhysBlock_sound (hs : s.nand.Sound) (b : Nat) :
    checkBadPhysBlock s b = (s.nand.bad b, { s with nand := s.nand.tick }) := by
  simp [checkBadPhysBlock, blockIsbad, hs s.nand.time, Fault.none]

end

/-! ### Windows -/

/-- The bytes that the loader asks a block for when it has `off` bytes of the table. -/
def chunkAt (c : Chip) (off : Nat) : Nat := min (c.infoTableSize - off) c.blkSize

/-- What `k` blocks from `ba` on give a loader that has `off` bytes of the table, if all of them can be
    used and they complete the table. -/
def windowFrom (n : Nand) (ni : Instance) : Nat → Nat → Nat → Option Bytes
  | 0, _, off => if off = ni.chip.infoTableSize then some [] else none
  | k + 1, ba, off =>
    if ni.good ba && !n.bad ba then
      match n.peekPages ni.chip.pgSize ba (chunkAt ni.chip off / ni.chip.pgSize) 0 with
      | .error _ => none
      | .ok d => (windowFrom n ni k (ba + 1) (off + chunkAt ni.chip off)).map (d ++ ·)
    else none

section
variable {c : Chip} {off off' : Nat}

theorem dvd_chunkAt (h : c.pgSize ∣ off) : c.pgSize ∣ chunkAt c off := by
  unfold chunkAt
  rcases Nat.le_total (c.infoTableSize - off) c.blkSize with hle | hle
  · rw [Nat.min_eq_left hle]
    exact Nat.dvd_sub c.pgSize_dvd_infoTableSize h
  · rw [Nat.min_eq_right hle]
    exact c.pgSize_dvd_blkSize

theorem chunkAt_le (h : off ≤ off') : chunkAt c off' ≤ chunkAt c off := by
  unfold chunkAt
  omega

end

section
variable {n : Nand} {ni ni' : Instance}

theorem windowFrom_succ {k ba off : Nat} {img : Bytes} (h : windowFrom n ni (k + 1) ba off = some img) :
    ni.good ba = true ∧ n.bad ba = false ∧ ∃ d rest, n.peekPages ni.chip.pgSize ba (chunkAt ni.chip off / ni.chip.pgSize) 0 = .ok d ∧
      windowFrom n ni k (ba + 1) (off + chunkAt ni.chip off) = some rest ∧ img = d ++ rest := by
  unfold windowFrom at h
  split at h
  · rename_i hg
    simp only [Bool.and_eq_true, Bool.not_eq_true'] at hg
    split at h
    · cases h
    · rename_i d hd
      obtain ⟨rest, hr, rfl⟩ := Option.map_eq_some_iff.mp h
      exact ⟨hg.1, hg.2, d, rest, hd, hr, rfl⟩
  · cases h

theorem windowFrom_eq_some {k ba off : Nat} {d rest : Bytes} (hg : ni.good ba = true) (hb : n.bad ba = false)
    (hd : n.peekPages ni.chip.pgSize ba (chunkAt ni.chip off / ni.chip.pgSize) 0 = .ok d)
    (hr : windowFrom n ni k (ba + 1) (off + chunkAt ni.chip off) = some rest) :
    windowFrom n ni (k + 1) ba off = some (d ++ rest) := by
  simp [windowFrom, hg, hb, hd, hr]

theorem windowFrom_good {k ba off : Nat} {img : Bytes} (h : windowFrom n ni k ba off = some img) :
    ∀ b, ba ≤ b → b < ba + k → ni.good b = true ∧ n.bad b = false := by
  induction k generalizing ba off img with
  | zero =>
    intro b h1 h2
    omega
  | succ k ih =>
    obtain ⟨hg, hb, d, rest, -, hr, -⟩ := windowFrom_succ h
    intro b h1 h2
    by_cases he : b = ba
    · subst he
      exact ⟨hg, hb⟩
    · exact ih hr b (by omega) (by omega)

theorem length_windowFrom {k ba off : Nat} {img : Bytes} (hp : ni.chip.pgSize ∣ off)
    (h : windowFrom n ni k ba off = some img) : off + img.length = ni.chip.infoTableSize := by
  induction k generalizing ba off img with
  | zero =>
    unfold windowFrom at h
    split at h
    · cases h
      simpa
    · cases h
  | succ k ih =>
    obtain ⟨-, -, d, rest, hd, hr, rfl⟩ := windowFrom_succ h
    have hdv := dvd_chunkAt hp
    have h1 := ih (Nat.dvd_add hp hdv) hr
    rw [List.length_append, length_peekPages hd, Nat.div_mul_cancel hdv]
    omega

/-- A window is read the same by whoever agrees on its blocks. -/
theorem windowFrom_congr (hc : ni'.chip = ni.chip) {k ba off : Nat} {img : Bytes} (h : windowFrom n ni k ba off = some img)
    (hg : ∀ b, ba ≤ b → b < ba + k → ni'.good b = true) : windowFrom n ni' k ba off = some img := by
  induction k generalizing ba off img with
  | zero =>
    unfold windowFrom at h ⊢
    rw [hc]
    exact h
  | succ k ih =>
    obtain ⟨-, hb, d, rest, hd, hr, rfl⟩ := windowFrom_succ h
    refine windowFrom_eq_some (hg ba (Nat.le_refl _) (by omega)) hb (by rw [hc]; exact hd) ?_
    rw [hc]
    exact ih hr fun b h1 h2 => hg b (by omega) (by omega)

theorem windowFrom_eq (hc : ni'.chip = ni.chip) {k ba off : Nat} (hg : ∀ b, ba ≤ b → ni'.good b = ni.good b) :
    windowFrom n ni' k ba off = windowFrom n ni k ba off := by
  induction k generalizing ba off with
  | zero => simp only [windowFrom, hc]
  | succ k ih =>
    have h := @ih (ba + 1) (off + chunkAt ni.chip off) fun b h => hg b (by omega)
    simp only [windowFrom, hc, hg ba (Nat.le_refl _), h]

theorem windowFrom_cache (ni : Instance) (img : Bytes) (k ba off : Nat) :
    windowFrom n { ni with infoTableCache := img } k ba off = windowFrom n ni k ba off :=
  @windowFrom_eq n ni { ni with infoTableCache := img } rfl k ba off fun _ _ => rfl

theorem windowFrom_nand {n' : Nand} (hp : n'.page = n.page) (hb : n'.bad = n.bad) (he : n'.emptyOk = n.emptyOk) (k ba off : Nat) :
    windowFrom n' ni k ba off = windowFrom n ni k ba off := by
  induction k generalizing ba off with
  | zero => rfl
  | succ k ih => simp only [windowFrom, hb, peekPages_congr (congrFun hp ba) he, ih]

end

/-! ### Acceptance -/

/-- The loader accepts `img` as the table that starts at block `b`; `top` is the block below the mapped
    ones. -/
structure Accepted (n : Nand) (ni : Instance) (b : Nat) (img : Bytes) (top : Nat) : Prop where
  window : windowFrom n ni ni.chip.tableBlocks b 0 = some img
  header : checkInfoTableHeader ni img = true
  checksum : checkHeader img ni.chip.infoTableSize = true
  tables : checkInfoTable ni b (b + ni.chip.tableBlocks) img = some top

/-- What the loader changes while it looks. -/
structure LoadStep (s s' : State) : Prop where
  ni : s'.ni = { s.ni with
    blockState := s'.ni.blockState
    blockStateChanged := s'.ni.blockStateChanged
    infoTableCache := s'.ni.infoTableCache }
  good : ∀ b, s'.ni.good b = true → s.ni.good b = true
  cache : s.ni.infoTableCache.length = s.ni.chip.infoTableSize → s'.ni.infoTableCache.length = s.ni.chip.infoTableSize
  nand : Quiet s.nand s'.nand

namespace LoadStep
variable {s s' s'' : State}

theorem refl (s : State) : LoadStep s s := ⟨rfl, fun _ h => h, id, .refl _⟩

theorem chip (h : LoadStep s s') : s'.ni.chip = s.ni.chip := by rw [h.ni]

theorem trans (h : LoadStep s s') (h' : LoadStep s' s'') : LoadStep s s'' where
  ni := by rw [h'.ni, h.ni]
  good b hb := h.good b (h'.good b hb)
  cache hc := by
    have := h'.cache (by rw [h.chip]; exact h.cache hc)
    rwa [h.chip] at this
  nand := h.nand.trans h'.nand

theorem of_read (h : ReadStep s s') : LoadStep s s' where
  ni := by rw [h.ni]
  good b hb := by rwa [h.ni] at hb
  cache hc := by rwa [h.ni]
  nand := h.nand

theorem tick (s : State) : LoadStep s { s with nand := s.nand.tick } := ⟨rfl, fun _ h => h, id, .tick _⟩

theorem setBad {b : Nat} (hg : s.ni.good b = true) : LoadStep s (setBlockState s b blockStBad) where
  ni := by rw [setBlockState_bad hg]
  good b' hb := by
    rw [setBlockState_bad_good hg, Bool.and_eq_true] at hb
    exact hb.1
  cache := by
    rw [setBlockState_bad hg]
    exact id
  nand := by
    rw [setBlockState_bad hg]
    exact .refl _

end LoadStep

/-! ### One try -/

section
variable {s s' : State} {k ba off : Nat}

/-- The four ways on at one block. -/
theorem loadLoop_succ (k ba : Nat) (hs : s.nand.Sound) (hoff : off ≠ s.ni.chip.infoTableSize) (hp : s.ni.chip.pgSize ∣ off) (start : Option Nat) :
    (s.ni.good ba = false ∧ loadLoop (k + 1) s ba off start = loadLoop k s (ba + 1) off start) ∨
    (∃ s₁, s.ni.good ba = true ∧ (s.nand.bad ba = true ∨
        ∃ e, s.nand.peekPages s.ni.chip.pgSize ba (chunkAt s.ni.chip off / s.ni.chip.pgSize) 0 = .error e) ∧
      LoadStep s s₁ ∧ (∀ b, b ≠ ba → s₁.ni.good b = s.ni.good b) ∧
      loadLoop (k + 1) s ba off start = loadLoop k s₁ (ba + 1) off start) ∨
    (∃ d n, s.ni.good ba = true ∧ s.nand.bad ba = false ∧ Quiet s.nand n ∧
      s.nand.peekPages s.ni.chip.pgSize ba (chunkAt s.ni.chip off / s.ni.chip.pgSize) 0 = .ok d ∧
      loadLoop (k + 1) s ba off start =
        if start.isNone && !checkInfoTableHeader s.ni (writeAt s.ni.infoTableCache off d) then
          (none, { s with nand := n, ni.infoTableCache := writeAt s.ni.infoTableCache off d })
        else loadLoop k { s with nand := n, ni.infoTableCache := writeAt s.ni.infoTableCache off d } (ba + 1)
          (off + chunkAt s.ni.chip off) (some (start.getD ba))) := by
  rw [loadLoop, if_neg hoff]
  by_cases hg : s.ni.good ba = true
  · rw [if_pos hg, checkBadPhysBlock_sound hs]
    rcases hb : s.nand.bad ba with _ | _ <;> dsimp only
    · have hq := (LoadStep.tick s).nand
      have hr := readData_sound (s := { s with nand := s.nand.tick }) (hq.sound hs) ba (dvd_chunkAt hp)
      have hst := readData_step { s with nand := s.nand.tick } ba 0 (chunkAt s.ni.chip off)
      have hpk : s.nand.tick.peekPages s.ni.chip.pgSize ba (chunkAt s.ni.chip off / s.ni.chip.pgSize) 0 =
          s.nand.peekPages s.ni.chip.pgSize ba (chunkAt s.ni.chip off / s.ni.chip.pgSize) 0 :=
        peekPages_congr (congrFun hq.page ba) hq.emptyOk _ _
      rw [show min (s.ni.chip.infoTableSize - off) s.ni.chip.blkSize = chunkAt s.ni.chip off from rfl]
      dsimp only at hr hst
      rw [hpk] at hr
      rcases hx : readData { s with nand := s.nand.tick } ba 0 (chunkAt s.ni.chip off) with ⟨e | d, s₁⟩ <;> rw [hx] at hr hst <;>
        dsimp only at hr hst ⊢
      · have hg₁ : s₁.ni.good ba = true := by rw [hst.ni]; exact hg
        refine .inr (.inl ⟨_, hg, .inr ⟨e, hr.symm⟩, ((LoadStep.tick s).trans (.of_read hst)).trans (.setBad hg₁), fun b hne => ?_, rfl⟩)
        rw [setBlockState_bad_good hg₁, hst.ni]
        simp [hne]
      · refine .inr (.inr ⟨d, s₁.nand, hg, rfl, hq.trans hst.nand, hr.symm, ?_⟩)
        have hs₁ : s₁ = { s with nand := s₁.nand } := by
          have h1 := hst.ni
          have h2 := hst.trace
          cases s₁
          simp only at h1 h2 ⊢
          rw [h1, h2]
        rw [hs₁]
        rfl
    · have hg₁ : ({ s with nand := s.nand.tick } : State).ni.good ba = true := hg
      refine .inr (.inl ⟨_, hg, .inl rfl, (LoadStep.tick s).trans (.setBad hg₁), fun b hne => ?_, rfl⟩)
      rw [setBlockState_bad_good hg₁]
      simp [hne]
  · rw [if_neg hg]
    exact .inl ⟨by simpa using hg, rfl⟩

/-- Too few blocks are left. -/
theorem loadLoop_short (hs : s.nand.Sound) (hp : s.ni.chip.pgSize ∣ off) (h : k * s.ni.chip.blkSize < s.ni.chip.infoTableSize - off)
    (start : Option Nat) : (loadLoop k s ba off start).1 = none := by
  induction k generalizing s ba off start with
  | zero =>
    rw [loadLoop, if_neg (by omega)]
  | succ k ih =>
    rw [Nat.succ_mul] at h
    rcases loadLoop_succ k ba hs (by omega) hp start with ⟨-, he⟩ | ⟨s₁, -, -, hl, -, he⟩ | ⟨d, n, -, -, hq, -, he⟩ <;> rw [he]
    · exact ih hs hp (by omega) start
    · exact ih (hl.nand.sound hs) (by rw [hl.chip]; exact hp) (by rw [hl.chip]; omega) start
    · split
      · rfl
      · have hc : chunkAt s.ni.chip off ≤ s.ni.chip.blkSize := Nat.min_le_right _ _
        exact ih (s := { s with nand := n, ni.infoTableCache := writeAt s.ni.infoTableCache off d }) (hq.sound hs)
          (Nat.dvd_add hp (dvd_chunkAt hp)) (by dsimp only; omega) _

/-- With exactly the blocks that the rest of the table needs, the loader reads the window. -/
theorem loadLoop_window (hs : s.nand.Sound) (hp : s.ni.chip.pgSize ∣ off) (hle : off ≤ s.ni.chip.infoTableSize)
    (hlen : s.ni.infoTableCache.length = s.ni.chip.infoTableSize) (hk : s.ni.chip.infoTableSize ≤ off + k * s.ni.chip.blkSize)
    (ht : k * s.ni.chip.blkSize < s.ni.chip.infoTableSize - off + s.ni.chip.blkSize) (start : Nat) :
    match windowFrom s.nand s.ni k ba off with
    | none => (loadLoop k s ba off (some start)).1 = none
    | some d => ∃ n, Quiet s.nand n ∧ loadLoop k s ba off (some start) =
        (some (start, ba + k), { s with nand := n, ni.infoTableCache := writeAt s.ni.infoTableCache off d }) := by
  have hpos := s.ni.chip.blkSize_pos
  induction k generalizing s ba off with
  | zero =>
    have he : off = s.ni.chip.infoTableSize := by omega
    rw [windowFrom, if_pos he]
    exact ⟨s.nand, .refl _, by rw [loadLoop, if_pos he, writeAt_nil]; rfl⟩
  | succ k ih =>
    rw [Nat.succ_mul] at hk ht
    have hne : off ≠ s.ni.chip.infoTableSize := by
      have := Nat.mul_le_mul_right s.ni.chip.blkSize (Nat.zero_le k)
      omega
    rcases loadLoop_succ k ba hs hne hp (some start) with ⟨hg, he⟩ | ⟨s₁, hg, hbad, hl, -, he⟩ | ⟨d, n, hg, hb, hq, hd, he⟩
    · rw [show windowFrom s.nand s.ni (k + 1) ba off = none by simp [windowFrom, hg]]
      dsimp only
      rw [he]
      exact loadLoop_short hs hp (by omega) _
    · have hw : windowFrom s.nand s.ni (k + 1) ba off = none := by
        rcases hbad with hb | ⟨e, hd⟩
        · simp [windowFrom, hb]
        · simp [windowFrom, hd]
      rw [hw]
      dsimp only
      rw [he]
      exact loadLoop_short (hl.nand.sound hs) (by rw [hl.chip]; exact hp) (by rw [hl.chip]; omega) _
    · have hchunk : d.length = chunkAt s.ni.chip off := by rw [length_peekPages hd, Nat.div_mul_cancel (dvd_chunkAt hp)]
      have hcl : chunkAt s.ni.chip off ≤ s.ni.chip.infoTableSize - off := Nat.min_le_left _ _
      have hcb : (chunkAt s.ni.chip off = s.ni.chip.infoTableSize - off ∧ chunkAt s.ni.chip off ≤ s.ni.chip.blkSize) ∨
          chunkAt s.ni.chip off = s.ni.chip.blkSize := by
        unfold chunkAt
        omega
      have hcache : (writeAt s.ni.infoTableCache off d).length = s.ni.chip.infoTableSize := by
        rw [length_writeAt (by omega), hlen]
      have hnext := @ih { s with nand := n, ni.infoTableCache := writeAt s.ni.infoTableCache off d } (ba + 1)
        (off + chunkAt s.ni.chip off) (hq.sound hs) (Nat.dvd_add hp (dvd_chunkAt hp)) (by dsimp only; omega) hcache
        (by dsimp only; omega) (by dsimp only; rcases hcb with h | h <;> omega) hpos
      have hwn : windowFrom n { s.ni with infoTableCache := writeAt s.ni.infoTableCache off d } k (ba + 1) (off + chunkAt s.ni.chip off) =
          windowFrom s.nand s.ni k (ba + 1) (off + chunkAt s.ni.chip off) := by
        rw [windowFrom_nand hq.page hq.bad hq.emptyOk]
        exact windowFrom_cache ..
      dsimp only at hnext
      rw [hwn] at hnext
      rcases hr : windowFrom s.nand s.ni k (ba + 1) (off + chunkAt s.ni.chip off) with _ | rest <;> rw [hr] at hnext <;> dsimp only at hnext
      · rw [show windowFrom s.nand s.ni (k + 1) ba off = none by simp [windowFrom, hg, hb, hd, hr]]
        dsimp only
        rw [he]
        exact hnext
      · obtain ⟨n', hq', hn⟩ := hnext
        rw [windowFrom_eq_some hg hb hd hr]
        refine ⟨n', hq.trans hq', ?_⟩
        rw [he]
        simp only [Option.isNone_some, Bool.false_and, Bool.false_eq_true, if_false, Option.getD_some]
        rw [hn, ← hchunk, writeAt_append (by omega), show ba + 1 + k = ba + (k + 1) by omega]

theorem loadLoop_step (hs : s.nand.Sound) (hp : s.ni.chip.pgSize ∣ off) (hle : off ≤ s.ni.chip.infoTableSize) (k ba : Nat) (start : Option Nat) :
    LoadStep s (loadLoop k s ba off start).2 ∧ ∀ b, b < ba → (loadLoop k s ba off start).2.ni.good b = s.ni.good b := by
  induction k generalizing s ba off start with
  | zero => exact ⟨.refl s, fun _ _ => rfl⟩
  | succ k ih =>
    by_cases hoff : off = s.ni.chip.infoTableSize
    · rw [loadLoop, if_pos hoff]
      exact ⟨.refl s, fun _ _ => rfl⟩
    · rcases loadLoop_succ k ba hs hoff hp start with ⟨-, he⟩ | ⟨s₁, -, -, hl, hk, he⟩ | ⟨d, n, -, -, hq, hd, he⟩ <;> rw [he]
      · obtain ⟨h1, h2⟩ := ih hs hp hle (ba + 1) start
        exact ⟨h1, fun b hb => h2 b (by omega)⟩
      · have hp₁ : s₁.ni.chip.pgSize ∣ off := hl.chip ▸ hp
        have hle₁ : off ≤ s₁.ni.chip.infoTableSize := hl.chip ▸ hle
        obtain ⟨h1, h2⟩ := ih (hl.nand.sound hs) hp₁ hle₁ (ba + 1) start
        exact ⟨hl.trans h1, fun b hb => by rw [h2 b (by omega), hk b (by omega)]⟩
      · have hlen : d.length = chunkAt s.ni.chip off := by rw [length_peekPages hd, Nat.div_mul_cancel (dvd_chunkAt hp)]
        have hcl : chunkAt s.ni.chip off ≤ s.ni.chip.infoTableSize - off := Nat.min_le_left _ _
        have hsp : LoadStep s { s with nand := n, ni.infoTableCache := writeAt s.ni.infoTableCache off d } := by
          refine ⟨rfl, fun _ h => h, fun hc => ?_, hq⟩
          dsimp only
          rw [length_writeAt (by omega), hc]
        split
        · exact ⟨hsp, fun _ _ => rfl⟩
        · obtain ⟨h1, h2⟩ := @ih { s with nand := n, ni.infoTableCache := writeAt s.ni.infoTableCache off d } (off + chunkAt s.ni.chip off)
            (hq.sound hs) (Nat.dvd_add hp (dvd_chunkAt hp)) (by dsimp only; omega) (ba + 1) (some (start.getD ba))
          exact ⟨hsp.trans h1, fun b hb => h2 b (by omega)⟩

/-- The blocks that the loader takes for bad are in no window that goes on from here with as much or less
    of the table read. -/
theorem loadLoop_keeps (hs : s.nand.Sound) (hp : s.ni.chip.pgSize ∣ off) (hle : off ≤ s.ni.chip.infoTableSize) {start : Option Nat} {k' off' : Nat} {d : Bytes} (ho : off' ≤ off)
    (h : windowFrom s.nand s.ni k' ba off' = some d) :
    ∀ b, ba ≤ b → b < ba + k' → (loadLoop k s ba off start).2.ni.good b = true := by
  induction k generalizing s ba off start k' off' d with
  | zero =>
    intro b h1 h2
    exact (windowFrom_good h b h1 h2).1
  | succ k ih =>
    intro b h1 h2
    obtain ⟨k', rfl⟩ : ∃ m, k' = m + 1 := ⟨k' - 1, by omega⟩
    by_cases hoff : off = s.ni.chip.infoTableSize
    · rw [loadLoop, if_pos hoff]
      exact (windowFrom_good h b h1 h2).1
    · obtain ⟨hg, hb, d₀, rest, hd, hr, rfl⟩ := windowFrom_succ h
      rcases loadLoop_succ k ba hs hoff hp start with ⟨hg', -⟩ | ⟨s₁, -, hbad, -⟩ | ⟨d₁, n, -, -, hq, -, he⟩
      · rw [hg] at hg'
        cases hg'
      · -- the block is readable here, where no more is asked for
        rcases hbad with hb' | ⟨e, hd'⟩
        · rw [hb] at hb'
          cases hb'
        · obtain ⟨d', hd''⟩ := peekPages_le (Nat.div_le_div_right (chunkAt_le ho)) hd
          rw [hd'] at hd''
          cases hd''
      · have hcl : chunkAt s.ni.chip off ≤ s.ni.chip.infoTableSize - off := Nat.min_le_left _ _
        have hkept := (@loadLoop_step { s with nand := n, ni.infoTableCache := writeAt s.ni.infoTableCache off d₁ }
          (off + chunkAt s.ni.chip off) (hq.sound hs) (Nat.dvd_add hp (dvd_chunkAt hp)) (by dsimp only; omega) k (ba + 1)
          (some (start.getD ba))).2
        rw [he]
        split
        · exact (windowFrom_good h b h1 h2).1
        · by_cases hba : b = ba
          · subst hba
            rw [hkept b (by omega)]
            exact hg
          · have hstep : off' + chunkAt s.ni.chip off' ≤ off + chunkAt s.ni.chip off := by
              unfold chunkAt
              omega
            refine @ih { s with nand := n, ni.infoTableCache := writeAt s.ni.infoTableCache off d₁ } (ba + 1)
              (off + chunkAt s.ni.chip off) (hq.sound hs) (Nat.dvd_add hp (dvd_chunkAt hp)) (by dsimp only; omega) _ k' (off' + chunkAt s.ni.chip off') rest
              hstep ?_ b (by omega) (by omega)
            rw [windowFrom_nand hq.page hq.bad hq.emptyOk, windowFrom_cache]
            exact hr

/-- Nor are they in a window that starts further on. -/
theorem loadLoop_keeps_later (hs : s.nand.Sound) (hp : s.ni.chip.pgSize ∣ off) (hle : off ≤ s.ni.chip.infoTableSize)
    {start : Option Nat} {k' b' : Nat} {d : Bytes} (hb : ba ≤ b') (h : windowFrom s.nand s.ni k' b' 0 = some d) :
    ∀ b, b' ≤ b → b < b' + k' → (loadLoop k s ba off start).2.ni.good b = true := by
  induction k generalizing s ba off start with
  | zero =>
    intro b h1 h2
    exact (windowFrom_good h b h1 h2).1
  | succ k ih =>
    by_cases he : b' = ba
    · subst he
      exact loadLoop_keeps hs hp hle (Nat.zero_le _) h
    · intro b h1 h2
      by_cases hoff : off = s.ni.chip.infoTableSize
      · rw [loadLoop, if_pos hoff]
        exact (windowFrom_good h b h1 h2).1
      · rcases loadLoop_succ k ba hs hoff hp start with ⟨-, he⟩ | ⟨s₁, -, -, hl, hk, he⟩ | ⟨d, n, -, -, hq, hd, he⟩ <;> rw [he]
        · exact ih hs hp hle (by omega) h b h1 h2
        · refine ih (hl.nand.sound hs) (by rw [hl.chip]; exact hp) (by rw [hl.chip]; exact hle) (by omega) ?_ b h1 h2
          rw [windowFrom_nand hl.nand.page hl.nand.bad hl.nand.emptyOk]
          refine windowFrom_congr hl.chip h fun b h3 h4 => ?_
          rw [hk b (by omega)]
          exact (windowFrom_good h b h3 h4).1
        · have hcl : chunkAt s.ni.chip off ≤ s.ni.chip.infoTableSize - off := Nat.min_le_left _ _
          split
          · exact (windowFrom_good h b h1 h2).1
          · refine @ih { s with nand := n, ni.infoTableCache := writeAt s.ni.infoTableCache off d } (ba + 1) (off + chunkAt s.ni.chip off)
              (hq.sound hs) (Nat.dvd_add hp (dvd_chunkAt hp)) (by dsimp only; omega) _ (by omega) ?_ b h1 h2
            rw [windowFrom_nand hq.page hq.bad hq.emptyOk, windowFrom_cache]
            exact h

theorem checkInfoTableHeader_congr {ni ni' : Instance} {a b : Bytes} (hc : ni'.chip = ni.chip) (h : a.take 32 = b.take 32) :
    checkInfoTableHeader ni' a = checkInfoTableHeader ni b := by
  have hw : ∀ o, o + 4 ≤ 32 → word a o = word b o := by
    intro o ho
    apply word_congr
    have hs : ∀ x : Bytes, slice x o 4 = slice (x.take 32) o 4 := by
      intro x
      apply List.ext_getElem?
      intro i
      simp only [slice, List.getElem?_take, List.getElem?_drop]
      grind
    rw [hs a, hs b, h]
  simp only [checkInfoTableHeader, InfoTableHeader.ofBytes, hw 0 (by decide), hw 8 (by decide), hw 20 (by decide), hw 24 (by decide)]
  rw [hc]
  rfl

theorem tableBlocks_bounds (c : Chip) : c.infoTableSize ≤ c.tableBlocks * c.blkSize ∧
    c.tableBlocks * c.blkSize < c.infoTableSize + c.blkSize ∧ 0 < c.tableBlocks := by
  have h1 := Nat.div_add_mod (c.infoTableSize + c.blkSize - 1) c.blkSize
  have h2 := Nat.mod_lt (c.infoTableSize + c.blkSize - 1) c.blkSize_pos
  have h3 := c.blkSize_pos
  obtain ⟨h4, h5, h6⟩ := c.offsets
  have h7 : 0 < (c.infoTableSize + c.blkSize - 1) / c.blkSize := Nat.div_pos (by omega) h3
  rw [Chip.tableBlocks, Chip.size2blk, Nat.mul_comm]
  omega

/-- The loader at a start block: it reads the window, and the header after the first block. -/
theorem loadLoop_start (hs : s.nand.Sound) (hlen : s.ni.infoTableCache.length = s.ni.chip.infoTableSize) (b : Nat) :
    (∃ img n, windowFrom s.nand s.ni s.ni.chip.tableBlocks b 0 = some img ∧ checkInfoTableHeader s.ni img = true ∧ Quiet s.nand n ∧
      loadLoop s.ni.chip.tableBlocks s b 0 none =
        (some (b, b + s.ni.chip.tableBlocks), { s with nand := n, ni.infoTableCache := img })) ∨
    ((∀ img, windowFrom s.nand s.ni s.ni.chip.tableBlocks b 0 = some img → checkInfoTableHeader s.ni img = false) ∧
      (loadLoop s.ni.chip.tableBlocks s b 0 none).1 = none) := by
  obtain ⟨hb1, hb2, hb3⟩ := tableBlocks_bounds s.ni.chip
  obtain ⟨k, hk⟩ : ∃ k, s.ni.chip.tableBlocks = k + 1 := ⟨s.ni.chip.tableBlocks - 1, by omega⟩
  obtain ⟨h4, h5, h6⟩ := s.ni.chip.offsets
  rw [hk, Nat.succ_mul] at hb1 hb2
  rw [hk]
  rcases @loadLoop_succ s 0 k b hs (by omega) (Nat.dvd_zero _) none with ⟨hg, he⟩ | ⟨s₁, hg, hbad, hl, -, he⟩ | ⟨d, n, hg, hb, hq, hd, he⟩
  · refine .inr ⟨fun img hw => ?_, ?_⟩
    · rw [(windowFrom_succ hw).1] at hg
      cases hg
    · rw [he]
      exact loadLoop_short hs (Nat.dvd_zero _) (by omega) _
  · refine .inr ⟨fun img hw => ?_, ?_⟩
    · obtain ⟨-, hb, d, rest, hd, -⟩ := windowFrom_succ hw
      rcases hbad with hb' | ⟨e, hd'⟩
      · rw [hb] at hb'
        cases hb'
      · rw [hd] at hd'
        cases hd'
    · rw [he]
      exact loadLoop_short (hl.nand.sound hs) (by rw [hl.chip]; exact Nat.dvd_zero _) (by rw [hl.chip]; omega) _
  · have hdlen : d.length = chunkAt s.ni.chip 0 := by rw [length_peekPages hd, Nat.div_mul_cancel (dvd_chunkAt (Nat.dvd_zero _))]
    have hcl : chunkAt s.ni.chip 0 ≤ s.ni.chip.infoTableSize := by unfold chunkAt; omega
    have hc32 : 32 ≤ chunkAt s.ni.chip 0 := by
      have h64 : 2 ^ 6 ≤ s.ni.chip.blkSize := Nat.pow_le_pow_right (by decide) (Nat.le_trans s.ni.chip.pgShift_ge s.ni.chip.pgShift_le)
      unfold chunkAt
      omega
    have hcb : (chunkAt s.ni.chip 0 = s.ni.chip.infoTableSize ∧ chunkAt s.ni.chip 0 ≤ s.ni.chip.blkSize) ∨
        chunkAt s.ni.chip 0 = s.ni.chip.blkSize := by
      unfold chunkAt
      omega
    have hcache : (writeAt s.ni.infoTableCache 0 d).length = s.ni.chip.infoTableSize := by
      rw [length_writeAt (by omega), hlen]
    have hnext := @loadLoop_window { s with nand := n, ni.infoTableCache := writeAt s.ni.infoTableCache 0 d } k (b + 1)
      (0 + chunkAt s.ni.chip 0) (hq.sound hs) (Nat.dvd_add (Nat.dvd_zero _) (dvd_chunkAt (Nat.dvd_zero _))) (by dsimp only; omega) hcache
      (by dsimp only; omega) (by dsimp only; rcases hcb with h | h <;> omega) b
    dsimp only at hnext
    rw [windowFrom_nand hq.page hq.bad hq.emptyOk, windowFrom_cache] at hnext
    -- the header lies in the first block
    have hhdr : ∀ rest, checkInfoTableHeader s.ni (writeAt s.ni.infoTableCache 0 d) = checkInfoTableHeader s.ni (d ++ rest) := by
      intro rest
      refine checkInfoTableHeader_congr rfl ?_
      rw [writeAt, List.take_zero, List.nil_append, List.take_append_of_le_length (by omega), List.take_append_of_le_length (by omega)]
    rcases hr : windowFrom s.nand s.ni k (b + 1) (0 + chunkAt s.ni.chip 0) with _ | rest <;> rw [hr] at hnext <;> dsimp only at hnext
    · refine .inr ⟨fun img hw => ?_, ?_⟩
      · obtain ⟨-, -, d', rest, -, hr', -⟩ := windowFrom_succ hw
        rw [hr] at hr'
        cases hr'
      · rw [he]
        split
        · rfl
        · exact hnext
    · have hw := windowFrom_eq_some hg hb hd hr
      rcases hh : checkInfoTableHeader s.ni (d ++ rest) with _ | _
      · refine .inr ⟨fun img hw' => ?_, ?_⟩
        · rw [hw] at hw'
          cases hw'
          exact hh
        · rw [he, hhdr rest, hh]
          rfl
      · obtain ⟨n', hq', hn⟩ := hnext
        refine .inl ⟨_, n', hw, hh, hq.trans hq', ?_⟩
        rw [he, hhdr rest, hh]
        simp only [Option.isNone_none, Bool.not_true, Bool.and_false, Bool.false_eq_true, if_false, Option.getD_none]
        have hall : (d ++ rest).length = s.ni.infoTableCache.length := by
          have := length_windowFrom (Nat.dvd_zero _) hw
          omega
        rw [hn, Nat.zero_add, ← hdlen, ← Nat.zero_add d.length, writeAt_append (by omega), writeAt_all hall,
          show b + 1 + k = b + (k + 1) by omega]

/-! ### Search -/

/-- The memory after the image of a table was accepted. -/
def loadedBy (tableLoaded : Bool) (img : Bytes) (ni : Instance) : Instance :=
  if !tableLoaded || (InfoTableHeader.ofBytes img).writeCount > ni.infoTable.writeCount then
    loadTables { ni with infoTableCache := img }
  else { ni with infoTableCache := img }

/-- The table `img` that starts at block `b`. -/
def foundAt (c : Chip) (b : Nat) (img : Bytes) (top : Nat) : Found where
  startBa := b
  endBa := b + c.tableBlocks
  writeCount := (InfoTableHeader.ofBytes img).writeCount
  mappingBlocksTopBa := top

theorem checkInfoTable_cache (ni : Instance) (x : Bytes) (startBa endBa : Nat) (img : Bytes) :
    checkInfoTable { ni with infoTableCache := x } startBa endBa img = checkInfoTable ni startBa endBa img := rfl

/-- A try succeeds exactly on an accepted table. -/
theorem tryLoadInfoTable_spec (hs : s.nand.Sound) (hlen : s.ni.infoTableCache.length = s.ni.chip.infoTableSize) (b : Nat) (tableLoaded : Bool) :
    (∃ img top n, Accepted s.nand s.ni b img top ∧ Quiet s.nand n ∧ tryLoadInfoTable s b tableLoaded =
      (some (foundAt s.ni.chip b img top), { s with nand := n, ni := loadedBy tableLoaded img s.ni })) ∨
    ((∀ img top, ¬Accepted s.nand s.ni b img top) ∧ (tryLoadInfoTable s b tableLoaded).1 = none ∧
      LoadStep s (tryLoadInfoTable s b tableLoaded).2 ∧
      ∀ b' img, b < b' → windowFrom s.nand s.ni s.ni.chip.tableBlocks b' 0 = some img →
        ∀ x, b' ≤ x → x < b' + s.ni.chip.tableBlocks → (tryLoadInfoTable s b tableLoaded).2.ni.good x = true) := by
  have hstep := @loadLoop_step s 0 hs (Nat.dvd_zero _) (Nat.zero_le _) s.ni.chip.tableBlocks b none
  have hlater : ∀ b' img, b < b' → windowFrom s.nand s.ni s.ni.chip.tableBlocks b' 0 = some img →
      ∀ x, b' ≤ x → x < b' + s.ni.chip.tableBlocks → (loadLoop s.ni.chip.tableBlocks s b 0 none).2.ni.good x = true :=
    fun b' img hb hw => loadLoop_keeps_later hs (Nat.dvd_zero _) (Nat.zero_le _) (Nat.le_of_lt hb) hw
  unfold tryLoadInfoTable
  rcases loadLoop_start hs hlen b with ⟨img, n, hw, hh, hq, he⟩ | ⟨hno, hnone⟩
  · rw [he] at hstep hlater ⊢
    dsimp only at hstep hlater ⊢
    rcases hsum : checkHeader img s.ni.chip.infoTableSize with _ | _
    · simp only [Bool.not_false, if_true]
      refine .inr ⟨fun img' top ha => ?_, trivial, hstep.1, hlater⟩
      have hi := ha.window.symm.trans hw
      cases hi
      rw [ha.checksum] at hsum
      cases hsum
    · simp only [Bool.not_true, Bool.false_eq_true, if_false, checkInfoTable_cache]
      rcases htop : checkInfoTable s.ni b (b + s.ni.chip.tableBlocks) img with _ | top <;> dsimp only
      · refine .inr ⟨fun img' top ha => ?_, rfl, hstep.1, hlater⟩
        have hi := ha.window.symm.trans hw
        cases hi
        rw [ha.tables] at htop
        cases htop
      · refine .inl ⟨img, top, n, ⟨hw, hh, hsum, htop⟩, hq, ?_⟩
        unfold loadedBy foundAt
        split <;> rfl
  · rcases hl : loadLoop s.ni.chip.tableBlocks s b 0 none with ⟨_ | ⟨st, en⟩, s₁⟩ <;> rw [hl] at hnone hstep hlater
    · refine .inr ⟨fun img top ha => ?_, by simp, hstep.1, hlater⟩
      have hf := hno img ha.window
      rw [ha.header] at hf
      cases hf
    · cases hnone

theorem checkInfoTable_congr {ni ni' : Instance} {startBa endBa : Nat} {img : Bytes} (hc : ni'.chip = ni.chip)
    (hd : ni'.dataBlockCount = ni.dataBlockCount) (hsig : ni'.signatureBa = ni.signatureBa)
    (hg : ∀ b, startBa ≤ b → b < endBa → ni'.good b = ni.good b) :
    checkInfoTable ni' startBa endBa img = checkInfoTable ni startBa endBa img := by
  have hany : ((List.range' startBa (endBa - startBa)).any fun ba => ni'.good ba && getBlockStateRaw (imageState ni img) ba != blockStGood) =
      (List.range' startBa (endBa - startBa)).any fun ba => ni.good ba && getBlockStateRaw (imageState ni img) ba != blockStGood := by
    rw [Bool.eq_iff_iff, List.any_eq_true, List.any_eq_true]
    refine exists_congr fun b => and_congr_right fun hb => ?_
    obtain ⟨h1, h2⟩ := List.mem_range'_1.mp hb
    rw [hg b h1 (by omega)]
  have hst : imageState ni' img = imageState ni img := by simp only [imageState, hc]
  have hmp : imageMapping ni' img = imageMapping ni img := by simp only [imageMapping, hc]
  have hmis : misplaced ni' endBa = misplaced ni endBa := by
    funext e
    simp only [misplaced, hd, hsig]
  simp only [checkInfoTable, hst, hmp, hmis, hd, hsig, hany]

/-- Acceptance does not change for a start block whose window the loader has kept. -/
theorem Accepted.load_iff (hl : LoadStep s s') {b : Nat} (hk : ∀ img, windowFrom s.nand s.ni s.ni.chip.tableBlocks b 0 = some img →
    ∀ x, b ≤ x → x < b + s.ni.chip.tableBlocks → s'.ni.good x = true) {img : Bytes} {top : Nat} :
    Accepted s'.nand s'.ni b img top ↔ Accepted s.nand s.ni b img top := by
  have hni := hl.ni
  have hd : s'.ni.dataBlockCount = s.ni.dataBlockCount := by rw [hni]
  have hsig : s'.ni.signatureBa = s.ni.signatureBa := by rw [hni]
  have hq := hl.nand
  constructor
  · rintro ⟨h1, h2, h3, h4⟩
    rw [hl.chip, windowFrom_nand hq.page hq.bad hq.emptyOk] at h1
    have hw := windowFrom_congr hl.chip.symm h1 fun x h5 h6 => hl.good x (windowFrom_good h1 x h5 h6).1
    refine ⟨hw, ?_, by rwa [hl.chip] at h3, ?_⟩
    · rw [← checkInfoTableHeader_congr hl.chip rfl]
      exact h2
    · rw [hl.chip] at h4
      rw [← h4]
      exact (checkInfoTable_congr hl.chip hd hsig fun x h5 h6 => by
        rw [(windowFrom_good hw x h5 h6).1, (windowFrom_good h1 x h5 h6).1]).symm
  · rintro ⟨h1, h2, h3, h4⟩
    have hw := windowFrom_congr hl.chip h1 (hk img h1)
    refine ⟨by rw [hl.chip, windowFrom_nand hq.page hq.bad hq.emptyOk]; exact hw, ?_, by rw [hl.chip]; exact h3, ?_⟩
    · rw [checkInfoTableHeader_congr hl.chip rfl]
      exact h2
    · rw [hl.chip, ← h4]
      exact checkInfoTable_congr hl.chip hd hsig fun x h5 h6 => by
        rw [(windowFrom_good hw x h5 h6).1, (windowFrom_good h1 x h5 h6).1]

/-- A search finds the first accepted table of its range. -/
theorem searchLoop_spec (hs : s.nand.Sound) (hlen : s.ni.infoTableCache.length = s.ni.chip.infoTableSize) (k ba : Nat) (tableLoaded : Bool) :
    (∃ b img top s₁ n, ba ≤ b ∧ b < ba + k ∧ Accepted s.nand s.ni b img top ∧
      (∀ b', ba ≤ b' → b' < b → ∀ img top, ¬Accepted s.nand s.ni b' img top) ∧ LoadStep s s₁ ∧ Quiet s₁.nand n ∧
      searchLoop k s ba tableLoaded =
        (some (foundAt s.ni.chip b img top), { s₁ with nand := n, ni := loadedBy tableLoaded img s₁.ni })) ∨
    ((∀ b', ba ≤ b' → b' < ba + k → ∀ img top, ¬Accepted s.nand s.ni b' img top) ∧ (searchLoop k s ba tableLoaded).1 = none ∧
      LoadStep s (searchLoop k s ba tableLoaded).2) := by
  induction k generalizing s ba with
  | zero => exact .inr ⟨fun b' h1 h2 => by omega, rfl, .refl s⟩
  | succ k ih =>
    unfold searchLoop
    rcases tryLoadInfoTable_spec hs hlen ba tableLoaded with ⟨img, top, n, ha, hq, he⟩ | ⟨hno, hnone, hl, hkeep⟩
    · rw [he]
      exact .inl ⟨ba, img, top, s, n, Nat.le_refl _, by omega, ha, fun b' h1 h2 => by omega, .refl s, hq, rfl⟩
    · rcases hx : tryLoadInfoTable s ba tableLoaded with ⟨_ | f, s₁⟩ <;> rw [hx] at hnone hl hkeep
      · have hiff : ∀ b', ba < b' → ∀ img top, Accepted s₁.nand s₁.ni b' img top ↔ Accepted s.nand s.ni b' img top :=
          fun b' hb img top => Accepted.load_iff hl fun img => hkeep b' img hb
        have hfirst : ∀ b', ba ≤ b' → (∀ img top, ¬Accepted s₁.nand s₁.ni b' img top) → ∀ img top, ¬Accepted s.nand s.ni b' img top := by
          intro b' hb hn img top ha
          by_cases hbe : b' = ba
          · subst hbe
            exact hno img top ha
          · exact hn img top ((hiff b' (by omega) img top).mpr ha)
        have hchip := hl.chip
        dsimp only at hl hchip ⊢
        rcases ih (hl.nand.sound hs) (by rw [hchip]; exact hl.cache hlen) (ba + 1) with
          ⟨b, img, top, s₂, n, h1, h2, ha, hmin, hl₂, hq, he⟩ | ⟨hn, hnone', hl₂⟩
        · rw [hchip] at he
          refine .inl ⟨b, img, top, s₂, n, by omega, by omega, (hiff b (by omega) img top).mp ha, fun b' h3 h4 => ?_, hl.trans hl₂, hq, he⟩
          by_cases hbe : b' = ba
          · subst hbe
            exact hno
          · exact hfirst b' h3 (hmin b' (by omega) h4)
        · refine .inr ⟨fun b' h3 h4 => ?_, hnone', hl.trans hl₂⟩
          by_cases hbe : b' = ba
          · subst hbe
            exact hno
          · exact hfirst b' h3 (hn b' (by omega) (by omega))
      · cases hnone

/-- No table is accepted from a block of `[lo, hi)` on. -/
def NoneAccepted (n : Nand) (ni : Instance) (lo hi : Nat) : Prop :=
  ∀ b, lo ≤ b → b < hi → ∀ img top, ¬Accepted n ni b img top

/-- The first table that is accepted in `[lo, hi)` is `img` at block `b`. -/
structure FirstAccepted (n : Nand) (ni : Instance) (lo hi b : Nat) (img : Bytes) (top : Nat) : Prop where
  le : lo ≤ b
  lt : b < hi
  accepted : Accepted n ni b img top
  none : NoneAccepted n ni lo b

theorem FirstAccepted.unique {n : Nand} {ni : Instance} {lo hi b b' top top' : Nat} {img img' : Bytes}
    (h : FirstAccepted n ni lo hi b img top) (h' : FirstAccepted n ni lo hi b' img' top') : b = b' ∧ img = img' ∧ top = top' := by
  rcases Nat.lt_trichotomy b b' with hlt | rfl | hlt
  · exact absurd h.accepted (h'.none b h.le hlt img top)
  · obtain rfl : img = img' := Option.some.inj (h.accepted.window.symm.trans h'.accepted.window)
    exact ⟨rfl, rfl, Option.some.inj (h.accepted.tables.symm.trans h'.accepted.tables)⟩
  · exact absurd h'.accepted (h.none b' h'.le hlt img' top')

/-- `nmbm_search_info_table`. -/
theorem searchInfoTable_spec (hs : s.nand.Sound) (hlen : s.ni.infoTableCache.length = s.ni.chip.infoTableSize) (ba limit : Nat)
    (tableLoaded : Bool) :
    (∃ b img top s₁ n, FirstAccepted s.nand s.ni ba (sub32 limit s.ni.chip.tableBlocks) b img top ∧ LoadStep s s₁ ∧ Quiet s₁.nand n ∧
      searchInfoTable s ba limit tableLoaded =
        (some (foundAt s.ni.chip b img top), { s₁ with nand := n, ni := loadedBy tableLoaded img s₁.ni })) ∨
    (NoneAccepted s.nand s.ni ba (sub32 limit s.ni.chip.tableBlocks) ∧
      ∃ s₁, LoadStep s s₁ ∧ searchInfoTable s ba limit tableLoaded = (none, s₁)) := by
  unfold searchInfoTable
  rcases searchLoop_spec hs hlen (sub32 limit s.ni.chip.tableBlocks - ba) ba tableLoaded with
    ⟨b, img, top, s₁, n, h1, h2, ha, hmin, hl, hq, he⟩ | ⟨hno, hnone, hl⟩
  · exact .inl ⟨b, img, top, s₁, n, ⟨h1, by omega, ha, hmin⟩, hl, hq, he⟩
  · refine .inr ⟨fun b h1 h2 => hno b h1 (by omega), ?_⟩
    rcases hx : searchLoop (sub32 limit s.ni.chip.tableBlocks - ba) s ba tableLoaded with ⟨_ | f, s₁⟩ <;> rw [hx] at hnone hl
    · exact ⟨s₁, hl, rfl⟩
    · cases hnone

end

/-! ### Attaching -/

/-- Nothing was erased or programmed. -/
structure Unwritten (s s' : State) : Prop where
  page : s'.nand.page = s.nand.page
  log : s'.nand.log = s.nand.log
  emptyOk : s'.nand.emptyOk = s.nand.emptyOk
  chip : s'.ni.chip = s.ni.chip
  forceCreate : s'.ni.forceCreate = s.ni.forceCreate

namespace Unwritten
variable {s s' s'' : State}

theorem refl (s : State) : Unwritten s s := ⟨rfl, rfl, rfl, rfl, rfl⟩

theorem trans (h : Unwritten s s') (h' : Unwritten s' s'') : Unwritten s s'' :=
  ⟨h'.page.trans h.page, h'.log.trans h.log, h'.emptyOk.trans h.emptyOk, h'.chip.trans h.chip, h'.forceCreate.trans h.forceCreate⟩

theorem of_read (h : ReadStep s s') : Unwritten s s' := by
  refine ⟨h.nand.page, h.nand.log, h.nand.emptyOk, ?_, ?_⟩
  · rw [h.ni]
  · rw [h.ni]

theorem peek (h : Unwritten s s') (pgSize b p : Nat) : s'.nand.peek pgSize b p = s.nand.peek pgSize b p := by
  simp only [Nand.peek, h.page, h.emptyOk]

end Unwritten

section
variable (s : State)

theorem checkBadPhysBlock_unwritten (b : Nat) : Unwritten s (checkBadPhysBlock s b).2 := by
  have hlog : (s.nand.blockIsbad b).2.log = s.nand.log := by
    unfold Nand.blockIsbad
    split <;> rfl
  exact ⟨page_blockIsbad .., hlog, (checkBadPhysBlock_step s b).nand.emptyOk, rfl, rfl⟩

theorem setBlockState_unwritten (b : Nat) (st : UInt32) : Unwritten s (setBlockState s b st) := by
  unfold setBlockState
  dsimp only
  split_ifs
  · exact ⟨rfl, rfl, rfl, rfl, rfl⟩
  · exact ⟨rfl, rfl, rfl, rfl, rfl⟩

theorem loadLoop_unwritten (n ba off : Nat) (start : Option Nat) : Unwritten s (loadLoop n s ba off start).2 := by
  induction n generalizing s ba off start with
  | zero => exact .refl s
  | succ n ih =>
    unfold loadLoop
    split_ifs
    · exact .refl s
    · have hbad := checkBadPhysBlock_unwritten s ba
      rcases hc : checkBadPhysBlock s ba with ⟨_ | _, s₁⟩ <;> rw [hc] at hbad
      · have hread := readData_step s₁ ba 0 (min (s₁.ni.chip.infoTableSize - off) s₁.ni.chip.blkSize)
        dsimp only
        rcases hr : readData s₁ ba 0 (min (s₁.ni.chip.infoTableSize - off) s₁.ni.chip.blkSize) with ⟨_ | d, s₂⟩ <;> rw [hr] at hread
        · exact (hbad.trans (.of_read hread)).trans ((setBlockState_unwritten s₂ ba blockStBad).trans (ih ..))
        · have hcache : Unwritten s { s₂ with ni.infoTableCache := writeAt s₂.ni.infoTableCache off d } :=
            (hbad.trans (.of_read hread)).trans ⟨rfl, rfl, rfl, rfl, rfl⟩
          dsimp only
          split_ifs
          · exact hcache
          · exact hcache.trans (ih ..)
      · exact hbad.trans ((setBlockState_unwritten s₁ ba blockStBad).trans (ih ..))
    · exact ih ..

theorem tryLoadInfoTable_unwritten (ba : Nat) (tableLoaded : Bool) : Unwritten s (tryLoadInfoTable s ba tableLoaded).2 := by
  unfold tryLoadInfoTable
  have hloop := loadLoop_unwritten s s.ni.chip.tableBlocks ba 0 none
  rcases hl : loadLoop s.ni.chip.tableBlocks s ba 0 none with ⟨_ | ⟨startBa, endBa⟩, s₁⟩ <;> rw [hl] at hloop
  · exact hloop
  · dsimp only
    split
    · exact hloop
    · cases checkInfoTable s₁.ni startBa endBa s₁.ni.infoTableCache with
      | none => exact hloop
      | some top =>
        dsimp only
        split_ifs
        · exact hloop.trans ⟨rfl, rfl, rfl, rfl, rfl⟩
        · exact hloop

theorem searchLoop_unwritten (n ba : Nat) (tableLoaded : Bool) : Unwritten s (searchLoop n s ba tableLoaded).2 := by
  induction n generalizing s ba with
  | zero => exact .refl s
  | succ n ih =>
    unfold searchLoop
    have htry := tryLoadInfoTable_unwritten s ba tableLoaded
    rcases hl : tryLoadInfoTable s ba tableLoaded with ⟨_ | f, s₁⟩ <;> rw [hl] at htry
    · exact htry.trans (ih ..)
    · exact htry

/-- Tables that are not found leave the chip as it is. -/
theorem loadInfoTable_unwritten (ba limit : Nat) (h : (loadInfoTable s ba limit).1 = false) :
    Unwritten s (loadInfoTable s ba limit).2 := by
  have hsearch := searchLoop_unwritten (resetTables s) (sub32 limit (resetTables s).ni.chip.tableBlocks - ba) ba false
  have hreset : Unwritten s (resetTables s) := ⟨rfl, rfl, rfl, rfl, rfl⟩
  unfold loadInfoTable searchInfoTable at h ⊢
  rcases hl : searchLoop (sub32 limit (resetTables s).ni.chip.tableBlocks - ba) (resetTables s) ba false with ⟨_ | main, s₁⟩ <;>
    rw [hl] at hsearch h
  · exact hreset.trans hsearch
  · cases h

theorem loadExisting_unwritten (h : (loadExisting s).1 = false) (hforce : s.ni.forceCreate = false) :
    Unwritten s (loadExisting s).2 := by
  have hstart : Unwritten s { s with ni.mgmtStartBa := s.ni.signature.mgmtStartPb.toNat } := ⟨rfl, rfl, rfl, rfl, rfl⟩
  have hload := loadInfoTable_unwritten { s with ni.mgmtStartBa := s.ni.signature.mgmtStartPb.toNat }
    s.ni.signature.mgmtStartPb.toNat s.ni.signatureBa
  unfold loadExisting at h ⊢
  dsimp only at h ⊢
  rcases hl : loadInfoTable { s with ni.mgmtStartBa := s.ni.signature.mgmtStartPb.toNat } s.ni.signature.mgmtStartPb.toNat
    s.ni.signatureBa with ⟨_ | _, s₁⟩ <;> rw [hl] at hload h
  · have hall := hstart.trans (hload rfl)
    have hno : s₁.ni.forceCreate = false := hall.forceCreate.trans hforce
    simp only [hno]
    exact hall
  · cases h

end

/-- A page with a signature of the driver. -/
def Signed (s : State) (g : Signature) (ba : Nat) : Prop :=
  ∃ p < s.ni.chip.pagesPerBlock, ∃ d, s.nand.peek s.ni.chip.pgSize ba p = .ok d ∧ checkHeader (d.take signatureSize) signatureSize = true ∧
    Signature.ofBytes (d.take signatureSize) = g ∧ g.magic = nmbmMagicSignature

section
variable {s s' : State} {ba p : Nat} {d : Bytes} {g : Signature}

theorem Unwritten.signed (h : Unwritten s s') : Signed s' g ba ↔ Signed s g ba := by
  simp only [Signed, h.peek, h.chip]

/-- A signature fits a page. -/
theorem readData_signature (h : (readData s ba p signatureSize).1 = .ok d) :
    ∃ page, s.nand.peek s.ni.chip.pgSize ba p = .ok page ∧ d = page.take signatureSize := by
  have hpage : 2 ^ 6 ≤ s.ni.chip.pgSize := Nat.pow_le_pow_right (by decide) s.ni.chip.pgShift_ge
  have hone : (signatureSize + s.ni.chip.pgSize - 1) / s.ni.chip.pgSize = 1 := by
    rw [signatureSize, Nat.div_eq_iff (by omega : 0 < s.ni.chip.pgSize)]
    omega
  unfold readData at h
  rw [hone, readPages] at h
  have hread := readPhysPage_ok s ba p (d := (readPhysPage s ba p).1.toOption.getD [])
  rcases hr : readPhysPage s ba p with ⟨_ | page, s₁⟩ <;> rw [hr] at h hread
  · cases h
  · refine ⟨page, hread rfl, ?_⟩
    simp only [readPages, List.append_nil, Except.ok.injEq] at h
    exact h.symm

theorem signatureInBlock_spec (n : Nat) : Unwritten s (signatureInBlock ba n p s).2 ∧
    ∀ g, (signatureInBlock ba n p s).1 = some g → p + n ≤ s.ni.chip.pagesPerBlock → Signed s g ba := by
  induction n generalizing s p with
  | zero => exact ⟨.refl s, fun g h => by cases h⟩
  | succ n ih =>
    unfold signatureInBlock
    have hnext (s₁ : State) (h : Unwritten s s₁) : Unwritten s (signatureInBlock ba n (p + 1) s₁).2 ∧
        ∀ g, (signatureInBlock ba n (p + 1) s₁).1 = some g → p + (n + 1) ≤ s.ni.chip.pagesPerBlock → Signed s g ba :=
      ⟨h.trans ih.1, fun g hg hle => h.signed.mp (ih.2 g hg (by rw [h.chip]; omega))⟩
    have hstep := Unwritten.of_read (readData_step s ba p signatureSize)
    have hdata := @readData_signature s ba p ((readData s ba p signatureSize).1.toOption.getD [])
    rcases hr : readData s ba p signatureSize with ⟨_ | d, s₁⟩ <;> rw [hr] at hstep hdata
    · exact hnext s₁ hstep
    · dsimp only
      split_ifs with hsig
      · refine ⟨hstep, fun g hg hle => ?_⟩
        obtain ⟨page, hpage, rfl⟩ := hdata rfl
        obtain ⟨hhead, hmagic⟩ := (Bool.and_eq_true _ _).mp hsig
        cases hg
        exact ⟨p, by omega, page, hpage, hhead, rfl, beq_iff_eq.mp hmagic⟩
      · exact hnext s₁ hstep

theorem findSignatureLoop_spec {n : Nat} (hn : n ≤ ba) : Unwritten s (findSignatureLoop n s ba).2 ∧
    ∀ g b, (findSignatureLoop n s ba).1 = some (g, b) → b < ba ∧ Signed s g b := by
  induction n generalizing s ba with
  | zero => exact ⟨.refl s, fun g b h => by cases h⟩
  | succ n ih =>
    unfold findSignatureLoop
    have hnext (s₁ : State) (h : Unwritten s s₁) : Unwritten s (findSignatureLoop n s₁ (ba - 1)).2 ∧
        ∀ g b, (findSignatureLoop n s₁ (ba - 1)).1 = some (g, b) → b < ba ∧ Signed s g b := by
      obtain ⟨hkept, hfound⟩ := @ih s₁ (ba - 1) (by omega)
      refine ⟨h.trans hkept, fun g b hg => ?_⟩
      obtain ⟨hlt, hsigned⟩ := hfound g b hg
      exact ⟨by omega, h.signed.mp hsigned⟩
    have hbad := checkBadPhysBlock_unwritten s (ba - 1)
    rcases hc : checkBadPhysBlock s (ba - 1) with ⟨_ | _, s₁⟩ <;> rw [hc] at hbad
    · have hblock := @signatureInBlock_spec s₁ (ba - 1) 0 s₁.ni.chip.pagesPerBlock
      dsimp only
      rcases hr : signatureInBlock (ba - 1) s₁.ni.chip.pagesPerBlock 0 s₁ with ⟨_ | g', s₂⟩ <;> rw [hr] at hblock
      · exact hnext s₂ (hbad.trans hblock.1)
      · refine ⟨hbad.trans hblock.1, fun g b hg => ?_⟩
        cases hg
        exact ⟨by omega, hbad.signed.mp (hblock.2 _ rfl (by omega))⟩
    · exact hnext s₁ hbad

/-- A signature that is found is on a page of the chip. -/
theorem findSignature_spec (s : State) : Unwritten s (findSignature s).2 ∧
    ∀ g ba, (findSignature s).1 = some (g, ba) → ba < s.ni.blockCount ∧ Signed s g ba :=
  findSignatureLoop_spec (Nat.min_le_left _ _)

/-- A chip that is refused was only read, unless new tables were asked for. -/
theorem attach_refused {e : AttachError} (h : (attach s).1 = .error e) (hforce : s.ni.forceCreate = false ∨ e = .einval) :
    (attach s).2.nand.page = s.nand.page ∧ (attach s).2.nand.log = s.nand.log := by
  have hfind := (findSignature_spec s).1
  unfold attach at h ⊢
  rcases hf : findSignature s with ⟨_ | ⟨g, ba⟩, s₁⟩ <;> rw [hf] at hfind h
  · dsimp only at h ⊢
    split_ifs at h ⊢ with hno
    · exact ⟨hfind.page, hfind.log⟩
    · rcases hforce with hforce | rfl
      · have hkeep : s₁.ni.forceCreate = false := hfind.forceCreate.trans hforce
        rw [hkeep] at hno
        exact absurd rfl hno
      · rcases hc : createNew s₁ with ⟨_ | _, s₂⟩ <;> rw [hc] at h <;> cases h
  · have hset : Unwritten s { s₁ with ni.signature := g, ni.signatureBa := ba } := hfind.trans ⟨rfl, rfl, rfl, rfl, rfl⟩
    dsimp only at h ⊢
    split_ifs at h ⊢ with hfits
    · have hload := loadExisting_unwritten { s₁ with ni.signature := g, ni.signatureBa := ba }
      rcases hl : loadExisting { s₁ with ni.signature := g, ni.signatureBa := ba } with ⟨_ | _, s₂⟩ <;> rw [hl] at hload h
      · rcases hforce with hforce | rfl
        · have hall := hset.trans (hload rfl (hfind.forceCreate.trans hforce))
          exact ⟨hall.page, hall.log⟩
        · cases h
      · cases h
    · exact ⟨hset.page, hset.log⟩

/-- A chip that is accepted has a signature of the driver that fits it, unless new tables were asked for. -/
theorem attach_accepted (h : (attach s).1 = .ok ()) (hforce : s.ni.forceCreate = false) :
    ∃ g ba, ba < s.ni.blockCount ∧ Signed s g ba ∧ signatureFits g s.ni.chip = true := by
  obtain ⟨hfind, hsigned⟩ := findSignature_spec s
  unfold attach at h
  rcases hf : findSignature s with ⟨_ | ⟨g, ba⟩, s₁⟩ <;> rw [hf] at hfind hsigned h
  · have hno : s₁.ni.forceCreate = false := hfind.forceCreate.trans hforce
    simp [hno] at h
  · obtain ⟨hba, hpage⟩ := hsigned g ba rfl
    refine ⟨g, ba, hba, hpage, ?_⟩
    by_contra hfits
    rw [← hfind.chip] at hfits
    simp [hfits] at h

end
end Nmbm

end RainWrt
