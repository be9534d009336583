import RainWrt.Tffs

/-! The bitmap and the cached ids of the TFFS reader, and the scan: the header of a block decides which bits are cleared
    before anything is checked against the size of the bitmap. -/

namespace RainWrt.Tffs

/-! ### Folds that may stop -/

@[simp] theorem ok_bind {ε α β : Type} (a : α) (f : α → Except ε β) : (Except.ok a >>= f) = f a := rfl

@[simp] theorem error_bind {ε α β : Type} (e : ε) (f : α → Except ε β) : (Except.error e >>= f) = .error e := rfl

/-- A step that keeps an invariant of what was gone through where `P` holds of it and the next element, and stops where
    it does not. -/
structure Guarded {σ κ ε : Type} (step : σ → κ → Except ε σ) (P : List κ → κ → Prop) (Inv : List κ → σ → Prop) (e : ε) : Prop where
  ok : ∀ {pre k st}, Inv pre st → P pre k → ∃ st', step st k = .ok st' ∧ Inv (pre ++ [k]) st'
  stop : ∀ {pre k st}, Inv pre st → ¬P pre k → step st k = .error e

/-- `P` holds of each element and what is gone through before it. -/
def Along {κ : Type} (P : List κ → κ → Prop) (pre ks : List κ) : Prop := ∀ a k b, ks = a ++ k :: b → P (pre ++ a) k

section
variable {σ κ ε : Type} {step : σ → κ → Except ε σ} {P : List κ → κ → Prop} {Inv : List κ → σ → Prop} {e : ε}
  {k : κ} {ks pre : List κ} {st : σ}

theorem along_cons : Along P pre (k :: ks) ↔ P pre k ∧ Along P (pre ++ [k]) ks := by
  constructor
  · intro h
    refine ⟨by simpa using h [] k ks rfl, fun a j b hks => ?_⟩
    simpa using h (k :: a) j b (by rw [hks]; rfl)
  · rintro ⟨hk, h⟩ a j b hks
    cases a with
    | nil =>
      obtain ⟨rfl, rfl⟩ := List.cons.inj hks
      simpa using hk
    | cons x a =>
      obtain ⟨rfl, hrest⟩ := List.cons.inj hks
      simpa using h a j b hrest

theorem along_const {Q : κ → Prop} : Along (fun _ => Q) pre ks ↔ ∀ k ∈ ks, Q k := by
  constructor
  · intro h k hk
    obtain ⟨a, b, hab⟩ := List.append_of_mem hk
    exact h a k b hab
  · rintro h a k b rfl
    exact h k (by simp)

theorem Guarded.foldlM_ok (h : Guarded step P Inv e) (hst : Inv pre st) (hks : Along P pre ks) :
    ∃ st', ks.foldlM step st = .ok st' ∧ Inv (pre ++ ks) st' := by
  induction ks generalizing pre st with
  | nil => exact ⟨st, rfl, by simpa using hst⟩
  | cons k ks ih =>
    obtain ⟨hk, hks⟩ := along_cons.mp hks
    obtain ⟨st', hstep, hst'⟩ := h.ok hst hk
    obtain ⟨st'', hrest, hst''⟩ := ih hst' hks
    rw [List.append_assoc, List.singleton_append] at hst''
    exact ⟨st'', by rw [List.foldlM_cons, hstep]; exact hrest, hst''⟩

theorem Guarded.foldlM_stop (h : Guarded step P Inv e) (hst : Inv pre st) (hks : ¬Along P pre ks) :
    ks.foldlM step st = .error e := by
  induction ks generalizing pre st with
  | nil => exact absurd (fun a k b hnil => by simp at hnil) hks
  | cons k ks ih =>
    rw [List.foldlM_cons]
    by_cases hk : P pre k
    · obtain ⟨st', hstep, hst'⟩ := h.ok hst hk
      rw [hstep]
      exact ih hst' fun hall => hks (along_cons.mpr ⟨hk, hall⟩)
    · rw [h.stop hst hk]
      rfl

theorem Guarded.run_ok (h : Guarded step P Inv e) (hst : Inv [] st) (hks : Along P [] ks) : ∃ st', ks.foldlM step st = .ok st' ∧ Inv ks st' :=
  h.foldlM_ok hst hks

theorem Guarded.run_stop (h : Guarded step P Inv e) (hst : Inv [] st) (hks : ¬Along P [] ks) : ks.foldlM step st = .error e :=
  h.foldlM_stop hst hks

end

/-! ### The bitmap -/

/-- The number of bits. -/
def Flash.bits (F : Flash) : Nat := 8 * ((F.numSectors + 7) / 8)

/-- The allocations have the sizes that the scan gave them. -/
structure Sized (F : Flash) (s : State) : Prop where
  sectors : s.sectors.length = F.bits
  sectorIds : s.sectorIds.length = F.numSectors

def State.good (s : State) (k : Nat) : Bool := s.sectors.getD k false

/-- A number whose bit is in the bitmap, or whose byte index is rounded up to 0. -/
def Flash.Fits (F : Flash) (num : Int) : Prop := -8 < num ∧ num < F.bits ∧ 0 < F.bits

variable {F : Flash} {s s' : State} {num : Int} {k : Nat} {id : UInt32}

theorem Flash.numSectors_le_bits : F.numSectors ≤ F.bits := by
  simp only [Flash.bits]
  omega

theorem Flash.fits_sector (h : k < F.bits) : F.Fits k := ⟨by omega, by omega, by omega⟩

theorem Sized.inBitmap (h : Sized F s) : s.inBitmap num ↔ F.Fits num := by
  have hlen : s.sectors.length / 8 = (F.numSectors + 7) / 8 := by rw [h.sectors, Flash.bits]; omega
  rw [State.inBitmap, hlen, Flash.Fits, Flash.bits]
  rcases Int.le_total 0 num with hn | hn
  · rw [Int.tdiv_eq_ediv_of_nonneg hn]
    omega
  · obtain ⟨m, rfl⟩ := Int.exists_eq_neg_ofNat hn
    rw [Int.neg_tdiv, Int.tdiv_eq_ediv_of_nonneg (by omega)]
    omega

/-- What is kept while sectors are marked and ids are cached. -/
structure Kept (F : Flash) (s s' : State) : Prop where
  sized : Sized F s → Sized F s'
  good : ∀ k, s'.good k = true → s.good k = true
  sectorIds : ∀ k : Nat, s'.sectorIds[k]? = s.sectorIds[k]? ∨ ∃ p, F.page k = some p ∧ s'.sectorIds[k]? = some (F.readUint32 p 0)

theorem Kept.refl : Kept F s s := ⟨fun h => h, fun _ h => h, fun _ => .inl rfl⟩

theorem Kept.trans {s'' : State} (h : Kept F s s') (h' : Kept F s' s'') : Kept F s s'' := by
  refine ⟨fun hs => h'.sized (h.sized hs), fun k hk => h.good k (h'.good k hk), fun k => ?_⟩
  rcases h'.sectorIds k with hk | hk
  · rw [hk]
    exact h.sectorIds k
  · exact .inr hk

theorem sectorGetGood_eq (hs : Sized F s) (hk : k < F.bits) : sectorGetGood s k = .ok (s.good k) := by
  rw [sectorGetGood, if_pos (hs.inBitmap.mpr (Flash.fits_sector hk))]
  simp [State.good]

theorem sectorGetGood_stop (hs : Sized F s) (hk : ¬k < F.bits) : sectorGetGood s k = .error .fault :=
  if_neg fun h => hk (by simpa using (hs.inBitmap.mp h).2.1)

theorem sectorMarkBad_stop (hs : Sized F s) (hn : ¬F.Fits num) : sectorMarkBad s num = .error .fault :=
  if_neg fun h => hn (hs.inBitmap.mp h)

theorem sectorMarkBad_ok (hs : Sized F s) (hn : F.Fits num) :
    ∃ s', sectorMarkBad s num = .ok s' ∧ Kept F s s' ∧ s'.sectorIds = s.sectorIds ∧ (0 ≤ num → s'.good num.toNat = false) := by
  refine ⟨_, if_pos (hs.inBitmap.mpr hn), ?_⟩
  split_ifs with hneg
  · exact ⟨Kept.refl, rfl, fun h => by omega⟩
  · refine ⟨⟨fun h => ⟨by simpa using h.sectors, h.sectorIds⟩, ?_, fun _ => .inl rfl⟩, rfl, fun _ => ?_⟩
    · intro k hk
      simp only [State.good, List.getD_eq_getElem?_getD, List.getElem?_set] at hk ⊢
      split_ifs at hk
      · simp at hk
      · simp at hk
      · exact hk
    · simp only [State.good, List.getD_eq_getElem?_getD, List.getElem?_set]
      simp
      split_ifs <;> rfl

/-- The sector of a number, marked. -/
theorem sectorMarkBad_sector (hs : Sized F s) (hk : k < F.bits) :
    ∃ s', sectorMarkBad s k = .ok s' ∧ Kept F s s' ∧ s'.sectorIds = s.sectorIds ∧ s'.good k = false := by
  obtain ⟨s', hok, hkept, hids, hbad⟩ := sectorMarkBad_ok hs (Flash.fits_sector hk)
  exact ⟨s', hok, hkept, hids, by simpa using hbad (by omega)⟩

/-! ### Reading a sector -/

theorem Flash.lt_numSectors {p : Bytes} (h : F.page k = some p) : k < F.numSectors := by
  have := (F.length_page k p h).2
  simp only [Flash.numSectors, sectorSize] at *
  omega

theorem readSector_eq (hs : Sized F s) {p : Bytes} (h : F.page k = some p) :
    readSector F s k = .ok (some p, { s with sectorIds := s.sectorIds.set k (F.readUint32 p 0) }) := by
  rw [readSector, h]
  exact if_pos (by rw [hs.sectorIds]; exact Flash.lt_numSectors h)

theorem readSector_none (h : F.page k = none) : readSector F s k = .ok (none, s) := by
  rw [readSector, h]

theorem kept_store {p : Bytes} (h : F.page k = some p) :
    Kept F s { s with sectorIds := s.sectorIds.set k (F.readUint32 p 0) } := by
  refine ⟨fun hs => ⟨hs.sectors, by simpa using hs.sectorIds⟩, fun _ hk => hk, fun j => ?_⟩
  rcases eq_or_ne k j with rfl | hj
  · by_cases hlt : k < s.sectorIds.length
    · exact .inr ⟨p, h, by simp [hlt]⟩
    · exact .inl (by simp [hlt])
  · exact .inl (by simp [List.getElem?_set_ne hj])

/-! ### The scan -/

/-- A sector that `check_block` accepts as the header of a block. -/
structure Header (F : Flash) (k : Nat) (p : Bytes) : Prop where
  checked : checkSector F k = true
  page : F.page k = some p
  magic : F.readUint64 p 0 = blockHeaderMagic
  perPage : F.readUint32 p 0x0c = sectorsPerPage

/-- Both numbers of an accepted header are inside the bitmap. -/
def HeaderFits (F : Flash) (k : Nat) : Prop := ∀ p, Header F k p → ∀ i < 2, F.Fits (headerBad F p k i)

theorem guarded_mark (p : Bytes) : Guarded (fun s' i => sectorMarkBad s' (headerBad F p k i)) (fun _ i => F.Fits (headerBad F p k i))
    (fun _ s' => Sized F s' ∧ Kept F s s') .fault := by
  constructor
  · intro _ i st hst hi
    obtain ⟨st', hok, hkept, -⟩ := sectorMarkBad_ok hst.1 hi
    exact ⟨st', hok, hkept.sized hst.1, hst.2.trans hkept⟩
  · exact fun hst hi => sectorMarkBad_stop hst.1 hi

/-- The header is read, and the rest depends on whether it is one. -/
theorem checkBlock_page (hs : Sized F s) (hc : checkSector F k = true) {p : Bytes} (hp : F.page k = some p) :
    ∃ s', Kept F s s' ∧ checkBlock F s k = if F.readUint64 p 0 = blockHeaderMagic ∧ F.readUint32 p 0x0c = sectorsPerPage then do
      let s ← (List.range 2).foldlM (fun s i => sectorMarkBad s (headerBad F p k i)) s'
      return (true, s) else .ok (false, s') := by
  refine ⟨_, kept_store hp, ?_⟩
  rw [checkBlock, if_pos hc, readSector_eq hs hp, ok_bind]
  by_cases hmagic : F.readUint64 p 0 = blockHeaderMagic
  · by_cases htwo : F.readUint32 p 0x0c = sectorsPerPage
    · simp only [hmagic, htwo, ne_eq, not_true_eq_false, if_false, and_self, if_true]
      rfl
    · simp [hmagic, htwo, pure, Except.pure]
  · simp [hmagic, pure, Except.pure]

theorem checkBlock_ok (hs : Sized F s) (hk : HeaderFits F k) : ∃ b s', checkBlock F s k = .ok (b, s') ∧ Kept F s s' := by
  by_cases hc : checkSector F k = true
  · cases hp : F.page k with
    | none =>
      refine ⟨false, s, ?_, Kept.refl⟩
      rw [checkBlock, if_pos hc, readSector_none hp]
      rfl
    | some p =>
      obtain ⟨s', hkept, heq⟩ := checkBlock_page hs hc hp
      rw [heq]
      split_ifs with hheader
      · obtain ⟨s'', hok, -, hkept'⟩ := (guarded_mark p).run_ok ⟨hkept.sized hs, Kept.refl⟩
          (along_const.mpr fun i hi => hk p ⟨hc, hp, hheader.1, hheader.2⟩ i (List.mem_range.mp hi))
        rw [hok]
        exact ⟨true, s'', rfl, hkept.trans hkept'⟩
      · exact ⟨false, s', rfl, hkept⟩
  · exact ⟨false, s, if_neg hc, Kept.refl⟩

theorem checkBlock_stop (hs : Sized F s) (hk : ¬HeaderFits F k) : checkBlock F s k = .error .fault := by
  simp only [HeaderFits, not_forall] at hk
  obtain ⟨p, hheader, hfit⟩ := hk
  obtain ⟨s', hkept, heq⟩ := checkBlock_page hs hheader.checked hheader.page
  rw [heq, if_pos ⟨hheader.magic, hheader.perPage⟩,
    (guarded_mark p).run_stop ⟨hkept.sized hs, Kept.refl⟩ (by simpa [along_const] using hfit)]
  rfl

/-! ### The whole scan -/

/-- A cached id is that of the sector, or none is cached. -/
def Cached (F : Flash) (s : State) : Prop :=
  ∀ (k : Nat) (id : UInt32), s.sectorIds[k]? = some id → id = 0 ∨ ∃ p, F.page k = some p ∧ id = F.readUint32 p 0

/-- The invariant of the scan, of the sectors that it went through. -/
structure Scanned (F : Flash) (pre : List Nat) (s : State) : Prop where
  sized : Sized F s
  cached : Cached F s
  starts : ∀ k ∈ pre, F.startsBlock k = true → s.good k = false

/-- What one round of the scan accesses. -/
def RoundFits (F : Flash) (k : Nat) : Prop := (F.startsBlock k = true → HeaderFits F k) ∧ k < F.bits

theorem Kept.cached (h : Kept F s s') (hs : Cached F s) : Cached F s' := by
  intro k id hk
  rcases h.sectorIds k with heq | ⟨p, hp, heq⟩
  · exact hs k id (heq ▸ hk)
  · rw [heq] at hk
    exact .inr ⟨p, hp, (Option.some.inj hk).symm⟩

theorem Kept.bad (h : Kept F s s') (hbad : s.good k = false) : s'.good k = false :=
  Bool.eq_false_iff.mpr fun hgood => by simp [h.good k hgood] at hbad

section
variable {pre : List Nat}

theorem Scanned.append (h : Scanned F pre s) (hkept : Kept F s s') (hstart : F.startsBlock k = true → s'.good k = false) :
    Scanned F (pre ++ [k]) s' := by
  refine ⟨hkept.sized h.sized, hkept.cached h.cached, fun j hj hb => ?_⟩
  rcases List.mem_append.mp hj with hj | hj
  · exact hkept.bad (h.starts j hj hb)
  · obtain rfl := List.mem_singleton.mp hj
    exact hstart hb

theorem usable_ok (st : Scan) (hs : Sized F st.state) (hk : k < F.bits) : ∃ b, usable F st k = .ok b := by
  rw [usable]
  split_ifs
  · exact ⟨_, by rw [sectorGetGood_eq hs hk]; rfl⟩
  · exact ⟨_, rfl⟩

theorem scanStep_ok {st : Scan} (h : Scanned F pre st.state) (hk : RoundFits F k) :
    ∃ st', scanStep F st k = .ok st' ∧ Scanned F (pre ++ [k]) st'.state := by
  rw [scanStep]
  split_ifs with hstart
  · obtain ⟨b, s₁, hcheck, hkept₁⟩ := checkBlock_ok h.sized (hk.1 hstart)
    obtain ⟨s₂, hmark, hkept₂, -, hbad⟩ := sectorMarkBad_sector (hkept₁.sized h.sized) hk.2
    simp only [hcheck, ok_bind, hmark]
    exact ⟨_, rfl, h.append (hkept₁.trans hkept₂) fun _ => hbad⟩
  · obtain ⟨b, hb⟩ := usable_ok st h.sized hk.2
    rw [hb, ok_bind]
    split_ifs
    · exact ⟨st, rfl, h.append Kept.refl fun h => absurd h hstart⟩
    · obtain ⟨s₂, hmark, hkept, -, -⟩ := sectorMarkBad_sector h.sized hk.2
      rw [hmark]
      exact ⟨_, rfl, h.append hkept fun h => absurd h hstart⟩

theorem scanStep_stop {st : Scan} (h : Scanned F pre st.state) (hk : ¬RoundFits F k) : scanStep F st k = .error .fault := by
  have hmark : ∀ {s}, Sized F s → ¬k < F.bits → sectorMarkBad s k = .error .fault :=
    fun hs hlt => sectorMarkBad_stop hs fun hfit => hlt (by simpa using hfit.2.1)
  rw [scanStep]
  split_ifs with hstart
  · by_cases hheader : HeaderFits F k
    · obtain ⟨b, s₁, hcheck, hkept₁⟩ := checkBlock_ok h.sized hheader
      simp only [hcheck, ok_bind]
      rw [hmark (hkept₁.sized h.sized) fun hlt => hk ⟨fun _ => hheader, hlt⟩]
      rfl
    · rw [checkBlock_stop h.sized hheader]
      rfl
  · have hlt : ¬k < F.bits := fun hlt => hk ⟨fun h => absurd h hstart, hlt⟩
    rw [usable]
    split_ifs
    · rw [sectorGetGood_stop h.sized hlt]
      rfl
    · simp only [ok_bind, Bool.false_eq_true, if_false]
      rw [hmark h.sized hlt]
      rfl

theorem guarded_scan : Guarded (scanStep F) (fun _ => RoundFits F) (fun pre st => Scanned F pre st.state) .fault :=
  ⟨scanStep_ok, scanStep_stop⟩

end

theorem scanned_blank : Scanned F [] F.blank := by
  refine ⟨⟨by simp [Flash.blank, Flash.bits], by simp [Flash.blank]⟩, fun k id hk => ?_, by simp⟩
  simp only [Flash.blank, List.getElem?_replicate] at hk
  split_ifs at hk with hlt
  exact .inl (Option.some.inj hk).symm

/-- The numbers in the headers of the blocks are inside the bitmap, and so is a sector that is cut short by the end. -/
structure HeadersFit (F : Flash) : Prop where
  headers : ∀ k, F.startsBlock k = true → HeaderFits F k
  whole : F.size.toNat % sectorSize = 0 ∨ F.numSectors % 8 ≠ 0

/-- The sectors that the scan goes through. -/
def Flash.rounds (F : Flash) : Nat := (F.size.toNat + (sectorSize - 1)) / sectorSize

theorem Flash.numSectors_le_rounds : F.numSectors ≤ F.rounds := Nat.div_le_div_right (Nat.le_add_right _ _)

theorem forall_roundFits : (∀ k ∈ List.range F.rounds, RoundFits F k) ↔ HeadersFit F := by
  have hrounds : F.rounds ≤ F.bits ↔ F.size.toNat % sectorSize = 0 ∨ F.numSectors % 8 ≠ 0 := by
    simp only [Flash.rounds, Flash.bits, Flash.numSectors, sectorSize]
    omega
  simp only [List.mem_range]
  constructor
  · intro h
    refine ⟨fun k hk p hheader => ?_, hrounds.mp ?_⟩
    · exact (h k (Nat.lt_of_lt_of_le (Flash.lt_numSectors hheader.page) Flash.numSectors_le_rounds)).1 hk p hheader
    · rcases Nat.eq_zero_or_pos F.rounds with h0 | hpos
      · omega
      · have := (h (F.rounds - 1) (by omega)).2
        omega
  · exact fun h k hk => ⟨h.headers k, Nat.lt_of_lt_of_le hk (hrounds.mpr h.whole)⟩

/-- What holds of the state behind the scan, and behind every lookup. -/
structure Ready (F : Flash) (s : State) : Prop where
  sized : Sized F s
  cached : Cached F s
  starts : ∀ k < F.numSectors, F.startsBlock k = true → s.good k = false

theorem scanMtd_ok (h : HeadersFit F) : ∃ n s, scanMtd F = .ok (n, s) ∧ Ready F s := by
  obtain ⟨st, hok, hst⟩ := guarded_scan.run_ok (show Scanned F [] (Scan.mk F.blank false 0).state from scanned_blank)
    (along_const.mpr (forall_roundFits.mpr h))
  refine ⟨st.validBlocks, st.state, ?_, hst.sized, hst.cached, fun k hk => hst.starts k ?_⟩
  · rw [scanMtd, ← Flash.rounds, hok]
    rfl
  · simpa using Nat.lt_of_lt_of_le hk Flash.numSectors_le_rounds

theorem scanMtd_stop (h : ¬HeadersFit F) : scanMtd F = .error .fault := by
  have hstop := guarded_scan.run_stop (show Scanned F [] (Scan.mk F.blank false 0).state from scanned_blank)
    fun hall => h (forall_roundFits.mp (along_const.mp hall))
  rw [scanMtd, ← Flash.rounds, hstop]
  rfl

/-- The scan stays in its allocations exactly if the headers do. -/
theorem scan_faultless : scanMtd F ≠ .error .fault ↔ HeadersFit F := by
  constructor
  · intro h
    by_contra hfit
    exact h (scanMtd_stop hfit)
  · intro h
    obtain ⟨n, s, hok, -⟩ := scanMtd_ok h
    simp [hok]

end RainWrt.Tffs
