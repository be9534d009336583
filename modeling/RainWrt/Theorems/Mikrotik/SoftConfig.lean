import RainWrt.Mikrotik.SoftConfig

/-! The images that are committed, and when the buffer is in sync with the flash. -/

namespace RainWrt.Mikrotik.SoftConfig

/-! ### The checksum -/

theorem le_length_writeAt (buf : Bytes) (off : Nat) (d : Bytes) : buf.length ≤ (writeAt buf off d).length := by
  simp only [writeAt, List.length_append, List.length_take, List.length_drop]
  omega

section
variable {buf : Bytes} (h : 8 ≤ buf.length)
include h

theorem getCrc_setCrc (crc : UInt32) : getCrc (setCrc buf crc) = crc := by
  have hself : slice (setCrc buf crc) 4 4 = le32 crc := slice_writeAt_self (by rw [length_le32, crc32Offset]; omega)
  rw [getCrc, crc32Offset, word_eq_slice, hself, word_le32]

theorem getCrc_clrCrc : getCrc (clrCrc buf) = 0 := getCrc_setCrc h 0

theorem setCrc_setCrc (crc crc' : UInt32) : setCrc (setCrc buf crc) crc' = setCrc buf crc' := by
  have hself : writeAt (writeAt buf 4 (le32 crc)) (4 + 0) (le32 crc') = writeAt buf 4 (writeAt (le32 crc) 0 (le32 crc')) := by
    apply writeAt_writeAt
    · show 4 + 4 ≤ buf.length
      omega
    · simp
  refine hself.trans ?_
  rfl

/-- A buffer whose field is zero. -/
theorem clrCrc_of_getCrc_eq_zero (hcrc : getCrc buf = 0) : clrCrc buf = buf := by
  rw [clrCrc, ← hcrc]
  exact writeAt_word h

end

/-- An image whose checksum is the one of the image without it. -/
def ValidImage (image : Bytes) : Prop := getCrc image = checksum (clrCrc image)

theorem validImage_setCrc {buf : Bytes} (h : 8 ≤ buf.length) (hcrc : getCrc buf = 0) : ValidImage (setCrc buf (checksum buf)) := by
  rw [ValidImage, getCrc_setCrc h, clrCrc, setCrc_setCrc h, ← clrCrc, clrCrc_of_getCrc_eq_zero h hcrc]

/-! ### Runs -/

/-- Every image that was written is valid, and where no change is shown, the buffer is what is in the flash. -/
def Sound (s : State) : Prop := (∀ image ∈ s.written, ValidImage image) ∧ (showsClean s → s.buf = s.flash)

/-- The second section of a commit still finds the field cleared, and the flash does not fail. -/
def Meets (s : State) : Label → Prop
  | .reread _ failed => failed = none
  | .flush _ result => getCrc s.buf = 0 ∧ result = .done
  | _ => True

/-- All sections of the run do. -/
def Orderly (c : Config) : State → List Label → Prop
  | _, [] => True
  | s, l :: ls => Meets s l ∧ ∀ s', step c s l = some s' → Orderly c s' ls

/-- What holds in every state of such a run. -/
structure Inv (s : State) : Prop where
  buf : 8 ≤ s.buf.length
  flash : 8 ≤ s.flash.length
  sound : Sound s

theorem sound_of_getCrc_eq_zero {s : State} (hw : ∀ image ∈ s.written, ValidImage image) (hcrc : getCrc s.buf = 0) : Sound s :=
  ⟨hw, fun h => by simp [showsClean, hcrc] at h⟩

theorem attrStore_cases (c : Config) (buf : Bytes) (attr : Attr) (input : String) :
    attrStore c buf attr input = buf ∨ ∃ ofs v, attrStore c buf attr input = clrCrc (writeAt buf ofs (le32 v)) := by
  unfold attrStore
  dsimp only
  split_ifs
  · exact Or.inl rfl
  · cases attr.value c.soc input with
    | none => exact Or.inl rfl
    | some v => exact Or.inr ⟨_, v, rfl⟩

theorem inv_step {c : Config} {s s' : State} {l : Label} (h : Inv s) (hl : Meets s l) (hstep : step c s l = some s') : Inv s' := by
  cases l with
  | store attr input =>
    cases hstep
    rcases attrStore_cases c s.buf attr input with hsame | ⟨ofs, v, hstore⟩
    · rw [hsame]
      exact h
    · have hlen : 8 ≤ (writeAt s.buf ofs (le32 v)).length := Nat.le_trans h.buf (le_length_writeAt _ _ _)
      refine ⟨?_, h.flash, sound_of_getCrc_eq_zero h.sound.1 ?_⟩
      · dsimp only
        rw [hstore]
        exact Nat.le_trans hlen (le_length_writeAt _ _ _)
      · dsimp only
        rw [hstore, getCrc_clrCrc hlen]
  | check i arg =>
    simp only [step] at hstep
    split_ifs at hstep
    · cases hstep
      exact h
    · cases arg with
      | none =>
        cases hstep
        exact h
      | some flush =>
        cases hstep
        exact ⟨h.buf, h.flash, h.sound⟩
  | reread i failed =>
    cases hl
    simp only [step] at hstep
    split_ifs at hstep
    cases hstep
    exact ⟨h.flash, h.flash, h.sound.1, fun _ => rfl⟩
  | flush i result =>
    obtain ⟨hcrc, rfl⟩ := hl
    simp only [step] at hstep
    split_ifs at hstep
    cases hstep
    have hlen : 8 ≤ (setCrc s.buf (checksum s.buf)).length := Nat.le_trans h.buf (le_length_writeAt _ _ _)
    refine ⟨hlen, hlen, ?_, fun _ => rfl⟩
    intro image himage
    rcases List.mem_append.mp himage with himage | himage
    · exact h.sound.1 image himage
    · rw [List.mem_singleton.mp himage]
      exact validImage_setCrc h.buf hcrc
  | mtdfail i =>
    simp only [step] at hstep
    split_ifs at hstep
    cases hstep
    exact ⟨Nat.le_trans h.buf (le_length_writeAt _ _ _), h.flash,
      sound_of_getCrc_eq_zero h.sound.1 (getCrc_clrCrc h.buf)⟩

theorem run_cons (c : Config) (s : State) (l : Label) (ls : List Label) :
    run c s (l :: ls) = (step c s l).bind fun s' => run c s' ls := rfl

theorem inv_run {c : Config} {s s' : State} {labels : List Label} (h : Inv s) (hl : Orderly c s labels)
    (hrun : run c s labels = some s') : Inv s' := by
  induction labels generalizing s with
  | nil =>
    cases hrun
    exact h
  | cons l labels ih =>
    rw [run_cons] at hrun
    obtain ⟨s₁, hstep, hrun⟩ := Option.bind_eq_some_iff.mp hrun
    exact ih (inv_step h hl.1 hstep) (hl.2 s₁ hstep) hrun

theorem inv_init {soc : Soc} {flash : Bytes} {c : Config} {s : State} (h : init soc flash = some (c, s)) (hsize : 8 ≤ flash.length) :
    Inv s := by
  unfold init at h
  split_ifs at h
  cases h
  refine ⟨hsize, hsize, ?_, fun _ => rfl⟩
  intro image h
  cases h

/-- In every run whose commits find the field still cleared and the flash working, the images are valid and a clean
    buffer is in sync. -/
theorem run_sound {soc : Soc} {flash : Bytes} {c : Config} {s s' : State} (hinit : init soc flash = some (c, s))
    (hsize : 8 ≤ flash.length) {labels : List Label} (hl : Orderly c s labels) (hrun : run c s labels = some s') : Sound s' :=
  (inv_run (inv_init hinit hsize) hl hrun).sound

/-- A partition with one tag, for the speed of the serial line. -/
def sample : Bytes := [0x53, 0x6f, 0x66, 0x74, 1, 2, 3, 4, 1, 0, 4, 0, 0, 0, 0, 0]

theorem find_sample : routerbootTagFind (sample.drop 8) Attr.uartSpeed.tagId = some (4, 4) := by
  rw [routerbootTagFind, tagFindLoop]
  decide

theorem init_sample : ∃ c, init .other sample = some (c, { buf := sample, flash := sample, phase := fun _ => .idle, written := [] }) ∧
    c.payload .uartSpeed = (12, 4) := by
  refine ⟨_, by rw [init, if_neg (by decide)], ?_⟩
  simp [find_sample]

/-- The partition with another speed and the field cleared. -/
def changed : Bytes := [0x53, 0x6f, 0x66, 0x74, 0, 0, 0, 0, 1, 0, 4, 0, 4, 0, 0, 0]

theorem attrStore_uartSpeed {c : Config} (h : c.payload .uartSpeed = (12, 4)) (buf : Bytes) {input : String} {v : UInt32}
    (hv : u32tvsValue uartspeeds input = some v) : attrStore c buf .uartSpeed input = clrCrc (writeAt buf 12 (le32 v)) := by
  rw [attrStore, h]
  simp only [Attr.value, hv]
  rfl

theorem attrStore_sample {c : Config} (h : c.payload .uartSpeed = (12, 4)) : attrStore c sample .uartSpeed "9600" = changed := by
  rw [attrStore_uartSpeed h sample (v := 4) (by decide)]
  decide

/-- Two commits that both find the field cleared. -/
theorem run_two_flushes (c : Config) {s : State} (hcrc : getCrc s.buf = 0) (h0 : s.phase 0 = .idle) (h1 : s.phase 1 = .idle) :
    ∃ s', run c s [.check 0 (some true), .check 1 (some true), .flush 0 .done, .flush 1 .done] = some s' ∧
      s'.written = s.written ++ [setCrc s.buf (checksum s.buf)] ++
        [setCrc (setCrc s.buf (checksum s.buf)) (checksum (setCrc s.buf (checksum s.buf)))] := by
  simp [run, step, State.enter, hcrc, h0, h1]

/-- The second commit takes the checksum over the first one's. -/
theorem two_commits : ∃ c s s', init .other sample = some (c, s) ∧
    run c s [.store .uartSpeed "9600", .check 0 (some true), .check 1 (some true), .flush 0 .done, .flush 1 .done] = some s' ∧
    ¬Sound s' := by
  obtain ⟨c, hinit, hpayload⟩ := init_sample
  obtain ⟨s', hrun, hwritten⟩ := run_two_flushes c (s := { buf := changed, flash := sample, phase := fun _ => .idle, written := [] })
    (by decide) rfl rfl
  refine ⟨c, _, s', hinit, ?_, fun hsound => ?_⟩
  · rw [run_cons, step, attrStore_sample hpayload, Option.bind_some, hrun]
  · have hvalid := hsound.1 _ (by rw [hwritten]; exact List.mem_append_right _ (List.mem_singleton_self _))
    exact absurd hvalid (by unfold ValidImage; decide +kernel)

theorem orderly_cons {c : Config} {s s' : State} {l : Label} {ls : List Label} (hl : Meets s l) (hstep : step c s l = some s')
    (h : Orderly c s' ls) : Orderly c s (l :: ls) := by
  refine ⟨hl, fun s₁ h₁ => ?_⟩
  cases hstep.symm.trans h₁
  exact h

/-- Two commits that both find the field cleared, with another change between their writes. -/
theorem commits_apart : ∃ c s s', init .other sample = some (c, s) ∧
    run c s [.store .uartSpeed "9600", .check 0 (some true), .check 1 (some true), .flush 0 .done, .store .uartSpeed "19200",
      .flush 1 .done] = some s' ∧ s'.written.length = 2 ∧ Sound s' := by
  obtain ⟨c, hinit, hpayload⟩ := init_sample
  have hcrc : getCrc changed = 0 := by decide
  have hstore (buf : Bytes) : attrStore c buf .uartSpeed "19200" = clrCrc (writeAt buf 12 (le32 3)) :=
    attrStore_uartSpeed hpayload buf (by decide)
  have hagain (buf : Bytes) (hbuf : 8 ≤ buf.length) : getCrc (attrStore c buf .uartSpeed "19200") = 0 := by
    rw [hstore]
    exact getCrc_clrCrc (hbuf.trans (le_length_writeAt _ _ _))
  obtain ⟨s', hrun, hwritten⟩ : ∃ s', run c { buf := sample, flash := sample, phase := fun _ => .idle, written := [] }
      [.store .uartSpeed "9600", .check 0 (some true), .check 1 (some true), .flush 0 .done, .store .uartSpeed "19200",
        .flush 1 .done] = some s' ∧ s'.written.length = 2 := by
    simp [run, step, State.enter, attrStore_sample hpayload, hcrc]
  refine ⟨c, _, s', hinit, hrun, hwritten, run_sound hinit (by decide) ?_ hrun⟩
  refine orderly_cons trivial (by rw [step, attrStore_sample hpayload]) ?_
  refine orderly_cons trivial (by simp [step, State.enter, hcrc]; rfl) ?_
  refine orderly_cons trivial (by simp [step, State.enter, hcrc]; rfl) ?_
  refine orderly_cons ⟨hcrc, rfl⟩ (by simp [step, State.enter]; rfl) ?_
  refine orderly_cons trivial rfl ?_
  refine orderly_cons ⟨hagain _ ?_, rfl⟩ (by simp [step, State.enter]; rfl) trivial
  exact (by decide : 8 ≤ changed.length).trans (le_length_writeAt _ _ _)

end RainWrt.Mikrotik.SoftConfig
