import RainWrt.HwTest.Checks
import RainWrt.HwTest.Remote

/-! The budget of the memory is coded twice, in Python for every gate and in the shell for the last one.
    Both ask for the same, and leave the margin. -/

namespace RainWrt.HwTest

/-! ### The budget -/

/-- The sample as the runner reads it. -/
structure Reads (p : Json) (s : MemorySample) : Prop where
  mem : p.item "mem_kib" = .ok (.int s.memKib)
  tmp : p.item "tmp_kib" = .ok (.int s.tmpKib)
  anon : p.item "anon_kib" = .ok (.int s.anonKib)
  observer : p.item "observer_anon_kib" = .ok (.int s.observerAnonKib)
  locked : p.item "locked_kib" = .ok (.int s.lockedKib)
  swap : p.item "swap_kib" = .ok (.int s.swapKib)

/-- No number of the sample is negative. -/
structure MemorySample.Nonneg (s : MemorySample) : Prop where
  mem : 0 ≤ s.memKib
  tmp : 0 ≤ s.tmpKib
  anon : 0 ≤ s.anonKib
  observer : 0 ≤ s.observerAnonKib
  locked : 0 ≤ s.lockedKib
  swap : 0 ≤ s.swapKib

/-- The files that are measured before the upgrade: `h` for the hand-over, `r` for the second stage. -/
structure Measures (profile : Json) (h r : Int) : Prop where
  handoff : (profile.item "handoff" >>= (Json.index · 1)) = .ok (.int h)
  stage2 : (profile.item "stage2" >>= (Json.index · 1)) = .ok (.int r)
  ge : 128 ≤ h
  le : h ≤ r
  lt : r ≤ 16384

/-- The pages that are given back, at most those of the files that come later. -/
def creditOf (r : Int) (s : MemorySample) : Int :=
  if s.lockedKib ≠ 0 ∨ s.swapKib ≠ 0 then 0 else min r (max 0 (s.anonKib - s.observerAnonKib))

/-- What is kept for the configuration. -/
def pendingOf (archiveBytes : Nat) (staged : Bool) : Int :=
  let configKib : Int := (archiveBytes + 4095) / 4096 * 4
  if staged then configKib else 2 * configKib

section
variable {profile p : Json} {h r : Int} {s : MemorySample}

theorem item_eq_ok {key : String} {v : Json} (h : p.item key = .ok v) : ∃ l, p = .obj l ∧ l.lookup key.toList = some v := by
  cases p with
  | obj l =>
    refine ⟨l, rfl, ?_⟩
    unfold Json.item at h
    cases hl : l.lookup key.toList with
    | none => simp [hl] at h
    | some w => simpa [hl] using h
  | _ => simp [Json.item] at h

theorem sampleOf_eq {key : String} {n : Int} (hk : p.item key = .ok (.int n)) (hn : 0 ≤ n) : sampleOf p key = .ok (some n) := by
  obtain ⟨l, rfl, hl⟩ := item_eq_ok hk
  simp [sampleOf, Json.get, hl, Json.int?, hn]

theorem phaseRequirements_eq (hm : Measures profile h r) (hr : Reads p s) (hs : s.Nonneg) (imageKib archiveBytes : Nat) (staged : Bool) :
    phaseRequirements profile p imageKib archiveBytes staged =
      .ok ⟨imageKib + max (h + 8192 + pendingOf archiveBytes staged) (r + 8192 + pendingOf archiveBytes staged - creditOf r s),
        imageKib + 2 * r + pendingOf archiveBytes staged, h + 8192 + pendingOf archiveBytes staged, r + 8192 + pendingOf archiveBytes staged,
        creditOf r s, pendingOf archiveBytes staged, h, r, 8192⟩ := by
  obtain ⟨v, hv, hh⟩ := bind_eq_ok.mp hm.handoff
  obtain ⟨w, hw, hr'⟩ := bind_eq_ok.mp hm.stage2
  have hrange : stopIf (¬(128 ≤ h ∧ h ≤ r ∧ r ≤ 16384)) "PRECHECK_FAILED: invalid measured upgrade closure" = .ok () :=
    stopIf_eq_ok.mpr (not_not_intro ⟨hm.ge, hm.le, hm.lt⟩)
  unfold phaseRequirements
  simp only [hv, hw, hh, hr', ok_bind, Json.int?, hrange, demand, sampleOf_eq hr.mem hs.mem, sampleOf_eq hr.tmp hs.tmp, sampleOf_eq hr.anon hs.anon,
    sampleOf_eq hr.observer hs.observer, sampleOf_eq hr.locked hs.locked, sampleOf_eq hr.swap hs.swap]
  rfl

/-! ### The shell -/

/-- Below the end of the numbers of the shell `[` compares. -/
theorem test_eq {op : Int → Int → Bool} {a b : Int} (ha : 0 ≤ a ∧ a < 2 ^ 63) (hb : 0 ≤ b ∧ b < 2 ^ 63) : test op a b = op a b := by
  have h : isLong a = true ∧ isLong b = true := by
    simp only [isLong, Bool.and_eq_true, decide_eq_true_eq]
    omega
  simp [test, h]

theorem arith_eq {n : Int} (h : 0 ≤ n ∧ n < 2 ^ 63) : arith n = n := Int.bmod_eq_of_le (by omega) (by omega)

/-- A sample whose large numbers the shell can hold. -/
structure MemorySample.Short (s : MemorySample) : Prop where
  mem : s.memKib < 2 ^ 63
  tmp : s.tmpKib < 2 ^ 63
  anon : s.anonKib < 2 ^ 63

/-- What is too long for the shell is not zero either. -/
theorem testEq_zero {n : Int} (hn : 0 ≤ n) : testEq n 0 = decide (n = 0) := by
  by_cases h : n < 2 ^ 63
  · exact (test_eq ⟨hn, h⟩ ⟨le_refl 0, by decide⟩).trans (beq_eq_decide n 0)
  · have hz : n ≠ 0 := by omega
    simp [testEq, test, isLong, hz]

/-- What is too long for the shell is not smaller either. -/
theorem testGt_eq {a b : Int} (ha : 0 ≤ a ∧ a < 2 ^ 63) (hb : 0 ≤ b) : testGt a b = decide (b < a) := by
  by_cases h : b < 2 ^ 63
  · exact test_eq ha ⟨hb, h⟩
  · have hz : ¬b < a := by omega
    simp [testGt, test, isLong, hz]

/-- The credit that the shell gives. -/
theorem credit_eq (hr : 128 ≤ r ∧ r ≤ 16384) (hs : s.Nonneg) (hl : s.Short) :
    (if testEq s.lockedKib 0 && testEq s.swapKib 0 && testGt s.anonKib s.observerAnonKib then
      if testLe (arith (s.anonKib - s.observerAnonKib)) r then arith (s.anonKib - s.observerAnonKib) else r
    else 0) = creditOf r s := by
  have hobs := hs.observer
  have hanon := hl.anon
  rw [testEq_zero hs.locked, testEq_zero hs.swap, testGt_eq ⟨hs.anon, hanon⟩ hobs, creditOf]
  by_cases hz : s.lockedKib = 0 ∧ s.swapKib = 0
  · by_cases hgt : s.observerAnonKib < s.anonKib
    · have hdiff : 0 ≤ s.anonKib - s.observerAnonKib ∧ s.anonKib - s.observerAnonKib < 2 ^ 63 := by omega
      have htest : testLe (s.anonKib - s.observerAnonKib) r = decide (s.anonKib - s.observerAnonKib ≤ r) := test_eq hdiff (by omega)
      rw [arith_eq hdiff, htest]
      simp only [hz.1, hz.2, hgt, decide_true, Bool.and_self, if_true, ne_eq, not_true_eq_false, or_self, if_false, decide_eq_true_eq]
      split
      · omega
      · omega
    · simp only [hz.1, hz.2, hgt, decide_true, decide_false, Bool.and_false, ne_eq, not_true_eq_false, or_self, if_false]
      simp only [Bool.false_eq_true, if_false]
      omega
  · have hne : s.lockedKib ≠ 0 ∨ s.swapKib ≠ 0 := by omega
    rw [if_pos hne]
    rcases hne with h | h
    · simp [h]
    · simp [h]

theorem pendingOf_true (archiveBytes : Nat) : pendingOf archiveBytes true = ((archiveBytes + 4095) / 4096 * 4 : Int) := rfl

theorem creditOf_range (hr : 0 ≤ r) : 0 ≤ creditOf r s ∧ creditOf r s ≤ r := by
  unfold creditOf
  split
  · exact ⟨le_refl 0, hr⟩
  · omega

/-- The last gate asks for what the budget of the runner asks for. -/
theorem memoryPreHandoff_eq (h₁ : 128 ≤ h) (h₂ : h ≤ r) (h₃ : r ≤ 16384) (hs : s.Nonneg) (hl : s.Short) {archiveBytes : Nat} (ha : archiveBytes < 2 ^ 63) :
    memoryPreHandoff r h (pendingOf archiveBytes true) s =
      ⟨max (h + 8192 + pendingOf archiveBytes true) (r + 8192 + pendingOf archiveBytes true - creditOf r s), 2 * r + pendingOf archiveBytes true,
        max (h + 8192 + pendingOf archiveBytes true) (r + 8192 + pendingOf archiveBytes true - creditOf r s) ≤ s.memKib &&
          2 * r + pendingOf archiveBytes true ≤ s.tmpKib⟩ := by
  have hcredit := creditOf_range (s := s) (r := r) (by omega)
  have hpending : 0 ≤ pendingOf archiveBytes true ∧ pendingOf archiveBytes true < 2 ^ 54 := by
    rw [pendingOf_true]
    omega
  have hmem := hs.mem
  have hmem' := hl.mem
  have htmp := hs.tmp
  have htmp' := hl.tmp
  unfold memoryPreHandoff
  simp only [credit_eq ⟨h₁.trans h₂, h₃⟩ hs hl]
  generalize creditOf r s = credit at hcredit ⊢
  generalize pendingOf archiveBytes true = config at hpending ⊢
  have hphysical : testGe (r + 8192 + config - credit) (h + 8192 + config) = decide (h + 8192 + config ≤ r + 8192 + config - credit) :=
    test_eq (by omega) (by omega)
  have hmax : (if testGe (r + 8192 + config - credit) (h + 8192 + config) then r + 8192 + config - credit else h + 8192 + config) =
      max (h + 8192 + config) (r + 8192 + config - credit) := by
    rw [hphysical]
    simp only [decide_eq_true_eq]
    split
    · omega
    · omega
  rw [arith_eq (n := r + 8192 + config - credit) (by omega), arith_eq (n := h + 8192 + config) (by omega), arith_eq (n := 2 * r + config) (by omega), hmax]
  have hm : testGe s.memKib (max (h + 8192 + config) (r + 8192 + config - credit)) = decide (max (h + 8192 + config) (r + 8192 + config - credit) ≤ s.memKib) :=
    test_eq ⟨hmem, hmem'⟩ (by omega)
  have ht : testGe s.tmpKib (2 * r + config) = decide (2 * r + config ≤ s.tmpKib) := test_eq ⟨htmp, htmp'⟩ (by omega)
  rw [hm, ht]

/-! ### Both gates -/

/-- In `s'` there is less to be given back than in `s`. -/
structure MemorySample.Tighter (s s' : MemorySample) : Prop where
  anon : s'.anonKib ≤ s.anonKib
  observer : s.observerAnonKib ≤ s'.observerAnonKib
  locked : s.lockedKib ≤ s'.lockedKib
  swap : s.swapKib ≤ s'.swapKib

theorem creditOf_le {s' : MemorySample} (hr : 0 ≤ r) (hs : s.Nonneg) (ht : s.Tighter s') : creditOf r s' ≤ creditOf r s := by
  have hlocked := hs.locked
  have hswap := hs.swap
  obtain ⟨h1, h2, h3, h4⟩ := ht
  by_cases hz : s'.lockedKib ≠ 0 ∨ s'.swapKib ≠ 0
  · rw [creditOf, if_pos hz]
    exact (creditOf_range hr).1
  · have hz' : ¬(s.lockedKib ≠ 0 ∨ s.swapKib ≠ 0) := by omega
    rw [creditOf, creditOf, if_neg hz, if_neg hz']
    omega

theorem pendingOf_le {a a' : Nat} (staged : Bool) (h : a ≤ a') : pendingOf a staged ≤ pendingOf a' staged := by
  unfold pendingOf
  cases staged with
  | false =>
    simp only [Bool.false_eq_true, if_false]
    omega
  | true =>
    simp only [if_true]
    omega

/-- Of numbers that the shell can hold, the last gate asks for what the budget asks for; and the budget leaves
    its margin, whatever is given back, and grows as less is given back and more is kept. -/
theorem memory_gates_agree (hm : Measures profile h r) (hr : Reads p s) (hs : s.Nonneg) :
    (s.Short → ∀ archiveBytes < 2 ^ 63, ∃ b, phaseRequirements profile p 0 archiveBytes true = .ok b ∧
      ((memoryPreHandoff r h ((archiveBytes + 4095) / 4096 * 4) s).success = true ↔ b.physicalRequiredKib ≤ s.memKib ∧ b.tmpRequiredKib ≤ s.tmpKib)) ∧
    ∀ (imageKib archiveBytes : Nat) (staged : Bool), ∃ b, phaseRequirements profile p imageKib archiveBytes staged = .ok b ∧
      imageKib + h + 8192 + b.pendingConfigKib ≤ b.physicalRequiredKib ∧
      ∀ p' s' archiveBytes', Reads p' s' → s'.Nonneg → s.Tighter s' → archiveBytes ≤ archiveBytes' →
        ∃ b', phaseRequirements profile p' imageKib archiveBytes' staged = .ok b' ∧ b.physicalRequiredKib ≤ b'.physicalRequiredKib := by
  refine ⟨fun hl archiveBytes ha => ⟨_, phaseRequirements_eq hm hr hs 0 archiveBytes true, ?_⟩, fun imageKib archiveBytes staged =>
    ⟨_, phaseRequirements_eq hm hr hs imageKib archiveBytes staged, ?_, fun p' s' archiveBytes' hr' hs' ht ha =>
      ⟨_, phaseRequirements_eq hm hr' hs' imageKib archiveBytes' staged, ?_⟩⟩⟩
  · rw [← pendingOf_true, memoryPreHandoff_eq hm.ge hm.le hm.lt hs hl ha]
    simp
  · simp only
    omega
  · have hcredit := creditOf_le (r := r) (by have := hm.ge; have := hm.le; omega) hs ht
    have hpending := pendingOf_le staged ha
    simp only
    omega

end

/-! ### Samples -/

/-- The sample as it is printed. -/
def MemorySample.json (s : MemorySample) : Json :=
  .obj [("mem_kib".toList, .int s.memKib), ("tmp_kib".toList, .int s.tmpKib), ("anon_kib".toList, .int s.anonKib),
    ("observer_anon_kib".toList, .int s.observerAnonKib), ("locked_kib".toList, .int s.lockedKib), ("swap_kib".toList, .int s.swapKib)]

theorem reads_json (s : MemorySample) : Reads s.json s := ⟨rfl, rfl, rfl, rfl, rfl, rfl⟩

def measured : Json := .obj [("handoff".toList, .arr [.int 0, .int 848, .int 0]), ("stage2".toList, .arr [.int 0, .int 4196, .int 0])]

theorem measures_measured : Measures measured 848 4196 := ⟨rfl, rfl, by decide, by decide, by decide⟩

theorem memory_gates_agree_measured : ∃ b, phaseRequirements measured (MemorySample.json ⟨9100, 90000, 7000, 0, 0, 0⟩) 0 4096 true = .ok b ∧
    ((memoryPreHandoff 4196 848 4 ⟨9100, 90000, 7000, 0, 0, 0⟩).success = true ↔ b.physicalRequiredKib ≤ 9100 ∧ b.tmpRequiredKib ≤ 90000) :=
  (memory_gates_agree measures_measured (reads_json _) ⟨by decide, by decide, by decide, by decide, by decide, by decide⟩).1
    ⟨by decide, by decide, by decide⟩ 4096 (by decide)

/-- A sample with more memory than the shell can count is enough for the budget, and fails in the shell. -/
theorem memory_gates_differ : ∃ profile p h r s archiveBytes b, Measures profile h r ∧ Reads p s ∧ s.Nonneg ∧
    phaseRequirements profile p 0 archiveBytes true = .ok b ∧ b.physicalRequiredKib ≤ s.memKib ∧ b.tmpRequiredKib ≤ s.tmpKib ∧
    (memoryPreHandoff r h ((archiveBytes + 4095 : Nat) / 4096 * 4) s).success = false := by
  have hs : MemorySample.Nonneg ⟨2 ^ 63, 90000, 7000, 0, 0, 0⟩ := ⟨by decide, by decide, by decide, by decide, by decide, by decide⟩
  exact ⟨measured, _, 848, 4196, ⟨2 ^ 63, 90000, 7000, 0, 0, 0⟩, 4096, _, measures_measured, reads_json _, hs,
    phaseRequirements_eq measures_measured (reads_json _) hs 0 4096 true, by decide, by decide, by decide⟩

end RainWrt.HwTest
