import RainWrt.Theorems.HwTest.Resume

/-! The audit of a migrated archive: what the migration drops and rewrites is what the audit expects, so that it only
    refuses an archive for what was missing before. -/

namespace RainWrt.HwTest

/-! ### Lookups -/

section
variable {key : Member → Text} {l : List Member} {m : Member} {name : Text}

theorem memberAt_of_mem (h : (l.map key).Nodup) (hm : m ∈ l) (hn : key m = name) : memberAt key l name = some m := by
  rw [memberAt, ← hn, filter_key h hm]
  rfl

theorem memberAt_none (h : ∀ m ∈ l, key m ≠ name) : memberAt key l name = none := by
  rw [memberAt, List.filter_eq_nil_iff.mpr fun m hm => by simpa using h m hm]
  rfl

end

section
variable {sha256 : Bytes → Bytes} {enabled : List Text} {members out body : List Member} {mig : Migration} {name : Text}

/-- The names of a migrated archive are distinct. -/
theorem Outcome.out_nodup (h : Outcome sha256 enabled members out mig body) : (out.map Member.name).Nodup := by
  rw [h.out, List.map_append, List.nodup_append]
  refine ⟨h.names_nodup, ?_, ?_⟩
  · unfold scriptMembers
    split
    · exact List.nodup_nil
    · exact List.nodup_singleton _
  · intro x hx y hy he
    obtain ⟨m, hm, rfl⟩ := List.mem_map.mp hx
    unfold scriptMembers at hy
    split at hy
    · nomatch hy
    · exact h.script_not_mem hm (he.trans (List.mem_singleton.mp hy))

/-- A kept name stands for a member before and after the migration, or for none. -/
theorem Outcome.lookup (h : Outcome sha256 enabled members out mig body) (hd : isDropped name = false) :
    (∃ m ∈ members, ∃ m', Migrated m m' ∧ originalName m = name ∧ memberAt originalName members name = some m ∧ memberAt Member.name out name = some m') ∨
      (∀ m ∈ members, originalName m ≠ name) ∧ memberAt originalName members name = none ∧ memberAt Member.name out name = none := by
  by_cases hex : ∃ m ∈ members, originalName m = name
  · left
    obtain ⟨m, hm, hn⟩ := hex
    have hd' : isDropped (normalise m.name) = false := by rw [show normalise m.name = name from hn]; exact hd
    obtain ⟨m', hm', hmig⟩ := forall₂_mem_left h.kept (List.mem_filter.mpr ⟨hm, by simp [hd']⟩)
    have hout : m' ∈ out := by
      rw [h.out]
      exact List.mem_append_left _ hm'
    exact ⟨m, hm, m', hmig, hn, memberAt_of_mem h.distinct hm hn, memberAt_of_mem h.out_nodup hout (hmig.name.trans hn)⟩
  · right
    have hno : ∀ m ∈ members, originalName m ≠ name := fun m hm hn => hex ⟨m, hm, hn⟩
    refine ⟨hno, memberAt_none hno, memberAt_none fun m' hm' hn => ?_⟩
    rw [h.out] at hm'
    rcases List.mem_append.mp hm' with hm' | hm'
    · obtain ⟨m, hm, hn', -⟩ := h.name_mem.mp ⟨m', hm', hn⟩
      exact hno m hm hn'
    · unfold scriptMembers at hm'
      split at hm'
      · nomatch hm'
      · rw [List.mem_singleton.mp hm'] at hn
        rw [← hn, show (scriptMember mig.enabledCustomServices mig.disabledServices).name = scriptName from rfl, isDropped_scriptName] at hd
        nomatch hd

/-- The original archive has a regular file of this name. -/
def HasFile (members : List Member) (name : Text) : Prop := ∃ m ∈ members, originalName m = name ∧ m.kind = .file

/-- The names are distinct, so the member of a name that is a file is the one. -/
theorem hasFile_iff {m : Member} (h : (members.map originalName).Nodup) (hm : m ∈ members) (hn : originalName m = name) :
    HasFile members name ↔ m.kind = .file := by
  constructor
  · rintro ⟨m', hm', hn', hk⟩
    have hsame := memberAt_of_mem h hm' hn'
    rw [memberAt_of_mem h hm hn] at hsame
    rw [Option.some.inj hsame]
    exact hk
  · intro hk
    exact ⟨m, hm, hn, hk⟩

theorem Outcome.sameBytes (h : Outcome sha256 enabled members out mig body) (hd : isDropped name = false) (hw : name ≠ wirelessName) :
    sameBytes members out name = true ↔ HasFile members name := by
  unfold HwTest.sameBytes
  rcases h.lookup hd with ⟨m, hm, m', hmig, hn, hold, hnew⟩ | ⟨hno, hold, hnew⟩
  · rw [hold, hnew, hasFile_iff h.distinct hm hn]
    have hdata := hmig.data
    rw [if_neg (show normalise m.name ≠ wirelessName from fun he => hw (hn.symm.trans he))] at hdata
    simp [hmig.kind, hdata]
  · rw [hnew]
    exact iff_of_false (by simp) fun ⟨m, hm, hn, _⟩ => hno m hm hn

theorem Outcome.wirelessOk (h : Outcome sha256 enabled members out mig body) :
    ∃ b, wirelessOk members out = .ok b ∧ (b = true ↔ HasFile members wirelessName) := by
  unfold HwTest.wirelessOk
  rcases h.lookup (show isDropped wirelessName = false by decide) with ⟨m, hm, m', hmig, hn, hold, hnew⟩ | ⟨hno, hold, hnew⟩
  · rw [hold, hnew, hasFile_iff h.distinct hm hn]
    have hdata := hmig.data
    rw [if_pos (show normalise m.name = wirelessName from hn)] at hdata
    dsimp only
    rw [hmig.kind]
    by_cases hk : m.kind = .file
    · rw [if_pos ⟨hk, hk⟩, hdata]
      exact ⟨true, by simp, by simp [hk]⟩
    · rw [if_neg fun hc => hk hc.1]
      exact ⟨false, rfl, by simp [hk]⟩
  · rw [hold]
    exact ⟨false, rfl, iff_of_false (by simp) fun ⟨m, hm, hn, _⟩ => hno m hm hn⟩

/-- Nothing that the audit looks for is left. -/
theorem Outcome.removed (h : Outcome sha256 enabled members out mig body) {l : Text × List Text} (hl : l ∈ removedLabels) :
    out.any (fun m => l.2.any (below m.name)) = false := by
  have hblocked : ∀ l ∈ removedLabels, ∀ x ∈ l.2, x ∈ blocked := by decide
  rw [List.any_eq_false]
  intro m hm hany
  obtain ⟨x, hx, hbelow⟩ := List.any_eq_true.mp hany
  have hm' : isBlocked m.name = true := List.any_eq_true.mpr ⟨x, hblocked l hl x hx, hbelow⟩
  rw [h.out] at hm
  rcases List.mem_append.mp hm with hm | hm
  · have hkept := (h.safe m hm).kept
    rw [isDropped, hm', Bool.or_true] at hkept
    nomatch hkept
  · unfold scriptMembers at hm
    split at hm
    · nomatch hm
    · have hscript : isBlocked scriptName = false := by decide
      rw [List.mem_singleton.mp hm, show (scriptMember mig.enabledCustomServices mig.disabledServices).name = scriptName from rfl, hscript] at hm'
      nomatch hm'

end

/-- A backup with every core configuration and a host key. -/
def wholeBackup : List Member :=
  [{ name := "./etc/config/network".toList }, { name := "./etc/config/wireless".toList, data := bytes "config wifi-device radio0\n" },
    { name := "./etc/config/dhcp".toList }, { name := "/etc/config/firewall".toList }, { name := "etc/config/system".toList },
    { name := "./etc/dropbear/dropbear_ed25519_host_key".toList, data := [0, 0, 0, 11], mode := 0o600 }]

end RainWrt.HwTest
