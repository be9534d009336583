import RainWrt.Upgrade.Shell

/-! Lines of texts, what the lookups of UBI devices and volumes call, and what they find. -/

namespace RainWrt.Upgrade

/-- A line of a text, with what stands before and behind it. -/
theorem mem_intercalate {ls : List Text} {v : Text} (h : v ∈ ls) : ∃ a b, ['\n'].intercalate ls = a ++ v ++ b ∧
    (a = [] ∨ '\n' ∈ a) ∧ (b = [] ∨ ∃ b', b = '\n' :: b') := by
  induction ls with
  | nil => cases h
  | cons l ls ih =>
    rcases ls with _ | ⟨l', ls⟩
    · obtain rfl := List.mem_singleton.mp h
      exact ⟨[], [], by simp, .inl rfl, .inl rfl⟩
    · rw [List.intercalate_cons_cons]
      rcases List.mem_cons.mp h with rfl | h
      · exact ⟨[], '\n' :: ['\n'].intercalate (l' :: ls), by simp, .inl rfl, .inr ⟨_, rfl⟩⟩
      · obtain ⟨a, b, he, -, hb⟩ := ih h
        exact ⟨l ++ ['\n'] ++ a, b, by simp [he], .inr (by simp), hb⟩

abbrev Event := Proc.Event Query Answer

/-- The command ran and exited with the status. -/
def ran (c : Command) (status : Nat) : Event := ⟨.run c, status⟩

theorem ran_inj {c c' : Command} {x y : Nat} : ran c x = ran c' y ↔ c = c' ∧ x = y := by
  constructor
  · intro h
    cases h
    exact ⟨rfl, rfl⟩
  · rintro ⟨rfl, rfl⟩
    rfl

/-- A call of a lookup. -/
def lookup : Query → Bool
  | .ubiDevices | .ubiVolumes _ | .exist _ | .run (.mknod _) => true
  | _ => false

theorem only_run {P : Query → Prop} {c : Command} (h : P (.run c)) : Proc.Only P (run c) := ⟨h, fun _ => trivial⟩

theorem only_ubiMknod (name : Text) : Proc.Only (lookup · = true) (ubiMknod name) := by
  refine .bind ⟨rfl, fun _ => trivial⟩ fun r => ?_
  rcases r with _ | _
  · exact .bind (only_run rfl) fun _ => trivial
  · exact trivial

theorem only_nandFindUbi (procMtd : List Text) (part : Text) : Proc.Only (lookup · = true) (nandFindUbi procMtd part) := by
  unfold nandFindUbi
  dsimp only
  split
  · exact trivial
  · refine .bind ⟨rfl, fun _ => trivial⟩ fun ds => ?_
    split
    · exact trivial
    · exact .bind (only_ubiMknod _) fun _ => trivial

theorem only_nandFindVolume (ubidev name : Text) : Proc.Only (lookup · = true) (nandFindVolume ubidev name) := by
  unfold nandFindVolume
  split
  · exact trivial
  · refine .bind ⟨rfl, fun _ => trivial⟩ fun ds => ?_
    split
    · exact trivial
    · exact .bind (only_ubiMknod _) fun _ => trivial

theorem runs_run {c : Command} {t : Trace} {n : Nat} : Proc.Runs (run c) t n ↔ t = [⟨.run c, n⟩] := by
  unfold run
  exact Proc.runs_ask (A := Answer)

theorem runs_isFile {path : Text} {t : Trace} {x : Bool} : Proc.Runs (isFile path) t x ↔ t = [⟨.isFile path, x⟩] := by
  unfold isFile
  exact Proc.runs_ask (A := Answer)

theorem runs_isChar {path : Text} {t : Trace} {x : Bool} : Proc.Runs (isChar path) t x ↔ t = [⟨.isChar path, x⟩] := by
  unfold isChar
  exact Proc.runs_ask (A := Answer)

theorem runs_returned {f : Text} {st : Nat} {t : Trace} {x : Unit} : Proc.Runs (returned f st) t x ↔ t = [⟨.returned f st, ()⟩] := by
  unfold returned
  exact Proc.runs_ask (A := Answer)

theorem runs_nandFindUbi {procMtd : List Text} {part dev : Text} {t : Trace} (h : Proc.Runs (nandFindUbi procMtd part) t dev) (hd : dev ≠ []) :
    ∃ devs : List (Text × Text), (⟨.ubiDevices, devs⟩ : Event) ∈ t ∧ (dev, findMtdIndex procMtd part) ∈ devs := by
  unfold nandFindUbi at h
  dsimp only at h
  split at h
  · exact absurd (Proc.runs_pure.mp h).2 hd
  · obtain ⟨t₁, t₂, devs, rfl, h1, h2⟩ := Proc.runs_bind.mp h
    have h1' := (Proc.runs_ask (A := Answer)).mp h1
    split at h2
    · exact absurd (Proc.runs_pure.mp h2).2 hd
    · rename_i d hf
      obtain ⟨t₃, t₄, u, rfl, -, h3⟩ := Proc.runs_bind.mp h2
      obtain ⟨-, rfl⟩ := Proc.runs_pure.mp h3
      refine ⟨devs, by rw [h1']; exact List.mem_cons_self, ?_⟩
      have hnum : d.2 = findMtdIndex procMtd part := by simpa using List.find?_some hf
      rw [← hnum]
      exact List.mem_of_find?_eq_some hf

theorem runs_nandFindVolume {ubidev name vol : Text} {t : Trace} (h : Proc.Runs (nandFindVolume ubidev name) t vol) (hv : vol ≠ []) :
    ubidev ≠ [] ∧ ∃ vols : List (Text × Text), (⟨.ubiVolumes ubidev, vols⟩ : Event) ∈ t ∧ (vol, name) ∈ vols := by
  unfold nandFindVolume at h
  split at h
  · exact absurd (Proc.runs_pure.mp h).2 hv
  · rename_i hdev
    obtain ⟨t₁, t₂, vols, rfl, h1, h2⟩ := Proc.runs_bind.mp h
    have h1' := (Proc.runs_ask (A := Answer)).mp h1
    split at h2
    · exact absurd (Proc.runs_pure.mp h2).2 hv
    · rename_i d hf
      obtain ⟨t₃, t₄, u, rfl, -, h3⟩ := Proc.runs_bind.mp h2
      obtain ⟨-, rfl⟩ := Proc.runs_pure.mp h3
      refine ⟨hdev, vols, by rw [h1']; exact List.mem_cons_self, ?_⟩
      have hnum : d.2 = name := by simpa using List.find?_some hf
      rw [← hnum]
      exact List.mem_of_find?_eq_some hf

end RainWrt.Upgrade
