import RainWrt.Upgrade.Nand
import RainWrt.Theorems.Upgrade.Shell

/-! What a NAND upgrade that reports success has written. -/

namespace RainWrt.Upgrade

/-- A command that writes the image. `ubiattach` counts for a UBI image only: elsewhere it brings up the
    device that the image goes to, and `nand_attach_ubi` looks at the device and not at the status. -/
def writes (ty : FileType) : Query → Bool
  | .run (.ubiupdatevol ..) | .run (.mtdWrite _) | .run (.nandwrite _) | .run (.ubiformat _ (some _)) => true
  | .run (.ubiattach _) => ty == .ubi
  | _ => false

/-- Every command that writes the image has exited with 0. -/
def Written (ty : FileType) (t : Trace) : Prop := ∀ c x, ran c x ∈ t → writes ty (.run c) = true → x = 0

section
variable {ty : FileType} {t t' : Trace}

theorem Written.append (h : Written ty t) (h' : Written ty t') : Written ty (t ++ t') := by
  intro c x hm
  rcases List.mem_append.mp hm with hm | hm
  · exact h c x hm
  · exact h' c x hm

theorem Written.of_only (h : ∀ e ∈ t, writes ty e.1 = false) : Written ty t := by
  intro c x hm hw
  have := h _ hm
  rw [show (ran c x).1 = .run c from rfl, hw] at this
  cases this

theorem Written.single {c : Command} : Written ty [ran c 0] := by
  intro c' x hm _
  exact (ran_inj.mp (List.mem_singleton.mp hm)).2

end

/-! ### Preparation -/

theorem writes_of_lookup {ty : FileType} {q : Query} (h : lookup q = true) : writes ty q = false := by
  cases q with
  | run c => cases c <;> first | rfl | cases h
  | _ => rfl

section
variable (ty : FileType)

theorem reads_nandFindUbi (procMtd : List Text) (part : Text) : Proc.Only (writes ty · = false) (nandFindUbi procMtd part) :=
  (only_nandFindUbi procMtd part).mono fun _ => writes_of_lookup

theorem reads_nandFindVolume (ubidev name : Text) : Proc.Only (writes ty · = false) (nandFindVolume ubidev name) :=
  (only_nandFindVolume ubidev name).mono fun _ => writes_of_lookup

theorem reads_nandRemoveUbiblock (ubivol : Text) : Proc.Only (writes ty · = false) (nandRemoveUbiblock ubivol) := by
  refine .bind ⟨rfl, fun _ => trivial⟩ fun x => ?_
  split
  · refine .bind (only_run rfl) fun _ => .bind (only_run rfl) fun x => ?_
    split
    · trivial
    · trivial
  · trivial

theorem reads_releaseVolumes (vols : List Text) : Proc.Only (writes ty · = false) (releaseVolumes vols) := by
  induction vols with
  | nil => trivial
  | cons v vs ih => exact .bind (reads_nandRemoveUbiblock ty v) fun _ => .bind (only_run rfl) fun _ => ih

theorem reads_nandDetachUbi (procMtd : List Text) (ubipart : Text) : Proc.Only (writes ty · = false) (nandDetachUbi procMtd ubipart) := by
  unfold nandDetachUbi
  dsimp only
  split
  · trivial
  · refine .bind (reads_nandFindUbi ty ..) fun dev => ?_
    split
    · trivial
    · refine .bind ⟨rfl, fun _ => trivial⟩ fun vols => .bind (reads_releaseVolumes ty vols) fun _ => .bind (only_run rfl) fun x => ?_
      split
      · trivial
      · trivial

theorem reads_removeBlock (ubivol : Text) : Proc.Only (writes ty · = false) (removeBlock ubivol) := by
  unfold removeBlock
  split
  · trivial
  · exact .bind (reads_nandRemoveUbiblock ty ubivol) fun _ => trivial

theorem reads_killVolume (ubidev ubivol name : Text) : Proc.Only (writes ty · = false) (killVolume ubidev ubivol name) := by
  unfold killVolume
  split
  · exact .bind (only_run rfl) fun _ => trivial
  · trivial

theorem reads_makeVolume (wanted : Bool) (ubidev name size : Text) : Proc.Only (writes ty · = false) (makeVolume wanted ubidev name size) := by
  unfold makeVolume
  split
  · exact .bind (only_run rfl) fun _ => trivial
  · trivial

theorem reads_makeProvisioning (s : Settings) (root : Text) : Proc.Only (writes ty · = false) (makeProvisioning s root) := by
  unfold makeProvisioning
  split
  · exact .bind (reads_nandFindVolume ty ..) fun _ => reads_makeVolume ty ..
  · trivial

theorem reads_makeData (data : Text) (rootfsType : Option FileType) (dataMax : Text) :
    Proc.Only (writes ty · = false) (makeData data rootfsType dataMax) := by
  refine .bind (reads_makeVolume ty ..) fun x => ?_
  split
  · trivial
  · exact reads_makeVolume ty ..

theorem reads_createVolumes (s : Settings) (kern root data : Text) (rootfs : Option Nat) (rootfsType : Option FileType) (kernel : Option Nat)
    (dataMax : Text) : Proc.Only (writes ty · = false) (createVolumes s kern root data rootfs rootfsType kernel dataMax) := by
  refine .bind (reads_makeProvisioning ty ..) fun x => ?_
  split
  · trivial
  refine .bind (reads_makeVolume ty ..) fun x => ?_
  split
  · trivial
  refine .bind (reads_makeVolume ty ..) fun x => ?_
  split
  · trivial
  refine .bind (reads_makeData ty ..) fun x => ?_
  split
  · trivial
  · trivial

variable {ty} (hty : ty ≠ .ubi)

include hty in
theorem writes_ubiattach (mtdnum : Text) : writes ty (.run (.ubiattach mtdnum)) = false := by
  simp [writes, hty]

include hty in
theorem reads_nandAttachUbi (procMtd : List Text) (ubipart : Text) (hasEnv : Bool) :
    Proc.Only (writes ty · = false) (nandAttachUbi procMtd ubipart hasEnv) := by
  unfold nandAttachUbi
  dsimp only
  split
  · trivial
  refine .bind (reads_nandFindUbi ty ..) fun dev => ?_
  split
  · trivial
  refine .bind (only_run (writes_ubiattach hty _)) fun _ => .bind (reads_nandFindUbi ty ..) fun dev => ?_
  split
  · trivial
  refine .bind (only_run rfl) fun _ => .bind (only_run (writes_ubiattach hty _)) fun _ => .bind (reads_nandFindUbi ty ..) fun dev => ?_
  split
  · trivial
  split
  · exact .bind (only_run rfl) fun _ => .bind (only_run rfl) fun _ => trivial
  · trivial

include hty in
theorem reads_nandUpgradePrepareUbi (procMtd : List Text) (s : Settings) (rootfs : Option Nat) (rootfsType : Option FileType)
    (kernel : Option Nat) (hasEnv : Bool) :
    Proc.Only (writes ty · = false) (nandUpgradePrepareUbi procMtd s rootfs rootfsType kernel hasEnv) := by
  refine .bind ⟨rfl, fun _ => trivial⟩ fun dataMax => ?_
  split
  · trivial
  refine .bind (reads_nandAttachUbi hty ..) fun kern => ?_
  split
  · trivial
  refine .bind (reads_nandAttachUbi hty ..) fun root => ?_
  split
  · trivial
  refine .bind (reads_nandAttachUbi hty ..) fun data => ?_
  split
  · trivial
  refine .bind (reads_nandFindVolume ty ..) fun kv => .bind (reads_nandFindVolume ty ..) fun rv => .bind (reads_nandFindVolume ty ..) fun dv => ?_
  refine .bind (reads_removeBlock ty _) fun x => ?_
  split
  · trivial
  refine .bind (reads_removeBlock ty _) fun x => ?_
  split
  · trivial
  refine .bind (reads_removeBlock ty _) fun x => ?_
  split
  · trivial
  exact .bind (reads_killVolume ty ..) fun _ => .bind (reads_killVolume ty ..) fun _ => .bind (reads_killVolume ty ..) fun _ =>
    reads_createVolumes ty ..

end

/-- A device that is attached is one of a partition of `/proc/mtd`. -/
theorem index_of_nandAttachUbi {procMtd : List Text} {part dev : Text} {hasEnv : Bool} {t : Trace}
    (h : Proc.Runs (nandAttachUbi procMtd part hasEnv) t dev) (hd : dev ≠ []) : findMtdIndex procMtd part ≠ [] := by
  intro hn
  unfold nandAttachUbi at h
  dsimp only at h
  rw [if_pos hn] at h
  exact hd (Proc.runs_pure.mp h).2

/-- The partitions that the volumes go to are there. -/
structure Attachable (procMtd : List Text) (s : Settings) : Prop where
  kern : findMtdIndex procMtd s.kernUbipart ≠ []
  root : findMtdIndex procMtd s.rootUbipart ≠ []
  data : findMtdIndex procMtd s.dataUbipart ≠ []

theorem attachable_of_prepare {procMtd : List Text} {s : Settings} {rootfs : Option Nat} {rootfsType : Option FileType}
    {kernel : Option Nat} {hasEnv : Bool} {t : Trace} (h : Proc.Runs (nandUpgradePrepareUbi procMtd s rootfs rootfsType kernel hasEnv) t 0) :
    (rootfs ≠ none ∨ kernel ≠ none) ∧ Attachable procMtd s := by
  have hone : ∀ {t : Trace}, ¬Proc.Runs (pure 1 : Sh Nat) t 0 := fun h => by cases (Proc.runs_pure.mp h).2
  obtain ⟨_, _, dataMax, -, -, k₁⟩ := Proc.runs_bind.mp h
  split at k₁
  · exact absurd k₁ hone
  rename_i hlen
  obtain ⟨_, _, kern, -, hkern, k₂⟩ := Proc.runs_bind.mp k₁
  split at k₂
  · exact absurd k₂ hone
  rename_i hk
  obtain ⟨_, _, root, -, hroot, k₃⟩ := Proc.runs_bind.mp k₂
  split at k₃
  · exact absurd k₃ hone
  rename_i hr
  obtain ⟨_, _, data, -, hdata, k₄⟩ := Proc.runs_bind.mp k₃
  split at k₄
  · exact absurd k₄ hone
  rename_i hd
  refine ⟨?_, index_of_nandAttachUbi hkern hk, index_of_nandAttachUbi hroot hr, index_of_nandAttachUbi hdata hd⟩
  by_cases h0 : rootfs = none
  · exact .inr fun h1 => hlen ⟨h0, h1⟩
  · exact .inl h0

/-! ### Writers -/

theorem written_updateVolume {ty : FileType} {procMtd : List Text} {part name : Text} {length : Nat} {t : Trace}
    (h : Proc.Runs (updateVolume procMtd part name length) t 0) : Written ty t := by
  obtain ⟨t₁, u₁, dev, rfl, h1, k₁⟩ := Proc.runs_bind.mp h
  obtain ⟨t₂, u₂, vol, rfl, h2, k₂⟩ := Proc.runs_bind.mp k₁
  obtain rfl := runs_run.mp k₂
  exact (Written.of_only ((reads_nandFindUbi ty ..).runs h1)).append ((Written.of_only ((reads_nandFindVolume ty ..).runs h2)).append .single)

/-- A writer that looks at the status of every step, behind a check that writes nothing. -/
theorem written_after_check {ty : FileType} {check p : Sh Nat} {t : Trace} (hc : Proc.Only (writes ty · = false) check)
    (hp : ∀ {t : Trace}, Proc.Runs p t 0 → Written ty t)
    (h : Proc.Runs (do if (← check) ≠ 0 then return 1 else p) t 0) : Written ty t := by
  obtain ⟨t₁, t₂, x, rfl, h1, k⟩ := Proc.runs_bind.mp h
  refine (Written.of_only (hc.runs h1)).append ?_
  split at k
  · cases (Proc.runs_pure.mp k).2
  · exact hp k

theorem written_nandUpgradeUbinized {procMtd : List Text} {s : Settings} {file : ImageFile} {t : Trace}
    (h : Proc.Runs (nandUpgradeUbinized procMtd s file) t 0) : Written .ubi t := by
  refine written_after_check (reads_nandDetachUbi .ubi ..) (fun {t} h => ?_) h
  obtain ⟨t₁, t₂, x, rfl, h1, k⟩ := Proc.runs_bind.mp h
  obtain rfl := runs_run.mp h1
  split at k
  · rename_i hx
    exact absurd (Proc.runs_pure.mp k).2.symm hx
  · rename_i hx
    obtain rfl : x = 0 := by simpa using hx
    obtain rfl := runs_run.mp k
    exact Written.append .single .single

theorem reads_nandVerifyIfGzipFile (ty : FileType) (file : ImageFile) (cmd : Text) :
    Proc.Only (writes ty · = false) (nandVerifyIfGzipFile file cmd) := by
  unfold nandVerifyIfGzipFile
  split
  · refine .bind (only_run rfl) fun x => ?_
    split
    · trivial
    · trivial
  · trivial

theorem reads_nandVerifyTarFile (ty : FileType) (file : ImageFile) (cmd : Text) :
    Proc.Only (writes ty · = false) (nandVerifyTarFile file cmd) := by
  refine .bind (only_run rfl) fun x => ?_
  split
  · trivial
  · trivial

/-- A tar image that is reported as written has a part that goes to a volume. -/
theorem attachable_of_nandUpgradeTar {procMtd : List Text} {s : Settings} {file : ImageFile} {cmd : Text} {t : Trace}
    (h : Proc.Runs (nandUpgradeTar procMtd s file cmd) t 0) :
    (rootfsLength file cmd ≠ none ∨ kernelLength s file cmd ≠ none ∧ kernelMtd procMtd s = []) ∧ Attachable procMtd s := by
  obtain ⟨t₁, t₂, u, rfl, -, k₁⟩ := Proc.runs_bind.mp h
  obtain ⟨t₃, t₄, x, rfl, h2, k₂⟩ := Proc.runs_bind.mp k₁
  split at k₂
  · cases (Proc.runs_pure.mp k₂).2
  · rename_i hx
    obtain rfl : x = 0 := by simpa using hx
    obtain ⟨hlen, ha⟩ := attachable_of_prepare h2
    refine ⟨hlen.imp_right fun hk => ?_, ha⟩
    split at hk
    · rename_i hm
      exact ⟨hk, hm⟩
    · exact absurd rfl hk

/-- A tar image with a part that goes to a volume: nothing looks at the status of the writes. -/
structure Unheeded (procMtd : List Text) (s : Settings) (file : ImageFile) (cmd : Text) : Prop where
  kind : file.identify cmd ≠ .fit ∧ file.identify cmd ≠ .ubi ∧ file.identify cmd ≠ .ubifs
  part : rootfsLength file cmd ≠ none ∨ kernelLength s file cmd ≠ none ∧ kernelMtd procMtd s = []
  attachable : Attachable procMtd s

theorem written_nandDoFlashFile {procMtd : List Text} {s : Settings} {file : ImageFile} {cmd : Text} {t : Trace}
    (hu : ¬Unheeded procMtd (withUbipart procMtd s) file (unpackCommand file cmd))
    (h : Proc.Runs (nandDoFlashFile procMtd s file cmd) t 0) : Written (file.identify (unpackCommand file cmd)) t := by
  have hprep : ∀ {ty : FileType}, ty ≠ .ubi → ∀ {root : Option Nat} {rt : Option FileType} {k : Option Nat} {e : Bool} {part name : Text} {n : Nat} {t : Trace},
      Proc.Runs (do
        if (← nandUpgradePrepareUbi procMtd (withUbipart procMtd s) root rt k e) ≠ 0 then return 1
        updateVolume procMtd part name n) t 0 → Written ty t := fun hty _ _ _ _ _ _ _ _ h =>
    written_after_check (reads_nandUpgradePrepareUbi hty ..) (fun h => written_updateVolume h) h
  unfold nandDoFlashFile at h
  dsimp only at h
  split at h
  · rename_i hty
    rw [hty]
    exact written_after_check (reads_nandVerifyIfGzipFile ..) (fun h => hprep (by decide) h) h
  · rename_i hty
    rw [hty]
    exact written_after_check (reads_nandVerifyIfGzipFile ..) (fun h => written_nandUpgradeUbinized h) h
  · rename_i hty
    rw [hty]
    exact written_after_check (reads_nandVerifyIfGzipFile ..) (fun h => hprep (by decide) h) h
  · rename_i h1 h2 h3
    refine written_after_check (reads_nandVerifyTarFile ..) (fun h => ?_) h
    obtain ⟨hpart, ha⟩ := attachable_of_nandUpgradeTar h
    exact absurd ⟨⟨h1, h2, h3⟩, hpart, ha⟩ hu

/-! ### A failed write -/

/-- Surroundings in which everything works but the writes. -/
def failingWrites (nums : List Text) : (q : Query) → Answer q
  | .run (.ubiupdatevol ..) | .run (.mtdWrite _) | .run (.nandwrite _) => (1 : Nat)
  | .run _ => (0 : Nat)
  | .exist _ => false
  | .isFile _ | .isChar _ => true
  | .ubiDevices => nums.map fun n => ("ubi0".toList, n)
  | .ubiVolumes _ => []
  | .devNodes _ => []
  | .fwPrintenv _ => []
  | .returned _ _ => ()

section
variable {procMtd : List Text} {s : Settings}

/-- The partitions of the three devices. -/
def deviceNums (procMtd : List Text) (s : Settings) : List Text :=
  [findMtdIndex procMtd s.kernUbipart, findMtdIndex procMtd s.rootUbipart, findMtdIndex procMtd s.dataUbipart]

theorem follow_nandFindUbi {nums : List Text} {part : Text} (hp : findMtdIndex procMtd part ≠ []) (hm : findMtdIndex procMtd part ∈ nums) :
    (Proc.follow (failingWrites nums) (nandFindUbi procMtd part)).2 = "ubi0".toList := by
  unfold nandFindUbi
  dsimp only
  rw [if_neg hp, Proc.follow_bind]
  dsimp only
  have hdevs : (Proc.follow (failingWrites nums) ubiDevices).2 = nums.map fun n => ("ubi0".toList, n) := rfl
  rw [hdevs]
  split
  · rename_i hf
    have := List.find?_eq_none.mp hf ("ubi0".toList, findMtdIndex procMtd part) (List.mem_map.mpr ⟨_, hm, rfl⟩)
    simp at this
  · rename_i d hf
    obtain ⟨n, -, hd⟩ := List.mem_map.mp (List.mem_of_find?_eq_some hf)
    rw [Proc.follow_bind]
    dsimp only
    rw [Proc.follow_pure, ← hd]

theorem follow_nandFindVolume (nums : List Text) (dev name : Text) : (Proc.follow (failingWrites nums) (nandFindVolume dev name)).2 = [] := by
  unfold nandFindVolume
  split
  · rfl
  · rfl

theorem follow_nandAttachUbi {nums : List Text} {part : Text} (hp : findMtdIndex procMtd part ≠ []) (hm : findMtdIndex procMtd part ∈ nums)
    (hasEnv : Bool) : (Proc.follow (failingWrites nums) (nandAttachUbi procMtd part hasEnv)).2 = "ubi0".toList := by
  unfold nandAttachUbi
  dsimp only
  rw [if_neg hp, Proc.follow_bind]
  dsimp only
  rw [follow_nandFindUbi hp hm, if_pos (by decide)]
  rfl

theorem follow_makeVolume (nums : List Text) (wanted : Bool) (dev name size : Text) :
    (Proc.follow (failingWrites nums) (makeVolume wanted dev name size)).2 = true := by
  unfold makeVolume
  split
  · rfl
  · rfl

theorem follow_createVolumes (nums : List Text) (s : Settings) (kern root data : Text) (rootfs : Option Nat) (rootfsType : Option FileType)
    (kernel : Option Nat) (dataMax : Text) :
    (Proc.follow (failingWrites nums) (createVolumes s kern root data rootfs rootfsType kernel dataMax)).2 = 0 := by
  have hprov : (Proc.follow (failingWrites nums) (makeProvisioning s root)).2 = true := by
    unfold makeProvisioning
    split
    · rw [Proc.follow_bind]
      exact follow_makeVolume ..
    · rfl
  have hdata : (Proc.follow (failingWrites nums) (makeData data rootfsType dataMax)).2 = true := by
    unfold makeData
    simp [follow_makeVolume]
  unfold createVolumes
  simp [hprov, hdata, follow_makeVolume]

theorem follow_prepare (ha : Attachable procMtd s) {rootfs kernel : Option Nat} (hlen : rootfs ≠ none ∨ kernel ≠ none)
    (rootfsType : Option FileType) (hasEnv : Bool) :
    (Proc.follow (failingWrites (deviceNums procMtd s)) (nandUpgradePrepareUbi procMtd s rootfs rootfsType kernel hasEnv)).2 = 0 := by
  have hlen' : ¬(rootfs = none ∧ kernel = none) := fun h => hlen.elim (· h.1) (· h.2)
  have hk := follow_nandAttachUbi ha.kern (by simp [deviceNums] : _ ∈ deviceNums procMtd s) hasEnv
  have hr := follow_nandAttachUbi ha.root (by simp [deviceNums] : _ ∈ deviceNums procMtd s) false
  have hd := follow_nandAttachUbi ha.data (by simp [deviceNums] : _ ∈ deviceNums procMtd s) false
  have hb : (Proc.follow (failingWrites (deviceNums procMtd s)) (removeBlock [])).2 = true := rfl
  have hne : "ubi0".toList ≠ [] := by decide
  unfold nandUpgradePrepareUbi
  rw [Proc.follow_bind_snd, if_neg hlen', Proc.follow_bind_snd, hk, if_neg hne, Proc.follow_bind_snd, hr, if_neg hne, Proc.follow_bind_snd, hd,
    if_neg hne, Proc.follow_bind_snd, Proc.follow_bind_snd, Proc.follow_bind_snd]
  simp only [follow_nandFindVolume, if_true]
  rw [Proc.follow_bind_snd, hb, if_neg (by decide), Proc.follow_bind_snd, hb, if_neg (by decide), Proc.follow_bind_snd, hb, if_neg (by decide),
    Proc.follow_bind_snd, Proc.follow_bind_snd, Proc.follow_bind_snd, follow_createVolumes]

/-- A failed write of a volume. -/
theorem mem_follow_updateVolume (nums procMtd : List Text) (part name : Text) (n : Nat) :
    ∃ vol, ran (.ubiupdatevol vol n) 1 ∈ (Proc.follow (failingWrites nums) (updateVolume procMtd part name n)).1 := by
  unfold updateVolume
  rw [Proc.follow_bind, Proc.follow_bind]
  exact ⟨_, List.mem_append_right _ (List.mem_append_right _ List.mem_cons_self)⟩

/-- A tar image that is not written is reported as written. -/
theorem follow_nandUpgradeTar {file : ImageFile} {cmd : Text} (hu : Unheeded procMtd s file cmd) :
    (Proc.follow (failingWrites (deviceNums procMtd s)) (nandUpgradeTar procMtd s file cmd)).2 = 0 ∧
    ∃ vol n, ran (.ubiupdatevol vol n) 1 ∈ (Proc.follow (failingWrites (deviceNums procMtd s)) (nandUpgradeTar procMtd s file cmd)).1 := by
  have hlen : rootfsLength file cmd ≠ none ∨ (if kernelMtd procMtd s = [] then kernelLength s file cmd else none) ≠ none := by
    refine hu.part.imp_right fun ⟨hk, hm⟩ => ?_
    rw [if_pos hm]
    exact hk
  have hprep := follow_prepare hu.attachable hlen
    ((rootfsLength file cmd).map fun _ => file.identifyTar cmd (file.boardDir cmd ++ "/root".toList)) false
  unfold nandUpgradeTar
  constructor
  · rw [Proc.follow_bind_snd, Proc.follow_bind_snd, hprep, if_neg (by decide), Proc.follow_bind_snd, Proc.follow_bind_snd]
    rfl
  · have hwrite : (∃ vol n, ran (.ubiupdatevol vol n) 1 ∈
        (Proc.follow (failingWrites (deviceNums procMtd s)) (writeTarRoot procMtd s (rootfsLength file cmd))).1) ∨
        ∃ vol n, ran (.ubiupdatevol vol n) 1 ∈
          (Proc.follow (failingWrites (deviceNums procMtd s)) (writeTarKernel procMtd s (kernelLength s file cmd))).1 := by
      rcases hu.part with hr | ⟨hk, hm⟩
      · obtain ⟨n, hn⟩ := Option.ne_none_iff_exists'.mp hr
        obtain ⟨vol, hv⟩ := mem_follow_updateVolume (deviceNums procMtd s) procMtd s.rootUbipart s.ciRootpart n
        refine .inl ⟨vol, n, ?_⟩
        rw [hn, writeTarRoot, Proc.follow_bind]
        exact List.mem_append_left _ hv
      · obtain ⟨n, hn⟩ := Option.ne_none_iff_exists'.mp hk
        obtain ⟨vol, hv⟩ := mem_follow_updateVolume (deviceNums procMtd s) procMtd s.kernUbipart s.ciKernpart n
        refine .inr ⟨vol, n, ?_⟩
        rw [hn, writeTarKernel, if_neg (by simpa using hm), Proc.follow_bind]
        exact List.mem_append_left _ hv
    rw [Proc.follow_bind, Proc.follow_bind]
    dsimp only
    rw [hprep, if_neg (not_not_intro rfl), Proc.follow_bind, Proc.follow_bind]
    dsimp only
    rcases hwrite with ⟨vol, n, hv⟩ | ⟨vol, n, hv⟩
    · exact ⟨vol, n, List.mem_append_right _ (List.mem_append_right _ (List.mem_append_left _ hv))⟩
    · exact ⟨vol, n, List.mem_append_right _ (List.mem_append_right _ (List.mem_append_right _ (List.mem_append_left _ hv)))⟩

/-- An upgrade that reports success has written the image, in every run, exactly if the image is not a tar
    image with a part for a volume. -/
theorem written_iff_not_unheeded (procMtd : List Text) (s : Settings) (file : ImageFile) (cmd : Text) :
    (∀ t, Proc.Runs (nandDoFlashFile procMtd s file cmd) t 0 → Written (file.identify (unpackCommand file cmd)) t) ↔
      ¬Unheeded procMtd (withUbipart procMtd s) file (unpackCommand file cmd) := by
  constructor
  · intro h hu
    obtain ⟨hval, vol, n, hmem⟩ := follow_nandUpgradeTar hu
    have hfile : nandDoFlashFile procMtd s file cmd = (do
        if (← nandVerifyTarFile file (unpackCommand file cmd)) ≠ 0 then return 1
        nandUpgradeTar procMtd (withUbipart procMtd s) file (unpackCommand file cmd)) := by
      obtain ⟨h1, h2, h3⟩ := hu.kind
      unfold nandDoFlashFile
      dsimp only
      split
      · exact absurd ‹_› h1
      · exact absurd ‹_› h2
      · exact absurd ‹_› h3
      · rfl
    have hrun := Proc.runs_follow (failingWrites (deviceNums procMtd (withUbipart procMtd s))) (nandDoFlashFile procMtd s file cmd)
    have hverify : (Proc.follow (failingWrites (deviceNums procMtd (withUbipart procMtd s)))
      (nandVerifyTarFile file (unpackCommand file cmd))).2 = 0 := rfl
    have hres : (Proc.follow (failingWrites (deviceNums procMtd (withUbipart procMtd s))) (nandDoFlashFile procMtd s file cmd)).2 = 0 := by
      rw [hfile, Proc.follow_bind_snd, hverify, if_neg (by decide), hval]
    have hev : ran (.ubiupdatevol vol n) 1 ∈
        (Proc.follow (failingWrites (deviceNums procMtd (withUbipart procMtd s))) (nandDoFlashFile procMtd s file cmd)).1 := by
      rw [hfile, Proc.follow_bind]
      dsimp only
      rw [hverify, if_neg (by decide)]
      exact List.mem_append_right _ hmem
    rw [hres] at hrun
    cases h _ hrun _ _ hev rfl
  · exact fun hu t h => written_nandDoFlashFile hu h

end

/-- A tar image with a kernel and a root file system. -/
def tarImage : ImageFile where
  path := "/tmp/sysupgrade.bin".toList
  bytes _ := [0x73, 0x79, 0x73, 0x75]
  listing _ := ["sysupgrade-redmi_ax3000/".toList, "sysupgrade-redmi_ax3000/kernel".toList, "sysupgrade-redmi_ax3000/root".toList]
  member _ name := if name = "sysupgrade-redmi_ax3000/kernel".toList then [0xd0, 0x0d, 0xfe, 0xed]
    else if name = "sysupgrade-redmi_ax3000/root".toList then [0x68, 0x73, 0x71, 0x73] else []

def singleMtd : List Text := ["mtd18: 07480000 00020000 \"rootfs\"".toList]

/-- Surroundings in which only the writes of volumes fail. -/
def wornAnswer : (q : Query) → Answer q
  | .run (.ubiupdatevol ..) => (1 : Nat)
  | .run _ => (0 : Nat)
  | .exist _ | .isFile _ | .isChar _ => true
  | .ubiDevices => [("ubi0".toList, "18".toList)]
  | .ubiVolumes _ => [("ubi0_0".toList, "kernel".toList), ("ubi0_1".toList, "rootfs".toList), ("ubi0_2".toList, "rootfs_data".toList)]
  | .devNodes _ => ["ubi0_0".toList, "ubi0_1".toList, "ubi0_2".toList]
  | .fwPrintenv _ => []
  | .returned _ _ => ()

def wornRun : Trace × Nat := Proc.follow wornAnswer (nandDoFlashFile singleMtd {} tarImage [])

set_option maxRecDepth 100000 in
/-- Neither the kernel nor the root file system is written, and the upgrade goes on. -/
theorem wornRun_not_written : Proc.Runs (nandDoFlashFile singleMtd {} tarImage []) wornRun.1 0 ∧
    ran (.ubiupdatevol "/dev/ubi0_0".toList 4) 1 ∈ wornRun.1 ∧ ran (.ubiupdatevol "/dev/ubi0_1".toList 4) 1 ∈ wornRun.1 ∧
    ¬Written (tarImage.identify (unpackCommand tarImage [])) wornRun.1 := by
  have hcalls : wornRun.2 = 0 ∧ Query.run (.ubiupdatevol "/dev/ubi0_0".toList 4) ∈ wornRun.1.map Sigma.fst ∧
      Query.run (.ubiupdatevol "/dev/ubi0_1".toList 4) ∈ wornRun.1.map Sigma.fst := by decide
  obtain ⟨h0, hk, hr⟩ := hcalls
  have hmem : ran (.ubiupdatevol "/dev/ubi0_0".toList 4) 1 ∈ wornRun.1 := Proc.mem_follow.mpr ⟨hk, rfl⟩
  refine ⟨?_, hmem, Proc.mem_follow.mpr ⟨hr, rfl⟩, fun h => by cases h _ _ hmem rfl⟩
  rw [← h0]
  exact Proc.runs_follow _ _

end RainWrt.Upgrade
