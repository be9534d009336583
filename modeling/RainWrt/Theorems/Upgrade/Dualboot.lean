import RainWrt.Upgrade.Dualboot
import RainWrt.Theorems.Upgrade.Shell

/-! What a dual-slot upgrade has done when it sets the boot flags, and which slot it writes. -/

namespace RainWrt.Upgrade

/-! ### The running slot -/

/-- The command line has the parameter `ubi.mtd=v`. -/
def NamesSlot (cmdline v : Text) : Prop :=
  ∃ pre post, cmdline = pre ++ ("ubi.mtd=".toList ++ v ++ post) ∧ (∀ c, pre.getLast? = some c → isSpace c = true) ∧
    (∀ c, post.head? = some c → isNameChar c = false)

theorem getElem?_of_isPrefixOf {pre t : Text} (h : pre.isPrefixOf t = true) {i : Nat} {c : Char} (hc : pre[i]? = some c) : t[i]? = some c := by
  obtain ⟨rest, rfl⟩ := List.isPrefixOf_iff_prefix.mp h
  rw [List.getElem?_append_left (List.getElem?_eq_some_iff.mp hc).1, hc]

theorem getElem?_takeWhile {p : Char → Bool} {t : Text} {i : Nat} {c : Char} (h : (t.takeWhile p)[i]? = some c) : t[i]? = some c ∧ p c = true := by
  obtain ⟨rest, hr⟩ := List.takeWhile_prefix (l := t) p
  refine ⟨?_, List.mem_takeWhile_imp (List.mem_of_getElem? h)⟩
  rw [← hr, List.getElem?_append_left (List.getElem?_eq_some_iff.mp h).1, h]

/-- The characters of a match. -/
theorem ubiMtdMatch_chars {t m : Text} (h : ubiMtdMatch t = some m) {i : Nat} {c : Char} (hc : t[i]? = some c) (hi : i < m.length) :
    isSpace c = true → i = 3 ∧ t[4]? = some 'm' := by
  unfold ubiMtdMatch at h
  split at h
  · rename_i hcond
    obtain ⟨h1, h2, -⟩ := hcond
    intro hsp
    have hu : ∀ {j : Nat} {x : Char}, "ubi".toList[j]? = some x → t[j]? = some x := fun hx => getElem?_of_isPrefixOf h1 hx
    have hm : ∀ {j : Nat} {x : Char}, "mtd=".toList[j]? = some x → t[4 + j]? = some x := fun hx => by
      rw [← List.getElem?_drop]
      exact getElem?_of_isPrefixOf h2 hx
    have hne : ∀ {x : Char}, t[i]? = some x → x = c := fun hx => Option.some.inj (hx.symm.trans hc)
    by_cases h8 : i < 8
    · refine ⟨?_, hm (j := 0) rfl⟩
      have hbad : ∀ x : Char, isSpace x = false → t[i]? ≠ some x := fun x hx he => by
        rw [← hne he, hx] at hsp
        cases hsp
      interval_cases i
      · exact absurd (hu (j := 0) rfl) (hbad 'u' rfl)
      · exact absurd (hu (j := 1) rfl) (hbad 'b' rfl)
      · exact absurd (hu (j := 2) rfl) (hbad 'i' rfl)
      · rfl
      · exact absurd (hm (j := 0) rfl) (hbad 'm' rfl)
      · exact absurd (hm (j := 1) rfl) (hbad 't' rfl)
      · exact absurd (hm (j := 2) rfl) (hbad 'd' rfl)
      · exact absurd (hm (j := 3) rfl) (hbad '=' rfl)
    · rw [← Option.some.inj h, List.length_append, List.length_take] at hi
      have hlen : i - 8 < ((t.drop 8).takeWhile isNameChar).length := by omega
      obtain ⟨hx, hn⟩ := getElem?_takeWhile (List.getElem?_eq_getElem hlen)
      rw [List.getElem?_drop, show 8 + (i - 8) = i by omega] at hx
      rw [hne hx] at hn
      have hexcl : ∀ x : Char, isSpace x = true → isNameChar x = false := by
        intro x hx
        simp only [isSpace, Bool.or_eq_true, beq_iff_eq] at hx
        rcases hx with (rfl | rfl) | rfl <;> rfl
      rw [hexcl c hsp] at hn
      cases hn
  · cases h

/-- A match that starts before a parameter ends before it. -/
theorem length_ubiMtdMatch_le {c : Char} {pre t m : Text} (hs : ∀ x, (c :: pre).getLast? = some x → isSpace x = true)
    (hm : ubiMtdMatch (c :: pre ++ 'u' :: t) = some m) : m.length ≤ pre.length + 1 := by
  by_contra hlt
  have hlast : (c :: pre ++ 'u' :: t)[pre.length]? = some ((c :: pre).getLast (by simp)) := by
    rw [List.getElem?_append_left (by simp), List.getLast_eq_getElem]
    simp
  obtain ⟨h3, h4⟩ := ubiMtdMatch_chars hm hlast (by omega) (hs _ (List.getLast?_eq_some_getLast _))
  have hu : (c :: pre ++ 'u' :: t)[4]? = some 'u' := by
    rw [List.getElem?_append_right (by simp [h3])]
    simp [h3]
  rw [hu] at h4
  cases h4

theorem ubiMtdMatch_slot {v post : Text} (hv : v = slotRootfs ∨ v = slotRootfs1) (hp : ∀ c, post.head? = some c → isNameChar c = false) :
    ubiMtdMatch ("ubi.mtd=".toList ++ v ++ post) = some ("ubi.mtd=".toList ++ v) := by
  have htake : (v ++ post).takeWhile isNameChar = v := by
    rw [List.takeWhile_append_of_pos (List.all_eq_true.mp (by rcases hv with rfl | rfl <;> decide))]
    rcases post with _ | ⟨c, post⟩
    · simp
    · rw [List.takeWhile_cons_of_neg (by simp [hp c rfl]), List.append_nil]
  rw [List.append_assoc, ubiMtdMatch, if_pos]
  · have hlen : 8 = "ubi.mtd=".toList.length := rfl
    rw [hlen, List.take_left, List.drop_left, htake]
  · exact ⟨rfl, rfl, fun h => by cases h⟩

/-- A slot that the command line names is among the matches. -/
theorem mem_grepUbiMtd {v post : Text} (hv : v = slotRootfs ∨ v = slotRootfs1) (hp : ∀ c, post.head? = some c → isNameChar c = false)
    (pre : Text) (hs : ∀ c, pre.getLast? = some c → isSpace c = true) {k : Nat} (hk : k ≤ pre.length) :
    "ubi.mtd=".toList ++ v ∈ grepUbiMtd k (pre ++ ("ubi.mtd=".toList ++ v ++ post)) := by
  induction pre generalizing k with
  | nil =>
    obtain rfl : k = 0 := by simpa using hk
    have hm := ubiMtdMatch_slot hv hp
    have hcons : "ubi.mtd=".toList ++ v ++ post = 'u' :: ("bi.mtd=".toList ++ v ++ post) := rfl
    rw [List.nil_append, hcons, grepUbiMtd, ← hcons, hm]
    exact List.mem_cons_self
  | cons c pre ih =>
    have hs' : ∀ x, pre.getLast? = some x → isSpace x = true := by
      intro x hx
      refine hs x ?_
      rw [List.getLast?_cons, hx]
      rfl
    cases k with
    | succ k =>
      rw [List.cons_append, grepUbiMtd]
      exact ih hs' (by simpa using hk)
    | zero =>
      rw [List.cons_append, grepUbiMtd]
      rcases hm : ubiMtdMatch (c :: (pre ++ ("ubi.mtd=".toList ++ v ++ post))) with _ | m
      · exact ih hs' (Nat.zero_le _)
      · have hle := @length_ubiMtdMatch_le c pre ("bi.mtd=".toList ++ v ++ post) m hs hm
        exact List.mem_cons_of_mem _ (ih hs' (by omega))

theorem substitute_append (ls : List Text) : ∃ k, ['\n'].intercalate ls = substitute ls ++ List.replicate k '\n' := by
  obtain ⟨t, ht⟩ : ∃ t, t = (['\n'].intercalate ls).reverse := ⟨_, rfl⟩
  have hrep : t.takeWhile (· == '\n') = List.replicate (t.takeWhile (· == '\n')).length '\n' :=
    List.eq_replicate_iff.mpr ⟨rfl, fun c hc => by simpa using List.mem_takeWhile_imp hc⟩
  refine ⟨(t.takeWhile (· == '\n')).length, ?_⟩
  have h := List.takeWhile_append_dropWhile (p := (· == '\n')) (l := t)
  have h' := congrArg List.reverse h
  rw [List.reverse_append, hrep, List.reverse_replicate, ht, List.reverse_reverse] at h'
  rw [substitute, ← ht, ← ht] at *
  exact h'.symm

/-- A text of one line has no other line than that. -/
theorem eq_of_mem_substitute {ls : List Text} {v : Text} (h : v ∈ ls) (hv : v ≠ []) (hvn : '\n' ∉ v) (hn : '\n' ∉ substitute ls) :
    v = substitute ls := by
  obtain ⟨a, b, he, ha, hb⟩ := mem_intercalate h
  obtain ⟨k, hk⟩ := substitute_append ls
  rw [he, List.append_assoc] at hk
  rcases List.append_eq_append_iff.mp hk with ⟨x, hx, hy⟩ | ⟨x, hx, hy⟩
  · -- the line starts inside the text
    have hanil : a = [] := by
      rcases ha with ha | ha
      · exact ha
      · exact absurd (hx ▸ List.mem_append_left x ha) hn
    subst hanil
    rw [List.nil_append] at hx
    rcases List.append_eq_append_iff.mp hy with ⟨y, hy1, hy2⟩ | ⟨y, hy1, hy2⟩
    · rcases hb with rfl | ⟨b', rfl⟩
      · have : y = [] := (List.append_eq_nil_iff.mp hy2.symm).1
        rw [hx, hy1, this, List.append_nil]
      · rcases y with _ | ⟨c, y⟩
        · rw [hx, hy1, List.append_nil]
        · rw [List.cons_append, List.cons.injEq] at hy2
          refine absurd ?_ hn
          rw [hx, hy1, ← hy2.1]
          simp
    · rcases y with _ | ⟨c, y⟩
      · rw [hx, hy1, List.append_nil]
      · refine absurd ?_ hvn
        have hc : c ∈ List.replicate k '\n' := by rw [hy2]; simp
        rw [hy1, ← List.eq_of_mem_replicate hc]
        simp
  · -- the line would lie in the trailing newlines
    obtain ⟨c, v', rfl⟩ := List.exists_cons_of_ne_nil hv
    refine absurd ?_ hvn
    have hc : c ∈ List.replicate k '\n' := by rw [hy]; simp
    rw [← List.eq_of_mem_replicate hc]
    exact List.mem_cons_self

/-- The running slot is the one that the command line names. -/
theorem currentPart_of_namesSlot {cmdline v : Text} (hv : v = slotRootfs ∨ v = slotRootfs1) (h : NamesSlot cmdline v)
    (hc : miDualbootCurrentPart cmdline = slotRootfs ∨ miDualbootCurrentPart cmdline = slotRootfs1) :
    miDualbootCurrentPart cmdline = v := by
  obtain ⟨pre, post, rfl, hs, hp⟩ := h
  have hmem := mem_grepUbiMtd hv hp pre hs (Nat.zero_le _)
  have hval : field '=' 1 ("ubi.mtd=".toList ++ v) = v := by rcases hv with rfl | rfl <;> decide
  have hmap : v ∈ (grepUbiMtd 0 (pre ++ ("ubi.mtd=".toList ++ v ++ post))).map (field '=' 1) :=
    List.mem_map.mpr ⟨_, hmem, hval⟩
  refine (eq_of_mem_substitute hmap ?_ ?_ ?_).symm
  · rcases hv with rfl | rfl <;> decide
  · rcases hv with rfl | rfl <;> decide
  · unfold miDualbootCurrentPart at hc
    rcases hc with hc | hc <;> rw [hc] <;> decide

/-! ### Lookups -/

/-- A call that neither writes a slot or a flag nor says how far the upgrade got. -/
def plain : Query → Bool
  | .run (.ubiformat ..) | .run (.ubiattach _) | .run (.fwSetenv ..) | .run .sync | .returned .. | .isFile _ => false
  | _ => true

theorem plain_of_lookup {q : Query} (h : lookup q = true) : plain q = true := by
  cases q with
  | run c => cases c <;> first | rfl | cases h
  | isFile => cases h
  | returned => cases h
  | _ => rfl

theorem only_nandRestoreConfig (procMtd : List Text) (s : Settings) (file : Text) :
    Proc.Only (plain · = true) (nandRestoreConfig procMtd s file) := by
  have hend : ∀ n : Nat, Proc.Only (plain · = true) (run (.rmdir newRoot) >>= fun _ => pure n) := fun n =>
    .bind (only_run rfl) fun _ => trivial
  have hrest : ∀ vol : Text, Proc.Only (plain · = true) (do
      let _ ← run (.mkdir newRoot)
      if (← run (.mount ("/dev/".toList ++ vol) newRoot)) ≠ 0 then
        let _ ← run (.rmdir newRoot)
        return 1
      if (← run (.mv file (newRoot ++ ['/'] ++ backupFile))) = 0 then
        if (← run (.umount newRoot)) = 0 then
          let _ ← run (.rmdir newRoot)
          return 0
      else
        let _ ← run (.umount newRoot)
      let _ ← run (.rmdir newRoot)
      return 1) := by
    intro vol
    refine .bind (only_run rfl) fun _ => .bind (only_run rfl) fun c => ?_
    split
    · exact hend 1
    · refine .bind (only_run rfl) fun c => ?_
      split
      · refine .bind (only_run rfl) fun c => ?_
        split
        · exact hend 0
        · exact hend 1
      · exact .bind (only_run rfl) fun _ => hend 1
  unfold nandRestoreConfig
  have hubi : ∀ part, Proc.Only (plain · = true) (nandFindUbi procMtd part) := fun part =>
    (only_nandFindUbi procMtd part).mono fun _ => plain_of_lookup
  have hvol : ∀ dev name, Proc.Only (plain · = true) (nandFindVolume dev name) := fun dev name =>
    (only_nandFindVolume dev name).mono fun _ => plain_of_lookup
  refine .bind (hubi _) fun dev => .bind (hvol ..) fun vol => ?_
  split
  · refine .bind (hubi _) fun dev => .bind (hvol ..) fun vol => ?_
    split
    · exact trivial
    · exact hrest _
  · exact hrest _

/-! ### Upgrade -/

def IsSetenv (e : Event) : Prop := ∃ name value, e.1 = .run (.fwSetenv name value)

/-- The device of a slot. -/
def slotDevice (procMtd : List Text) (slot : Text) : Text := "/dev/mtd".toList ++ findMtdIndex procMtd slot

section
variable (procMtd : List Text) (cmdline : Text) (s : Settings) (image backup : Text)

/-- What has to be done before a flag is set: the image is written, the target is attached, it has a
    kernel volume, and the configuration, if there is one, is saved. -/
structure Ready (t : Trace) : Prop where
  written : ∃ target, miDualbootTargetPart (miDualbootCurrentPart cmdline) = some target ∧
    ran (.ubiformat (slotDevice procMtd target) (some image)) 0 ∈ t ∧ ran (.ubiattach (findMtdIndex procMtd target)) 0 ∈ t ∧
    ∃ (devs vols : List (Text × Text)) (dev vol : Text), (⟨.ubiDevices, devs⟩ : Event) ∈ t ∧ (dev, findMtdIndex procMtd target) ∈ devs ∧
      (⟨.ubiVolumes dev, vols⟩ : Event) ∈ t ∧ (vol, "kernel".toList) ∈ vols
  saved : (⟨.isFile backup, true⟩ : Event) ∈ t → (⟨.returned restoreName 0, ()⟩ : Event) ∈ t

/-- The value of `flag_ota_reboot` after an event. A failed `fw_setenv` changes nothing. -/
def otaReboot (v : Option Text) : Event → Option Text
  | ⟨.run (.fwSetenv name value), (status : Nat)⟩ => if name = flagOtaReboot ∧ status = 0 then value else v
  | _ => v

/-- An upgrade that leaves the running slot alone and switches slots after a complete write only. `v` is
    the value of `flag_ota_reboot` before it. -/
structure SwitchesSafely (v : Option Text) (t : Trace) (status : Nat) : Prop where
  slot : ∀ slot, slot = slotRootfs ∨ slot = slotRootfs1 → NamesSlot cmdline slot →
    ∀ img code, ran (.ubiformat (slotDevice procMtd slot) img) code ∉ t
  flags : ∀ pre e post, t = pre ++ e :: post → IsSetenv e → Ready procMtd cmdline image backup pre
  complete : status = 0 → Ready procMtd cmdline image backup t ∧ ran .sync 0 ∈ t ∧
    ∀ f ∈ upgradeFlags (currentSlot (miDualbootCurrentPart cmdline)), ran (.fwSetenv f.1 f.2) 0 ∈ t
  unchanged : status ≠ 0 → t.foldl otaReboot v = v

/-- The calls before the flags: `c` is the status of `sync`, `r` that of `nand_restore_config` if it was
    called. -/
structure Reached (t : Trace) (c : Nat) (r : Option Nat) : Prop where
  written : ∃ target, miDualbootTargetPart (miDualbootCurrentPart cmdline) = some target ∧
    ran (.ubiformat (slotDevice procMtd target) (some image)) 0 ∈ t ∧ ran (.ubiattach (findMtdIndex procMtd target)) 0 ∈ t ∧
    ∃ (devs vols : List (Text × Text)) (dev vol : Text), (⟨.ubiDevices, devs⟩ : Event) ∈ t ∧ (dev, findMtdIndex procMtd target) ∈ devs ∧
      (⟨.ubiVolumes dev, vols⟩ : Event) ∈ t ∧ (vol, "kernel".toList) ∈ vols
  sync : ∀ x, ran .sync x ∈ t ↔ x = c
  file : (⟨.isFile backup, true⟩ : Event) ∈ t ↔ r.isSome = true
  restore : ∀ x, (⟨.returned restoreName x, ()⟩ : Event) ∈ t ↔ r = some x
  setenv : ∀ e ∈ t, ¬IsSetenv e

/-- Only the target slot is formatted. -/
def FormatsTarget (t : Trace) : Prop := ∀ e ∈ t, ∀ dev img, e.1 = .run (.ubiformat dev img) →
  ∃ target, miDualbootTargetPart (miDualbootCurrentPart cmdline) = some target ∧ dev = slotDevice procMtd target

end

theorem not_mem_of_plain {t : Trace} (h : ∀ e ∈ t, plain e.1 = true) {q : Query} {a : Answer q} (hq : plain q = false) :
    (⟨q, a⟩ : Event) ∉ t := fun hm => by
  have := h _ hm
  rw [hq] at this
  cases this

/-- A flag is set, or `nand_restore_config` has come back. -/
def late : Query → Bool
  | .run (.fwSetenv ..) | .returned .. => true
  | _ => false

theorem late_of_plain {q : Query} (h : plain q = true) : late q = false := by
  cases q with
  | run c => cases c <;> first | rfl | cases h
  | returned => cases h
  | _ => rfl

theorem late_of_isSetenv {e : Event} (h : IsSetenv e) : late e.1 = true := by
  obtain ⟨_, _, hq⟩ := h
  rw [hq]
  rfl

section
variable {procMtd : List Text} {cmdline : Text} {s : Settings} {image backup : Text}

theorem FormatsTarget.of_plain {t : Trace} (h : ∀ e ∈ t, plain e.1 = true) : FormatsTarget procMtd cmdline t := by
  intro e he dev img hq
  have := h e he
  rw [hq] at this
  cases this

theorem FormatsTarget.append {t t' : Trace} (h : FormatsTarget procMtd cmdline t) (h' : FormatsTarget procMtd cmdline t') :
    FormatsTarget procMtd cmdline (t ++ t') := by
  intro e he
  rcases List.mem_append.mp he with he | he
  · exact h e he
  · exact h' e he

theorem only_restoreBackup (procMtd : List Text) (s : Settings) (backup : Text) :
    Proc.Only (fun q => ∀ d i, q ≠ .run (.ubiformat d i)) (restoreBackup procMtd s backup) := by
  have hfree : ∀ q, plain q = true → ∀ d i, q ≠ .run (.ubiformat d i) := fun q hq d i h => by
    rw [h] at hq
    cases hq
  have hfile : ∀ d i, Query.isFile backup ≠ .run (.ubiformat d i) := fun _ _ h => by cases h
  have hret : ∀ st d i, Query.returned restoreName st ≠ .run (.ubiformat d i) := fun _ _ _ h => by cases h
  refine .bind ⟨hfile, fun _ => trivial⟩ fun x => ?_
  rcases x with _ | _
  · trivial
  · exact .bind ((only_nandRestoreConfig ..).mono hfree) fun st => ⟨hret st, fun _ => trivial⟩

theorem only_setFlags (fs : List Flag) : Proc.Only (fun q => ∀ d i, q ≠ .run (.ubiformat d i)) (setFlags fs) := by
  induction fs with
  | nil => trivial
  | cons f fs ih =>
    refine .bind (only_run fun _ _ h => nomatch h) fun c => ?_
    split
    · trivial
    · exact ih

theorem runs_restoreBackup {t : Trace} {u : Unit} (h : Proc.Runs (restoreBackup procMtd s backup) t u) :
    t = [⟨.isFile backup, false⟩] ∨ ∃ t' st, (∀ e ∈ t', plain e.1 = true) ∧
      t = ⟨.isFile backup, true⟩ :: (t' ++ [⟨.returned restoreName st, ()⟩]) := by
  obtain ⟨t₁, t₂, x, rfl, h1, h2⟩ := Proc.runs_bind.mp h
  obtain rfl := runs_isFile.mp h1
  rcases x with _ | _
  · obtain ⟨rfl, -⟩ := Proc.runs_pure.mp h2
    exact .inl rfl
  · obtain ⟨t₃, t₄, st, rfl, h3, h4⟩ := Proc.runs_bind.mp h2
    obtain rfl := runs_returned.mp h4
    exact .inr ⟨t₃, st, (only_nandRestoreConfig ..).runs h3, rfl⟩

theorem runs_targetMtdnum {current : Text} {t : Trace} {r : Option Text} (h : Proc.Runs (miDualbootTargetMtdnum procMtd current) t r) :
    (∀ e ∈ t, plain e.1 = true) ∧
      ∀ mtdnum, r = some mtdnum → ∃ target, miDualbootTargetPart current = some target ∧ mtdnum = findMtdIndex procMtd target := by
  unfold miDualbootTargetMtdnum at h
  rcases htp : miDualbootTargetPart current with _ | target <;> rw [htp] at h <;> dsimp only at h
  · obtain ⟨rfl, rfl⟩ := Proc.runs_pure.mp h
    exact ⟨by simp, fun _ h => by cases h⟩
  · split at h
    · obtain ⟨rfl, rfl⟩ := Proc.runs_pure.mp h
      exact ⟨by simp, fun _ h => by cases h⟩
    · obtain ⟨t₁, t₂, x, rfl, h1, h2⟩ := Proc.runs_bind.mp h
      obtain rfl := runs_isChar.mp h1
      have hnil : t₂ = [] ∧ ∀ mtdnum, r = some mtdnum → mtdnum = findMtdIndex procMtd target := by
        split at h2 <;> obtain ⟨rfl, rfl⟩ := Proc.runs_pure.mp h2
        · exact ⟨rfl, fun _ h => (Option.some.inj h).symm⟩
        · exact ⟨rfl, fun _ h => by cases h⟩
      obtain ⟨rfl, hr⟩ := hnil
      exact ⟨by simp [plain], fun m hm => ⟨target, rfl, hr m hm⟩⟩

/-- The slot is written in full, or the calls end with a failure. In both cases `t'` holds plain calls only. -/
theorem runs_writeSlot {target mtdnum : Text} {t : Trace} {ok : Bool} (h : Proc.Runs (writeSlot procMtd target mtdnum image) t ok) :
    ∃ c t', t = ran (.ubiformat ("/dev/mtd".toList ++ mtdnum) (some image)) c :: t' ∧
      (∀ e ∈ t', late e.1 = false ∧ ∀ d i, e.1 ≠ .run (.ubiformat d i)) ∧
      (ok = true → c = 0 ∧ ∃ c₂ t'', t' = ran .sync c₂ :: ran (.ubiattach mtdnum) 0 :: t'' ∧ (∀ e ∈ t'', plain e.1 = true) ∧
        ∃ (devs vols : List (Text × Text)) (dev vol : Text), (⟨.ubiDevices, devs⟩ : Event) ∈ t'' ∧ (dev, findMtdIndex procMtd target) ∈ devs ∧
          (⟨.ubiVolumes dev, vols⟩ : Event) ∈ t'' ∧ (vol, "kernel".toList) ∈ vols) := by
  unfold writeSlot at h
  obtain ⟨t₁, u₁, c, rfl, h1, k₁⟩ := Proc.runs_bind.mp h
  obtain rfl := runs_run.mp h1
  refine ⟨c, u₁, rfl, ?_⟩
  split at k₁
  · obtain ⟨rfl, rfl⟩ := Proc.runs_pure.mp k₁
    exact ⟨by simp, fun h => by cases h⟩
  rename_i hc
  obtain ⟨t₂, u₂, c₂, rfl, h2, k₂⟩ := Proc.runs_bind.mp k₁
  obtain rfl := runs_run.mp h2
  obtain ⟨t₃, u₃, c₃, rfl, h3, k₃⟩ := Proc.runs_bind.mp k₂
  obtain rfl := runs_run.mp h3
  have hhead : ∀ {t : Trace}, (∀ e ∈ t, plain e.1 = true) → ∀ e ∈ [⟨.run .sync, c₂⟩] ++ ([⟨.run (.ubiattach mtdnum), c₃⟩] ++ t),
      late e.1 = false ∧ ∀ d i, e.1 ≠ .run (.ubiformat d i) := by
    intro t ht e he
    simp only [List.cons_append, List.nil_append, List.mem_cons] at he
    rcases he with rfl | rfl | he
    · exact ⟨rfl, fun _ _ h => by cases h⟩
    · exact ⟨rfl, fun _ _ h => by cases h⟩
    · refine ⟨late_of_plain (ht e he), fun d i hq => ?_⟩
      have := ht e he
      rw [hq] at this
      cases this
  split at k₃
  · obtain ⟨rfl, rfl⟩ := Proc.runs_pure.mp k₃
    exact ⟨hhead (by simp), fun h => by cases h⟩
  rename_i hc₃
  obtain ⟨t₄, u₄, dev, rfl, h4, k₄⟩ := Proc.runs_bind.mp k₃
  obtain ⟨t₅, u₅, vol, rfl, h5, k₅⟩ := Proc.runs_bind.mp k₄
  have hnil : u₅ = [] ∧ (ok = true → vol ≠ []) := by
    split at k₅ <;> obtain ⟨rfl, rfl⟩ := Proc.runs_pure.mp k₅
    · exact ⟨rfl, fun h => by cases h⟩
    · rename_i hv
      exact ⟨rfl, fun _ => hv⟩
  obtain ⟨rfl, hok⟩ := hnil
  rw [List.append_nil]
  have hplain : ∀ e ∈ t₄ ++ t₅, plain e.1 = true := by
    intro e he
    rcases List.mem_append.mp he with he | he
    · exact plain_of_lookup ((only_nandFindUbi procMtd target).runs h4 e he)
    · exact plain_of_lookup ((only_nandFindVolume dev "kernel".toList).runs h5 e he)
  refine ⟨hhead hplain, fun ht => ⟨by simpa using hc, c₂, t₄ ++ t₅, ?_, hplain, ?_⟩⟩
  · have h0 : c₃ = 0 := by simpa using hc₃
    rw [h0]
    rfl
  · obtain ⟨hdev, vols, hvols, hkernel⟩ := runs_nandFindVolume h5 (hok ht)
    obtain ⟨devs, hdevs, hnum⟩ := runs_nandFindUbi h4 hdev
    exact ⟨devs, vols, dev, vol, List.mem_append_left _ hdevs, hnum, List.mem_append_right _ hvols, hkernel⟩

/-- What comes after the image was written decides how far the run has got. -/
theorem reached_of_restoreBackup (image : Text) {target : Text} {tp t'' tr : Trace} (c : Nat)
    (htp : miDualbootTargetPart (miDualbootCurrentPart cmdline) = some target) (hp : ∀ e ∈ tp, plain e.1 = true)
    (hp'' : ∀ e ∈ t'', plain e.1 = true)
    (hk : ∃ (devs vols : List (Text × Text)) (dev vol : Text), (⟨.ubiDevices, devs⟩ : Event) ∈ t'' ∧ (dev, findMtdIndex procMtd target) ∈ devs ∧
      (⟨.ubiVolumes dev, vols⟩ : Event) ∈ t'' ∧ (vol, "kernel".toList) ∈ vols)
    (hr : tr = [⟨.isFile backup, false⟩] ∨ ∃ t' st, (∀ e ∈ t', plain e.1 = true) ∧
      tr = ⟨.isFile backup, true⟩ :: (t' ++ [⟨.returned restoreName st, ()⟩])) :
    ∃ r, Reached procMtd cmdline image backup (tp ++ (ran (.ubiformat (slotDevice procMtd target) (some image)) 0 ::
      ran .sync c :: ran (.ubiattach (findMtdIndex procMtd target)) 0 :: (t'' ++ tr))) c r := by
  obtain ⟨devs, vols, dev, vol, k1, k2, k3, k4⟩ := hk
  have hset : ∀ {t : Trace}, (∀ e ∈ t, plain e.1 = true) → ∀ e ∈ t, ¬IsSetenv e := fun ht e he hs => by
    have := late_of_plain (ht e he)
    rw [late_of_isSetenv hs] at this
    cases this
  have hne : ∀ {e : Event}, late e.1 = false ∨ (∃ f st, e.1 = .returned f st) → ¬IsSetenv e := by
    rintro e he ⟨name, value, hq⟩
    rcases he with he | ⟨f, st, he⟩
    · rw [hq] at he
      cases he
    · rw [hq] at he
      cases he
  have n1 {q : Query} {a : Answer q} (hq : plain q = false) := not_mem_of_plain hp (a := a) hq
  have n2 {q : Query} {a : Answer q} (hq : plain q = false) := not_mem_of_plain hp'' (a := a) hq
  rcases hr with rfl | ⟨t', st, hp', rfl⟩
  · refine ⟨none, ⟨target, htp, by simp, by simp, devs, vols, dev, vol, by simp [k1], k2, by simp [k3], k4⟩, fun x => ?_, ?_, fun x => ?_, ?_⟩
    · have h1 : ran .sync x ∉ tp := n1 rfl
      have h2 : ran .sync x ∉ t'' := n2 rfl
      simp only [List.mem_append, List.mem_cons, h1, h2, false_or, or_false, List.not_mem_nil]
      simp [ran]
    · have h1 : (⟨.isFile backup, true⟩ : Event) ∉ tp := n1 rfl
      have h2 : (⟨.isFile backup, true⟩ : Event) ∉ t'' := n2 rfl
      simp [ran, h1, h2]
    · have h1 : (⟨.returned restoreName x, ()⟩ : Event) ∉ tp := n1 rfl
      have h2 : (⟨.returned restoreName x, ()⟩ : Event) ∉ t'' := n2 rfl
      simp [ran, h1, h2]
    · intro e he
      simp only [List.mem_append, List.mem_cons, List.not_mem_nil, or_false] at he
      rcases he with he | rfl | rfl | rfl | he | rfl
      · exact hset hp e he
      · exact hne (.inl rfl)
      · exact hne (.inl rfl)
      · exact hne (.inl rfl)
      · exact hset hp'' e he
      · exact hne (.inl rfl)
  · refine ⟨some st, ⟨target, htp, by simp, by simp, devs, vols, dev, vol, by simp [k1], k2, by simp [k3], k4⟩, fun x => ?_, ?_, fun x => ?_, ?_⟩
    · have h1 : ran .sync x ∉ tp := n1 rfl
      have h2 : ran .sync x ∉ t'' := n2 rfl
      have h3 : ran .sync x ∉ t' := not_mem_of_plain hp' rfl
      simp only [List.mem_append, List.mem_cons, h1, h2, h3, false_or, or_false, List.not_mem_nil]
      simp [ran]
    · simp
    · have h1 : (⟨.returned restoreName x, ()⟩ : Event) ∉ tp := n1 rfl
      have h2 : (⟨.returned restoreName x, ()⟩ : Event) ∉ t'' := n2 rfl
      have h3 : (⟨.returned restoreName x, ()⟩ : Event) ∉ t' := not_mem_of_plain hp' rfl
      simp [ran, h1, h2, h3, eq_comm]
    · intro e he
      simp only [List.mem_append, List.mem_cons, List.not_mem_nil, or_false] at he
      rcases he with he | rfl | rfl | rfl | he | rfl | he | rfl
      · exact hset hp e he
      · exact hne (.inl rfl)
      · exact hne (.inl rfl)
      · exact hne (.inl rfl)
      · exact hset hp'' e he
      · exact hne (.inl rfl)
      · exact hset hp' e he
      · exact hne (.inr ⟨_, _, rfl⟩)

/-- A run stops before the flags, or gets to them. -/
theorem runs_miDualbootDoUpgrade {t : Trace} {status : Nat} (h : Proc.Runs (miDualbootDoUpgrade procMtd cmdline s image backup) t status) :
    FormatsTarget procMtd cmdline t ∧
    ((status = 1 ∧ ∀ e ∈ t, late e.1 = false) ∨
      ∃ t₀ t₁ c r, t = t₀ ++ t₁ ∧ Reached procMtd cmdline image backup t₀ c r ∧
        Proc.Runs (setFlags (upgradeFlags (currentSlot (miDualbootCurrentPart cmdline)))) t₁ status) := by
  unfold miDualbootDoUpgrade at h
  dsimp only at h
  obtain ⟨tp, u₁, r, rfl, hp, k₁⟩ := Proc.runs_bind.mp h
  obtain ⟨hplain, htarget⟩ := runs_targetMtdnum hp
  rcases r with _ | mtdnum <;> dsimp only at k₁
  · obtain ⟨rfl, rfl⟩ := Proc.runs_pure.mp k₁
    rw [List.append_nil]
    exact ⟨.of_plain hplain, .inl ⟨rfl, fun e he => late_of_plain (hplain e he)⟩⟩
  obtain ⟨target, htp, rfl⟩ := htarget mtdnum rfl
  rw [htp] at k₁
  dsimp only at k₁
  obtain ⟨t₁, u₂, ok, rfl, h1, k₂⟩ := Proc.runs_bind.mp k₁
  obtain ⟨c, t', rfl, hlate, hok⟩ := runs_writeSlot h1
  have hF : FormatsTarget procMtd cmdline (ran (.ubiformat ("/dev/mtd".toList ++ findMtdIndex procMtd target) (some image)) c :: t') := by
    rintro e he dev img hq
    rcases List.mem_cons.mp he with rfl | he
    · cases hq
      exact ⟨target, htp, rfl⟩
    · exact absurd hq ((hlate e he).2 dev img)
  by_cases hb : ok = true
  · rw [if_pos hb] at k₂
    obtain ⟨rfl, c₂, t'', rfl, hp'', hk⟩ := hok hb
    obtain ⟨tr, t₂, u, rfl, h2, k₃⟩ := Proc.runs_bind.mp k₂
    obtain ⟨r, hr⟩ := reached_of_restoreBackup image c₂ htp hplain hp'' hk (runs_restoreBackup h2)
    have hnf : ∀ e ∈ tr ++ t₂, ∀ d i, e.1 ≠ .run (.ubiformat d i) := by
      intro e he
      rcases List.mem_append.mp he with he | he
      · exact (only_restoreBackup ..).runs h2 e he
      · exact (only_setFlags _).runs k₃ e he
    refine ⟨?_, .inr ⟨_, t₂, c₂, r, ?_, hr, k₃⟩⟩
    · refine (FormatsTarget.of_plain hplain).append (hF.append ?_)
      exact fun e he d i hq => absurd hq (hnf e he d i)
    · rw [List.append_assoc]
      simp only [List.cons_append, List.append_assoc]
      rfl
  · rw [if_neg hb] at k₂
    obtain ⟨rfl, rfl⟩ := Proc.runs_pure.mp k₂
    rw [List.append_nil]
    refine ⟨(FormatsTarget.of_plain hplain).append hF, .inl ⟨rfl, fun e he => ?_⟩⟩
    rcases List.mem_append.mp he with he | he
    · exact late_of_plain (hplain e he)
    · rcases List.mem_cons.mp he with rfl | he
      · rfl
      · exact (hlate e he).1

/-- Flags are set in order, up to the first one that fails. -/
theorem runs_setFlags {fs : List Flag} {t : Trace} {n : Nat} (h : Proc.Runs (setFlags fs) t n) :
    (n = 0 ∧ t = fs.map fun f => ran (.fwSetenv f.1 f.2) 0) ∨
      (n = 1 ∧ ∃ fs₁ f fs₂ c, fs = fs₁ ++ f :: fs₂ ∧ c ≠ 0 ∧
        t = fs₁.map (fun f => ran (.fwSetenv f.1 f.2) 0) ++ [ran (.fwSetenv f.1 f.2) c]) := by
  induction fs generalizing t with
  | nil =>
    obtain ⟨rfl, rfl⟩ := Proc.runs_pure.mp h
    exact .inl ⟨rfl, rfl⟩
  | cons f fs ih =>
    obtain ⟨t₁, t₂, c, rfl, h1, h2⟩ := Proc.runs_bind.mp h
    obtain rfl := runs_run.mp h1
    split at h2
    · rename_i hc
      obtain ⟨rfl, rfl⟩ := Proc.runs_pure.mp h2
      exact .inr ⟨rfl, [], f, fs, c, rfl, hc, rfl⟩
    · rename_i hc
      obtain rfl : c = 0 := by simpa using hc
      rcases ih h2 with ⟨rfl, rfl⟩ | ⟨rfl, fs₁, f', fs₂, c', rfl, hc', rfl⟩
      · exact .inl ⟨rfl, rfl⟩
      · exact .inr ⟨rfl, f :: fs₁, f', fs₂, c', rfl, hc', rfl⟩

/-! ### Slot switch -/

theorem otaReboot_of_not_isSetenv (v : Option Text) {e : Event} (h : ¬IsSetenv e) : otaReboot v e = v := by
  obtain ⟨q, a⟩ := e
  rcases q with c | _ | _ | _ | _ | _ | _ | _ | _ <;> try rfl
  cases c with
  | fwSetenv name value => exact absurd ⟨name, value, rfl⟩ h
  | _ => rfl

theorem foldl_otaReboot (v : Option Text) {t : Trace} (h : ∀ e ∈ t, ¬IsSetenv e) : t.foldl otaReboot v = v := by
  induction t with
  | nil => rfl
  | cons e t ih =>
    rw [List.foldl_cons, otaReboot_of_not_isSetenv v (h e List.mem_cons_self)]
    exact ih fun e he => h e (List.mem_cons_of_mem _ he)

def flagBootSuccess : Text := "flag_boot_success".toList

/-- The failures that an upgrade does not look at, or sees too late, have not happened: the configuration
    is saved, `sync` works if all flags are set, and the flag after `flag_ota_reboot` is set, unless
    that one was set before. -/
structure Heeded (v : Option Text) (t : Trace) : Prop where
  restore : ∀ x, (⟨.returned restoreName x, ()⟩ : Event) ∈ t → x = 0
  sync : ran (.fwSetenv flagBootSuccess none) 0 ∈ t → ∀ x, ran .sync x ∈ t → x = 0
  last : v = some ['1'] ∨ ∀ x, ran (.fwSetenv flagBootSuccess none) x ∈ t → x = 0

/-- The slot that runs is never formatted. -/
theorem FormatsTarget.spares {t : Trace} (h : FormatsTarget procMtd cmdline t)
    (hidx : findMtdIndex procMtd slotRootfs ≠ findMtdIndex procMtd slotRootfs1) {slot : Text} (hs : slot = slotRootfs ∨ slot = slotRootfs1)
    (hn : NamesSlot cmdline slot) (img : Option Text) (code : Nat) : ran (.ubiformat (slotDevice procMtd slot) img) code ∉ t := by
  intro hm
  obtain ⟨target, htp, hdev⟩ := h _ hm _ img rfl
  have hnum : findMtdIndex procMtd slot = findMtdIndex procMtd target := List.append_cancel_left hdev
  unfold miDualbootTargetPart at htp
  split at htp
  · rename_i hc
    obtain rfl := Option.some.inj htp
    obtain rfl := (currentPart_of_namesSlot hs hn (.inl hc)).symm.trans hc
    exact hidx hnum
  · split at htp
    · rename_i hc
      obtain rfl := Option.some.inj htp
      obtain rfl := (currentPart_of_namesSlot hs hn (.inr hc)).symm.trans hc
      exact hidx hnum.symm
    · cases htp

section
variable {t₀ t₁ : Trace} {c : Nat} {r : Option Nat}

theorem Reached.mem_append {q : Query} {a : Answer q} (h₁ : ∀ e ∈ t₁, IsSetenv e) (hq : ∀ name value, q ≠ .run (.fwSetenv name value)) :
    (⟨q, a⟩ : Event) ∈ t₀ ++ t₁ ↔ (⟨q, a⟩ : Event) ∈ t₀ := by
  rw [List.mem_append]
  refine ⟨fun h => h.resolve_right fun hm => ?_, .inl⟩
  obtain ⟨name, value, he⟩ := h₁ _ hm
  exact hq name value he

theorem Reached.ready_iff (hr : Reached procMtd cmdline image backup t₀ c r) (h₁ : ∀ e ∈ t₁, IsSetenv e) :
    Ready procMtd cmdline image backup (t₀ ++ t₁) ↔ ∀ x, r = some x → x = 0 := by
  have hfile : (⟨.isFile backup, true⟩ : Event) ∈ t₀ ++ t₁ ↔ (⟨.isFile backup, true⟩ : Event) ∈ t₀ :=
    Reached.mem_append h₁ fun _ _ h => by cases h
  have hret : ∀ x, (⟨.returned restoreName x, ()⟩ : Event) ∈ t₀ ++ t₁ ↔ r = some x := fun x =>
    (Reached.mem_append h₁ fun _ _ h => by cases h).trans (hr.restore x)
  constructor
  · rintro ⟨-, hs⟩ x rfl
    have := (hret 0).mp (hs (hfile.mpr (hr.file.mpr rfl)))
    exact Option.some.inj this
  · intro h0
    constructor
    · obtain ⟨target, htp, h1, h2, devs, vols, dev, vol, h3, h4, h5, h6⟩ := hr.written
      exact ⟨target, htp, List.mem_append_left _ h1, List.mem_append_left _ h2, devs, vols, dev, vol,
        List.mem_append_left _ h3, h4, List.mem_append_left _ h5, h6⟩
    · intro hf
      obtain ⟨x, rfl⟩ := Option.isSome_iff_exists.mp (hr.file.mp (hfile.mp hf))
      rw [hret, h0 x rfl]

/-- Every flag is set after a complete write, or none. -/
theorem Reached.flags_iff (hr : Reached procMtd cmdline image backup t₀ c r) (h₁ : ∀ e ∈ t₁, IsSetenv e) (hne : t₁ ≠ []) :
    (∀ pre e post, t₀ ++ t₁ = pre ++ e :: post → IsSetenv e → Ready procMtd cmdline image backup pre) ↔ ∀ x, r = some x → x = 0 := by
  constructor
  · intro h
    obtain ⟨e, t, rfl⟩ := List.exists_cons_of_ne_nil hne
    refine (hr.ready_iff (by simp : ∀ e ∈ ([] : Trace), IsSetenv e)).mp ?_
    rw [List.append_nil]
    exact h t₀ e t rfl (h₁ e List.mem_cons_self)
  · intro h0 pre e post heq he
    rcases List.append_eq_append_iff.mp heq with ⟨x, rfl, hx⟩ | ⟨x, rfl, hx⟩
    · exact (hr.ready_iff fun e' he' => h₁ e' (by rw [hx]; exact List.mem_append_left _ he')).mpr h0
    · rcases x with _ | ⟨e', x⟩
      · have := (hr.ready_iff (by simp : ∀ e ∈ ([] : Trace), IsSetenv e)).mpr h0
        simpa using this
      · obtain ⟨rfl, -⟩ := List.cons.inj hx
        exact absurd he (hr.setenv _ (by simp))

theorem ran_fwSetenv_inj {name name' : Text} {value value' : Option Text} {x y : Nat} :
    ran (.fwSetenv name value) x = ran (.fwSetenv name' value') y ↔ name = name' ∧ value = value' ∧ x = y := by
  rw [ran_inj]
  simp [and_assoc]

@[simp] theorem otaReboot_fwSetenv (v : Option Text) (name : Text) (value : Option Text) (x : Nat) :
    otaReboot v (ran (.fwSetenv name value) x) = if name = flagOtaReboot ∧ x = 0 then value else v := rfl

theorem isSetenv_of_runs {fs : List Flag} {n : Nat} (h : Proc.Runs (setFlags fs) t₁ n) : ∀ e ∈ t₁, IsSetenv e := by
  rcases runs_setFlags h with ⟨-, rfl⟩ | ⟨-, fs₁, f, fs₂, c, -, -, rfl⟩
  · intro e he
    obtain ⟨f, -, rfl⟩ := List.mem_map.mp he
    exact ⟨f.1, f.2, rfl⟩
  · intro e he
    rcases List.mem_append.mp he with he | he
    · obtain ⟨f, -, rfl⟩ := List.mem_map.mp he
      exact ⟨f.1, f.2, rfl⟩
    · obtain rfl := List.mem_singleton.mp he
      exact ⟨f.1, f.2, rfl⟩

/-- The last flag decides: `flag_ota_reboot` is as before unless it was set and the last flag was not. -/
theorem runs_setFlags_last (fs : List Flag) (last : Text) {n : Nat}
    (hfs : ∀ f ∈ fs, f.1 ≠ flagOtaReboot ∧ f.1 ≠ last) (hlast : last ≠ flagOtaReboot)
    (h : Proc.Runs (setFlags (fs ++ [(flagOtaReboot, some ['1']), (last, none)])) t₁ n) :
    (ran (.fwSetenv last none) 0 ∈ t₁ ↔ n = 0) ∧
    ∀ v, (n ≠ 0 → t₁.foldl otaReboot v = v) ↔ v = some ['1'] ∨ ∀ x, ran (.fwSetenv last none) x ∈ t₁ → x = 0 := by
  induction fs generalizing t₁ with
  | nil =>
    rcases runs_setFlags h with ⟨rfl, rfl⟩ | ⟨rfl, fs₁, f, fs₂, c, hfs, hc, rfl⟩
    · simp [ran_fwSetenv_inj, hlast]
    · rcases fs₁ with _ | ⟨f₁, _ | ⟨f₂, fs₁⟩⟩
      · simp only [List.nil_append, List.cons.injEq] at hfs
        obtain ⟨rfl, -⟩ := hfs
        simp [ran_fwSetenv_inj, hlast, hc]
      · simp only [List.nil_append, List.cons_append, List.cons.injEq] at hfs
        obtain ⟨rfl, rfl, -⟩ := hfs
        simp [ran_fwSetenv_inj, hlast, hc, eq_comm]
      · simp at hfs
  | cons f fs ih =>
    obtain ⟨hota, hne⟩ := hfs f List.mem_cons_self
    obtain ⟨t₂, t₃, c, rfl, h1, h2⟩ := Proc.runs_bind.mp h
    obtain rfl := runs_run.mp h1
    have hhead : ∀ x, ran (.fwSetenv last none) x ≠ ran (.fwSetenv f.1 f.2) c := fun x he => hne (ran_fwSetenv_inj.mp he).1.symm
    have hkeep : ∀ v, otaReboot v ⟨.run (.fwSetenv f.1 f.2), c⟩ = v := fun v => if_neg fun h => hota h.1
    split at h2
    · rename_i hc
      obtain ⟨rfl, rfl⟩ := Proc.runs_pure.mp h2
      refine ⟨?_, fun v => ⟨fun _ => .inr fun x hx => ?_, fun _ _ => hkeep v⟩⟩
      · exact ⟨fun hm => absurd (List.mem_singleton.mp hm) (hhead 0), fun h => by cases h⟩
      · exact absurd (List.mem_singleton.mp hx) (hhead x)
    · have hmem : ∀ x, ran (.fwSetenv last none) x ∈ [⟨.run (.fwSetenv f.1 f.2), c⟩] ++ t₃ ↔ ran (.fwSetenv last none) x ∈ t₃ := fun x =>
        ⟨fun hm => (List.mem_cons.mp hm).resolve_left (hhead x), fun hm => List.mem_cons_of_mem _ hm⟩
      obtain ⟨h3, h4⟩ := ih (fun g hg => hfs g (List.mem_cons_of_mem _ hg)) h2
      refine ⟨(hmem 0).trans h3, fun v => ?_⟩
      simp only [hmem]
      rw [List.singleton_append, List.foldl_cons, hkeep]
      exact h4 v

theorem runs_upgradeFlags {slot : Text} {n : Nat} (h : Proc.Runs (setFlags (upgradeFlags slot)) t₁ n) :
    (∀ e ∈ t₁, IsSetenv e) ∧ t₁ ≠ [] ∧
    (n = 0 → ∀ f ∈ upgradeFlags slot, ran (.fwSetenv f.1 f.2) 0 ∈ t₁) ∧
    (ran (.fwSetenv flagBootSuccess none) 0 ∈ t₁ ↔ n = 0) ∧
    ∀ v, (n ≠ 0 → t₁.foldl otaReboot v = v) ↔ v = some ['1'] ∨ ∀ x, ran (.fwSetenv flagBootSuccess none) x ∈ t₁ → x = 0 := by
  refine ⟨isSetenv_of_runs h, ?_, ?_, ?_⟩
  · rcases runs_setFlags h with ⟨-, rfl⟩ | ⟨-, fs₁, f, fs₂, c, -, -, rfl⟩
    · simp [upgradeFlags]
    · simp
  · rintro rfl
    rcases runs_setFlags h with ⟨-, rfl⟩ | ⟨h1, -⟩
    · exact fun f hf => List.mem_map.mpr ⟨f, hf, rfl⟩
    · cases h1
  · refine runs_setFlags_last ((upgradeFlags slot).take 3) flagBootSuccess ?_ (by decide) h
    intro f hf
    simp only [upgradeFlags, List.take_succ_cons, List.take_zero, List.mem_cons, List.not_mem_nil, or_false] at hf
    rcases hf with rfl | rfl | rfl
    · exact ⟨by decide, by decide⟩
    · exact ⟨by decide, by decide⟩
    · dsimp only
      exact ⟨by decide, by decide⟩

end

/-- An upgrade switches slots safely exactly if the failures it does not look at do not happen. -/
theorem switchesSafely_iff_heeded {v : Option Text} {t : Trace} {status : Nat}
    (hidx : findMtdIndex procMtd slotRootfs ≠ findMtdIndex procMtd slotRootfs1)
    (h : Proc.Runs (miDualbootDoUpgrade procMtd cmdline s image backup) t status) :
    SwitchesSafely procMtd cmdline image backup v t status ↔ Heeded v t := by
  obtain ⟨hF, hcases⟩ := runs_miDualbootDoUpgrade h
  have hslot := fun (slot : Text) hs (hn : NamesSlot cmdline slot) img code => hF.spares hidx hs hn img code
  rcases hcases with ⟨rfl, hlate⟩ | ⟨t₀, t₁, c, r, rfl, hr, hflags⟩
  · -- the run stops before the flags
    have hno : ∀ e ∈ t, ¬IsSetenv e := fun e he hs => by
      have := hlate e he
      rw [late_of_isSetenv hs] at this
      cases this
    refine ⟨fun _ => ⟨fun x hx => ?_, fun hx => ?_, .inr fun x hx => ?_⟩, fun _ => ⟨hslot, ?_, fun h => absurd h (by decide), fun _ => foldl_otaReboot v hno⟩⟩
    · cases hlate _ hx
    · cases hlate _ hx
    · cases hlate _ hx
    · rintro pre e post rfl he
      exact absurd he (hno e (by simp))
  · obtain ⟨h₁, hne, hall, hlast, hota⟩ := runs_upgradeFlags hflags
    have hret : ∀ x, (⟨.returned restoreName x, ()⟩ : Event) ∈ t₀ ++ t₁ ↔ r = some x := fun x =>
      (Reached.mem_append h₁ fun _ _ h => by cases h).trans (hr.restore x)
    have hsync : ∀ x, ran .sync x ∈ t₀ ++ t₁ ↔ x = c := fun x =>
      (Reached.mem_append h₁ fun _ _ h => by cases h).trans (hr.sync x)
    have hboot : ∀ x, ran (.fwSetenv flagBootSuccess none) x ∈ t₀ ++ t₁ ↔ ran (.fwSetenv flagBootSuccess none) x ∈ t₁ := fun x => by
      rw [List.mem_append]
      exact ⟨fun h => h.resolve_left fun hm => hr.setenv _ hm ⟨_, _, rfl⟩, .inr⟩
    have hfold : (t₀ ++ t₁).foldl otaReboot v = t₁.foldl otaReboot v := by
      rw [List.foldl_append, foldl_otaReboot v hr.setenv]
    constructor
    · rintro ⟨-, hf, hc, hu⟩
      rw [hfold, hota v] at hu
      have h0 := (hr.flags_iff h₁ hne).mp hf
      refine ⟨fun x hx => h0 x ((hret x).mp hx), fun hb x hx => ?_, hu.imp_right fun hu x hx => hu x ((hboot x).mp hx)⟩
      obtain ⟨-, hs, -⟩ := hc (hlast.mp ((hboot 0).mp hb))
      rw [(hsync x).mp hx, ← (hsync 0).mp hs]
    · rintro ⟨hres, hsy, hla⟩
      have h0 : ∀ x, r = some x → x = 0 := fun x hx => hres x ((hret x).mpr hx)
      refine ⟨hslot, (hr.flags_iff h₁ hne).mpr h0, fun hst => ⟨(hr.ready_iff h₁).mpr h0, ?_, ?_⟩, ?_⟩
      · have := hsy ((hboot 0).mpr (hlast.mpr hst)) c ((hsync c).mpr rfl)
        exact (hsync 0).mpr this.symm
      · exact fun f hf => List.mem_append_right _ (hall hst f hf)
      · rw [hfold, hota v]
        exact hla.imp_right fun hla x hx => hla x ((hboot x).mpr hx)

end

/-! ### Runs -/

def slotsMtd : List Text := ["mtd18: 02400000 00020000 \"rootfs\"".toList, "mtd19: 02400000 00020000 \"rootfs_1\"".toList]
def slotCmdline : Text := "console=ttyMSM0 ubi.mtd=rootfs".toList
def slotImage : Text := "/tmp/factory.ubi".toList
def slotBackup : Text := "/tmp/sysupgrade.tgz".toList

/-- Surroundings in which the commands `fails` fail and both slots are attached. -/
def slotAnswer (fails : Command → Bool) : (q : Query) → Answer q
  | .run c => if fails c then 1 else 0
  | .exist _ | .isFile _ | .isChar _ => true
  | .ubiDevices => [("ubi0".toList, "18".toList), ("ubi1".toList, "19".toList)]
  | .ubiVolumes dev => if dev = "ubi1".toList then [("ubi1_0".toList, "kernel".toList), ("ubi1_2".toList, "rootfs_data".toList)] else []
  | .devNodes _ => []
  | .fwPrintenv _ => []
  | .returned _ _ => ()

/-- An upgrade from slot `rootfs`. -/
def slotUpgrade : Sh Nat := miDualbootDoUpgrade slotsMtd slotCmdline {} slotImage slotBackup

def slotRun (fails : Command → Bool) : Trace × Nat := Proc.follow (slotAnswer fails) slotUpgrade

def mountFails : Command → Bool
  | .mount .. => true
  | _ => false

def lastFlagFails : Command → Bool
  | .fwSetenv name _ => name = flagBootSuccess
  | _ => false

set_option maxRecDepth 100000 in
/-- Without a failure the upgrade switches slots. -/
theorem switchesSafely_iff_heeded_slotRun : findMtdIndex slotsMtd slotRootfs ≠ findMtdIndex slotsMtd slotRootfs1 ∧
    (slotRun fun _ => false).2 = 0 ∧
    (SwitchesSafely slotsMtd slotCmdline slotImage slotBackup none (slotRun fun _ => false).1 (slotRun fun _ => false).2 ↔
      Heeded none (slotRun fun _ => false).1) := by
  have hidx : findMtdIndex slotsMtd slotRootfs ≠ findMtdIndex slotsMtd slotRootfs1 := by decide
  exact ⟨hidx, by decide, switchesSafely_iff_heeded hidx (Proc.runs_follow _ _)⟩

set_option maxRecDepth 100000 in
/-- A configuration that is not saved stops nothing, and a failure at the last flag leaves
    `flag_ota_reboot` set. -/
theorem slotRun_not_switchesSafely : findMtdIndex slotsMtd slotRootfs ≠ findMtdIndex slotsMtd slotRootfs1 ∧
    (slotRun mountFails).2 = 0 ∧ ¬SwitchesSafely slotsMtd slotCmdline slotImage slotBackup none (slotRun mountFails).1 (slotRun mountFails).2 ∧
    (slotRun lastFlagFails).2 = 1 ∧
    ¬SwitchesSafely slotsMtd slotCmdline slotImage slotBackup none (slotRun lastFlagFails).1 (slotRun lastFlagFails).2 := by
  refine ⟨by decide, by decide, fun h => ?_, by decide, fun h => ?_⟩
  · obtain ⟨⟨-, hsaved⟩, -⟩ := h.complete (by decide)
    have hfile : (⟨.isFile slotBackup, true⟩ : Event) ∈ (slotRun mountFails).1 := Proc.mem_follow.mpr ⟨by decide, rfl⟩
    have hret := (Proc.mem_follow.mp (hsaved hfile)).1
    have hnot : Query.returned restoreName 0 ∉ (slotRun mountFails).1.map Sigma.fst := by decide
    exact hnot hret
  · have hset : (slotRun lastFlagFails).1.foldl otaReboot none = some ['1'] := by decide
    have := hset.symm.trans (h.unchanged (by decide))
    cases this

end RainWrt.Upgrade
