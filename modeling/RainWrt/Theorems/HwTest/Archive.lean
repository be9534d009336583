import RainWrt.HwTest.Archive
import RainWrt.Theorems.HwTest.Wireless

/-! What a migrated archive holds. -/

namespace RainWrt.HwTest

/-! ### Disabled services -/

/-- A list of disabled services names `service`. -/
def Disables (m : Member) (service : Text) : Prop :=
  normalise m.name = disableName ∧ ∃ t, decode m.data = .ok t ∧ ∃ line ∈ splitlines t, matchDisable line = some service

theorem mem_setAdd {l : List Text} {a b : Text} : b ∈ setAdd l a ↔ b ∈ l ∨ b = a := by
  unfold setAdd
  split
  · rename_i h
    exact ⟨.inl, fun hb => hb.elim id fun he => he ▸ h⟩
  · simp

theorem nodup_setAdd {l : List Text} (h : l.Nodup) (a : Text) : (setAdd l a).Nodup := by
  unfold setAdd
  split
  · exact h
  · rename_i ha
    rw [List.nodup_append]
    exact ⟨h, by simp, fun x hx y hy he => ha (by rw [← List.mem_singleton.mp hy, ← he]; exact hx)⟩

theorem mem_dropWhile_append {p : Char → Bool} (x : Text) {y : Text} {c : Char} (hm : c ∈ y) (hc : p c = false) : c ∈ (x ++ y).dropWhile p := by
  induction x with
  | nil =>
    induction y with
    | nil => cases hm
    | cons d y ih =>
      rw [List.nil_append] at ih ⊢
      rw [List.dropWhile_cons]
      split
      · rename_i hd
        rcases List.mem_cons.mp hm with rfl | hm
        · rw [hc] at hd
          cases hd
        · exact ih hm
      · exact hm
  | cons d x ih =>
    rw [List.cons_append, List.dropWhile_cons]
    split
    · exact ih
    · exact List.mem_cons_of_mem _ (List.mem_append_right _ hm)

theorem afterWord_eq_some {w t r : Text} (h : afterWord w t = some r) : t = w ++ r := by
  unfold afterWord at h
  split at h
  · rename_i hw
    obtain ⟨x, rfl⟩ := List.isPrefixOf_iff_prefix.mp hw
    rw [List.drop_left] at h
    rw [Option.some.inj h]
  · cases h

theorem serviceBefore_eq_some {verb t name : Text} (h : serviceBefore verb t = some name) : isService name = true ∧ t = name ++ verb := by
  unfold serviceBefore at h
  dsimp only at h
  split at h
  · rename_i hc
    obtain rfl := Option.some.inj h
    refine ⟨hc.1, ?_⟩
    have := List.takeWhile_append_dropWhile (p := isServiceChar) (l := t)
    have hd : t.dropWhile isServiceChar = verb := by
      rw [← hc.2]
      have hlen : (t.takeWhile isServiceChar ++ t.dropWhile isServiceChar).drop (t.takeWhile isServiceChar).length = t.dropWhile isServiceChar := List.drop_left
      rw [this] at hlen
      exact hlen.symm
    rw [← hd, this]
  · cases h

theorem isService_of_matchDisable {line service : Text} (h : matchDisable line = some service) : isService service = true := by
  unfold matchDisable at h
  simp only [Option.bind_eq_bind, Option.bind_eq_some_iff] at h
  obtain ⟨_, _, _, _, _, _, h'⟩ := h
  exact (serviceBefore_eq_some h').1

/-- A line that disables a service is neither empty nor the last line of the list. -/
theorem strip_of_matchDisable {line service : Text} (h : matchDisable line = some service) : ¬(strip line = [] ∨ strip line = "exit 0".toList) := by
  unfold matchDisable at h
  simp only [Option.bind_eq_bind, Option.bind_eq_some_iff] at h
  obtain ⟨t, h1, -⟩ := h
  obtain rfl := afterWord_eq_some h1
  have hdrop : ("/etc/init".toList ++ t).dropWhile isPySpace = "/etc/init".toList ++ t := rfl
  have hmem : '/' ∈ strip ("/etc/init".toList ++ t) := by
    unfold strip
    rw [hdrop, List.mem_reverse]
    have hrev : ("/etc/init".toList ++ t).reverse = t.reverse ++ "/etc/init".toList.reverse := by simp
    rw [hrev]
    exact mem_dropWhile_append _ (by decide) (by rfl)
  rintro (h0 | h0) <;> rw [h0] at hmem
  · cases hmem
  · exact absurd hmem (by decide)

theorem addDisabled_foldlM {lines : List Text} {d d' : List Text} (h : lines.foldlM addDisabled d = .ok d') :
    (∀ x, x ∈ d' ↔ x ∈ d ∨ ∃ line ∈ lines, matchDisable line = some x) ∧ (d.Nodup → d'.Nodup) := by
  induction lines generalizing d with
  | nil =>
    cases h
    simp
  | cons line lines ih =>
    rw [List.foldlM_cons] at h
    obtain ⟨d₁, h1, h2⟩ := bind_eq_ok.mp h
    obtain ⟨hmem, hnd⟩ := ih h2
    unfold addDisabled at h1
    split at h1
    · rename_i hs
      cases h1
      have hno : ∀ x, matchDisable line ≠ some x := fun x hx => strip_of_matchDisable hx hs
      refine ⟨fun x => ?_, hnd⟩
      rw [hmem]
      simp [hno]
    · split at h1
      · rename_i name hm
        cases h1
        refine ⟨fun x => ?_, fun hd => hnd (nodup_setAdd hd name)⟩
        rw [hmem, mem_setAdd]
        simp only [List.mem_cons, exists_eq_or_imp, hm, Option.some.injEq, or_assoc]
        rw [eq_comm]
      · cases h1

theorem readDisabled_eq_ok {s s' : Migrating} {m : Member} (h : readDisabled s (normalise m.name) m = .ok s') :
    (∀ x, x ∈ s'.disabled ↔ x ∈ s.disabled ∨ Disables m x) ∧ (s.disabled.Nodup → s'.disabled.Nodup) ∧ s' = { s with disabled := s'.disabled } := by
  unfold readDisabled at h
  split at h
  · rename_i hn
    obtain ⟨u, -, h1⟩ := bind_eq_ok.mp h
    obtain ⟨t, ht, h2⟩ := bind_eq_ok.mp h1
    obtain ⟨d, hd, h3⟩ := bind_eq_ok.mp h2
    cases h3
    obtain ⟨hmem, hnd⟩ := addDisabled_foldlM hd
    refine ⟨fun x => (hmem x).trans (or_congr_right ?_), hnd, rfl⟩
    constructor
    · rintro ⟨line, hl, hx⟩
      exact ⟨hn, t, ht, line, hl, hx⟩
    · rintro ⟨-, t', ht', line, hl, hx⟩
      rw [ht] at ht'
      cases ht'
      exact ⟨line, hl, hx⟩
  · rename_i hn
    cases h
    exact ⟨fun x => ⟨.inl, fun hx => hx.elim id fun hd => absurd hd.1 hn⟩, id, rfl⟩

/-! ### One member -/

/-- A member of the original archive and what it becomes. -/
structure Migrated (m m' : Member) : Prop where
  same : m' = { m with name := normalise m.name, data := m'.data }
  data : if normalise m.name = wirelessName then migrateWireless m.data = .ok m'.data else m'.data = m.data

/-- What a migrated archive is made of, the script apart. -/
structure Safe (m : Member) : Prop where
  kept : isDropped m.name = false
  service : startsWith initDir m.name = true → isService (m.name.drop initDir.length) = true ∧ m.kind = .file
  wireless : m.name = wirelessName → m.kind = .file ∧ ∃ data, migrateWireless data = .ok m.data

section
variable (sha256 : Bytes → Bytes) (enabled : List Text)

/-- The entry of an enabled service. -/
def preservedOf (m : Member) : List (Text × Text) :=
  if startsWith initDir m.name = true ∧ m.name.drop initDir.length ∈ enabled then [(m.name.drop initDir.length, hexdigest (sha256 m.data))] else []

/-- One round of the loop. -/
structure MigrateStep (s s' : Migrating) (m : Member) : Prop where
  fresh : normalise m.name ∉ s.seen
  seen : s'.seen = s.seen ++ [normalise m.name]
  disabled : ∀ x, x ∈ s'.disabled ↔ x ∈ s.disabled ∨ Disables m x
  nodup : s.disabled.Nodup → s'.disabled.Nodup
  out : (isDropped (normalise m.name) = true ∧ s'.out = s.out ∧ s'.preserved = s.preserved) ∨
    (isDropped (normalise m.name) = false ∧ ∃ m', Migrated m m' ∧ Safe m' ∧ s'.out = s.out ++ [m'] ∧ s'.preserved = s.preserved ++ preservedOf sha256 enabled m')

variable {sha256} {enabled}

theorem preserveService_eq_ok {s s' : Migrating} {name : Text} {m : Member} {data : Bytes} (h : preserveService sha256 enabled s name m data = .ok s') :
    (startsWith initDir name = true → isService (name.drop initDir.length) = true ∧ m.kind = .file) ∧
    s' = { s with preserved := s.preserved ++ preservedOf sha256 enabled { m with name := name, data := data } } := by
  unfold preserveService at h
  split at h
  · rename_i hi
    dsimp only at h
    split at h
    · cases h
    · rename_i hs
      have hsafe : isService (name.drop initDir.length) = true ∧ m.kind = .file := by simpa using hs
      split at h
      · rename_i he
        cases h
        exact ⟨fun _ => hsafe, by simp [preservedOf, hi, he]⟩
      · rename_i he
        cases h
        exact ⟨fun _ => hsafe, by simp [preservedOf, he]⟩
  · rename_i hi
    cases h
    exact ⟨fun h' => absurd h' hi, by simp [preservedOf, hi]⟩

theorem migrateMember_eq_ok {s s' : Migrating} {m : Member} (h : migrateMember sha256 enabled s m = .ok s') : MigrateStep sha256 enabled s s' m := by
  obtain ⟨u, hu, h1⟩ := bind_eq_ok.mp h
  have hname := stopIf_eq_ok.mp hu
  obtain ⟨s₁, hs₁, h2⟩ := bind_eq_ok.mp h1
  obtain ⟨hdis, hnd, hs₁'⟩ := readDisabled_eq_ok hs₁
  obtain ⟨u', hk, h3⟩ := bind_eq_ok.mp h2
  have hfresh : normalise m.name ∉ s.seen := fun hm => hname (.inr (.inl hm))
  have hseen : s₁.seen = s.seen ++ [normalise m.name] := by rw [hs₁']
  have hout : s₁.out = s.out := by rw [hs₁']
  have hpres : s₁.preserved = s.preserved := by rw [hs₁']
  split at h3
  · rename_i hd
    cases h3
    exact ⟨hfresh, hseen, hdis, hnd, .inl ⟨hd, hout, hpres⟩⟩
  · rename_i hd
    have hd' : isDropped (normalise m.name) = false := by simpa using hd
    obtain ⟨data, hdata, h4⟩ := bind_eq_ok.mp h3
    obtain ⟨s₂, hs₂, h5⟩ := bind_eq_ok.mp h4
    cases h5
    obtain ⟨hserv, rfl⟩ := preserveService_eq_ok hs₂
    have hwd : (if normalise m.name = wirelessName then migrateWireless m.data = .ok data else data = m.data) ∧
        (normalise m.name = wirelessName → m.kind = .file) := by
      unfold migrateData at hdata
      split at hdata
      · rename_i hw
        split at hdata
        · cases hdata
        · rename_i hf
          rw [if_pos hw]
          exact ⟨hdata, fun _ => by simpa using hf⟩
      · rename_i hw
        rw [if_neg hw]
        exact ⟨(Except.ok.inj hdata).symm, fun h => absurd h hw⟩
    refine ⟨hfresh, hseen, hdis, hnd, .inr ⟨hd', { m with name := normalise m.name, data := data }, ⟨rfl, hwd.1⟩, ⟨hd', hserv, fun hw => ⟨hwd.2 hw, m.data, ?_⟩⟩, ?_, ?_⟩⟩
    · have := hwd.1
      rw [if_pos hw] at this
      exact this
    · rw [← hout]
    · rw [← hpres]

/-- The whole loop. -/
theorem migrateMember_foldlM {members : List Member} {s s' : Migrating} (h : members.foldlM (migrateMember sha256 enabled) s = .ok s') :
    ∃ body, s'.out = s.out ++ body ∧ List.Forall₂ Migrated (members.filter fun m => !isDropped (normalise m.name)) body ∧ (∀ m ∈ body, Safe m) ∧
      s'.preserved = s.preserved ++ body.flatMap (preservedOf sha256 enabled) ∧ (s.seen.Nodup → (s.seen ++ members.map fun m => normalise m.name).Nodup) ∧
      (∀ x, x ∈ s'.disabled ↔ x ∈ s.disabled ∨ ∃ m ∈ members, Disables m x) ∧ (s.disabled.Nodup → s'.disabled.Nodup) := by
  induction members generalizing s with
  | nil =>
    cases h
    exact ⟨[], by simp, .nil, by simp, by simp, by simp, by simp, id⟩
  | cons m members ih =>
    rw [List.foldlM_cons] at h
    obtain ⟨s₁, h1, h2⟩ := bind_eq_ok.mp h
    have hstep := migrateMember_eq_ok h1
    obtain ⟨body, hout, hall, hsafe, hpres, hseen, hdis, hnd⟩ := ih h2
    have hseen' : s.seen.Nodup → (s.seen ++ (m :: members).map fun m => normalise m.name).Nodup := by
      intro hs
      have hn : s₁.seen.Nodup := by
        rw [hstep.seen, List.nodup_append]
        refine ⟨hs, by simp, fun x hx y hy he => hstep.fresh ?_⟩
        rw [← List.mem_singleton.mp hy, ← he]
        exact hx
      have := hseen hn
      rw [hstep.seen, List.append_assoc] at this
      exact this
    have hdis' : ∀ x, x ∈ s'.disabled ↔ x ∈ s.disabled ∨ ∃ m' ∈ m :: members, Disables m' x := by
      intro x
      rw [hdis, hstep.disabled, or_assoc]
      simp
    rcases hstep.out with ⟨hd, ho, hp⟩ | ⟨hd, m', hm', hs', ho, hp⟩
    · refine ⟨body, by rw [hout, ho], ?_, hsafe, by rw [hpres, hp], hseen', hdis', hnd ∘ hstep.nodup⟩
      rw [List.filter_cons_of_neg (by simp [hd])]
      exact hall
    · refine ⟨m' :: body, by rw [hout, ho]; simp, ?_, ?_, by rw [hpres, hp]; simp, hseen', hdis', hnd ∘ hstep.nodup⟩
      · rw [List.filter_cons_of_pos (by simp [hd])]
        exact .cons hm' hall
      · intro x hx
        rcases List.mem_cons.mp hx with rfl | hx
        · exact hs'
        · exact hsafe x hx

/-! ### Whole archives -/

omit sha256 enabled in
theorem sortTexts_sortTexts (l : List Text) : sortTexts (sortTexts l) = sortTexts l :=
  (List.pairwise_insertionSort (· ≤ ·) l).insertionSort_eq

omit sha256 enabled in
theorem sortTexts_eq_nil {l : List Text} : sortTexts l = [] ↔ l = [] := by
  rw [← List.length_eq_zero_iff, ← List.length_eq_zero_iff, sortTexts, List.length_insertionSort]

omit sha256 enabled in
theorem scriptMembers_sort (preserved : List (Text × Text)) (disabled : List Text) :
    scriptMembers preserved (sortTexts disabled) = scriptMembers preserved disabled := by
  unfold scriptMembers scriptMember serviceRestoreScript
  simp only [sortTexts_sortTexts, sortTexts_eq_nil]

/-- A migrated archive: the kept members in order, and the script. -/
structure Outcome (sha256 : Bytes → Bytes) (enabled : List Text) (members out : List Member) (mig : Migration) (body : List Member) : Prop where
  out : out = body ++ scriptMembers mig.enabledCustomServices mig.disabledServices
  kept : List.Forall₂ Migrated (members.filter fun m => !isDropped (normalise m.name)) body
  safe : ∀ m ∈ body, Safe m
  preserved : mig.enabledCustomServices = body.flatMap (preservedOf sha256 enabled)
  disabled : ∀ x, x ∈ mig.disabledServices ↔ ∃ m ∈ members, Disables m x
  sorted : sortTexts mig.disabledServices = mig.disabledServices
  nodup : mig.disabledServices.Nodup
  distinct : (members.map fun m => normalise m.name).Nodup
  apart : ∀ x ∈ enabled, x ∉ mig.disabledServices

theorem migrateArchive_eq_ok {members out : List Member} {mig : Migration} (h : migrateArchive sha256 enabled members = .ok (out, mig)) :
    ∃ body, Outcome sha256 enabled members out mig body := by
  obtain ⟨-, -, h1⟩ := bind_eq_ok.mp h
  obtain ⟨s, hs, h2⟩ := bind_eq_ok.mp h1
  obtain ⟨u, hu, h3⟩ := bind_eq_ok.mp h2
  have hapart := stopIf_eq_ok.mp hu
  obtain ⟨u', -, h4⟩ := bind_eq_ok.mp h3
  cases h4
  obtain ⟨body, hout, hall, hsafe, hpres, hseen, hdis, hnd⟩ := migrateMember_foldlM hs
  have hperm : ∀ x, x ∈ sortTexts s.disabled ↔ x ∈ s.disabled := fun x => List.mem_insertionSort _
  refine ⟨body, ?_, hall, hsafe, by rw [hpres]; rfl, fun x => ?_, sortTexts_sortTexts _, ?_, by simpa using hseen (by simp), ?_⟩
  · rw [scriptMembers_sort, hout]
    rfl
  · dsimp only
    rw [hperm, hdis]
    simp
  · exact (List.perm_insertionSort _ _).nodup_iff.mpr (hnd (by simp))
  · intro x hx hm
    refine hapart (List.any_eq_true.mpr ⟨x, hx, ?_⟩)
    simpa using (hperm x).mp hm

theorem startsWith_iff {pre t : Text} : startsWith pre t = true ↔ ∃ r, t = pre ++ r := by
  unfold startsWith
  rw [List.isPrefixOf_iff_prefix]
  exact ⟨fun ⟨r, hr⟩ => ⟨r, hr.symm⟩, fun ⟨r, hr⟩ => ⟨r, hr.symm⟩⟩

/-- The services of the report are those of the kept scripts. -/
theorem Outcome.mem_preserved {members out body : List Member} {mig : Migration} (h : Outcome sha256 enabled members out mig body) (x d : Text) :
    (x, d) ∈ mig.enabledCustomServices ↔ x ∈ enabled ∧ ∃ m ∈ body, m.name = initDir ++ x ∧ d = hexdigest (sha256 m.data) := by
  rw [h.preserved, List.mem_flatMap]
  constructor
  · rintro ⟨m, hm, hp⟩
    unfold preservedOf at hp
    split at hp
    · rename_i hc
      obtain ⟨r, hr⟩ := startsWith_iff.mp hc.1
      rw [hr, List.drop_left] at hp hc
      obtain ⟨rfl, rfl⟩ := Prod.mk.inj (List.mem_singleton.mp hp)
      exact ⟨hc.2, m, hm, hr, rfl⟩
    · cases hp
  · rintro ⟨hx, m, hm, hn, rfl⟩
    refine ⟨m, hm, ?_⟩
    unfold preservedOf
    rw [hn, List.drop_left, if_pos ⟨startsWith_iff.mpr ⟨x, rfl⟩, hx⟩]
    exact List.mem_singleton.mpr rfl

theorem forall₂_mem_left {r : Member → Member → Prop} {l l' : List Member} (h : List.Forall₂ r l l') {a : Member} (ha : a ∈ l) : ∃ b ∈ l', r a b := by
  induction h with
  | nil => cases ha
  | cons hr _ ih =>
    rcases List.mem_cons.mp ha with rfl | ha
    · exact ⟨_, List.mem_cons_self, hr⟩
    · obtain ⟨b, hb, hrb⟩ := ih ha
      exact ⟨b, List.mem_cons_of_mem _ hb, hrb⟩

theorem forall₂_mem_right {r : Member → Member → Prop} {l l' : List Member} (h : List.Forall₂ r l l') {b : Member} (hb : b ∈ l') : ∃ a ∈ l, r a b := by
  induction h with
  | nil => cases hb
  | cons hr _ ih =>
    rcases List.mem_cons.mp hb with rfl | hb
    · exact ⟨_, List.mem_cons_self, hr⟩
    · obtain ⟨a, ha, hra⟩ := ih hb
      exact ⟨a, List.mem_cons_of_mem _ ha, hra⟩

theorem Migrated.name {m m' : Member} (h : Migrated m m') : m'.name = normalise m.name := by rw [h.same]

theorem Migrated.kind {m m' : Member} (h : Migrated m m') : m'.kind = m.kind := by rw [h.same]

/-- The members of the body are the kept members under their names. -/
theorem Outcome.name_mem {members out body : List Member} {mig : Migration} (h : Outcome sha256 enabled members out mig body) {name : Text} :
    (∃ m' ∈ body, m'.name = name) ↔ ∃ m ∈ members, normalise m.name = name ∧ isDropped name = false := by
  constructor
  · rintro ⟨m', hm', rfl⟩
    obtain ⟨m, hm, hmig⟩ := forall₂_mem_right h.kept hm'
    obtain ⟨hm, hd⟩ := List.mem_filter.mp hm
    exact ⟨m, hm, hmig.name.symm, by rw [hmig.name]; simpa using hd⟩
  · rintro ⟨m, hm, rfl, hd⟩
    obtain ⟨m', hm', hmig⟩ := forall₂_mem_left h.kept (List.mem_filter.mpr ⟨hm, by simp [hd]⟩)
    exact ⟨m', hm', hmig.name⟩

/-- A relative path without its empty and `.` components. -/
def resolve (name : Text) : Text := ['/'].intercalate ((name.splitOn '/').filter fun c => c ≠ [] ∧ c ≠ ".".toList)

/-- Nothing stale is in the archive, whatever the spelling of its names. -/
def NoStale (out : List Member) : Prop := ∀ m ∈ out, m.name ≠ scriptName →
  isDropped (resolve m.name) = false ∧ (resolve m.name = wirelessName → oldWifiPath ∉ wifiDevicePaths m.data)

/-- Stale names are spelled so that the filter sees them, and a wireless configuration with the old path
    stands under its plain name. -/
structure PlainlyNamed (m : Member) : Prop where
  stale : isDropped (resolve (normalise m.name)) = true → isDropped (normalise m.name) = true
  wireless : resolve (normalise m.name) = wirelessName → isDropped (normalise m.name) = false → oldWifiPath ∈ wifiDevicePaths m.data →
    normalise m.name = wirelessName

theorem isDropped_scriptName : isDropped scriptName = true := by decide

/-- Nothing stale survives a migration exactly if the names are spelled plainly. -/
theorem noStale_iff_plainlyNamed {members out : List Member} {mig : Migration} (h : migrateArchive sha256 enabled members = .ok (out, mig)) :
    NoStale out ↔ ∀ m ∈ members, PlainlyNamed m := by
  obtain ⟨body, ho⟩ := migrateArchive_eq_ok h
  have hbody : ∀ {m' : Member}, m' ∈ body → m' ∈ out := fun hm => by
    rw [ho.out]
    exact List.mem_append_left _ hm
  have hscript : ∀ {m' : Member}, isDropped m'.name = false → m'.name ≠ scriptName := fun hd hn => by
    rw [hn, isDropped_scriptName] at hd
    cases hd
  constructor
  · intro hno m hm
    constructor
    · intro hs
      by_contra hd
      obtain ⟨m', hm', hn⟩ := ho.name_mem.mpr ⟨m, hm, rfl, by simpa using hd⟩
      have := (hno m' (hbody hm') (hscript (ho.safe m' hm').kept)).1
      rw [hn, hs] at this
      cases this
    · intro hr hd hold
      by_contra hw
      obtain ⟨m', hm', hmig⟩ := forall₂_mem_left ho.kept (List.mem_filter.mpr ⟨hm, by simp [hd]⟩)
      have hdata := hmig.data
      rw [if_neg hw] at hdata
      refine (hno m' (hbody hm') (hscript (ho.safe m' hm').kept)).2 (by rw [hmig.name, hr]) ?_
      rw [hdata]
      exact hold
  · intro hplain m' hm' hns
    rw [ho.out] at hm'
    rcases List.mem_append.mp hm' with hm' | hm'
    · obtain ⟨m, hm, hmig⟩ := forall₂_mem_right ho.kept hm'
      obtain ⟨hm, hd⟩ := List.mem_filter.mp hm
      have hd' : isDropped (normalise m.name) = false := by simpa using hd
      rw [hmig.name]
      constructor
      · by_contra hs
        have := (hplain m hm).stale (by simpa using hs)
        rw [hd'] at this
        cases this
      · intro hr hold
        have hdata := hmig.data
        split at hdata
        · exact (migrateWireless_migrated hdata).2 hold
        · rename_i hw
          rw [hdata] at hold
          exact hw ((hplain m hm).wireless hr hd' hold)
    · unfold scriptMembers at hm'
      split at hm'
      · cases hm'
      · rw [List.mem_singleton.mp hm'] at hns
        exact absurd rfl hns

set_option maxRecDepth 100000 in
theorem noStale_iff_plainlyNamed_network : ∃ out mig,
    migrateArchive id [] [{ name := "./etc/config/network".toList }] = .ok (out, mig) ∧
    (NoStale out ↔ ∀ m ∈ [({ name := "./etc/config/network".toList } : Member)], PlainlyNamed m) :=
  ⟨_, _, rfl, @noStale_iff_plainlyNamed id [] _ _ _ rfl⟩

set_option maxRecDepth 100000 in
/-- A doubled slash carries an old package key into the migrated archive. -/
theorem stale_survives_slash : ∃ out mig,
    migrateArchive id [] [{ name := "etc//opkg/keys".toList, data := bytes "key" }] = .ok (out, mig) ∧
    (∃ m ∈ out, m.name = "etc//opkg/keys".toList ∧ resolve m.name = "etc/opkg/keys".toList) ∧ ¬NoStale out := by
  have hres : migrateArchive id [] [{ name := "etc//opkg/keys".toList, data := bytes "key" }] =
      .ok ([{ name := "etc//opkg/keys".toList, data := bytes "key" }], ⟨0, [], []⟩) := rfl
  refine ⟨_, _, hres, ⟨_, List.mem_cons_self, rfl, by decide⟩, fun h => ?_⟩
  have := (h _ List.mem_cons_self (by decide)).1
  revert this
  decide

end

end RainWrt.HwTest
