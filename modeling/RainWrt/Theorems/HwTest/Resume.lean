import RainWrt.Theorems.HwTest.Archive
import RainWrt.Theorems.Lists

/-! The services that a resumed validation reads from a migrated archive are those that the migration
    wrote. -/

namespace RainWrt.HwTest

/-! ### Lines of the script -/

/-- A character that a script line may hold. -/
def isScriptChar (c : Char) : Bool := c.toNat < 128 && c != '\n'

theorem isScriptChar_of_service {c : Char} (h : isServiceChar c = true) : isScriptChar c = true := by
  have hrange : ∀ {lo hi : Nat}, lo ≤ c.toNat → c.toNat ≤ hi → 10 < lo → hi < 128 → isScriptChar c = true := by
    intro lo hi h1 h2 h3 h4
    have hne : c ≠ '\n' := by
      rintro rfl
      exact absurd h1 (by simp; omega)
    simp [isScriptChar, hne]
    omega
  simp only [isServiceChar, Char.isAlphanum, Char.isAlpha, Char.isUpper, Char.isLower, Char.isDigit, Bool.or_eq_true, Bool.and_eq_true,
    decide_eq_true_eq, beq_iff_eq] at h
  rcases h with (((((h | h) | h) | rfl) | rfl) | rfl)
  · exact hrange (UInt32.le_iff_toNat_le.mp h.1) (UInt32.le_iff_toNat_le.mp h.2) (by decide) (by decide)
  · exact hrange (UInt32.le_iff_toNat_le.mp h.1) (UInt32.le_iff_toNat_le.mp h.2) (by decide) (by decide)
  · exact hrange (UInt32.le_iff_toNat_le.mp h.1) (UInt32.le_iff_toNat_le.mp h.2) (by decide) (by decide)
  · rfl
  · rfl
  · rfl

theorem isScriptChar_hexdigest {d : Bytes} {c : Char} (h : c ∈ hexdigest d) : isScriptChar c = true := by
  obtain ⟨b, -, hc⟩ := List.mem_flatMap.mp h
  have hdigit : ∀ n, isScriptChar (hexDigits.getD n '0') = true := by
    intro n
    rw [List.getD_eq_getElem?_getD]
    rcases hn : hexDigits[n]? with _ | x
    · rfl
    · have hall : ∀ x ∈ hexDigits, isScriptChar x = true := List.all_eq_true.mp (by decide)
      exact hall x (List.mem_of_getElem? hn)
  simp only [hexByte, List.mem_cons, List.not_mem_nil, or_false] at hc
  rcases hc with rfl | rfl
  · exact hdigit _
  · exact hdigit _

theorem serviceBefore_append {verb name : Text} (h : isService name = true) (hv : ∀ c, verb.head? = some c → isServiceChar c = false) :
    serviceBefore verb (name ++ verb) = some name := by
  have hall : ∀ c ∈ name, isServiceChar c = true := by
    unfold isService at h
    simp only [Bool.and_eq_true, List.all_eq_true] at h
    exact h.1.2
  have htake : (name ++ verb).takeWhile isServiceChar = name := by
    rw [List.takeWhile_append_of_pos hall]
    rcases verb with _ | ⟨c, verb⟩
    · simp
    · rw [List.takeWhile_cons_of_neg (by simp [hv c rfl]), List.append_nil]
  unfold serviceBefore
  dsimp only
  rw [htake, List.drop_left, if_pos ⟨h, rfl⟩]

section
variable {name digest : Text}

theorem matchRcCommon_disable (h : isService name = true) :
    (disableLines name).filterMap (matchRcCommon "  ".toList " disable".toList) = [name] := by
  have hline : matchRcCommon "  ".toList " disable".toList ("  /bin/sh /etc/rc.common ".toList ++ initPath name ++ " disable".toList) = some name :=
    serviceBefore_append h (by rintro c ⟨⟩; decide)
  unfold disableLines
  rw [List.filterMap_cons_none rfl, List.filterMap_cons_some hline, List.filterMap_cons_none rfl, List.filterMap_nil]

theorem matchRcCommon_enable (h : isService name = true) :
    (enableLines (name, digest)).filterMap (matchRcCommon "".toList " enable".toList) = [name] := by
  have hline : matchRcCommon "".toList " enable".toList ("/bin/sh /etc/rc.common ".toList ++ initPath name ++ " enable".toList) = some name :=
    serviceBefore_append h (by rintro c ⟨⟩; decide)
  unfold enableLines
  rw [List.filterMap_cons_none rfl, List.filterMap_cons_none rfl, List.filterMap_cons_some hline, List.filterMap_nil]

theorem matchRcCommon_enable_disable : (enableLines (name, digest)).filterMap (matchRcCommon "  ".toList " disable".toList) = [] := by
  unfold enableLines
  rw [List.filterMap_cons_none rfl, List.filterMap_cons_none rfl, List.filterMap_cons_none rfl, List.filterMap_nil]

theorem matchRcCommon_disable_enable : (disableLines name).filterMap (matchRcCommon "".toList " enable".toList) = [] := by
  unfold disableLines
  rw [List.filterMap_cons_none rfl, List.filterMap_cons_none rfl, List.filterMap_cons_none rfl, List.filterMap_nil]

end

/-! ### Whole scripts -/

/-- The lines of a script. -/
def scriptLines (preserved : List (Text × Text)) (disabled : List Text) : List Text :=
  ["#!/bin/sh".toList, "set -eu".toList] ++ (sortTexts disabled).flatMap disableLines ++ (sortServices preserved).flatMap enableLines ++ ["exit 0".toList, []]

/-- Service names and hashes of a report. -/
structure Clean (preserved : List (Text × Text)) (disabled : List Text) : Prop where
  names : ∀ e ∈ preserved, isService e.1 = true
  digests : ∀ e ∈ preserved, ∀ c ∈ e.2, isScriptChar c = true
  disabled : ∀ x ∈ disabled, isService x = true

theorem isScriptChar_of_name {name : Text} (h : isService name = true) {c : Char} (hc : c ∈ name) : isScriptChar c = true := by
  unfold isService at h
  simp only [Bool.and_eq_true, List.all_eq_true] at h
  exact isScriptChar_of_service (h.1.2 c hc)

section
variable {preserved : List (Text × Text)} {disabled : List Text}

theorem Clean.isScriptChar (h : Clean preserved disabled) {l : Text} (hl : l ∈ scriptLines preserved disabled) {c : Char} (hc : c ∈ l) : isScriptChar c = true := by
  have hlit : ∀ {w : Text}, (w.all HwTest.isScriptChar) = true → c ∈ w → HwTest.isScriptChar c = true := fun hw hm => List.all_eq_true.mp hw c hm
  have hpath : ∀ {name : Text}, isService name = true → c ∈ initPath name → HwTest.isScriptChar c = true := by
    intro name hn hm
    rcases List.mem_append.mp hm with hm | hm
    · exact hlit (by decide) hm
    · exact isScriptChar_of_name hn hm
  simp only [scriptLines, List.mem_append, List.mem_flatMap] at hl
  rcases hl with ((hl | ⟨x, hx, hl⟩) | ⟨⟨x, d⟩, hx, hl⟩) | hl
  · simp only [List.mem_cons, List.not_mem_nil, or_false] at hl
    rcases hl with rfl | rfl
    · exact hlit (by decide) hc
    · exact hlit (by decide) hc
  · have hs := h.disabled x ((List.mem_insertionSort _).mp hx)
    simp only [disableLines, List.mem_cons, List.not_mem_nil, or_false] at hl
    rcases hl with rfl | rfl | rfl
    · simp only [List.mem_append] at hc
      rcases hc with (((hc | hc) | hc) | hc) | hc
      · exact hlit (by decide) hc
      · exact hpath hs hc
      · exact hlit (by decide) hc
      · exact hpath hs hc
      · exact hlit (by decide) hc
    · simp only [List.mem_append] at hc
      rcases hc with (hc | hc) | hc
      · exact hlit (by decide) hc
      · exact hpath hs hc
      · exact hlit (by decide) hc
    · exact hlit (by decide) hc
  · have hm := (List.mem_insertionSort _).mp hx
    have hs := h.names _ hm
    simp only [enableLines, List.mem_cons, List.not_mem_nil, or_false] at hl
    rcases hl with rfl | rfl | rfl
    · simp only [List.mem_append] at hc
      rcases hc with (((hc | hc) | hc) | hc) | hc
      · exact hlit (by decide) hc
      · exact hpath hs hc
      · exact hlit (by decide) hc
      · exact hpath hs hc
      · exact hlit (by decide) hc
    · simp only [List.mem_append] at hc
      rcases hc with (((hc | hc) | hc) | hc) | hc
      · exact hlit (by decide) hc
      · exact hpath hs hc
      · exact hlit (by decide) hc
      · exact h.digests _ hm c hc
      · exact hlit (by decide) hc
    · simp only [List.mem_append] at hc
      rcases hc with (hc | hc) | hc
      · exact hlit (by decide) hc
      · exact hpath hs hc
      · exact hlit (by decide) hc
  · simp only [List.mem_cons, List.not_mem_nil, or_false] at hl
    rcases hl with rfl | rfl
    · exact hlit (by decide) hc
    · cases hc

theorem latin1_encode {t : Text} (h : ∀ c ∈ t, c.toNat < 128) : latin1 (encode t) = t := by
  unfold latin1 encode
  rw [List.map_map]
  refine (List.map_congr_left fun c hc => ?_).trans (List.map_id t)
  have hlt := h c hc
  rw [Function.comp_apply, UInt8.toNat_ofNat_of_lt' (show c.toNat < 256 by omega)]
  exact Char.ofNat_toNat c

/-- The script, read line by line. -/
theorem Clean.lines_script (h : Clean preserved disabled) :
    (latin1 (serviceRestoreScript preserved disabled)).splitOn '\n' = scriptLines preserved disabled := by
  have hchar : ∀ l ∈ scriptLines preserved disabled, ∀ c ∈ l, c.toNat < 128 ∧ c ≠ '\n' := by
    intro l hl c hc
    simpa [HwTest.isScriptChar] using h.isScriptChar hl hc
  have hascii : ∀ ls : List Text, (∀ l ∈ ls, ∀ c ∈ l, c.toNat < 128 ∧ c ≠ '\n') → ∀ c ∈ ['\n'].intercalate ls, c.toNat < 128 := by
    intro ls hls c hc
    induction ls with
    | nil => cases hc
    | cons l ls ih =>
      rcases ls with _ | ⟨l', ls⟩
      · exact (hls l List.mem_cons_self c (by simpa using hc)).1
      · rw [List.intercalate_cons_cons, List.mem_append, List.mem_append] at hc
        rcases hc with (hc | hc) | hc
        · exact (hls l List.mem_cons_self c hc).1
        · rw [List.mem_singleton.mp hc]
          decide
        · exact ih (fun l hl => hls l (List.mem_cons_of_mem _ hl)) hc
  change (latin1 (encode (['\n'].intercalate (scriptLines preserved disabled)))).splitOn '\n' = _
  rw [latin1_encode (hascii _ hchar)]
  exact List.splitOn_intercalate '\n' (fun l hl hm => (hchar l hl _ hm).2 rfl) (by simp [scriptLines])

theorem flatMap_filterMap_names {α : Type} {l : List α} {f : α → List Text} {g : Text → Option Text} {k : α → Text} (h : ∀ a ∈ l, (f a).filterMap g = [k a]) :
    (l.flatMap f).filterMap g = l.map k := by
  induction l with
  | nil => rfl
  | cons a l ih =>
    rw [List.flatMap_cons, List.filterMap_append, h a List.mem_cons_self, ih fun b hb => h b (List.mem_cons_of_mem _ hb)]
    rfl

theorem flatMap_filterMap_nil {α : Type} {l : List α} {f : α → List Text} {g : Text → Option Text} (h : ∀ a ∈ l, (f a).filterMap g = []) :
    (l.flatMap f).filterMap g = [] := by
  induction l with
  | nil => rfl
  | cons a l ih => rw [List.flatMap_cons, List.filterMap_append, h a List.mem_cons_self, ih fun b hb => h b (List.mem_cons_of_mem _ hb)]; rfl

theorem Clean.findServices_disable (h : Clean preserved disabled) :
    findServices "  " " disable" (serviceRestoreScript preserved disabled) = sortTexts disabled := by
  have hdis : ((sortTexts disabled).flatMap disableLines).filterMap (matchRcCommon "  ".toList " disable".toList) = (sortTexts disabled).map fun x => x :=
    flatMap_filterMap_names fun x hx => matchRcCommon_disable (h.disabled x ((List.mem_insertionSort _).mp hx))
  have hen : ((sortServices preserved).flatMap enableLines).filterMap (matchRcCommon "  ".toList " disable".toList) = [] :=
    flatMap_filterMap_nil fun e _ => matchRcCommon_enable_disable
  unfold findServices
  rw [h.lines_script, scriptLines, List.filterMap_append, List.filterMap_append, List.filterMap_append, hdis, hen,
    List.filterMap_cons_none rfl, List.filterMap_cons_none rfl, List.filterMap_nil, List.filterMap_cons_none rfl, List.filterMap_cons_none rfl, List.filterMap_nil]
  simp

theorem Clean.findServices_enable (h : Clean preserved disabled) :
    findServices "" " enable" (serviceRestoreScript preserved disabled) = (sortServices preserved).map Prod.fst := by
  have hdis : ((sortTexts disabled).flatMap disableLines).filterMap (matchRcCommon "".toList " enable".toList) = [] :=
    flatMap_filterMap_nil fun x _ => matchRcCommon_disable_enable
  have hen : ((sortServices preserved).flatMap enableLines).filterMap (matchRcCommon "".toList " enable".toList) = (sortServices preserved).map Prod.fst :=
    flatMap_filterMap_names fun e he => matchRcCommon_enable (h.names e ((List.mem_insertionSort _).mp he))
  unfold findServices
  rw [h.lines_script, scriptLines, List.filterMap_append, List.filterMap_append, List.filterMap_append, hdis, hen,
    List.filterMap_cons_none rfl, List.filterMap_cons_none rfl, List.filterMap_nil, List.filterMap_cons_none rfl, List.filterMap_cons_none rfl, List.filterMap_nil]
  simp

end

/-! ### Migrated archives -/

section
variable {sha256 : Bytes → Bytes} {enabled : List Text} {members out body : List Member} {mig : Migration}

theorem Outcome.names_nodup (h : Outcome sha256 enabled members out mig body) : (body.map Member.name).Nodup := by
  have hnames : ∀ {l l' : List Member}, List.Forall₂ Migrated l l' → l'.map Member.name = l.map fun m => normalise m.name := by
    intro l l' hl
    induction hl with
    | nil => rfl
    | cons hm _ ih => rw [List.map_cons, List.map_cons, ih, hm.name]
  rw [hnames h.kept]
  exact h.distinct.sublist (List.filter_sublist.map _)

theorem Outcome.script_not_mem (h : Outcome sha256 enabled members out mig body) {m : Member} (hm : m ∈ body) : m.name ≠ scriptName := fun hn => by
  have := (h.safe m hm).kept
  rw [hn, isDropped_scriptName] at this
  cases this

/-- A name selects its member. -/
theorem Outcome.getMember (h : Outcome sha256 enabled members out mig body) {m : Member} (hm : m ∈ body) : getMember out m.name = .ok m := by
  have hfilter : out.filter (fun x => x.name = m.name) = [m] := by
    rw [h.out, List.filter_append, filter_key h.names_nodup hm]
    have hnil : (scriptMembers mig.enabledCustomServices mig.disabledServices).filter (fun x => x.name = m.name) = [] := by
      refine List.filter_eq_nil_iff.mpr fun x hx => ?_
      unfold scriptMembers at hx
      split at hx
      · cases hx
      · rw [List.mem_singleton.mp hx]
        simpa using fun he => h.script_not_mem hm he.symm
    rw [hnil]
    rfl
  unfold HwTest.getMember
  rw [hfilter]
  rfl

theorem Outcome.clean (h : Outcome sha256 enabled members out mig body) : Clean mig.enabledCustomServices mig.disabledServices := by
  refine ⟨?_, ?_, ?_⟩
  · rintro ⟨x, d⟩ he
    obtain ⟨-, m, hm, hn, -⟩ := (h.mem_preserved x d).mp he
    have hs := ((h.safe m hm).service (startsWith_iff.mpr ⟨x, hn⟩)).1
    rw [hn, List.drop_left] at hs
    exact hs
  · rintro ⟨x, d⟩ he c hc
    obtain ⟨-, m, -, -, rfl⟩ := (h.mem_preserved x d).mp he
    exact isScriptChar_hexdigest hc
  · intro x hx
    obtain ⟨m, -, -, t, -, line, -, hl⟩ := (h.disabled x).mp hx
    exact isService_of_matchDisable hl

theorem preserved_nodup {l : List Member} (h : (l.map Member.name).Nodup) : ((l.flatMap (preservedOf sha256 enabled)).map Prod.fst).Nodup := by
  induction l with
  | nil => exact List.nodup_nil
  | cons m l ih =>
    rw [List.map_cons, List.nodup_cons] at h
    rw [List.flatMap_cons, List.map_append, List.nodup_append]
    refine ⟨?_, ih h.2, ?_⟩
    · unfold preservedOf
      split <;> simp
    · rintro x hx y hy rfl
      have hkey : ∀ {m : Member}, x ∈ (preservedOf sha256 enabled m).map Prod.fst → m.name = initDir ++ x := by
        intro m hx
        unfold preservedOf at hx
        split at hx
        · rename_i hc
          obtain ⟨r, hr⟩ := startsWith_iff.mp hc.1
          have : x = m.name.drop initDir.length := by simpa using hx
          rw [this, hr, List.drop_left]
        · cases hx
      obtain ⟨e, he, rfl⟩ := List.mem_map.mp hy
      obtain ⟨m', hm', he'⟩ := List.mem_flatMap.mp he
      have h1 := hkey hx
      have h2 : m'.name = initDir ++ e.1 := hkey (List.mem_map.mpr ⟨e, he', rfl⟩)
      exact h.1 (List.mem_map.mpr ⟨m', hm', h2.trans h1.symm⟩)

/-- The hashes of the scripts in the archive are those of the report. -/
theorem Outcome.rehash_foldlM (h : Outcome sha256 enabled members out mig body) {l : List (Text × Text)}
    (acc : List (Text × Text)) (hl : ∀ e ∈ l, e ∈ mig.enabledCustomServices) (hn : ((acc ++ l).map Prod.fst).Nodup) :
    (l.map Prod.fst).foldlM (rehash sha256 out) acc = .ok (acc ++ l) := by
  induction l generalizing acc with
  | nil => simp
  | cons e l ih =>
    obtain ⟨x, d⟩ := e
    obtain ⟨-, m, hm, hname, hd⟩ := (h.mem_preserved x d).mp (hl (x, d) List.mem_cons_self)
    have hfile := ((h.safe m hm).service (startsWith_iff.mpr ⟨x, hname⟩)).2
    have hget : HwTest.getMember out (initDir ++ x) = .ok m := by
      rw [← hname]
      exact h.getMember hm
    have hnew : x ∉ acc.map Prod.fst := by
      rw [List.map_append, List.nodup_append] at hn
      exact fun hx => hn.2.2 x hx x (by simp) rfl
    have hstep : rehash sha256 out acc x = .ok (acc ++ [(x, d)]) := by
      unfold rehash
      rw [hget, ok_bind, stopIf, if_neg (by simp [hfile]), ok_bind, dictSet, if_neg hnew, hd]
      rfl
    rw [List.map_cons, List.foldlM_cons, hstep, ok_bind, ih _ (fun e he => hl e (List.mem_cons_of_mem _ he)) (by simpa using hn)]
    simp

instance : Std.Total fun a b : Text × Text => toLex a ≤ toLex b := ⟨fun a b => le_total (toLex a) (toLex b)⟩
instance : IsTrans (Text × Text) fun a b => toLex a ≤ toLex b := ⟨fun _ _ _ h h' => le_trans h h'⟩

omit sha256 enabled in
theorem sortServices_sortServices (l : List (Text × Text)) : sortServices (sortServices l) = sortServices l :=
  (List.pairwise_insertionSort _ l).insertionSort_eq

theorem Outcome.preserved_keys (h : Outcome sha256 enabled members out mig body) : (mig.enabledCustomServices.map Prod.fst).Nodup := by
  rw [h.preserved]
  exact preserved_nodup h.names_nodup

/-- The services that the script names are those of the report. -/
theorem Outcome.readServices (h : Outcome sha256 enabled members out mig body) :
    ∃ preserved, readServices sha256 out = .ok (preserved, mig.disabledServices) ∧ preserved.Perm mig.enabledCustomServices := by
  have hbody : ∀ m ∈ body, m.name ≠ scriptName := fun m hm => h.script_not_mem hm
  by_cases hnone : mig.enabledCustomServices = [] ∧ mig.disabledServices = []
  · have hout : out = body := by rw [h.out, scriptMembers, if_pos hnone, List.append_nil]
    refine ⟨[], ?_, by rw [hnone.1]⟩
    unfold HwTest.readServices
    rw [if_pos (by rw [hout, List.all_eq_true]; simpa using hbody), hnone.2]
    rfl
  · have hout : out = body ++ [scriptMember mig.enabledCustomServices mig.disabledServices] := by rw [h.out, scriptMembers, if_neg hnone]
    have hscript : readMember out scriptName = .ok (serviceRestoreScript mig.enabledCustomServices mig.disabledServices) := by
      have hfilter : out.filter (fun x => x.name = scriptName) = [scriptMember mig.enabledCustomServices mig.disabledServices] := by
        rw [hout, List.filter_append, List.filter_eq_nil_iff.mpr fun m hm => by simpa using hbody m hm]
        rfl
      unfold readMember HwTest.getMember
      rw [hfilter]
      rfl
    refine ⟨sortServices mig.enabledCustomServices, ?_, List.perm_insertionSort _ _⟩
    have hfold := h.rehash_foldlM (l := sortServices mig.enabledCustomServices) [] (fun e he => (List.mem_insertionSort _).mp he) (by
      rw [List.nil_append]
      exact ((List.perm_insertionSort _ _).map Prod.fst).nodup_iff.mpr h.preserved_keys)
    have hsame : serviceRestoreScript (sortServices mig.enabledCustomServices) mig.disabledServices =
        serviceRestoreScript mig.enabledCustomServices mig.disabledServices := by
      unfold serviceRestoreScript
      rw [sortServices_sortServices]
    have hapart : ¬(sortServices mig.enabledCustomServices).any (fun e => e.1 ∈ mig.disabledServices) = true := by
      rw [List.any_eq_true]
      rintro ⟨⟨x, d⟩, he, hx⟩
      exact h.apart x ((h.mem_preserved x d).mp ((List.mem_insertionSort _).mp he)).1 (by simpa using hx)
    unfold HwTest.readServices
    rw [if_neg (by rw [hout]; simp [scriptMember]), hscript, ok_bind]
    dsimp only
    rw [h.clean.findServices_disable, h.clean.findServices_enable, h.sorted, hfold, ok_bind, List.nil_append, hsame, stopIf,
      if_neg (fun hc => hc.elim (fun h0 => h0 rfl) hapart)]
    rfl

/-- The wireless configuration of a migrated archive, if it has one. -/
theorem Outcome.wireless (h : Outcome sha256 enabled members out mig body) :
    (∃ w ∈ out, w.name = wirelessName ∧ readMember out wirelessName = .ok w.data ∧ migrateWireless w.data = .ok w.data) ∨
    ((∀ m ∈ out, m.name ≠ wirelessName) ∧ readMember out wirelessName = .error (.keyError wirelessName)) := by
  by_cases hw : ∃ w ∈ out, w.name = wirelessName
  · left
    obtain ⟨w, hm, hn⟩ := hw
    have hb : w ∈ body := by
      rw [h.out] at hm
      rcases List.mem_append.mp hm with hm | hm
      · exact hm
      · unfold scriptMembers at hm
        split at hm
        · cases hm
        · rw [List.mem_singleton.mp hm] at hn
          exact absurd hn (show scriptName ≠ wirelessName by decide)
    obtain ⟨hfile, data, hdata⟩ := (h.safe w hb).wireless hn
    refine ⟨w, hm, hn, ?_, (migrateWireless_migrated hdata).1⟩
    unfold readMember
    rw [← hn, h.getMember hb, ok_bind, extractfile, if_pos hfile]
  · right
    have hno : ∀ m ∈ out, m.name ≠ wirelessName := fun m hm hn => hw ⟨m, hm, hn⟩
    refine ⟨hno, ?_⟩
    unfold readMember HwTest.getMember
    rw [List.filter_eq_nil_iff.mpr fun m hm => by simpa using hno m hm]
    rfl

end

end RainWrt.HwTest
