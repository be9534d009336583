import RainWrt.Theorems.HwTest.Wireless

/-! A migrated wireless configuration is read as the same sections and options, but for the one path: the lines before
    and behind it are read as they were, and the section that it stands in has no other. -/

namespace RainWrt.HwTest

/-! ### The grammar -/

/-- An `option` or `list`, as it is read. -/
structure Setting where
  isOption : Bool
  name : Bytes
  value : Bytes

/-- A line, as it is read. -/
inductive Item where
  | idle
  | header (kind : Bytes) (name : Option Bytes)
  | setting (t : Setting)

structure Section where
  kind : Bytes
  name : Option Bytes
  settings : List Setting

def itemOf (line : Bytes) : Option Item :=
  if isIdle line then some .idle
  else
    match matchHeader line with
    | some (kind, name) => some (.header (unquote kind) (name.map unquote))
    | none => (matchOption line).map fun o => .setting ⟨o.isOption, unquote o.name, unquote o.value⟩

/-- The settings before the first section, and the sections. -/
def gather : List Item → List Setting × List Section
  | [] => ([], [])
  | .idle :: items => gather items
  | .header kind name :: items => ([], ⟨kind, name, (gather items).1⟩ :: (gather items).2)
  | .setting t :: items => (t :: (gather items).1, (gather items).2)

/-- The sections of a configuration of the grammar. -/
def parse (data : Bytes) : Option (List Section) :=
  ((splitLinesKeep data).mapM itemOf).bind fun items => if (gather items).1.isEmpty then some (gather items).2 else none

/-- The path of a section, if it is a radio. -/
def Setting.IsPath (kind : Bytes) (t : Setting) : Prop := kind = wifiDevice ∧ t.name = bytes "path"

/-! ### Lines -/

/-- What a line does to the section and to its path. -/
inductive ScanReads (s s' : Scan) : Item → Prop where
  | idle (hkind : s'.kind = s.kind) (hseen : s'.pathSeen = s.pathSeen) : ScanReads s s' .idle
  | header {kind : Bytes} {name : Option Bytes} (hkind : s'.kind = some kind) (hseen : s'.pathSeen = false) : ScanReads s s' (.header kind name)
  | setting {kind : Bytes} {t : Setting} (hkind : s.kind = some kind) (hkind' : s'.kind = some kind)
      (hpath : t.IsPath kind → s.pathSeen = false ∧ s'.pathSeen = true) (hother : ¬t.IsPath kind → s'.pathSeen = s.pathSeen) : ScanReads s s' (.setting t)

section
variable {s s' : Scan} {line : Bytes}

theorem scanHeader_reads {kind : Bytes} {name : Option Bytes} (h : scanHeader s kind name = .ok s') :
    s'.kind = some (unquote kind) ∧ s'.pathSeen = false := by
  unfold scanHeader at h
  dsimp only at h
  split at h
  · cases h
    exact ⟨rfl, rfl⟩
  · split at h
    · cases h
    · cases h
      exact ⟨rfl, rfl⟩

theorem scanOption_reads {kind : Bytes} {o : OptionLine} (hk : s.kind = some kind) (h : scanOption s kind o = .ok s') :
    ScanReads s s' (.setting ⟨o.isOption, unquote o.name, unquote o.value⟩) := by
  have hkind' : s'.kind = some kind := (scanOption_cases h).1.trans hk
  unfold scanOption at h
  split at h
  · rename_i hp
    split at h
    · cases h
    · rename_i hs
      have hseen : s.pathSeen = false := by simpa using fun he => hs (.inl he)
      have hseen' : s'.pathSeen = true := by
        dsimp only at h
        split at h
        · cases h
          rfl
        · cases h
          rfl
      exact .setting hk hkind' (fun _ => ⟨hseen, hseen'⟩) fun hno => absurd hp hno
  · rename_i hp
    cases h
    exact .setting hk hkind' (fun hpath => absurd hpath hp) fun _ => rfl

theorem scanLine_reads (h : scanLine s line = .ok s') : ∃ item, itemOf line = some item ∧ ScanReads s s' item := by
  unfold scanLine at h
  unfold itemOf
  by_cases hi : isIdle line = true
  · rw [if_pos hi] at h
    cases h
    exact ⟨.idle, if_pos hi, .idle rfl rfl⟩
  · rw [if_neg hi] at h ⊢
    cases hh : matchHeader line with
    | some header =>
      obtain ⟨kind, name⟩ := header
      rw [hh] at h
      dsimp only at h
      cases hs : scanHeader s kind name with
      | error e =>
        rw [hs] at h
        nomatch h
      | ok s₁ =>
        rw [hs] at h
        cases h
        obtain ⟨hkind, hseen⟩ := scanHeader_reads hs
        exact ⟨_, rfl, .header hkind hseen⟩
    | none =>
      rw [hh] at h
      dsimp only at h
      cases ho : matchOption line with
      | none =>
        rw [ho] at h
        nomatch h
      | some o =>
        cases hk : s.kind with
        | none =>
          rw [ho, hk] at h
          nomatch h
        | some kind =>
          rw [ho, hk] at h
          dsimp only at h
          cases hs : scanOption s kind o with
          | error e =>
            rw [hs] at h
            nomatch h
          | ok s₁ =>
            rw [hs] at h
            cases h
            cases scanOption_reads hk hs with
            | setting hkind hkind' hpath hother => exact ⟨_, rfl, .setting hkind hkind' hpath hother⟩

end

/-! ### Runs -/

/-- What the lines so far are read as, whatever follows: a section is open, and has no path if none was seen. -/
def Opened (s : Scan) (a : List Item) : Prop :=
  match s.kind with
  | none => ∀ b, gather (a ++ b) = gather b
  | some kind => ∃ before name settings, (∀ t ∈ settings, s.pathSeen = false → ¬t.IsPath kind) ∧
      ∀ b, gather (a ++ b) = ([], before ++ ⟨kind, name, settings ++ (gather b).1⟩ :: (gather b).2)

section
variable {s s' : Scan} {a : List Item} {lines : List Bytes}

theorem Opened.read {item : Item} (h : Opened s a) (hr : ScanReads s s' item) : Opened s' (a ++ [item]) := by
  unfold Opened at h ⊢
  cases hr with
  | idle hkind hseen =>
    rw [hkind]
    cases hk : s.kind with
    | none =>
      rw [hk] at h
      intro b
      rw [List.append_assoc, h]
      rfl
    | some kind =>
      rw [hk] at h
      obtain ⟨before, name, settings, hpath, heq⟩ := h
      refine ⟨before, name, settings, fun t ht hs => hpath t ht (hseen ▸ hs), fun b => ?_⟩
      rw [List.append_assoc, heq]
      rfl
  | @header kind name hkind hseen =>
    rw [hkind]
    cases hk : s.kind with
    | none =>
      rw [hk] at h
      refine ⟨[], name, [], fun t ht => (nomatch ht), fun b => ?_⟩
      rw [List.append_assoc, h]
      rfl
    | some kind₀ =>
      rw [hk] at h
      obtain ⟨before, name₀, settings, -, heq⟩ := h
      refine ⟨before ++ [⟨kind₀, name₀, settings⟩], name, [], fun t ht => (nomatch ht), fun b => ?_⟩
      rw [List.append_assoc, heq]
      simp [gather]
  | @setting kind t hkind hkind' hpath hother =>
    rw [hkind] at h
    rw [hkind']
    obtain ⟨before, name, settings, hnone, heq⟩ := h
    refine ⟨before, name, settings ++ [t], fun u hu hs => ?_, fun b => ?_⟩
    · -- a path would have been seen
      have ht : ¬t.IsPath kind := by
        intro hp
        rw [(hpath hp).2] at hs
        nomatch hs
      rw [List.mem_append, List.mem_singleton] at hu
      rcases hu with hu | rfl
      · exact hnone u hu (hother ht ▸ hs)
      · exact ht
    · rw [List.append_assoc, heq]
      simp [gather]

theorem items_cons {line : Bytes} {item : Item} {items : List Item} (h : itemOf line = some item) (hs : lines.mapM itemOf = some items) :
    (line :: lines).mapM itemOf = some (item :: items) := by
  rw [List.mapM_cons, h, hs]
  rfl

/-- Lines that are scanned are of the grammar. -/
theorem scan_items (h : lines.foldlM scanLine s = .ok s') : ∃ items, lines.mapM itemOf = some items := by
  induction lines generalizing s with
  | nil => exact ⟨[], rfl⟩
  | cons line lines ih =>
    obtain ⟨s₁, h1, h2⟩ := scan_cons.mp h
    obtain ⟨item, hitem, -⟩ := scanLine_reads h1
    obtain ⟨items, hitems⟩ := ih h2
    exact ⟨_, items_cons hitem hitems⟩

theorem scan_opened (h : lines.foldlM scanLine s = .ok s') (ho : Opened s a) : ∃ items, lines.mapM itemOf = some items ∧ Opened s' (a ++ items) := by
  induction lines generalizing s a with
  | nil =>
    cases h
    exact ⟨[], rfl, by simpa using ho⟩
  | cons line lines ih =>
    obtain ⟨s₁, h1, h2⟩ := scan_cons.mp h
    obtain ⟨item, hitem, hr⟩ := scanLine_reads h1
    obtain ⟨items, hitems, ho'⟩ := ih h2 (ho.read hr)
    exact ⟨_, items_cons hitem hitems, by simpa using ho'⟩

/-- Behind a path, its section has no other. -/
theorem scan_rest {kind : Bytes} (h : lines.foldlM scanLine s = .ok s') (hk : s.kind = some kind) (hseen : s.pathSeen = true) :
    ∃ items, lines.mapM itemOf = some items ∧ ∀ t ∈ (gather items).1, ¬t.IsPath kind := by
  induction lines generalizing s with
  | nil => exact ⟨[], rfl, fun t ht => (nomatch ht)⟩
  | cons line lines ih =>
    obtain ⟨s₁, h1, h2⟩ := scan_cons.mp h
    obtain ⟨item, hitem, hr⟩ := scanLine_reads h1
    cases hr with
    | idle hkind hseen₁ =>
      obtain ⟨items, hitems, hno⟩ := ih h2 (hkind.trans hk) (hseen₁.trans hseen)
      exact ⟨_, items_cons hitem hitems, hno⟩
    | header hkind hseen₁ =>
      -- the next section starts
      obtain ⟨items, hitems⟩ := scan_items h2
      exact ⟨_, items_cons hitem hitems, fun t ht => (nomatch ht)⟩
    | @setting kind₀ t hkind hkind' hpath hother =>
      obtain rfl := Option.some.inj (hk.symm.trans hkind)
      have ht : ¬t.IsPath kind := by
        intro hp
        rw [(hpath hp).1] at hseen
        nomatch hseen
      obtain ⟨items, hitems, hno⟩ := ih h2 hkind' ((hother ht).trans hseen)
      refine ⟨_, items_cons hitem hitems, fun u hu => ?_⟩
      rcases List.mem_cons.mp hu with rfl | hu
      · exact ht
      · exact hno u hu

end

/-! ### The migration -/

/-- An option, and where its value stands. -/
structure Place where
  pre : List Bytes
  lead : Bytes
  trail : Bytes
  post : List Bytes
  before : List Section
  name : Option Bytes
  settings : List Setting
  settings' : List Setting
  after : List Section

/-- With this value, these are the lines, and the option that the value is of is the one path of a radio. -/
structure Place.Holds (p : Place) (data value : Bytes) : Prop where
  split : data = (p.pre.flatten ++ p.lead) ++ value ++ (p.trail ++ p.post.flatten)
  lines : splitLinesKeep data = p.pre ++ (p.lead ++ value ++ p.trail) :: p.post
  option : itemOf (p.lead ++ value ++ p.trail) = some (.setting ⟨true, bytes "path", value⟩)
  sections : parse data = some (p.before ++ ⟨wifiDevice, p.name, p.settings ++ ⟨true, bytes "path", value⟩ :: p.settings'⟩ :: p.after)
  single : ∀ t ∈ p.settings ++ p.settings', t.name ≠ bytes "path"

section
variable {data data' : Bytes}

theorem itemOf_radioLine {line path : Bytes} (h : RadioLine line path) : itemOf line = some (.setting ⟨true, bytes "path", path⟩) := by
  obtain ⟨o, hm, hopt, hname, hvalue⟩ := h
  obtain ⟨hi, hh⟩ := matchOption_excludes hm
  rw [itemOf, hi, if_neg (by decide), hh, hm, ← hopt, ← hname, ← hvalue]
  rfl

theorem Edit.place (e : Edit data data') : ∃ p : Place, p.Holds data oldWifiPath ∧ p.Holds data' newWifiPath := by
  have hinit : Opened {} [] := fun b => rfl
  obtain ⟨items, hitems, ho⟩ := scan_opened e.scanned hinit
  unfold Opened at ho
  rw [e.kind, List.nil_append] at ho
  obtain ⟨before, name, settings, hnone, heq⟩ := ho
  obtain ⟨s, hrest, -⟩ := e.rest 0 ⟨[], 0, 0⟩
  obtain ⟨items', hitems', hnone'⟩ := scan_rest hrest e.kind rfl
  have hholds : ∀ d value, splitLinesKeep d = e.pre ++ (e.lead ++ value ++ e.trail) :: e.post → RadioLine (e.lead ++ value ++ e.trail) value →
      Place.Holds ⟨e.pre, e.lead, e.trail, e.post, before, name, settings, (gather items').1, (gather items').2⟩ d value := by
    intro d value hlines hradio
    have hitem := itemOf_radioLine hradio
    refine ⟨?_, hlines, hitem, ?_, ?_⟩
    · rw [← flatten_splitLines d, hlines]
      simp
    · have hall : (splitLinesKeep d).mapM itemOf = some (items ++ .setting ⟨true, bytes "path", value⟩ :: items') := by
        rw [hlines, List.mapM_append, hitems, items_cons hitem hitems']
        rfl
      rw [parse, hall, Option.bind_some, heq]
      rfl
    · intro t ht hname
      rcases List.mem_append.mp ht with ht | ht
      · exact hnone t ht e.pathSeen ⟨rfl, hname⟩
      · exact hnone' t ht ⟨rfl, hname⟩
  exact ⟨_, hholds data _ e.lines e.radio, hholds data' _ e.lines' e.radio'⟩

/-- The paths of the radios are among those of the lines. -/
theorem mem_wifiPaths {lines : List Bytes} {items : List Item} (kind : Option Bytes) (h : lines.mapM itemOf = some items) :
    (kind = some wifiDevice → ∀ t ∈ (gather items).1, t.name = bytes "path" → t.value ∈ wifiPaths kind lines) ∧
      ∀ c ∈ (gather items).2, c.kind = wifiDevice → ∀ t ∈ c.settings, t.name = bytes "path" → t.value ∈ wifiPaths kind lines := by
  induction lines generalizing items kind with
  | nil =>
    cases h
    exact ⟨fun _ t ht => absurd ht List.not_mem_nil, fun c hc => absurd hc List.not_mem_nil⟩
  | cons line lines ih =>
    rw [List.mapM_cons] at h
    obtain ⟨item, hitem, h⟩ := Option.bind_eq_some_iff.mp h
    obtain ⟨rest, hrest, h⟩ := Option.bind_eq_some_iff.mp h
    obtain rfl := Option.some.inj h
    have hmem : ∀ {v : Bytes}, v ∈ wifiPaths (kindAfter kind line) lines → v ∈ wifiPaths kind (line :: lines) :=
      fun hv => List.mem_append_right _ hv
    obtain ⟨hfirst, hall⟩ := ih (kindAfter kind line) hrest
    unfold itemOf at hitem
    split at hitem
    · rename_i hi
      obtain rfl := Option.some.inj hitem
      have hk : kindAfter kind line = kind := by rw [kindAfter, if_pos hi]
      exact ⟨fun hkind t ht hn => hmem (hfirst (hk.trans hkind) t ht hn), fun c hc hc' t ht hn => hmem (hall c hc hc' t ht hn)⟩
    · rename_i hi
      split at hitem
      · rename_i k name hh
        obtain rfl := Option.some.inj hitem
        have hk : kindAfter kind line = some (unquote k) := by
          rw [kindAfter, if_neg hi, hh]
          rfl
        refine ⟨fun _ t ht => absurd ht List.not_mem_nil, fun c hc hc' t ht hn => hmem ?_⟩
        rcases List.mem_cons.mp hc with rfl | hc
        · exact hfirst (hk.trans (congrArg some hc')) t ht hn
        · exact hall c hc hc' t ht hn
      · rename_i hh
        obtain ⟨o, ho, rfl⟩ := Option.map_eq_some_iff.mp hitem
        have hk : kindAfter kind line = kind := by
          rw [kindAfter, if_neg hi, hh]
          rfl
        refine ⟨fun hkind t ht hn => ?_, fun c hc hc' t ht hn => hmem (hall c hc hc' t ht hn)⟩
        rcases List.mem_cons.mp ht with rfl | ht
        · refine List.mem_append_left _ ?_
          rw [pathOf, ho, hkind]
          simp [show unquote o.name = bytes "path" from hn]
        · exact hmem (hfirst (hk.trans hkind) t ht hn)

/-- What is left to migrate in no section is read as sections. -/
theorem Settled.parse (h : Settled data) : ∃ sections, parse data = some sections ∧
    ∀ c ∈ sections, c.kind = wifiDevice → ∀ t ∈ c.settings, t.name = bytes "path" → t.value ≠ oldWifiPath := by
  have hno := not_mem_of_settled h
  obtain ⟨s, hs, -⟩ := h
  have hinit : Opened {} [] := fun b => rfl
  obtain ⟨items, hitems, ho⟩ := scan_opened hs hinit
  have hfirst : (gather items).1 = [] := by
    unfold Opened at ho
    rw [List.nil_append] at ho
    split at ho
    · have hnil := ho []
      rw [List.append_nil] at hnil
      rw [hnil]
      rfl
    · obtain ⟨before, name, settings, -, heq⟩ := ho
      have hnil := heq []
      rw [List.append_nil] at hnil
      rw [hnil]
  refine ⟨(gather items).2, ?_, fun c hc hc' t ht hn hold => hno ?_⟩
  · rw [HwTest.parse, hitems, Option.bind_some, hfirst]
    rfl
  · rw [← hold]
    exact (mem_wifiPaths none hitems).2 c hc hc' t ht hn

/-- A migration changes nothing but the old path of one radio, and there is nothing left to migrate. -/
theorem migrateWireless_minimal (h : migrateWireless data = .ok data') :
    (data' = data ∨ ∃ p : Place, p.Holds data oldWifiPath ∧ p.Holds data' newWifiPath) ∧
      (∃ sections, parse data' = some sections ∧ ∀ c ∈ sections, c.kind = wifiDevice → ∀ t ∈ c.settings, t.name = bytes "path" → t.value ≠ oldWifiPath) ∧
      migrateWireless data' = .ok data' := by
  rcases migrateWireless_cases h with ⟨rfl, hs⟩ | he
  · exact ⟨.inl rfl, hs.parse, h⟩
  · obtain ⟨e⟩ := he
    exact ⟨.inr e.place, e.settled.parse, migrateWireless_of_settled e.settled⟩

end

theorem migrateWireless_minimal_radio :
    ∃ p : Place, p.Holds (bytes "config wifi-device 'radio1'\n\toption path \"platform/soc@0/soc@0:wifi1@c000000\" # QCN6122\r\n\toption band '5g'") oldWifiPath ∧
      p.Holds (bytes "config wifi-device 'radio1'\n\toption path \"platform/soc@0/b00a040.wifi\" # QCN6122\r\n\toption band '5g'") newWifiPath := by
  -- the literals are taken apart before anything is evaluated
  rw [bytes_ofList, bytes_ofList]
  refine (migrateWireless_minimal ?_).1.resolve_left ?_
  · decide
  · decide

end RainWrt.HwTest
