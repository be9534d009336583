import RainWrt.Theorems.Tffs.Bounds

/-! A lookup in a partition of well-formed segments finds the newest revision of the entry, in whatever order its segments
    are stored. -/

namespace RainWrt.Tffs

variable {F : Flash} {s : State} {id : UInt32} {k : Nat} {e : Segment} {b : Bool}

/-! ### What a partition holds -/

/-- Sector `j` marks the end of the entries of its block. -/
def Ends (F : Flash) (s : State) (j : Nat) : Prop := s.good j = true ∧ ∃ readbuf oobbuf, F.page j = some readbuf ∧ F.oob j = some oobbuf ∧
  inconsistent F readbuf oobbuf = false ∧ F.readUint32 readbuf 0 = idEnd

/-- The block of sector `k` has not ended before it. -/
def Open (F : Flash) (s : State) (k : Nat) : Prop := ∀ j < k, Ends F s j → ∃ m, j < m ∧ m < k ∧ F.startsBlock m = true

/-- Good sector `k` holds segment `e` of the entry. -/
structure Held (F : Flash) (id : UInt32) (s : State) (k : Nat) (e : Segment) : Prop where
  lt : k < F.numSectors
  opened : Open F s k
  good : s.good k = true
  segment : ∃ readbuf oobbuf, F.page k = some readbuf ∧ F.oob k = some oobbuf ∧ examine F id readbuf oobbuf = .segment e

/-- The good sectors can be read, and the copy in the OOB area of one that marks an end is right. -/
def Sound (F : Flash) (s : State) : Prop := ∀ k < F.numSectors, s.good k = true → ∃ readbuf oobbuf, F.page k = some readbuf ∧
  F.oob k = some oobbuf ∧ (F.readUint32 readbuf 0 = idEnd → inconsistent F readbuf oobbuf = false)

/-! ### What a lookup sees -/

theorem open_succ : Open F s (k + 1) ↔ ¬Ends F s k ∧ (F.startsBlock k = true ∨ Open F s k) := by
  constructor
  · intro h
    refine ⟨fun hend => ?_, or_iff_not_imp_left.mpr fun hstart j hj hend => ?_⟩
    · obtain ⟨m, hkm, hmk, -⟩ := h k (Nat.lt_succ_self k) hend
      omega
    · obtain ⟨m, hjm, hmk, hm⟩ := h j (Nat.lt_succ_of_lt hj) hend
      have hne : m ≠ k := fun heq => hstart (heq ▸ hm)
      exact ⟨m, hjm, by omega, hm⟩
  · rintro ⟨hend, h⟩ j hj hj'
    have hlt : j < k := lt_of_le_of_ne (Nat.le_of_lt_succ hj) fun heq => hend (heq ▸ hj')
    rcases h with hstart | h
    · exact ⟨k, hlt, Nat.lt_succ_self k, hstart⟩
    · obtain ⟨m, hjm, hmk, hm⟩ := h j hlt hj'
      exact ⟨m, hjm, Nat.lt_succ_of_lt hmk, hm⟩

theorem examine_blockEnd {readbuf oobbuf : Bytes} :
    examine F id readbuf oobbuf = .blockEnd ↔ inconsistent F readbuf oobbuf = false ∧ F.readUint32 readbuf 0 = idEnd := by
  rw [examine]
  split_ifs <;> simp_all

theorem readId_of_segment {readbuf oobbuf : Bytes} (h : examine F id readbuf oobbuf = .segment e) :
    F.readUint32 readbuf 0 ≠ idEnd ∧ F.readUint32 readbuf 0 = id := by
  rw [examine] at h
  split_ifs at h
  simp_all

/-- What a round makes of a sector does not depend on the ids that earlier lookups cached. -/
theorem look_sound (hs : Ready F s) (hF : Sound F s) (hk : k < F.numSectors) : ∃ found, look F id s k = some found ∧
    (found = .blockEnd ↔ Ends F s k) ∧ ∀ e, found = .segment e ↔ s.good k = true ∧
      ∃ readbuf oobbuf, F.page k = some readbuf ∧ F.oob k = some oobbuf ∧ examine F id readbuf oobbuf = .segment e := by
  obtain ⟨cached, hcached⟩ : ∃ c, s.sectorIds[k]? = some c := ⟨_, List.getElem?_eq_getElem (by rw [hs.sized.sectorIds]; exact hk)⟩
  rw [look]
  by_cases hgood : s.good k = true
  · obtain ⟨readbuf, oobbuf, hpage, hoob, hconsistent⟩ := hF k hk hgood
    have hends : Ends F s k ↔ inconsistent F readbuf oobbuf = false ∧ F.readUint32 readbuf 0 = idEnd := by
      simp [Ends, hgood, hpage, hoob]
    have hsegment : ∀ e, (s.good k = true ∧ ∃ readbuf oobbuf, F.page k = some readbuf ∧ F.oob k = some oobbuf ∧
        examine F id readbuf oobbuf = .segment e) ↔ examine F id readbuf oobbuf = .segment e := by
      simp [hgood, hpage, hoob]
    have hid : cached = 0 ∨ cached = F.readUint32 readbuf 0 := by
      rcases hs.cached k cached hcached with h0 | ⟨p, hp, hid⟩
      · exact .inl h0
      · rw [hpage] at hp
        exact .inr (Option.some.inj hp ▸ hid)
    simp only [hends, hsegment]
    simp only [if_pos hgood, hcached, hoob, hpage]
    split_ifs with hend hother
    · have heq : F.readUint32 readbuf 0 = idEnd := (hid.resolve_left hend.1).symm.trans hend.2
      refine ⟨.blockEnd, rfl, by simp [heq, hconsistent heq], fun e => ⟨fun h => (by cases h), fun h => ?_⟩⟩
      exact absurd heq (readId_of_segment h).1
    · have heq : cached = F.readUint32 readbuf 0 := hid.resolve_left hother.1
      refine ⟨.skip, rfl, ⟨fun h => (by cases h), fun h => ?_⟩, fun e => ⟨fun h => (by cases h), fun h => ?_⟩⟩
      · exact absurd ⟨hother.1, heq.trans h.2⟩ hend
      · exact absurd (heq.trans (readId_of_segment h).2) hother.2
    · exact ⟨_, rfl, examine_blockEnd, fun e => Iff.rfl⟩
  · refine ⟨.skip, if_neg hgood, ⟨fun h => (by cases h), fun h => absurd h.1 hgood⟩, fun e => ⟨fun h => (by cases h), fun h => absurd h.1 hgood⟩⟩

/-- A lookup sees exactly the segments that are held, and can read every sector it looks at. -/
theorem seen_range (hs : Ready F s) (hF : Sound F s) {a m : Nat} (ham : a + m ≤ F.numSectors) (hb : b = true ↔ ¬Open F s a) :
    readable F id s b (List.range' a m) = true ∧ ∀ e, e ∈ seen F id s b (List.range' a m) ↔ ∃ k, a ≤ k ∧ k < a + m ∧ Held F id s k e := by
  induction m generalizing a b with
  | zero =>
    refine ⟨by cases b <;> rfl, fun e => ⟨fun h => ?_, ?_⟩⟩
    · cases b <;> cases h
    · rintro ⟨k, hak, hka, -⟩
      omega
  | succ m ih =>
    have hshift : ∀ e, (∃ k, a ≤ k ∧ k < a + (m + 1) ∧ Held F id s k e) ↔
        Held F id s a e ∨ ∃ k, a + 1 ≤ k ∧ k < a + 1 + m ∧ Held F id s k e := by
      intro e
      constructor
      · rintro ⟨k, hak, hka, hk⟩
        rcases Nat.eq_or_lt_of_le hak with rfl | hlt
        · exact .inl hk
        · exact .inr ⟨k, hlt, by omega, hk⟩
      · rintro (h | ⟨k, hak, hka, hk⟩)
        · exact ⟨a, Nat.le_refl a, by omega, h⟩
        · exact ⟨k, by omega, by omega, hk⟩
    obtain ⟨found, hlook, hends, hsegment⟩ := @look_sound F s id a hs hF (by omega)
    have hnext : ∀ b', (b' = true ↔ ¬Open F s (a + 1)) → _ := fun b' => @ih b' (a + 1) (by omega)
    simp only [List.range'_succ, hshift]
    cases b with
    | true =>
      have hopen : ¬Open F s a := hb.mp rfl
      have hnot : ∀ e, ¬Held F id s a e := fun e h => hopen h.opened
      simp only [seen, readable, hnot, false_or]
      refine hnext _ ?_
      rw [open_succ]
      by_cases hstart : F.startsBlock a = true
      · have hgood := hs.starts a (by omega) hstart
        simp [hstart, Ends, hgood]
      · simp [hstart, hopen]
    | false =>
      have hopen : Open F s a := by simpa using hb
      have hheld : ∀ e, Held F id s a e ↔ found = .segment e := fun e =>
        ⟨fun h => (hsegment e).mpr ⟨h.good, h.segment⟩, fun h => ⟨by omega, hopen, ((hsegment e).mp h).1, ((hsegment e).mp h).2⟩⟩
      simp only [seen, readable, hlook, hheld]
      cases found with
      | skip =>
        have hend : ¬Ends F s a := fun h => by cases hends.mpr h
        simpa using hnext false (by simp [open_succ, hend, hopen])
      | blockEnd => simpa using hnext true (by simp [open_succ, hends.mp rfl])
      | segment d =>
        have hend : ¬Ends F s a := fun h => by cases hends.mpr h
        obtain ⟨hread, hseen⟩ := hnext false (by simp [open_succ, hend, hopen])
        refine ⟨hread, fun e => ?_⟩
        rw [List.mem_cons, hseen, Found.segment.injEq, eq_comm]

theorem mem_visible (hs : Ready F s) (hF : Sound F s) : e ∈ visible F id s ↔ ∃ k, Held F id s k e := by
  have hseen := (@seen_range F s id false hs hF 0 F.numSectors (by omega) (by simp [Open])).2 e
  rw [visible, List.range_eq_range', hseen]
  constructor
  · rintro ⟨k, -, -, hk⟩
    exact ⟨k, hk⟩
  · rintro ⟨k, hk⟩
    exact ⟨k, Nat.zero_le k, by simpa using hk.lt, hk⟩

theorem readable_visible (hs : Ready F s) (hF : Sound F s) : readable F id s false (List.range F.numSectors) = true := by
  rw [List.range_eq_range']
  exact (seen_range hs hF (by omega) (by simp [Open])).1

/-! ### Well-formed segments -/

/-- The segments of `id` are those of revisions that were written: the parts of a value, each of which links to the next one,
    or the mark of a cleared entry. Tables for the parts can be allocated. -/
structure Written (F : Flash) (id : UInt32) (s : State) (written : UInt32 → Option (List Bytes)) : Prop where
  cleared : ∀ k e, Held F id s k e → written e.rev = none → e.seg = segmentCleared
  part : ∀ k e parts, Held F id s k e → written e.rev = some parts → parts[e.seg.toNat]? = some e.val ∧
    e.next.toNat = if e.seg.toNat + 1 < parts.length then e.seg.toNat + 1 else 0
  small : ∀ rev parts, written rev = some parts → parts.length < 2 ^ 32 ∧ parts.length * sizeofSegment ≤ F.heap

section
variable {written : UInt32 → Option (List Bytes)} {parts : List Bytes} {rev : UInt32}

theorem Written.lt (hw : Written F id s written) (he : Held F id s k e) (hr : written e.rev = some parts) : e.seg.toNat < parts.length :=
  (List.getElem?_eq_some_iff.mp (hw.part k e parts he hr).1).1

theorem Written.counts (hw : Written F id s written) (he : Held F id s k e) (hr : written e.rev = some parts) : e.Counts e.rev := by
  refine ⟨rfl, fun hcleared => ?_⟩
  have hlt := hw.lt he hr
  have hsmall := (hw.small e.rev parts hr).1
  rw [hcleared] at hlt
  exact absurd hlt (Nat.not_lt.mpr (Nat.le_of_lt_succ hsmall))

/-- A link reaches the next part, if there is one. -/
theorem Written.newNumSegs (hw : Written F id s written) (he : Held F id s k e) (hr : written e.rev = some parts) :
    e.newNumSegs.toNat = min (e.seg.toNat + 2) parts.length := by
  have hlt := hw.lt he hr
  have hsmall := (hw.small e.rev parts hr).1
  have hnext := (hw.part k e parts he hr).2
  have hzero : e.next = 0 ↔ e.next.toNat = 0 := by rw [← UInt32.toNat_inj]; rfl
  rw [Segment.newNumSegs]
  split_ifs at hnext with hmore
  · rw [if_neg fun h => by rw [hzero.mp h] at hnext; omega, UInt32.toNat_add, hnext]
    change (e.seg.toNat + 1 + 1) % 2 ^ 32 = _
    omega
  · rw [if_pos (hzero.mpr hnext), UInt32.toNat_add]
    change (e.seg.toNat + 1) % 2 ^ 32 = _
    omega

theorem Written.linksFit (hs : Ready F s) (hF : Sound F s) (hw : Written F id s written) : LinksFit F (visible F id s) := by
  intro pre e post hsplit _ hcleared
  obtain ⟨k, he⟩ := (mem_visible hs hF).mp (show e ∈ visible F id s by rw [hsplit]; simp)
  cases hr : written e.rev with
  | none => exact absurd (hw.cleared k e he hr) hcleared
  | some parts =>
    have hlt := hw.lt he hr
    have hnum := hw.newNumSegs he hr
    refine ⟨?_, e, by simp, ⟨rfl, hcleared⟩, by omega⟩
    exact (Nat.mul_le_mul_right _ (by omega)).trans (hw.small e.rev parts hr).2

/-! ### The newest revision -/

/-- What a lookup of well-formed segments leaves behind. -/
theorem Written.findEntry (hs : Ready F s) (hF : Sound F s) (hw : Written F id s written) :
    ∃ t entry s', findEntry F id s = .ok (entry, s') ∧ finish t = .ok entry ∧ Holds F (visible F id s) t := by
  obtain ⟨s', -, heq⟩ := @findEntry_eq F s id hs.sized
  obtain ⟨t, hfold, ht⟩ := foldlM_addSegment (hw.linksFit hs hF)
  obtain ⟨entry, hentry⟩ := ht.finish_ok
  refine ⟨t, entry, s', ?_, hentry, ht⟩
  rw [heq, hfold, ok_bind, if_pos (readable_visible hs hF), hentry]
  rfl

/-- The revision of the table is the newest one. -/
theorem Holds.rev_eq {es : List Segment} {t : Table} (h : Holds F es t) (hrev : ∃ e ∈ es, e.rev = rev) (hle : ∀ e ∈ es, e.rev ≤ rev) : t.rev = rev := by
  obtain ⟨e, he, rfl⟩ := hrev
  have hge := h.le e he
  rcases h.rev with h0 | ⟨d, hd, hr⟩
  · rw [h0] at hge ⊢
    simp only [UInt32.le_iff_toNat_le] at hge
    exact UInt32.toNat_inj.mp (Nat.le_zero.mp hge).symm
  · have := hr ▸ hle d hd
    simp only [UInt32.le_iff_toNat_le] at hge this
    exact UInt32.toNat_inj.mp (Nat.le_antisymm this hge)

theorem Filled.nil {es : List Segment} {segments : List (Option Bytes)} (h : Filled F es rev segments) (hnone : ∀ d ∈ es, ¬d.Counts rev) :
    segments = [] := by
  rcases Nat.eq_zero_or_pos segments.length with hzero | hpos
  · exact List.length_eq_zero_iff.mp hzero
  · obtain ⟨d, hd, hc, -⟩ := (h.length 0).mp hpos
    exact absurd hc (hnone d hd)

theorem finish_nil {t : Table} {entry : Option Bytes} (h : finish t = .ok entry) (hnil : t.segments = []) : entry = none := by
  rw [finish, hnil] at h
  exact (Except.ok.inj h).symm

theorem finish_some {t : Table} {v : Bytes} (h : finish t = .ok (some v)) : t.segments ≠ [] ∧ ∃ vals : List Bytes, t.segments = vals.map some := by
  refine ⟨fun hnil => (by cases finish_nil h hnil), ?_⟩
  rw [finish] at h
  split_ifs at h
  · cases h
  · cases hvals : t.segments.mapM fun val => val with
    | none =>
      rw [hvals] at h
      cases h
    | some vals => exact ⟨vals, mapM_segments.mp hvals⟩

theorem finish_full {t : Table} {entry : Option Bytes} {vals : List Bytes} (h : finish t = .ok entry) (hne : vals ≠ [])
    (hvals : t.segments = vals.map some) : entry = some vals.flatten := by
  rw [finish, mapM_segments.mpr hvals, if_neg (by simpa [hvals] using hne)] at h
  simp only at h
  split_ifs at h
  exact (Except.ok.inj h).symm

/-- The table of a revision of which every part is held. -/
theorem Written.full (hs : Ready F s) (hF : Sound F s) (hw : Written F id s written) {t : Table} (ht : Holds F (visible F id s) t)
    (hparts : written t.rev = some parts) (hall : ∀ i < parts.length, ∃ k e, Held F id s k e ∧ e.rev = t.rev ∧ e.seg.toNat = i) :
    t.segments = parts.map some := by
  have hlen : t.segments.length = parts.length := by
    refine Nat.le_antisymm (Nat.le_of_not_lt fun hlt => ?_) (Nat.le_of_not_lt fun hlt => ?_)
    · obtain ⟨d, hd, hc, hlt⟩ := (ht.filled.length _).mp hlt
      obtain ⟨k, hd⟩ := (mem_visible hs hF).mp hd
      have := hw.newNumSegs hd (hc.1 ▸ hparts)
      omega
    · obtain ⟨k, e, he, hr, hseg⟩ := hall (parts.length - 1) (by omega)
      have hr' : written e.rev = some parts := hr ▸ hparts
      have hnum := hw.newNumSegs he hr'
      have := (ht.filled.length (parts.length - 1)).mpr ⟨e, (mem_visible hs hF).mpr ⟨k, he⟩, hr ▸ hw.counts he hr', by omega⟩
      omega
  apply List.ext_getElem?
  intro i
  rcases Nat.lt_or_ge i parts.length with hi | hi
  · obtain ⟨k, e, he, hr, rfl⟩ := hall i hi
    have hr' : written e.rev = some parts := hr ▸ hparts
    obtain ⟨v, hv⟩ := ht.filled.filled e ((mem_visible hs hF).mpr ⟨k, he⟩) (hr ▸ hw.counts he hr')
    obtain ⟨d, hd, hc, hseg, rfl⟩ := ht.filled.slot _ _ hv
    obtain ⟨j, hd⟩ := (mem_visible hs hF).mp hd
    have hpart := (hw.part j d parts hd (hc.1 ▸ hparts)).1
    rw [hv, List.getElem?_map, ← hseg, hpart]
    rfl
  · rw [List.getElem?_eq_none (by omega), List.getElem?_eq_none (by simpa using hi)]

/-- If the table has no gap, every part is held: each one links to the next. -/
theorem Written.complete (hs : Ready F s) (hF : Sound F s) (hw : Written F id s written) {t : Table} (ht : Holds F (visible F id s) t)
    (hparts : written t.rev = some parts) {vals : List Bytes} (hvals : t.segments = vals.map some) (hne : t.segments ≠ []) :
    ∀ i < parts.length, ∃ k e, Held F id s k e ∧ e.rev = t.rev ∧ e.seg.toNat = i := by
  have hslot : ∀ i < t.segments.length, ∃ k e, Held F id s k e ∧ e.rev = t.rev ∧ e.seg.toNat = i := by
    intro i hi
    obtain ⟨v, hv⟩ : ∃ v, vals[i]? = some v := ⟨_, List.getElem?_eq_getElem (by simpa [hvals] using hi)⟩
    obtain ⟨e, he, hc, hseg, -⟩ := ht.filled.slot i v (by rw [hvals, List.getElem?_map, hv]; rfl)
    obtain ⟨k, he⟩ := (mem_visible hs hF).mp he
    exact ⟨k, e, he, hc.1, hseg⟩
  intro i
  induction i with
  | zero => exact fun _ => hslot 0 (List.length_pos_iff.mpr hne)
  | succ i ih =>
    intro hi
    obtain ⟨k, e, he, hr, hseg⟩ := ih (by omega)
    have hr' : written e.rev = some parts := hr ▸ hparts
    have hnum := hw.newNumSegs he hr'
    exact hslot (i + 1) ((ht.filled.length _).mpr ⟨e, (mem_visible hs hF).mpr ⟨k, he⟩, hr ▸ hw.counts he hr', by omega⟩)

/-- A lookup in well-formed segments gives the newest revision of the entry: its parts in order if all of them are held, and
    nothing if one is missing or the revision is the mark of a cleared entry. -/
theorem findEntry_newest (hs : Reached F s) (hF : Sound F s) (hw : Written F id s written) :
    ∃ entry s', findEntry F id s = .ok (entry, s') ∧ ((∀ k e, ¬Held F id s k e) → entry = none) ∧
      ∀ rev, (∃ k e, Held F id s k e ∧ e.rev = rev) → (∀ k e, Held F id s k e → e.rev ≤ rev) →
        (written rev = none → entry = none) ∧
        ∀ parts, written rev = some parts →
          ((∀ i < parts.length, ∃ k e, Held F id s k e ∧ e.rev = rev ∧ e.seg.toNat = i) → entry = some parts.flatten) ∧
          ((∃ i < parts.length, ∀ k e, Held F id s k e → e.rev = rev → e.seg.toNat ≠ i) → entry = none) := by
  have hready := ready_of_reached hs
  obtain ⟨t, entry, s', hfound, hentry, ht⟩ := hw.findEntry hready hF
  refine ⟨entry, s', hfound, fun hnone => ?_, fun rev hrev hle => ?_⟩
  · refine finish_nil hentry (ht.filled.nil fun d hd => ?_)
    obtain ⟨k, hd⟩ := (mem_visible hready hF).mp hd
    exact absurd hd (hnone k d)
  · obtain rfl : t.rev = rev := by
      obtain ⟨k, e, he, hr⟩ := hrev
      refine ht.rev_eq ⟨e, (mem_visible hready hF).mpr ⟨k, he⟩, hr⟩ fun e he => ?_
      obtain ⟨k, he⟩ := (mem_visible hready hF).mp he
      exact hle k e he
    refine ⟨fun hcleared => ?_, fun parts hparts => ⟨fun hall => ?_, ?_⟩⟩
    · refine finish_nil hentry (ht.filled.nil fun d hd hc => hc.2 ?_)
      obtain ⟨k, hd⟩ := (mem_visible hready hF).mp hd
      exact hw.cleared k d hd (hc.1 ▸ hcleared)
    · obtain ⟨k, e, he, hr⟩ := hrev
      have hlt := hw.lt he (hr ▸ hparts)
      exact finish_full hentry (List.length_pos_iff.mp (by omega)) (hw.full hready hF ht hparts hall)
    · rintro ⟨i, hi, hmissing⟩
      cases entry with
      | none => rfl
      | some v =>
        obtain ⟨hne, vals, hvals⟩ := finish_some hentry
        obtain ⟨k, e, he, hr, hseg⟩ := hw.complete hready hF ht hparts hvals hne i hi
        exact absurd hseg (hmissing k e he hr)

end

/-! ### A partition -/

/-- What was written to the partition. -/
def revisions (rev : UInt32) : Option (List Bytes) :=
  if rev = 2 then some [[0x61], [0x62]] else if rev = 1 then some [[0x78]] else none

theorem partition_sound : Sound partition scanned := fun _ hk _ => ⟨_, _, if_pos hk, rfl, fun _ => rfl⟩

theorem partition_written : Written partition 0x100 scanned revisions := by
  have hready := ready_of_reached (.scanned partition_scanned)
  have hvisible : ∀ {k e}, Held partition 0x100 scanned k e → e ∈ visible partition 0x100 scanned :=
    fun he => (mem_visible hready partition_sound).mpr ⟨_, he⟩
  refine ⟨fun k e he => ?_, fun k e parts he => ?_, fun rev parts h => ?_⟩
  · exact forall_mem_of_all (fun e => revisions e.rev = none → e.seg = segmentCleared) (by decide) e (hvisible he)
  · exact forall_mem_of_all (fun e => ∀ parts ∈ revisions e.rev, parts[e.seg.toNat]? = some e.val ∧
      e.next.toNat = if e.seg.toNat + 1 < parts.length then e.seg.toNat + 1 else 0) (by decide) e (hvisible he) parts
  · simp only [revisions] at h
    split_ifs at h <;> cases h <;> decide

/-- The older revision is not found, and the parts of the newer one are put in order. -/
theorem findEntry_newest_partition : ∃ s', findEntry partition 0x100 scanned = .ok (some [0x61, 0x62], s') := by
  have hready := ready_of_reached (.scanned partition_scanned)
  have hheld : ∀ p : Segment → Prop, (∃ e ∈ visible partition 0x100 scanned, p e) → ∃ k e, Held partition 0x100 scanned k e ∧ p e := by
    rintro p ⟨e, he, hp⟩
    obtain ⟨k, he⟩ := (mem_visible hready partition_sound).mp he
    exact ⟨k, e, he, hp⟩
  obtain ⟨entry, s', hfound, -, hnewest⟩ := findEntry_newest (.scanned partition_scanned) partition_sound partition_written
  obtain ⟨-, hparts⟩ := hnewest 2 (hheld _ (by decide)) fun k e he =>
    forall_mem_of_all (fun e => e.rev ≤ 2) (by decide) e ((mem_visible hready partition_sound).mpr ⟨k, he⟩)
  have hall : ∀ i < 2, ∃ e ∈ visible partition 0x100 scanned, e.rev = 2 ∧ e.seg.toNat = i := by decide
  obtain ⟨hfull, -⟩ := hparts _ rfl
  refine ⟨s', ?_⟩
  rw [hfound, hfull fun i hi => hheld _ (hall i hi)]
  rfl

end RainWrt.Tffs
