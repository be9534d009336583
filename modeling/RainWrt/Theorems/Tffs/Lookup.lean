import RainWrt.Theorems.Lists
import RainWrt.Theorems.Tffs.Sectors

/-! A lookup of the TFFS reader goes through the segments that it sees, in the order of the sectors. What the table holds is
    said of the segments themselves, so that their order does not matter. -/

namespace RainWrt.Tffs

variable {F : Flash} {s s' : State} {id : UInt32} {k : Nat} {ks : List Nat} {b : Bool}

/-! ### What is seen -/

/-- What a round makes of a sector, or none if the sector cannot be read. -/
def look (F : Flash) (id : UInt32) (s : State) (k : Nat) : Option Found :=
  if s.good k then
    match s.sectorIds[k]? with
    | none => none
    | some cached =>
      if cached ≠ 0 ∧ cached = idEnd then some .blockEnd
      else if cached ≠ 0 ∧ cached ≠ id then some .skip
      else
        match F.oob k, F.page k with
        | some oobbuf, some readbuf => some (examine F id readbuf oobbuf)
        | _, _ => none
  else some .skip

/-- The segments that are seen, as far as the first sector that cannot be read. Behind the end of a block, which `b` tells,
    nothing is looked at before the next block. -/
def seen (F : Flash) (id : UInt32) (s : State) : (b : Bool) → List Nat → List Segment
  | _, [] => []
  | true, k :: ks => seen F id s (!F.startsBlock k) ks
  | false, k :: ks =>
    match look F id s k with
    | none => []
    | some .skip => seen F id s false ks
    | some .blockEnd => seen F id s true ks
    | some (.segment e) => e :: seen F id s false ks

/-- Every sector that is looked at can be read. -/
def readable (F : Flash) (id : UInt32) (s : State) : (b : Bool) → List Nat → Bool
  | _, [] => true
  | true, k :: ks => readable F id s (!F.startsBlock k) ks
  | false, k :: ks =>
    match look F id s k with
    | none => false
    | some .skip => readable F id s false ks
    | some .blockEnd => readable F id s true ks
    | some (.segment _) => readable F id s false ks

/-- The segments that a lookup of `id` sees. -/
def visible (F : Flash) (id : UInt32) (s : State) : List Segment := seen F id s false (List.range F.numSectors)

/-- A state in which sectors look as in another one. -/
def Same (s s' : State) (ks : List Nat) : Prop := ∀ k ∈ ks, s'.good k = s.good k ∧ s'.sectorIds[k]? = s.sectorIds[k]?

theorem Same.refl : Same s s ks := fun _ _ => ⟨rfl, rfl⟩

theorem visit_look (hs : Sized F s) (hk : k < F.numSectors) :
    ∃ s', Kept F s s' ∧ (∀ j ≠ k, s'.good j = s.good j ∧ s'.sectorIds[j]? = s.sectorIds[j]?) ∧
      visit F id s k = (look F id s k).elim (.error .exit) fun found => .ok (found, s') := by
  obtain ⟨cached, hcached⟩ : ∃ c, s.sectorIds[k]? = some c := ⟨_, List.getElem?_eq_getElem (by rw [hs.sectorIds]; exact hk)⟩
  rw [visit, sectorGetGood_eq hs (Nat.lt_of_lt_of_le hk Flash.numSectors_le_bits), ok_bind, look, hcached]
  have hsame : ∀ j ≠ k, s.good j = s.good j ∧ s.sectorIds[j]? = s.sectorIds[j]? := fun _ _ => ⟨rfl, rfl⟩
  by_cases hgood : s.good k = true
  · rw [if_pos hgood, if_pos hgood]
    by_cases hend : cached ≠ 0 ∧ cached = idEnd
    · exact ⟨s, Kept.refl, hsame, by simp only [if_pos hend]; rfl⟩
    by_cases hother : cached ≠ 0 ∧ cached ≠ id
    · exact ⟨s, Kept.refl, hsame, by simp only [if_neg hend, if_pos hother]; rfl⟩
    simp only [if_neg hend, if_neg hother]
    cases hoob : F.oob k with
    | none => exact ⟨s, Kept.refl, hsame, rfl⟩
    | some oobbuf =>
      cases hpage : F.page k with
      | none => exact ⟨s, Kept.refl, hsame, by simp only [readSector_none hpage]; rfl⟩
      | some readbuf =>
        refine ⟨_, kept_store hpage, fun j hj => ⟨rfl, List.getElem?_set_ne (Ne.symm hj)⟩, ?_⟩
        simp only [readSector_eq hs hpage]
        rfl
  · rw [if_neg hgood, if_neg hgood]
    exact ⟨s, Kept.refl, hsame, rfl⟩

/-- A lookup adds the segments that are seen, and exits if there is a sector that it cannot read. -/
theorem foldlM_findStep (hs : Sized F s') (hsame : Same s s' ks) (hks : ∀ k ∈ ks, k < F.numSectors) (hnodup : ks.Nodup) :
    ∃ s'' b', Kept F s' s'' ∧ ∀ t, ks.foldlM (findStep F id) ⟨s', b, t⟩ =
      (seen F id s b ks).foldlM (addSegment F) t >>= fun t' => if readable F id s b ks then .ok ⟨s'', b', t'⟩ else .error .exit := by
  induction ks generalizing s' b with
  | nil => exact ⟨s', b, Kept.refl, fun t => rfl⟩
  | cons k ks ih =>
    obtain ⟨hk, hks⟩ := List.forall_mem_cons.mp hks
    obtain ⟨hnot, hnodup⟩ := List.nodup_cons.mp hnodup
    obtain ⟨⟨hgood, hid⟩, hsame⟩ := List.forall_mem_cons.mp hsame
    cases b with
    | true =>
      obtain ⟨s'', b', hkept, heq⟩ := ih (b := !F.startsBlock k) hs hsame hks hnodup
      refine ⟨s'', b', hkept, fun t => ?_⟩
      rw [List.foldlM_cons, seen, readable, ← heq t, findStep, if_pos rfl, ok_bind]
      cases F.startsBlock k <;> rfl
    | false =>
      obtain ⟨s₁, hkept, hother, hvisit⟩ := @visit_look F s' id k hs hk
      have hlook : look F id s' k = look F id s k := by rw [look, look, hgood, hid]
      have hsame₁ : Same s s₁ ks := by
        intro j hj
        have hne : j ≠ k := fun h => hnot (h ▸ hj)
        rw [(hother j hne).1, (hother j hne).2]
        exact hsame j hj
      have ih₁ := fun b => ih (b := b) (hkept.sized hs) hsame₁ hks hnodup
      rcases hfound : look F id s k with _ | _ | _ | e
      · refine ⟨s', false, Kept.refl, fun t => ?_⟩
        simp only [List.foldlM_cons, findStep, hvisit, hlook, hfound, seen, readable]
        rfl
      · obtain ⟨s'', b', hkept', heq⟩ := ih₁ false
        refine ⟨s'', b', hkept.trans hkept', fun t => ?_⟩
        simp only [List.foldlM_cons, findStep, hvisit, hlook, hfound, seen, readable]
        exact heq t
      · obtain ⟨s'', b', hkept', heq⟩ := ih₁ true
        refine ⟨s'', b', hkept.trans hkept', fun t => ?_⟩
        simp only [List.foldlM_cons, findStep, hvisit, hlook, hfound, seen, readable]
        exact heq t
      · obtain ⟨s'', b', hkept', heq⟩ := ih₁ false
        refine ⟨s'', b', hkept.trans hkept', fun t => ?_⟩
        simp only [List.foldlM_cons, findStep, hvisit, hlook, hfound, seen, readable, Option.elim, ok_bind,
          Bool.false_eq_true, if_false]
        cases addSegment F t e with
        | error stop => rfl
        | ok t' => exact heq t'

/-! ### The table -/

/-- A segment of revision `rev` that is not the mark of a cleared entry. -/
def Segment.Counts (d : Segment) (rev : UInt32) : Prop := d.rev = rev ∧ d.seg ≠ segmentCleared

/-- The segments of `pre` that are of revision `rev` are in their places, and the table reaches as far as their links. -/
structure Filled (F : Flash) (pre : List Segment) (rev : UInt32) (segments : List (Option Bytes)) : Prop where
  length : ∀ m, m < segments.length ↔ ∃ d ∈ pre, d.Counts rev ∧ m < d.newNumSegs.toNat
  slot : ∀ (m : Nat) (v : Bytes), segments[m]? = some (some v) → ∃ d ∈ pre, d.Counts rev ∧ d.seg.toNat = m ∧ d.val = v
  filled : ∀ d ∈ pre, d.Counts rev → ∃ v, segments[d.seg.toNat]? = some (some v)
  heap : segments.length * sizeofSegment ≤ F.heap
  sum : (segments.map fun o => (o.getD []).length).sum ≤ maximumSegmentSize * pre.length

/-- The table holds the segments of the newest revision among those of `pre`. -/
structure Holds (F : Flash) (pre : List Segment) (t : Table) : Prop where
  le : ∀ d ∈ pre, d.rev ≤ t.rev
  rev : t.rev = 0 ∨ ∃ d ∈ pre, d.rev = t.rev
  filled : Filled F pre t.rev t.segments

/-- What adding `e` accesses: if it is of the newest revision so far, the table can be allocated, and a link of this revision
    reaches the segment. -/
def Inside (F : Flash) (pre : List Segment) (e : Segment) : Prop :=
  (∀ d ∈ pre, d.rev ≤ e.rev) → e.seg ≠ segmentCleared →
    e.newNumSegs.toNat * sizeofSegment ≤ F.heap ∧ ∃ d ∈ pre ++ [e], d.Counts e.rev ∧ e.seg.toNat < d.newNumSegs.toNat

section
variable {pre : List Segment} {e : Segment} {t t' : Table} {rev : UInt32} {segments : List (Option Bytes)}

theorem Filled.empty (h : ∀ d ∈ pre, ¬d.Counts rev) : Filled F pre rev [] := by
  refine ⟨fun m => ⟨fun hm => by simp at hm, ?_⟩, by simp, fun d hd hc => absurd hc (h d hd), by simp, by simp⟩
  rintro ⟨d, hd, hc, -⟩
  exact absurd hc (h d hd)

theorem holds_nil : Holds F [] ⟨0, []⟩ := ⟨by simp, .inl rfl, Filled.empty (by simp)⟩

/-- A segment of another revision, or a mark of a cleared entry. -/
theorem Filled.skip (h : Filled F pre rev segments) (hne : ¬e.Counts rev) : Filled F (pre ++ [e]) rev segments := by
  refine ⟨fun m => ?_, fun m v hv => ?_, fun d hd hc => ?_, h.heap, h.sum.trans (Nat.mul_le_mul_left _ (by simp))⟩
  · rw [h.length m]
    simp only [List.mem_append, List.mem_singleton, or_and_right, exists_or, exists_eq_left, hne, false_and, or_false]
  · obtain ⟨d, hd, hrest⟩ := h.slot m v hv
    exact ⟨d, List.mem_append_left _ hd, hrest⟩
  · rcases List.mem_append.mp hd with hd | hd
    · exact h.filled d hd hc
    · obtain rfl := List.mem_singleton.mp hd
      exact absurd hc hne

theorem length_grow (n : Nat) : (segments ++ List.replicate (n - segments.length) none).length = max n segments.length := by
  simp only [List.length_append, List.length_replicate]
  omega

theorem getElem?_grow {n m : Nat} {v : Bytes} :
    (segments ++ List.replicate n none)[m]? = some (some v) ↔ segments[m]? = some (some v) := by
  rw [List.getElem?_append]
  split_ifs with hm
  · rfl
  · simp [List.getElem?_replicate, List.getElem?_eq_none (Nat.le_of_not_lt hm)]

theorem sum_map_set_le {α : Type} (f : α → Nat) (l : List α) (i : Nat) (a : α) : ((l.set i a).map f).sum ≤ (l.map f).sum + f a := by
  induction l generalizing i with
  | nil => simp
  | cons x l ih =>
    cases i with
    | zero =>
      simp only [List.set_cons_zero, List.map_cons, List.sum_cons]
      omega
    | succ i =>
      have hi := ih i
      simp only [List.set_cons_succ, List.map_cons, List.sum_cons]
      omega

/-- A table that was grown as far as the link of `e`, with `e` in its place. -/
theorem Filled.add (h : Filled F pre rev segments) (hc : e.Counts rev)
    (hheap : e.newNumSegs.toNat * sizeofSegment ≤ F.heap) (hlt : e.seg.toNat < max e.newNumSegs.toNat segments.length) :
    Filled F (pre ++ [e]) rev
      ((segments ++ List.replicate (e.newNumSegs.toNat - segments.length) none).set e.seg.toNat (some e.val)) := by
  rw [← length_grow] at hlt
  refine ⟨fun m => ?_, fun m v hv => ?_, fun d hd hd' => ?_, ?_, ?_⟩
  · rw [List.length_set, length_grow, lt_max_iff, h.length m, or_comm]
    simp only [List.mem_append, List.mem_singleton, or_and_right, exists_or, exists_eq_left, hc, true_and]
  · rw [List.getElem?_set] at hv
    split_ifs at hv with heq
    · exact ⟨e, by simp, hc, heq, by simpa using hv⟩
    · obtain ⟨d, hd, hrest⟩ := h.slot m v (getElem?_grow.mp hv)
      exact ⟨d, List.mem_append_left _ hd, hrest⟩
  · rw [List.getElem?_set]
    split_ifs with heq
    · exact ⟨e.val, rfl⟩
    · rcases List.mem_append.mp hd with hd | hd
      · obtain ⟨v, hv⟩ := h.filled d hd hd'
        exact ⟨v, getElem?_grow.mpr hv⟩
      · obtain rfl := List.mem_singleton.mp hd
        exact absurd rfl heq
  · rw [List.length_set, length_grow]
    rcases Nat.le_total e.newNumSegs.toNat segments.length with hle | hle
    · rw [Nat.max_eq_right hle]
      exact h.heap
    · rw [Nat.max_eq_left hle]
      exact hheap
  · refine (sum_map_set_le _ _ _ _).trans ?_
    have hsum := h.sum
    have hlen := e.length_val
    simp [Nat.mul_add]
    omega

/-- The table of the revision of `e`, before `e` is added. -/
theorem Holds.opened (h : Holds F pre t) (hle : ¬e.rev < t.rev) :
    (∀ d ∈ pre, d.rev ≤ e.rev) ∧ ∃ segments, (if e.rev > t.rev then ⟨e.rev, []⟩ else t) = (⟨e.rev, segments⟩ : Table) ∧
      Filled F pre e.rev segments := by
  have hrev : ∀ d ∈ pre, d.rev ≤ t.rev := h.le
  simp only [UInt32.lt_iff_toNat_lt, UInt32.le_iff_toNat_le, gt_iff_lt] at hle hrev ⊢
  refine ⟨fun d hd => (hrev d hd).trans (Nat.le_of_not_lt hle), ?_⟩
  split_ifs with hlt
  · refine ⟨[], rfl, Filled.empty fun d hd hc => ?_⟩
    have := hrev d hd
    rw [hc.1] at this
    omega
  · have heq : t.rev = e.rev := UInt32.toNat_inj.mp (by omega)
    exact ⟨t.segments, by rw [← heq], heq ▸ h.filled⟩

/-- Behind `e` the newest revision is that of `e`. -/
theorem Filled.holds (h : Filled F (pre ++ [e]) e.rev segments) (hle : ∀ d ∈ pre, d.rev ≤ e.rev) : Holds F (pre ++ [e]) ⟨e.rev, segments⟩ := by
  refine ⟨fun d hd => ?_, .inr ⟨e, by simp, rfl⟩, h⟩
  rcases List.mem_append.mp hd with hd | hd
  · exact hle d hd
  · rw [List.mem_singleton.mp hd]
    exact UInt32.le_rfl

theorem Holds.older (h : Holds F pre t) (hlt : e.rev < t.rev) : Holds F (pre ++ [e]) t := by
  refine ⟨fun d hd => ?_, h.rev.imp id fun ⟨d, hd, hr⟩ => ⟨d, List.mem_append_left _ hd, hr⟩, h.filled.skip fun hc => ?_⟩
  · rcases List.mem_append.mp hd with hd | hd
    · exact h.le d hd
    · rw [List.mem_singleton.mp hd]
      exact UInt32.le_of_lt hlt
  · rw [hc.1] at hlt
    exact UInt32.lt_irrefl _ hlt

/-- The link of `e`, or one before it, reaches the segment. -/
theorem Filled.reach (h : Filled F pre rev segments) (hc : e.Counts rev) :
    (∃ d ∈ pre ++ [e], d.Counts rev ∧ e.seg.toNat < d.newNumSegs.toNat) ↔ e.seg.toNat < max e.newNumSegs.toNat segments.length := by
  rw [lt_max_iff, h.length, or_comm]
  simp only [List.mem_append, List.mem_singleton, or_and_right, exists_or, exists_eq_left, hc, true_and]

theorem grow_eq (n : Nat) : grow F n segments = if n > segments.length ∧ ¬n * sizeofSegment ≤ F.heap then .error .fault
    else .ok (segments ++ List.replicate (n - segments.length) none) := by
  rw [grow]
  by_cases hgt : n > segments.length
  · by_cases hheap : n * sizeofSegment ≤ F.heap
    · simp [hgt, hheap]
    · simp [hgt, hheap]
  · simp [hgt, Nat.sub_eq_zero_of_le (Nat.le_of_not_lt hgt)]

theorem addSegment_eq (hlt : ¬e.rev < t.rev) (hcleared : e.seg ≠ segmentCleared)
    (heq : (if e.rev > t.rev then ⟨e.rev, []⟩ else t) = (⟨e.rev, segments⟩ : Table)) :
    addSegment F t e = if e.newNumSegs.toNat > segments.length ∧ ¬e.newNumSegs.toNat * sizeofSegment ≤ F.heap then .error .fault
      else if e.seg.toNat < max e.newNumSegs.toNat segments.length then
        .ok ⟨e.rev, (segments ++ List.replicate (e.newNumSegs.toNat - segments.length) none).set e.seg.toNat (some e.val)⟩
      else .error .fault := by
  rw [addSegment, if_neg hlt, heq]
  simp only [hcleared, if_false, grow_eq]
  split_ifs with hheap hreach
  · rfl
  · simp only [ok_bind, length_grow, if_pos hreach]
    rfl
  · simp only [ok_bind, length_grow, if_neg hreach]

theorem addSegment_ok (h : Holds F pre t) (hin : Inside F pre e) :
    ∃ t', addSegment F t e = .ok t' ∧ Holds F (pre ++ [e]) t' := by
  by_cases hlt : e.rev < t.rev
  · exact ⟨t, if_pos hlt, h.older hlt⟩
  obtain ⟨hle, segments, heq, hfilled⟩ := h.opened hlt
  by_cases hcleared : e.seg = segmentCleared
  · refine ⟨⟨e.rev, segments⟩, ?_, (hfilled.skip fun hc => hc.2 hcleared).holds hle⟩
    rw [addSegment, if_neg hlt, heq]
    exact if_pos hcleared
  · have hc : e.Counts e.rev := ⟨rfl, hcleared⟩
    obtain ⟨hheap, hreach⟩ := hin hle hcleared
    have hseg := (hfilled.reach hc).mp hreach
    refine ⟨_, ?_, (hfilled.add hc hheap hseg).holds hle⟩
    rw [addSegment_eq hlt hcleared heq, if_neg (fun h => h.2 hheap), if_pos hseg]

theorem addSegment_stop (h : Holds F pre t) (hin : ¬Inside F pre e) : addSegment F t e = .error .fault := by
  simp only [Inside, Classical.not_imp] at hin
  obtain ⟨hle, hcleared, hin⟩ := hin
  have hlt : ¬e.rev < t.rev := by
    intro hlt
    rcases h.rev with h0 | ⟨d, hd, hr⟩
    · rw [h0] at hlt
      exact absurd hlt UInt32.not_lt_zero
    · exact absurd (hr ▸ hle d hd) (UInt32.not_le.mpr hlt)
  obtain ⟨-, segments, heq, hfilled⟩ := h.opened hlt
  rw [addSegment_eq hlt hcleared heq]
  split_ifs with hgrow hseg
  · rfl
  · refine absurd ⟨?_, (hfilled.reach ⟨rfl, hcleared⟩).mpr hseg⟩ hin
    by_contra hheap
    have hle : e.newNumSegs.toNat ≤ segments.length := Nat.le_of_not_lt fun hgt => hgrow ⟨hgt, hheap⟩
    exact hheap ((Nat.mul_le_mul_right _ hle).trans hfilled.heap)
  · rfl

end

/-! ### The whole lookup -/

theorem length_seen : (seen F id s b ks).length ≤ ks.length := by
  fun_induction seen F id s b ks <;> simp_all <;> omega

theorem length_visible : (visible F id s).length ≤ F.numSectors := by
  rw [visible]
  simpa using @length_seen F s id (List.range F.numSectors) false

/-- A lookup is the segments that are seen, added one after another, and the end of the function. -/
theorem findEntry_eq (hs : Sized F s) : ∃ s', Kept F s s' ∧ findEntry F id s =
    (visible F id s).foldlM (addSegment F) ⟨0, []⟩ >>= fun t =>
      if readable F id s false (List.range F.numSectors) then finish t >>= fun entry => .ok (entry, s') else .error .exit := by
  obtain ⟨s', b', hkept, heq⟩ := @foldlM_findStep F s s id (List.range F.numSectors) false hs Same.refl (fun k hk => List.mem_range.mp hk) List.nodup_range
  refine ⟨s', hkept, ?_⟩
  rw [findEntry, heq, ← visible]
  cases (visible F id s).foldlM (addSegment F) ⟨0, []⟩ with
  | error stop => rfl
  | ok t =>
    simp only [ok_bind]
    split_ifs <;> rfl

theorem mapM_segments {segments : List (Option Bytes)} {vals : List Bytes} :
    segments.mapM (fun o => o) = some vals ↔ segments = vals.map some := by
  rw [mapM_eq_some, ← List.forall₂_eq_eq_eq, List.forall₂_map_right_iff]

/-- The end of the function stays in its allocations, since every segment is in a sector of its own. -/
theorem Holds.finish_ok {t : Table} (h : Holds F (visible F id s) t) : ∃ entry, finish t = .ok entry := by
  rw [finish]
  split_ifs with hzero
  · exact ⟨none, rfl⟩
  · cases hvals : t.segments.mapM (fun o => o) with
    | none => exact ⟨none, rfl⟩
    | some vals =>
      have hsum := h.filled.sum
      rw [mapM_segments.mp hvals, List.map_map] at hsum
      have hlen := Nat.mul_le_mul_left maximumSegmentSize (@length_visible F s id)
      have hsize := F.size.toNat_lt
      refine ⟨some vals.flatten, if_pos ?_⟩
      simp only [Function.comp_def, Option.getD_some, Flash.numSectors, maximumSegmentSize, entryHeaderSize, sectorSize] at hsum hlen
      exact lt_of_le_of_lt (hsum.trans hlen) (by omega)

/-- Every segment that is seen is added inside the table. -/
def LinksFit (F : Flash) (es : List Segment) : Prop := Along (Inside F) [] es

theorem guarded_add : Guarded (addSegment F) (Inside F) (Holds F) .fault := ⟨addSegment_ok, addSegment_stop⟩

theorem foldlM_addSegment {es : List Segment} (h : LinksFit F es) : ∃ t, es.foldlM (addSegment F) ⟨0, []⟩ = .ok t ∧ Holds F es t :=
  guarded_add.run_ok holds_nil h

/-- A lookup stays in its allocations exactly if the links do. -/
theorem find_faultless (hs : Sized F s) : findEntry F id s ≠ .error .fault ↔ LinksFit F (visible F id s) := by
  obtain ⟨s', -, heq⟩ := @findEntry_eq F s id hs
  constructor
  · intro h
    by_contra hlinks
    rw [heq, guarded_add.run_stop holds_nil hlinks] at h
    exact h rfl
  · intro h
    obtain ⟨t, hok, ht⟩ := foldlM_addSegment h
    obtain ⟨entry, hentry⟩ := ht.finish_ok
    rw [heq, hok, ok_bind, hentry]
    split_ifs <;> simp

/-! ### Runs -/

theorem findEntry_kept (hs : Sized F s) {entry : Option Bytes} (h : findEntry F id s = .ok (entry, s')) : Kept F s s' := by
  obtain ⟨s'', hkept, heq⟩ := @findEntry_eq F s id hs
  rw [heq] at h
  cases hfold : (visible F id s).foldlM (addSegment F) ⟨0, []⟩ with
  | error stop =>
    rw [hfold] at h
    cases h
  | ok t =>
    rw [hfold, ok_bind] at h
    split_ifs at h
    cases hentry : finish t with
    | error stop =>
      rw [hentry] at h
      cases h
    | ok entry' =>
      rw [hentry] at h
      cases h
      exact hkept

theorem Ready.kept (h : Ready F s) (hkept : Kept F s s') : Ready F s' :=
  ⟨hkept.sized h.sized, hkept.cached h.cached, fun k hk hb => hkept.bad (h.starts k hk hb)⟩

theorem ready_of_reached (h : Reached F s) : Ready F s := by
  induction h with
  | scanned h =>
    by_cases hfit : HeadersFit F
    · obtain ⟨n, s', hok, hs'⟩ := scanMtd_ok hfit
      rw [hok] at h
      cases h
      exact hs'
    · rw [scanMtd_stop hfit] at h
      cases h
  | found hs h ih =>
    exact ih.kept (findEntry_kept ih.sized h)

end RainWrt.Tffs
