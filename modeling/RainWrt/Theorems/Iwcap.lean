import RainWrt.Iwcap

/-! What a dump of the ring writes. -/

namespace RainWrt.Iwcap

/-! ### Slots -/

/-- The bytes of a slot that holds a frame. -/
def Frame.slot (pktcap : Nat) (f : Frame) : Bytes :=
  unwords [.ofNat (min f.data.length pktcap), .ofNat f.data.length, f.sec, f.usec] ++
    (f.data.take pktcap ++ List.replicate (pktcap - f.data.length) 0)

/-- The record of a frame that is cut off after `pktcap` bytes. -/
def Frame.record (pktcap : Nat) (f : Frame) : Record where
  sec := f.sec
  usec := f.usec
  inclLen := min f.data.length pktcap
  origLen := f.data.length
  data := f.data.take pktcap

/-- What a dump writes for a slot. -/
def decode (slot : Bytes) : Option Record := if 0 < (word slot 0).toNat then some (record slot 0) else none

/-- The slots in the order of the memory. -/
def Ring.slots (r : Ring) : List Bytes := (List.range r.len).map fun i => slice r.buf (i * r.slen) r.slen

/-- The slots from the oldest one on. -/
def Ring.view (r : Ring) : List Bytes := r.slots.rotate r.fill

@[simp] theorem Ring.length_slots (r : Ring) : r.slots.length = r.len := by simp [Ring.slots]

@[simp] theorem Ring.length_view (r : Ring) : r.view.length = r.len := by simp [Ring.view]

theorem length_slot {pktcap : Nat} (f : Frame) : (f.slot pktcap).length = pktcap + entrySize := by
  simp only [Frame.slot, entrySize, List.length_append, length_unwords, List.length_cons, List.length_nil, List.length_take,
    List.length_replicate]
  omega

/-- A slot is cleared and filled piece by piece. -/
theorem writes_eq_slot (pktcap : Nat) (f : Frame) :
    writeAt (writeAt (writeAt (writeAt (writeAt (List.replicate (pktcap + entrySize) 0) 8 (le32 f.sec)) 12 (le32 f.usec)) 4
      (le32 (.ofNat f.data.length))) 0 (le32 (.ofNat (min f.data.length pktcap)))) entrySize (f.data.take pktcap) =
    f.slot pktcap := by
  have hzeros : List.replicate (pktcap + entrySize) (0 : UInt8) =
      0 :: 0 :: 0 :: 0 :: 0 :: 0 :: 0 :: 0 :: 0 :: 0 :: 0 :: 0 :: 0 :: 0 :: 0 :: 0 :: List.replicate pktcap 0 := rfl
  have hrest : pktcap - min pktcap f.data.length = pktcap - f.data.length := by omega
  rw [hzeros]
  simp [writeAt, le32, entrySize, Frame.slot, unwords, Nat.add_comm 16, hrest]

theorem slots_eq_set {r : Ring} {slot : Bytes} (hb : r.buf.length = r.len * r.slen) (hf : r.fill < r.len)
    (hs : slot.length = r.slen) {n : Nat} :
    Ring.slots { r with fill := n, buf := writeAt r.buf (r.fill * r.slen) slot } = r.slots.set r.fill slot := by
  have hle : r.fill * r.slen + slot.length ≤ r.buf.length := by
    rw [hb, hs, ← Nat.succ_mul]
    exact Nat.mul_le_mul_right _ hf
  apply List.ext_getElem (by simp)
  intro i hi _
  rw [List.getElem_set]
  simp only [Ring.slots, List.getElem_map, List.getElem_range]
  rcases Nat.lt_trichotomy i r.fill with h | rfl | h
  · rw [if_neg (by omega)]
    apply slice_writeAt_before hle
    rw [← Nat.succ_mul]
    exact Nat.mul_le_mul_right _ h
  · rw [if_pos rfl]
    have hself := slice_writeAt_self hle
    rwa [hs] at hself
  · rw [if_neg (by omega)]
    apply slice_writeAt_after hle
    rw [hs, ← Nat.succ_mul]
    exact Nat.mul_le_mul_right _ h

/-! ### What a frame changes -/

theorem rotate_set {α : Type} {l : List α} {n : Nat} (h : n < l.length) (a : α) :
    (l.set n a).rotate (n + 1) = (l.rotate n).drop 1 ++ [a] := by
  rw [List.rotate_eq_drop_append_take (by rw [List.length_set]; exact h), List.rotate_eq_drop_append_take (by omega),
    List.drop_set_of_lt (by omega), List.take_set, List.drop_append_of_le_length (by rw [List.length_drop]; omega),
    List.drop_drop, List.append_assoc, List.take_add_one, List.getElem?_eq_getElem h, Option.toList_some]
  congr 1
  rw [List.set_append_right _ _ (by rw [List.length_take]; omega), List.length_take, Nat.min_eq_left (by omega), Nat.sub_self]
  rfl

/-- What holds of every ring that the program admits. -/
structure Ring.Valid (pktcap : Nat) (r : Ring) : Prop where
  slen : r.slen = pktcap + entrySize
  size : r.buf.length = r.len * r.slen
  fill : r.fill < r.len
  small : r.len * r.slen ≤ 2 ^ 32

/-- Writes into one slot, from the cleared one on. -/
theorem foldl_writeAt {buf : Bytes} (slot : Bytes) {e : Nat} (h : e + slot.length ≤ buf.length) (ws : List (Nat × Bytes))
    (hw : ∀ w ∈ ws, w.1 + w.2.length ≤ slot.length) :
    ws.foldl (fun b w => writeAt b (e + w.1) w.2) (writeAt buf e slot) =
      writeAt buf e (ws.foldl (fun b w => writeAt b w.1 w.2) slot) := by
  induction ws generalizing slot with
  | nil => rfl
  | cons w ws ih =>
    obtain ⟨hw, hws⟩ := List.forall_mem_cons.mp hw
    rw [List.foldl_cons, List.foldl_cons, writeAt_writeAt h hw]
    apply ih
    · rw [length_writeAt hw]
      exact h
    · rw [length_writeAt hw]
      exact hws

theorem store_eq {pktcap : Nat} {r : Ring} (hr : r.Valid pktcap) (f : Frame) :
    store pktcap r f =
      some { r with fill := (r.fill + 1) % r.len, buf := writeAt r.buf (r.fill * r.slen) (f.slot pktcap) } := by
  have hlt : r.fill * r.slen < 2 ^ 32 := by
    have := Nat.mul_lt_mul_of_pos_right hr.fill (show 0 < r.slen by rw [hr.slen, entrySize]; omega)
    exact Nat.lt_of_lt_of_le this hr.small
  have hfill : r.fill + 1 < 2 ^ 32 := by
    have := Nat.mul_le_mul_left r.len (show 2 ≤ r.slen by rw [hr.slen, entrySize]; omega)
    have := hr.fill
    have := hr.small
    omega
  have hle : r.fill * r.slen + r.slen ≤ r.buf.length := by
    rw [hr.size, ← Nat.succ_mul]
    exact Nat.mul_le_mul_right _ hr.fill
  have hlen : (if f.data.length > pktcap then pktcap else f.data.length) = min f.data.length pktcap := by
    split <;> omega
  have htake : f.data.take (min f.data.length pktcap) = f.data.take pktcap := by
    rw [Nat.min_comm, ← List.take_eq_take_min]
  have hzeros : r.fill * r.slen + (List.replicate (pktcap + entrySize) (0 : UInt8)).length ≤ r.buf.length := by
    rw [List.length_replicate, ← hr.slen]
    exact hle
  have hbuf := foldl_writeAt _ hzeros
    [(8, le32 f.sec), (12, le32 f.usec), (4, le32 (.ofNat f.data.length)), (0, le32 (.ofNat (min f.data.length pktcap))),
      (entrySize, f.data.take pktcap)] (by simp [entrySize]; omega)
  simp only [List.foldl_cons, List.foldl_nil, Nat.add_zero, writes_eq_slot] at hbuf
  simp only [store, ringbufAdd, Nat.mod_eq_of_lt hlt, Nat.mod_eq_of_lt hfill, if_neg (show r.len ≠ 0 from Nat.ne_zero_of_lt hr.fill),
    Option.bind_eq_bind, Option.bind_some, hlen, htake]
  rw [← hbuf, hr.slen]
  rfl

/-- A frame drops the oldest slot and comes last. -/
theorem view_store {pktcap : Nat} {r : Ring} (hr : r.Valid pktcap) (f : Frame) :
    ∃ r', store pktcap r f = some r' ∧ r'.Valid pktcap ∧ r'.len = r.len ∧ r'.view = r.view.drop 1 ++ [f.slot pktcap] := by
  have hslot : (f.slot pktcap).length = r.slen := by rw [length_slot, hr.slen]
  have hslots := slots_eq_set hr.size hr.fill hslot (n := (r.fill + 1) % r.len)
  have hpos : 0 < r.len := Nat.zero_lt_of_lt hr.fill
  refine ⟨_, store_eq hr f, ⟨hr.slen, ?_, Nat.mod_lt _ hpos, hr.small⟩, rfl, ?_⟩
  · rw [length_writeAt]
    · exact hr.size
    · rw [hr.size, hslot, ← Nat.succ_mul]
      exact Nat.mul_le_mul_right _ hr.fill
  · rw [Ring.view, hslots]
    dsimp only
    have hmod := List.rotate_mod (r.slots.set r.fill (f.slot pktcap)) (r.fill + 1)
    rw [List.length_set, Ring.length_slots] at hmod
    rw [hmod, rotate_set (by rw [Ring.length_slots]; exact hr.fill)]
    rfl

/-- The frames that are not left out, as they are received. -/
def kept (filter : Filter) (frames : List (Option Frame)) : List Frame :=
  (frames.filterMap fun f => f.map fun f => { f with data := f.data.take 0xffff }).filter fun f => !filtered filter f.data

theorem kept_cons (filter : Filter) (f : Option Frame) (frames : List (Option Frame)) :
    kept filter (f :: frames) = kept filter [f] ++ kept filter frames := by
  rw [← List.singleton_append, kept, List.filterMap_append, List.filter_append]
  rfl

/-- A round leaves the ring alone or stores the frame. -/
theorem round_cases (filter : Filter) (pktcap : Nat) (s : Capture) (f : Option Frame) :
    (kept filter [f] = [] ∧ ∃ s', round filter pktcap s f = some s' ∧ s'.ring = s.ring) ∨
      ∃ f', kept filter [f] = [f'] ∧
        ∀ o, store pktcap s.ring f' = o → (round filter pktcap s f).map (·.ring) = o := by
  cases f with
  | none => exact Or.inl ⟨by simp [kept], _, rfl, rfl⟩
  | some f =>
    cases hf : filtered filter (f.data.take 0xffff) with
    | true =>
      refine Or.inl ⟨by simp [kept, hf], ?_⟩
      simp only [round, hf, if_true, Option.some.injEq, exists_eq_left']
    | false =>
      refine Or.inr ⟨{ f with data := f.data.take 0xffff }, by simp [kept, hf], ?_⟩
      rintro _ rfl
      simp [round, hf, Function.comp_def]

theorem view_round (filter : Filter) {pktcap : Nat} {s : Capture} (hs : s.ring.Valid pktcap) (f : Option Frame) :
    ∃ s', round filter pktcap s f = some s' ∧ s'.ring.Valid pktcap ∧ s'.ring.len = s.ring.len ∧
      s'.ring.view = (s.ring.view ++ (kept filter [f]).map (Frame.slot pktcap)).drop (kept filter [f]).length := by
  have hpos : 0 < s.ring.len := Nat.zero_lt_of_lt hs.fill
  rcases round_cases filter pktcap s f with ⟨hk, s', hs', hring⟩ | ⟨f', hk, hround⟩
  · refine ⟨s', hs', ?_⟩
    rw [hk, hring]
    exact ⟨hs, rfl, by simp⟩
  · obtain ⟨r', hr', hv, hlen, hview⟩ := view_store hs f'
    obtain ⟨s', hs', rfl⟩ := Option.map_eq_some_iff.mp (hround _ hr')
    refine ⟨s', hs', hv, hlen, ?_⟩
    rw [hk, List.map_singleton, List.length_singleton, List.drop_append_of_le_length (by rw [Ring.length_view]; exact hpos)]
    exact hview

/-- The slots after any frames. -/
theorem view_rounds (filter : Filter) {pktcap : Nat} {s : Capture} (hs : s.ring.Valid pktcap) (frames : List (Option Frame)) :
    ∃ s', frames.foldlM (round filter pktcap) s = some s' ∧ s'.ring.Valid pktcap ∧ s'.ring.len = s.ring.len ∧
      s'.ring.view = (s.ring.view ++ (kept filter frames).map (Frame.slot pktcap)).drop (kept filter frames).length := by
  induction frames generalizing s with
  | nil => exact ⟨s, rfl, hs, rfl, by simp [kept]⟩
  | cons f frames ih =>
    obtain ⟨s₁, h₁, hs₁, hlen₁, hv₁⟩ := view_round filter hs f
    obtain ⟨s₂, h₂, hs₂, hlen₂, hv₂⟩ := ih hs₁
    refine ⟨s₂, by rw [List.foldlM_cons, h₁]; exact h₂, hs₂, hlen₂.trans hlen₁, ?_⟩
    have hle : (kept filter [f]).length ≤ (s.ring.view ++ (kept filter [f]).map (Frame.slot pktcap)).length := by
      simp
    rw [hv₂, hv₁, kept_cons filter f frames, List.map_append, List.length_append, ← List.append_assoc, ← List.drop_drop,
      List.drop_append_of_le_length hle]

/-! ### What a dump writes -/

theorem view_eq (r : Ring) :
    r.view = (List.range r.len).map fun i => slice r.buf ((r.fill + i) % r.len * r.slen) r.slen := by
  apply List.ext_getElem (by simp)
  intro i hi _
  simp only [Ring.view, Ring.slots, List.getElem_rotate, List.length_map, List.length_range, List.getElem_map,
    List.getElem_range, Nat.add_comm i]

theorem ringbufGet_eq {pktcap : Nat} {r : Ring} (hr : r.Valid pktcap) {i : Nat} (hi : i < r.len) :
    ringbufGet r i =
      if 0 < (word (slice r.buf ((r.fill + i) % r.len * r.slen) r.slen) 0).toNat then some ((r.fill + i) % r.len * r.slen)
      else none := by
  have hslen : 16 ≤ r.slen := by rw [hr.slen, entrySize]; omega
  have hlt : (r.fill + i) % r.len * r.slen < 2 ^ 32 := by
    have := Nat.mul_lt_mul_of_pos_right (Nat.mod_lt (r.fill + i) (Nat.zero_lt_of_lt hi)) (show 0 < r.slen by omega)
    exact Nat.lt_of_lt_of_le this hr.small
  have hsum : r.fill + i < 2 ^ 32 := by
    have := Nat.mul_le_mul_left r.len hslen
    have := hr.fill
    have := hr.small
    omega
  rw [ringbufGet, Nat.mod_eq_of_lt hsum, Nat.mod_eq_of_lt hlt, word_slice (by omega)]
  rfl

theorem length_dump {pktcap : Nat} {r : Ring} (hr : r.Valid pktcap) :
    (dump r).length = r.view.countP fun s => 0 < (word s 0).toNat := by
  rw [dump, List.length_filterMap_eq_countP, view_eq, List.countP_map]
  apply List.countP_congr
  intro i hi
  rw [ringbufGet_eq hr (List.mem_range.mp hi), Function.comp_apply]
  split_ifs with h <;> simp [h]

theorem dump_eq {pktcap : Nat} {r : Ring} (hr : r.Valid pktcap) (hs : ∀ s ∈ r.view, (word s 0).toNat ≤ pktcap) :
    dump r = r.view.filterMap decode := by
  rw [view_eq] at hs ⊢
  rw [dump, List.filterMap_map]
  apply List.filterMap_congr
  intro i hi
  have hle := hs _ (List.mem_map_of_mem hi)
  have hslen : r.slen = pktcap + 16 := hr.slen
  rw [ringbufGet_eq hr (List.mem_range.mp hi), Function.comp_apply, decode]
  split_ifs with h
  · have hrec : record r.buf ((r.fill + i) % r.len * r.slen) = record (slice r.buf ((r.fill + i) % r.len * r.slen) r.slen) 0 := by
      rw [word_slice (by omega), Nat.add_zero] at hle
      simp only [record, entrySize, Nat.zero_add]
      rw [word_slice (by omega), word_slice (by omega), word_slice (by omega), word_slice (by omega),
        slice_slice (by rw [Nat.add_zero]; omega)]
      rfl
    rw [Option.map_some, hrec]
  · rfl

/-- The part of a frame that is read back from its slot. -/
theorem decode_slot {pktcap : Nat} {f : Frame} (hp : 0 < pktcap ∧ pktcap < 2 ^ 16) (hf : 0 < f.data.length ∧ f.data.length < 2 ^ 16) :
    (word (f.slot pktcap) 0).toNat = min f.data.length pktcap ∧ decode (f.slot pktcap) = some (f.record pktcap) := by
  obtain ⟨ws, hws⟩ : ∃ ws : List UInt32, ws = [.ofNat (min f.data.length pktcap), .ofNat f.data.length, f.sec, f.usec] := ⟨_, rfl⟩
  have hslot : f.slot pktcap = unwords ws ++ (f.data.take pktcap ++ List.replicate (pktcap - f.data.length) 0) := by
    rw [hws]
    rfl
  have hword : ∀ i (hi : i < ws.length), word (f.slot pktcap) (4 * i) = ws[i] := by
    intro i hi
    rw [hslot]
    exact word_unwords ws _ i hi
  subst hws
  have h0 : (word (f.slot pktcap) 0).toNat = min f.data.length pktcap := by
    rw [hword 0 (by simp)]
    simp only [List.getElem_cons_zero, UInt32.toNat_ofNat']
    omega
  have h1 : (word (f.slot pktcap) 4).toNat = f.data.length := by
    rw [hword 1 (by simp)]
    simp only [List.getElem_cons_succ, List.getElem_cons_zero, UInt32.toNat_ofNat']
    omega
  have hdata : slice (f.slot pktcap) entrySize (min f.data.length pktcap) = f.data.take pktcap := by
    rw [hslot, slice, List.drop_left' (by simp [entrySize]), List.take_left' (by rw [List.length_take, Nat.min_comm])]
  refine ⟨h0, ?_⟩
  rw [decode, if_pos (by rw [h0]; omega)]
  simp only [record, Frame.record, Nat.zero_add, h0, h1, hdata]
  rw [hword 2 (by simp), hword 3 (by simp), Nat.mod_eq_of_lt (by omega), Nat.mod_eq_of_lt (by omega)]
  rfl

theorem length_kept {filter : Filter} {frames : List (Option Frame)} {f : Frame} (hf : f ∈ kept filter frames) :
    0 < f.data.length ∧ f.data.length < 2 ^ 16 := by
  obtain ⟨hf, hnot⟩ := List.mem_filter.mp hf
  obtain ⟨g, -, hg⟩ := List.mem_filterMap.mp hf
  obtain ⟨g, -, rfl⟩ := Option.map_eq_some_iff.mp hg
  constructor
  · by_contra h
    have hshort : (g.data.take 0xffff).length ≤ 8 := by
      dsimp only at h
      omega
    rw [filtered, if_pos (Or.inl hshort)] at hnot
    cases hnot
  · simp only [List.length_take]
    omega

/-! ### The ring at the start -/

theorem option_bounds {g g' : Geometry} {o : Opt} (hg : 0 < g.pktcap ∧ g.pktcap < 2 ^ 16) (h : g.option o = some g') :
    0 < g'.pktcap ∧ g'.pktcap < 2 ^ 16 := by
  cases o with
  | r n =>
    simp only [Geometry.option] at h
    split_ifs at h
    cases h
    exact hg
  | c n =>
    simp only [Geometry.option] at h
    split_ifs at h with hn
    cases h
    dsimp only
    omega

theorem geometry_bounds {opts : List Opt} {g : Geometry} (h : geometry opts = some g) : 0 < g.pktcap ∧ g.pktcap < 2 ^ 16 := by
  have hrun : ∀ (opts : List Opt) (g₀ : Geometry), 0 < g₀.pktcap ∧ g₀.pktcap < 2 ^ 16 → opts.foldlM Geometry.option g₀ = some g →
      0 < g.pktcap ∧ g.pktcap < 2 ^ 16 := by
    intro opts
    induction opts with
    | nil =>
      rintro g₀ hg₀ ⟨⟩
      exact hg₀
    | cons o opts ih =>
      intro g₀ hg₀ h
      obtain ⟨g₁, h₁, h⟩ := Option.bind_eq_some_iff.mp h
      exact ih g₁ (option_bounds hg₀ h₁) h
  exact hrun opts {} (by decide) h

/-- The number of slots and the memory that is allocated for them. -/
def Geometry.len (g : Geometry) : Nat := g.ringsz / g.pktcap

def Geometry.size (g : Geometry) : Nat := g.len * (g.pktcap + entrySize)

theorem valid_ringbufInit {g : Geometry} {mem : Bytes} (hm : mem.length = g.size) (hs : g.size ≤ 2 ^ 32) (hl : 0 < g.len) :
    (ringbufInit g.len g.pktcap mem).Valid g.pktcap := by
  refine ⟨rfl, ?_, hl, hs⟩
  have hle : g.len * g.pktcap ≤ g.size := Nat.mul_le_mul_left _ (Nat.le_add_right _ _)
  simp only [ringbufInit]
  rw [length_writeAt (by rw [List.length_replicate]; omega)]
  exact hm

theorem word_eq_zero_iff {b : Bytes} {e : Nat} (h : e + 4 ≤ b.length) :
    word b e = 0 ↔ ∀ j, e ≤ j → j < e + 4 → b.getD j 0 = 0 := by
  obtain ⟨w, x, y, z, hw⟩ : ∃ w x y z, slice b e 4 = [w, x, y, z] := by
    have hlen : (slice b e 4).length = 4 := by
      simp only [slice, List.length_take, List.length_drop]
      omega
    generalize slice b e 4 = l at hlen
    rcases l with - | ⟨w, - | ⟨x, - | ⟨y, - | ⟨z, - | ⟨a, l⟩⟩⟩⟩⟩
    case cons.cons.cons.cons.nil => exact ⟨w, x, y, z, rfl⟩
    all_goals simp at hlen
  have hget : ∀ i < 4, b.getD (e + i) 0 = [w, x, y, z].getD i 0 := by
    intro i hi
    rw [← hw, slice, List.getD_eq_getElem?_getD, List.getD_eq_getElem?_getD, List.getElem?_take, if_pos hi, List.getElem?_drop]
  have hzero : word b e = 0 ↔ w = 0 ∧ x = 0 ∧ y = 0 ∧ z = 0 := by
    rw [word_eq_slice, hw]
    simp only [word, words, List.drop_zero, List.take, List.head?_cons, Option.getD_some, ofLe32, ← UInt32.toNat_inj,
      ← UInt8.toNat_inj, UInt32.toNat_ofNat', UInt32.toNat_ofNat, UInt8.toNat_ofNat]
    have := w.toNat_lt
    have := x.toNat_lt
    have := y.toNat_lt
    have := z.toNat_lt
    omega
  rw [hzero]
  constructor
  · rintro ⟨rfl, rfl, rfl, rfl⟩ j hj hlt
    obtain ⟨i, rfl⟩ := Nat.exists_eq_add_of_le hj
    rw [hget i (by omega)]
    obtain rfl | rfl | rfl | rfl : i = 0 ∨ i = 1 ∨ i = 2 ∨ i = 3 := by omega
    all_goals rfl
  · intro hall
    refine ⟨?_, ?_, ?_, ?_⟩
    · exact (hget 0 (by omega)).symm.trans (hall (e + 0) (by omega) (by omega))
    · exact (hget 1 (by omega)).symm.trans (hall (e + 1) (by omega) (by omega))
    · exact (hget 2 (by omega)).symm.trans (hall (e + 2) (by omega) (by omega))
    · exact (hget 3 (by omega)).symm.trans (hall (e + 3) (by omega) (by omega))

/-- The lengths of the slots from the `k`th on are zero, where the memory is not cleared. -/
def Cleared (g : Geometry) (mem : Bytes) (k : Nat) : Prop :=
  ∀ i, k ≤ i → i < g.len → ∀ j, i * (g.pktcap + entrySize) ≤ j → j < i * (g.pktcap + entrySize) + 4 → g.len * g.pktcap ≤ j →
    mem.getD j 0 = 0

theorem cleared_iff {g : Geometry} {mem : Bytes} (hm : mem.length = g.size) {k : Nat} :
    Cleared g mem k ↔ ∀ s ∈ (ringbufInit g.len g.pktcap mem).slots.drop k, word s 0 = 0 := by
  have hle : g.len * g.pktcap ≤ mem.length := by
    rw [hm]
    exact Nat.mul_le_mul_left _ (Nat.le_add_right _ _)
  have hget : ∀ j, (ringbufInit g.len g.pktcap mem).buf.getD j 0 = if j < g.len * g.pktcap then 0 else mem.getD j 0 := by
    intro j
    simp only [ringbufInit, writeAt, List.take_zero, List.nil_append, List.getD_eq_getElem?_getD, List.getElem?_append,
      List.length_replicate, List.getElem?_replicate, List.getElem?_drop, Nat.zero_add]
    split_ifs with h
    · rfl
    · rw [Nat.add_sub_of_le (by omega)]
  have hslot : ∀ i < g.len, word (slice (ringbufInit g.len g.pktcap mem).buf (i * (g.pktcap + entrySize)) (g.pktcap + entrySize)) 0 = 0 ↔
      ∀ j, i * (g.pktcap + entrySize) ≤ j → j < i * (g.pktcap + entrySize) + 4 → g.len * g.pktcap ≤ j → mem.getD j 0 = 0 := by
    intro i hi
    have hend : i * (g.pktcap + entrySize) + (g.pktcap + entrySize) ≤ mem.length := by
      rw [hm, Geometry.size, ← Nat.succ_mul]
      exact Nat.mul_le_mul_right _ hi
    have hbuf : (ringbufInit g.len g.pktcap mem).buf.length = mem.length := by
      simp only [ringbufInit]
      rw [length_writeAt (by rw [List.length_replicate]; omega)]
    rw [word_slice (by rw [entrySize]; omega), Nat.add_zero, word_eq_zero_iff (by rw [hbuf]; simp only [entrySize] at hend ⊢; omega)]
    apply forall_congr'
    intro j
    rw [hget]
    constructor
    · intro h h₁ h₂ h₃
      simpa [Nat.not_lt.mpr h₃] using h h₁ h₂
    · intro h h₁ h₂
      split_ifs with h₃
      · rfl
      · exact h h₁ h₂ (by omega)
  constructor
  · intro h s hs
    obtain ⟨i, hi, rfl⟩ := List.getElem_of_mem hs
    simp only [List.length_drop, Ring.length_slots] at hi
    have hlt : k + i < g.len := by
      simp only [ringbufInit] at hi
      omega
    rw [List.getElem_drop]
    simp only [Ring.slots, List.getElem_map, List.getElem_range]
    exact (hslot (k + i) hlt).mpr (h (k + i) (by omega) hlt)
  · intro h i hk hi
    apply (hslot i hi).mp
    apply h
    have hlen : i < (ringbufInit g.len g.pktcap mem).slots.length := by
      rw [Ring.length_slots]
      exact hi
    have hmem := List.getElem_mem (l := (ringbufInit g.len g.pktcap mem).slots.drop k) (n := i - k) (by rw [List.length_drop]; omega)
    rw [List.getElem_drop] at hmem
    simp only [Nat.add_sub_of_le hk, Ring.slots, List.getElem_map, List.getElem_range] at hmem
    exact hmem

/-! ### The frames that are dumped -/

/-- The program goes through these frames, and a dump then has the last ones that fit, in their order. -/
def Dumps (filter : Filter) (g : Geometry) (mem : Bytes) (frames : List (Option Frame)) : Prop :=
  ∃ s, capture filter g mem frames = some s ∧
    dump s.ring = ((kept filter frames).drop ((kept filter frames).length - g.len)).map (Frame.record g.pktcap)

/-- Without slots, the first frame that is kept divides by zero. -/
theorem round_of_len_eq_zero (filter : Filter) (pktcap : Nat) {s : Capture} (h : s.ring.len = 0) (f : Option Frame) :
    (kept filter [f] = [] ∧ ∃ s', round filter pktcap s f = some s' ∧ s'.ring.len = 0) ∨
      (kept filter [f] ≠ [] ∧ round filter pktcap s f = none) := by
  rcases round_cases filter pktcap s f with ⟨hk, s', hs', hring⟩ | ⟨f', hk, hround⟩
  · exact Or.inl ⟨hk, s', hs', by rw [hring, h]⟩
  · have hnone := hround none (by simp [store, ringbufAdd, h])
    exact Or.inr ⟨by simp [hk], Option.map_eq_none_iff.mp hnone⟩

theorem rounds_of_len_eq_zero (filter : Filter) (pktcap : Nat) {s : Capture} (h : s.ring.len = 0) (frames : List (Option Frame)) :
    (kept filter frames = [] ∧ ∃ s', frames.foldlM (round filter pktcap) s = some s' ∧ s'.ring.len = 0) ∨
      (kept filter frames ≠ [] ∧ frames.foldlM (round filter pktcap) s = none) := by
  induction frames generalizing s with
  | nil => exact Or.inl ⟨rfl, s, rfl, h⟩
  | cons f frames ih =>
    rw [List.foldlM_cons, kept_cons]
    rcases round_of_len_eq_zero filter pktcap h f with ⟨hk, s₁, h₁, hlen⟩ | ⟨hk, h₁⟩
    · rw [h₁, hk, List.nil_append]
      exact ih hlen
    · rw [h₁]
      exact Or.inr ⟨by simp [hk], rfl⟩

theorem dumps_iff_of_len_eq_zero {filter : Filter} {g : Geometry} {mem : Bytes} {frames : List (Option Frame)} (h : g.len = 0) :
    Dumps filter g mem frames ↔ kept filter frames = [] := by
  have hrun := rounds_of_len_eq_zero filter g.pktcap (s := { ring := ringbufInit g.len g.pktcap mem }) h frames
  constructor
  · rintro ⟨s, hs, -⟩
    rcases hrun with ⟨hk, -⟩ | ⟨-, hnone⟩
    · exact hk
    · cases hs.symm.trans hnone
  · intro hk
    rcases hrun with ⟨-, s, hs, hlen⟩ | ⟨hne, -⟩
    · exact ⟨s, hs, by simp [dump, hlen, hk]⟩
    · exact absurd hk hne

theorem dumps_iff_cleared {opts : List Opt} {g : Geometry} (hg : geometry opts = some g) {mem : Bytes} (hm : mem.length = g.size)
    (hs : g.size ≤ 2 ^ 32) (hl : 0 < g.len) {filter : Filter} {frames : List (Option Frame)} :
    Dumps filter g mem frames ↔ Cleared g mem (kept filter frames).length := by
  have hp := geometry_bounds hg
  obtain ⟨s, hrun, hv, -, hview⟩ := view_rounds filter (s := { ring := ringbufInit g.len g.pktcap mem })
    (valid_ringbufInit hm hs hl) frames
  obtain ⟨last, hlast⟩ : ∃ last, last = (kept filter frames).drop ((kept filter frames).length - g.len) := ⟨_, rfl⟩
  have hview : s.ring.view = (ringbufInit g.len g.pktcap mem).slots.drop (kept filter frames).length ++
      last.map (Frame.slot g.pktcap) := by
    rw [hview, List.drop_append, Ring.length_view, hlast, List.map_drop, Ring.view, show (ringbufInit _ _ _).fill = 0 from rfl,
      List.rotate_zero]
    rfl
  have hstored : ∀ f ∈ last, (word (f.slot g.pktcap) 0).toNat = min f.data.length g.pktcap ∧
      0 < min f.data.length g.pktcap ∧ decode (f.slot g.pktcap) = some (f.record g.pktcap) := by
    intro f hf
    rw [hlast] at hf
    have hf := length_kept (List.mem_of_mem_drop hf)
    exact ⟨(decode_slot hp hf).1, by omega, (decode_slot hp hf).2⟩
  rw [cleared_iff hm]
  constructor
  · rintro ⟨s', hs', hdump⟩
    cases hrun.symm.trans hs'
    have hall : (last.map (Frame.slot g.pktcap)).countP (fun s => 0 < (word s 0).toNat) = last.length := by
      rw [List.countP_map, List.countP_eq_length]
      intro f hf
      simp [(hstored f hf).1, (hstored f hf).2.1]
    have hcount := congrArg List.length hdump
    rw [length_dump hv, hview, List.countP_append, hall, List.length_map, ← hlast, Nat.add_eq_right, List.countP_eq_zero] at hcount
    intro s hs
    have := hcount s hs
    simpa [← UInt32.toNat_inj] using this
  · intro hzero
    refine ⟨s, hrun, ?_⟩
    have hnone : ∀ s ∈ (ringbufInit g.len g.pktcap mem).slots.drop (kept filter frames).length, decode s = none := by
      intro s hs
      rw [decode, hzero s hs]
      rfl
    have hsome : (last.map (Frame.slot g.pktcap)).filterMap decode = last.map (Frame.record g.pktcap) := by
      rw [List.filterMap_map, ← List.filterMap_eq_map]
      exact List.filterMap_congr fun f hf => (hstored f hf).2.2
    rw [dump_eq hv, hview, List.filterMap_append, List.filterMap_eq_nil_iff.mpr hnone, hsome, ← hlast, List.nil_append]
    intro s hs
    rw [hview] at hs
    rcases List.mem_append.mp hs with hs | hs
    · rw [hzero s hs]
      exact Nat.zero_le _
    · obtain ⟨f, hf, rfl⟩ := List.mem_map.mp hs
      rw [(hstored f hf).1]
      exact Nat.min_le_right _ _

/-- A ring of at most 4 GiB dumps the last frames exactly where it has a slot for them and the lengths of the slots not
    written yet happen to be zero. -/
theorem dumps_iff {opts : List Opt} {g : Geometry} (hg : geometry opts = some g) {mem : Bytes} (hm : mem.length = g.size)
    (filter : Filter) (frames : List (Option Frame)) :
    (g.size ≤ 2 ^ 32 ∧ (kept filter frames = [] ∨ 0 < g.len) ∧ Cleared g mem (kept filter frames).length →
      Dumps filter g mem frames) ∧
    (g.size ≤ 2 ^ 32 → Dumps filter g mem frames →
      (kept filter frames = [] ∨ 0 < g.len) ∧ Cleared g mem (kept filter frames).length) := by
  rcases Nat.eq_zero_or_pos g.len with hl | hl
  · rw [dumps_iff_of_len_eq_zero hl]
    constructor
    · rintro ⟨-, hk | hpos, -⟩
      · exact hk
      · omega
    · intro _ hk
      exact ⟨Or.inl hk, fun i _ hi => by omega⟩
  · constructor
    · rintro ⟨hs, -, hc⟩
      exact (dumps_iff_cleared hg hm hs hl).mpr hc
    · intro hs hd
      exact ⟨Or.inr hl, (dumps_iff_cleared hg hm hs hl).mp hd⟩

/-- A ring of 64 slots in memory that is not zero: the dump before any frame has records. -/
theorem dumps_dirty : geometry [.c 64, .r 4096] = some { ringsz := 4096, pktcap := 64 } ∧
    ¬Dumps {} { ringsz := 4096, pktcap := 64 } (List.replicate 5120 1) [] := by
  have hg : geometry [.c 64, .r 4096] = some { ringsz := 4096, pktcap := 64 } := rfl
  refine ⟨hg, ?_⟩
  rw [dumps_iff_cleared hg (by rw [List.length_replicate]; decide) (by decide) (by decide)]
  intro h
  have hbyte := h 63 (by decide) (by decide) 5040 (by decide) (by decide) (by decide)
  rw [List.getD_eq_getElem?_getD, List.getElem?_replicate, if_pos (by decide)] at hbyte
  exact absurd hbyte (by decide)

/-- A radiotap header of eight bytes, the type of the frame and other bytes. -/
def radiotap (type : UInt8) (body : Bytes) : Bytes := [0, 0, 8, 0, 0, 0, 0, 0, type] ++ body

/-- A beacon, an error and four frames of data, the third of which is too long, for three slots. -/
def fourData : List (Option Frame) :=
  [some ⟨1, 0, radiotap 0x08 [1]⟩, some ⟨2, 0, radiotap 0x80 [2]⟩, some ⟨3, 0, radiotap 0x08 [3]⟩, none,
   some ⟨4, 500, radiotap 0x08 (List.replicate 91 4)⟩, some ⟨5, 0, radiotap 0x08 []⟩]

theorem dumps_fourData : ∃ s, capture { beacon := true } { ringsz := 192, pktcap := 64 } (List.replicate 240 1) fourData = some s ∧
    dump s.ring = [⟨3, 0, 10, 10, radiotap 0x08 [3]⟩, ⟨4, 500, 64, 100, radiotap 0x08 (List.replicate 55 4)⟩,
      ⟨5, 0, 9, 9, radiotap 0x08 []⟩] := by
  have hg : geometry [.c 64, .r 192] = some { ringsz := 192, pktcap := 64 } := rfl
  have hcleared : Cleared { ringsz := 192, pktcap := 64 } (List.replicate 240 1) (kept { beacon := true } fourData).length := by
    intro i hk hi
    have hle : 4 ≤ i := hk
    have hlt : i < 3 := hi
    omega
  obtain ⟨s, hs, hdump⟩ := (dumps_iff hg (by rw [List.length_replicate]; rfl) { beacon := true } fourData).1
    ⟨by decide, Or.inr (by decide), hcleared⟩
  exact ⟨s, hs, hdump.trans (by decide)⟩

end RainWrt.Iwcap
