import RainWrt.Nvram
import RainWrt.Theorems.Lists

/-! What `nvram_open` finds behind `nvram_commit`. -/

namespace RainWrt.Nvram

/-! ### The hash table -/

/-- The value under a name in a list of tuples. -/
def lookup (ts : List Tuple) (name : Bytes) : Option Bytes := (ts.find? (·.name = name)).map (·.value)

theorem lookup_cons (t : Tuple) (ts : List Tuple) (name : Bytes) :
    lookup (t :: ts) name = if t.name = name then some t.value else lookup ts name := by
  unfold lookup
  split_ifs with h <;> simp [h]

theorem lookup_eq_none {ts : List Tuple} {name : Bytes} : lookup ts name = none ↔ name ∉ ts.map Tuple.name := by
  simp [lookup, List.find?_eq_none]

theorem lookup_of_mem {ts : List Tuple} (h : (ts.map Tuple.name).Nodup) {t : Tuple} (ht : t ∈ ts) : lookup ts t.name = some t.value := by
  induction ts with
  | nil => cases ht
  | cons x ts ih =>
    rw [List.map_cons, List.nodup_cons] at h
    rw [lookup_cons]
    rcases List.mem_cons.mp ht with rfl | ht
    · rw [if_pos rfl]
    · rw [if_neg, ih h.2 ht]
      intro hx
      exact h.1 (hx ▸ List.mem_map_of_mem ht)

theorem exists_of_lookup {ts : List Tuple} {name value : Bytes} (h : lookup ts name = some value) : { name, value } ∈ ts := by
  obtain ⟨t, ht, rfl⟩ := Option.map_eq_some_iff.mp h
  have hname : t.name = name := by simpa using List.find?_some ht
  rw [← hname]
  exact List.mem_of_find?_eq_some ht

theorem lookup_replace {name : Bytes} (value : Bytes) {c : List Tuple} (hc : name ∈ c.map Tuple.name) (m : Bytes) :
    lookup (Handle.replace name value c) m = if m = name then some value else lookup c m := by
  induction c with
  | nil => cases hc
  | cons t c ih =>
    unfold Handle.replace
    by_cases h : t.name = name
    · rw [if_pos h, lookup_cons, lookup_cons, h]
      dsimp only
      by_cases hm : m = name
      · rw [if_pos hm.symm, if_pos hm]
      · rw [if_neg (Ne.symm hm), if_neg hm, if_neg (Ne.symm hm)]
    · have hmem : name ∈ c.map Tuple.name := by
        rw [List.map_cons, List.mem_cons] at hc
        exact hc.resolve_left fun heq => h heq.symm
      rw [if_neg h, lookup_cons, lookup_cons, ih hmem]
      by_cases hm : m = name
      · rw [if_neg (by rw [hm]; exact h), if_pos hm, if_pos hm]
      · rw [if_neg hm, if_neg hm]

theorem lookup_setChain (name value : Bytes) (c : List Tuple) (m : Bytes) :
    lookup (Handle.setChain name value c) m = if m = name then some value else lookup c m := by
  unfold Handle.setChain
  by_cases hc : name ∈ c.map Tuple.name
  · rw [if_pos (by simpa using hc), lookup_replace value hc]
  · rw [if_neg (by simpa using hc), lookup_cons]
    by_cases hm : m = name
    · rw [if_pos hm.symm, if_pos hm]
    · rw [if_neg (Ne.symm hm), if_neg hm]

theorem mem_replace {name value : Bytes} {c : List Tuple} {t : Tuple} (h : t ∈ Handle.replace name value c) :
    t ∈ c ∨ t = { name, value } := by
  induction c with
  | nil => cases h
  | cons x c ih =>
    unfold Handle.replace at h
    split_ifs at h with hx
    · rcases List.mem_cons.mp h with rfl | h
      · exact Or.inr (by rw [hx])
      · exact Or.inl (List.mem_cons_of_mem _ h)
    · rcases List.mem_cons.mp h with rfl | h
      · exact Or.inl List.mem_cons_self
      · exact (ih h).imp_left (List.mem_cons_of_mem _)

theorem names_replace (name value : Bytes) (c : List Tuple) : (Handle.replace name value c).map Tuple.name = c.map Tuple.name := by
  induction c with
  | nil => rfl
  | cons x c ih =>
    unfold Handle.replace
    split_ifs
    · rfl
    · rw [List.map_cons, List.map_cons, ih]

theorem mem_setChain {name value : Bytes} {c : List Tuple} {t : Tuple} (h : t ∈ Handle.setChain name value c) :
    t ∈ c ∨ t = { name, value } := by
  unfold Handle.setChain at h
  split_ifs at h
  · exact mem_replace h
  · exact (List.mem_cons.mp h).symm

theorem names_setChain {name value : Bytes} {c : List Tuple} (h : (c.map Tuple.name).Nodup) :
    ((Handle.setChain name value c).map Tuple.name).Nodup := by
  unfold Handle.setChain
  split_ifs with hc
  · rw [names_replace]
    exact h
  · rw [List.map_cons, List.nodup_cons]
    exact ⟨by simpa using hc, h⟩

namespace Handle

/-- What holds of every hash table: each tuple is in the chain of its name, once, and its texts are C strings of
    which the first has no `=`. -/
structure Tidy (chain : Nat → List Tuple) : Prop where
  placed : ∀ i, ∀ t ∈ chain i, bucket t.name = i
  names : ∀ i, ((chain i).map Tuple.name).Nodup
  plain : ∀ i, ∀ t ∈ chain i, 0 ∉ t.name ∧ 61 ∉ t.name ∧ 0 ∉ t.value

/-- What holds of every handle: the header lies at the first magic number, with enough space behind it. -/
structure Valid (h : Handle) : Prop where
  size : h.mem.length < 2 ^ 31
  aligned : 4 ∣ h.offset
  room : h.offset + NVRAM_MIN_SPACE ≤ h.mem.length
  first : ∀ i < h.offset / 4, word h.mem (4 * i) ≠ NVRAM_MAGIC
  tidy : Tidy h.chain

theorem get_eq (h : Handle) (name : Bytes) : h.get name = lookup (h.chain (bucket name)) name := rfl

theorem get_set {h : Handle} (name value : Bytes) (hfits : value.length < h.space) (m : Bytes) :
    (h.set name value).2.get m = if m = name then some value else h.get m := by
  rw [set, if_neg (by omega), get_eq, get_eq]
  dsimp only
  by_cases hb : bucket m = bucket name
  · rw [hb, Function.update_self, lookup_setChain]
  · rw [Function.update_of_ne hb, if_neg (fun hm => hb (by rw [hm]))]

theorem tidy_empty : Tidy fun _ => [] := ⟨nofun, fun _ => List.nodup_nil, nofun⟩

theorem Tidy.update {chain : Nat → List Tuple} (h : Tidy chain) {i : Nat} {c : List Tuple}
    (hplaced : ∀ t ∈ c, bucket t.name = i) (hnames : (c.map Tuple.name).Nodup)
    (hplain : ∀ t ∈ c, 0 ∉ t.name ∧ 61 ∉ t.name ∧ 0 ∉ t.value) : Tidy (Function.update chain i c) := by
  refine ⟨fun j t ht => ?_, fun j => ?_, fun j t ht => ?_⟩
  all_goals by_cases hj : j = i
  · subst hj
    rw [Function.update_self] at ht
    exact hplaced t ht
  · rw [Function.update_of_ne hj] at ht
    exact h.placed j t ht
  · subst hj
    rw [Function.update_self]
    exact hnames
  · rw [Function.update_of_ne hj]
    exact h.names j
  · subst hj
    rw [Function.update_self] at ht
    exact hplain t ht
  · rw [Function.update_of_ne hj] at ht
    exact h.plain j t ht

theorem tidy_set {h : Handle} (ht : Tidy h.chain) {name value : Bytes} (hname : 0 ∉ name ∧ 61 ∉ name) (hvalue : 0 ∉ value) :
    Tidy (h.set name value).2.chain := by
  unfold set
  split_ifs
  · exact ht
  · refine ht.update (fun t hmem => ?_) (names_setChain (ht.names _)) fun t hmem => ?_
    · rcases mem_setChain hmem with hold | rfl
      · exact ht.placed _ t hold
      · rfl
    · rcases mem_setChain hmem with hold | rfl
      · exact ht.plain _ t hold
      · exact ⟨hname.1, hname.2, hvalue⟩

theorem set_mem (h : Handle) (name value : Bytes) : (h.set name value).2.mem = h.mem ∧ (h.set name value).2.offset = h.offset := by
  unfold set
  split_ifs <;> exact ⟨rfl, rfl⟩

/-- The handles stay valid. -/
theorem Valid.set {h : Handle} (hv : h.Valid) {name value : Bytes} (hname : 0 ∉ name ∧ 61 ∉ name) (hvalue : 0 ∉ value) :
    (h.set name value).2.Valid := by
  obtain ⟨hm, ho⟩ := h.set_mem name value
  refine ⟨by rw [hm]; exact hv.size, by rw [ho]; exact hv.aligned, by rw [hm, ho]; exact hv.room, ?_, tidy_set hv.tidy hname hvalue⟩
  rw [hm, ho]
  exact hv.first

theorem Valid.unset {h : Handle} (hv : h.Valid) (name : Bytes) : (h.unset name).Valid := by
  refine ⟨hv.size, hv.aligned, hv.room, hv.first, hv.tidy.update (fun t hmem => ?_) ?_ fun t hmem => ?_⟩
  · exact hv.tidy.placed _ t (List.mem_of_mem_eraseP hmem)
  · exact ((List.eraseP_sublist).map _).nodup (hv.tidy.names _)
  · exact hv.tidy.plain _ t (List.mem_of_mem_eraseP hmem)

/-- All tuples, in the order of the hash table. -/
def tuples (h : Handle) : List Tuple := h.chains.flatten

theorem mem_tuples {h : Handle} (ht : Tidy h.chain) {t : Tuple} : t ∈ h.tuples ↔ t ∈ h.chain (bucket t.name) := by
  simp only [tuples, chains, List.mem_flatten, List.mem_map, List.mem_range]
  constructor
  · rintro ⟨_, ⟨i, -, rfl⟩, hmem⟩
    rw [ht.placed i t hmem]
    exact hmem
  · exact fun hmem => ⟨_, ⟨_, Nat.mod_lt _ (by decide), rfl⟩, hmem⟩

theorem names_tuples {h : Handle} (ht : Tidy h.chain) : (h.tuples.map Tuple.name).Nodup := by
  rw [tuples, chains, ← List.flatMap_def, List.map_flatMap, List.nodup_flatMap]
  refine ⟨fun i _ => ht.names i, List.nodup_range.imp fun {i j} hij => ?_⟩
  rw [Function.onFun, List.disjoint_left]
  intro name hi hj
  obtain ⟨t, hti, rfl⟩ := List.mem_map.mp hi
  obtain ⟨u, huj, hu⟩ := List.mem_map.mp hj
  rw [← ht.placed i t hti, ← ht.placed j u huj, hu] at hij
  exact hij rfl

theorem get_eq_lookup {h : Handle} (ht : Tidy h.chain) (name : Bytes) : h.get name = lookup h.tuples name := by
  rw [get_eq]
  cases hg : lookup (h.chain (bucket name)) name with
  | none =>
    rw [lookup_eq_none] at hg
    refine (lookup_eq_none.mpr fun hmem => hg ?_).symm
    obtain ⟨t, htm, rfl⟩ := List.mem_map.mp hmem
    exact List.mem_map_of_mem ((mem_tuples ht).mp htm)
  | some value =>
    have hmem := (mem_tuples ht).mpr (exists_of_lookup hg)
    exact (lookup_of_mem (names_tuples ht) hmem).symm

end Handle

/-! ### Parsing what was written -/

theorem pairs_cons {t : Tuple} (h : 0 ∉ t.name ∧ 61 ∉ t.name ∧ 0 ∉ t.value) (rest : Bytes) : pairs (t.bytes ++ rest) = t :: pairs rest := by
  obtain ⟨hname, heq, hvalue⟩ := h
  have htext : ∀ c ∈ t.name ++ 61 :: t.value, c ≠ 0 := by
    intro c hc
    rcases List.mem_append.mp hc with hc | hc
    · exact fun h0 => hname (h0 ▸ hc)
    · rcases List.mem_cons.mp hc with rfl | hc
      · decide
      · exact fun h0 => hvalue (h0 ▸ hc)
  have hdata : t.bytes ++ rest = (t.name ++ 61 :: t.value) ++ 0 :: rest := by simp [Tuple.bytes]
  have htake : (t.bytes ++ rest).takeWhile (· ≠ 0) = t.name ++ 61 :: t.value := by
    rw [hdata, List.takeWhile_append_of_pos fun c hc => by simpa using htext c hc]
    simp
  have hdrop : (t.bytes ++ rest).dropWhile (· ≠ 0) = 0 :: rest := by
    rw [hdata, List.dropWhile_append_of_pos fun c hc => by simpa using htext c hc]
    simp
  have hne : ∀ c ∈ t.name, decide (c ≠ 61) = true := fun c hc => decide_eq_true fun h => heq (h ▸ hc)
  have hstart : ¬(t.bytes ++ rest = [] ∨ (t.bytes ++ rest).head? = some 0) := by
    rw [hdata]
    cases hn : t.name with
    | nil => simp
    | cons c s =>
      have := htext c (by simp [hn])
      simpa using this
  rw [pairs, dif_neg hstart]
  simp only [htake, hdrop]
  rw [if_pos (by simp), List.takeWhile_append_of_pos hne, List.dropWhile_append_of_pos hne]
  simp

theorem pairs_written {ts : List Tuple} (h : ∀ t ∈ ts, 0 ∉ t.name ∧ 61 ∉ t.name ∧ 0 ∉ t.value) (rest : Bytes) :
    pairs (ts.flatMap Tuple.bytes ++ 0 :: rest) = ts := by
  induction ts with
  | nil =>
    rw [pairs, dif_pos (by simp)]
  | cons t ts ih =>
    rw [List.flatMap_cons, List.append_assoc, pairs_cons (h t List.mem_cons_self), ih fun u hu => h u (List.mem_cons_of_mem _ hu)]

/-! ### The table behind `_nvram_rehash` -/

/-- The special SDRAM parameters of a header. -/
def defaults (hdr : Header) : List Tuple :=
  [{ name := sdramInit, value := hex16 (hdr.crcVerInit >>> 16) }, { name := sdramConfig, value := hex16 (low16 hdr.configRefresh) },
    { name := sdramRefresh, value := hex16 (low16 (hdr.configRefresh >>> 16)) }, { name := sdramNcdl, value := hex32 hdr.configNcdl }]

theorem length_hexDigits (width n : Nat) : (hexDigits width n).length = width := by
  induction width generalizing n with
  | zero => rfl
  | succ width ih => rw [hexDigits, List.length_append, ih, List.length_singleton]

theorem length_ascii (s : String) : (ascii s).length = s.toList.length := List.length_map _

theorem length_default {hdr : Header} {t : Tuple} (h : t ∈ defaults hdr) : t.value.length ≤ 10 := by
  have h16 : ∀ n, (hex16 n).length ≤ 10 := fun n => by
    rw [hex16, List.length_append, length_hexDigits, length_ascii]
    decide
  have h32 : ∀ n, (hex32 n).length ≤ 10 := fun n => by
    rw [hex32, List.length_append, length_hexDigits, length_ascii]
    decide
  simp only [defaults, List.mem_cons, List.not_mem_nil, or_false] at h
  obtain rfl | rfl | rfl | rfl := h
  · exact h16 _
  · exact h16 _
  · exact h16 _
  · exact h32 _

theorem space_set (h : Handle) (name value : Bytes) : (h.set name value).2.space = h.space := by
  obtain ⟨hm, ho⟩ := h.set_mem name value
  rw [Handle.space, Handle.space, hm, ho]

theorem get_setAll {ts : List Tuple} (hnames : (ts.map Tuple.name).Nodup) (h : Handle) (hfits : ∀ t ∈ ts, t.value.length < h.space)
    (name : Bytes) : (ts.foldl (fun h t => (h.set t.name t.value).2) h).get name = (lookup ts name).or (h.get name) := by
  induction ts generalizing h with
  | nil => rfl
  | cons t ts ih =>
    rw [List.map_cons, List.nodup_cons] at hnames
    have hfits' : ∀ u ∈ ts, u.value.length < (h.set t.name t.value).2.space := fun u hu => by
      rw [space_set]
      exact hfits u (List.mem_cons_of_mem _ hu)
    rw [List.foldl_cons, ih hnames.2 _ hfits', Handle.get_set t.name t.value (hfits t List.mem_cons_self), lookup_cons]
    by_cases hn : t.name = name
    · subst hn
      rw [if_pos rfl, if_pos rfl, lookup_eq_none.mpr hnames.1]
      rfl
    · rw [if_neg (Ne.symm hn), if_neg hn]

theorem get_setDefault {h : Handle} {t : Tuple} (hfits : t.value.length < h.space) (name : Bytes) :
    (setDefault h t.name t.value).get name = (h.get name).or (if t.name = name then some t.value else none) := by
  unfold setDefault
  by_cases hn : t.name = name
  · subst hn
    cases hg : h.get t.name with
    | none => rw [if_neg (by simp), Handle.get_set _ _ hfits]; simp
    | some v => rw [if_pos (by simp), hg]; rfl
  · rw [if_neg hn, Option.or_none]
    split_ifs
    · rfl
    · rw [Handle.get_set _ _ hfits, if_neg (Ne.symm hn)]

theorem space_setDefault (h : Handle) (name value : Bytes) : (setDefault h name value).space = h.space := by
  unfold setDefault
  split_ifs
  · rfl
  · exact space_set h name value

theorem get_setDefaults {ds : List Tuple} (h : Handle) (hfits : ∀ t ∈ ds, t.value.length < h.space) (name : Bytes) :
    (ds.foldl (fun h t => setDefault h t.name t.value) h).get name = (h.get name).or (lookup ds name) := by
  induction ds generalizing h with
  | nil => simp [lookup]
  | cons t ds ih =>
    have hfits' : ∀ u ∈ ds, u.value.length < (setDefault h t.name t.value).space := fun u hu => by
      rw [space_setDefault]
      exact hfits u (List.mem_cons_of_mem _ hu)
    rw [List.foldl_cons, ih _ hfits', get_setDefault (hfits t List.mem_cons_self), Option.or_assoc, lookup_cons]
    congr 1
    split_ifs <;> simp

/-- `_nvram_rehash` sets the tuples of the data and then the special parameters. -/
theorem rehash_eq (h : Handle) :
    rehash h = (defaults (headerAt h.mem h.offset)).foldl (fun h t => setDefault h t.name t.value)
      ((pairs (h.mem.drop (h.offset + headerSize))).foldl (fun h t => (h.set t.name t.value).2) { h with chain := fun _ => [] }) := rfl

/-- The tuples of the data, and the special parameters that are missing. -/
theorem get_rehash {h : Handle} (ts : List Tuple) (hts : pairs (h.mem.drop (h.offset + headerSize)) = ts)
    (hnames : (ts.map Tuple.name).Nodup) (hfits : ∀ t ∈ ts, t.value.length < h.space) (hspace : 10 < h.space) (name : Bytes) :
    (rehash h).get name = (lookup ts name).or (lookup (defaults (headerAt h.mem h.offset)) name) := by
  obtain ⟨h₀, hh₀⟩ : ∃ h₀ : Handle, h₀ = { h with chain := fun _ => [] } := ⟨_, rfl⟩
  have hrehash : rehash h = (defaults (headerAt h.mem h.offset)).foldl (fun h t => setDefault h t.name t.value)
      (ts.foldl (fun h t => (h.set t.name t.value).2) h₀) := by
    rw [← hts, hh₀, rehash_eq]
  have hspace₀ : h₀.space = h.space := by rw [hh₀]; rfl
  have hspace' : (ts.foldl (fun h t => (h.set t.name t.value).2) h₀).space = h.space := by
    refine List.foldlRecOn (motive := fun g : Handle => g.space = h.space) ts _ hspace₀ fun g hg t _ => ?_
    rw [space_set, hg]
  have hempty : h₀.get name = none := by rw [hh₀]; rfl
  rw [hrehash, get_setDefaults _ fun t ht => by have := length_default ht; omega,
    get_setAll hnames _ (by rw [hspace₀]; exact hfits), hempty, Option.or_none]

/-! ### What is written -/

theorem length_bytes (t : Tuple) : t.bytes.length = t.size := by
  simp only [Tuple.bytes, Tuple.size, List.length_append, List.length_cons, List.length_nil]
  omega

theorem length_flatMap_bytes (ts : List Tuple) : (ts.flatMap Tuple.bytes).length = sizes ts := by
  induction ts with
  | nil => rfl
  | cons t ts ih => rw [List.flatMap_cons, List.length_append, ih, length_bytes]; rfl

theorem sizes_append (a b : List Tuple) : sizes (a ++ b) = sizes a + sizes b := by simp [sizes]

theorem fitting_isPrefix (room : Nat) (c : List Tuple) : fitting room c <+: c := by
  induction c generalizing room with
  | nil => exact List.prefix_rfl
  | cons t c ih =>
    unfold fitting
    split_ifs
    · exact List.nil_prefix
    · exact (List.prefix_cons_inj t).mpr (ih _)

theorem fitting_eq_self {room : Nat} {c : List Tuple} (h : sizes c ≤ room) : fitting room c = c := by
  induction c generalizing room with
  | nil => rfl
  | cons t c ih =>
    simp only [sizes, List.map_cons, List.sum_cons] at h ih
    rw [fitting, if_neg (by omega), ih (by omega)]

theorem sizes_fitting (room : Nat) (c : List Tuple) : sizes (fitting room c) ≤ room := by
  induction c generalizing room with
  | nil => exact Nat.zero_le _
  | cons t c ih =>
    unfold fitting
    split_ifs with h
    · exact Nat.zero_le _
    · have := ih (room - t.size)
      simp only [sizes, List.map_cons, List.sum_cons] at this ⊢
      omega

theorem written_sublist (room : Nat) (cs : List (List Tuple)) : List.Sublist (written room cs) cs.flatten := by
  induction cs generalizing room with
  | nil => exact List.Sublist.refl _
  | cons c cs ih =>
    rw [written, List.flatten_cons]
    exact (fitting_isPrefix room c).sublist.append (ih _)

theorem sizes_written (room : Nat) (cs : List (List Tuple)) : sizes (written room cs) ≤ room := by
  induction cs generalizing room with
  | nil => exact Nat.zero_le _
  | cons c cs ih =>
    have hc := sizes_fitting room c
    have hcs := ih (room - sizes (fitting room c))
    rw [written, sizes_append]
    omega

/-! ### The partition behind `nvram_commit` -/

theorem length_headerBytes (hdr : Header) : hdr.bytes.length = headerSize := by
  rw [Header.bytes, length_unwords]
  rfl

theorem length_dataArea (h : Handle) : (dataArea h).length = h.space - headerSize := by
  unfold dataArea
  rw [List.length_take, List.length_append, List.length_replicate]
  omega

/-- The data starts with the tuples and a NUL. -/
theorem dataArea_eq {h : Handle} (hspace : headerSize + 2 ≤ h.space) :
    ∃ rest, dataArea h = h.written.flatMap Tuple.bytes ++ 0 :: rest := by
  have hsize : sizes h.written ≤ h.space - 2 - headerSize := sizes_written _ _
  have hlen := length_flatMap_bytes h.written
  have htake : ∀ (a tail : Bytes) (n : Nat), a.length < n → ∃ rest, (a ++ 0 :: tail).take n = a ++ 0 :: rest := by
    intro a tail n hn
    obtain ⟨k, rfl⟩ : ∃ k, n = a.length + (k + 1) := ⟨n - a.length - 1, by omega⟩
    exact ⟨tail.take k, by rw [List.take_length_add_append, List.take_succ_cons]⟩
  unfold dataArea
  dsimp only
  simp only [List.append_assoc, List.cons_append]
  exact htake _ _ _ (by omega)

section
variable {h : Handle} (hv : h.Valid)
include hv

theorem Handle.Valid.space_le : NVRAM_MIN_SPACE ≤ h.space := by
  have := hv.room
  unfold Handle.space
  omega

/-- The bytes before the header stay as they are. -/
theorem word_before (a b : Bytes) {i : Nat} (hi : i < h.offset / 4) : word (h.mem.take h.offset ++ a ++ b) (4 * i) = word h.mem (4 * i) := by
  have hroom := hv.room
  have hlen : (h.mem.take h.offset).length = h.offset := by rw [List.length_take]; omega
  have hslice : ((h.mem.take h.offset ++ a ++ b).drop (4 * i)).take 4 = (h.mem.drop (4 * i)).take 4 := by
    rw [List.append_assoc, List.drop_append_of_le_length (by omega), List.take_append_of_le_length (by rw [List.length_drop]; omega),
      List.drop_take, List.take_take]
    congr 1
    omega
  rw [word, word, hslice]

/-- The header is read back. -/
theorem headerAt_commit (hdr : Header) (b : Bytes) : headerAt (h.mem.take h.offset ++ hdr.bytes ++ b) h.offset = hdr := by
  have hroom := hv.room
  have hlen : (h.mem.take h.offset).length = h.offset := by rw [List.length_take]; omega
  have hword : ∀ i (hi : i < 5), word (h.mem.take h.offset ++ hdr.bytes ++ b) (h.offset + 4 * i) =
      [hdr.magic, hdr.len, hdr.crcVerInit, hdr.configRefresh, hdr.configNcdl][i] := by
    intro i hi
    have hdrop : (h.mem.take h.offset ++ hdr.bytes ++ b).drop (h.offset + 4 * i) = (hdr.bytes ++ b).drop (4 * i) := by
      rw [List.append_assoc, ← List.drop_drop, List.drop_left' hlen]
    rw [word, hdrop]
    exact word_unwords [hdr.magic, hdr.len, hdr.crcVerInit, hdr.configRefresh, hdr.configNcdl] b i hi
  have h0 := hword 0 (by decide)
  have h1 := hword 1 (by decide)
  have h2 := hword 2 (by decide)
  have h3 := hword 3 (by decide)
  have h4 := hword 4 (by decide)
  simp only [Nat.mul_zero, Nat.add_zero] at h0
  simp only [headerAt, h0, h1, h2, h3, h4]
  simp

/-- The partition is opened at the same place, if the length is accepted. -/
theorem open_commit (hdr : Header) (hmagic : hdr.magic = NVRAM_MAGIC) (b : Bytes) (hb : b.length = h.space - headerSize) :
    «open» (h.mem.take h.offset ++ hdr.bytes ++ b) false =
      if hdr.len.toNat < h.space then some (rehash { mem := h.mem.take h.offset ++ hdr.bytes ++ b, offset := h.offset }) else none := by
  have hroom := hv.room
  have hspace := hv.space_le
  obtain ⟨k, hk⟩ := hv.aligned
  have hk4 : h.offset / 4 = k := by omega
  have hmin : NVRAM_MIN_SPACE = 0x8000 := rfl
  have hsize : headerSize = 20 := rfl
  have hmem : (h.mem.take h.offset ++ hdr.bytes ++ b).length = h.mem.length := by
    rw [List.length_append, List.length_append, length_headerBytes, hb, List.length_take]
    simp only [Handle.space] at *
    omega
  have hfind : (List.range (((h.mem.take h.offset ++ hdr.bytes ++ b).length - NVRAM_MIN_SPACE) / 4 + 1)).find?
      (fun i => word (h.mem.take h.offset ++ hdr.bytes ++ b) (4 * i) = NVRAM_MAGIC) = some k := by
    rw [List.find?_range_eq_some, hmem]
    have hat := headerAt_commit hv hdr b
    refine ⟨?_, by rw [List.mem_range]; omega, fun j hj => ?_⟩
    · have hfirst := congrArg Header.magic hat
      rw [← hk]
      simpa [headerAt, hmagic] using hfirst
    · have hne := hv.first j (by omega)
      rw [← word_before hv hdr.bytes b (by omega)] at hne
      simpa using hne
  unfold «open»
  rw [hfind]
  simp only [Option.bind_eq_bind, Option.bind_some, ← hk, headerAt_commit hv hdr b, hmagic, true_and, Bool.false_eq_true, false_or]
  simp only [Handle.space, hmem]
  rfl

end

/-! ### What is lost -/

/-- The partition behind `nvram_commit` can be opened for writing, and has the same variables, with defaults for
    the special ones that were missing. -/
def CommitKeeps (part : Bytes) (rdonly : Bool) (h : Handle) : Prop :=
  ∃ h', «open» (committed part rdonly h) false = some h' ∧
    ∀ name, h'.get name = (h.get name).or (lookup (defaults (headerAt (committed part rdonly h) h.offset)) name)

theorem setDefault_mem (h : Handle) (name value : Bytes) :
    (setDefault h name value).mem = h.mem ∧ (setDefault h name value).offset = h.offset := by
  unfold setDefault
  split_ifs
  · exact ⟨rfl, rfl⟩
  · exact h.set_mem name value

theorem rehash_mem (h : Handle) : (rehash h).mem = h.mem ∧ (rehash h).offset = h.offset := by
  rw [rehash_eq]
  refine List.foldlRecOn (motive := fun g : Handle => g.mem = h.mem ∧ g.offset = h.offset) _ _ ?_ fun g hg t _ => ?_
  · refine List.foldlRecOn (motive := fun g : Handle => g.mem = h.mem ∧ g.offset = h.offset) _ _ ⟨rfl, rfl⟩ fun g hg t _ => ?_
    exact ⟨(g.set_mem _ _).1.trans hg.1, (g.set_mem _ _).2.trans hg.2⟩
  · exact ⟨(setDefault_mem g _ _).1.trans hg.1, (setDefault_mem g _ _).2.trans hg.2⟩

theorem written_subset {h : Handle} {t : Tuple} (ht : t ∈ h.written) : t ∈ h.tuples := (written_sublist _ _).subset ht

theorem regenerate_magic (h : Handle) : (finishHeader h).magic = NVRAM_MAGIC := by
  unfold finishHeader regenerate
  split <;> rfl

/-- The length in the header. -/
theorem finishHeader_len {h : Handle} (hv : h.Valid) : (finishHeader h).len.toNat = roundup (h.used + 2) 4 := by
  have hsize := hv.size
  have hspace := hv.space_le
  have hmin : NVRAM_MIN_SPACE = 0x8000 := rfl
  have hhead : headerSize = 20 := rfl
  have hused : sizes h.written ≤ h.space - 2 - headerSize := sizes_written _ _
  have hlen : (finishHeader h).len = UInt32.ofNat (roundup (h.used + 2) 4) := rfl
  rw [hlen, UInt32.toNat_ofNat', Nat.mod_eq_of_lt]
  simp only [roundup, Handle.used, Handle.space] at *
  omega

theorem size_le_sizes {ts : List Tuple} {t : Tuple} (ht : t ∈ ts) : t.size ≤ sizes ts := by
  induction ts with
  | nil => cases ht
  | cons u ts ih =>
    simp only [sizes, List.map_cons, List.sum_cons] at ih ⊢
    rcases List.mem_cons.mp ht with rfl | ht
    · omega
    · have := ih ht
      omega

/-- The variables of the partition that was written. -/
theorem get_committed {h : Handle} (hv : h.Valid) (name : Bytes) :
    (rehash { mem := h.mem.take h.offset ++ (finishHeader h).bytes ++ dataArea h, offset := h.offset }).get name =
      (lookup h.written name).or (lookup (defaults (finishHeader h)) name) := by
  have hroom := hv.room
  have hspace := hv.space_le
  have hmin : NVRAM_MIN_SPACE = 0x8000 := rfl
  have hhead : headerSize = 20 := rfl
  have hsize : sizes h.written ≤ h.space - 2 - headerSize := sizes_written _ _
  have hlen : (h.mem.take h.offset ++ (finishHeader h).bytes).length = h.offset + headerSize := by
    rw [List.length_append, length_headerBytes, List.length_take]
    omega
  have hspace' : ({ mem := h.mem.take h.offset ++ (finishHeader h).bytes ++ dataArea h, offset := h.offset } : Handle).space = h.space := by
    simp only [Handle.space] at hspace ⊢
    rw [List.length_append, hlen, length_dataArea, Handle.space]
    omega
  obtain ⟨rest, hdata⟩ := dataArea_eq (h := h) (by omega)
  have hplain : ∀ t ∈ h.written, 0 ∉ t.name ∧ 61 ∉ t.name ∧ 0 ∉ t.value := fun t ht =>
    hv.tidy.plain _ t ((Handle.mem_tuples hv.tidy).mp (written_subset ht))
  have hnames : (h.written.map Tuple.name).Nodup := ((written_sublist _ _).map _).nodup (Handle.names_tuples hv.tidy)
  rw [get_rehash h.written _ hnames _ (by omega), headerAt_commit hv]
  · rw [List.drop_left' hlen, hdata, pairs_written hplain]
  · intro t ht
    have hle := size_le_sizes ht
    rw [hspace']
    simp only [Tuple.size] at hle
    omega

/-- Leaving out tuples changes nothing if the defaults bring them back. -/
theorem lookup_or_iff {ts ws ds : List Tuple} (hnames : (ts.map Tuple.name).Nodup) (hsub : List.Sublist ws ts) :
    (∀ name, (lookup ws name).or (lookup ds name) = (lookup ts name).or (lookup ds name)) ↔
      ∀ t ∈ ts, t ∈ ws ∨ lookup ds t.name = some t.value := by
  have hwnames : (ws.map Tuple.name).Nodup := (hsub.map _).nodup hnames
  have hnone : ∀ t ∈ ts, t ∉ ws → lookup ws t.name = none := by
    intro t ht hw
    cases hl : lookup ws t.name with
    | none => rfl
    | some v =>
      have hmem := exists_of_lookup hl
      have hv := lookup_of_mem hnames (hsub.subset hmem)
      rw [lookup_of_mem hnames ht] at hv
      obtain rfl : t.value = v := Option.some.inj hv
      exact absurd hmem hw
  constructor
  · intro h t ht
    by_cases hw : t ∈ ws
    · exact Or.inl hw
    · have hname := h t.name
      rw [hnone t ht hw, lookup_of_mem hnames ht, Option.none_or, Option.some_or] at hname
      exact Or.inr hname
  · intro h name
    cases hl : lookup ts name with
    | none =>
      have hwn : lookup ws name = none := lookup_eq_none.mpr fun hmem => lookup_eq_none.mp hl ((hsub.map _).subset hmem)
      rw [hwn]
    | some v =>
      have hmem := exists_of_lookup hl
      by_cases hw : { name, value := v } ∈ ws
      · rw [lookup_of_mem hwnames hw]
      · rw [hnone _ hmem hw, (h _ hmem).resolve_left hw]
        rfl

/-- The length of what finds room is smaller than the space, and the variables that find none are special ones with
    the text that the header gives them. -/
def Kept (h : Handle) : Prop :=
  roundup (h.used + 2) 4 < h.space ∧ ∀ t ∈ h.tuples, t ∈ h.written ∨ lookup (defaults (finishHeader h)) t.name = some t.value

theorem commitKeeps_writable {h : Handle} (hv : h.Valid) (part : Bytes) : CommitKeeps part false h ↔ Kept h := by
  have hmem : committed part false h = h.mem.take h.offset ++ (finishHeader h).bytes ++ dataArea h := (rehash_mem _).1
  have hopen := open_commit hv (finishHeader h) (regenerate_magic h) (dataArea h) (length_dataArea h)
  rw [finishHeader_len hv] at hopen
  rw [CommitKeeps, Kept, hmem, hopen, headerAt_commit hv]
  by_cases hlen : roundup (h.used + 2) 4 < h.space
  · have hsub : List.Sublist h.written h.tuples := written_sublist _ _
    rw [if_pos hlen, ← lookup_or_iff (Handle.names_tuples hv.tidy) hsub]
    constructor
    · rintro ⟨h', hh', hget⟩
      refine ⟨hlen, fun name => ?_⟩
      rw [← Handle.get_eq_lookup hv.tidy, ← hget, ← Option.some.inj hh', get_committed hv]
    · rintro ⟨-, hsame⟩
      refine ⟨_, rfl, fun name => ?_⟩
      rw [get_committed hv, Handle.get_eq_lookup hv.tidy]
      exact hsame name
  · rw [if_neg hlen]
    simp [hlen]

theorem written_eq_flatten {room : Nat} {cs : List (List Tuple)} (h : sizes cs.flatten ≤ room) : written room cs = cs.flatten := by
  induction cs generalizing room with
  | nil => rfl
  | cons c cs ih =>
    rw [List.flatten_cons, sizes_append] at h
    have hc : fitting room c = c := fitting_eq_self (by omega)
    rw [written, hc, ih (by omega), List.flatten_cons]

/-- Variables that all find room are kept. -/
theorem kept_of_fits {h : Handle} (hfits : roundup (headerSize + sizes h.tuples + 2) 4 < h.space) : Kept h := by
  have hhead : headerSize = 20 := rfl
  have hwritten : h.written = h.tuples := written_eq_flatten (by rw [roundup, Handle.tuples] at hfits; omega)
  refine ⟨?_, fun t ht => Or.inl (by rwa [hwritten])⟩
  rwa [Handle.used, hwritten]

/-- The partition of a handle that was opened read-only can be opened for writing, and the handle has the variables that the
    partition gave it. -/
def Untouched (part : Bytes) (h : Handle) : Prop :=
  ∃ h₀, «open» part true = some h₀ ∧ (headerAt part h₀.offset).len.toNat < h₀.space ∧
    ∀ name, h₀.get name = (h.get name).or (lookup (defaults (headerAt part h₀.offset)) name)

/-- The two ways of opening a partition differ in the length that they accept. -/
theorem open_writable {part : Bytes} {h₀ : Handle} (h : «open» part true = some h₀) :
    «open» part false = if (headerAt part h₀.offset).len.toNat < h₀.space then some h₀ else none := by
  unfold «open» at h ⊢
  obtain ⟨i, hi, h⟩ := Option.bind_eq_some_iff.mp h
  dsimp only at h
  split_ifs at h with hmagic
  obtain rfl := Option.some.inj h
  obtain ⟨hm, ho⟩ := rehash_mem { mem := part, offset := 4 * i }
  rw [hi, Handle.space, hm, ho]
  simp only [Option.bind_eq_bind, Option.bind_some, hmagic.1, true_and, Bool.false_eq_true, false_or]
  rfl

theorem commitKeeps_readOnly {part : Bytes} {h h₀ : Handle} (hopen : «open» part true = some h₀) (hoffset : h.offset = h₀.offset) :
    CommitKeeps part true h ↔ Untouched part h := by
  have hpart : committed part true h = part := rfl
  rw [CommitKeeps, hpart, open_writable hopen, Untouched, hopen, hoffset]
  constructor
  · rintro ⟨h', hh', hget⟩
    split_ifs at hh' with hlen
    obtain rfl := Option.some.inj hh'
    exact ⟨h₀, rfl, hlen, hget⟩
  · rintro ⟨h', hh', hlen, hget⟩
    obtain rfl := Option.some.inj hh'
    exact ⟨h₀, if_pos hlen, hget⟩

/-! ### The handles are valid -/

theorem pairs_plain (data : Bytes) : ∀ t ∈ pairs data, 0 ∉ t.name ∧ 61 ∉ t.name ∧ 0 ∉ t.value := by
  fun_induction pairs data with
  | case1 => nofun
  | case2 data hdata s hs ih =>
    intro t ht
    have h0 : ∀ c ∈ s, c ≠ 0 := fun c hc => by simpa using List.mem_takeWhile_imp hc
    rcases List.mem_cons.mp ht with rfl | ht
    · refine ⟨fun h => ?_, fun h => ?_, fun h => ?_⟩
      · exact h0 0 ((List.takeWhile_sublist _).subset h) rfl
      · simpa using List.mem_takeWhile_imp h
      · exact h0 0 ((List.dropWhile_sublist _).subset (List.mem_of_mem_tail h)) rfl
    · exact ih t ht
  | case3 => nofun

theorem hexDigits_ne_zero (width n : Nat) : (0 : UInt8) ∉ hexDigits width n := by
  induction width generalizing n with
  | zero => nofun
  | succ width ih =>
    rw [hexDigits, List.mem_append, List.mem_singleton]
    rintro (h | h)
    · exact ih _ h
    · have hdigit : ∀ d < 16, (0 : UInt8) ≠ if d < 10 then 48 + d.toUInt8 else 55 + d.toUInt8 := by decide
      exact hdigit _ (Nat.mod_lt _ (by decide)) h

theorem defaults_plain (hdr : Header) : ∀ t ∈ defaults hdr, 0 ∉ t.name ∧ 61 ∉ t.name ∧ 0 ∉ t.value := by
  have hprefix : (0 : UInt8) ∉ ascii "0x" := by decide
  have h16 : ∀ n, (0 : UInt8) ∉ hex16 n := fun n h => (List.mem_append.mp h).elim hprefix (hexDigits_ne_zero _ _)
  have h32 : ∀ n, (0 : UInt8) ∉ hex32 n := fun n h => (List.mem_append.mp h).elim hprefix (hexDigits_ne_zero _ _)
  have hnames : ∀ name ∈ [sdramInit, sdramConfig, sdramRefresh, sdramNcdl], (0 : UInt8) ∉ name ∧ (61 : UInt8) ∉ name := by decide
  intro t ht
  have hname := hnames t.name (List.mem_map_of_mem (f := Tuple.name) ht)
  refine ⟨hname.1, hname.2, ?_⟩
  simp only [defaults, List.mem_cons, List.not_mem_nil, or_false] at ht
  obtain rfl | rfl | rfl | rfl := ht
  · exact h16 _
  · exact h16 _
  · exact h16 _
  · exact h32 _

theorem tidy_rehash (h : Handle) : Handle.Tidy (rehash h).chain := by
  have hdefault : ∀ (g : Handle) (t : Tuple), Handle.Tidy g.chain → t ∈ defaults (headerAt h.mem h.offset) →
      Handle.Tidy (setDefault g t.name t.value).chain := by
    intro g t hg ht
    obtain ⟨h0, h61, hv⟩ := defaults_plain _ t ht
    unfold setDefault
    split_ifs
    · exact hg
    · exact Handle.tidy_set hg ⟨h0, h61⟩ hv
  rw [rehash_eq]
  refine List.foldlRecOn (motive := fun g : Handle => Handle.Tidy g.chain) _ _ ?_ fun g hg t ht => hdefault g t hg ht
  refine List.foldlRecOn (motive := fun g : Handle => Handle.Tidy g.chain) _ _ Handle.tidy_empty fun g hg t ht => ?_
  obtain ⟨h0, h61, hv⟩ := pairs_plain _ t ht
  exact Handle.tidy_set hg ⟨h0, h61⟩ hv

/-- A handle that was opened is valid. -/
theorem valid_open {mem : Bytes} {rdonly : Bool} {h : Handle} (hmin : NVRAM_MIN_SPACE ≤ mem.length) (hmax : mem.length < 2 ^ 31)
    (hopen : «open» mem rdonly = some h) : h.Valid := by
  unfold «open» at hopen
  obtain ⟨i, hi, hopen⟩ := Option.bind_eq_some_iff.mp hopen
  rw [List.find?_range_eq_some] at hi
  obtain ⟨-, hlt, hfirst⟩ := hi
  rw [List.mem_range] at hlt
  dsimp only at hopen
  split_ifs at hopen
  obtain rfl := Option.some.inj hopen
  obtain ⟨hm, ho⟩ := rehash_mem { mem, offset := 4 * i }
  refine ⟨?_, ?_, ?_, ?_, tidy_rehash _⟩
  · rw [hm]
    exact hmax
  · rw [ho]
    exact ⟨i, rfl⟩
  · rw [hm, ho]
    dsimp only
    omega
  · rw [hm, ho]
    intro j hj
    have hne := hfirst j (by dsimp only at hj; omega)
    simpa using hne

/-- Committing leaves a valid handle, too. -/
theorem Handle.Valid.commit {h : Handle} (hv : h.Valid) : (commit h).2.Valid := by
  have hroom := hv.room
  have hspace := hv.space_le
  have hmin : NVRAM_MIN_SPACE = 0x8000 := rfl
  have hhead : headerSize = 20 := rfl
  have hlen : (h.mem.take h.offset ++ (finishHeader h).bytes ++ dataArea h).length = h.mem.length := by
    rw [List.length_append, List.length_append, length_headerBytes, length_dataArea, List.length_take]
    simp only [Handle.space] at *
    omega
  obtain ⟨hm, ho⟩ := rehash_mem { h with mem := h.mem.take h.offset ++ (finishHeader h).bytes ++ dataArea h }
  refine ⟨?_, ?_, ?_, ?_, tidy_rehash _⟩
  · rw [Nvram.commit, hm, hlen]
    exact hv.size
  · rw [Nvram.commit, ho]
    exact hv.aligned
  · rw [Nvram.commit, hm, ho, hlen]
    exact hv.room
  · rw [Nvram.commit, hm, ho]
    intro i hi
    rw [word_before hv _ _ hi]
    exact hv.first i hi

/-- The handles of a program, with the partition: it opens the partition, sets and unsets variables and commits. -/
inductive Made : (part : Bytes) → (rdonly : Bool) → Handle → Prop where
  | opened {part : Bytes} {rdonly : Bool} {h : Handle} (hmin : NVRAM_MIN_SPACE ≤ part.length) (hmax : part.length < 2 ^ 31)
    (hopen : «open» part rdonly = some h) : Made part rdonly h
  | set {part : Bytes} {rdonly : Bool} {h : Handle} (hm : Made part rdonly h) {name value : Bytes} (hname : 0 ∉ name ∧ 61 ∉ name)
    (hvalue : 0 ∉ value) : Made part rdonly (h.set name value).2
  | unset {part : Bytes} {rdonly : Bool} {h : Handle} (hm : Made part rdonly h) (name : Bytes) : Made part rdonly (h.unset name)
  | commit {part : Bytes} {rdonly : Bool} {h : Handle} (hm : Made part rdonly h) : Made (committed part rdonly h) rdonly (commit h).2

section
variable {part : Bytes} {rdonly : Bool} {h : Handle}

theorem Made.valid (hm : Made part rdonly h) : h.Valid := by
  induction hm with
  | opened hmin hmax hopen => exact valid_open hmin hmax hopen
  | set _ hname hvalue ih => exact ih.set hname hvalue
  | unset _ name ih => exact ih.unset name
  | commit _ ih => exact ih.commit

/-- The partition of a read-only handle stays as it was opened. -/
theorem Made.opens (hm : Made part rdonly h) (hr : rdonly = true) : ∃ h₀, «open» part true = some h₀ ∧ h.offset = h₀.offset := by
  induction hm with
  | opened hmin hmax hopen =>
    subst hr
    exact ⟨_, hopen, rfl⟩
  | set _ _ _ ih =>
    obtain ⟨h₀, hopen, hoffset⟩ := ih hr
    exact ⟨h₀, hopen, (Handle.set_mem _ _ _).2.trans hoffset⟩
  | unset _ name ih => exact ih hr
  | commit _ ih =>
    obtain ⟨h₀, hopen, hoffset⟩ := ih hr
    subst hr
    exact ⟨h₀, hopen, (rehash_mem _).2.trans hoffset⟩

/-- When a commit loses nothing. -/
theorem commit_open (hm : Made part rdonly h) :
    (commit h).1 = 0 ∧ (CommitKeeps part rdonly h ↔ if rdonly then Untouched part h else Kept h) := by
  refine ⟨rfl, ?_⟩
  cases hr : rdonly with
  | false => exact commitKeeps_writable hm.valid part
  | true =>
    subst hr
    obtain ⟨h₀, hopen, hoffset⟩ := hm.opens rfl
    exact commitKeeps_readOnly hopen hoffset

end

/-- A partition of the smallest size without any variable. -/
def blank : Bytes := unwords [NVRAM_MAGIC, 0, 0, 0, 0] ++ List.replicate 0x7fec 0

theorem length_blank : blank.length = NVRAM_MIN_SPACE := by
  rw [blank, List.length_append, length_unwords, List.length_replicate]
  rfl

/-- A partition of this size that starts with a header without a length is opened there. -/
theorem opens_at_start {mem : Bytes} (hlength : mem.length = NVRAM_MIN_SPACE) (hmagic : word mem 0 = NVRAM_MAGIC) (hlen : word mem 4 = 0) :
    «open» mem false = some (rehash { mem, offset := 0 }) := by
  have hfind : (List.range ((mem.length - NVRAM_MIN_SPACE) / 4 + 1)).find? (fun i => word mem (4 * i) = NVRAM_MAGIC) = some 0 := by
    rw [hlength]
    simp [hmagic]
  unfold «open»
  rw [hfind]
  simp only [Option.bind_eq_bind, Option.bind_some, Nat.mul_zero]
  rw [if_pos]
  · rfl
  · refine ⟨hmagic, Or.inr ?_⟩
    simp only [headerAt, Nat.zero_add, hlen, Handle.space, hlength]
    decide

/-- The handle of the blank partition. -/
def fresh : Handle := rehash { mem := blank, offset := 0 }

theorem space_at_start {mem : Bytes} {n : Nat} (h : mem.length = n) : ({ mem, offset := 0 } : Handle).space = n := by
  rw [Handle.space, Nat.sub_zero, h]

theorem space_rehash (h : Handle) : (rehash h).space = h.space := by
  obtain ⟨hm, ho⟩ := rehash_mem h
  rw [Handle.space, Handle.space, hm, ho]

theorem space_fresh : fresh.space = NVRAM_MIN_SPACE := (space_rehash _).trans (space_at_start length_blank)

theorem made_fresh : Made blank false fresh := by
  refine .opened (by rw [length_blank]) (by rw [length_blank]; decide) (opens_at_start length_blank ?_ ?_)
  · exact word_unwords [NVRAM_MAGIC, 0, 0, 0, 0] _ 0 (by decide)
  · exact word_unwords [NVRAM_MAGIC, 0, 0, 0, 0] _ 1 (by decide)

theorem get_fresh (name : Bytes) : fresh.get name = lookup (defaults (headerAt blank 0)) name := by
  have hdrop : blank.drop 20 = List.replicate 0x7fec 0 := List.drop_left' (by rw [length_unwords]; rfl)
  have hpairs : pairs (blank.drop 20) = [] := by
    rw [pairs, dif_pos (Or.inr ?_)]
    rw [hdrop, List.head?_replicate]
    rfl
  have hmin : NVRAM_MIN_SPACE = 0x8000 := rfl
  have hspace : ({ mem := blank, offset := 0 } : Handle).space = NVRAM_MIN_SPACE := space_at_start length_blank
  exact get_rehash (h := { mem := blank, offset := 0 }) [] hpairs List.nodup_nil nofun (by omega) name

/-- Setting one variable takes no more room than it and the defaults do. -/
theorem sizes_fresh_set : sizes (fresh.set [97] [98]).2.tuples ≤ 100 := by
  have hmin : NVRAM_MIN_SPACE = 0x8000 := rfl
  have hspace := space_fresh
  have htidy := (@Made.set _ _ _ made_fresh [97] [98] (by decide) (by decide)).valid.tidy
  have hnames := Handle.names_tuples htidy
  have hsub : (fresh.set [97] [98]).2.tuples ⊆ { name := [97], value := [98] } :: defaults (headerAt blank 0) := by
    intro t ht
    have hget := Handle.get_eq_lookup htidy t.name
    rw [lookup_of_mem hnames ht, Handle.get_set [97] [98] (by simp only [List.length_singleton]; omega), get_fresh] at hget
    split_ifs at hget with hname
    · rw [← hname, Option.some.inj hget]
      exact List.mem_cons_self
    · exact List.mem_cons_of_mem _ (exists_of_lookup hget)
  have hperm := (List.Nodup.of_map _ hnames).subperm hsub
  have hdefault : sizes (defaults (headerAt blank 0)) ≤ 96 := by
    have hlength := fun t ht => @length_default (headerAt blank 0) t ht
    simp only [defaults, List.mem_cons, List.not_mem_nil, or_false, forall_eq_or_imp, forall_eq] at hlength
    obtain ⟨h₁, h₂, h₃, h₄⟩ := hlength
    have hinit : sdramInit.length = 10 := rfl
    have hconfig : sdramConfig.length = 12 := rfl
    have hrefresh : sdramRefresh.length = 13 := rfl
    have hncdl : sdramNcdl.length = 10 := rfl
    simp only [sizes, defaults, List.map_cons, List.map_nil, List.sum_cons, List.sum_nil, Tuple.size]
    omega
  have hle : sizes (fresh.set [97] [98]).2.tuples ≤ sizes ({ name := [97], value := [98] } :: defaults (headerAt blank 0)) := by
    obtain ⟨l, hl, hsublist⟩ := hperm
    rw [sizes, ← (hl.map _).sum_eq]
    exact (hsublist.map _).sum_le_sum fun _ _ => Nat.zero_le _
  refine Nat.le_trans hle ?_
  simp only [sizes, List.map_cons, List.sum_cons] at hdefault ⊢
  have hone : Tuple.size { name := [97], value := [98] } = 4 := rfl
  omega

theorem commit_open_fresh : (fresh.set [97] [98]).2.get [97] = some [98] ∧ CommitKeeps blank false (fresh.set [97] [98]).2 := by
  have hmin : NVRAM_MIN_SPACE = 0x8000 := rfl
  have hhead : headerSize = 20 := rfl
  have hspace := space_fresh
  refine ⟨?_, (commit_open (made_fresh.set (by decide) (by decide))).2.mpr (kept_of_fits ?_)⟩
  · rw [Handle.get_set _ _ (by simp only [List.length_singleton]; omega), if_pos rfl]
  · have hsizes := sizes_fresh_set
    rw [space_set, roundup]
    omega

/-- A variable that `nvram_set` accepts and for which there is no room. -/
theorem commit_drops : ¬∀ (part : Bytes) (rdonly : Bool) (h : Handle), Made part rdonly h → (commit h).1 = 0 →
    CommitKeeps part rdonly h := by
  intro hall
  have hspace := space_fresh
  obtain ⟨value, hlen, hvalue⟩ : ∃ value : Bytes, value.length = 32767 ∧ 0 ∉ value := by
    refine ⟨List.replicate 32767 98, List.length_replicate, ?_⟩
    rw [List.mem_replicate]
    rintro ⟨-, h0⟩
    cases h0
  have hmin : NVRAM_MIN_SPACE = 0x8000 := rfl
  have hmade : Made blank false (fresh.set [97] value).2 :=
    made_fresh.set (by decide) hvalue
  have hget := Handle.get_set (h := fresh) [97] value (by omega) [97]
  have hspace' := space_set fresh [97] value
  generalize (fresh.set [97] value).2 = g at hmade hget hspace'
  rw [if_pos rfl, Handle.get_eq_lookup hmade.valid.tidy] at hget
  have hmem := exists_of_lookup hget
  rcases ((commitKeeps_writable hmade.valid _).mp (hall _ _ g hmade rfl)).2 _ hmem with hwritten | hdefault
  · have hle := size_le_sizes hwritten
    have hroom : sizes g.written ≤ g.space - 2 - headerSize := sizes_written _ _
    simp only [Tuple.size, hlen] at hle
    omega
  · have hnone : lookup (defaults (finishHeader g)) [97] = none := by
      rw [lookup_eq_none]
      change [97] ∉ [sdramInit, sdramConfig, sdramRefresh, sdramNcdl]
      decide
    rw [hnone] at hdefault
    cases hdefault

end RainWrt.Nvram
