import RainWrt.Nvram.Memory
import RainWrt.Theorems.Nvram

/-! When `nvram_open` stays inside the mapping. The parsing ends at a text that is empty or has no `=`; nothing but the
    contents of the partition provides one. -/

namespace RainWrt.Nvram.Memory

variable {mem data s rest : Bytes} {rdonly : Bool} {offset : Nat} {i : Nat}

/-! ### The text -/

/-- A text that ends with NUL, at the start or behind a NUL, is empty or has no `=`. -/
def Terminated (data : Bytes) : Prop :=
  ∃ pre p post, data = pre ++ p ++ 0 :: post ∧ (pre = [] ∨ pre.getLast? = some 0) ∧ 0 ∉ p ∧ 61 ∉ p

theorem not_terminated (h : 0 ∉ data) : ¬Terminated data := by
  rintro ⟨pre, p, post, rfl, -⟩
  simp at h

/-- The text before the first NUL is determined. -/
theorem append_zero_inj {t a b : Bytes} (hs : 0 ∉ s) (ht : 0 ∉ t) (h : s ++ 0 :: a = t ++ 0 :: b) : s = t ∧ a = b := by
  induction s generalizing t with
  | nil =>
    cases t with
    | nil => exact ⟨rfl, (List.cons.inj h).2⟩
    | cons c t => exact absurd (by simp [(List.cons.inj h).1]) ht
  | cons c s ih =>
    cases t with
    | nil => exact absurd (by simp [(List.cons.inj h).1]) hs
    | cons d t =>
      obtain ⟨rfl, hrest⟩ := List.cons.inj h
      obtain ⟨rfl, hab⟩ := ih (fun h0 => hs (List.mem_cons_of_mem _ h0)) (fun h0 => ht (List.mem_cons_of_mem _ h0)) hrest
      exact ⟨rfl, hab⟩

theorem terminated_append (h0 : 0 ∉ s) : Terminated (s ++ 0 :: rest) ↔ 61 ∉ s ∨ Terminated rest := by
  constructor
  · rintro ⟨pre, p, post, heq, hpre, hp, h61⟩
    by_cases hmem : (0 : UInt8) ∈ pre
    · obtain ⟨a, b, rfl, ha⟩ := List.eq_append_cons_of_mem hmem
      rw [List.append_assoc, List.append_assoc, List.cons_append] at heq
      obtain ⟨-, rfl⟩ := append_zero_inj h0 ha heq
      refine .inr ⟨b, p, post, by simp, ?_, hp, h61⟩
      rcases hpre with hnil | hlast
      · simp at hnil
      · cases b with
        | nil => exact .inl rfl
        | cons c b => exact .inr (by simpa [List.getLast?_cons] using hlast)
    · obtain rfl : pre = [] := hpre.resolve_right fun hlast => hmem (List.mem_of_getLast? hlast)
      obtain ⟨rfl, -⟩ := append_zero_inj h0 hp heq
      exact .inl h61
  · rintro (h61 | ⟨pre, p, post, rfl, hpre, hp, h61⟩)
    · exact ⟨[], s, rest, rfl, .inl rfl, h0, h61⟩
    · refine ⟨s ++ 0 :: pre, p, post, by simp, .inr ?_, hp, h61⟩
      rcases hpre with rfl | hlast
      · simp
      · rw [List.getLast?_append, List.getLast?_cons, hlast]
        rfl

/-- A byte string has no NUL, or starts with a text without `=`, or with a variable. -/
theorem text_cases (data : Bytes) : 0 ∉ data ∨ (∃ s rest, data = s ++ 0 :: rest ∧ 0 ∉ s ∧ 61 ∉ s) ∨
    ∃ (t : Tuple) (rest : Bytes), data = t.bytes ++ rest ∧ 0 ∉ t.name ∧ 61 ∉ t.name ∧ 0 ∉ t.value := by
  by_cases hmem : (0 : UInt8) ∈ data
  · obtain ⟨s, rest, rfl, hs⟩ := List.eq_append_cons_of_mem hmem
    by_cases heq : (61 : UInt8) ∈ s
    · obtain ⟨name, value, rfl, hname⟩ := List.eq_append_cons_of_mem heq
      simp only [List.mem_append, List.mem_cons, not_or] at hs
      exact .inr (.inr ⟨⟨name, value⟩, rest, by simp [Tuple.bytes], hs.1, hname, hs.2.2⟩)
    · exact .inr (.inl ⟨s, rest, rfl, hs, heq⟩)
  · exact .inl hmem

theorem of_dropWhile {p : UInt8 → Bool} {c : UInt8} (h : data.dropWhile p = c :: rest) : p c = false ∧ c ∈ data := by
  refine ⟨?_, (List.dropWhile_sublist p).subset (by rw [h]; exact List.mem_cons_self)⟩
  have hnot := List.head?_dropWhile_not p data
  rw [h] at hnot
  simpa using hnot

theorem pairs_unterminated (h : 0 ∉ data) : pairs data = .error .text := by
  rw [pairs]
  split_ifs with hnil hzero
  · rfl
  · exact absurd (List.mem_of_head? hzero) h
  · split
    · rfl
    next c value hc =>
      obtain ⟨hstop, hmem⟩ := of_dropWhile hc
      have hne : c ≠ 0 := fun h0 => h (h0 ▸ hmem)
      rw [if_pos (by simpa [hne] using hstop)]
      split
      · rfl
      next d rest hd =>
        obtain ⟨hstop, hmem'⟩ := of_dropWhile hd
        obtain rfl : d = 0 := by simpa using hstop
        exact absurd ((List.dropWhile_sublist _).subset (by rw [hc]; exact List.mem_cons_of_mem _ hmem')) h

theorem pairs_end (h0 : 0 ∉ s) (h61 : 61 ∉ s) : pairs (s ++ 0 :: rest) = .ok [] := by
  have hall : ∀ c ∈ s, decide (c ≠ 0 ∧ c ≠ 61) = true := fun c hc =>
    decide_eq_true ⟨fun h => h0 (h ▸ hc), fun h => h61 (h ▸ hc)⟩
  rw [pairs, if_neg (by simp)]
  split_ifs with hzero
  · rfl
  · split
    next hnil =>
      rw [List.dropWhile_append_of_pos hall] at hnil
      simp at hnil
    next c value hc =>
      rw [List.dropWhile_append_of_pos hall, List.dropWhile_cons_of_neg (by simp)] at hc
      obtain ⟨rfl, -⟩ := List.cons.inj hc
      exact if_neg (by decide)

theorem pairs_cons {t : Tuple} (h : 0 ∉ t.name ∧ 61 ∉ t.name ∧ 0 ∉ t.value) : pairs (t.bytes ++ rest) = do
    let ts ← pairs rest
    return t :: ts := by
  obtain ⟨hname, heq, hvalue⟩ := h
  have hall : ∀ c ∈ t.name, decide (c ≠ 0 ∧ c ≠ 61) = true := fun c hc =>
    decide_eq_true ⟨fun h => hname (h ▸ hc), fun h => heq (h ▸ hc)⟩
  have hall' : ∀ c ∈ t.value, decide (c ≠ 0) = true := fun c hc => decide_eq_true fun h => hvalue (h ▸ hc)
  have hdata : t.bytes ++ rest = t.name ++ 61 :: (t.value ++ 0 :: rest) := by simp [Tuple.bytes]
  have hhead : ¬(t.name ++ 61 :: (t.value ++ 0 :: rest)).head? = some 0 := by
    cases hn : t.name with
    | nil => simp
    | cons c name => simpa using fun h0 : c = 0 => hname (by simp [hn, h0])
  rw [hdata, pairs, if_neg (by simp), if_neg hhead]
  split
  next hnil =>
    rw [List.dropWhile_append_of_pos hall] at hnil
    simp at hnil
  next c value hc =>
    rw [List.dropWhile_append_of_pos hall, List.dropWhile_cons_of_neg (by simp)] at hc
    obtain ⟨rfl, rfl⟩ := List.cons.inj hc
    rw [if_pos rfl]
    split
    next hnil =>
      rw [List.dropWhile_append_of_pos hall'] at hnil
      simp at hnil
    next d rest' hd =>
      rw [List.dropWhile_append_of_pos hall', List.dropWhile_cons_of_neg (by simp)] at hd
      obtain ⟨rfl, rfl⟩ := List.cons.inj hd
      rw [List.takeWhile_append_of_pos hall, List.takeWhile_append_of_pos hall']
      simp

theorem pairs_of_end (h0 : 0 ∉ s) (h61 : 61 ∉ s) : Nvram.pairs (s ++ 0 :: rest) = [] := by
  have hall : ∀ c ∈ s, decide (c ≠ 0) = true := fun c hc => decide_eq_true fun h => h0 (h ▸ hc)
  rw [Nvram.pairs]
  split_ifs with hstart
  · rfl
  · rw [List.takeWhile_append_of_pos hall, List.takeWhile_cons_of_neg (by simp), List.append_nil]
    exact if_neg h61

/-- Parsing stays inside exactly if a text ends it, and then parses what it should. -/
theorem pairs_spec (data : Bytes) : (Terminated data → pairs data = .ok (Nvram.pairs data)) ∧ (¬Terminated data → pairs data = .error .text) := by
  induction hn : data.length using Nat.strong_induction_on generalizing data with
  | _ n ih =>
    rcases text_cases data with h0 | ⟨s, rest, rfl, h0, h61⟩ | ⟨t, rest, rfl, ht⟩
    · exact ⟨fun h => absurd h (not_terminated h0), fun _ => pairs_unterminated h0⟩
    · refine ⟨fun _ => ?_, fun h => absurd ((terminated_append h0).mpr (.inl h61)) h⟩
      rw [pairs_end h0 h61, pairs_of_end h0 h61]
    · obtain ⟨hname, heq, hvalue⟩ := ht
      have hterm : Terminated (t.bytes ++ rest) ↔ Terminated rest := by
        have hdata : t.bytes ++ rest = (t.name ++ 61 :: t.value) ++ 0 :: rest := by simp [Tuple.bytes]
        rw [hdata, terminated_append (by simp [hname, hvalue])]
        simp
      obtain ⟨ih1, ih2⟩ := ih rest.length (by rw [← hn, List.length_append, length_bytes, Tuple.size]; omega) rest rfl
      rw [hterm, pairs_cons ⟨hname, heq, hvalue⟩, Nvram.pairs_cons ⟨hname, heq, hvalue⟩]
      refine ⟨fun h => ?_, fun h => ?_⟩
      · rw [ih1 h]
        rfl
      · rw [ih2 h]
        rfl

/-! ### The header -/

/-- The place of the first header that the search finds. -/
structure FirstMagic (mem : Bytes) (offset : Nat) : Prop where
  aligned : offset % 4 = 0
  inside : offset + 4 ≤ mem.length
  searched : offset / 4 ≤ lastIndex mem
  magic : word mem offset = NVRAM_MAGIC
  first : ∀ o < offset, o % 4 = 0 → word mem o ≠ NVRAM_MAGIC

theorem search_iff (h : ∀ j < i, word mem (4 * j) ≠ NVRAM_MAGIC) : search mem i = .ok (some offset) ↔ 4 * i ≤ offset ∧ FirstMagic mem offset := by
  fun_induction search mem i with
  | case1 i hlast hin hmagic =>
    constructor
    · rintro heq
      obtain rfl : 4 * i = offset := by simpa using heq
      refine ⟨Nat.le_refl _, by omega, hin, by omega, hmagic, fun o ho halign => ?_⟩
      have hword := h (o / 4) (by omega)
      rwa [Nat.mul_div_cancel' (Nat.dvd_of_mod_eq_zero halign)] at hword
    · rintro ⟨hle, hfirst⟩
      obtain rfl : 4 * i = offset := Nat.le_antisymm hle (Nat.le_of_not_lt fun hlt => hfirst.first _ hlt (by omega) hmagic)
      rfl
  | case2 i hlast hin hmagic ih =>
    have hnext : ∀ j < i + 1, word mem (4 * j) ≠ NVRAM_MAGIC := fun j hj => by
      rcases Nat.lt_succ_iff_lt_or_eq.mp hj with hj | rfl
      · exact h j hj
      · exact hmagic
    rw [ih hnext]
    refine and_congr_left fun hfirst => ⟨fun hle => by omega, fun hle => ?_⟩
    have hne : offset ≠ 4 * i := fun heq => hmagic (heq ▸ hfirst.magic)
    have := hfirst.aligned
    omega
  | case3 i hlast hin =>
    refine ⟨fun heq => (by cases heq), fun ⟨hle, hfirst⟩ => ?_⟩
    have := hfirst.inside
    omega
  | case4 i hlast =>
    refine ⟨fun heq => (by cases heq), fun ⟨hle, hfirst⟩ => ?_⟩
    have := hfirst.searched
    omega

/-- What the opening of a partition accesses behind the search. -/
def Inside (mem : Bytes) (rdonly : Bool) : Prop := ∀ offset, FirstMagic mem offset →
  (rdonly = true ∨ offset + 8 ≤ mem.length) ∧
    (rdonly = true ∨ (word mem (offset + 4)).toNat < mem.length - offset → Terminated (mem.drop (offset + headerSize)))

theorem field_eq (h : offset + 4 ≤ mem.length) : field mem offset = .ok (word mem offset) := if_pos h

theorem accepts_eq (h : FirstMagic mem offset) (hlen : rdonly = true ∨ offset + 8 ≤ mem.length) :
    accepts mem rdonly offset = .ok (rdonly || decide ((word mem (offset + 4)).toNat < mem.length - offset)) := by
  rw [accepts, field_eq h.inside]
  cases rdonly with
  | true => simp [h.magic, pure, Except.pure, bind, Except.bind]
  | false =>
    simp [h.magic, field_eq (hlen.resolve_left (by simp)), pure, Except.pure, bind, Except.bind]

theorem accepts_stop (h : FirstMagic mem offset) (hlen : ¬(rdonly = true ∨ offset + 8 ≤ mem.length)) :
    accepts mem rdonly offset = .error .header := by
  simp only [not_or, Bool.not_eq_true] at hlen
  rw [accepts, field_eq h.inside, hlen.1]
  have hfield : field mem (offset + 4) = .error .header := if_neg (by omega)
  simp [h.magic, hfield, bind, Except.bind]

/-! ### The handle -/

theorem rehash_ok {h : Handle} (hterm : Terminated (h.mem.drop (h.offset + headerSize))) : rehash h = .ok (Nvram.rehash h) := by
  have hlength : h.offset + headerSize < h.mem.length := by
    refine Nat.lt_of_not_le fun hle => ?_
    rw [List.drop_of_length_le hle] at hterm
    exact not_terminated (by simp) hterm
  have hsize : headerSize = 20 := rfl
  rw [rehash, (pairs_spec _).1 hterm]
  simp only [bind, Except.bind, field_eq (show h.offset + 8 + 4 ≤ h.mem.length by omega),
    field_eq (show h.offset + 12 + 4 ≤ h.mem.length by omega), field_eq (show h.offset + 16 + 4 ≤ h.mem.length by omega)]
  rfl

theorem rehash_stop {h : Handle} (hterm : ¬Terminated (h.mem.drop (h.offset + headerSize))) : rehash h = .error .text := by
  rw [rehash, (pairs_spec _).2 hterm]
  rfl

theorem search_error {f : Fault} (h : search mem i = .error f) : f = .search := by
  fun_induction search mem i with
  | case1 => cases h
  | case2 i _ _ _ ih => exact ih h
  | case3 => exact (Except.error.inj h).symm
  | case4 => cases h

theorem search_zero : search mem 0 = .ok (some offset) ↔ FirstMagic mem offset := by
  rw [search_iff (by simp)]
  simp

/-- What the opening does behind the search. -/
theorem open_found (h : FirstMagic mem offset) : «open» mem rdonly = do
    let accepted ← accepts mem rdonly offset
    if accepted then
      let h ← rehash { mem, offset }
      return some h
    else return none := by
  rw [«open», search_zero.mpr h]
  rfl

/-- Opening a partition reads only bytes of it, behind the search, exactly if the text ends inside. -/
theorem open_inside_iff (mem : Bytes) (rdonly : Bool) :
    («open» mem rdonly ≠ .error .header ∧ «open» mem rdonly ≠ .error .text) ↔ Inside mem rdonly := by
  rcases hsearch : search mem 0 with f | _ | offset
  · have hnone : ∀ offset, ¬FirstMagic mem offset := fun offset h => by
      rw [search_zero.mpr h] at hsearch
      cases hsearch
    rw [«open», hsearch, search_error hsearch]
    simp [Inside, hnone, bind, Except.bind]
  · have hnone : ∀ offset, ¬FirstMagic mem offset := fun offset h => by
      rw [search_zero.mpr h] at hsearch
      cases hsearch
    rw [«open», hsearch]
    simp [Inside, hnone, bind, Except.bind, pure, Except.pure]
  · have hfirst := search_zero.mp hsearch
    have hinside : Inside mem rdonly ↔ (rdonly = true ∨ offset + 8 ≤ mem.length) ∧
        (rdonly = true ∨ (word mem (offset + 4)).toNat < mem.length - offset → Terminated (mem.drop (offset + headerSize))) := by
      refine ⟨fun h => h offset hfirst, fun h offset' hfirst' => ?_⟩
      rw [search_zero.mpr hfirst'] at hsearch
      obtain rfl : offset' = offset := by simpa using hsearch
      exact h
    rw [open_found hfirst, hinside]
    by_cases hlen : rdonly = true ∨ offset + 8 ≤ mem.length
    · rw [accepts_eq hfirst hlen]
      by_cases haccepted : rdonly = true ∨ (word mem (offset + 4)).toNat < mem.length - offset
      · have hbool : (rdonly || decide ((word mem (offset + 4)).toNat < mem.length - offset)) = true := by simpa using haccepted
        by_cases hterm : Terminated (mem.drop (offset + headerSize))
        · simp only [hbool, rehash_ok (h := { mem, offset }) hterm]
          simp [hlen, hterm, bind, Except.bind, pure, Except.pure]
        · simp only [hbool, rehash_stop (h := { mem, offset }) hterm]
          simp [haccepted, hterm, bind, Except.bind]
      · have hbool : (rdonly || decide ((word mem (offset + 4)).toNat < mem.length - offset)) = false := by simpa using haccepted
        simp only [hbool]
        simp [hlen, haccepted, bind, Except.bind, pure, Except.pure]
    · rw [accepts_stop hfirst hlen]
      simp [hlen, bind, Except.bind]

theorem lastIndex_eq (hmin : NVRAM_MIN_SPACE ≤ mem.length) (hmax : mem.length < 2 ^ 32) :
    lastIndex mem = (mem.length - NVRAM_MIN_SPACE) / 4 := by
  simp only [lastIndex, NVRAM_MIN_SPACE] at *
  omega

theorem find_iff (hmin : NVRAM_MIN_SPACE ≤ mem.length) (hmax : mem.length < 2 ^ 32) :
    (List.range ((mem.length - NVRAM_MIN_SPACE) / 4 + 1)).find? (fun i => word mem (4 * i) = NVRAM_MAGIC) = some i ↔ FirstMagic mem (4 * i) := by
  rw [List.find?_range_eq_some, List.mem_range]
  constructor
  · rintro ⟨hmagic, hlt, hfirst⟩
    refine ⟨by omega, by simp only [NVRAM_MIN_SPACE] at *; omega, by rw [lastIndex_eq hmin hmax]; omega, by simpa using hmagic, fun o ho halign => ?_⟩
    have hword := hfirst (o / 4) (by omega)
    simpa [Nat.mul_div_cancel' (Nat.dvd_of_mod_eq_zero halign)] using hword
  · intro h
    have hlast := h.searched
    rw [lastIndex_eq hmin hmax] at hlast
    exact ⟨by simpa using h.magic, by omega, fun j hj => by simpa using h.first (4 * j) (by omega) (by omega)⟩

/-- What is opened without leaving the mapping is the handle of the partition. -/
theorem open_eq (hmin : NVRAM_MIN_SPACE ≤ mem.length) (hmax : mem.length < 2 ^ 32) {h : Option Handle}
    (hopen : «open» mem rdonly = .ok h) : h = Nvram.open mem rdonly := by
  rw [Nvram.open]
  cases hfind : (List.range ((mem.length - NVRAM_MIN_SPACE) / 4 + 1)).find? (fun i => word mem (4 * i) = NVRAM_MAGIC) with
  | none =>
    rcases hsearch : search mem 0 with f | _ | offset
    · rw [«open», hsearch] at hopen
      cases hopen
    · rw [«open», hsearch] at hopen
      exact (Except.ok.inj hopen).symm
    · have hfirst := search_zero.mp hsearch
      have hoffset : 4 * (offset / 4) = offset := Nat.mul_div_cancel' (Nat.dvd_of_mod_eq_zero hfirst.aligned)
      rw [(find_iff hmin hmax).mpr (hoffset.symm ▸ hfirst)] at hfind
      cases hfind
  | some i =>
    have hfirst := (find_iff hmin hmax).mp hfind
    have hlen : rdonly = true ∨ 4 * i + 8 ≤ mem.length := by
      have hlast := hfirst.searched
      rw [lastIndex_eq hmin hmax] at hlast
      simp only [NVRAM_MIN_SPACE] at *
      omega
    rw [open_found hfirst, accepts_eq hfirst hlen] at hopen
    simp only [Option.bind_eq_bind, Option.bind_some]
    by_cases haccepted : rdonly = true ∨ (word mem (4 * i + 4)).toNat < mem.length - 4 * i
    · have hbool : (rdonly || decide ((word mem (4 * i + 4)).toNat < mem.length - 4 * i)) = true := by simpa using haccepted
      rw [hbool] at hopen
      rw [if_pos ⟨hfirst.magic, haccepted⟩]
      by_cases hterm : Terminated (mem.drop (4 * i + headerSize))
      · rw [rehash_ok (h := { mem, offset := 4 * i }) hterm] at hopen
        exact (Except.ok.inj hopen).symm
      · rw [rehash_stop (h := { mem, offset := 4 * i }) hterm] at hopen
        cases hopen
    · have hbool : (rdonly || decide ((word mem (4 * i + 4)).toNat < mem.length - 4 * i)) = false := by simpa using haccepted
      rw [hbool] at hopen
      rw [if_neg fun h => haccepted h.2]
      exact (Except.ok.inj hopen).symm

/-- A header at the start of a partition whose rest is erased. -/
def erased : Bytes := unwords [NVRAM_MAGIC, 0, 0, 0, 0] ++ List.replicate 0x7fec 0xff

theorem length_erased : erased.length = NVRAM_MIN_SPACE := by
  rw [erased, List.length_append, List.length_replicate]
  rfl

theorem erased_first : FirstMagic erased 0 :=
  ⟨rfl, by rw [length_erased]; decide, Nat.zero_le _, word_unwords [NVRAM_MAGIC, 0, 0, 0, 0] _ 0 (by decide), fun o ho => absurd ho (Nat.not_lt_zero o)⟩

/-- The parsing of an erased area does not end, in either mode. -/
theorem erased_outside (rdonly : Bool) : «open» erased rdonly = .error .text := by
  have hlen : rdonly = true ∨ 0 + 8 ≤ erased.length := .inr (by rw [length_erased]; decide)
  have hword : word erased (0 + 4) = 0 := word_unwords [NVRAM_MAGIC, 0, 0, 0, 0] _ 1 (by decide)
  have hterm : ¬Terminated (erased.drop (0 + headerSize)) := by
    refine not_terminated fun h0 => ?_
    rw [erased, List.drop_left' (by rfl)] at h0
    exact absurd (List.eq_of_mem_replicate h0) (by decide)
  rw [open_found erased_first, accepts_eq erased_first hlen, hword]
  have hbool : (rdonly || decide ((0 : UInt32).toNat < erased.length - 0)) = true := by rw [length_erased]; simp [NVRAM_MIN_SPACE]
  rw [hbool]
  simp only [rehash_stop (h := { mem := erased, offset := 0 }) hterm]
  rfl

/-- Opening an erased partition leaves the mapping in both modes. -/
theorem open_leaves : «open» erased true = .error .text ∧ «open» erased false = .error .text := ⟨erased_outside true, erased_outside false⟩

end RainWrt.Nvram.Memory
