import RainWrt.Mtd.Fis

/-! The table of partitions after a remap: what stands where, and which lists of partitions get there. -/

namespace RainWrt.Mtd

/-- The parts of a table in which the old entries stand together: what stands before and behind them, and the slots from the first
    one without a name on. -/
structure Table (old : List FisPart) (before olds after free : List FisImageDesc) : Prop where
  before : ∀ d ∈ before, d.used = true ∧ d.isOld old = false
  olds : ∀ d ∈ olds, d.used = true ∧ d.isOld old = true
  after : ∀ d ∈ after, d.used = true ∧ d.isOld old = false
  free : ∀ d ∈ free.head?, d.used = false

/-- The new partitions have slots, and addresses from the lowest old one on. -/
structure Fits (olds free : List FisImageDesc) (new : List FisPart) : Prop where
  slots : new.length ≤ olds.length + free.length
  flash : ∃ d ∈ olds, d.flashBase.toNat + (new.map (·.size.toNat)).sum < 2 ^ 32

/-- The entries of the new partitions, one range of the flash behind the other. -/
def Consecutive : (base : Nat) → List FisPart → List FisImageDesc → Prop
  | _, [], [] => True
  | base, part :: new, d :: ds =>
    d.flashBase.toNat = base ∧ (∃ size, d = newDesc part d.flashBase size) ∧ Consecutive (base + d.size.toNat) new ds
  | _, _, _ => False

/-- The new entries stand between the others, from the lowest old base on, and the slots that were freed are erased. -/
def Remapped (before olds after free : List FisImageDesc) (new : List FisPart) (block : List FisImageDesc) : Prop :=
  ∃ low news, IsLeast {b | ∃ d ∈ olds, d.flashBase.toNat = b} low ∧ Consecutive low new news ∧
    block = before ++ news ++ (after ++
      (free ++ List.replicate (olds.length - new.length) (FisImageDesc.fill 0xff)).take
        (olds.length + free.length - new.length))

/-! ### Looking for the old entries -/

section
variable {old : List FisPart} {l rest : List FisImageDesc} {s : OldEntries}

variable (rest s) in
theorem findOld_skip (h : ∀ d ∈ l, d.used = true ∧ d.isOld old = false) (desc : Nat) :
    ∃ offset, findOld old desc (l ++ rest) s = findOld old (desc + l.length) rest { s with offset := offset } := by
  induction l generalizing desc s with
  | nil => exact ⟨s.offset, rfl⟩
  | cons d l ih =>
    obtain ⟨hused, hold⟩ := h d List.mem_cons_self
    rw [List.cons_append, findOld, if_pos hused, List.length_cons, Nat.add_comm l.length, ← Nat.add_assoc]
    simp only [hold, Bool.false_eq_true, if_false]
    obtain ⟨offset, hoffset⟩ := ih (s := if s.offset < d.flashBase then { s with offset := d.flashBase } else s)
      (fun d hd => h d (List.mem_cons_of_mem _ hd)) (desc + 1)
    refine ⟨offset, hoffset.trans ?_⟩
    split_ifs
    · rfl
    · rfl

variable (rest s) in
theorem findOld_olds (h : ∀ d ∈ l, d.used = true ∧ d.isOld old = true) (hne : l ≠ []) (desc : Nat) :
    ∃ offset, findOld old desc (l ++ rest) s =
      findOld old (desc + l.length) rest ⟨offset, s.first.or (some desc), some (desc + l.length - 1)⟩ := by
  induction l generalizing desc s with
  | nil => exact absurd rfl hne
  | cons d l ih =>
    obtain ⟨hused, hold⟩ := h d List.mem_cons_self
    rw [List.cons_append, findOld, if_pos hused]
    simp only [hold, if_true]
    have hfirst : (if s.offset < d.flashBase then { s with offset := d.flashBase } else s).first = s.first := by
      split_ifs
      · rfl
      · rfl
    rw [hfirst]
    rcases eq_or_ne l [] with rfl | hl
    · exact ⟨_, rfl⟩
    · obtain ⟨offset, hoffset⟩ := ih (s := ⟨(if s.offset < d.flashBase then { s with offset := d.flashBase } else s).offset,
        s.first.or (some desc), some desc⟩) (fun d hd => h d (List.mem_cons_of_mem _ hd)) hl (desc + 1)
      have hor : (s.first.or (some desc)).or (some (desc + 1)) = s.first.or (some desc) := by
        cases s.first with
        | none => rfl
        | some first => rfl
      rw [hor] at hoffset
      refine ⟨offset, hoffset.trans ?_⟩
      rw [List.length_cons, Nat.add_assoc, Nat.add_comm 1]

theorem findOld_free (h : ∀ d ∈ l.head?, d.used = false) (desc : Nat) : findOld old desc l s = s := by
  cases l with
  | nil => rfl
  | cons d l =>
    rw [findOld, h d rfl]
    rfl

variable {before olds after free : List FisImageDesc}

/-- The first and the last old entry are found. -/
theorem Table.findOld (h : Table old before olds after free) (hne : olds ≠ []) :
    ∃ offset, Mtd.findOld old 0 (before ++ (olds ++ (after ++ free))) ⟨0, none, none⟩ =
      ⟨offset, some before.length, some (before.length + olds.length - 1)⟩ := by
  obtain ⟨offset₁, hbefore⟩ := findOld_skip (olds ++ (after ++ free)) ⟨0, none, none⟩ h.before 0
  obtain ⟨offset₂, holds⟩ := findOld_olds (after ++ free) ⟨offset₁, none, none⟩ h.olds hne (0 + before.length)
  obtain ⟨offset₃, hafter⟩ := findOld_skip free ⟨offset₂, some (0 + before.length), some (0 + before.length + olds.length - 1)⟩
    h.after (0 + before.length + olds.length)
  refine ⟨offset₃, hbefore.trans (holds.trans (hafter.trans ?_))⟩
  rw [findOld_free h.free, Nat.zero_add]

theorem countOld_append (h : ∀ d ∈ l, d.used = true) (found : Nat) :
    countOld old (l ++ rest) found = countOld old rest (found + (l.filter fun d => d.isOld old).length) := by
  induction l generalizing found with
  | nil => rfl
  | cons d l ih =>
    rw [List.cons_append, countOld, if_pos (h d List.mem_cons_self), ih fun d hd => h d (List.mem_cons_of_mem _ hd), List.filter_cons]
    split_ifs
    · rw [List.length_cons, Nat.add_assoc, Nat.add_comm 1]
    · rfl

theorem countOld_free (h : ∀ d ∈ l.head?, d.used = false) (found : Nat) : countOld old l found = found := by
  cases l with
  | nil => rfl
  | cons d l =>
    rw [countOld, h d rfl]
    rfl

/-- The old entries are counted. -/
theorem Table.count (h : Table old before olds after free) : countOld old (before ++ (olds ++ (after ++ free))) 0 = olds.length := by
  have hnone {l : List FisImageDesc} (hl : ∀ d ∈ l, d.used = true ∧ d.isOld old = false) : (l.filter fun d => d.isOld old) = [] := by
    rw [List.filter_eq_nil_iff]
    intro d hd
    simp [(hl d hd).2]
  have hall : (olds.filter fun d => d.isOld old) = olds := List.filter_eq_self.mpr fun d hd => (h.olds d hd).2
  rw [countOld_append fun d hd => (h.before d hd).1, countOld_append fun d hd => (h.olds d hd).1,
    countOld_append fun d hd => (h.after d hd).1, countOld_free h.free, hnone h.before, hnone h.after, hall]
  simp

/-- What was accepted. -/
theorem Table.accepted (h : Table old before olds after free) {new : List FisPart}
    (hvalid : fisValidate (before ++ (olds ++ (after ++ free))) old new = 1) :
    olds.length = old.length ∧ ∀ p ∈ new.dropLast, p.size ≠ 0 := by
  unfold fisValidate at hvalid
  split at hvalid
  case isTrue => cases hvalid
  case isFalse hsizes =>
    split at hvalid
    case isFalse => cases hvalid
    case isTrue hcount =>
      rw [h.count] at hcount
      exact ⟨hcount, by simpa using hsizes⟩

end

/-! ### The new entries -/

/-- The entries that are written. -/
def newDescs : List FisPart → (offset size : UInt32) → List FisImageDesc
  | [], _, _ => []
  | part :: new, offset, size =>
    let d := newDesc part offset size
    d :: newDescs new (offset + d.size) (size - d.size)

section
variable {new : List FisPart} {offset size : UInt32}

@[simp] theorem length_newDescs : (newDescs new offset size).length = new.length := by
  induction new generalizing offset size with
  | nil => rfl
  | cons part new ih => rw [newDescs, List.length_cons, List.length_cons, ih]

theorem writeNew_eq {pre mid post : List FisImageDesc} (h : mid.length = new.length) :
    writeNew pre.length new offset size (pre ++ mid ++ post) = some (pre ++ newDescs new offset size ++ post) := by
  induction new generalizing pre mid offset size with
  | nil =>
    obtain rfl := List.length_eq_zero_iff.mp h
    rfl
  | cons part new ih =>
    obtain ⟨d, mid, rfl⟩ := List.exists_cons_of_length_eq_add_one h
    have hset : (pre ++ d :: mid ++ post).set pre.length (newDesc part offset size) = (pre ++ [newDesc part offset size]) ++ mid ++ post := by
      simp
    have hlt : pre.length < (pre ++ d :: mid ++ post).length := by simp
    rw [writeNew, if_pos hlt]
    dsimp only
    rw [hset]
    have hlength : pre.length + 1 = (pre ++ [newDesc part offset size]).length := by simp
    rw [hlength, ih (by simpa using h)]
    simp [newDescs]

/-- Only the last size is left to be found. So the ranges do not wrap. -/
theorem consecutive_newDescs (hsizes : ∀ p ∈ new.dropLast, p.size ≠ 0)
    (hfits : offset.toNat + (new.map (·.size.toNat)).sum < 2 ^ 32) :
    Consecutive offset.toNat new (newDescs new offset size) := by
  induction new generalizing offset size with
  | nil => trivial
  | cons part new ih =>
    refine ⟨rfl, ⟨size, rfl⟩, ?_⟩
    cases new with
    | nil => trivial
    | cons next new =>
      have hsize : (newDesc part offset size).size = part.size := if_pos (UInt32.pos_iff_ne_zero.mpr (hsizes part (by simp)))
      rw [List.map_cons, List.sum_cons] at hfits
      have hadd : (offset + part.size).toNat = offset.toNat + part.size.toNat := by
        rw [UInt32.toNat_add, Nat.mod_eq_of_lt (by omega)]
      rw [hsize, ← hadd]
      refine ih (fun p hp => hsizes p ?_) (by omega)
      rw [List.dropLast_cons_of_ne_nil (by simp)]
      exact List.mem_cons_of_mem _ hp

theorem Consecutive.length_eq {base : Nat} {news : List FisImageDesc} (h : Consecutive base new news) : news.length = new.length := by
  induction new generalizing base news with
  | nil =>
    cases news with
    | nil => rfl
    | cons d news => exact h.elim
  | cons part new ih =>
    cases news with
    | nil => exact h.elim
    | cons d news => rw [List.length_cons, List.length_cons, ih h.2.2]

end

/-! ### Making room -/

section
variable {bits : Nat} {block : List FisImageDesc} {desc last : Nat}

/-- A difference that is not negative. -/
theorem sizeT_natCast {n : Nat} (h : n < 2 ^ bits) : sizeT bits (n : Int) = n := by
  have hlt : (n : Int) < 2 ^ bits := by exact_mod_cast h
  unfold sizeT
  rw [Int.emod_eq_of_lt (by omega) hlt, Int.toNat_natCast]

/-- A negative difference is a huge size. -/
theorem sizeT_neg {n : Nat} (hpos : 0 < n) (h : n < 2 ^ bits) : sizeT bits (-(n : Int)) = 2 ^ bits - n := by
  have hlt : (n : Int) < 2 ^ bits := by exact_mod_cast h
  have hcast : ((2 ^ bits : Nat) : Int) = 2 ^ bits := by push_cast; rfl
  unfold sizeT
  rw [← Int.add_emod_right, Int.emod_eq_of_lt (by omega) (by omega)]
  omega

theorem memmove_eq {dst src k : Nat} (hsrc : src + k ≤ block.length) (hdst : dst + k ≤ block.length) :
    memmove block dst src (descSize * k) = some (block.take dst ++ (block.drop src).take k ++ block.drop (dst + k)) := by
  unfold memmove descSize
  rw [if_pos ⟨by omega, by omega⟩, Nat.mul_div_cancel_left k (by decide)]

/-- The slots from `desc` on get what there is room for. -/
theorem moveRest_of_le (hbits : 32 ≤ bits) (hsize : descSize * block.length < 2 ^ 31) (hle : last ≤ desc) (hdesc : desc ≤ block.length) :
    moveRest bits block desc last = some (block.take desc ++ (block.drop last).take (block.length - desc)) := by
  have hpow : 2 ^ 31 < 2 ^ bits := Nat.pow_lt_pow_right (by decide) (by omega)
  unfold moveRest
  by_cases heq : desc = last
  · have hall : (block.drop last).take (block.length - last) = block.drop last := List.take_of_length_le (by rw [List.length_drop])
    rw [if_pos heq, heq, hall, List.take_append_drop]
  · have hdiff : (descSize * (block.length - desc : Int)) = ((descSize * (block.length - desc) : Nat) : Int) := by
      unfold descSize
      omega
    have hmoved : sizeT bits (descSize * (block.length - desc : Int)) = descSize * (block.length - desc) := by
      rw [hdiff]
      exact sizeT_natCast (lt_of_le_of_lt (Nat.mul_le_mul_left _ (Nat.sub_le _ _)) (hsize.trans hpow))
    have hlt : last < desc := by omega
    have hnot : ¬ desc < last := by omega
    simp only [if_neg heq, if_pos hlt, if_neg hnot]
    rw [hmoved, memmove_eq (by omega) (by omega), Nat.add_sub_cancel' hdesc, List.drop_length, List.append_nil]
    rfl

/-- The size of the slots that are freed is taken with the wrong sign. -/
theorem moveRest_of_lt (hbits : 32 ≤ bits) (hsize : descSize * block.length < 2 ^ 31) (hlt : desc < last) (hlast : last ≤ block.length) :
    moveRest bits block desc last = none := by
  have hpow : 2 ^ 32 ≤ 2 ^ bits := Nat.pow_le_pow_right (by decide) hbits
  have hdiff : (descSize * (block.length - last : Int)) = ((descSize * (block.length - last) : Nat) : Int) := by
    unfold descSize
    omega
  have hmoved : sizeT bits (descSize * (block.length - last : Int)) = descSize * (block.length - last) := by
    rw [hdiff]
    exact sizeT_natCast (lt_of_le_of_lt (Nat.mul_le_mul_left _ (Nat.sub_le _ _)) (by omega))
  have hne : desc ≠ last := by omega
  have hnot : ¬ last < desc := by omega
  unfold moveRest
  simp only [if_neg hne, if_pos hlt, if_neg hnot]
  rw [hmoved, memmove_eq (by omega) (by omega)]
  simp only [Option.bind_eq_bind, Option.bind_some]
  have hlength : (block.take desc ++ (block.drop last).take (block.length - last) ++ block.drop (desc + (block.length - last))).length =
      block.length := by
    simp only [List.length_append, List.length_take, List.length_drop]
    omega
  rw [hlength]
  have hback : (descSize * ((block.length - (last - desc) : Nat) - block.length : Int)) = -((descSize * (last - desc) : Nat) : Int) := by
    unfold descSize
    omega
  have hfreed : sizeT bits (descSize * ((block.length - (last - desc) : Nat) - block.length : Int)) = 2 ^ bits - descSize * (last - desc) := by
    rw [hback]
    exact sizeT_neg (by unfold descSize; omega) (by unfold descSize at *; omega)
  rw [hfreed]
  unfold memset
  rw [hlength, if_neg]
  unfold descSize at *
  omega

end

/-! ### The table that is left -/

section
variable {bits : Nat} {old new : List FisPart} {before olds after free : List FisImageDesc}

/-- The lower one of the first and the last old base. -/
def firstBase (a b : FisImageDesc) : UInt32 := if b.flashBase < a.flashBase then b.flashBase else a.flashBase

variable (bits new) in
/-- The remap, from the places that were found on. -/
theorem Table.fisRemap (h : Table old before olds after free) {a b : FisImageDesc} (ha : olds.head? = some a) (hb : olds.getLast? = some b) :
    ∃ size, Mtd.fisRemap bits (before ++ (olds ++ (after ++ free))) old new =
      (moveRest bits (before ++ (olds ++ (after ++ free))) (before.length + new.length) (before.length + olds.length)).bind
        fun block => writeNew before.length new (firstBase a b) size block := by
  have hne : olds ≠ [] := by
    rintro rfl
    cases ha
  have hpos : 0 < olds.length := List.length_pos_iff.mpr hne
  obtain ⟨offset, hfound⟩ := h.findOld hne
  have hfirst : (before ++ (olds ++ (after ++ free)))[before.length]? = some a := by
    rw [List.getElem?_append_right (le_refl _), Nat.sub_self, List.getElem?_append_left hpos, ← List.head?_eq_getElem?, ha]
  have hlast : (before ++ (olds ++ (after ++ free)))[before.length + olds.length - 1]? = some b := by
    rw [List.getElem?_append_right (by omega), List.getElem?_append_left (by omega), ← hb, List.getLast?_eq_getElem?]
    congr 1
    omega
  have hend : before.length + olds.length - 1 + 1 = before.length + olds.length := by omega
  unfold Mtd.fisRemap firstBase
  simp only [hfound, Option.bind_eq_bind, Option.bind_some, hfirst, hlast, hend]
  split_ifs
  · exact ⟨_, rfl⟩
  · exact ⟨_, rfl⟩

variable {a b : FisImageDesc}

/-- A list that is no shorter goes between the other entries. -/
theorem Table.fisRemap_of_le (h : Table old before olds after free) (ha : olds.head? = some a) (hb : olds.getLast? = some b)
    (hbits : 32 ≤ bits) (hsize : descSize * (before ++ (olds ++ (after ++ free))).length < 2 ^ 31) (hfits : Fits olds free new)
    (hle : olds.length ≤ new.length) :
    ∃ size, Mtd.fisRemap bits (before ++ (olds ++ (after ++ free))) old new =
      some (before ++ newDescs new (firstBase a b) size ++ (after ++ free.take (olds.length + free.length - new.length))) := by
  obtain ⟨size, hremap⟩ := h.fisRemap bits new ha hb
  refine ⟨size, hremap.trans ?_⟩
  have hslots := hfits.slots
  have hlength : (before ++ (olds ++ (after ++ free))).length = before.length + (olds.length + (after.length + free.length)) := by
    simp only [List.length_append]
  rw [moveRest_of_le hbits hsize (by omega) (by omega), Option.bind_some]
  have htake : (before ++ (olds ++ (after ++ free))).take (before.length + new.length) =
      before ++ (olds ++ (after ++ free)).take new.length := List.take_length_add_append _
  have hdrop : (before ++ (olds ++ (after ++ free))).drop (before.length + olds.length) = after ++ free := by
    rw [List.drop_length_add_append, List.drop_left]
  have hroom : before.length + (olds.length + (after.length + free.length)) - (before.length + new.length) =
      after.length + (olds.length + free.length - new.length) := by omega
  rw [htake, hdrop, hlength, hroom, List.take_length_add_append]
  apply writeNew_eq
  rw [List.length_take]
  simp only [List.length_append]
  omega

/-- A shorter list is written nowhere: the program ends where it fills the block. -/
theorem Table.fisRemap_of_lt (h : Table old before olds after free) (ha : olds.head? = some a) (hb : olds.getLast? = some b)
    (hbits : 32 ≤ bits) (hsize : descSize * (before ++ (olds ++ (after ++ free))).length < 2 ^ 31) (hlt : new.length < olds.length) :
    Mtd.fisRemap bits (before ++ (olds ++ (after ++ free))) old new = none := by
  obtain ⟨size, hremap⟩ := h.fisRemap bits new ha hb
  have hlast : before.length + olds.length ≤ (before ++ (olds ++ (after ++ free))).length := by
    simp only [List.length_append]
    omega
  rw [hremap, moveRest_of_lt hbits hsize (by omega) hlast, Option.bind_none]

/-- The lower one of the two is an old base. It is the lowest just if no other one is below both. -/
theorem isLeast_firstBase (ha : olds.head? = some a) (hb : olds.getLast? = some b) :
    IsLeast {n | ∃ d ∈ olds, d.flashBase.toNat = n} (firstBase a b).toNat ↔
      ∀ d ∈ olds, a.flashBase ≤ d.flashBase ∨ b.flashBase ≤ d.flashBase := by
  have hmem : (firstBase a b).toNat ∈ {n | ∃ d ∈ olds, d.flashBase.toNat = n} := by
    unfold firstBase
    split_ifs
    · exact ⟨b, List.mem_of_getLast? hb, rfl⟩
    · exact ⟨a, List.mem_of_head? ha, rfl⟩
  have hle (d : FisImageDesc) : (firstBase a b).toNat ≤ d.flashBase.toNat ↔ a.flashBase ≤ d.flashBase ∨ b.flashBase ≤ d.flashBase := by
    unfold firstBase
    rw [UInt32.le_iff_toNat_le, UInt32.le_iff_toNat_le]
    split_ifs with hlt
    · rw [UInt32.lt_iff_toNat_lt] at hlt
      omega
    · rw [UInt32.lt_iff_toNat_lt] at hlt
      omega
  constructor
  · intro h d hd
    exact (hle d).mp (h.2 ⟨d, hd, rfl⟩)
  · intro h
    refine ⟨hmem, ?_⟩
    rintro n ⟨d, hd, rfl⟩
    exact (hle d).mpr (h d hd)

end

/-- A table is remapped just if the new list is no shorter, and the lowest old base is that of the first or the last old entry. -/
theorem remap_iff {bits : Nat} (hbits : 32 ≤ bits) {old new : List FisPart} {before olds after free : List FisImageDesc}
    (htable : Table old before olds after free) (hsize : descSize * (before ++ (olds ++ (after ++ free))).length < 2 ^ 31)
    (hvalid : fisValidate (before ++ (olds ++ (after ++ free))) old new = 1) (hfits : Fits olds free new) :
    (∃ block, fisRemap bits (before ++ (olds ++ (after ++ free))) old new = some block ∧ Remapped before olds after free new block) ↔
      olds.length ≤ new.length ∧ ∀ d ∈ olds, (∃ a ∈ olds.head?, a.flashBase ≤ d.flashBase) ∨ ∃ b ∈ olds.getLast?, b.flashBase ≤ d.flashBase := by
  obtain ⟨-, hsizes⟩ := htable.accepted hvalid
  obtain ⟨low, hlow, hspace⟩ := hfits.flash
  obtain ⟨a, ha⟩ : ∃ a, olds.head? = some a := Option.ne_none_iff_exists'.mp fun h => by
    rw [List.head?_eq_none_iff.mp h] at hlow
    cases hlow
  obtain ⟨b, hb⟩ : ∃ b, olds.getLast? = some b := Option.ne_none_iff_exists'.mp fun h => by
    rw [List.getLast?_eq_none_iff.mp h] at hlow
    cases hlow
  have hbases : (∀ d ∈ olds, (∃ a ∈ olds.head?, a.flashBase ≤ d.flashBase) ∨ ∃ b ∈ olds.getLast?, b.flashBase ≤ d.flashBase) ↔
      IsLeast {n | ∃ d ∈ olds, d.flashBase.toNat = n} (firstBase a b).toNat := by
    rw [isLeast_firstBase ha hb]
    simp [ha, hb]
  rw [hbases]
  rcases lt_or_ge new.length olds.length with hlt | hle
  · rw [htable.fisRemap_of_lt ha hb hbits hsize hlt]
    constructor
    · rintro ⟨block, hblock, -⟩
      cases hblock
    · intro h
      omega
  · obtain ⟨size, hremap⟩ := htable.fisRemap_of_le ha hb hbits hsize hfits hle
    have hfreed : free ++ List.replicate (olds.length - new.length) (FisImageDesc.fill 0xff) = free := by
      rw [Nat.sub_eq_zero_of_le hle]
      exact List.append_nil free
    rw [hremap]
    constructor
    · rintro ⟨block, hblock, base, news, hbase, hnews, rfl⟩
      refine ⟨hle, ?_⟩
      have hsame := Option.some.inj hblock
      rw [List.append_assoc, List.append_assoc] at hsame
      obtain ⟨rfl, -⟩ := List.append_inj (List.append_cancel_left hsame) (by rw [length_newDescs, hnews.length_eq])
      cases new with
      | nil =>
        have hpos := List.length_pos_of_mem hlow
        simp only [List.length_nil] at hle
        omega
      | cons part new =>
        rw [show (firstBase a b).toNat = base from hnews.1]
        exact hbase
    · rintro ⟨-, hleast⟩
      refine ⟨_, rfl, (firstBase a b).toNat, newDescs new (firstBase a b) size, hleast, ?_, by rw [hfreed]⟩
      refine consecutive_newDescs hsizes (lt_of_le_of_lt ?_ hspace)
      exact Nat.add_le_add_right (hleast.2 ⟨low, hlow, rfl⟩) _

/-- An entry of 64 KiB, at a place in the flash. -/
def entry (name : UInt8) (base : UInt32) : FisImageDesc :=
  { FisImageDesc.fill 0 with name := name :: List.replicate 15 0, flashBase := base, size := 0x10000 }

def part (name : UInt8) (size : UInt32) : FisPart := ⟨name :: List.replicate 15 0, 0, size, 0, 0⟩

/-- One partition becomes two. -/
theorem remap_split : ∃ block,
    fisRemap 32 ([entry 65 0] ++ ([entry 66 0x10000] ++ ([entry 67 0x30000] ++ [.fill 0xff]))) [part 66 0] [part 68 0x8000, part 69 0] =
        some block ∧
      Remapped [entry 65 0] [entry 66 0x10000] [entry 67 0x30000] [.fill 0xff] [part 68 0x8000, part 69 0] block :=
  (remap_iff (le_refl _) ⟨by decide, by decide, by decide, by decide⟩ (by decide) (by decide)
    ⟨by decide, ⟨_, List.mem_singleton_self _, by decide⟩⟩).mpr ⟨by decide, by decide⟩

/-- Two partitions do not become one. -/
theorem remap_joined : fisValidate ([] ++ ([entry 66 0x10000, entry 67 0x20000] ++ ([entry 68 0x30000] ++ [.fill 0xff])))
      [part 66 0, part 67 0] [part 69 0] = 1 ∧
    fisRemap 32 ([] ++ ([entry 66 0x10000, entry 67 0x20000] ++ ([entry 68 0x30000] ++ [.fill 0xff])))
      [part 66 0, part 67 0] [part 69 0] = none := by
  decide

end RainWrt.Mtd
