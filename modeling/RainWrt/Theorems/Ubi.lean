import RainWrt.Ubi

/-! What an image is like that the inspection takes: which blocks it has, and what its volumes hold. Blocks of volumes
    that are not in the table are taken too. -/

namespace RainWrt.Ubi

/-! ### Exceptions -/

section
variable {α β : Type}

theorem bind_eq_ok {x : Except Fault α} {f : α → Except Fault β} {b : β} : (x >>= f) = .ok b ↔ ∃ a, x = .ok a ∧ f a = .ok b := by
  cases x with
  | error e => exact ⟨fun h => (nomatch h), fun ⟨a, h, _⟩ => (nomatch h)⟩
  | ok a =>
    constructor
    · intro h
      exact ⟨a, rfl, h⟩
    · rintro ⟨a', ha, h⟩
      obtain rfl := Except.ok.inj ha
      exact h

theorem ok_bind {a : α} {f : α → Except Fault β} : (Except.ok a >>= f) = f a := rfl

theorem require_eq_ok {c : Prop} [Decidable c] {text : String} {u : Unit} : require c text = .ok u ↔ c := by
  unfold require
  split
  · rename_i h
    exact ⟨fun _ => h, fun _ => rfl⟩
  · rename_i h
    exact ⟨fun he => (nomatch he), fun hc => absurd hc h⟩

theorem require_bind {c : Prop} [Decidable c] {text : String} {f : Unit → Except Fault β} {b : β} :
    (require c text >>= f) = .ok b ↔ c ∧ f () = .ok b := by
  rw [bind_eq_ok]
  constructor
  · rintro ⟨u, hc, h⟩
    exact ⟨require_eq_ok.mp hc, h⟩
  · rintro ⟨hc, h⟩
    exact ⟨(), require_eq_ok.mpr hc, h⟩

theorem forM_eq_ok {f : α → Except Fault Unit} {l : List α} {u : Unit} : l.forM f = .ok u ↔ ∀ a ∈ l, f a = .ok () := by
  induction l with
  | nil => exact ⟨fun _ _ h => (nomatch h), fun _ => rfl⟩
  | cons a l ih =>
    change (f a >>= fun _ => l.forM f) = .ok u ↔ _
    rw [bind_eq_ok, List.forall_mem_cons]
    constructor
    · rintro ⟨_, ha, h⟩
      exact ⟨ha, ih.mp h⟩
    · rintro ⟨ha, h⟩
      exact ⟨(), ha, ih.mpr h⟩

end

/-! ### Blocks -/

/-- The number of the volume in the header of a block, and that of the block in its volume. -/
def volumeOf (block : Bytes) : Nat := beAt 4 (slice block 2048 64) 8
def lnumOf (block : Bytes) : Nat := beAt 4 (slice block 2048 64) 12

def payloadOf (block : Bytes) : Bytes := block.drop 4096

def sequenceOf (block : Bytes) : Nat := beAt 4 block 24

/-- A copy of the volume table. -/
def isLayout (block : Bytes) : Bool := 0x7fffefff ≤ volumeOf block

def tableOf (block : Bytes) : Bytes := slice block 4096 (128 * 172)

def belongs (v : Nat) (block : Bytes) : Bool := !isLayout block && volumeOf block = v

def pieceOf (block : Bytes) : Nat × Bytes := (lnumOf block, payloadOf block)

/-- A block whose headers are in order. -/
structure Valid (crc32 : Bytes → UInt32) (block : Bytes) : Prop where
  ecMagic : block.take 4 = ascii "UBI#"
  ecCrc : beAt 4 block 60 = (~~~crc32 (block.take 60)).toNat
  vidOffset : beAt 4 block 16 = 2048
  dataOffset : beAt 4 block 20 = 4096
  vidMagic : (slice block 2048 64).take 4 = ascii "UBI!"
  vidCrc : beAt 4 (slice block 2048 64) 60 = (~~~crc32 ((slice block 2048 64).take 60)).toNat

/-- `sequence.add(seq)`. -/
def addSequence (l : List Nat) (seq : Nat) : List Nat := if seq ∈ l then l else l ++ [seq]

section
variable {crc32 : Bytes → UInt32} {s s' : Seen} {block : Bytes}

theorem addBlock_eq_ok : addBlock crc32 s block = .ok s' ↔ Valid crc32 block ∧
    ((isLayout block = true ∧ s' = ⟨s.volumes, s.tables ++ [tableOf block], addSequence s.sequence (sequenceOf block)⟩) ∨
      (isLayout block = false ∧ ∃ volumes, addPiece (volumeOf block) (lnumOf block) (payloadOf block) s.volumes = .ok volumes ∧
        s' = ⟨volumes, s.tables, addSequence s.sequence (sequenceOf block)⟩)) := by
  unfold addBlock
  simp only [require_bind]
  constructor
  · rintro ⟨h1, h2, ⟨h3, h4⟩, h5, h6, h⟩
    rw [h3] at h5 h6 h
    rw [h4] at h
    refine ⟨⟨h1, h2, h3, h4, h5, h6⟩, ?_⟩
    split at h
    · rename_i hl
      exact .inl ⟨decide_eq_true hl, (Except.ok.inj h).symm⟩
    · rename_i hl
      obtain ⟨volumes, hv, h⟩ := bind_eq_ok.mp h
      exact .inr ⟨decide_eq_false hl, volumes, hv, (Except.ok.inj h).symm⟩
  · rintro ⟨⟨h1, h2, h3, h4, h5, h6⟩, h⟩
    rw [h3, h4]
    refine ⟨h1, h2, ⟨rfl, rfl⟩, h5, h6, ?_⟩
    rcases h with ⟨hl, rfl⟩ | ⟨hl, volumes, hv, rfl⟩
    · have hle : 0x7fffefff ≤ beAt 4 (slice block 2048 64) 8 := of_decide_eq_true hl
      rw [if_pos hle]
      rfl
    · have hle : ¬0x7fffefff ≤ beAt 4 (slice block 2048 64) 8 := of_decide_eq_false hl
      rw [if_neg hle]
      exact bind_eq_ok.mpr ⟨volumes, hv, rfl⟩

end

/-! ### Volumes -/

/-- The blocks that were gathered of a volume. -/
def Volumes.at (volumes : Volumes) (v : Nat) : List (Nat × Bytes) := (volumes.lookup v).getD []

section
variable {volume lnum : Nat} {payload : Bytes} {volumes : Volumes}

theorem at_cons {v w : Nat} {p : List (Nat × Bytes)} : Volumes.at ((v, p) :: volumes) w = if w = v then p else volumes.at w := by
  unfold Volumes.at
  rw [List.lookup_cons]
  by_cases h : w = v
  · simp [h]
  · have hb : (w == v) = false := beq_false_of_ne h
    simp [h, hb]

/-- A block is added to its volume, unless its number is taken. -/
theorem addPiece_spec (volume lnum : Nat) (payload : Bytes) (volumes : Volumes) :
    (lnum ∈ (volumes.at volume).map Prod.fst ∧ ∃ e, addPiece volume lnum payload volumes = .error e) ∨
    (lnum ∉ (volumes.at volume).map Prod.fst ∧ ∃ volumes', addPiece volume lnum payload volumes = .ok volumes' ∧
      ∀ v, volumes'.at v = if v = volume then volumes.at volume ++ [(lnum, payload)] else volumes.at v) := by
  induction volumes with
  | nil =>
    refine .inr ⟨by simp [Volumes.at], _, rfl, fun v => ?_⟩
    rw [at_cons]
    rfl
  | cons e volumes ih =>
    obtain ⟨w, p⟩ := e
    rw [at_cons]
    by_cases hw : w = volume
    · subst hw
      rw [if_pos rfl, addPiece, if_pos rfl]
      by_cases hl : lnum ∈ p.map Prod.fst
      · exact .inl ⟨hl, .runtime "duplicate LEB", by simp only [require, if_neg (not_not_intro hl)]; rfl⟩
      · refine .inr ⟨hl, (w, p ++ [(lnum, payload)]) :: volumes, by simp only [require, if_pos hl]; rfl, fun v => ?_⟩
        rw [at_cons, at_cons]
        split
        · rfl
        · rfl
    · rw [if_neg (Ne.symm hw), addPiece, if_neg hw]
      rcases ih with ⟨hl, e, he⟩ | ⟨hl, volumes', hv, hat⟩
      · exact .inl ⟨hl, e, by rw [he]; rfl⟩
      · refine .inr ⟨hl, (w, p) :: volumes', by rw [hv]; rfl, fun v => ?_⟩
        rw [at_cons, at_cons, hat]
        by_cases hvw : v = w
        · rw [if_pos hvw, if_pos hvw, if_neg (fun h => hw (hvw.symm.trans h))]
        · rw [if_neg hvw, if_neg hvw]

end

/-! ### All blocks -/

/-- What the loop has gathered of the blocks that it has seen. -/
structure Gathered (blocks : List Bytes) (s : Seen) : Prop where
  at_eq : ∀ v, s.volumes.at v = (blocks.filter (belongs v)).map pieceOf
  tables : s.tables = (blocks.filter isLayout).map tableOf
  sequence : s.sequence = (blocks.map sequenceOf).foldl addSequence []

/-- Blocks with headers in order, and no two of a volume with one number. -/
structure Orderly (crc32 : Bytes → UInt32) (blocks : List Bytes) : Prop where
  valid : ∀ b ∈ blocks, Valid crc32 b
  nodup : ∀ v, ((blocks.filter (belongs v)).map lnumOf).Nodup

section
variable {crc32 : Bytes → UInt32} {s : Seen} {block : Bytes} {blocks pre : List Bytes}

theorem gathered_nil : Gathered [] ⟨[], [], []⟩ := ⟨fun _ => rfl, rfl, rfl⟩

theorem filter_snoc {p : Bytes → Bool} : (blocks ++ [block]).filter p = if p block then blocks.filter p ++ [block] else blocks.filter p := by
  rw [List.filter_append, List.filter_singleton]
  cases p block with
  | false => simp
  | true => simp

theorem orderly_nil : Orderly crc32 [] := ⟨fun _ h => (nomatch h), fun _ => List.nodup_nil⟩

theorem Orderly.left {blocks' : List Bytes} (h : Orderly crc32 (blocks ++ blocks')) : Orderly crc32 blocks := by
  refine ⟨fun b hb => h.valid b (List.mem_append_left _ hb), fun v => ?_⟩
  have hn := h.nodup v
  rw [List.filter_append, List.map_append] at hn
  exact (List.nodup_append.mp hn).1

theorem belongs_iff {v : Nat} : belongs v block = true ↔ isLayout block = false ∧ volumeOf block = v := by simp [belongs]

theorem orderly_snoc : Orderly crc32 (blocks ++ [block]) ↔ Orderly crc32 blocks ∧ Valid crc32 block ∧
    (isLayout block = false → lnumOf block ∉ (blocks.filter (belongs (volumeOf block))).map lnumOf) := by
  constructor
  · intro h
    refine ⟨h.left, h.valid block (List.mem_append_right _ List.mem_cons_self), fun hl => ?_⟩
    have hn := h.nodup (volumeOf block)
    rw [filter_snoc, if_pos (belongs_iff.mpr ⟨hl, rfl⟩), List.map_append, List.nodup_append] at hn
    exact fun hm => hn.2.2 _ hm _ List.mem_cons_self rfl
  · rintro ⟨⟨hv, hn⟩, hb, hl⟩
    refine ⟨fun b h => ?_, fun v => ?_⟩
    · rcases List.mem_append.mp h with h | h
      · exact hv b h
      · rw [List.mem_singleton.mp h]
        exact hb
    · rw [filter_snoc]
      split
      · rename_i hbv
        obtain ⟨hlay, rfl⟩ := belongs_iff.mp hbv
        rw [List.map_append, List.nodup_append]
        refine ⟨hn _, List.nodup_singleton _, ?_⟩
        rintro n hm m hm' rfl
        rw [List.map_singleton, List.mem_singleton] at hm'
        exact hl hlay (hm' ▸ hm)
      · exact hn v

theorem Gathered.numbers (h : Gathered blocks s) (v : Nat) : (s.volumes.at v).map Prod.fst = (blocks.filter (belongs v)).map lnumOf := by
  rw [h.at_eq, List.map_map]
  rfl

/-- A block that is added. -/
theorem Gathered.addBlock {s' : Seen} (h : Gathered blocks s) (hs : Ubi.addBlock crc32 s block = .ok s') :
    Gathered (blocks ++ [block]) s' ∧ Valid crc32 block ∧
      (isLayout block = false → lnumOf block ∉ (blocks.filter (belongs (volumeOf block))).map lnumOf) := by
  obtain ⟨hvalid, ⟨hl, rfl⟩ | ⟨hl, volumes, hv, rfl⟩⟩ := addBlock_eq_ok.mp hs
  · refine ⟨⟨fun v => ?_, ?_, ?_⟩, hvalid, fun hl' => ?_⟩
    · rw [filter_snoc, if_neg (by simp [belongs, hl])]
      exact h.at_eq v
    · rw [filter_snoc, if_pos hl, List.map_append, h.tables]
      rfl
    · rw [List.map_append, List.foldl_append, h.sequence]
      rfl
    · rw [hl] at hl'
      cases hl'
  · rcases addPiece_spec (volumeOf block) (lnumOf block) (payloadOf block) s.volumes with
      ⟨-, e, he⟩ | ⟨hnew, volumes', hv', hat⟩
    · rw [he] at hv
      cases hv
    · obtain rfl := Except.ok.inj (hv.symm.trans hv')
      refine ⟨⟨fun v => ?_, ?_, ?_⟩, hvalid, fun _ => h.numbers _ ▸ hnew⟩
      · simp only
        rw [hat, filter_snoc]
        by_cases hvv : v = volumeOf block
        · rw [if_pos hvv, if_pos (belongs_iff.mpr ⟨hl, hvv.symm⟩), List.map_append, h.at_eq, hvv]
          rfl
        · rw [if_neg hvv, if_neg (fun hb => hvv (belongs_iff.mp hb).2.symm), h.at_eq]
      · rw [filter_snoc, if_neg (by simp [hl])]
        exact h.tables
      · rw [List.map_append, List.foldl_append, h.sequence]
        rfl

theorem Gathered.exists_addBlock (h : Gathered blocks s) (hvalid : Valid crc32 block)
    (hnew : isLayout block = false → lnumOf block ∉ (blocks.filter (belongs (volumeOf block))).map lnumOf) : ∃ s', Ubi.addBlock crc32 s block = .ok s' := by
  cases hl : isLayout block with
  | true => exact ⟨_, addBlock_eq_ok.mpr ⟨hvalid, .inl ⟨hl, rfl⟩⟩⟩
  | false =>
    rcases addPiece_spec (volumeOf block) (lnumOf block) (payloadOf block) s.volumes with
      ⟨hm, -⟩ | ⟨-, volumes, hv, -⟩
    · exact absurd (h.numbers _ ▸ hm) (hnew hl)
    · exact ⟨_, addBlock_eq_ok.mpr ⟨hvalid, .inr ⟨hl, volumes, hv, rfl⟩⟩⟩

/-- What the loop leaves. -/
theorem Gathered.foldlM {s' : Seen} (h : Gathered pre s) (ho : Orderly crc32 pre) (hs : blocks.foldlM (Ubi.addBlock crc32) s = .ok s') :
    Gathered (pre ++ blocks) s' ∧ Orderly crc32 (pre ++ blocks) := by
  induction blocks generalizing pre s with
  | nil =>
    obtain rfl := Except.ok.inj hs
    rw [List.append_nil]
    exact ⟨h, ho⟩
  | cons b blocks ih =>
    rw [List.foldlM_cons] at hs
    obtain ⟨s₁, h1, hs⟩ := bind_eq_ok.mp hs
    obtain ⟨hg, hv⟩ := h.addBlock h1
    have := ih hg (orderly_snoc.mpr ⟨ho, hv⟩) hs
    rwa [List.append_assoc] at this

/-- The loop goes through all blocks that are orderly. -/
theorem Gathered.exists_foldlM (h : Gathered pre s) (ho : Orderly crc32 (pre ++ blocks)) : ∃ s', blocks.foldlM (Ubi.addBlock crc32) s = .ok s' := by
  induction blocks generalizing pre s with
  | nil => exact ⟨s, rfl⟩
  | cons b blocks ih =>
    rw [List.append_cons] at ho
    have hb : Orderly crc32 (pre ++ [b]) := ho.left
    obtain ⟨-, hvalid, hnew⟩ := orderly_snoc.mp hb
    obtain ⟨s', hs⟩ := h.exists_addBlock hvalid hnew
    obtain ⟨s'', hs'⟩ := ih (h.addBlock hs).1 ho
    exact ⟨s'', by rw [List.foldlM_cons, hs]; exact hs'⟩

end

/-! ### What a volume holds -/

/-- The blocks of the volume, in the order of their numbers 0, 1, 2 and so on, hold the file and then only `0xff`. -/
def Holds (blocks : List Bytes) (v : Nat) (file : Bytes) : Prop :=
  ∃ L : List Bytes, L.Perm (blocks.filter (belongs v)) ∧ L.map lnumOf = List.range L.length ∧
    ∃ k, L.flatMap payloadOf = file ++ List.replicate k 0xff

theorem lookup_of_mem {l : List (Nat × Bytes)} (h : (l.map Prod.fst).Nodup) {e : Nat × Bytes} (he : e ∈ l) : l.lookup e.1 = some e.2 := by
  induction l with
  | nil => cases he
  | cons x l ih =>
    rw [List.map_cons, List.nodup_cons] at h
    rw [List.lookup_cons]
    rcases List.mem_cons.mp he with rfl | he
    · simp
    · have hne : (e.1 == x.1) = false := beq_false_of_ne fun hx => h.1 (hx ▸ List.mem_map.mpr ⟨e, he, rfl⟩)
      rw [hne]
      exact ih h.2 he

/-- The content of a volume, block by block. -/
theorem flatMap_lookup {B L : List Bytes} (hB : (B.map lnumOf).Nodup) (hL : ∀ b ∈ L, b ∈ B) :
    (L.map lnumOf).flatMap (fun n => ((B.map pieceOf).lookup n).getD []) = L.flatMap payloadOf := by
  have hkeys : ((B.map pieceOf).map Prod.fst).Nodup := by
    rw [List.map_map]
    exact hB
  rw [List.flatMap_map]
  refine List.flatMap_congr fun b hb => ?_
  have h := lookup_of_mem hkeys (List.mem_map.mpr ⟨b, hL b hb, rfl⟩)
  rw [show lnumOf b = (pieceOf b).1 from rfl, h]
  rfl

theorem eq_append_replicate_iff {actual file : Bytes} :
    (actual.take file.length = file ∧ ∀ b ∈ actual.drop file.length, b = 0xff) ↔ ∃ k, actual = file ++ List.replicate k 0xff := by
  constructor
  · rintro ⟨htake, hdrop⟩
    refine ⟨(actual.drop file.length).length, ?_⟩
    calc actual = actual.take file.length ++ actual.drop file.length := (List.take_append_drop _ _).symm
      _ = file ++ List.replicate (actual.drop file.length).length 0xff := by rw [htake, ← List.eq_replicate_of_mem hdrop]
  · rintro ⟨k, rfl⟩
    refine ⟨List.take_left, fun b hb => ?_⟩
    rw [List.drop_left] at hb
    exact List.eq_of_mem_replicate hb

section
variable {blocks : List Bytes} {s : Seen} {expected : List (String × Bytes)} {v : Nat} {name : String}

theorem sorted_numbers {L B : List Bytes} (h : L.Perm B) (hL : L.map lnumOf = List.range L.length) :
    (B.map lnumOf).insertionSort (· ≤ ·) = L.map lnumOf := by
  refine List.Perm.eq_of_pairwise' (List.pairwise_insertionSort _ _) ?_ ((List.perm_insertionSort _ _).trans (h.symm.map _))
  rw [hL]
  exact List.pairwise_le_range

/-- What the loop over the names checks of a volume. -/
theorem checkVolume_eq_ok (hg : Gathered blocks s) (hn : ((blocks.filter (belongs v)).map lnumOf).Nodup) :
    checkVolume expected s.volumes v name = .ok () ↔ ∀ wanted, expected.lookup name = some wanted →
      (∃ p, s.volumes.lookup v = some p) ∧ ∃ file, wantedOf name wanted = .ok file ∧ Holds blocks v file := by
  unfold checkVolume
  cases hexp : expected.lookup name with
  | none => exact ⟨fun _ _ h => (nomatch h), fun _ => rfl⟩
  | some wanted =>
    simp only [Option.some.injEq, forall_eq']
    cases hvol : s.volumes.lookup v with
    | none => exact ⟨fun h => (nomatch h), fun ⟨⟨p, hp⟩, _⟩ => (nomatch hp)⟩
    | some p =>
      obtain rfl : p = (blocks.filter (belongs v)).map pieceOf := by
        rw [← hg.at_eq v, Volumes.at, hvol]
        rfl
      generalize hB : blocks.filter (belongs v) = B at hn
      have hkeys : (B.map pieceOf).map Prod.fst = B.map lnumOf := List.map_map
      simp only [require_bind, hkeys, List.length_map]
      constructor
      · rintro ⟨hrange, h⟩
        obtain ⟨file, hfile, h⟩ := bind_eq_ok.mp h
        obtain ⟨htake, h⟩ := require_bind.mp h
        refine ⟨⟨_, rfl⟩, file, hfile, B.insertionSort (fun a b => lnumOf a ≤ lnumOf b), hB ▸ List.perm_insertionSort _ _, ?_⟩
        have hmap : (B.insertionSort fun a b => lnumOf a ≤ lnumOf b).map lnumOf = (B.map lnumOf).insertionSort (· ≤ ·) :=
          List.map_insertionSort _ _ _ _ fun _ _ _ _ => Iff.rfl
        have hlen : (B.insertionSort fun a b => lnumOf a ≤ lnumOf b).length = B.length := List.length_insertionSort _ _
        rw [← hmap] at htake h
        rw [flatMap_lookup hn fun b hb => (List.mem_insertionSort _).mp hb] at htake h
        exact ⟨by rw [hmap, hrange, hlen], eq_append_replicate_iff.mp ⟨htake, require_eq_ok.mp h⟩⟩
      · rintro ⟨-, file, hfile, L, hL, hrange, hk⟩
        rw [hB] at hL
        rw [sorted_numbers hL hrange, flatMap_lookup hn fun b hb => hL.mem_iff.mp hb]
        obtain ⟨htake, hdrop⟩ := eq_append_replicate_iff.mpr hk
        exact ⟨by rw [hrange, hL.length_eq], bind_eq_ok.mpr ⟨file, hfile, require_bind.mpr ⟨htake, require_eq_ok.mpr hdrop⟩⟩⟩

end

/-! ### The table -/

/-- The record of a volume. -/
def recordOf (table : Bytes) (v : Nat) : Bytes := slice table (v * 172) 172

/-- The table has the volume. -/
def Listed (table : Bytes) (v : Nat) : Prop := v < 128 ∧ beAt 4 (recordOf table v) 0 ≠ 0

instance (table : Bytes) (v : Nat) : Decidable (Listed table v) := inferInstanceAs (Decidable (_ ∧ _))

/-- The name of a volume, as it stands in its record. -/
def nameOf (table : Bytes) (v : Nat) : Except Fault String := decodeAscii (slice (recordOf table v) 16 (beAt 2 (recordOf table v) 14))

section
variable {crc32 : Bytes → UInt32} {table : Bytes} {names names' : List (Nat × String)} {index : Nat}

/-- A record whose checksum is right. -/
def ValidRecord (crc32 : Bytes → UInt32) (table : Bytes) (v : Nat) : Prop :=
  (recordOf table v).length = 172 ∧ beAt 4 (recordOf table v) 168 = (~~~crc32 ((recordOf table v).take 168)).toNat

theorem addRecord_eq_ok : addRecord crc32 table names index = .ok names' ↔ ValidRecord crc32 table index ∧
    ((beAt 4 (recordOf table index) 0 ≠ 0 ∧ ∃ name, nameOf table index = .ok name ∧ names' = names ++ [(index, name)]) ∨
      (beAt 4 (recordOf table index) 0 = 0 ∧ names' = names)) := by
  have hrecord : slice table (index * 172) 172 = recordOf table index := rfl
  unfold addRecord
  simp only [require_bind, hrecord]
  constructor
  · rintro ⟨h1, h2, h⟩
    refine ⟨⟨h1, h2⟩, ?_⟩
    split at h
    · rename_i hz
      obtain ⟨name, hn, h⟩ := bind_eq_ok.mp h
      exact .inl ⟨hz, name, hn, (Except.ok.inj h).symm⟩
    · rename_i hz
      exact .inr ⟨not_not.mp hz, (Except.ok.inj h).symm⟩
  · rintro ⟨⟨h1, h2⟩, h⟩
    refine ⟨h1, h2, ?_⟩
    rcases h with ⟨hz, name, hn, rfl⟩ | ⟨hz, rfl⟩
    · rw [if_pos hz]
      exact bind_eq_ok.mpr ⟨name, hn, rfl⟩
    · rw [if_neg (not_not_intro hz)]
      rfl

/-- The names are those of the volumes that the table has. -/
theorem mem_names {n : Nat} (h : (List.range n).foldlM (addRecord crc32 table) [] = .ok names) {v : Nat} {name : String} :
    (v, name) ∈ names ↔ v < n ∧ beAt 4 (recordOf table v) 0 ≠ 0 ∧ nameOf table v = .ok name := by
  induction n generalizing names v name with
  | zero =>
    obtain rfl := Except.ok.inj h
    simp
  | succ n ih =>
    rw [List.range_succ, List.foldlM_append] at h
    obtain ⟨pre, hpre, h⟩ := bind_eq_ok.mp h
    rw [List.foldlM_cons] at h
    obtain ⟨names', hadd, hnil⟩ := bind_eq_ok.mp h
    obtain rfl := Except.ok.inj hnil
    obtain ⟨-, ⟨hz, name', hn, rfl⟩ | ⟨hz, rfl⟩⟩ := addRecord_eq_ok.mp hadd
    · rw [List.mem_append, List.mem_singleton, ih hpre, Prod.mk.injEq]
      constructor
      · rintro (⟨hv, h⟩ | ⟨rfl, rfl⟩)
        · exact ⟨Nat.lt_succ_of_lt hv, h⟩
        · exact ⟨Nat.lt_succ_self _, hz, hn⟩
      · rintro ⟨hv, hz', hn'⟩
        rcases Nat.lt_succ_iff_lt_or_eq.mp hv with hv | rfl
        · exact .inl ⟨hv, hz', hn'⟩
        · exact .inr ⟨rfl, Except.ok.inj (hn'.symm.trans hn)⟩
    · rw [ih hpre]
      constructor
      · rintro ⟨hv, h⟩
        exact ⟨Nat.lt_succ_of_lt hv, h⟩
      · rintro ⟨hv, hz', hn'⟩
        rcases Nat.lt_succ_iff_lt_or_eq.mp hv with hv | rfl
        · exact ⟨hv, hz', hn'⟩
        · exact absurd hz hz'

end

/-! ### Images -/

section
variable {crc32 : Bytes → UInt32} {data : Bytes} {expected : List (String × Bytes)} {report : Nat × List (Nat × String)}

/-- What is known of the blocks and of the table of an image that is taken. -/
theorem inspectUbi_accepts (h : inspectUbi crc32 data expected = .ok report) :
    ∃ t, ((pieces pebSize data).filter isLayout).map tableOf = [t, t] ∧
      ∀ v name file, Listed t v → nameOf t v = .ok name → expected.lookup name = some file →
        ∃ part, wantedOf name file = .ok part ∧ Holds (pieces pebSize data) v part := by
  unfold inspectUbi at h
  obtain ⟨-, h⟩ := require_bind.mp h
  obtain ⟨s, hs, h⟩ := bind_eq_ok.mp h
  obtain ⟨hg, ho⟩ := gathered_nil.foldlM orderly_nil hs
  rw [List.nil_append] at hg ho
  obtain ⟨⟨-, hlen, heq⟩, h⟩ := require_bind.mp h
  obtain ⟨t, t', htables⟩ := List.length_eq_two.mp hlen
  obtain rfl : t = t' := by simpa [htables] using heq
  obtain ⟨names, hnames, h⟩ := bind_eq_ok.mp h
  rw [htables, List.headD_cons] at hnames
  obtain ⟨-, h⟩ := require_bind.mp h
  obtain ⟨-, h⟩ := require_bind.mp h
  obtain ⟨_, hcheck, -⟩ := bind_eq_ok.mp h
  rw [forM_eq_ok] at hcheck
  refine ⟨t, hg.tables.symm.trans htables, fun v name file hv hn hfile => ?_⟩
  have hmem := (mem_names hnames).mpr ⟨hv.1, hv.2, hn⟩
  exact ((checkVolume_eq_ok hg (ho.nodup v)).mp (hcheck _ hmem) file hfile).2

/-- An image that is taken. -/
theorem inspectUbi_of {t : Bytes} {names : List (Nat × String)} (hlen : data.length % pebSize = 0) (ho : Orderly crc32 (pieces pebSize data))
    (hseq : (((pieces pebSize data).map sequenceOf).foldl addSequence []).length = 1) (ht : ((pieces pebSize data).filter isLayout).map tableOf = [t, t])
    (hnames : (List.range 128).foldlM (addRecord crc32 t) [] = .ok names) (hneed : ∀ name ∈ ["kernel", "rootfs"], name ∈ names.map Prod.snd)
    (honly : ∀ name ∈ names.map Prod.snd, name ∈ ["kernel", "rootfs", "rootfs_data"])
    (hcheck : ∀ e ∈ names, ∀ wanted, expected.lookup e.2 = some wanted →
      (pieces pebSize data).filter (belongs e.1) ≠ [] ∧ ∃ file, wantedOf e.2 wanted = .ok file ∧ Holds (pieces pebSize data) e.1 file) :
    inspectUbi crc32 data expected = .ok (data.length / pebSize, names) := by
  obtain ⟨s, hs⟩ : ∃ s, (pieces pebSize data).foldlM (Ubi.addBlock crc32) ⟨[], [], []⟩ = .ok s := gathered_nil.exists_foldlM ho
  have hg := (gathered_nil.foldlM orderly_nil hs).1
  rw [List.nil_append] at hg
  have htables := hg.tables.trans ht
  unfold inspectUbi
  refine require_bind.mpr ⟨hlen, bind_eq_ok.mpr ⟨s, hs, require_bind.mpr ⟨⟨hg.sequence ▸ hseq, by rw [htables]; rfl, by rw [htables]; rfl⟩,
    bind_eq_ok.mpr ⟨names, by rw [htables]; exact hnames, require_bind.mpr ⟨hneed, require_bind.mpr ⟨honly, bind_eq_ok.mpr ⟨(), ?_, rfl⟩⟩⟩⟩⟩⟩⟩
  rw [forM_eq_ok]
  intro e he
  refine (checkVolume_eq_ok hg (ho.nodup e.1)).mpr fun wanted hw => ?_
  obtain ⟨hne, hfile⟩ := hcheck e he wanted hw
  refine ⟨?_, hfile⟩
  have hat := hg.at_eq e.1
  unfold Volumes.at at hat
  cases hl : s.volumes.lookup e.1 with
  | some p => exact ⟨p, rfl⟩
  | none =>
    rw [hl] at hat
    exact absurd (List.map_eq_nil_iff.mp hat.symm) hne

theorem wantedOf_kernel {file part : Bytes} (h : wantedOf "kernel" file = .ok part) : part = file := by
  rw [wantedOf, if_neg (by decide)] at h
  exact (Except.ok.inj h).symm

theorem wantedOf_rootfs {file part : Bytes} (h : wantedOf "rootfs" file = .ok part) : part = file.take (leAt 8 file 40) := by
  rw [wantedOf, if_pos rfl] at h
  obtain ⟨-, h⟩ := require_bind.mp h
  obtain ⟨-, h⟩ := require_bind.mp h
  obtain ⟨-, h⟩ := require_bind.mp h
  exact (Except.ok.inj h).symm

/-- Every block is one of two identical copies of the table or is of a volume in it, and the volumes with the names
    `kernel` and `rootfs` hold their files, of the root file system what its header counts. -/
structure Sound (data kernel rootfs table : Bytes) : Prop where
  copies : ((pieces pebSize data).filter isLayout).map tableOf = [table, table]
  listed : ∀ b ∈ pieces pebSize data, isLayout b = false → Listed table (volumeOf b)
  kernel : ∀ v, Listed table v → nameOf table v = .ok "kernel" → Holds (pieces pebSize data) v kernel
  rootfs : ∀ v, Listed table v → nameOf table v = .ok "rootfs" → Holds (pieces pebSize data) v (rootfs.take (leAt 8 rootfs 40))

/-- The blocks of volumes that have no record in the first copy of the table. -/
def strays (data : Bytes) : List Bytes :=
  (pieces pebSize data).filter fun b => !isLayout b && !decide (Listed ((((pieces pebSize data).filter isLayout).map tableOf).headD []) (volumeOf b))

/-- Of an image that is taken everything is in order, if it has no stray blocks. -/
theorem inspectUbi_sound_iff {kernel rootfs : Bytes} (h : inspectUbi crc32 data [("kernel", kernel), ("rootfs", rootfs)] = .ok report) :
    (∃ table, Sound data kernel rootfs table) ↔ strays data = [] := by
  obtain ⟨t, ht, hholds⟩ := inspectUbi_accepts h
  have hstrays : strays data = [] ↔ ∀ b ∈ pieces pebSize data, isLayout b = false → Listed t (volumeOf b) := by
    rw [strays, ht, List.headD_cons, List.filter_eq_nil_iff]
    refine forall₂_congr fun b _ => ?_
    cases isLayout b with
    | true => simp
    | false => simp
  rw [hstrays]
  constructor
  · rintro ⟨t', hs⟩
    obtain rfl : t = t' := List.head_eq_of_cons_eq (ht.symm.trans hs.copies)
    exact hs.listed
  · intro hlisted
    refine ⟨t, ht, hlisted, fun v hv hn => ?_, fun v hv hn => ?_⟩
    · obtain ⟨part, hpart, hh⟩ := hholds v _ kernel hv hn rfl
      exact wantedOf_kernel hpart ▸ hh
    · obtain ⟨part, hpart, hh⟩ := hholds v _ rootfs hv hn rfl
      exact wantedOf_rootfs hpart ▸ hh

end

/-! ### A small image -/

/-- `zlib.crc32`. -/
def zlibCrc32 (data : Bytes) : UInt32 := ~~~crc32Le 0xffffffff data

def ecBytes : Bytes :=
  ascii "UBI#" ++ [1, 0, 0, 0] ++ List.replicate 8 0 ++ [0, 0, 8, 0] ++ [0, 0, 16, 0] ++ [0, 0, 0, 7] ++ List.replicate 32 0 ++ [92, 19, 137, 140]

/-- The header of block `lnum` of a volume. -/
def vidBytes (volume : Bytes) (lnum : UInt8) (crc : Bytes) : Bytes :=
  ascii "UBI!" ++ [1, 1, 0, 0] ++ volume ++ [0, 0, 0, lnum] ++ List.replicate 44 0 ++ crc

def layout0 : Bytes := vidBytes [0x7f, 0xff, 0xef, 0xff] 0 [230, 238, 19, 172]
def layout1 : Bytes := vidBytes [0x7f, 0xff, 0xef, 0xff] 1 [69, 120, 59, 224]
def kernelVid : Bytes := vidBytes [0, 0, 0, 0] 0 [115, 177, 171, 87]
def rootfsVid : Bytes := vidBytes [0, 0, 0, 1] 0 [252, 233, 132, 68]
def strayVid : Bytes := vidBytes [0, 0, 0, 2] 0 [182, 112, 243, 48]

def recordBytes (name : String) (crc : Bytes) : Bytes :=
  [0, 0, 0, 1] ++ List.replicate 10 0 ++ [0, 6] ++ ascii name ++ List.replicate 146 0 ++ crc

def blankRecord : Bytes := List.replicate 168 0 ++ [241, 22, 195, 107]

def records : List Bytes := recordBytes "kernel" [33, 43, 230, 53] :: recordBytes "rootfs" [75, 34, 85, 145] :: List.replicate 126 blankRecord

def blockBytes (vid payload : Bytes) : Bytes :=
  ecBytes ++ (List.replicate 1984 0xff ++ (vid ++ (List.replicate 1984 0xff ++ (payload ++ List.replicate (126976 - payload.length) 0xff))))

def kernelFile : Bytes := [0xd0, 0x0d, 0xfe, 0xed]

/-- The header of a squashfs without content. -/
def rootfsFile : Bytes := ascii "hsqs" ++ List.replicate 36 0 ++ [96, 0, 0, 0, 0, 0, 0, 0] ++ List.replicate 48 0

theorem wantedOf_rootfsFile : wantedOf "rootfs" rootfsFile = .ok rootfsFile := by
  decide +kernel

def smallBlocks : List Bytes :=
  [blockBytes layout0 records.flatten, blockBytes layout1 records.flatten, blockBytes kernelVid kernelFile, blockBytes rootfsVid rootfsFile]

section
variable {vid payload a b : Bytes} {off n : Nat}

theorem pieces_flatten (hn : 0 < n) {l : List Bytes} (h : ∀ x ∈ l, x.length = n) : pieces n l.flatten = l := by
  induction l with
  | nil => rfl
  | cons x l ih =>
    rw [List.forall_mem_cons] at h
    have hne : (x :: l).flatten ≠ [] := by
      intro he
      have := congrArg List.length he
      rw [List.flatten_cons, List.length_append, h.1] at this
      simp only [List.length_nil] at this
      omega
    rw [pieces_cons hn hne, List.flatten_cons, List.take_left' h.1, List.drop_left' h.1, ih h.2]

theorem slice_flatten {l : List Bytes} (h : ∀ x ∈ l, x.length = n) {i : Nat} {x : Bytes} (hi : l[i]? = some x) : slice l.flatten (i * n) n = x := by
  induction l generalizing i with
  | nil => cases hi
  | cons y l ih =>
    rw [List.forall_mem_cons] at h
    rw [List.flatten_cons]
    cases i with
    | zero =>
      obtain rfl := Option.some.inj hi
      rw [Nat.zero_mul, slice, List.drop_zero, List.take_left' h.1]
    | succ i =>
      have hoff : (i + 1) * n = y.length + i * n := by rw [h.1, Nat.succ_mul, Nat.add_comm]
      rw [hoff, slice_append_right, ih h.2 hi]

theorem slice_vid (h : vid.length = 64) : slice (blockBytes vid payload) 2048 64 = vid := by
  have h1 : slice (blockBytes vid payload) 2048 64 =
      slice (List.replicate 1984 0xff ++ (vid ++ (List.replicate 1984 0xff ++ (payload ++ List.replicate (126976 - payload.length) 0xff)))) 1984 64 :=
    slice_append_right ecBytes _ 1984 64
  have h2 := slice_append_right (List.replicate 1984 (0xff : UInt8))
    (vid ++ (List.replicate 1984 0xff ++ (payload ++ List.replicate (126976 - payload.length) 0xff))) 0 64
  rw [List.length_replicate] at h2
  rw [h1, h2, slice, List.drop_zero, List.take_left' h]

theorem drop_payload (h : vid.length = 64) : payloadOf (blockBytes vid payload) = payload ++ List.replicate (126976 - payload.length) 0xff := by
  have hassoc : blockBytes vid payload = (ecBytes ++ List.replicate 1984 0xff ++ vid ++ List.replicate 1984 0xff) ++
      (payload ++ List.replicate (126976 - payload.length) 0xff) := by
    simp only [blockBytes, List.append_assoc]
  rw [payloadOf, hassoc, List.drop_left']
  simp only [List.length_append, List.length_replicate, h]
  rfl

theorem length_blockBytes (h : vid.length = 64) (hp : payload.length ≤ 126976) : (blockBytes vid payload).length = pebSize := by
  have hec : ecBytes.length = 64 := rfl
  simp only [blockBytes, List.length_append, List.length_replicate, h, hec, pebSize]
  omega

set_option maxRecDepth 20000 in
theorem ecCrc_eq : beAt 4 ecBytes 60 = (~~~zlibCrc32 (ecBytes.take 60)).toNat := by decide

theorem valid_blockBytes (h : vid.length = 64) (hmagic : vid.take 4 = ascii "UBI!") (hcrc : beAt 4 vid 60 = (~~~zlibCrc32 (vid.take 60)).toNat) :
    Valid zlibCrc32 (blockBytes vid payload) := by
  have hhead : ∀ off n, off + n ≤ 64 → slice (blockBytes vid payload) off n = slice ecBytes off n := fun off n ho => slice_append_left (a := ecBytes) ho
  have htake : ∀ n ≤ 64, (blockBytes vid payload).take n = ecBytes.take n := fun n hn => by
    rw [blockBytes, List.take_append_of_le_length hn]
  refine ⟨?_, ?_, ?_, ?_, ?_, ?_⟩
  · rw [htake 4 (by decide)]
    rfl
  · rw [beAt, hhead 60 4 (by decide), htake 60 (by decide)]
    exact ecCrc_eq
  · rw [beAt, hhead 16 4 (by decide)]
    rfl
  · rw [beAt, hhead 20 4 (by decide)]
    rfl
  · rw [slice_vid h, hmagic]
  · rw [slice_vid h, hcrc]

end

section
variable {vid payload : Bytes}

theorem volumeOf_blockBytes (h : vid.length = 64) : volumeOf (blockBytes vid payload) = beAt 4 vid 8 := by rw [volumeOf, slice_vid h]

theorem lnumOf_blockBytes (h : vid.length = 64) : lnumOf (blockBytes vid payload) = beAt 4 vid 12 := by rw [lnumOf, slice_vid h]

theorem sequenceOf_blockBytes : sequenceOf (blockBytes vid payload) = 7 := by
  have h : slice (blockBytes vid payload) 24 4 = slice ecBytes 24 4 := slice_append_left (a := ecBytes) (by decide)
  rw [sequenceOf, beAt, h]
  rfl

end

theorem length_of_mem_records : ∀ r ∈ records, r.length = 172 := by
  intro r hr
  rcases List.mem_cons.mp hr with rfl | hr
  · rfl
  · rcases List.mem_cons.mp hr with rfl | hr
    · rfl
    · rw [List.eq_of_mem_replicate hr]
      rfl

theorem length_records : records.flatten.length = 128 * 172 := by
  have hlen : records.length = 128 := by simp [records]
  rw [List.length_flatten, List.map_congr_left length_of_mem_records, List.map_const', List.sum_replicate_nat, hlen]

theorem tableOf_layout (vid : Bytes) (h : vid.length = 64) : tableOf (blockBytes vid records.flatten) = records.flatten := by
  have hdrop : payloadOf (blockBytes vid records.flatten) = _ := drop_payload h
  rw [payloadOf] at hdrop
  rw [tableOf, slice, hdrop, ← length_records, List.take_left]

set_option maxRecDepth 40000 in
theorem recordCrc_eq : (∀ r ∈ [recordBytes "kernel" [33, 43, 230, 53], recordBytes "rootfs" [75, 34, 85, 145], blankRecord],
    beAt 4 r 168 = (~~~zlibCrc32 (r.take 168)).toNat) := by decide

theorem validRecord {i : Nat} {r : Bytes} (h : records[i]? = some r) : recordOf records.flatten i = r ∧ ValidRecord zlibCrc32 records.flatten i := by
  have hr : recordOf records.flatten i = r := slice_flatten length_of_mem_records h
  have hmem := List.mem_of_getElem? h
  refine ⟨hr, by rw [hr, length_of_mem_records r hmem], ?_⟩
  rw [hr]
  refine recordCrc_eq r ?_
  rcases List.mem_cons.mp hmem with rfl | hmem
  · exact List.mem_cons_self
  · rcases List.mem_cons.mp hmem with rfl | hmem
    · exact List.mem_cons_of_mem _ List.mem_cons_self
    · rw [List.eq_of_mem_replicate hmem]
      exact List.mem_cons_of_mem _ (List.mem_cons_of_mem _ List.mem_cons_self)

theorem records_blank {i : Nat} (h2 : 2 ≤ i) (hi : i < 128) : records[i]? = some blankRecord := by
  obtain ⟨i, rfl⟩ := Nat.exists_eq_add_of_le' h2
  exact List.getElem?_replicate_of_lt (by omega)

/-- A volume of the table. -/
theorem listed_records {v : Nat} : Listed records.flatten v ↔ v < 2 := by
  constructor
  · rintro ⟨hv, hne⟩
    by_contra h
    rw [(validRecord (records_blank (by omega) hv)).1] at hne
    exact hne (by decide)
  · intro hv
    refine ⟨by omega, ?_⟩
    obtain rfl | rfl : v = 0 ∨ v = 1 := by omega
    · rw [(validRecord (i := 0) rfl).1]
      decide
    · rw [(validRecord (i := 1) rfl).1]
      decide

theorem names_records : (List.range 128).foldlM (addRecord zlibCrc32 records.flatten) [] = .ok [(0, "kernel"), (1, "rootfs")] := by
  have hblank : ∀ l : List Nat, (∀ i ∈ l, 2 ≤ i ∧ i < 128) → ∀ names, l.foldlM (addRecord zlibCrc32 records.flatten) names = .ok names := by
    intro l hl names
    induction l with
    | nil => rfl
    | cons i l ih =>
      rw [List.forall_mem_cons] at hl
      obtain ⟨hrec, hvalid⟩ := validRecord (records_blank hl.1.1 hl.1.2)
      rw [List.foldlM_cons, addRecord_eq_ok.mpr ⟨hvalid, .inr ⟨by rw [hrec]; decide, rfl⟩⟩]
      exact ih hl.2
  have hsplit : List.range 128 = 0 :: 1 :: (List.range 126).map (· + 2) := by decide
  obtain ⟨h0, hv0⟩ := validRecord (i := 0) rfl
  obtain ⟨h1, hv1⟩ := validRecord (i := 1) rfl
  have hkernel : addRecord zlibCrc32 records.flatten [] 0 = .ok [(0, "kernel")] :=
    addRecord_eq_ok.mpr ⟨hv0, .inl ⟨by rw [h0]; decide, "kernel", by rw [nameOf, h0]; rfl, rfl⟩⟩
  have hrootfs : addRecord zlibCrc32 records.flatten [(0, "kernel")] 1 = .ok [(0, "kernel"), (1, "rootfs")] :=
    addRecord_eq_ok.mpr ⟨hv1, .inl ⟨by rw [h1]; decide, "rootfs", by rw [nameOf, h1]; rfl, rfl⟩⟩
  rw [hsplit, List.foldlM_cons, hkernel, ok_bind, List.foldlM_cons, hrootfs, ok_bind]
  refine hblank _ (fun i hi => ?_) _
  obtain ⟨j, hj, rfl⟩ := List.mem_map.mp hi
  have := List.mem_range.mp hj
  omega

set_option maxRecDepth 20000 in
theorem vid_eq : ∀ vid ∈ [layout0, layout1, kernelVid, rootfsVid, strayVid],
    vid.length = 64 ∧ vid.take 4 = ascii "UBI!" ∧ beAt 4 vid 60 = (~~~zlibCrc32 (vid.take 60)).toNat := by decide

/-- The small image, with a block of a volume that it does not list. -/
def strayBlocks : List Bytes := smallBlocks ++ [blockBytes strayVid []]

theorem exists_of_mem_strayBlocks {b : Bytes} (h : b ∈ strayBlocks) :
    ∃ vid ∈ [layout0, layout1, kernelVid, rootfsVid, strayVid], ∃ payload, payload.length ≤ 126976 ∧ b = blockBytes vid payload := by
  have hlen : records.flatten.length ≤ 126976 := length_records.le.trans (by decide)
  simp only [strayBlocks, smallBlocks, List.cons_append, List.nil_append, List.mem_cons, List.not_mem_nil, or_false] at h
  rcases h with rfl | rfl | rfl | rfl | rfl
  · exact ⟨layout0, by simp, _, hlen, rfl⟩
  · exact ⟨layout1, by simp, _, hlen, rfl⟩
  · exact ⟨kernelVid, by simp, _, by decide, rfl⟩
  · exact ⟨rootfsVid, by simp, _, by decide, rfl⟩
  · exact ⟨strayVid, by simp, _, by decide, rfl⟩

theorem length_strayBlocks : ∀ b ∈ strayBlocks, b.length = pebSize := by
  intro b hb
  obtain ⟨vid, hvid, payload, hp, rfl⟩ := exists_of_mem_strayBlocks hb
  exact length_blockBytes (vid_eq vid hvid).1 hp

theorem valid_strayBlocks : ∀ b ∈ strayBlocks, Valid zlibCrc32 b := by
  intro b hb
  obtain ⟨vid, hvid, payload, -, rfl⟩ := exists_of_mem_strayBlocks hb
  obtain ⟨h1, h2, h3⟩ := vid_eq vid hvid
  exact valid_blockBytes h1 h2 h3

section
variable {payload : Bytes}

@[simp] theorem volumeOf_layout0 : volumeOf (blockBytes layout0 payload) = 0x7fffefff := volumeOf_blockBytes rfl
@[simp] theorem volumeOf_layout1 : volumeOf (blockBytes layout1 payload) = 0x7fffefff := volumeOf_blockBytes rfl
@[simp] theorem volumeOf_kernel : volumeOf (blockBytes kernelVid payload) = 0 := volumeOf_blockBytes rfl
@[simp] theorem volumeOf_rootfs : volumeOf (blockBytes rootfsVid payload) = 1 := volumeOf_blockBytes rfl
@[simp] theorem volumeOf_stray : volumeOf (blockBytes strayVid payload) = 2 := volumeOf_blockBytes rfl

end

theorem small_accepted {blocks : List Bytes} (h : blocks = smallBlocks ∨ blocks = strayBlocks) :
    pieces pebSize blocks.flatten = blocks ∧
      inspectUbi zlibCrc32 blocks.flatten [("kernel", kernelFile), ("rootfs", rootfsFile)] = .ok (blocks.flatten.length / pebSize, [(0, "kernel"), (1, "rootfs")]) := by
  have hsub : ∀ b ∈ blocks, b ∈ strayBlocks := by
    rcases h with rfl | rfl
    · exact fun b hb => List.mem_append_left _ hb
    · exact fun b hb => hb
  have hpieces : pieces pebSize blocks.flatten = blocks := pieces_flatten (by decide) fun b hb => length_strayBlocks b (hsub b hb)
  have hlayout : blocks.filter isLayout = [blockBytes layout0 records.flatten, blockBytes layout1 records.flatten] := by
    rcases h with rfl | rfl
    · simp [smallBlocks, isLayout]
    · simp [strayBlocks, smallBlocks, isLayout]
  have hkernel : blocks.filter (belongs 0) = [blockBytes kernelVid kernelFile] := by
    rcases h with rfl | rfl
    · simp [smallBlocks, belongs, isLayout]
    · simp [strayBlocks, smallBlocks, belongs, isLayout]
  have hrootfs : blocks.filter (belongs 1) = [blockBytes rootfsVid rootfsFile] := by
    rcases h with rfl | rfl
    · simp [smallBlocks, belongs, isLayout]
    · simp [strayBlocks, smallBlocks, belongs, isLayout]
  refine ⟨hpieces, inspectUbi_of (t := records.flatten) ?_ ?_ ?_ ?_ names_records ?_ ?_ ?_⟩
  · rw [List.length_flatten, List.map_congr_left fun b hb => length_strayBlocks b (hsub b hb), List.map_const', List.sum_replicate_nat, Nat.mul_mod_left]
  · rw [hpieces]
    refine ⟨fun b hb => valid_strayBlocks b (hsub b hb), fun v => ?_⟩
    by_cases h0 : v = 0
    · rw [h0, hkernel]
      exact List.nodup_singleton _
    · by_cases h1 : v = 1
      · rw [h1, hrootfs]
        exact List.nodup_singleton _
      · rcases h with rfl | rfl
        · simp [smallBlocks, belongs, isLayout, Ne.symm h0, Ne.symm h1]
        · simp only [strayBlocks, smallBlocks, List.cons_append, List.nil_append, belongs, isLayout, List.filter_cons, List.filter_nil, volumeOf_layout0,
            volumeOf_layout1, volumeOf_kernel, volumeOf_rootfs, volumeOf_stray]
          by_cases h2 : v = 2
          · simp [h2]
          · simp [Ne.symm h0, Ne.symm h1, Ne.symm h2]
  · rw [hpieces]
    rcases h with rfl | rfl
    · simp [smallBlocks, sequenceOf_blockBytes, addSequence]
    · simp [strayBlocks, smallBlocks, sequenceOf_blockBytes, addSequence]
  · rw [hpieces, hlayout]
    simp [tableOf_layout layout0 rfl, tableOf_layout layout1 rfl]
  · decide
  · decide
  · rw [hpieces]
    intro e he wanted hw
    simp only [List.mem_cons, List.not_mem_nil, or_false] at he
    rcases he with rfl | rfl
    · obtain rfl : kernelFile = wanted := Option.some.inj hw
      refine ⟨by rw [hkernel]; simp, kernelFile, rfl, [blockBytes kernelVid kernelFile], by rw [hkernel], ?_, 126976 - kernelFile.length, ?_⟩
      · rw [List.map_singleton, lnumOf_blockBytes rfl]
        rfl
      · rw [List.flatMap_singleton, drop_payload rfl]
    · obtain rfl : rootfsFile = wanted := Option.some.inj hw
      refine ⟨by rw [hrootfs]; simp, rootfsFile, wantedOf_rootfsFile, [blockBytes rootfsVid rootfsFile], by rw [hrootfs], ?_, 126976 - rootfsFile.length, ?_⟩
      · rw [List.map_singleton, lnumOf_blockBytes rfl]
        rfl
      · rw [List.flatMap_singleton, drop_payload rfl]

/-- The small image has no stray block. -/
theorem inspectUbi_sound_iff_small : ∃ report table,
    inspectUbi zlibCrc32 smallBlocks.flatten [("kernel", kernelFile), ("rootfs", rootfsFile)] = .ok report ∧ Sound smallBlocks.flatten kernelFile rootfsFile table := by
  obtain ⟨hpieces, haccepted⟩ := small_accepted (.inl rfl)
  have hstrays : strays smallBlocks.flatten = [] := by
    rw [strays, hpieces]
    simp [smallBlocks, isLayout, tableOf_layout layout0 rfl, listed_records]
  obtain ⟨table, hs⟩ := (inspectUbi_sound_iff haccepted).mpr hstrays
  exact ⟨_, table, haccepted, hs⟩

/-- An image is taken with a block of a volume that its table does not have. -/
theorem inspectUbi_stray : ∃ report, inspectUbi zlibCrc32 strayBlocks.flatten [("kernel", kernelFile), ("rootfs", rootfsFile)] = .ok report ∧
    ¬∃ table, Sound strayBlocks.flatten kernelFile rootfsFile table := by
  obtain ⟨hpieces, haccepted⟩ := small_accepted (.inr rfl)
  refine ⟨_, haccepted, ?_⟩
  rintro ⟨table, hs⟩
  have hcopies := hs.copies
  rw [hpieces] at hcopies
  obtain rfl : records.flatten = table := by
    simpa [strayBlocks, smallBlocks, isLayout, tableOf_layout layout0 rfl, tableOf_layout layout1 rfl] using hcopies
  have hlisted := hs.listed (blockBytes strayVid []) (by rw [hpieces]; simp [strayBlocks]) (by simp [isLayout])
  rw [listed_records, volumeOf_stray] at hlisted
  omega

end RainWrt.Ubi
