import RainWrt.Theorems.Bcm4908img
import RainWrt.Bcm4908img.Bootfs

/-! The nodes of the bootfs are followed by lengths that the image stores, and what `mv` writes goes to the end of the file. When the
    commands end, and when a renamed image is one again. -/

namespace RainWrt.Bcm4908img

/-! ### Following the nodes -/

/-- From `o` the loop gets to a node, past entries with some names. -/
inductive Walk (big : Bool) (img : Bytes) (P : Bytes → Prop) : Nat → Nat → Prop
  | refl (o : Nat) : Walk big img P o o
  | next {o o' n : Nat} {name : Option Bytes} : nodeAt big img o = .ok (some (n, name)) → (∀ b ∈ name, P b) → Walk big img P n o' →
    Walk big img P o o'

/-- No node on the way has the length zero, with its padding. -/
def Advances (big : Bool) (img : Bytes) (o : Nat) : Prop :=
  ∀ o', Walk big img (fun _ => True) o o' → ∀ n name, nodeAt big img o' = .ok (some (n, name)) → n ≠ o'

/-- The entry at `o'` is the first one from `o` on with a name. -/
structure FirstEntry (big : Bool) (img oldname : Bytes) (o o' : Nat) (name : Bytes) : Prop where
  walk : Walk big img (fun b => cString b ≠ oldname) o o'
  node : ∃ n, nodeAt big img o' = .ok (some (n, some name))
  eq : cString name = oldname

section
variable {big : Bool} {img oldname newname name : Bytes} {info : Info} {o o' n : Nat}

theorem nodeAt_eq_ok {r : Option Bytes} (h : nodeAt big img o = .ok (some (n, r))) :
    n = o + (je big (slice (slice img o nodeSize) 4 4) + 3) % 2 ^ 32 / 4 * 4 ∧ o + nodeSize ≤ img.length ∧
      ∀ b ∈ r, o + direntSize + b.length ≤ img.length := by
  obtain ⟨node, hnode, h⟩ := bind_eq_ok.mp h
  obtain ⟨hle, rfl⟩ := fread_eq_ok.mp hnode
  dsimp only at h
  split at h
  case isTrue => cases h
  case isFalse =>
    split at h
    case isTrue =>
      cases h
      exact ⟨rfl, hle, fun b hb => by cases hb⟩
    case isFalse =>
      obtain ⟨dirent, -, h⟩ := bind_eq_ok.mp h
      obtain ⟨name, hname, h⟩ := bind_eq_ok.mp h
      cases h
      obtain ⟨hend, rfl⟩ := fread_eq_ok.mp hname
      refine ⟨rfl, hle, fun b hb => ?_⟩
      obtain rfl := Option.some.inj hb
      rw [slice, List.length_take]
      omega

section
variable {node : Bytes} (hnode : fread img o nodeSize = .ok node)
include hnode

theorem nodeAt_stop (hmagic : je big (slice node 0 2) ≠ jffs2MagicBitmask) : nodeAt big img o = .ok none := by
  unfold nodeAt
  rw [hnode]
  exact if_pos hmagic

variable (hmagic : je big (slice node 0 2) = jffs2MagicBitmask)
include hmagic

theorem nodeAt_other (htype : je big (slice node 2 2) ≠ jffs2NodetypeDirent) :
    nodeAt big img o = .ok (some (o + (je big (slice node 4 4) + 3) % 2 ^ 32 / 4 * 4, none)) := by
  unfold nodeAt
  rw [hnode]
  exact (if_neg (not_not_intro hmagic)).trans (if_pos htype)

theorem nodeAt_dirent (htype : je big (slice node 2 2) = jffs2NodetypeDirent) {dirent : Bytes}
    (hdirent : fread img (o + nodeSize) (direntSize - nodeSize) = .ok dirent)
    (hname : fread img (o + direntSize) (je big (slice dirent 16 1)) = .ok name) :
    nodeAt big img o = .ok (some (o + (je big (slice node 4 4) + 3) % 2 ^ 32 / 4 * 4, some name)) := by
  unfold nodeAt
  rw [hnode]
  refine (if_neg (not_not_intro hmagic)).trans ((if_neg (not_not_intro htype)).trans ?_)
  rw [hdirent]
  show (fread img (o + direntSize) (je big (slice dirent 16 1)) >>= _) = _
  rw [hname]
  rfl

end

theorem Walk.le {P : Bytes → Prop} (h : Walk big img P o o') : o ≤ o' := by
  induction h with
  | refl => exact Nat.le_refl _
  | next hnode _ _ ih =>
    obtain ⟨rfl, -, -⟩ := nodeAt_eq_ok hnode
    omega

theorem Advances.next (h : Advances big img o) {r : Option Bytes} (hnode : nodeAt big img o = .ok (some (n, r))) : Advances big img n :=
  fun o' hwalk => h o' (.next hnode (fun _ _ => trivial) hwalk)

/-- Nodes that advance are left behind at the end of the image. -/
theorem exists_bootfsLs (h : Advances big img o) : ∃ rounds, bootfsLs big img rounds o ≠ none := by
  induction hm : img.length - o using Nat.strongRecOn generalizing o with
  | _ m ih =>
    cases hnode : nodeAt big img o with
    | error err => exact ⟨1, by simp [bootfsLs, hnode]⟩
    | ok r =>
      match r with
      | none => exact ⟨1, by simp [bootfsLs, hnode]⟩
      | some (n, name) =>
        obtain ⟨hn, hle, -⟩ := nodeAt_eq_ok hnode
        have hne := h o (.refl o) n name hnode
        have hlt : img.length - n < m := by
          rw [nodeSize] at hle
          omega
        obtain ⟨rounds, hrounds⟩ := ih _ hlt (h.next hnode) rfl
        exact ⟨rounds + 1, by simpa [bootfsLs, hnode] using hrounds⟩

theorem bootfsLs_loop {r : Option Bytes} (h : nodeAt big img o = .ok (some (o, r))) (rounds : Nat) : bootfsLs big img rounds o = none := by
  induction rounds with
  | zero => rfl
  | succ rounds ih => simp [bootfsLs, h, ih]

/-- `ls` ends just if the nodes advance. -/
theorem bootfsLs_ends_iff : (∃ rounds, bootfsLs big img rounds o ≠ none) ↔ Advances big img o := by
  refine ⟨?_, exists_bootfsLs⟩
  rintro ⟨rounds, hrounds⟩ o' hwalk n name hnode rfl
  induction hwalk generalizing rounds with
  | refl => exact hrounds (bootfsLs_loop hnode rounds)
  | next hstep _ _ ih =>
    cases rounds with
    | zero => exact hrounds rfl
    | succ rounds =>
      rw [bootfsLs, hstep] at hrounds
      exact ih rounds (by simpa using hrounds) hnode

/-- Where `ls` ends, `mv` does. -/
theorem exists_mvLoop (h : Advances big img o) : ∃ rounds, mvLoop big img info oldname newname rounds o ≠ none := by
  induction hm : img.length - o using Nat.strongRecOn generalizing o with
  | _ m ih =>
    cases hnode : nodeAt big img o with
    | error err => exact ⟨1, by simp [mvLoop, hnode]⟩
    | ok r =>
      match r with
      | none => exact ⟨1, by simp [mvLoop, hnode]⟩
      | some (n, name) =>
        cases hname : name.filter fun name => cString name = oldname with
        | some name => exact ⟨1, by simp [mvLoop, hnode, hname]⟩
        | none =>
          obtain ⟨hn, hle, -⟩ := nodeAt_eq_ok hnode
          have hne := h o (.refl o) n name hnode
          have hlt : img.length - n < m := by
            rw [nodeSize] at hle
            omega
          obtain ⟨rounds, hrounds⟩ := ih _ hlt (h.next hnode) rfl
          exact ⟨rounds + 1, by simpa [mvLoop, hnode, hname] using hrounds⟩

/-- `mv` renames the first entry with the old name, or it fails. -/
theorem mvLoop_cases {rounds : Nat} {out : Moved} (h : mvLoop big img info oldname newname rounds o = some out) :
    (∃ err, out = .failed err) ∨
      ∃ o' name, FirstEntry big img oldname o o' name ∧ out = rename big img info newname o' name.length := by
  induction rounds generalizing o with
  | zero => cases h
  | succ rounds ih =>
    rw [mvLoop] at h
    cases hnode : nodeAt big img o with
    | error err =>
      rw [hnode] at h
      exact Or.inl ⟨err, (Option.some.inj h).symm⟩
    | ok r =>
      rw [hnode] at h
      match r with
      | none => exact Or.inl ⟨.ENOENT, (Option.some.inj h).symm⟩
      | some (n, name) =>
        dsimp only at h
        cases hname : name.filter fun name => cString name = oldname with
        | some name' =>
          rw [hname] at h
          obtain ⟨hmem, heq⟩ := Option.filter_eq_some_iff.mp hname
          subst hmem
          exact Or.inr ⟨o, name', ⟨.refl o, ⟨n, hnode⟩, by simpa using heq⟩, (Option.some.inj h).symm⟩
        | none =>
          rw [hname] at h
          have hskip : ∀ b ∈ name, cString b ≠ oldname := by
            rintro b rfl heq
            simp [heq] at hname
          rcases ih h with herr | ⟨o', name', hfirst, hout⟩
          · exact Or.inl herr
          · exact Or.inr ⟨o', name', ⟨.next hnode hskip hfirst.walk, hfirst.node, hfirst.eq⟩, hout⟩

variable (info newname) in
theorem mvLoop_first (h : FirstEntry big img oldname o o' name) :
    ∃ rounds, mvLoop big img info oldname newname rounds o = some (rename big img info newname o' name.length) := by
  obtain ⟨hwalk, ⟨m, hnode⟩, heq⟩ := h
  induction hwalk with
  | refl o =>
    have hname : ((some name).filter fun name => cString name = oldname) = some name :=
      Option.filter_eq_some_iff.mpr ⟨rfl, by simp [heq]⟩
    exact ⟨1, by simp only [mvLoop, hnode, hname]⟩
  | @next o o' n name' hstep hskip _ ih =>
    obtain ⟨rounds, hrounds⟩ := ih hnode
    have hname : (name'.filter fun name => cString name = oldname) = none := by
      cases name' with
      | none => rfl
      | some b => simp [hskip b rfl]
    exact ⟨rounds + 1, by simp [mvLoop, hstep, hname, hrounds]⟩

/-- There is only one first entry. -/
theorem FirstEntry.unique (h : FirstEntry big img oldname o o' name) {o'' : Nat} {name' : Bytes}
    (h' : FirstEntry big img oldname o o'' name') : o' = o'' ∧ name = name' := by
  obtain ⟨hwalk, ⟨m, hnode⟩, heq⟩ := h
  obtain ⟨hwalk', ⟨m', hnode'⟩, heq'⟩ := h'
  induction hwalk with
  | refl o =>
    cases hwalk' with
    | refl =>
      rw [hnode] at hnode'
      cases hnode'
      exact ⟨rfl, rfl⟩
    | next hstep hskip _ =>
      rw [hnode] at hstep
      cases hstep
      exact absurd heq (hskip _ rfl)
  | next hstep hskip _ ih =>
    cases hwalk' with
    | refl =>
      rw [hstep] at hnode'
      cases hnode'
      exact absurd heq' (hskip _ rfl)
    | next hstep' _ hrest' =>
      rw [hstep] at hstep'
      cases hstep'
      exact ih hnode hrest'

end

/-! ### The renamed image -/

/-- The checksum of the body. -/
def bodyCrc (img : Bytes) (info : Info) : UInt32 :=
  bcm4908imgCrc32 0xffffffff (slice img info.cferomOffset (info.tailOffset - info.cferomOffset))

/-- The image with the new name in an entry. -/
def named (big : Bool) (img newname : Bytes) (o nsize : Nat) : Bytes := writeName big img o (newBytes newname nsize)

/-- The tail that is written for it. -/
def newTail (big : Bool) (img : Bytes) (info : Info) (newname : Bytes) (o nsize : Nat) : Bytes :=
  Tail.bytes { info.tail with crc32 := bodyCrc (named big img newname o nsize) info }

/-- The image with the new name in an entry, and with its checksum in the tail. -/
def renamedImage (big : Bool) (img : Bytes) (info : Info) (newname : Bytes) (o nsize : Nat) : Bytes :=
  writeAt (named big img newname o nsize) info.tailOffset (le32 (bodyCrc (named big img newname o nsize) info))

/-- `mv` failed, or the name and the checksum of the name of the first entry and the checksum in the tail are all that changed, and
    the image is accepted with its tail where it was. -/
def Right (big : Bool) (img : Bytes) (info : Info) (oldname newname : Bytes) : Moved → Prop
  | .failed _ => True
  | .overread => False
  | .renamed img' => ∃ o name, FirstEntry big img oldname info.bootfsOffset o name ∧
      img' = renamedImage big img info newname o name.length ∧ ∃ info', parse img' = .ok info' ∧ info'.tailOffset = info.tailOffset

/-- What the rename of an entry needs. -/
structure Good (big : Bool) (img : Bytes) (info : Info) (newname : Bytes) (o nsize : Nat) : Prop where
  /-- The name of the entry has no byte 0, except for a last one. -/
  fits : nsize ≤ newname.length + 1
  /-- The tail ends the file and the entry leaves its other fields. Or the tail of a vendor ends with just these bytes and the checksum
      stays. -/
  tail : (info.tailOffset + tailSize = img.length ∧
      slice (named big img newname o nsize) (info.tailOffset + 4) 16 = slice img (info.tailOffset + 4) 16) ∨
    (info.tailOffset + tailSize ≠ img.length ∧
      slice (named big img newname o nsize) (img.length - tailSize) tailSize = newTail big img info newname o nsize ∧
      slice (named big img newname o nsize) info.tailOffset 4 = le32 (bodyCrc (named big img newname o nsize) info))
  /-- No tail of a vendor comes or goes. -/
  vendor : tailOffset (renamedImage big img info newname o nsize) = info.tailOffset
  /-- There is a rootfs. -/
  rootfs : ∃ r p, Rootfs (renamedImage big img info newname o nsize) info.tailOffset info.bootfsOffset r p

@[simp] theorem length_native32 (big : Bool) (w : UInt32) : (native32 big w).length = 4 := by
  unfold native32
  split_ifs
  · rw [List.length_reverse, length_le32]
  · exact length_le32 w

section
variable {big : Bool} {img newname : Bytes} {info : Info} {o n : Nat}

theorem length_newBytes (h : n ≤ newname.length + 1) : (newBytes newname n).length = n := by
  rw [newBytes, List.length_take, List.length_append]
  exact Nat.min_eq_left h

variable (big) in
theorem length_named (hend : o + direntSize + n ≤ img.length) (h : n ≤ newname.length + 1) :
    (named big img newname o n).length = img.length := by
  have hname := length_newBytes h
  have hcrc : (writeAt img (o + nameCrcOffset) (native32 big (bcm4908imgCrc32 0 (newBytes newname n)))).length = img.length :=
    length_writeAt (by rw [length_native32, nameCrcOffset]; rw [direntSize] at hend; omega)
  rw [named, writeName, length_writeAt (by rw [hcrc, hname]; exact hend), hcrc]

/-- What is in front of the name stays. -/
theorem slice_named (hend : o + direntSize + n ≤ img.length) (h : n ≤ newname.length + 1) {x size : Nat} (hx : x + size ≤ o + nameCrcOffset) :
    slice (named big img newname o n) x size = slice img x size := by
  have hname := length_newBytes h
  rw [nameCrcOffset] at hx
  rw [direntSize] at hend
  have hroom : o + nameCrcOffset + (native32 big (bcm4908imgCrc32 0 (newBytes newname n))).length ≤ img.length := by
    rw [length_native32, nameCrcOffset]
    omega
  rw [named, writeName, slice_writeAt_before, slice_writeAt_before hroom]
  · exact hx
  · rw [length_writeAt hroom, hname]
    exact hend
  · rw [direntSize]
    omega

/-- What is behind the name stays. -/
theorem slice_named_after (hend : o + direntSize + n ≤ img.length) (h : n ≤ newname.length + 1) {x size : Nat} (hx : o + direntSize + n ≤ x) :
    slice (named big img newname o n) x size = slice img x size := by
  have hname := length_newBytes h
  rw [direntSize] at hend hx
  have hroom : o + nameCrcOffset + (native32 big (bcm4908imgCrc32 0 (newBytes newname n))).length ≤ img.length := by
    rw [length_native32, nameCrcOffset]
    omega
  rw [named, writeName, slice_writeAt_after, slice_writeAt_after hroom]
  · rw [length_native32, nameCrcOffset]
    omega
  · rw [length_writeAt hroom, hname]
    exact hend
  · rw [hname]
    exact hx

/-- The bytes of the tail that is written: the other fields are those of the image. -/
theorem newTail_eq (htail : info.tail = Tail.ofBytes (slice img info.tailOffset tailSize)) (hle : info.tailOffset + tailSize ≤ img.length) :
    newTail big img info newname o n = le32 (bodyCrc (named big img newname o n) info) ++ slice img (info.tailOffset + 4) 16 := by
  rw [tailSize] at hle
  have hfield (i : Nat) (hi : i + 4 ≤ 20) : le32 (word (slice img info.tailOffset tailSize) i) = slice img (info.tailOffset + i) 4 := by
    rw [tailSize, word_slice hi, le32_word (by omega)]
  have hrest : slice img (info.tailOffset + 4) 16 = slice img (info.tailOffset + 4) 4 ++ (slice img (info.tailOffset + 8) 4 ++
      (slice img (info.tailOffset + 12) 4 ++ slice img (info.tailOffset + 16) 4)) := by
    rw [show 16 = 4 + (4 + (4 + 4)) from rfl, slice_add, slice_add, slice_add]
  rw [newTail, Tail.bytes, htail, Tail.ofBytes, hrest]
  simp only [unwords, List.flatMap_cons, List.flatMap_nil, List.append_nil, hfield 4 (by decide), hfield 8 (by decide), hfield 12 (by decide),
    hfield 16 (by decide)]

/-- What is written to the end of the file is what belongs in the tail just in these cases. -/
theorem writeAt_tail_iff {r c rest : Bytes} {t : Nat} (hc : c.length = 4) (hrest : rest.length = 16)
    (ht : t + tailSize = r.length ∨ t + tailSize + linksysSize = r.length) :
    writeAt r (r.length - tailSize) (c ++ rest) = writeAt r t c ↔
      (t + tailSize = r.length ∧ slice r (t + 4) 16 = rest) ∨
        (t + tailSize ≠ r.length ∧ slice r (r.length - tailSize) tailSize = c ++ rest ∧ slice r t 4 = c) := by
  have hboth : (c ++ rest).length = tailSize := by rw [List.length_append, hc, hrest]; rfl
  rw [tailSize, linksysSize] at ht
  rw [tailSize] at hboth ⊢
  rcases ht with ht | ht
  · have hat : r.length - 20 = t := by omega
    have hafter : slice (writeAt r t c) (t + 4) 16 = slice r (t + 4) 16 := slice_writeAt_after (by omega) (by omega)
    have happend : writeAt r t (c ++ rest) = writeAt (writeAt r t c) (t + 4) rest := by
      rw [← writeAt_append (by omega), hc]
    rw [hat]
    constructor
    · intro h
      refine Or.inl ⟨ht, ?_⟩
      have hself : slice (writeAt (writeAt r t c) (t + 4) rest) (t + 4) rest.length = rest :=
        slice_writeAt_self (by rw [length_writeAt (by omega)]; omega)
      rw [← happend, h, hrest, hafter] at hself
      exact hself
    · rintro (⟨-, hsame⟩ | ⟨hne, -⟩)
      · rw [happend, ← hsame, ← hafter]
        exact writeAt_slice (by rw [length_writeAt (by omega)]; omega)
      · exact absurd ht hne
  · constructor
    · intro h
      refine Or.inr ⟨by omega, ?_, ?_⟩
      · have hself : slice (writeAt r (r.length - 20) (c ++ rest)) (r.length - 20) (c ++ rest).length = c ++ rest :=
          slice_writeAt_self (by omega)
        rw [h, hboth] at hself
        rw [← hself]
        exact (slice_writeAt_after (by omega) (by omega)).symm
      · have hself : slice (writeAt r t c) t c.length = c := slice_writeAt_self (by omega)
        rw [← h, hc] at hself
        rw [← hself]
        exact (slice_writeAt_before (by omega) (by omega)).symm
    · rintro (⟨heq, -⟩ | ⟨-, hlast, hfirst⟩)
      · omega
      · have hall : writeAt r (r.length - 20) (c ++ rest) = r := by
          rw [← hlast]
          exact writeAt_slice (by omega)
        rw [hall, ← hfirst]
        exact (writeAt_slice (by omega)).symm

/-- Between the bootfs and the tail there is a block. -/
theorem Rootfs.stride_le {t b r p : Nat} (h : Rootfs img t b r p) (hj : Jffs2 img b) : b + stride ≤ t := by
  obtain ⟨hubi, -⟩ | ⟨-, hnext⟩ := first_next.mp h.first
  · exact absurd hubi (not_ubi_of_jffs2 hj)
  · exact Nat.le_trans hnext.le (Nat.le_of_lt h.lt)

end

/-! ### Moving an entry -/

section
variable {big : Bool} {img newname oldname name : Bytes} {info : Info} {o n : Nat}

variable (big) in
theorem length_renamedImage (hle : info.tailOffset + tailSize ≤ img.length) (hend : o + direntSize + n ≤ img.length)
    (h : n ≤ newname.length + 1) : (renamedImage big img info newname o n).length = img.length := by
  have hnamed := length_named big hend h
  rw [tailSize] at hle
  rw [renamedImage, length_writeAt (by rw [hnamed, length_le32]; omega), hnamed]

/-- What is in front of the name and of the tail stays. -/
theorem slice_renamedImage (hle : info.tailOffset + tailSize ≤ img.length) (hend : o + direntSize + n ≤ img.length)
    (h : n ≤ newname.length + 1) {x size : Nat} (hx : x + size ≤ o + nameCrcOffset) (ht : x + size ≤ info.tailOffset) :
    slice (renamedImage big img info newname o n) x size = slice img x size := by
  have hnamed := length_named big hend h
  rw [tailSize] at hle
  rw [renamedImage, slice_writeAt_before (by rw [hnamed, length_le32]; omega) ht, slice_named hend h hx]

variable (big) in
/-- The renamed image is accepted, with its tail where it was, just if the places of the tail and of a rootfs are found in it. -/
theorem parse_renamedImage_iff (hparse : parse img = .ok info) (hwalk : info.bootfsOffset ≤ o) (hend : o + direntSize + n ≤ img.length)
    (h : n ≤ newname.length + 1) :
    (∃ info', parse (renamedImage big img info newname o n) = .ok info' ∧ info'.tailOffset = info.tailOffset) ↔
      tailOffset (renamedImage big img info newname o n) = info.tailOffset ∧
        ∃ r p, Rootfs (renamedImage big img info newname o n) info.tailOffset info.bootfsOffset r p := by
  obtain ⟨hlen, hfirst, hlt, hroot, -, hcferom, htail, -, -⟩ := parse_eq_ok.mp hparse
  have hle := tailOffset_le hlen
  have hlow : 748 ≤ tailOffset img := by
    rw [tailOffset, tailSize, linksysSize]
    split_ifs
    · omega
    · omega
  rw [← htail] at hle hlt hroot hlow
  have hstride := hroot.stride_le hfirst.holds
  rw [stride] at hstride
  have hlength := length_renamedImage big hle hend h
  have hslice {x size : Nat} (hx : x + size ≤ info.bootfsOffset + 2 ∨ x + size ≤ 8) :
      slice (renamedImage big img info newname o n) x size = slice img x size :=
    slice_renamedImage hle hend h (by rw [nameCrcOffset]; omega) (by omega)
  have hcferom' : cferomOffset (renamedImage big img info newname o n) = cferomOffset img := by
    unfold cferomOffset
    rw [hslice (Or.inr (by decide)), hslice (Or.inr (by decide))]
  have hfirst' : First (Jffs2 (renamedImage big img info newname o n)) (cferomOffset img) info.bootfsOffset :=
    hfirst.congr fun x hx => by rw [Jffs2, Jffs2, hslice (Or.inl (by omega))]
  constructor
  · rintro ⟨info', hparse', heq⟩
    obtain ⟨-, hfound, -, hroot', -, -, htail', -, -⟩ := parse_eq_ok.mp hparse'
    rw [hcferom'] at hfound
    rw [← htail', heq, hfound.unique hfirst'] at hroot'
    exact ⟨htail'.symm.trans heq, _, _, hroot'⟩
  · rintro ⟨htail', r, p, hroot'⟩
    have hnamed := length_named big hend h
    have hroom : info.tailOffset + (le32 (bodyCrc (named big img newname o n) info)).length ≤ (named big img newname o n).length := by
      rw [tailSize] at hle
      rw [hnamed, length_le32]
      omega
    have hcf := hfirst.le
    have hsum : Summed (renamedImage big img info newname o n) := by
      rw [Summed, hcferom', htail', ← hcferom, word_eq_slice]
      have hword : slice (renamedImage big img info newname o n) info.tailOffset 4 = le32 (bodyCrc (named big img newname o n) info) :=
        slice_writeAt_self hroom
      have hbody : slice (renamedImage big img info newname o n) info.cferomOffset (info.tailOffset - info.cferomOffset) =
          slice (named big img newname o n) info.cferomOffset (info.tailOffset - info.cferomOffset) :=
        slice_writeAt_before hroom (by omega)
      rw [hword, hbody, word_le32]
      rfl
    refine ⟨⟨cferomOffset img, info.bootfsOffset, p, r, info.tailOffset, word (renamedImage big img info newname o n) info.tailOffset,
      .ofBytes (slice (renamedImage big img info newname o n) info.tailOffset tailSize)⟩, parse_eq_ok.mpr ?_, rfl⟩
    rw [htail', hcferom']
    exact ⟨by omega, hfirst', hlt, hroot', hsum, rfl, rfl, rfl, rfl⟩

/-- How an entry is renamed. -/
theorem rename_eq (hparse : parse img = .ok info) (hend : o + direntSize + n ≤ img.length) (h : n ≤ newname.length + 1) :
    rename big img info newname o n =
      .renamed (writeAt (named big img newname o n) (img.length - tailSize) (newTail big img info newname o n)) := by
  obtain ⟨hlen, hfirst, hlt, -, -, hcferom, htail, -, -⟩ := parse_eq_ok.mp hparse
  have hle := tailOffset_le hlen
  have hcf := hfirst.le
  rw [tailSize] at hle
  have hnamed := length_named big hend h
  have hsum : sum (named big img newname o n) info.cferomOffset (info.tailOffset - info.cferomOffset) =
      .ok (bodyCrc (named big img newname o n) info) := sum_eq (by omega)
  unfold rename
  rw [if_neg (by omega)]
  unfold named at hsum hnamed ⊢
  simp only [hsum, hnamed]
  rfl

theorem right_rename_iff (hparse : parse img = .ok info) (hfirst : FirstEntry big img oldname info.bootfsOffset o name) :
    Right big img info oldname newname (rename big img info newname o name.length) ↔ Good big img info newname o name.length := by
  obtain ⟨m, hnode⟩ := hfirst.node
  have hend := (nodeAt_eq_ok hnode).2.2 name rfl
  by_cases hfits : name.length ≤ newname.length + 1
  · obtain ⟨hlen, -, -, -, -, -, htail, -, hfields⟩ := parse_eq_ok.mp hparse
    have hle := tailOffset_le hlen
    have hends : info.tailOffset + tailSize = img.length ∨ info.tailOffset + tailSize + linksysSize = img.length := by
      rw [htail, tailOffset, tailSize, linksysSize]
      split_ifs
      · omega
      · omega
    rw [← htail] at hle hfields
    have hnamed := length_named big hend hfits
    have hrest : (slice img (info.tailOffset + 4) 16).length = 16 := by
      rw [tailSize] at hle
      rw [slice, List.length_take, List.length_drop]
      omega
    have htail_iff := writeAt_tail_iff (r := named big img newname o name.length) (length_le32 (bodyCrc (named big img newname o name.length) info))
      hrest (by rw [hnamed]; exact hends)
    have hnewTail : newTail big img info newname o name.length = _ := newTail_eq hfields hle
    rw [hnamed, ← hnewTail] at htail_iff
    have hparse_iff := parse_renamedImage_iff big hparse hfirst.walk.le hend hfits
    rw [rename_eq hparse hend hfits]
    constructor
    · rintro ⟨o', name', hfirst', himg, haccepted⟩
      obtain ⟨rfl, rfl⟩ := hfirst.unique hfirst'
      rw [himg] at haccepted
      obtain ⟨hvendor, hroot⟩ := hparse_iff.mp haccepted
      exact ⟨hfits, htail_iff.mp himg, hvendor, hroot⟩
    · intro hgood
      have himg := htail_iff.mpr hgood.tail
      refine ⟨o, name, hfirst, himg, ?_⟩
      rw [himg]
      exact hparse_iff.mpr ⟨hgood.vendor, hgood.rootfs⟩
  · rw [rename, if_pos (by omega)]
    exact iff_of_false id fun hgood => hfits hgood.fits

end

/-- `ls` and `mv` end and a rename is right just if no node has the length zero, and, for names of one length, the entry is a good
    one. -/
theorem bootfs_iff {big : Bool} {img : Bytes} {info : Info} (h : parse img = .ok info) (oldname newname : Bytes) :
    ((∃ rounds, bootfsLs big img rounds info.bootfsOffset ≠ none) ∧ (∃ rounds, bootfsMv big img info oldname newname rounds ≠ none) ∧
        ∀ rounds out, bootfsMv big img info oldname newname rounds = some out → Right big img info oldname newname out) ↔
      Advances big img info.bootfsOffset ∧ (newname.length = oldname.length →
        ∀ o name, FirstEntry big img oldname info.bootfsOffset o name → Good big img info newname o name.length) := by
  rw [bootfsLs_ends_iff]
  by_cases hlength : newname.length = oldname.length
  · simp only [bootfsMv, hlength, ne_eq, not_true_eq_false, if_false, true_implies]
    constructor
    · rintro ⟨hadvances, -, hright⟩
      refine ⟨hadvances, fun o name hfirst => ?_⟩
      obtain ⟨rounds, hrounds⟩ := mvLoop_first newname info hfirst
      exact (right_rename_iff h hfirst).mp (hright rounds _ hrounds)
    · rintro ⟨hadvances, hgood⟩
      refine ⟨hadvances, exists_mvLoop hadvances, fun rounds out hout => ?_⟩
      rcases mvLoop_cases hout with ⟨err, rfl⟩ | ⟨o, name, hfirst, rfl⟩
      · trivial
      · exact (right_rename_iff h hfirst).mpr (hgood o name hfirst)
  · simp only [bootfsMv, hlength, ne_eq, not_false_eq_true, if_true, false_implies, and_true]
    constructor
    · exact fun hright => hright.1
    · intro hadvances
      refine ⟨hadvances, ⟨0, by simp⟩, fun rounds out hout => ?_⟩
      obtain rfl := Option.some.inj hout
      trivial

/-! ### Images with one node -/

/-- An image with nodes at the start of its bootfs. -/
def imageOf (nodes : Bytes) : Creator :=
  let body := nodes ++ (List.replicate (0x20000 - nodes.length) 0 ++ sampleRootfs)
  { trx := body, crc32 := bcm4908imgCrc32 0xffffffff body }

section
variable {nodes : Bytes}

variable (nodes) in
/-- Such an image is accepted. -/
theorem parse_imageOf (hle : 4 ≤ nodes.length) (hlen : nodes.length ≤ 0x20000) (hj : be (nodes.take 2) = 0x8519)
    (hchk : be (nodes.take 4) ≠ 0x2a23245e) :
    ∃ info, parse (imageOf nodes).image = .ok info ∧ info.bootfsOffset = 0 ∧ info.tailOffset = 0x20100 := by
  have hlaid := laid_two (s := imageOf nodes) rfl (by omega) hle hj hchk
  obtain ⟨hcf, ht⟩ := offsets_two (s := imageOf nodes) rfl hle hchk
  have hsum : Summed (imageOf nodes).image := by
    rw [Summed, hcf, ht, word_image, Nat.sub_zero, slice_image (Nat.le_of_eq (Nat.zero_add _)), slice, List.drop_zero, List.take_length]
    rfl
  have hbootfs : nodes ++ List.replicate (0x20000 - nodes.length) 0 ≠ [] := by
    intro hnil
    rw [List.append_eq_nil_iff] at hnil
    rw [hnil.1] at hle
    cases hle
  have hrootfs : sampleRootfs ≠ [] := by
    intro hnil
    rw [← List.length_eq_zero_iff, length_sampleRootfs] at hnil
    cases hnil
  obtain ⟨info, hparse, hb, -⟩ := ranges_of_laid hlaid hsum hbootfs hrootfs
  obtain ⟨-, hfirst, -, -, -, -, htail, -, -⟩ := parse_eq_ok.mp hparse
  have hrest := hlaid.rest
  rw [length_sampleRootfs] at hrest
  exact ⟨info, hparse, hfirst.unique hlaid.jffs2, htail.trans hrest⟩

theorem length_imageOf (hlen : nodes.length ≤ 0x20000) : (imageOf nodes).image.length = 0x20114 := by
  rw [length_image, imageOf, List.length_append, List.length_append, List.length_replicate, length_sampleRootfs, tailSize]
  omega

theorem slice_imageOf {off size : Nat} (h : off + size ≤ nodes.length) : slice (imageOf nodes).image off size = slice nodes off size := by
  rw [Creator.image, imageOf, List.append_assoc, slice_append_left h]

theorem fread_imageOf {off size : Nat} (h : off + size ≤ nodes.length) : fread (imageOf nodes).image off size = .ok (slice nodes off size) := by
  rw [fread_ok, slice_imageOf h]
  rw [length_image, imageOf, List.length_append]
  omega

end

/-- An entry `a`, and zeros. -/
def oneEntry : Bytes :=
  [0x85, 0x19, 0x01, 0xe0, 44, 0, 0, 0] ++ List.replicate 20 0 ++ [1] ++ List.replicate 11 0 ++ [97] ++ List.replicate 15 0

theorem length_oneEntry : oneEntry.length = 56 := rfl

theorem nodeAt_entry : nodeAt false (imageOf oneEntry).image 0 = .ok (some (44, some [97])) :=
  nodeAt_dirent (fread_imageOf (by decide)) (by decide) (by decide) (fread_imageOf (by decide))
    (show fread (imageOf oneEntry).image 40 1 = .ok [97] from fread_imageOf (by decide))

theorem nodeAt_end : nodeAt false (imageOf oneEntry).image 44 = .ok none := nodeAt_stop (fread_imageOf (by decide)) (by decide)

theorem rename_entry : ∃ info, parse (imageOf oneEntry).image = .ok info ∧
    (∃ rounds, bootfsLs false (imageOf oneEntry).image rounds info.bootfsOffset ≠ none) ∧
    (∃ rounds, bootfsMv false (imageOf oneEntry).image info [97] [98] rounds ≠ none) ∧
    ∀ rounds out, bootfsMv false (imageOf oneEntry).image info [97] [98] rounds = some out →
      Right false (imageOf oneEntry).image info [97] [98] out := by
  obtain ⟨info, hparse, hbootfs, htail⟩ := parse_imageOf oneEntry (by decide) (by rw [length_oneEntry]; decide) rfl (by decide)
  refine ⟨info, hparse, (bootfs_iff hparse [97] [98]).mpr ⟨?_, fun _ o name hfirst => ?_⟩⟩
  · rw [hbootfs]
    intro o hwalk n name hnode
    cases hwalk with
    | refl =>
      rw [nodeAt_entry] at hnode
      cases hnode
      decide
    | next hstep _ hrest =>
      rw [nodeAt_entry] at hstep
      cases hstep
      cases hrest with
      | refl =>
        rw [nodeAt_end] at hnode
        cases hnode
      | next hstep _ _ =>
        rw [nodeAt_end] at hstep
        cases hstep
  · rw [hbootfs] at hfirst
    obtain ⟨rfl, rfl⟩ := hfirst.unique ⟨.refl 0, ⟨44, nodeAt_entry⟩, rfl⟩
    rw [List.length_singleton]
    have hlaid := laid_two (s := imageOf oneEntry) rfl (by rw [length_oneEntry]) (by decide) rfl (by decide)
    have hrest := hlaid.rest
    rw [length_sampleRootfs] at hrest
    have hlength : (imageOf oneEntry).image.length = 0x20114 := length_imageOf (by rw [length_oneEntry]; decide)
    have hle : info.tailOffset + tailSize ≤ (imageOf oneEntry).image.length := by
      rw [hlength, htail]
      decide
    have hend : 0 + direntSize + 1 ≤ (imageOf oneEntry).image.length := by
      rw [hlength]
      decide
    have hbefore {x size : Nat} (hx : x + size ≤ 36) : slice (renamedImage false (imageOf oneEntry).image info [98] 0 1) x size =
        slice (imageOf oneEntry).image x size := slice_renamedImage hle hend (by decide) (by rw [nameCrcOffset]; omega) (by omega)
    have hafter {x size : Nat} (hx : 41 ≤ x) (ht : x + size ≤ info.tailOffset) :
        slice (renamedImage false (imageOf oneEntry).image info [98] 0 1) x size = slice (imageOf oneEntry).image x size := by
      have hnamed := length_named false hend (show 1 ≤ ([98] : Bytes).length + 1 by decide)
      rw [renamedImage, slice_writeAt_before (by rw [hnamed, hlength, htail, length_le32]; decide) ht,
        slice_named_after hend (by decide) (by rw [direntSize]; omega)]
    have hlength' := length_renamedImage false hle hend (show 1 ≤ ([98] : Bytes).length + 1 by decide)
    refine ⟨by decide, Or.inl ⟨by rw [hlength, htail, tailSize], slice_named_after hend (by decide) (by rw [htail]; decide)⟩, ?_, ?_⟩
    · rw [show info.tailOffset = tailOffset (imageOf oneEntry).image from htail.trans hrest.symm]
      unfold tailOffset
      rw [hlength', hafter (by rw [hlength]; decide) (by rw [hlength, htail]; decide)]
    · have hjffs2 : Jffs2 (renamedImage false (imageOf oneEntry).image info [98] 0 1) 0 := by
        rw [Jffs2, hbefore (by decide)]
        exact hlaid.jffs2.holds
      have hone : ∀ {P : Nat → Prop}, ¬P 0 → Absent P 0 0x20000 := fun h0 =>
        (absent_next (by decide)).mpr ⟨h0, absent_of_le (Nat.le_refl _)⟩
      refine ⟨0x20000, 0, ?_⟩
      rw [hbootfs]
      refine ⟨⟨Nat.zero_le _, Nat.dvd_refl _, ?_, hone (not_ubi_of_jffs2 hjffs2)⟩, by rw [htail]; decide,
        Or.inl ⟨rfl, hone (not_erased_of_jffs2 hjffs2), by rw [hlength', hlength]; decide⟩⟩
      rw [Ubi, hafter (by decide) (by rw [htail]; decide)]
      exact hlaid.ubi.holds

/-- A node of the length zero. -/
def zeroNode : Bytes := [0x85, 0x19, 0x03, 0x20] ++ List.replicate 8 0

theorem length_zeroNode : zeroNode.length = 12 := rfl

/-- In an image with such a node `ls` does not end. -/
theorem ls_stays : ∃ img info, parse img = .ok info ∧ ∀ rounds, bootfsLs false img rounds info.bootfsOffset = none := by
  obtain ⟨info, hparse, hbootfs, -⟩ := parse_imageOf zeroNode (by decide) (by rw [length_zeroNode]; decide) rfl (by decide)
  have hnode : nodeAt false (imageOf zeroNode).image 0 = .ok (some (0, none)) :=
    nodeAt_other (fread_imageOf (by decide)) (by decide) (by decide)
  rw [← hbootfs] at hnode
  exact ⟨_, info, hparse, bootfsLs_loop hnode⟩

end RainWrt.Bcm4908img
