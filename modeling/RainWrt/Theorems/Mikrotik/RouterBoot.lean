import RainWrt.Mikrotik.RouterBoot
import RainWrt.Mikrotik.SoftConfig

/-! What the search for a tag reports, and what the decoder of runs makes of its input. -/

namespace RainWrt.Mikrotik.RouterBoot

/-! ### The list of tags -/

/-- The bytes of a payload, padded to whole words. -/
def padded (len : Nat) : Nat := (len + 3) / 4 * 4

/-- The node with an id that a walk along the list reaches, if each payload takes `size` bytes. -/
def walk (size : Nat → Nat) (buf : Bytes) (tagId datum : Nat) : Option Nat :=
  if datum + 4 ≤ buf.length then
    let node := word buf datum
    if node = 0 then none
    else if tagId = nodeId node then some datum
    else walk size buf tagId (datum + 4 + size (nodeLen node))
  else none
termination_by buf.length - datum

/-- The search succeeds if and only if the walk reaches a node with the id, and then reports its payload, which lies in
    the buffer. -/
def Reports (buf rest : Bytes) (tagId : Nat) : Prop :=
  ((∃ payload, routerbootTagFind (buf ++ rest) buf.length tagId = .ok payload) ↔ (walk padded buf tagId 0).isSome) ∧
    ∀ ofs len, routerbootTagFind (buf ++ rest) buf.length tagId = .ok (ofs, len) → ∃ datum, walk padded buf tagId 0 = some datum ∧
      ofs = datum + 4 ∧ len = nodeLen (word buf datum) ∧ ofs + len ≤ buf.length

/-- The node that the walk reaches has a byte behind it and its payload in the buffer, and the payload starts below
    64 KiB. If the walk reaches none, then neither does one for which a payload of more than 65532 bytes takes no room. -/
def Plain (buf : Bytes) (tagId : Nat) : Prop :=
  match walk padded buf tagId 0 with
  | some datum => tagId ≠ 0 ∧ datum + 4 < buf.length ∧ datum + 4 + nodeLen (word buf datum) ≤ buf.length ∧ datum + 4 < 2 ^ 16
  | none => tagId = 0 ∨ ∀ datum, walk align buf tagId 0 = some datum → buf.length ≤ datum + 4

section
variable {size : Nat → Nat} {buf : Bytes} {tagId datum : Nat}

theorem walk_ge {s : Nat} (h : walk size buf tagId s = some datum) : s ≤ datum := by
  fun_induction walk size buf tagId s with
  | case1 s hs node hnode => cases h
  | case2 s hs node hnode hid =>
    cases h
    exact Nat.le_refl _
  | case3 s hs node hnode hid ih =>
    have hle := ih h
    omega
  | case4 s hs => cases h

/-- Below 64 KiB no length is cut. -/
theorem walk_align {s : Nat} (h : walk padded buf tagId s = some datum) (hlt : datum < 2 ^ 16) : walk align buf tagId s = some datum := by
  fun_induction walk padded buf tagId s with
  | case1 s hs node hnode => cases h
  | case2 s hs node hnode hid =>
    rw [walk, if_pos hs]
    dsimp only
    rw [if_neg hnode, if_pos hid]
    exact h
  | case3 s hs node hnode hid ih =>
    have hge := walk_ge h
    have halign : align (nodeLen node) = padded (nodeLen node) := by
      rw [align, padded, Nat.mod_eq_of_lt]
      unfold padded at hge
      omega
    rw [walk, if_pos hs]
    dsimp only
    rw [if_neg hnode, if_neg hid, halign]
    exact ih h
  | case4 s hs => cases h

theorem align_words (len : Nat) : 4 * (align len / 4) = align len := by
  unfold align
  omega

theorem word_append {rest : Bytes} (h : datum + 4 ≤ buf.length) : word (buf ++ rest) datum = word buf datum := by
  rw [word, word, List.drop_append_of_le_length (by omega), List.take_append_of_le_length (by rw [List.length_drop]; omega)]

/-- What the search returns. -/
theorem tagFindLoop_eq (buf rest : Bytes) (tagId s : Nat) :
    tagFindLoop (buf ++ rest) buf.length tagId s = match walk align buf tagId s with
      | some datum => if datum + 4 ≥ buf.length then .error .enoent else .ok ((datum + 4) % 2 ^ 16, nodeLen (word buf datum))
      | none => .error .enoent := by
  fun_induction walk align buf tagId s with
  | case1 s hs node hnode =>
    rw [tagFindLoop, if_pos (by omega)]
    dsimp only
    rw [word_append hs, if_pos hnode]
  | case2 s hs node hnode hid =>
    rw [tagFindLoop, if_pos (by omega)]
    dsimp only
    rw [word_append hs, if_neg hnode, if_pos hid]
  | case3 s hs node hnode hid ih =>
    rw [tagFindLoop, if_pos (by omega)]
    dsimp only
    rw [word_append hs, if_neg hnode, if_neg hid, align_words]
    exact ih
  | case4 s hs =>
    -- a last node that reaches out of the buffer is read, but nothing comes of it
    have hend : ∀ x, buf.length ≤ x → tagFindLoop (buf ++ rest) buf.length tagId x = .error .enoent := fun x hx => by
      rw [tagFindLoop, if_neg (by omega)]
    by_cases hlt : s < buf.length
    · rw [tagFindLoop, if_pos hlt]
      dsimp only
      have hlast : s + 4 ≥ buf.length := by omega
      rw [if_pos hlast, hend _ (by omega)]
      split_ifs <;> rfl
    · exact hend s (by omega)

/-- The search that the settings are read with. -/
theorem softConfig_tagFind (buf : Bytes) (tagId s : Nat) :
    SoftConfig.tagFindLoop buf tagId s = (tagFindLoop buf buf.length tagId s).toOption := by
  fun_induction SoftConfig.tagFindLoop buf tagId s with
  | case1 | case2 | case3 | case4 | case5 =>
    rw [tagFindLoop]
    simp_all +zetaDelta [nodeId, nodeLen, align, Except.toOption, Nat.not_le_of_lt, Nat.not_lt_of_le]

theorem tagFind_of_walk {rest : Bytes} (h : walk padded buf tagId 0 = some datum) (hid : tagId ≠ 0) (hlt : datum < 2 ^ 16)
    (hlast : datum + 4 < buf.length) :
    routerbootTagFind (buf ++ rest) buf.length tagId = .ok ((datum + 4) % 2 ^ 16, nodeLen (word buf datum)) := by
  rw [routerbootTagFind, if_neg hid, tagFindLoop_eq, walk_align h hlt]
  dsimp only
  rw [if_neg (by omega)]

end

/-- The search reports the payload of the tag if and only if the payload is where its header says, within the buffer and
    within 16 bits. -/
theorem reports_iff (buf rest : Bytes) (tagId : Nat) : Reports buf rest tagId ↔ Plain buf tagId := by
  unfold Reports Plain
  cases hwalk : walk padded buf tagId 0 with
  | some datum =>
    dsimp only
    constructor
    · rintro ⟨hok, hpayload⟩
      obtain ⟨⟨ofs, len⟩, hfind⟩ := hok.mpr rfl
      obtain ⟨_, hsame, hofs, hlen, hfits⟩ := hpayload ofs len hfind
      cases hsame
      have hid : tagId ≠ 0 := by
        rintro rfl
        cases hfind
      rw [routerbootTagFind, if_neg hid, tagFindLoop_eq] at hfind
      cases halign : walk align buf tagId 0 with
      | none =>
        rw [halign] at hfind
        cases hfind
      | some found =>
        rw [halign] at hfind
        dsimp only at hfind
        split_ifs at hfind with hlast
        cases hfind
        have hlow : datum + 4 < 2 ^ 16 := hofs ▸ Nat.mod_lt _ (by decide)
        rw [walk_align hwalk (by omega)] at halign
        cases halign
        exact ⟨hid, by omega, by rw [← hofs, ← hlen]; exact hfits, hlow⟩
    · rintro ⟨hid, hlast, hfits, hlow⟩
      rw [tagFind_of_walk hwalk hid (by omega) hlast, Nat.mod_eq_of_lt hlow]
      refine ⟨⟨fun _ => rfl, fun _ => ⟨_, rfl⟩⟩, fun ofs len heq => ?_⟩
      cases heq
      exact ⟨datum, rfl, rfl, rfl, hfits⟩
  | none =>
    dsimp only
    rw [routerbootTagFind, tagFindLoop_eq]
    by_cases hid : tagId = 0
    · rw [if_pos hid]
      exact ⟨fun _ => Or.inl hid, fun _ => ⟨⟨nofun, nofun⟩, nofun⟩⟩
    · rw [if_neg hid]
      constructor
      · rintro ⟨hok, -⟩
        refine Or.inr fun found halign => ?_
        by_contra hlast
        rw [halign] at hok
        dsimp only at hok
        rw [if_neg (by omega)] at hok
        exact absurd (hok.mp ⟨_, rfl⟩) (by simp)
      · intro h
        cases halign : walk align buf tagId 0 with
        | none => exact ⟨⟨nofun, nofun⟩, nofun⟩
        | some found =>
          dsimp only
          rw [if_pos (h.resolve_left hid found halign)]
          exact ⟨⟨nofun, nofun⟩, nofun⟩

/-- A payload of eight bytes, of which the buffer holds four. -/
def cutTag : Bytes := [3, 0, 8, 0, 1, 2, 3, 4]

theorem tag_cut : ¬∀ buf rest tagId, Reports buf rest tagId := by
  intro h
  obtain ⟨-, hpayload⟩ := h cutTag [] 3
  obtain ⟨_, _, _, _, hfits⟩ := hpayload 4 8 (by decide +kernel)
  exact absurd hfits (by decide)

/-! ### Runs -/

/-- A byte that is repeated, or bytes that are copied. -/
inductive Run where
  | fill (n : Nat) (byte : UInt8) (h : n < 128)
  | copy (bytes : Bytes) (h : 0 < bytes.length ∧ bytes.length ≤ 128)

def Run.code : Run → Bytes
  | fill n byte _ => [.ofNat n, byte]
  | copy bytes _ => .ofNat (256 - bytes.length) :: bytes

def Run.expand : Run → Bytes
  | fill n byte _ => List.replicate n byte
  | copy bytes _ => bytes

def code (runs : List Run) : Bytes := runs.flatMap Run.code

def expand (runs : List Run) : Bytes := runs.flatMap Run.expand

theorem Run.two_le_code (run : Run) : 2 ≤ run.code.length := by
  cases run with
  | fill n byte h => exact Nat.le_refl 2
  | copy bytes h =>
    rw [code, List.length_cons]
    omega

theorem Run.expand_le (run : Run) : run.expand.length ≤ 128 := by
  cases run with
  | fill n byte h =>
    rw [expand, List.length_replicate]
    omega
  | copy bytes h => exact h.2

/-- A text of two bytes starts with a run, or with the start of one that it does not hold. -/
theorem exists_run {text : Bytes} (h : 2 ≤ text.length) :
    (∃ (run : Run) (rest : Bytes), text = run.code ++ rest) ∨
      ∃ (byte : UInt8) (rest : Bytes), text = byte :: rest ∧ 128 ≤ byte.toNat ∧ rest.length < 256 - byte.toNat := by
  obtain ⟨byte, text, rfl⟩ := List.exists_cons_of_length_pos (by omega : 0 < text.length)
  rw [List.length_cons] at h
  have hbyte := byte.toNat_lt
  by_cases hcopy : 128 ≤ byte.toNat
  · by_cases hcut : text.length < 256 - byte.toNat
    · exact Or.inr ⟨byte, text, rfl, hcopy, hcut⟩
    · have hlen : (text.take (256 - byte.toNat)).length = 256 - byte.toNat := by
        rw [List.length_take]
        omega
      refine Or.inl ⟨.copy (text.take (256 - byte.toNat)) ⟨by omega, by omega⟩, text.drop (256 - byte.toNat), ?_⟩
      have hcode : UInt8.ofNat (256 - (text.take (256 - byte.toNat)).length) = byte := by
        rw [hlen, Nat.sub_sub_self (by omega), UInt8.ofNat_toNat]
      rw [Run.code, hcode, List.cons_append, List.take_append_drop]
  · obtain ⟨value, text, rfl⟩ := List.exists_cons_of_length_pos (by omega : 0 < text.length)
    exact Or.inl ⟨.fill byte.toNat value (by omega), text, by rw [Run.code, UInt8.ofNat_toNat]; rfl⟩

theorem put_append (done rest : Bytes) (old byte : UInt8) : put (done ++ old :: rest) done.length byte = some (done ++ byte :: rest) := by
  rw [put, if_pos (by simp), List.set_append_right _ _ (Nat.le_refl _), Nat.sub_self, List.set_cons_zero]

theorem fillRun_eq (byte : UInt8) {run : Nat} {rest : Bytes} (done : Bytes) (h : run ≤ rest.length) :
    fillRun byte run done.length (done ++ rest) = some (done ++ List.replicate run byte ++ rest.drop run) := by
  induction run generalizing done rest with
  | zero => simp [fillRun]
  | succ run ih =>
    obtain ⟨old, rest, rfl⟩ := List.exists_cons_of_length_pos (by omega : 0 < rest.length)
    have hnext := ih (done ++ [byte]) (by simpa using h)
    rw [List.length_append, List.length_singleton, List.append_assoc, List.singleton_append] at hnext
    rw [fillRun, put_append, Option.bind_eq_bind, Option.bind_some, hnext]
    simp [List.replicate_succ]

theorem copyRun_eq {bytes rest : Bytes} (pre text done : Bytes) (h : bytes.length ≤ rest.length) :
    copyRun (pre ++ bytes ++ text) bytes.length pre.length done.length (done ++ rest) = some (done ++ bytes ++ rest.drop bytes.length) := by
  induction bytes generalizing pre done rest with
  | nil => simp [copyRun]
  | cons byte bytes ih =>
    obtain ⟨old, rest, rfl⟩ := List.exists_cons_of_length_pos (by rw [List.length_cons] at h; omega : 0 < rest.length)
    have hnext := ih (pre ++ [byte]) (done ++ [byte]) (by simpa using h)
    simp only [List.length_append, List.length_singleton, List.append_assoc, List.cons_append, List.nil_append] at hnext
    have hread : (pre ++ byte :: bytes ++ text)[pre.length]? = some byte := by simp
    rw [List.length_cons, copyRun, hread, Option.bind_eq_bind, Option.bind_some, put_append, Option.bind_eq_bind, Option.bind_some]
    simp only [List.append_assoc, List.cons_append, hnext, List.drop_succ_cons]

theorem sizeOfInt_eq {n : Nat} (h : n < 2 ^ 31) : sizeOfInt n = n := by
  unfold sizeOfInt
  split_ifs <;> omega

/-- A count that is not above the size of a buffer did not overflow. -/
theorem lt_of_sizeOfInt {n size : Nat} (hn : n < 2 ^ 32) (hsize : size < 2 ^ 63) (h : sizeOfInt n ≤ size) : n < 2 ^ 31 := by
  unfold sizeOfInt at h
  split_ifs at h with hlow <;> omega

/-- The loop in front of a text, behind what it has read and written. -/
def loopAt (pre text done rest : Bytes) : Option (Option Errno × Bytes × Nat) :=
  rleLoop (pre ++ text) pre.length text.length done.length done.length (done ++ rest)

/-- One round: a run that finds room is expanded. -/
theorem loopAt_run (run : Run) (pre text done : Bytes) {rest : Bytes}
    (h : sizeOfInt (done.length + run.expand.length) ≤ (done ++ rest).length → run.expand.length ≤ rest.length) :
    loopAt pre (run.code ++ text) done rest =
      if sizeOfInt (done.length + run.expand.length) > (done ++ rest).length then
        some (some .enospc, done ++ rest, sizeOfInt (done.length + run.expand.length))
      else loopAt (pre ++ run.code) text (done ++ run.expand) (rest.drop run.expand.length) := by
  unfold loopAt
  rw [rleLoop, if_pos (by rw [List.length_append]; have := run.two_le_code; omega)]
  cases run with
  | fill n byte hn =>
    have h0 : (pre ++ (Run.code (.fill n byte hn) ++ text))[pre.length]? = some (.ofNat n) := by simp [Run.code]
    have h1 : (pre ++ (Run.code (.fill n byte hn) ++ text))[pre.length + 1]? = some byte := by simp [Run.code]
    have hbyte : (UInt8.ofNat n).toNat = n := by
      rw [UInt8.toNat_ofNat']
      omega
    rw [Run.expand, List.length_replicate] at h
    rw [h0, h1]
    simp only [Option.bind_eq_bind, Option.bind_some, hbyte, Run.expand, List.length_replicate]
    rw [if_neg (by omega)]
    split_ifs with hsize
    · rfl
    · rw [fillRun_eq byte done (h (by omega)), Option.bind_some]
      simp [Run.code]
  | copy bytes hb =>
    have h0 : (pre ++ (Run.code (.copy bytes hb) ++ text))[pre.length]? = some (.ofNat (256 - bytes.length)) := by simp [Run.code]
    have hbyte : (UInt8.ofNat (256 - bytes.length)).toNat = 256 - bytes.length := by
      rw [UInt8.toNat_ofNat']
      omega
    have hexpand : Run.expand (.copy bytes hb) = bytes := rfl
    rw [hexpand] at h ⊢
    rw [h0]
    simp only [Option.bind_eq_bind, Option.bind_some, hbyte]
    rw [if_pos (by omega), Nat.sub_sub_self (by omega), if_neg (by simp [Run.code])]
    by_cases hsize : sizeOfInt (done.length + bytes.length) > (done ++ rest).length
    · rw [if_pos hsize, if_pos hsize]
      rfl
    · rw [if_neg hsize, if_neg hsize]
      have hcopy := copyRun_eq (pre ++ [.ofNat (256 - bytes.length)]) text done (h (by omega))
      simp only [Run.code, List.cons_append, List.append_assoc, List.nil_append, List.length_append, List.length_cons,
        List.length_nil] at hcopy ⊢
      rw [hcopy, Option.bind_some, Nat.add_sub_cancel, Nat.add_sub_cancel_left, Nat.add_assoc pre.length, Nat.add_comm 1]

theorem loopAt_cut {byte : UInt8} {text : Bytes} (pre done rest : Bytes) (hpos : 0 < text.length) (hbyte : 128 ≤ byte.toNat)
    (hcut : text.length < 256 - byte.toNat) :
    loopAt pre (byte :: text) done rest = some (some .enospc, done ++ rest, sizeOfInt done.length) := by
  have h0 : (pre ++ byte :: text)[pre.length]? = some byte := by simp
  rw [loopAt, rleLoop, if_pos (by rw [List.length_cons]; omega), h0]
  dsimp only [Option.bind_eq_bind, Option.bind_some]
  rw [if_pos hbyte, if_pos (by rw [List.length_cons]; omega)]
  rfl

theorem loopAt_end {text : Bytes} (pre done rest : Bytes) (h : text.length < 2) :
    loopAt pre text done rest = some (none, done ++ rest, sizeOfInt done.length) := by
  rw [loopAt, rleLoop, if_neg (by omega)]
  rfl

/-- What the loop makes of a text: an error, or the expansion of the runs of the text. -/
def Decoded (text done rest : Bytes) (r : Option Errno × Bytes × Nat) : Prop :=
  r.1 = some .enospc ∨ ∃ runs tail, text = code runs ++ tail ∧ tail.length < 2 ∧ (expand runs).length ≤ rest.length ∧
    done.length + (expand runs).length < 2 ^ 31 ∧
    r = (none, done ++ expand runs ++ rest.drop (expand runs).length, done.length + (expand runs).length)

theorem fits_of_size {run : Run} {done rest : Bytes} (hdone : done.length < 2 ^ 31) (hsize : (done ++ rest).length < 2 ^ 63)
    (h : sizeOfInt (done.length + run.expand.length) ≤ (done ++ rest).length) :
    done.length + run.expand.length < 2 ^ 31 ∧ run.expand.length ≤ rest.length := by
  have hlow := lt_of_sizeOfInt (by have := run.expand_le; omega) hsize h
  rw [sizeOfInt_eq hlow, List.length_append] at h
  exact ⟨hlow, by omega⟩

theorem loopAt_decoded (text pre done rest : Bytes) (hdone : done.length < 2 ^ 31) (hsize : (done ++ rest).length < 2 ^ 63) :
    ∃ r, loopAt pre text done rest = some r ∧ Decoded text done rest r := by
  generalize hn : text.length = n
  induction n using Nat.strongRecOn generalizing text pre done rest with
  | ind n ih =>
    by_cases hend : text.length < 2
    · rw [loopAt_end pre done rest hend, sizeOfInt_eq hdone]
      exact ⟨_, rfl, Or.inr ⟨[], text, rfl, hend, Nat.zero_le _, hdone, by simp [expand]⟩⟩
    · rcases exists_run (by omega : 2 ≤ text.length) with ⟨run, text', rfl⟩ | ⟨byte, text', rfl, hbyte, hcut⟩
      · rw [loopAt_run run pre text' done fun h => (fits_of_size hdone hsize h).2]
        split_ifs with hfull
        · exact ⟨_, rfl, Or.inl rfl⟩
        · obtain ⟨hlow, hroom⟩ := fits_of_size hdone hsize (Nat.le_of_not_gt hfull)
          have htwo := run.two_le_code
          rw [List.length_append] at hn
          have hsize' : (done ++ run.expand ++ rest.drop run.expand.length).length < 2 ^ 63 := by
            simp only [List.length_append, List.length_drop] at hsize ⊢
            omega
          obtain ⟨r, heq, hr⟩ := ih text'.length (by omega) text' (pre ++ run.code) (done ++ run.expand) (rest.drop run.expand.length)
            (by rw [List.length_append]; exact hlow) hsize' rfl
          refine ⟨r, heq, hr.imp_right ?_⟩
          rintro ⟨runs, tail, rfl, htail, hfits, hlow', rfl⟩
          rw [List.length_drop] at hfits
          rw [List.length_append] at hlow'
          have hexpand : (expand (run :: runs)).length = run.expand.length + (expand runs).length := by simp [expand]
          refine ⟨run :: runs, tail, by simp [code], htail, by omega, by omega, ?_⟩
          rw [hexpand]
          simp [expand, Nat.add_assoc]
      · rw [List.length_cons] at hend
        rw [loopAt_cut pre done rest (by omega) hbyte hcut]
        exact ⟨_, rfl, Or.inl rfl⟩

/-- Runs that find room are expanded. -/
theorem loopAt_code (runs : List Run) {tail : Bytes} (pre done rest : Bytes) (htail : tail.length < 2)
    (hroom : (expand runs).length ≤ rest.length) (hlow : done.length + (expand runs).length < 2 ^ 31) :
    loopAt pre (code runs ++ tail) done rest =
      some (none, done ++ expand runs ++ rest.drop (expand runs).length, done.length + (expand runs).length) := by
  induction runs generalizing pre done rest with
  | nil =>
    rw [code, List.flatMap_nil, List.nil_append, loopAt_end pre done rest htail, sizeOfInt_eq (by simpa [expand] using hlow)]
    simp [expand]
  | cons run runs ih =>
    have hexpand : (expand (run :: runs)).length = run.expand.length + (expand runs).length := by simp [expand]
    have hfits : sizeOfInt (done.length + run.expand.length) ≤ (done ++ rest).length := by
      rw [sizeOfInt_eq (by omega), List.length_append]
      omega
    have hnext := ih (pre ++ run.code) (done ++ run.expand) (rest.drop run.expand.length) (by rw [List.length_drop]; omega)
      (by rw [List.length_append]; omega)
    rw [code, List.flatMap_cons, List.append_assoc, loopAt_run run _ _ done fun _ => by omega, if_neg (by omega), ← code, hnext, hexpand]
    simp [expand, Nat.add_assoc]

theorem decode_eq {input : Bytes} (out : Bytes) (h : 2 ≤ input.length) : routerbootRleDecode input out = loopAt [] input [] out := by
  rw [routerbootRleDecode, if_neg (by omega)]
  rfl

theorem two_le_code {runs : List Run} (h : runs ≠ []) : 2 ≤ (code runs).length := by
  obtain ⟨run, runs, rfl⟩ := List.exists_cons_of_ne_nil h
  have hrun := run.two_le_code
  rw [code, List.flatMap_cons, List.length_append]
  omega

/-- The decoder stays within its buffers. It succeeds on the code of a run or more for which there is room and which the
    counter can count, behind which one byte may be left over, and on nothing else, and then the output is the expansion. -/
theorem rle_decodes (input out : Bytes) (hsize : out.length < 2 ^ 63) :
    (∃ r, routerbootRleDecode input out = some r) ∧
      (∀ out' n, routerbootRleDecode input out = some (none, out', n) → ∃ runs tail, runs ≠ [] ∧ input = code runs ++ tail ∧ tail.length < 2 ∧
        n = (expand runs).length ∧ n ≤ out.length ∧ n < 2 ^ 31 ∧ out' = expand runs ++ out.drop n) ∧
      ∀ runs tail, runs ≠ [] → input = code runs ++ tail → tail.length < 2 → (expand runs).length ≤ out.length →
        (expand runs).length < 2 ^ 31 →
        routerbootRleDecode input out = some (none, expand runs ++ out.drop (expand runs).length, (expand runs).length) := by
  refine ⟨?_, ?_, ?_⟩
  · by_cases hshort : input.length < 2
    · exact ⟨_, if_pos hshort⟩
    · obtain ⟨r, hr, -⟩ := loopAt_decoded input [] [] out (by simp) hsize
      exact ⟨r, by rw [decode_eq out (by omega), hr]⟩
  · intro out' n hok
    by_cases hshort : input.length < 2
    · rw [routerbootRleDecode, if_pos hshort] at hok
      cases hok
    · obtain ⟨r, hr, hdecoded⟩ := loopAt_decoded input [] [] out (by simp) hsize
      rw [decode_eq out (by omega), hr] at hok
      cases hok
      rcases hdecoded with h | ⟨runs, tail, rfl, htail, hfits, hlow, heq⟩
      · cases h
      · obtain ⟨rfl, rfl⟩ : out' = _ ∧ n = _ := by simpa using heq
        have hne : runs ≠ [] := by
          rintro rfl
          exact hshort htail
        exact ⟨runs, tail, hne, rfl, htail, rfl, hfits, by simpa using hlow, rfl⟩
  · rintro runs tail hne rfl htail hfits hlow
    have htwo := two_le_code hne
    rw [decode_eq out (by rw [List.length_append]; omega), loopAt_code runs [] [] out htail hfits (by simpa using hlow)]
    simp

/-- A run of one byte, a copy and a byte that is left over. -/
theorem rle_decodes_runs : routerbootRleDecode [3, 7, 254, 1, 2, 9] [0, 0, 0, 0, 0, 5] = some (none, [7, 7, 7, 1, 2, 5], 5) :=
  (rle_decodes [3, 7, 254, 1, 2, 9] [0, 0, 0, 0, 0, 5] (by decide)).2.2 [.fill 3 7 (by decide), .copy [1, 2] (by decide)] [9]
    (by decide) rfl (by decide) (by decide) (by decide)

/-- An `int` does not count them. -/
theorem decode_overflows {runs : List Run} {out : Bytes} (hne : runs ≠ []) (hlong : 2 ^ 31 ≤ (expand runs).length) (hsize : out.length < 2 ^ 63) :
    routerbootRleDecode (code runs) out ≠ some (none, expand runs ++ out.drop (expand runs).length, (expand runs).length) := by
  intro hok
  obtain ⟨r, hr, hdecoded⟩ := loopAt_decoded (code runs) [] [] out (by simp) hsize
  rw [decode_eq out (two_le_code hne), hr] at hok
  cases hok
  rcases hdecoded with h | ⟨runs', tail, -, -, -, hlow, heq⟩
  · cases h
  · have hn := congrArg (fun r => r.2.2) heq
    dsimp only at hn
    omega

/-- The code of no run at all is refused, and so is one of more bytes than an `int` counts. -/
theorem rle_refuses : (¬∀ (runs : List Run) (out : Bytes), (expand runs).length ≤ out.length →
      routerbootRleDecode (code runs) out = some (none, expand runs ++ out.drop (expand runs).length, (expand runs).length)) ∧
    ¬∀ (runs : List Run) (out : Bytes), runs ≠ [] → (expand runs).length ≤ out.length →
      routerbootRleDecode (code runs) out = some (none, expand runs ++ out.drop (expand runs).length, (expand runs).length) := by
  constructor
  · intro h
    cases h [] [] (Nat.le_refl _)
  · intro h
    have hlong : ∀ k, (expand (List.replicate k (.fill 64 0 (by decide)))).length = 64 * k := fun k => by
      simp [expand, Run.expand, Nat.mul_comm]
    have hnone : ∀ k, 0 < k → 2 ^ 31 ≤ 64 * k → 64 * k < 2 ^ 63 → False := fun k hpos hlow hhigh =>
      have hne : List.replicate k (Run.fill 64 0 (by decide)) ≠ [] := by
        rw [Ne, List.replicate_eq_nil_iff]
        exact Nat.ne_of_gt hpos
      have hsize : (List.replicate (64 * k) (0 : UInt8)).length = 64 * k := List.length_replicate
      decode_overflows hne (by rw [hlong]; exact hlow) (by rw [hsize]; exact hhigh) (h _ _ hne (Nat.le_of_eq (by rw [hlong, hsize])))
    exact hnone (2 ^ 25) (by decide) (by decide) (by decide)

end RainWrt.Mikrotik.RouterBoot
