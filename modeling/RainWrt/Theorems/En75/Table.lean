import RainWrt.En75.Remap

/-! A table that has been stored is read back as it was. -/

namespace RainWrt.En75

theorem be16At_be16 (w : UInt16) {buf : Bytes} {off : Nat} (h : ∀ j < 2, byteAt buf (off + j) = byteAt (be16 w) j) : be16At buf off = w := by
  have h0 := h 0 (by decide)
  have h1 := h 1 (by decide)
  rw [Nat.add_zero] at h0
  have hw := w.toNat_lt
  apply UInt16.toNat_inj.mp
  rw [be16At, h0, h1]
  simp only [be16, byteAt, List.getD_cons_zero, List.getD_cons_succ, UInt8.toNat_ofNat', UInt16.toNat_ofNat']
  omega

theorem byteAt_append_right (a b : Bytes) (k : Nat) : byteAt (a ++ b) (a.length + k) = byteAt b k := by
  rw [byteAt, byteAt, List.getD_append_right _ _ _ _ (Nat.le_add_right _ _), Nat.add_sub_cancel_left]

theorem byteAt_append_left {a b : Bytes} {k : Nat} (h : k < a.length) : byteAt (a ++ b) k = byteAt a k := List.getD_append _ _ _ _ h

theorem be32At_be32 (w : UInt32) {buf : Bytes} {off : Nat} (h : ∀ j < 4, byteAt buf (off + j) = byteAt (be32 w) j) : be32At buf off = w := by
  have h0 := h 0 (by decide)
  have h1 := h 1 (by decide)
  have h2 := h 2 (by decide)
  have h3 := h 3 (by decide)
  rw [Nat.add_zero] at h0
  have hw := w.toNat_lt
  apply UInt32.toNat_inj.mp
  rw [be32At, h0, h1, h2, h3]
  simp only [be32, byteAt, List.getD_cons_zero, List.getD_cons_succ, UInt8.toNat_ofNat', UInt32.toNat_ofNat']
  omega

/-- Byte `j` of entry `i`, where every entry takes `n` bytes. -/
theorem byteAt_flatMap {α : Type} {f : α → Bytes} {n : Nat} (hf : ∀ a, (f a).length = n) {l : List α} {i j : Nat} {e : α} (hi : l[i]? = some e)
    (hj : j < n) : byteAt (l.flatMap f) (n * i + j) = byteAt (f e) j := by
  induction l generalizing i with
  | nil => cases hi
  | cons a l ih =>
    rw [List.flatMap_cons]
    cases i with
    | zero =>
      rw [List.getElem?_cons_zero] at hi
      obtain rfl := Option.some.inj hi
      rw [Nat.mul_zero, Nat.zero_add]
      exact byteAt_append_left (by rw [hf]; exact hj)
    | succ i =>
      rw [List.getElem?_cons_succ] at hi
      rw [show n * (i + 1) + j = (f a).length + (n * i + j) by rw [hf, Nat.mul_succ]; omega, byteAt_append_right]
      exact ih hi

theorem length_flatMap_bytes {α : Type} {f : α → Bytes} {n : Nat} (hf : ∀ a, (f a).length = n) (l : List α) : (l.flatMap f).length = n * l.length := by
  induction l with
  | nil => rfl
  | cons e l ih => rw [List.flatMap_cons, List.length_append, ih, hf, List.length_cons, Nat.mul_succ, Nat.add_comm]

theorem bytesAt_eq {buf l : Bytes} {off : Nat} (h : ∀ j < l.length, byteAt buf (off + j) = byteAt l j) : bytesAt buf off l.length = l := by
  apply List.ext_getElem
  · simp [bytesAt]
  · intro j h1 h2
    simp only [bytesAt, List.getElem_map, List.getElem_range]
    rw [h j h2, byteAt, List.getD_eq_getElem _ _ h2]

namespace BmtTable

theorem ofBytes_congr {buf buf' : Bytes} (h : ∀ k < byteSize, byteAt buf k = byteAt buf' k) : ofBytes buf = ofBytes buf' := by
  have hb : ∀ {off count : Nat}, off + count ≤ byteSize → bytesAt buf off count = bytesAt buf' off count := by
    intro off count hle
    refine List.map_congr_left fun i hi => ?_
    have := List.mem_range.mp hi
    exact h _ (by omega)
  have hw : ∀ {off : Nat}, off + 2 ≤ byteSize → be16At buf off = be16At buf' off := by
    intro off hle
    rw [be16At, be16At, h off (by omega), h (off + 1) (by omega)]
  unfold ofBytes
  simp only [mk.injEq]
  refine ⟨hb (by decide), h 3 (by decide), h 4 (by decide), h 5 (by decide), h 6 (by decide), hb (by decide), List.map_congr_left fun i hi => ?_⟩
  have := List.mem_range.mp hi
  unfold maxBmtSize at this
  rw [hw (by unfold byteSize; omega), hw (by unfold byteSize; omega)]

theorem length_bytes (t : BmtTable) : t.bytes.length = byteSize := by
  simp only [bytes, List.length_append, t.signature_length, t.reserved_length, length_flatMap_bytes (f := BmtEntry.bytes) (n := 4) fun _ => rfl,
    t.table_length, List.length_cons, List.length_nil]
  rfl

/-- The table stands in the bytes as it is. -/
theorem ofBytes_bytes (t : BmtTable) : ofBytes t.bytes = t := by
  have hsig := t.signature_length
  have hres := t.reserved_length
  have htab := t.table_length
  have hsplit : ∀ k, byteAt t.bytes (3 + k) = byteAt ([t.version, t.badCount, t.size, t.checksum] ++ t.reserved ++ t.table.flatMap BmtEntry.bytes) k := by
    intro k
    rw [bytes, List.append_assoc, List.append_assoc, ← hsig, byteAt_append_right, List.append_assoc]
  have hreserved : ∀ k, byteAt t.bytes (7 + k) = byteAt (t.reserved ++ t.table.flatMap BmtEntry.bytes) k := by
    intro k
    rw [show 7 + k = 3 + (4 + k) by omega, hsplit, List.append_assoc]
    exact byteAt_append_right [t.version, t.badCount, t.size, t.checksum] _ k
  have htable : ∀ k, byteAt t.bytes (20 + k) = byteAt (t.table.flatMap BmtEntry.bytes) k := by
    intro k
    rw [show 20 + k = 7 + (13 + k) by omega, hreserved, ← hres, byteAt_append_right]
  have h1 : bytesAt t.bytes 0 3 = t.signature := by
    rw [← hsig]
    refine bytesAt_eq fun j hj => ?_
    rw [Nat.zero_add, bytes, List.append_assoc, List.append_assoc]
    exact byteAt_append_left hj
  have h2 : bytesAt t.bytes 7 13 = t.reserved := by
    rw [← hres]
    refine bytesAt_eq fun j hj => ?_
    rw [hreserved]
    exact byteAt_append_left hj
  have h3 : (List.range maxBmtSize).map (fun i => (⟨be16At t.bytes (20 + 4 * i), be16At t.bytes (20 + 4 * i + 2)⟩ : BmtEntry)) = t.table := by
    apply List.ext_getElem
    · simp [htab]
    · intro i hi1 hi2
      rw [List.getElem_map, List.getElem_range]
      have hget := List.getElem?_eq_getElem hi2
      have hbyte : ∀ j < 4, byteAt t.bytes (20 + 4 * i + j) = byteAt (t.table[i]).bytes j := by
        intro j hj
        rw [Nat.add_assoc, htable]
        exact byteAt_flatMap (n := 4) (fun _ => rfl) hget hj
      rw [be16At_be16 t.table[i].src fun j hj => ?_, be16At_be16 t.table[i].dst fun j hj => ?_]
      · rw [Nat.add_assoc (20 + 4 * i), hbyte (2 + j) (by omega)]
        exact byteAt_append_right (be16 t.table[i].src) (be16 t.table[i].dst) j
      · rw [hbyte j (by omega)]
        exact byteAt_append_left hj
  exact BmtTable.ext h1 (hsplit 0) (hsplit 1) (hsplit 2) (hsplit 3) h2 h3

end BmtTable

/-- A table with its checksum is recognised in any buffer that starts with it. -/
theorem tryParseBmt_of_bytes {t : BmtTable} {buf : Bytes} (hsig : t.signature = BmtTable.bmtSignature) (hsum : t.checksum = t.bmtChecksum t.size.toNat)
    (hlen : BmtTable.byteSize ≤ buf.length) (h : ∀ k < BmtTable.byteSize, byteAt buf k = byteAt t.bytes k) : tryParseBmt buf = some t := by
  have hof : BmtTable.ofBytes buf = t := (BmtTable.ofBytes_congr h).trans t.ofBytes_bytes
  unfold tryParseBmt
  rw [if_neg (by omega)]
  dsimp only
  rw [hof, if_neg (by simp [hsig]), if_neg (by simp [← hsum])]

namespace BbtTable

theorem ofBytes_congr {buf buf' : Bytes} (h : ∀ k < byteSize, byteAt buf k = byteAt buf' k) : ofBytes buf = ofBytes buf' := by
  have hb : ∀ {off count : Nat}, off + count ≤ byteSize → bytesAt buf off count = bytesAt buf' off count := by
    intro off count hle
    refine List.map_congr_left fun i hi => ?_
    have := List.mem_range.mp hi
    exact h _ (by omega)
  have hw : ∀ {off : Nat}, off + 2 ≤ byteSize → be16At buf off = be16At buf' off := by
    intro off hle
    rw [be16At, be16At, h off (by omega), h (off + 1) (by omega)]
  have hsum : be32At buf 4 = be32At buf' 4 := by
    rw [be32At, be32At, h 4 (by decide), h 5 (by decide), h 6 (by decide), h 7 (by decide)]
  unfold ofBytes
  simp only [mk.injEq]
  refine ⟨hb (by decide), hsum, h 8 (by decide), h 9 (by decide), hb (by decide), List.map_congr_left fun i hi => ?_⟩
  have := List.mem_range.mp hi
  unfold maxBbtSize at this
  exact hw (by unfold byteSize; omega)

theorem length_bytes (t : BbtTable) : t.bytes.length = byteSize := by
  simp only [bytes, List.length_append, t.signature_length, t.reserved_length, length_flatMap_bytes (f := be16) (n := 2) fun _ => rfl,
    t.table_length, List.length_cons, List.length_nil]
  rfl

/-- The table stands in the bytes as it is. -/
theorem ofBytes_bytes (t : BbtTable) : ofBytes t.bytes = t := by
  obtain ⟨sig, hsig, sum, version, size, res, hres, table, htab⟩ := t
  have hbytes : bytes ⟨sig, hsig, sum, version, size, res, hres, table, htab⟩ = sig ++ (be32 sum ++ ([version, size] ++ (res ++ table.flatMap be16))) := by
    simp only [bytes, List.append_assoc]
  rw [hbytes]
  generalize hbuf : sig ++ (be32 sum ++ ([version, size] ++ (res ++ table.flatMap be16))) = buf
  have hsum : ∀ k, byteAt buf (4 + k) = byteAt (be32 sum ++ ([version, size] ++ (res ++ table.flatMap be16))) k := by
    intro k
    rw [← hbuf, ← hsig, byteAt_append_right]
  have hhead : ∀ k, byteAt buf (8 + k) = byteAt ([version, size] ++ (res ++ table.flatMap be16)) k := by
    intro k
    rw [show 8 + k = 4 + (4 + k) by omega, hsum]
    exact byteAt_append_right (be32 sum) _ k
  have hreserved : ∀ k, byteAt buf (10 + k) = byteAt (res ++ table.flatMap be16) k := by
    intro k
    rw [show 10 + k = 8 + (2 + k) by omega, hhead]
    exact byteAt_append_right [version, size] _ k
  have htable : ∀ k, byteAt buf (12 + k) = byteAt (table.flatMap be16) k := by
    intro k
    rw [show 12 + k = 10 + (2 + k) by omega, hreserved, ← hres, byteAt_append_right]
  have h1 : bytesAt buf 0 4 = sig := by
    rw [← hsig]
    refine bytesAt_eq fun j hj => ?_
    rw [Nat.zero_add, ← hbuf]
    exact byteAt_append_left hj
  have h2 : be32At buf 4 = sum := be32At_be32 sum fun j hj => (hsum j).trans (byteAt_append_left hj)
  have h3 : bytesAt buf 10 2 = res := by
    rw [← hres]
    refine bytesAt_eq fun j hj => ?_
    rw [hreserved]
    exact byteAt_append_left hj
  have h4 : (List.range maxBbtSize).map (fun i => be16At buf (12 + 2 * i)) = table := by
    apply List.ext_getElem
    · simp [htab]
    · intro i hi1 hi2
      rw [List.getElem_map, List.getElem_range]
      refine be16At_be16 table[i] fun j hj => ?_
      rw [Nat.add_assoc, htable]
      exact byteAt_flatMap (n := 2) (fun _ => rfl) (List.getElem?_eq_getElem hi2) hj
  unfold ofBytes
  simp only [mk.injEq]
  exact ⟨h1, h2, hhead 0, hhead 1, h3, h4⟩

theorem length_blocks (t : BbtTable) : t.blocks.length = t.size.toNat := by
  have hsize := t.size.toNat_lt
  rw [blocks, List.length_take, t.table_length, maxBbtSize]
  omega

theorem blocks_withChecksum (t : BbtTable) : t.withChecksum.blocks = t.blocks := by
  change (t.blocks ++ _).take t.size.toNat = _
  rw [← length_blocks, List.take_left]

theorem blocks_sortBbt (t : BbtTable) : t.sortBbt.blocks = t.blocks.insertionSort (· ≤ ·) := by
  change (t.blocks.insertionSort (· ≤ ·) ++ _).take t.size.toNat = _
  rw [← length_blocks, ← List.length_insertionSort (· ≤ ·) t.blocks, List.take_left]

end BbtTable

/-- What a table in memory becomes when it is stored and read again, whatever stands behind it in its page: the BMT stays as it is, of
    the BBT the blocks in use come back in ascending order. A table that was never filled in is refused. -/
theorem tables_read_back :
    (∀ (t : BmtTable) (rblocks : Nat) (rest : Bytes),
      tryParseBmt ((t.clearFrom rblocks).withChecksum.bytes ++ rest) =
        (if t.signature = BmtTable.bmtSignature then some (t.clearFrom rblocks).withChecksum else none) ∧
      (t.clearFrom rblocks).withChecksum.entries = t.entries) ∧
    ∀ (t : BbtTable) (rest : Bytes),
      tryParseBbt (t.withChecksum.bytes ++ rest) = (if t.signature = BbtTable.bbtSignature then some t.withChecksum.sortBbt else none) ∧
      t.withChecksum.sortBbt.blocks = t.blocks.insertionSort (· ≤ ·) := by
  refine ⟨fun t rblocks rest => ⟨?_, ?_⟩, fun t rest => ⟨?_, ?_⟩⟩
  · have hof : BmtTable.ofBytes ((t.clearFrom rblocks).withChecksum.bytes ++ rest) = (t.clearFrom rblocks).withChecksum :=
      (BmtTable.ofBytes_congr fun k hk => byteAt_append_left (by rw [BmtTable.length_bytes]; exact hk)).trans (BmtTable.ofBytes_bytes _)
    unfold tryParseBmt
    rw [if_neg (by rw [List.length_append, BmtTable.length_bytes]; omega)]
    dsimp only
    rw [hof]
    by_cases hsig : t.signature = BmtTable.bmtSignature
    · rw [if_pos hsig, if_neg fun hne => hne hsig, if_neg fun hne => hne rfl]
    · rw [if_neg hsig]
      exact if_pos hsig
  · refine List.ext_getElem? fun i => ?_
    have htake : ∀ l : List BmtEntry, (l.take t.size.toNat)[i]? = if i < t.size.toNat then l[i]? else none := fun l => List.getElem?_take
    change ((t.clearFrom rblocks).table.take t.size.toNat)[i]? = (t.table.take t.size.toNat)[i]?
    rw [htake, htake]
    split
    · next hi => simp [BmtTable.clearFrom, List.getElem?_mapIdx, Nat.not_le.mpr hi]
    · rfl
  · have hof : BbtTable.ofBytes (t.withChecksum.bytes ++ rest) = t.withChecksum :=
      (BbtTable.ofBytes_congr fun k hk => byteAt_append_left (by rw [BbtTable.length_bytes]; exact hk)).trans (BbtTable.ofBytes_bytes _)
    unfold tryParseBbt
    rw [if_neg (by rw [List.length_append, BbtTable.length_bytes]; omega)]
    dsimp only
    rw [hof]
    by_cases hsig : t.signature = BbtTable.bbtSignature
    · rw [if_pos hsig, if_neg fun hne => hne hsig, if_neg fun hne => hne rfl]
    · rw [if_neg hsig]
      exact if_pos hsig
  · rw [BbtTable.blocks_sortBbt, BbtTable.blocks_withChecksum]

theorem tryParseBmt_eq_some {buf : Bytes} {t : BmtTable} (h : tryParseBmt buf = some t) : BmtTable.byteSize ≤ buf.length ∧ t.signature = BmtTable.bmtSignature := by
  unfold tryParseBmt at h
  split at h
  · cases h
  · rename_i hlen
    dsimp only at h
    split at h
    · cases h
    · rename_i hsig
      split at h
      · cases h
      · cases h
        exact ⟨by omega, by simpa using hsig⟩

theorem tryParseBbt_eq_some {buf : Bytes} {t : BbtTable} (h : tryParseBbt buf = some t) : BbtTable.byteSize ≤ buf.length ∧ bytesAt buf 0 4 = BbtTable.bbtSignature := by
  unfold tryParseBbt at h
  split at h
  · cases h
  · rename_i hlen
    dsimp only at h
    split at h
    · cases h
    · rename_i hsig
      exact ⟨by omega, by simpa [BbtTable.ofBytes] using hsig⟩

end RainWrt.En75
