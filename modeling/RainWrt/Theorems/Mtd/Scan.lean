import RainWrt.Mtd.Scan

/-! The scan of an eraseblock ends inside the block where its nodes lead from one to the next, and finds the right directory where
    no other entry of the root has a name that begins it. -/

namespace RainWrt.Mtd

variable {big : Bool} {buf dir : Bytes} {ofs : Nat} {s t : Scan}

/-! ### Names -/

/-- The name of `nsize` bytes at `pos` is that of the directory, or a byte in the block makes the difference. -/
def NameOk (buf : Bytes) (pos : Nat) (dir : Bytes) (nsize : Nat) : Prop :=
  ∃ k ≤ dir.length, (∀ i < k, buf[pos + i]? = dir[i]?) ∧
    ((k = nsize ∧ k = dir.length) ∨ (k < nsize ∧ ∃ c, buf[pos + k]? = some c ∧ c ≠ dir[k]?.getD 0))

/-- A first byte that is the same can be taken away. -/
theorem nameOk_cons {pos n : Nat} {d : UInt8} {ds : Bytes} (h : buf[pos]? = some d) :
    NameOk buf pos (d :: ds) (n + 1) ↔ NameOk buf (pos + 1) ds n := by
  constructor
  · rintro ⟨k, hk, hsame, hend⟩
    cases k with
    | zero =>
      rcases hend with ⟨h0, -⟩ | ⟨-, c, hc, hne⟩
      · cases h0
      · rw [Nat.add_zero, h] at hc
        cases hc
        exact absurd rfl hne
    | succ k =>
      refine ⟨k, by simpa using hk, fun i hi => ?_, ?_⟩
      · have := hsame (i + 1) (by omega)
        rwa [← Nat.add_assoc, Nat.add_right_comm, List.getElem?_cons_succ] at this
      · rcases hend with ⟨hn, hlen⟩ | ⟨hn, c, hc, hne⟩
        · exact Or.inl ⟨by omega, by simpa using hlen⟩
        · rw [← Nat.add_assoc, Nat.add_right_comm] at hc
          exact Or.inr ⟨by omega, c, hc, by simpa using hne⟩
  · rintro ⟨k, hk, hsame, hend⟩
    refine ⟨k + 1, by simpa using hk, fun i hi => ?_, ?_⟩
    · cases i with
      | zero => simpa using h
      | succ i =>
        rw [← Nat.add_assoc, Nat.add_right_comm, List.getElem?_cons_succ]
        exact hsame i (by omega)
    · rcases hend with ⟨hn, hlen⟩ | ⟨hn, c, hc, hne⟩
      · exact Or.inl ⟨by omega, by simpa using hlen⟩
      · exact Or.inr ⟨by omega, c, by rwa [← Nat.add_assoc, Nat.add_right_comm], by simpa using hne⟩

/-- The comparison is right exactly for such names. -/
theorem strncmp_iff : ∀ {n pos : Nat} {dir : Bytes}, 0 ∉ dir →
    ((strncmp buf pos dir n = some false ∨ (strncmp buf pos dir n = some true ∧ n = dir.length)) ↔ NameOk buf pos dir n)
  | 0, pos, dir, _ => by
    simp only [strncmp, Option.some.injEq, Bool.true_eq_false, false_or, true_and]
    constructor
    · exact fun h => ⟨0, Nat.zero_le _, fun i hi => by omega, Or.inl ⟨rfl, h⟩⟩
    · rintro ⟨k, -, -, ⟨rfl, h⟩ | ⟨h, -⟩⟩
      · exact h
      · omega
  | n + 1, pos, dir, hdir => by
    unfold strncmp
    cases hc : buf[pos]? with
    | none =>
      simp only [reduceCtorEq, false_and, or_self, false_iff]
      rintro ⟨k, hk, hsame, hend⟩
      cases k with
      | zero =>
        rcases hend with ⟨h0, -⟩ | ⟨-, c, hc', -⟩
        · cases h0
        · rw [Nat.add_zero, hc] at hc'
          cases hc'
      | succ k =>
        have := hsame 0 (by omega)
        rw [Nat.add_zero, hc] at this
        have hlen := List.getElem?_eq_none_iff.mp this.symm
        omega
    | some c =>
      cases dir with
      | nil =>
        by_cases h0 : c = 0
        · subst h0
          simp only [List.head?_nil, Option.getD_none, ne_eq, not_true_eq_false, if_false, if_true, Option.some.injEq,
            Bool.true_eq_false, List.length_nil, Nat.add_one_ne_zero, and_false, or_self, false_iff]
          rintro ⟨k, hk, -, ⟨hn, -⟩ | ⟨-, c, hc', hne⟩⟩
          · simp at hk
            omega
          · obtain rfl : k = 0 := by simpa using hk
            rw [Nat.add_zero, hc] at hc'
            cases hc'
            exact hne rfl
        · simp only [List.head?_nil, Option.getD_none, ne_eq, h0, not_false_eq_true, if_true, true_or, true_iff]
          exact ⟨0, Nat.le_refl _, fun i hi => by omega, Or.inr ⟨by omega, c, hc, h0⟩⟩
      | cons d ds =>
        rw [List.mem_cons, not_or] at hdir
        by_cases hcd : c = d
        · subst hcd
          have hc0 : c ≠ 0 := Ne.symm hdir.1
          simp only [List.head?_cons, Option.getD_some, ne_eq, not_true_eq_false, if_false, hc0, List.tail_cons, List.length_cons,
            Nat.add_right_cancel_iff]
          rw [strncmp_iff hdir.2, nameOk_cons hc]
        · simp only [List.head?_cons, Option.getD_some, ne_eq, hcd, not_false_eq_true, if_true, true_or, true_iff]
          exact ⟨0, Nat.zero_le _, fun i hi => by omega, Or.inr ⟨by omega, c, hc, by simpa using hcd⟩⟩

theorem strncmp_same {pos n : Nat} {c : UInt8} {ds : Bytes} (hc : buf[pos]? = some c) (h0 : c ≠ 0) :
    strncmp buf pos (c :: ds) (n + 1) = strncmp buf (pos + 1) ds n := by simp [strncmp, hc, h0]

theorem strncmp_ne {pos n : Nat} {c d : UInt8} {ds : Bytes} (hc : buf[pos]? = some c) (h : c ≠ d) :
    strncmp buf pos (d :: ds) (n + 1) = some false := by simp [strncmp, hc, h]

/-- A name of the right length that compares equal is the name. -/
theorem name_of_strncmp : ∀ {dir : Bytes} {pos : Nat}, 0 ∉ dir → strncmp buf pos dir dir.length = some true →
    ∀ i < dir.length, buf[pos + i]? = dir[i]?
  | [], _, _, _, i, hi => by simp at hi
  | d :: ds, pos, hdir, h, i, hi => by
    rw [List.mem_cons, not_or] at hdir
    rw [List.length_cons] at h
    cases hc : buf[pos]? with
    | none => simp [strncmp, hc] at h
    | some c =>
      by_cases hcd : c = d
      · subst hcd
        rw [strncmp_same hc (Ne.symm hdir.1)] at h
        cases i with
        | zero => simpa using hc
        | succ i =>
          have hrest := name_of_strncmp hdir.2 h i (by simpa using hi)
          rw [List.getElem?_cons_succ, ← hrest]
          congr 1
          omega
      · rw [strncmp_ne hc hcd] at h
        cases h

/-! ### Entries -/

theorem field_eq_some {size v : Nat} : field big buf ofs size = some v ↔
    ofs + size ≤ buf.length ∧ number big (slice buf ofs size) = v := by
  unfold field
  split_ifs with h
  · simp [h]
  · simp [h]

/-- A number of the entry at `ofs`. -/
def pino (big : Bool) (buf : Bytes) (ofs : Nat) : Nat := number big (slice buf (ofs + 12) 4)
def nsize (big : Bool) (buf : Bytes) (ofs : Nat) : Nat := number big (slice buf (ofs + 28) 1)

/-- An entry of the root whose name is that of the directory in full. -/
def IsDir (big : Bool) (buf dir : Bytes) (ofs : Nat) : Prop :=
  pino big buf ofs = 1 ∧ nsize big buf ofs = dir.length ∧ ∀ i < dir.length, buf[ofs + 40 + i]? = dir[i]?

/-- An entry whose fields are in the block and whose name is that of the directory or differs in the block, where it matters. -/
def DirentOk (big : Bool) (buf dir : Bytes) (ofs : Nat) : Prop :=
  ofs + 24 ≤ buf.length ∧
    (dir ≠ [] → pino big buf ofs = 1 → ofs + 29 ≤ buf.length ∧ NameOk buf (ofs + 40) dir (nsize big buf ofs))

theorem lookAt_of_direntOk (hdir : 0 ∉ dir) (h : DirentOk big buf dir ofs) :
    ∃ t, lookAt big buf dir ofs s = some t ∧ ∀ o ∈ t.sets, o ∈ s.sets ∨ IsDir big buf dir o := by
  obtain ⟨hlen, hname⟩ := h
  unfold lookAt
  by_cases hd : dir = []
  · exact ⟨s, if_pos hd, fun o ho => Or.inl ho⟩
  · rw [if_neg hd]
    have hpino : field big buf (ofs + 12) 4 = some (pino big buf ofs) := field_eq_some.mpr ⟨by omega, rfl⟩
    by_cases h1 : pino big buf ofs = 1
    · obtain ⟨hlen', hname⟩ := hname hd h1
      have hnsize : field big buf (ofs + 28) 1 = some (nsize big buf ofs) := field_eq_some.mpr ⟨by omega, rfl⟩
      have hino : field big buf (ofs + 20) 4 = some (number big (slice buf (ofs + 20) 4)) := field_eq_some.mpr ⟨by omega, rfl⟩
      rcases (strncmp_iff hdir).mpr hname with hcmp | ⟨hcmp, hn⟩
      · exact ⟨s, by simp [hpino, h1, hnsize, hcmp], fun o ho => Or.inl ho⟩
      · refine ⟨_, by simp [hpino, h1, hnsize, hcmp, hino]; rfl, fun o ho => ?_⟩
        rcases List.mem_append.mp ho with ho | ho
        · exact Or.inl ho
        · rw [List.mem_singleton.mp ho]
          rw [hn] at hcmp
          exact Or.inr ⟨h1, hn, name_of_strncmp hdir hcmp⟩
    · exact ⟨s, by simp [hpino, h1], fun o ho => Or.inl ho⟩

/-- What an entry that was read without a fault, and taken only if it is the directory, must be. -/
theorem direntOk_of_lookAt (hdir : 0 ∉ dir) (h : lookAt big buf dir ofs s = some t) (hlen : ofs + 24 ≤ buf.length)
    (ht : ∀ o ∈ t.sets, IsDir big buf dir o) : DirentOk big buf dir ofs := by
  refine ⟨hlen, fun hd h1 => ?_⟩
  unfold lookAt at h
  have hpino : field big buf (ofs + 12) 4 = some (pino big buf ofs) := field_eq_some.mpr ⟨by omega, rfl⟩
  rw [if_neg hd] at h
  simp only [hpino, h1, Option.bind_eq_bind, Option.bind_some, if_true] at h
  cases hnsize : field big buf (ofs + 28) 1 with
  | none => simp [hnsize] at h
  | some n =>
    obtain ⟨hlen', rfl⟩ := field_eq_some.mp hnsize
    refine ⟨by omega, (strncmp_iff hdir).mp ?_⟩
    simp only [hnsize, Option.bind_some] at h
    cases hcmp : strncmp buf (ofs + 40) dir (number big (slice buf (ofs + 28) 1)) with
    | none => simp [hcmp] at h
    | some e =>
      cases e with
      | false => exact Or.inl hcmp
      | true =>
        refine Or.inr ⟨hcmp, ?_⟩
        have hino : field big buf (ofs + 20) 4 = some (number big (slice buf (ofs + 20) 4)) := field_eq_some.mpr ⟨by omega, rfl⟩
        simp only [hcmp, hino, Option.bind_some, if_true, Option.pure_def, Option.some.injEq] at h
        subst h
        exact (ht ofs (by simp)).2.1

theorem sets_of_lookAt (h : lookAt big buf dir ofs s = some t) {o : Nat} (ho : o ∈ s.sets) : o ∈ t.sets := by
  unfold lookAt at h
  split_ifs at h with hd
  · cases h
    exact ho
  · simp only [Option.bind_eq_bind, Option.bind_eq_some_iff] at h
    obtain ⟨p, -, h⟩ := h
    split_ifs at h
    · simp only [Option.bind_eq_some_iff] at h
      obtain ⟨n, -, e, -, h⟩ := h
      split_ifs at h
      · obtain ⟨i, -, h⟩ := Option.bind_eq_some_iff.mp h
        cases h
        exact List.mem_append_left _ ho
      · cases h
        exact ho
    · cases h
      exact ho

theorem store_eq_some : store big buf ofs s = some t ↔ ofs + 24 ≤ buf.length ∧
    t = { s with lastIno := max s.lastIno (number big (slice buf (ofs + 20) 4)),
                 lastVersion := max s.lastVersion (number big (slice buf (ofs + 16) 4)) } := by
  simp only [store, Option.bind_eq_bind, Option.bind_eq_some_iff, field_eq_some, Option.pure_def, Option.some.injEq]
  constructor
  · rintro ⟨i, ⟨h, rfl⟩, v, ⟨-, rfl⟩, rfl⟩
    exact ⟨by omega, rfl⟩
  · rintro ⟨h, rfl⟩
    exact ⟨_, ⟨by omega, rfl⟩, _, ⟨by omega, rfl⟩, rfl⟩

/-! ### Blocks -/

/-- From `ofs` on, one node leads to the next: up to the end, or to something without the magic. Behind a magic there is a header,
    and entries are in order. -/
inductive Sound (big : Bool) (buf dir : Bytes) : Nat → Prop
  | stop {ofs : Nat} (h : buf.length ≤ ofs) : Sound big buf dir ofs
  | foreign {ofs : Nat} (h : ofs + 2 ≤ buf.length) (hmagic : number big (slice buf ofs 2) ≠ jffs2MagicBitmask) : Sound big buf dir ofs
  | node {ofs : Nat} (h : ofs + 8 ≤ buf.length) (hmagic : number big (slice buf ofs 2) = jffs2MagicBitmask)
      (hdirent : number big (slice buf (ofs + 2) 2) = jffs2NodetypeDirent → DirentOk big buf dir ofs)
      (hnext : Sound big buf dir ((ofs + PAD (number big (slice buf (ofs + 4) 4))) % 2 ^ 32)) : Sound big buf dir ofs

/-- The scan ends without a read outside of the block, and `target_ino` is only set from entries that are the directory. -/
def Meets (big : Bool) (buf dir : Bytes) (ofs : Nat) (s : Scan) : Prop :=
  ∃ rounds t, parseJffs2data big buf dir rounds ofs s = some (some t) ∧ ∀ o ∈ t.sets, IsDir big buf dir o

theorem parseNode_of_magic (h : ofs + 8 ≤ buf.length) (hmagic : number big (slice buf ofs 2) = jffs2MagicBitmask) :
    parseNode big buf dir ofs s =
      (if number big (slice buf (ofs + 2) 2) = jffs2NodetypeDirent then lookAt big buf dir ofs s >>= store big buf ofs
        else some s).map fun t => some ((ofs + PAD (number big (slice buf (ofs + 4) 4))) % 2 ^ 32, t) := by
  have h0 : field big buf ofs 2 = some jffs2MagicBitmask := field_eq_some.mpr ⟨by omega, hmagic⟩
  have h2 : field big buf (ofs + 2) 2 = some (number big (slice buf (ofs + 2) 2)) := field_eq_some.mpr ⟨by omega, rfl⟩
  have h4 : field big buf (ofs + 4) 4 = some (number big (slice buf (ofs + 4) 4)) := field_eq_some.mpr ⟨by omega, rfl⟩
  rw [parseNode, if_neg (by omega)]
  simp only [h0, h2, h4, Option.bind_eq_bind, Option.bind_some, ne_eq, not_true_eq_false, if_false, Option.pure_def]
  split_ifs
  · cases (lookAt big buf dir ofs s).bind (store big buf ofs) <;> rfl
  · rfl

theorem meets_of_sound (hdir : 0 ∉ dir) (h : Sound big buf dir ofs) : ∀ {s : Scan}, (∀ o ∈ s.sets, IsDir big buf dir o) →
    Meets big buf dir ofs s := by
  induction h with
  | @stop ofs h =>
    intro s hs
    refine ⟨1, s, ?_, hs⟩
    rw [parseJffs2data, parseNode, if_pos h]
  | @foreign ofs h hmagic =>
    intro s hs
    refine ⟨1, s, ?_, hs⟩
    have h0 : field big buf ofs 2 = some (number big (slice buf ofs 2)) := field_eq_some.mpr ⟨h, rfl⟩
    rw [parseJffs2data, parseNode, if_neg (by omega)]
    simp [h0, hmagic]
  | @node ofs h hmagic hdirent _ ih =>
    intro s hs
    have hstep : ∃ t, (if number big (slice buf (ofs + 2) 2) = jffs2NodetypeDirent then
        lookAt big buf dir ofs s >>= store big buf ofs else some s) = some t ∧ ∀ o ∈ t.sets, IsDir big buf dir o := by
      split_ifs with htype
      · obtain ⟨t, ht, hsets⟩ := lookAt_of_direntOk (s := s) hdir (hdirent htype)
        refine ⟨_, by rw [ht]; exact store_eq_some.mpr ⟨(hdirent htype).1, rfl⟩, fun o ho => ?_⟩
        exact (hsets o ho).elim (hs o) id
      · exact ⟨s, rfl, hs⟩
    obtain ⟨t, ht, hsets⟩ := hstep
    obtain ⟨rounds, u, hu, husets⟩ := ih hsets
    refine ⟨rounds + 1, u, ?_, husets⟩
    rw [parseJffs2data, parseNode_of_magic h hmagic, ht]
    exact hu

theorem sound_of_parse (hdir : 0 ∉ dir) : ∀ {rounds ofs : Nat} {s t : Scan},
    parseJffs2data big buf dir rounds ofs s = some (some t) → (∀ o ∈ t.sets, IsDir big buf dir o) →
    Sound big buf dir ofs ∧ ∀ o ∈ s.sets, o ∈ t.sets
  | 0, _, _, _, h, _ => by cases h
  | rounds + 1, ofs, s, t, h, ht => by
    rw [parseJffs2data] at h
    by_cases hend : buf.length ≤ ofs
    · rw [parseNode, if_pos hend] at h
      cases h
      exact ⟨.stop hend, fun o ho => ho⟩
    · cases hmagic : field big buf ofs 2 with
      | none => simp [parseNode, hend, hmagic] at h
      | some magic =>
        obtain ⟨h2, hnum⟩ := field_eq_some.mp hmagic
        by_cases hm : magic = jffs2MagicBitmask
        · cases htot : field big buf (ofs + 4) 4 with
          | none => simp [parseNode, hend, hmagic, hm, htot] at h
          | some totlen =>
            obtain ⟨h8, rfl⟩ := field_eq_some.mp htot
            rw [parseNode_of_magic (by omega) (hnum.trans hm)] at h
            by_cases htype : number big (slice buf (ofs + 2) 2) = jffs2NodetypeDirent
            · rw [if_pos htype] at h
              cases hlook : lookAt big buf dir ofs s with
              | none => simp [hlook] at h
              | some u =>
                simp only [hlook, Option.bind_eq_bind, Option.bind_some] at h
                cases hstore : store big buf ofs u with
                | none => simp [hstore] at h
                | some v =>
                  obtain ⟨h24, rfl⟩ := store_eq_some.mp hstore
                  simp only [hstore, Option.map_some] at h
                  obtain ⟨hnext, hsets⟩ := sound_of_parse hdir h ht
                  have hu : ∀ o ∈ u.sets, IsDir big buf dir o := fun o ho => ht o (hsets o ho)
                  exact ⟨.node (by omega) (hnum.trans hm) (fun _ => direntOk_of_lookAt hdir hlook h24 hu) hnext,
                    fun o ho => hsets o (sets_of_lookAt hlook ho)⟩
            · rw [if_neg htype] at h
              simp only [Option.map_some] at h
              obtain ⟨hnext, hsets⟩ := sound_of_parse hdir h ht
              exact ⟨.node (by omega) (hnum.trans hm) (fun h => absurd h htype) hnext, hsets⟩
        · simp only [parseNode, hend, hmagic, hm, if_false, Option.bind_eq_bind, Option.bind_some, ne_eq, not_false_eq_true, if_true,
            Option.pure_def] at h
          cases h
          exact ⟨.foreign h2 (by rwa [hnum]), fun o ho => ho⟩

/-- The scan of a block is as it should be exactly where the block is sound. -/
theorem meets_iff_sound (hdir : 0 ∉ dir) (hs : s.sets = []) : Meets big buf dir 0 s ↔ Sound big buf dir 0 := by
  constructor
  · rintro ⟨rounds, t, h, ht⟩
    exact (sound_of_parse hdir h ht).1
  · intro h
    exact meets_of_sound hdir h (by simp [hs])

/-- The marker of a clean block of 64 KiB, and the entry of the directory `etc` behind it. -/
def marked : Bytes :=
  [0x85, 0x19, 0x03, 0x20, 0x0c, 0, 0, 0, 0xb1, 0xb0, 0x1e, 0xe4] ++
    ([0x85, 0x19, 0x01, 0xe0, 43, 0, 0, 0, 0, 0, 0, 0, 1, 0, 0, 0, 1, 0, 0, 0, 2, 0, 0, 0, 0, 0, 0, 0, 3, 4, 0, 0, 0, 0, 0, 0,
      0, 0, 0, 0, 101, 116, 99, 0xff] ++ List.replicate 65480 0xff)

theorem length_marked : marked.length = 65536 := by
  rw [marked, List.length_append, List.length_append, List.length_replicate]
  rfl

theorem sound_marked : Sound false marked [101, 116, 99] 0 := by
  have hend : ∀ n ≤ 56, n ≤ marked.length := fun n hn => hn.trans (by rw [length_marked]; decide)
  have hname : NameOk marked (12 + 40) [101, 116, 99] 3 :=
    ⟨3, Nat.le_refl 3, fun i hi => by interval_cases i <;> rfl, Or.inl ⟨rfl, rfl⟩⟩
  have hfree : Sound false marked [101, 116, 99] 56 := .foreign (by rw [length_marked]; decide) (by decide)
  have hentry : Sound false marked [101, 116, 99] 12 :=
    .node (hend _ (by decide)) (by decide) (fun _ => ⟨hend _ (by decide), fun _ _ => ⟨hend _ (by decide), hname⟩⟩) hfree
  exact .node (hend _ (by decide)) (by decide) (fun h => absurd h (by decide)) hentry

theorem meets_iff_sound_marked : Meets false marked [101, 116, 99] 0 ⟨0, 0, 0, []⟩ ∧ IsDir false marked [101, 116, 99] 12 :=
  ⟨(meets_iff_sound (by decide) rfl).mpr sound_marked, by decide, by decide, fun i hi => by
    have hi : i < 3 := hi
    interval_cases i <;> rfl⟩

/-- A block of 64 KiB that begins with a node of length zero. -/
def stuck : Bytes := [0x85, 0x19, 0x03, 0x20, 0, 0, 0, 0, 0, 0, 0, 0] ++ List.replicate 65524 0xff

/-- A node of length zero is followed by itself. -/
theorem endless : ¬Meets false stuck [101, 116, 99] 0 ⟨0, 0, 0, []⟩ := by
  rintro ⟨rounds, t, h, -⟩
  have hlength : 0 + 8 ≤ stuck.length := by
    rw [stuck, List.length_append, List.length_replicate]
    decide
  have hnode : parseNode false stuck [101, 116, 99] 0 ⟨0, 0, 0, []⟩ = some (some (0, ⟨0, 0, 0, []⟩)) := by
    rw [parseNode_of_magic hlength (by decide), if_neg (by decide)]
    decide
  have hstay : ∀ n, parseJffs2data false stuck [101, 116, 99] n 0 ⟨0, 0, 0, []⟩ = some none := by
    intro n
    induction n with
    | zero => rfl
    | succ n ih =>
      rw [parseJffs2data, hnode]
      exact ih
  rw [hstay] at h
  cases h

end RainWrt.Mtd
