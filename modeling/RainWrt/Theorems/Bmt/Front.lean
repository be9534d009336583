import RainWrt.Bmt.Front

/-! The front end of `mtk_bmt` over a chip and a table of blocks that keep the laws: a run of requests does to the logical blocks
    what it would do to a device on which nothing fails. -/

namespace RainWrt.Bmt
variable {σ : Type}

/-! ### The device that the upper layers see -/

/-- What is known of the logical blocks: of some of them all bytes, of the others nothing. -/
abbrev Known := Nat → Option (Nat → UInt8)

/-- A request of `len` bytes from `pos` on touches the block. -/
def Touches (B pos len b : Nat) : Prop := ∃ o < B, pos ≤ b * B + o ∧ b * B + o < pos + len

/-- The block is blank from the position on, as pages are written in order. -/
def BlankFrom (B pos b : Nat) (c : Nat → UInt8) : Prop := ∀ o < B, pos ≤ b * B + o → c o = 0xff

/-- The bytes of a block with some of them written. -/
def overlay (B pos : Nat) (dat : Bytes) (b : Nat) (c : Nat → UInt8) : Nat → UInt8 := fun o =>
  if pos ≤ b * B + o then dat[b * B + o - pos]?.getD (c o) else c o

/-- The blocks that an erasure covers. -/
def Covers (B addr len b : Nat) : Prop := addr - addr % B ≤ b * B ∧ b * B < addr + len

namespace Known

open Classical in
noncomputable def forget (k : Known) (p : Nat → Prop) : Known := fun b => if p b then none else k b

open Classical in
noncomputable def erase (k : Known) (p : Nat → Prop) : Known := fun b => if p b then some fun _ => 0xff else k b

open Classical in
/-- A block that is written out of order is not known any more. -/
noncomputable def write (k : Known) (B pos : Nat) (dat : Bytes) : Known := fun b => (k b).bind fun c =>
  if Touches B pos dat.length b → BlankFrom B pos b c then some (overlay B pos dat b c) else none

/-- What is known behind the answer to a request. -/
noncomputable def after (k : Known) (B : Nat) : Request → Answer → Known
  | .read .., _ => k
  | .write pos dat, answer => if answer.ret = 0 then k.write B pos dat else k.forget (Touches B pos dat.length)
  | .erase addr len, answer => if answer.ret = 0 then k.erase (Covers B addr len) else k.forget (Covers B addr len)
  | .isbad _, _ => k
  | .markbad ofs, _ => k.forget (· = ofs / B)

/-- A read that succeeds, or meets bitflips only, gives the bytes of the blocks that are known. -/
def Right (k : Known) (B : Nat) : Request → Answer → Prop
  | .read pos len, answer => 0 ≤ answer.ret ∨ mtdIsBitflip answer.ret = true →
    answer.dat.length = len ∧ ∀ i < len, ∀ c, k ((pos + i) / B) = some c → answer.dat[i]? = some (c ((pos + i) % B))
  | _, _ => True

/-- The answers are right, and behind them `k'` is known. -/
inductive Follows (B : Nat) : Known → List Request → List Answer → Known → Prop
  | nil {k} : Follows B k [] [] k
  | cons {k req answer reqs answers k'} : k.Right B req answer → Follows B (k.after B req answer) reqs answers k' →
    Follows B k (req :: reqs) (answer :: answers) k'

theorem Follows.append {B : Nat} {k k' k'' : Known} {reqs reqs' : List Request} {answers answers' : List Answer} (h : Follows B k reqs answers k')
    (h' : Follows B k' reqs' answers' k'') : Follows B k (reqs ++ reqs') (answers ++ answers') k'' := by
  induction h with
  | nil => exact h'
  | cons hright _ ih => exact .cons hright (ih h')

end Known

/-- The MTD layer lets requests through that are inside the device, and the chip writes whole pages. -/
def Request.Valid (n B pg : Nat) : Request → Prop
  | .read pos len => pos + len ≤ n * B
  | .write pos dat => pos + dat.length ≤ n * B ∧ pg ∣ pos ∧ pg ∣ dat.length
  | .erase addr len => addr + len ≤ n * B
  | .isbad ofs => ofs < n * B
  | .markbad ofs => ofs < n * B

namespace Driver
variable {d : Driver σ} {n pg : Nat} {Inv : σ → Prop} {view : σ → Nat → Nat → Option UInt8} {s s' : σ} {k : Known}

/-! ### Laws -/

/-- Nothing moves, and of all blocks but `b` nothing changes. -/
structure Apart (d : Driver σ) (n : Nat) (Inv : σ → Prop) (view : σ → Nat → Nat → Option UInt8) (s s' : σ) (b : Nat) : Prop where
  inv : Inv s'
  mapping : ∀ b' < n, d.getMappingBlock s' b' = d.getMappingBlock s b'
  view : ∀ b' < n, b' ≠ b → view s' b' = view s b'

/-- What a chip and a table of blocks promise of the first `n` logical blocks. `view` is what can be read of them. -/
structure Lawful (d : Driver σ) (n pg : Nat) (Inv : σ → Prop) (view : σ → Nat → Nat → Option UInt8) : Prop where
  small : n ≤ 2 ^ 16
  page : pg ∣ d.blkSize
  mapped : ∀ {s b}, Inv s → b < n → 0 ≤ d.getMappingBlock s b ∧ d.getMappingBlock s b < 2 ^ 16
  inj : ∀ {s b b'}, Inv s → b < n → b' < n → d.getMappingBlock s b = d.getMappingBlock s b' → b = b'
  read : ∀ {s b off len raw s'}, Inv s → b < n → 0 < len → off + len ≤ d.blkSize →
    d.readOob s ((d.getMappingBlock s b).toNat * d.blkSize + off) { len } = (raw, s') →
    d.Apart n Inv view s s' b ∧ view s' b = view s b ∧ (0 ≤ raw.ret ∨ mtdIsBitflip raw.ret = true →
      raw.dat.length = len ∧ raw.oob = [] ∧ ∀ i < len, view s b (off + i) = raw.dat[i]?)
  write : ∀ {s b off len dat raw s'}, Inv s → b < n → 0 < len → off + len ≤ d.blkSize → pg ∣ off → pg ∣ len → len ≤ dat.length →
    d.writeOob s ((d.getMappingBlock s b).toNat * d.blkSize + off) { len, datbuf := dat } = (raw, s') →
    d.Apart n Inv view s s' b ∧ (∀ o < off, view s' b o = view s b o) ∧ (0 ≤ raw.ret → raw.retlen = len ∧ raw.oobretlen = 0 ∧
      (∀ o < d.blkSize, off + len ≤ o → view s' b o = view s b o) ∧
      ((∀ i < len, view s b (off + i) = some 0xff) → ∀ i < len, view s' b (off + i) = dat[i]?))
  erase : ∀ {s b ret s'}, Inv s → b < n → d.erase s ((d.getMappingBlock s b).toNat * d.blkSize) = (ret, s') →
    d.Apart n Inv view s s' b ∧ (ret = 0 → ∀ o < d.blkSize, view s' b o = some 0xff)
  isbad : ∀ {s b ret s'}, Inv s → b < n → d.blockIsbad s ((d.getMappingBlock s b).toNat * d.blkSize) = (ret, s') →
    d.Apart n Inv view s s' b ∧ view s' b = view s b
  markbad : ∀ {s₀ s b ret s'}, Inv s₀ → b < n → Inv s → d.blockMarkbad s ((d.getMappingBlock s₀ b).toNat * d.blkSize) = (ret, s') →
    Inv s' ∧ ∀ b' < n, (d.getMappingBlock s b').toNat ≠ (d.getMappingBlock s₀ b).toNat → view s' b' = view s b'
  remap : ∀ {s b copyLen ok s'}, Inv s → b < n → copyLen ≤ d.blkSize → pg ∣ copyLen →
    d.mtkBmtRemapBlock s b (d.getMappingBlock s b) copyLen = (ok, s') →
    Inv s' ∧ (∀ b' < n, b' ≠ b → d.getMappingBlock s' b' = d.getMappingBlock s b' ∧ view s' b' = view s b') ∧
    (ok = false → view s' b = view s b) ∧
    (ok = true → (∀ o < copyLen, view s b o ≠ none) → (∀ o < copyLen, view s' b o = view s b o) ∧
      ∀ o < d.blkSize, copyLen ≤ o → view s' b o = some 0xff)

/-- The device holds what is known. -/
def Holds (d : Driver σ) (n : Nat) (view : σ → Nat → Nat → Option UInt8) (k : Known) (s : σ) : Prop :=
  ∀ b < n, ∀ c, k b = some c → ∀ o < d.blkSize, view s b o = some (c o)

theorem Holds.congr (hk : d.Holds n view k s) (h : ∀ b < n, view s' b = view s b) : d.Holds n view k s' := by
  intro b hb c hc o ho
  rw [h b hb]
  exact hk b hb c hc o ho

theorem Apart.holds {b : Nat} (h : d.Apart n Inv view s s' b) (hb : view s' b = view s b) (hk : d.Holds n view k s) : d.Holds n view k s' := by
  refine hk.congr fun b' hb' => ?_
  rcases eq_or_ne b' b with rfl | hne
  · exact hb
  · exact h.view b' hb' hne

/-- A whole block is copied: what is known stays. -/
theorem Lawful.remap_holds (h : d.Lawful n pg Inv view) (hs : Inv s) {b : Nat} (hb : b < n) (hk : d.Holds n view k s) {ok : Bool}
    (heq : d.mtkBmtRemapBlock s b (d.getMappingBlock s b) d.blkSize = (ok, s')) : Inv s' ∧ d.Holds n view k s' := by
  obtain ⟨hinv, hothers, hfalse, htrue⟩ := h.remap hs hb (Nat.le_refl _) h.page heq
  refine ⟨hinv, fun b' hb' c hc o ho => ?_⟩
  rcases eq_or_ne b' b with rfl | hne
  · cases ok with
    | false =>
      rw [hfalse rfl]
      exact hk b' hb' c hc o ho
    | true =>
      have hread : ∀ o < d.blkSize, view s b' o ≠ none := fun o ho => by simp [hk b' hb' c hc o ho]
      rw [(htrue rfl hread).1 o ho]
      exact hk b' hb' c hc o ho
  · rw [(hothers b' hb' hne).2]
    exact hk b' hb' c hc o ho

/-- The same with the mapping from before the chip was used. -/
theorem Lawful.remap_apart (h : d.Lawful n pg Inv view) {b : Nat} (hapart : d.Apart n Inv view s s' b) (hb : b < n) (hk : d.Holds n view k s') :
    Inv (d.mtkBmtRemapBlock s' b (d.getMappingBlock s b) d.blkSize).2 ∧
      d.Holds n view k (d.mtkBmtRemapBlock s' b (d.getMappingBlock s b) d.blkSize).2 := by
  rw [← hapart.mapping b hb]
  exact h.remap_holds hapart.inv hb hk rfl

/-! ### Positions -/

theorem blkSize_pos : 0 < d.blkSize := Nat.two_pow_pos _

/-- The block of a position inside the device. -/
theorem Lawful.block (h : d.Lawful n pg Inv view) {pos : Nat} (hpos : pos < n * d.blkSize) :
    pos / d.blkSize < n ∧ pos / d.blkSize % 2 ^ 32 = pos / d.blkSize ∧ pos / d.blkSize % 2 ^ 16 = pos / d.blkSize := by
  have hlt : pos / d.blkSize < n := Nat.div_lt_of_lt_mul (by rwa [Nat.mul_comm])
  have hn := h.small
  exact ⟨hlt, Nat.mod_eq_of_lt (by omega), Nat.mod_eq_of_lt (by omega)⟩

theorem div_mul_add_mod (pos B : Nat) : pos / B * B + pos % B = pos := by
  rw [Nat.mul_comm]
  exact Nat.div_add_mod pos B

/-- A position of the same block. -/
theorem div_mod_add {pos B i : Nat} (hi : pos % B + i < B) : (pos + i) / B = pos / B ∧ (pos + i) % B = pos % B + i := by
  have heq : pos + i = pos % B + i + B * (pos / B) := by
    have := Nat.div_add_mod pos B
    omega
  rw [heq, Nat.add_mul_div_left _ _ (by omega), Nat.add_mul_mod_self_left, Nat.div_eq_of_lt hi, Nat.mod_eq_of_lt hi, Nat.zero_add]
  exact ⟨rfl, rfl⟩

/-! ### Loops -/

/-- A loop ends if each round takes something off a measure, and what ends it follows from an invariant that the rounds keep. -/
theorem loop_spec {α σ : Type} {round : α → σ → Round α σ} {P : α → σ → Prop} {Q : Int → α → σ → Prop} (measure : α → Nat)
    (hdone : ∀ a s, P a s → ∀ ret a' s', round a s = .done ret a' s' → Q ret a' s')
    (hagain : ∀ a s, P a s → ∀ a' s', round a s = .again a' s' → P a' s' ∧ measure a' < measure a) (fuel : Nat) :
    ∀ {a s}, P a s → measure a < fuel → ∃ ret a' s', loop round fuel a s = some (ret, a', s') ∧ Q ret a' s' := by
  induction fuel with
  | zero => exact fun _ h => absurd h (Nat.not_lt_zero _)
  | succ fuel ih =>
    intro a s hP hfuel
    rw [loop]
    cases hround : round a s with
    | done ret a' s' => exact ⟨ret, a', s', rfl, hdone a s hP ret a' s' hround⟩
    | again a' s' =>
      obtain ⟨hP', hlt⟩ := hagain a s hP a' s' hround
      exact ih hP' (by omega)

/-! ### Reading -/

/-- The bytes that were read are those of the blocks that are known. -/
def Reads (B pos : Nat) (k : Known) (dat : Bytes) : Prop :=
  ∀ i < dat.length, ∀ c, k ((pos + i) / B) = some c → dat[i]? = some (c ((pos + i) % B))

theorem Reads.append {B pos : Nat} {dat more : Bytes} (h : Reads B pos k dat)
    (hmore : ∀ i < more.length, ∀ c, k ((pos + dat.length + i) / B) = some c → more[i]? = some (c ((pos + dat.length + i) % B))) :
    Reads B pos k (dat ++ more) := by
  intro i hi c hc
  rw [List.length_append] at hi
  rcases Nat.lt_or_ge i dat.length with hlt | hge
  · rw [List.getElem?_append_left hlt]
    exact h i hlt c hc
  · have heq : pos + dat.length + (i - dat.length) = pos + i := by omega
    have hbyte := hmore (i - dat.length) (by omega) c (by rwa [heq])
    rwa [List.getElem?_append_right hge, ← heq]

namespace Reading

variable {r : Reading}

@[simp] theorem note_pos (ret : Int) : (r.note ret).pos = r.pos := by unfold note; split <;> rfl
@[simp] theorem note_dat (ret : Int) : (r.note ret).dat = r.dat := by unfold note; split <;> rfl
@[simp] theorem note_oob (ret : Int) : (r.note ret).oob = r.oob := by unfold note; split <;> rfl
@[simp] theorem note_ooblen (ret : Int) : (r.note ret).ooblen = r.ooblen := by unfold note; split <;> rfl
@[simp] theorem note_ooboffs (ret : Int) : (r.note ret).ooboffs = r.ooboffs := by unfold note; split <;> rfl
@[simp] theorem note_retry (ret : Int) : (r.note ret).retry = r.retry := by unfold note; split <;> rfl

/-- A read that ends in an error returns it. -/
theorem out_note {ret : Int} (h : ret < 0) : (r.note ret).out = ret := by
  rw [note, if_pos h, out, if_pos h]

end Reading

/-- What holds of the variables of a read of `len` bytes from `pos` on, and of the device. -/
structure ReadInv (d : Driver σ) (n : Nat) (Inv : σ → Prop) (view : σ → Nat → Nat → Option UInt8) (k : Known) (pos len : Nat)
    (r : Reading) (s : σ) : Prop where
  inv : Inv s
  holds : d.Holds n view k s
  position : r.pos = pos + r.dat.length
  oob : r.oob = [] ∧ r.ooblen = 0 ∧ r.ooboffs = 0
  le : r.dat.length ≤ len
  retry : r.retry ≤ 10 ∧ (r.dat.length = len → r.retry = 0)
  reads : Reads d.blkSize pos k r.dat

/-- The rounds that are left to a read. -/
def readMeasure (len : Nat) (r : Reading) : Nat := 11 * (len - r.dat.length) - r.retry

section
variable {pos len curLen : Nat} {r : Reading} {p : RawRead × σ}

/-- A round that reads: the chip was asked for the next bytes of a block. -/
theorem Lawful.readEnd (h : d.Lawful n pg Inv view) (hr : d.ReadInv n Inv view k pos len r s) (hblock : r.pos / d.blkSize < n)
    (hcur : 0 < curLen ∧ r.pos % d.blkSize + curLen ≤ d.blkSize ∧ r.dat.length + curLen ≤ len)
    (hraw : d.readOob s ((d.getMappingBlock s (r.pos / d.blkSize)).toNat * d.blkSize + r.pos % d.blkSize) { len := curLen } = p) :
    match d.readEnd r (r.pos / d.blkSize) (d.getMappingBlock s (r.pos / d.blkSize)) curLen (d.blkSize - r.pos % d.blkSize) p with
    | .done ret _ s₂ => ret < 0 ∧ mtdIsBitflip ret = false ∧ Inv s₂ ∧ d.Holds n view k s₂
    | .again r' s₂ => d.ReadInv n Inv view k pos len r' s₂ ∧ readMeasure len r' < readMeasure len r := by
  obtain ⟨raw, s'⟩ := p
  obtain ⟨hapart, hview, hok⟩ := h.read hr.inv hblock hcur.1 hcur.2.1 hraw
  have hk := hapart.holds hview hr.holds
  rw [Driver.readEnd]
  by_cases hfail : raw.ret < 0 ∧ mtdIsBitflip raw.ret = false
  · rw [if_pos hfail]
    have hremap := h.remap_apart hapart hblock hk
    cases hcase : d.mtkBmtRemapBlock s' (r.pos / d.blkSize) (d.getMappingBlock s (r.pos / d.blkSize)) d.blkSize with
    | mk ok s₂ =>
      rw [hcase] at hremap
      obtain ⟨hs₂, hk₂⟩ := hremap
      rw [readRetry]
      by_cases hagain : ok = true ∧ (r.note raw.ret).retry < 10
      · rw [if_pos hagain]
        rw [Reading.note_retry] at hagain
        refine ⟨⟨hs₂, hk₂, ?_, ?_, ?_, ?_, ?_⟩, ?_⟩
        · simpa using hr.position
        · simpa using hr.oob
        · simpa using hr.le
        · simp only [Reading.note_retry, Reading.note_dat]
          omega
        · simpa using hr.reads
        · simp only [readMeasure, Reading.note_retry, Reading.note_dat]
          omega
      · rw [if_neg hagain]
        simp only [Reading.out_note hfail.1]
        exact ⟨hfail.1, hfail.2, hs₂, hk₂⟩
  · rw [if_neg hfail]
    obtain ⟨hlen, hoob, hdat⟩ := hok (by
      by_contra hbad
      simp only [not_or, Int.not_le, Bool.not_eq_true] at hbad
      exact hfail hbad)
    generalize hs₂ : (if d.bitflipThreshold ≠ 0 ∧ d.bitflipThreshold ≤ raw.ret % 2 ^ 32
      then (d.mtkBmtRemapBlock s' (r.pos / d.blkSize) (d.getMappingBlock s (r.pos / d.blkSize)) d.blkSize).2 else s') = s₂
    have hkept : Inv s₂ ∧ d.Holds n view k s₂ := by
      rw [← hs₂]
      split
      · exact h.remap_apart hapart hblock hk
      · exact ⟨hapart.inv, hk⟩
    have hpos := hr.position
    have hretry := hr.retry.1
    refine ⟨⟨hkept.1, hkept.2, ?_, ?_, ?_, ⟨Nat.zero_le _, fun _ => rfl⟩, ?_⟩, ?_⟩
    · simp only [Reading.next, Reading.note_pos, Reading.note_dat, List.length_append, hlen, if_neg (Nat.ne_of_gt hcur.1)]
      omega
    · simp [Reading.next, hr.oob, hoob]
    · simp only [Reading.next, Reading.note_dat, List.length_append, hlen]
      exact hcur.2.2
    · simp only [Reading.next, Reading.note_dat]
      refine hr.reads.append fun i hi c hc => ?_
      obtain ⟨hdiv, hmod⟩ := @div_mod_add r.pos d.blkSize i (by omega)
      rw [← hpos, hdiv] at hc
      rw [← hpos, hmod, ← hdat i (by omega)]
      exact hr.holds _ hblock c hc _ (by omega)
    · simp only [readMeasure, Reading.next, Reading.note_dat, List.length_append, hlen]
      omega

/-- A read ends, keeps what is known, and if it succeeds has read it. -/
theorem Lawful.mtkBmtRead (h : d.Lawful n pg Inv view) (hin : pos + len ≤ n * d.blkSize) (hs : Inv s) (hk : d.Holds n view k s) :
    ∃ ret r s', d.mtkBmtRead (11 * len + 1) s pos { len } = some (ret, r, s') ∧ Inv s' ∧ d.Holds n view k s' ∧
      (0 ≤ ret ∨ mtdIsBitflip ret = true → r.dat.length = len ∧ Reads d.blkSize pos k r.dat) := by
  have hround : ∀ r s, d.ReadInv n Inv view k pos len r s → match d.readRound { len } r s with
      | .done ret r' s' => Inv s' ∧ d.Holds n view k s' ∧
        (0 ≤ ret ∨ mtdIsBitflip ret = true → r'.dat.length = len ∧ Reads d.blkSize pos k r'.dat)
      | .again r' s' => d.ReadInv n Inv view k pos len r' s' ∧ readMeasure len r' < readMeasure len r := by
    intro r s hr
    have hpos := hr.position
    have hle := hr.le
    rw [readRound]
    by_cases hmore : r.dat.length < len
    · obtain ⟨hblock, hcut, -⟩ := h.block (show r.pos < n * d.blkSize by omega)
      have hoffset := Nat.mod_lt r.pos d.blkSize_pos
      rw [if_pos (Or.inl hmore), hcut, readBlock, if_neg (Int.not_lt.mpr (h.mapped hr.inv hblock).1), hr.oob.2.1, hr.oob.2.2]
      generalize hcur : min (d.blkSize - r.pos % d.blkSize) (len - r.dat.length) = curLen
      have hcase := h.readEnd hr hblock
        (show 0 < curLen ∧ r.pos % d.blkSize + curLen ≤ d.blkSize ∧ r.dat.length + curLen ≤ len by omega) rfl
      split at hcase
      · obtain ⟨hneg, hflip, hs', hk'⟩ := hcase
        refine ⟨hs', hk', fun hret => ?_⟩
        rw [hflip] at hret
        rcases hret with hret | hret
        · exact absurd hret (Int.not_le.mpr hneg)
        · cases hret
      · exact hcase
    · rw [if_neg (by simp [hmore, hr.oob])]
      exact ⟨hr.inv, hr.holds, fun _ => ⟨Nat.le_antisymm hle (Nat.not_lt.mp hmore), hr.reads⟩⟩
  refine @loop_spec _ _ _ (d.ReadInv n Inv view k pos len) _ (readMeasure len) (fun r s hr ret r' s' heq => ?_) (fun r s hr r' s' heq => ?_) _ _ _
    ⟨hs, hk, rfl, ⟨rfl, rfl, rfl⟩, Nat.zero_le _, ⟨Nat.zero_le _, fun _ => rfl⟩, fun i hi => absurd hi (Nat.not_lt_zero _)⟩
    (by simp [readMeasure])
  · simpa only [heq] using hround r s hr
  · simpa only [heq] using hround r s hr

end

/-! ### Writing -/

section
variable {B pos m l b o : Nat} {dat : Bytes} {c : Nat → UInt8}

theorem overlay_of_lt (h : b * B + o < pos) : overlay B pos dat b c o = c o := if_neg (Nat.not_le.mpr h)

/-- Bytes from a position on are not yet written. -/
theorem overlay_take_of_le (h : pos + m ≤ b * B + o) : overlay B pos (dat.take m) b c o = c o := by
  rw [overlay, if_pos (by omega), List.getElem?_eq_none (Nat.le_trans (List.length_take_le m dat) (by omega))]
  rfl

/-- Bytes elsewhere are not written. -/
theorem overlay_take_of_not (h : ¬(pos + m ≤ b * B + o ∧ b * B + o < pos + m + l)) :
    overlay B pos (dat.take (m + l)) b c o = overlay B pos (dat.take m) b c o := by
  rcases Nat.lt_or_ge (b * B + o) pos with hlt | hge
  · rw [overlay_of_lt hlt, overlay_of_lt hlt]
  · rw [overlay, overlay, if_pos hge, if_pos hge, List.getElem?_take, List.getElem?_take]
    congr 1
    by_cases hm : b * B + o - pos < m
    · rw [if_pos hm, if_pos (by omega)]
    · rw [if_neg hm, if_neg (by omega)]

/-- The bytes that are written. -/
theorem overlay_take (h : pos + m ≤ b * B + o) (h' : b * B + o < pos + m + l) (hl : m + l ≤ dat.length) :
    some (overlay B pos (dat.take (m + l)) b c o) = dat[b * B + o - pos]? := by
  rw [overlay, if_pos (by omega), List.getElem?_take, if_pos (by omega), List.getElem?_eq_getElem (by omega)]
  rfl

/-- A block that no byte is written to. -/
theorem overlay_of_not_touches (h : ¬Touches B pos dat.length b) (ho : o < B) : overlay B pos (dat.take m) b c o = c o := by
  rcases Nat.lt_or_ge (b * B + o) pos with hlt | hge
  · exact overlay_of_lt hlt
  · have hout : dat.length ≤ b * B + o - pos := by
      by_contra hlt
      exact h ⟨o, ho, hge, by omega⟩
    rw [overlay, if_pos hge, List.getElem?_eq_none (Nat.le_trans (List.length_take_le' m dat) hout)]
    rfl

/-- Two positions of a block. -/
theorem div_eq_of_between {a : Nat} (h : a ≤ b * B + o) (h' : b * B + o < a + l) (hl : a % B + l ≤ B) (ho : o < B) : a / B = b := by
  have hdiv := (@div_mod_add a B (b * B + o - a) (by omega)).1
  rw [show a + (b * B + o - a) = o + B * b by rw [Nat.mul_comm B b]; omega, Nat.add_mul_div_left _ _ (by omega), Nat.div_eq_of_lt ho,
    Nat.zero_add] at hdiv
  exact hdiv.symm

end

/-- What holds of a block while bytes are written to the device: those that are written, if they are written in order. -/
def Written (d : Driver σ) (view : σ → Nat → Nat → Option UInt8) (k : Known) (pos : Nat) (dat : Bytes) (m : Nat) (s : σ) (b : Nat) : Prop :=
  ∀ c, k b = some c → (Touches d.blkSize pos dat.length b → BlankFrom d.blkSize pos b c) →
    ∀ o < d.blkSize, view s b o = some (overlay d.blkSize pos (dat.take m) b c o)

/-- What holds of the variables of a write, and of the device. -/
structure WriteInv (d : Driver σ) (n pg : Nat) (Inv : σ → Prop) (view : σ → Nat → Nat → Option UInt8) (k : Known) (pos : Nat) (dat : Bytes)
    (w : Writing) (s : σ) : Prop where
  inv : Inv s
  written : ∀ b < n, d.Written view k pos dat w.retlen s b
  position : w.pos = pos + w.retlen
  oob : w.oobretlen = 0 ∧ w.ooblen = 0 ∧ w.ooboffs = 0
  le : w.retlen ≤ dat.length
  page : pg ∣ w.retlen
  retry : w.retry ≤ 10 ∧ (w.retlen = dat.length → w.retry = 0)

/-- The rounds that are left to a write. -/
def writeMeasure (len : Nat) (w : Writing) : Nat := 11 * (len - w.retlen) - w.retry

section
variable {pos curLen : Nat} {dat : Bytes} {w : Writing} {p : RawWrite × σ}

theorem Written.congr {m b : Nat} (h : d.Written view k pos dat m s b) (hview : view s' b = view s b) : d.Written view k pos dat m s' b := by
  intro c hc hclean o ho
  rw [hview]
  exact h c hc hclean o ho

/-- A round that writes: the chip was given the next bytes of a block. -/
theorem Lawful.writeEnd (h : d.Lawful n pg Inv view) (hw : d.WriteInv n pg Inv view k pos dat w s) (hpg : pg ∣ pos) (hblock : w.pos / d.blkSize < n)
    (hcur : 0 < curLen ∧ w.pos % d.blkSize + curLen ≤ d.blkSize ∧ w.retlen + curLen ≤ dat.length) (hpage : pg ∣ curLen)
    (hraw : d.writeOob s ((d.getMappingBlock s (w.pos / d.blkSize)).toNat * d.blkSize + w.pos % d.blkSize)
      { len := curLen, datbuf := dat.drop w.retlen } = p) :
    match d.writeEnd w (w.pos / d.blkSize) (d.getMappingBlock s (w.pos / d.blkSize)) curLen (w.pos % d.blkSize) p with
    | .done ret _ s₂ => ret < 0 ∧ Inv s₂ ∧ ∀ b < n, b ≠ w.pos / d.blkSize → d.Written view k pos dat w.retlen s₂ b
    | .again w' s₂ => d.WriteInv n pg Inv view k pos dat w' s₂ ∧ writeMeasure dat.length w' < writeMeasure dat.length w := by
  obtain ⟨raw, s'⟩ := p
  have hposition := hw.position
  have hoffset : pg ∣ w.pos % d.blkSize := (Nat.dvd_mod_iff h.page).mpr (hposition ▸ Nat.dvd_add hpg hw.page)
  obtain ⟨hapart, hbelow, hok⟩ := h.write hw.inv hblock hcur.1 hcur.2.1 hoffset hpage (by rw [List.length_drop]; omega) hraw
  have hat : w.pos / d.blkSize * d.blkSize + w.pos % d.blkSize = w.pos := div_mul_add_mod _ _
  have htouch : Touches d.blkSize pos dat.length (w.pos / d.blkSize) := ⟨w.pos % d.blkSize, by omega, by omega, by omega⟩
  have hothers : ∀ b < n, b ≠ w.pos / d.blkSize → d.Written view k pos dat w.retlen s' b := fun b hb hne =>
    (hw.written b hb).congr (hapart.view b hb hne)
  rw [Driver.writeEnd, ← hapart.mapping _ hblock]
  by_cases hfail : raw.ret < 0
  · rw [if_pos hfail]
    cases hremap : d.mtkBmtRemapBlock s' (w.pos / d.blkSize) (d.getMappingBlock s' (w.pos / d.blkSize)) (w.pos % d.blkSize) with
    | mk ok s₂ =>
      obtain ⟨hs₂, hothers₂, -, htrue⟩ := h.remap hapart.inv hblock (by omega) hoffset hremap
      have hwritten : ∀ b < n, b ≠ w.pos / d.blkSize → d.Written view k pos dat w.retlen s₂ b := fun b hb hne =>
        (hothers b hb hne).congr (hothers₂ b hb hne).2
      rw [writeRetry]
      by_cases hagain : ok = true ∧ w.retry < 10
      · rw [if_pos hagain]
        -- what was written below is copied, and the rest of the block is blank again
        have hretried : d.Written view k pos dat w.retlen s₂ (w.pos / d.blkSize) := by
          intro c hc hclean o ho
          have hold : ∀ o < w.pos % d.blkSize, view s' (w.pos / d.blkSize) o = some (overlay d.blkSize pos (dat.take w.retlen) (w.pos / d.blkSize) c o) :=
            fun o ho => (hbelow o ho).trans (hw.written _ hblock c hc hclean o (by omega))
          obtain ⟨hcopied, hblank⟩ := htrue hagain.1 fun o ho => by simp [hold o ho]
          rcases Nat.lt_or_ge o (w.pos % d.blkSize) with hlt | hge
          · rw [hcopied o hlt, hold o hlt]
          · rw [hblank o ho hge, overlay_take_of_le (by omega), hclean htouch o ho (by omega)]
        have hmore : w.retlen ≠ dat.length := by omega
        refine ⟨⟨hs₂, fun b hb => ?_, hposition, hw.oob, hw.le, hw.page, ⟨hagain.2, fun hfull => absurd hfull hmore⟩⟩, ?_⟩
        · rcases eq_or_ne b (w.pos / d.blkSize) with rfl | hne
          · exact hretried
          · exact hwritten b hb hne
        · simp only [writeMeasure]
          omega
      · rw [if_neg hagain]
        exact ⟨hfail, hs₂, hwritten⟩
  · rw [if_neg hfail]
    obtain ⟨hlen, hoob, habove, hdat⟩ := hok (Int.not_lt.mp hfail)
    have hretry := hw.retry.1
    refine ⟨⟨hapart.inv, fun b hb => ?_, ?_, ?_, ?_, ?_, ⟨Nat.zero_le _, fun _ => rfl⟩⟩, ?_⟩
    · simp only [Writing.next, hlen]
      intro c hc hclean o ho
      by_cases hin : pos + w.retlen ≤ b * d.blkSize + o ∧ b * d.blkSize + o < pos + w.retlen + curLen
      · obtain rfl : w.pos / d.blkSize = b := div_eq_of_between (by omega) (by omega) hcur.2.1 ho
        have hblank : ∀ i < curLen, view s (w.pos / d.blkSize) (w.pos % d.blkSize + i) = some 0xff := fun i hi => by
          rw [hw.written _ hblock c hc hclean _ (by omega), overlay_take_of_le (by omega), hclean htouch _ (by omega) (by omega)]
        have hbyte := hdat hblank (o - w.pos % d.blkSize) (by omega)
        rw [List.getElem?_drop] at hbyte
        rw [overlay_take hin.1 hin.2 hcur.2.2, ← show w.pos % d.blkSize + (o - w.pos % d.blkSize) = o by omega, hbyte]
        congr 1
        omega
      · rw [overlay_take_of_not hin]
        rcases eq_or_ne b (w.pos / d.blkSize) with rfl | hne
        · rw [← hw.written _ hb c hc hclean o ho]
          rcases Nat.lt_or_ge o (w.pos % d.blkSize) with hlt | hge
          · exact hbelow o hlt
          · exact habove o ho (by omega)
        · exact hothers b hb hne c hc hclean o ho
    · simp only [Writing.next, hlen, if_neg (Nat.ne_of_gt hcur.1)]
      omega
    · simp [Writing.next, hw.oob, hoob]
    · simp only [Writing.next, hlen]
      exact hcur.2.2
    · simp only [Writing.next, hlen]
      exact Nat.dvd_add hw.page hpage
    · simp only [writeMeasure, Writing.next, hlen]
      omega

/-- A write ends, and leaves the bytes in the blocks that it writes in order; one that fails leaves the other blocks alone. -/
theorem Lawful.mtkBmtWrite (h : d.Lawful n pg Inv view) (hin : pos + dat.length ≤ n * d.blkSize) (hpg : pg ∣ pos) (hpage : pg ∣ dat.length)
    (hs : Inv s) (hk : d.Holds n view k s) :
    ∃ ret w s', d.mtkBmtWrite (11 * dat.length + 1) s pos { len := dat.length, datbuf := dat } = some (ret, w, s') ∧ Inv s' ∧
      d.Holds n view (if ret = 0 then k.write d.blkSize pos dat else k.forget (Touches d.blkSize pos dat.length)) s' := by
  have hround : ∀ w s, d.WriteInv n pg Inv view k pos dat w s → match d.writeRound { len := dat.length, datbuf := dat } w s with
      | .done ret _ s' => Inv s' ∧ (ret = 0 ∧ (∀ b < n, d.Written view k pos dat dat.length s' b) ∨
        ret < 0 ∧ ∃ b₀ m, Touches d.blkSize pos dat.length b₀ ∧ ∀ b < n, b ≠ b₀ → d.Written view k pos dat m s' b)
      | .again w' s' => d.WriteInv n pg Inv view k pos dat w' s' ∧ writeMeasure dat.length w' < writeMeasure dat.length w := by
    intro w s hw
    have hposition := hw.position
    rw [writeRound]
    by_cases hmore : w.retlen < dat.length
    · obtain ⟨hblock, hcut, -⟩ := h.block (show w.pos < n * d.blkSize by omega)
      have hoffset := Nat.mod_lt w.pos d.blkSize_pos
      rw [if_pos (Or.inl hmore), hcut, writeBlock, if_neg (Int.not_lt.mpr (h.mapped hw.inv hblock).1), hw.oob.1, hw.oob.2.1, hw.oob.2.2]
      generalize hcur : min (d.blkSize - w.pos % d.blkSize) (dat.length - w.retlen) = curLen
      have hcurLen : pg ∣ curLen := by
        have hpos : pg ∣ w.pos % d.blkSize := (Nat.dvd_mod_iff h.page).mpr (hposition ▸ Nat.dvd_add hpg hw.page)
        rw [← hcur]
        rcases Nat.le_total (d.blkSize - w.pos % d.blkSize) (dat.length - w.retlen) with hle | hle
        · rw [Nat.min_eq_left hle]
          exact Nat.dvd_sub h.page hpos
        · rw [Nat.min_eq_right hle]
          exact Nat.dvd_sub hpage hw.page
      have hcase := h.writeEnd hw hpg hblock
        (show 0 < curLen ∧ w.pos % d.blkSize + curLen ≤ d.blkSize ∧ w.retlen + curLen ≤ dat.length by omega) hcurLen rfl
      simp only [List.drop_nil]
      split at hcase
      · obtain ⟨hneg, hs', hwritten⟩ := hcase
        have hat : w.pos / d.blkSize * d.blkSize + w.pos % d.blkSize = w.pos := div_mul_add_mod _ _
        exact ⟨hs', Or.inr ⟨hneg, _, _, ⟨w.pos % d.blkSize, hoffset, by omega, by omega⟩, hwritten⟩⟩
      · exact hcase
    · rw [if_neg (by simp [hmore, hw.oob])]
      have hfull : w.retlen = dat.length := Nat.le_antisymm hw.le (Nat.not_lt.mp hmore)
      exact ⟨hw.inv, Or.inl ⟨rfl, hfull ▸ hw.written⟩⟩
  have hstart : d.WriteInv n pg Inv view k pos dat { pos, ooblen := 0, ooboffs := 0 } s := by
    refine ⟨hs, fun b hb c hc _ o ho => ?_, rfl, ⟨rfl, rfl, rfl⟩, Nat.zero_le _, Nat.dvd_zero _, ⟨Nat.zero_le _, fun _ => rfl⟩⟩
    rw [hk b hb c hc o ho, List.take_zero, overlay]
    split <;> rfl
  obtain ⟨ret, w, s', heq, hs', hend⟩ := @loop_spec _ _ (d.writeRound { len := dat.length, datbuf := dat }) (d.WriteInv n pg Inv view k pos dat)
    (fun ret _ s' => Inv s' ∧ (ret = 0 ∧ (∀ b < n, d.Written view k pos dat dat.length s' b) ∨
      ret < 0 ∧ ∃ b₀ m, Touches d.blkSize pos dat.length b₀ ∧ ∀ b < n, b ≠ b₀ → d.Written view k pos dat m s' b)) (writeMeasure dat.length)
    (fun w s hw ret w' s' heq => by simpa only [heq] using hround w s hw) (fun w s hw w' s' heq => by simpa only [heq] using hround w s hw)
    (11 * dat.length + 1) _ s hstart (by simp [writeMeasure])
  refine ⟨ret, w, s', heq, hs', ?_⟩
  rcases hend with ⟨rfl, hwritten⟩ | ⟨hneg, b₀, m, htouch, hwritten⟩
  · rw [if_pos rfl]
    intro b hb c hc o ho
    rw [Known.write, Option.bind_eq_some_iff] at hc
    obtain ⟨c', hc', hif⟩ := hc
    split_ifs at hif with hclean
    obtain rfl := Option.some.inj hif
    rw [hwritten b hb c' hc' hclean o ho, List.take_length]
  · rw [if_neg (Int.ne_of_lt hneg)]
    intro b hb c hc o ho
    rw [Known.forget] at hc
    split_ifs at hc with htouches
    have hne : b ≠ b₀ := fun heq => htouches (heq ▸ htouch)
    rw [hwritten b hb hne c hc (fun htouches' => absurd htouches' htouches) o ho, overlay_of_not_touches htouches ho]

end

/-! ### Erasing -/

/-- What holds of the variables of an erasure, and of the device. -/
structure EraseInv (d : Driver σ) (n : Nat) (Inv : σ → Prop) (view : σ → Nat → Nat → Option UInt8) (k : Known) (addr len : Nat)
    (e : Erasing) (s : σ) : Prop where
  inv : Inv s
  aligned : e.startAddr % d.blkSize = 0
  start : addr - addr % d.blkSize ≤ e.startAddr
  erased : ∀ b < n, addr - addr % d.blkSize ≤ b * d.blkSize → b * d.blkSize < e.startAddr → ∀ o < d.blkSize, view s b o = some 0xff
  others : ∀ b < n, ¬Covers d.blkSize addr len b → ∀ c, k b = some c → ∀ o < d.blkSize, view s b o = some (c o)
  retry : e.retry ≤ 10 ∧ (addr + len ≤ e.startAddr → e.retry = 0 ∧ e.ret = 0)

/-- The rounds that are left to an erasure. -/
def eraseMeasure (endAddr : Nat) (e : Erasing) : Nat := 11 * (endAddr - e.startAddr) - e.retry

section
variable {addr len : Nat} {e : Erasing} {p : Int × σ}

theorem mul_div_of_mod {a B : Nat} (h : a % B = 0) : a / B * B = a := by
  have := div_mul_add_mod a B
  omega

/-- A round that erases: the chip was asked for the next block. -/
theorem Lawful.eraseEnd (h : d.Lawful n pg Inv view) (he : d.EraseInv n Inv view k addr len e s) (hmore : e.startAddr < addr + len)
    (hblock : e.startAddr / d.blkSize < n) (hraw : d.erase s ((d.getMappingBlock s (e.startAddr / d.blkSize)).toNat * d.blkSize) = p) :
    match d.eraseEnd e (e.startAddr / d.blkSize) (d.getMappingBlock s (e.startAddr / d.blkSize)) p with
    | .done ret _ s₂ => ret ≠ 0 ∧ Inv s₂ ∧ d.Holds n view (k.forget (Covers d.blkSize addr len)) s₂
    | .again e' s₂ => d.EraseInv n Inv view k addr len e' s₂ ∧ eraseMeasure (addr + len) e' < eraseMeasure (addr + len) e := by
  obtain ⟨ret, s'⟩ := p
  obtain ⟨hapart, hok⟩ := h.erase he.inv hblock hraw
  have hat : e.startAddr / d.blkSize * d.blkSize = e.startAddr := mul_div_of_mod he.aligned
  have hcover : Covers d.blkSize addr len (e.startAddr / d.blkSize) := ⟨by rw [hat]; exact he.start, by rw [hat]; exact hmore⟩
  have hretry := he.retry.1
  rw [Driver.eraseEnd, ← hapart.mapping _ hblock]
  by_cases hfail : ret ≠ 0
  · rw [if_pos hfail]
    cases hremap : d.mtkBmtRemapBlock s' (e.startAddr / d.blkSize) (d.getMappingBlock s' (e.startAddr / d.blkSize)) 0 with
    | mk ok s₂ =>
      obtain ⟨hs₂, hothers₂, -, -⟩ := h.remap hapart.inv hblock (Nat.zero_le _) (Nat.dvd_zero _) hremap
      have hview : ∀ b < n, b ≠ e.startAddr / d.blkSize → view s₂ b = view s b := fun b hb hne =>
        (hothers₂ b hb hne).2.trans (hapart.view b hb hne)
      have hothers : ∀ b < n, ¬Covers d.blkSize addr len b → ∀ c, k b = some c → ∀ o < d.blkSize, view s₂ b o = some (c o) := by
        intro b hb hcovers
        rw [hview b hb fun heq => hcovers (heq ▸ hcover)]
        exact he.others b hb hcovers
      rw [eraseRetry]
      by_cases hagain : ok = true ∧ e.retry < 10
      · rw [if_pos hagain]
        refine ⟨⟨hs₂, he.aligned, he.start, fun b hb hlow hlt => ?_, hothers, hagain.2, fun hend => absurd hmore (Nat.not_lt.mpr hend)⟩, ?_⟩
        · rw [hview b hb fun heq => by rw [heq, hat] at hlt; exact absurd hlt (Nat.lt_irrefl _)]
          exact he.erased b hb hlow hlt
        · simp only [eraseMeasure]
          omega
      · rw [if_neg hagain]
        refine ⟨hfail, hs₂, fun b hb c hc => ?_⟩
        rw [Known.forget] at hc
        split_ifs at hc with hcovers
        exact hothers b hb hcovers c hc
  · rw [if_neg hfail]
    have hpos := d.blkSize_pos
    refine ⟨⟨hapart.inv, ?_, ?_, fun b hb hlow hlt => ?_, fun b hb hcovers => ?_, Nat.zero_le _, fun _ => ⟨rfl, not_ne_iff.mp hfail⟩⟩, ?_⟩
    · simpa only [Nat.add_mod_right] using he.aligned
    · exact Nat.le_trans he.start (Nat.le_add_right _ _)
    · rcases eq_or_ne b (e.startAddr / d.blkSize) with rfl | hne
      · exact hok (not_ne_iff.mp hfail)
      · rw [hapart.view b hb hne]
        refine he.erased b hb hlow ?_
        have hlt' : b * d.blkSize < (e.startAddr / d.blkSize + 1) * d.blkSize := by
          rw [Nat.add_mul, hat, Nat.one_mul]
          exact hlt
        have hle : b ≤ e.startAddr / d.blkSize := Nat.le_of_lt_succ (Nat.lt_of_mul_lt_mul_right hlt')
        have hmul := Nat.mul_lt_mul_of_pos_right (Nat.lt_of_le_of_ne hle hne) hpos
        rwa [hat] at hmul
    · rw [hapart.view b hb fun heq => hcovers (heq ▸ hcover)]
      exact he.others b hb hcovers
    · simp only [eraseMeasure]
      omega

/-- An erasure ends, and leaves the blocks that it covers blank; one that fails leaves the others alone. -/
theorem Lawful.mtkBmtMtdErase (h : d.Lawful n pg Inv view) (hin : addr + len ≤ n * d.blkSize) (hs : Inv s) (hk : d.Holds n view k s) :
    ∃ ret e s', d.mtkBmtMtdErase (11 * (len + d.blkSize) + 1) s addr len = some (ret, e, s') ∧ Inv s' ∧
      d.Holds n view (if ret = 0 then k.erase (Covers d.blkSize addr len) else k.forget (Covers d.blkSize addr len)) s' := by
  have hmod := Nat.mod_lt addr d.blkSize_pos
  have hround : ∀ e s, d.EraseInv n Inv view k addr len e s → match d.eraseRound (addr + len) e s with
      | .done ret _ s' => Inv s' ∧
        d.Holds n view (if ret = 0 then k.erase (Covers d.blkSize addr len) else k.forget (Covers d.blkSize addr len)) s'
      | .again e' s' => d.EraseInv n Inv view k addr len e' s' ∧ eraseMeasure (addr + len) e' < eraseMeasure (addr + len) e := by
    intro e s he
    rw [eraseRound]
    by_cases hmore : e.startAddr < addr + len
    · obtain ⟨hblock, -, hcut⟩ := h.block (Nat.lt_of_lt_of_le hmore hin)
      rw [if_pos hmore, hcut, eraseBlock, if_neg (Int.not_lt.mpr (h.mapped he.inv hblock).1)]
      have hcase := h.eraseEnd he hmore hblock rfl
      split at hcase
      · obtain ⟨hne, hs', hk'⟩ := hcase
        rw [if_neg hne]
        exact ⟨hs', hk'⟩
      · exact hcase
    · have hend := Nat.not_lt.mp hmore
      rw [if_neg hmore]
      simp only [(he.retry.2 hend).2, if_true]
      refine ⟨he.inv, fun b hb c hc => ?_⟩
      rw [Known.erase] at hc
      split_ifs at hc with hcovers
      · obtain rfl := Option.some.inj hc
        exact he.erased b hb hcovers.1 (Nat.lt_of_lt_of_le hcovers.2 hend)
      · exact he.others b hb hcovers c hc
  have hstart : d.EraseInv n Inv view k addr len { startAddr := addr - addr % d.blkSize } s := by
    have hdiv : addr - addr % d.blkSize = addr / d.blkSize * d.blkSize := by
      have := div_mul_add_mod addr d.blkSize
      omega
    exact ⟨hs, by rw [hdiv]; exact Nat.mul_mod_left _ _, Nat.le_refl _, fun b _ hlow hlt => absurd hlt (Nat.not_lt.mpr hlow),
      fun b hb _ => hk b hb, Nat.zero_le _, fun _ => ⟨rfl, rfl⟩⟩
  exact @loop_spec _ _ _ (d.EraseInv n Inv view k addr len) _ (eraseMeasure (addr + len))
    (fun e s he ret e' s' heq => by simpa only [heq] using hround e s he) (fun e s he e' s' heq => by simpa only [heq] using hround e s he)
    _ _ _ hstart (by simp only [eraseMeasure]; omega)

end

/-! ### Bad blocks -/

theorem Lawful.cut (h : d.Lawful n pg Inv view) (hs : Inv s) {b : Nat} (hb : b < n) :
    (d.getMappingBlock s b % 2 ^ 16).toNat = (d.getMappingBlock s b).toNat ∧ (((d.getMappingBlock s b).toNat : Nat) : Int) = d.getMappingBlock s b := by
  obtain ⟨hnonneg, hlt⟩ := h.mapped hs hb
  rw [Int.emod_eq_of_lt hnonneg hlt]
  exact ⟨rfl, Int.toNat_of_nonneg hnonneg⟩

/-- Asking for a bad block keeps what is known, also when the block is remapped. -/
theorem Lawful.isbadLoop (h : d.Lawful n pg Inv view) {b : Nat} (hb : b < n) (retries : Nat) :
    ∀ {s : σ}, Inv s → d.Holds n view k s → Inv (d.isbadLoop b retries s).2 ∧ d.Holds n view k (d.isbadLoop b retries s).2 := by
  induction retries with
  | zero =>
    intro s hs hk
    obtain ⟨hcut, hcast⟩ := h.cut hs hb
    rw [Driver.isbadLoop, hcut, hcast]
    obtain ⟨hapart, hview⟩ := h.isbad hs hb rfl
    have hk' := hapart.holds hview hk
    split
    · exact h.remap_apart hapart hb hk'
    · exact ⟨hapart.inv, hk'⟩
  | succ retries ih =>
    intro s hs hk
    obtain ⟨hcut, hcast⟩ := h.cut hs hb
    rw [Driver.isbadLoop, hcut, hcast]
    obtain ⟨hapart, hview⟩ := h.isbad hs hb rfl
    have hk' := hapart.holds hview hk
    split
    · obtain ⟨hs₂, hk₂⟩ := h.remap_apart hapart hb hk'
      simp only
      split
      · exact ih hs₂ hk₂
      · exact ⟨hs₂, hk₂⟩
    · exact ⟨hapart.inv, hk'⟩

/-- Marking a block as bad leaves the other blocks alone. -/
theorem Lawful.mtkBmtBlockMarkbad (h : d.Lawful n pg Inv view) {ofs : Nat} (hofs : ofs < n * d.blkSize) (hs : Inv s) (hk : d.Holds n view k s) :
    Inv (d.mtkBmtBlockMarkbad s ofs).2 ∧ d.Holds n view (k.forget (· = ofs / d.blkSize)) (d.mtkBmtBlockMarkbad s ofs).2 := by
  obtain ⟨hblock, -, hcut⟩ := h.block hofs
  rw [Driver.mtkBmtBlockMarkbad, hcut, if_neg (Int.not_lt.mpr (h.mapped hs hblock).1)]
  cases hremap : d.mtkBmtRemapBlock s (ofs / d.blkSize) (d.getMappingBlock s (ofs / d.blkSize)) d.blkSize with | mk ok s₂ =>
  obtain ⟨hs₂, hothers, -, -⟩ := h.remap hs hblock (Nat.le_refl _) h.page hremap
  cases hmark : d.blockMarkbad s₂ ((d.getMappingBlock s (ofs / d.blkSize)).toNat * d.blkSize) with | mk ret s₃ =>
  obtain ⟨hs₃, hview⟩ := h.markbad hs hblock hs₂ hmark
  refine ⟨hs₃, fun b hb c hc o ho => ?_⟩
  rw [Known.forget] at hc
  split_ifs at hc with hne
  obtain ⟨hmap, hsame⟩ := hothers b hb hne
  have hfar : (d.getMappingBlock s b).toNat ≠ (d.getMappingBlock s (ofs / d.blkSize)).toNat := fun heq =>
    hne (h.inj hs hb hblock (by rw [← (h.cut hs hb).2, ← (h.cut hs hblock).2, heq]))
  rw [hview b hb (by rw [hmap]; exact hfar), hsame]
  exact hk b hb c hc o ho

/-! ### Runs -/

/-- A request ends with a right answer, and the device holds what is known behind it. -/
theorem Lawful.exec (h : d.Lawful n pg Inv view) {req : Request} (hreq : req.Valid n d.blkSize pg) (hs : Inv s) (hk : d.Holds n view k s) :
    ∃ answer s', d.exec s req = some (answer, s') ∧ Inv s' ∧ k.Right d.blkSize req answer ∧ d.Holds n view (k.after d.blkSize req answer) s' := by
  cases req with
  | read pos len =>
    obtain ⟨ret, r, s', heq, hs', hk', hreads⟩ := h.mtkBmtRead hreq hs hk
    refine ⟨{ ret, dat := r.dat }, s', ?_, hs', fun hret => ?_, hk'⟩
    · rw [Driver.exec, rounds, heq]
      rfl
    · obtain ⟨hlen, hdat⟩ := hreads hret
      exact ⟨hlen, fun i hi => hdat i (hlen ▸ hi)⟩
  | write pos dat =>
    obtain ⟨hin, hpos, hlen⟩ := hreq
    obtain ⟨ret, w, s', heq, hs', hk'⟩ := h.mtkBmtWrite hin hpos hlen hs hk
    refine ⟨{ ret }, s', ?_, hs', trivial, hk'⟩
    rw [Driver.exec, rounds, heq]
    rfl
  | erase addr len =>
    obtain ⟨ret, e, s', heq, hs', hk'⟩ := h.mtkBmtMtdErase hreq hs hk
    refine ⟨{ ret }, s', ?_, hs', trivial, hk'⟩
    rw [Driver.exec, rounds, heq]
    rfl
  | isbad ofs =>
    obtain ⟨hblock, -, hcut⟩ := h.block hreq
    have hloop := h.isbadLoop hblock 10 hs hk
    rw [← hcut] at hloop
    exact ⟨_, _, rfl, hloop.1, trivial, hloop.2⟩
  | markbad ofs =>
    obtain ⟨hs', hk'⟩ := h.mtkBmtBlockMarkbad hreq hs hk
    exact ⟨_, _, rfl, hs', trivial, hk'⟩

/-- Every run of requests ends, with right answers. -/
theorem Lawful.run (h : d.Lawful n pg Inv view) (reqs : List Request) :
    ∀ {k : Known} {s : σ}, (∀ req ∈ reqs, req.Valid n d.blkSize pg) → Inv s → d.Holds n view k s →
      ∃ answers s' k', d.run s reqs = some (answers, s') ∧ Inv s' ∧ d.Holds n view k' s' ∧ k.Follows d.blkSize reqs answers k' := by
  induction reqs with
  | nil => exact fun hs₀ hs hk => ⟨[], _, _, rfl, hs, hk, .nil⟩
  | cons req reqs ih =>
    intro k s hreqs hs hk
    obtain ⟨answer, s', heq, hs', hright, hk'⟩ := h.exec (hreqs req List.mem_cons_self) hs hk
    obtain ⟨answers, s'', k', hrun, hs'', hk'', hall⟩ := ih (fun req hreq => hreqs req (List.mem_cons_of_mem _ hreq)) hs' hk'
    refine ⟨answer :: answers, s'', k', ?_, hs'', hk'', .cons hright hall⟩
    rw [Driver.run, heq]
    simp [hrun]

end Driver

end RainWrt.Bmt
