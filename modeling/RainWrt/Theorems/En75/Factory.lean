import RainWrt.Theorems.En75.Chip

/-! Which blocks of the user area are touched when the list of factory bad blocks is set. -/

namespace RainWrt.En75

/-- What `r_scan_reserve` leaves: there is a user area and a reserve area. -/
structure Ctx.Scanned (ctx : Ctx) : Prop where
  user : 0 < ctx.reserveAreaBegin
  reserve : ctx.reserveAreaBegin < ctx.totalBlks

theorem scanFrom_le {cursor good : Nat} {ctx ctx' : Ctx} {t : Trace} {stop : Nat} (h : Proc.Runs (scanFrom cursor good ctx) t (ctx', stop)) :
    stop ≤ cursor ∧ ctx'.totalBlks = ctx.totalBlks := by
  induction cursor generalizing good ctx t with
  | zero =>
    obtain ⟨-, h0⟩ := Proc.runs_pure.mp h
    cases h0
    exact ⟨Nat.le_refl _, rfl⟩
  | succ cursor ih =>
    obtain ⟨t₁, t₂, r, rfl, -, k⟩ := Proc.runs_bind.mp h
    have hstore : ((classify r).record ctx (cursor + 1)).totalBlks = ctx.totalBlks := by
      cases classify r <;> rfl
    dsimp only at k
    split at k
    · obtain ⟨-, h0⟩ := Proc.runs_pure.mp k
      cases h0
      exact ⟨Nat.le_refl _, hstore⟩
    · obtain ⟨hle, htot⟩ := ih k
      exact ⟨by omega, htot.trans hstore⟩

/-! ### The three loops -/

section
variable {ctx ctx' : Ctx} {blocks : List UInt32} {t : Trace}

/-- The old list. -/
def Ctx.factoryBad (ctx : Ctx) : List Nat := ctx.bbt.blocks.map UInt16.toNat

/-- At the round for entry `i` the size is `i + 1`, so the entry is cleared before it is read again: it is
    always block 0 that is erased. -/
theorem takeOut_eq {b : BbtTable} {i : Nat} (hs : b.size.toNat = i + 1) :
    (b.takeOut i).size.toNat = i ∧ (b.takeOut i).table = b.table.set i 0 := by
  have hlt := b.size.toNat_lt
  have hsize : (b.size - 1).toNat = i := by
    rw [UInt8.toNat_sub_of_le _ _ (by rw [UInt8.le_iff_toNat_le, hs]; simp), hs]
    simp
  refine ⟨hsize, ?_⟩
  unfold BbtTable.takeOut
  dsimp only
  rw [hsize, List.set_set]

/-- What the loop that clears the list does. -/
structure Cleared (ctx ctx' : Ctx) (blocks : List UInt32) (i : Nat) (t : Trace) : Prop where
  /-- Nothing but block 0 is erased. -/
  ops : ∀ e ∈ t, e.1 = .erase 0
  /-- It is erased once an entry is not to stay. -/
  nonempty : t ≠ [] ↔ ∃ b ∈ ctx.bbt.table.take i, ∀ x ∈ blocks, x.toNat ≠ b.toNat
  reserve : ctx'.reserveAreaBegin = ctx.reserveAreaBegin

theorem clearBbt_cleared {i : Nat} (hscan : ctx.Scanned) (hs : ctx.bbt.size.toNat = i) (h : Proc.Runs (clearBbt blocks i ctx) t ctx') : Cleared ctx ctx' blocks i t := by
  induction i generalizing ctx t with
  | zero =>
    obtain ⟨rfl, rfl⟩ := Proc.runs_pure.mp h
    exact ⟨by simp, by simp, rfl⟩
  | succ i ih =>
    obtain ⟨hsize, htable⟩ := takeOut_eq hs
    have hlen : i < ctx.bbt.table.length := by
      have := ctx.bbt.size.toNat_lt
      rw [ctx.bbt.table_length, maxBbtSize]
      omega
    have htake : (ctx.bbt.takeOut i).table.take i = ctx.bbt.table.take i := by
      rw [htable, List.take_set_of_le (Nat.le_refl i)]
    have hzero : ((ctx.bbt.takeOut i).table.getD i 0).toNat = 0 := by
      rw [htable, List.getD_eq_getElem?_getD, List.getElem?_set_self hlen]
      rfl
    have hsucc : ctx.bbt.table.take (i + 1) = ctx.bbt.table.take i ++ [ctx.bbt.table.getD i 0] := by
      rw [List.take_add_one, List.getD_eq_getElem?_getD, List.getElem?_eq_getElem hlen]
      rfl
    have hscan' : Ctx.Scanned { ctx with bbt := ctx.bbt.takeOut i } := ⟨hscan.user, hscan.reserve⟩
    unfold clearBbt at h
    dsimp only at h
    split at h
    · rename_i hstay
      have hc := ih hscan' hsize h
      refine ⟨hc.ops, ?_, hc.reserve⟩
      rw [hc.nonempty, htake, hsucc]
      have hno : ¬∀ x ∈ blocks, x.toNat ≠ (ctx.bbt.table.getD i 0).toNat := by
        obtain ⟨x, hx, he⟩ := List.any_eq_true.mp hstay
        exact fun hall => hall x hx (by simpa using he)
      simp only [List.mem_append, List.mem_singleton, or_and_right, exists_or, exists_eq_left, hno, or_false]
    · rename_i hstay
      obtain ⟨t₁, t₂, ret, rfl, h1, k⟩ := Proc.runs_bind.mp h
      have hc := ih hscan' hsize k
      rw [hzero] at h1
      have hops : ∀ e ∈ t₁, e.1 = .erase 0 := Proc.Only.runs (@only_wEraseOne _ _ _ (· = .erase 0) rfl) h1
      have hsane : Ctx.blockIndexIsSane { ctx with bbt := ctx.bbt.takeOut i } 0 true = true := by
        have h1 := hscan.user
        have h2 := hscan.reserve
        unfold Ctx.blockIndexIsSane
        rw [if_neg (by simp only; omega), if_neg (by simp only [Bool.true_and, ge_iff_le, decide_eq_true_eq]; omega), if_neg (by simp)]
      have hne := wEraseOne_ne_nil hsane h1
      refine ⟨fun e he => ?_, ?_, hc.reserve⟩
      · rcases List.mem_append.mp he with he | he
        · exact hops e he
        · exact hc.ops e he
      · refine ⟨fun _ => ⟨ctx.bbt.table.getD i 0, ?_, ?_⟩, fun _ h0 => hne (List.append_eq_nil_iff.mp h0).1⟩
        · rw [hsucc]
          exact List.mem_append_right _ (List.mem_singleton.mpr rfl)
        · intro x hx he
          exact hstay (List.any_eq_true.mpr ⟨x, hx, by simpa using he⟩)

theorem wUnmapBlock_noErase {block : Nat} {r : Ctx × Int} (h : Proc.Runs (wUnmapBlock ctx block .noErase) t r) :
    t = [] ∧ r.1.reserveAreaBegin = ctx.reserveAreaBegin := by
  unfold wUnmapBlock at h
  split at h
  · obtain ⟨rfl, rfl⟩ := Proc.runs_pure.mp h
    exact ⟨rfl, rfl⟩
  · split at h
    · obtain ⟨rfl, rfl⟩ := Proc.runs_pure.mp h
      exact ⟨rfl, rfl⟩
    · rw [if_pos rfl] at h
      obtain ⟨rfl, rfl⟩ := Proc.runs_pure.mp h
      exact ⟨rfl, rfl⟩

theorem unmapFactory_silent (h : Proc.Runs (unmapFactory blocks ctx) t ctx') : t = [] ∧ ctx'.reserveAreaBegin = ctx.reserveAreaBegin := by
  induction blocks generalizing ctx t with
  | nil =>
    obtain ⟨rfl, rfl⟩ := Proc.runs_pure.mp h
    exact ⟨rfl, rfl⟩
  | cons block blocks ih =>
    unfold unmapFactory at h
    split at h
    · exact ih h
    · split at h
      · exact ih h
      · obtain ⟨t₁, t₂, ⟨ctx₁, ret⟩, rfl, h1, k⟩ := Proc.runs_bind.mp h
        obtain ⟨rfl, hr⟩ := wUnmapBlock_noErase h1
        obtain ⟨rfl, hr'⟩ := ih k
        exact ⟨rfl, hr'.trans hr⟩

theorem only_addFactory (blocks : List UInt32) (ctx : Ctx) :
    Proc.Only (fun q => ∃ b ∈ blocks, q = .program b.toNat 0 [] [blockWornMark, 0xff, 0xff, 0xff]) (addFactory blocks ctx) := by
  induction blocks generalizing ctx with
  | nil => exact Proc.only_pure _
  | cons block blocks ih =>
    have hrest : ∀ ctx, Proc.Only (fun q => ∃ b ∈ block :: blocks, q = .program b.toNat 0 [] [blockWornMark, 0xff, 0xff, 0xff]) (addFactory blocks ctx) :=
      fun ctx => (ih ctx).mono fun q ⟨b, hb, hq⟩ => ⟨b, List.mem_cons_of_mem _ hb, hq⟩
    unfold addFactory
    split
    · exact hrest _
    · exact (only_wMarkBad ⟨block, List.mem_cons_self, rfl⟩).bind fun _ => hrest _

end

/-! ### The whole function -/

/-- A block of the user area is erased only if it leaves the list, and written only if it is on the new one. -/
structure TouchesNamed (ctx : Ctx) (blocks : List UInt32) (t : Trace) : Prop where
  erased : ∀ b < ctx.reserveAreaBegin, ∀ r, (⟨.erase b, r⟩ : Proc.Event Op Answer) ∈ t → b ∈ ctx.factoryBad ∧ ∀ x ∈ blocks, x.toNat ≠ b
  written : ∀ b < ctx.reserveAreaBegin, ∀ page data oob r, (⟨.program b page data oob, r⟩ : Proc.Event Op Answer) ∈ t → ∃ x ∈ blocks, x.toNat = b

/-- The call is refused, no block leaves the list, or block 0 is among those that do. -/
def EraseMeant (ctx : Ctx) (blocks : List UInt32) : Prop :=
  ctx.bbt.version = 0 ∨ ctx.bmt.version = 0 ∨ blocks.length > maxBbtSize ∨ (∀ b ∈ ctx.factoryBad, ∃ x ∈ blocks, x.toNat = b) ∨
    (0 ∈ ctx.factoryBad ∧ ∀ x ∈ blocks, x.toNat ≠ 0)

/-- Setting the list touches only the named blocks exactly if the erasure, which always hits block 0, is
    meant for it or does not happen. -/
theorem wFactoryBadblocks_touchesNamed_iff {ctx : Ctx} {blocks : List UInt32} {t : Trace} {r : Ctx × Int} (hscan : ctx.Scanned)
    (hcan : ctx.canWriteFactoryBbt = true) (huser : ∀ x ∈ blocks, x.toNat < ctx.reserveAreaBegin)
    (h : Proc.Runs (wFactoryBadblocks ctx blocks) t r) : TouchesNamed ctx blocks t ↔ EraseMeant ctx blocks := by
  have hnil : TouchesNamed ctx blocks [] := ⟨fun _ _ _ he => (nomatch he), fun _ _ _ _ _ _ he => (nomatch he)⟩
  unfold wFactoryBadblocks at h
  by_cases hv : ctx.bbt.version = 0
  · rw [if_pos hv] at h
    obtain ⟨rfl, -⟩ := Proc.runs_pure.mp h
    exact ⟨fun _ => .inl hv, fun _ => hnil⟩
  rw [if_neg hv] at h
  by_cases hv' : ctx.bmt.version = 0
  · rw [if_pos hv'] at h
    obtain ⟨rfl, -⟩ := Proc.runs_pure.mp h
    exact ⟨fun _ => .inr (.inl hv'), fun _ => hnil⟩
  rw [if_neg hv', if_neg (by simpa using huser)] at h
  by_cases hl : blocks.length > maxBbtSize
  · rw [if_pos hl] at h
    obtain ⟨rfl, -⟩ := Proc.runs_pure.mp h
    exact ⟨fun _ => .inr (.inr (.inl hl)), fun _ => hnil⟩
  rw [if_neg hl, if_neg (by simp [hcan])] at h
  obtain ⟨t₀, t₁, ctx₁, rfl, hset, k₀⟩ := Proc.runs_bind.mp h
  obtain ⟨rfl, -⟩ := Proc.runs_pure.mp k₀
  obtain ⟨tc, u₁, ctx₂, rfl, hclear, k₁⟩ := Proc.runs_bind.mp hset
  obtain ⟨tu, u₂, ctx₃, rfl, hunmap, k₂⟩ := Proc.runs_bind.mp k₁
  obtain ⟨ta, u₃, ctx₄, rfl, hadd, k₃⟩ := Proc.runs_bind.mp k₂
  obtain ⟨rfl, -⟩ := Proc.runs_pure.mp k₃
  obtain ⟨rfl, -⟩ := unmapFactory_silent hunmap
  have hc := clearBbt_cleared hscan rfl hclear
  have ha := (only_addFactory blocks ctx₃).runs hadd
  simp only [List.nil_append, List.append_nil]
  have hmem : ∀ {b : Nat}, (∃ r, (⟨.erase b, r⟩ : Proc.Event Op Answer) ∈ tc ++ ta) ↔ b = 0 ∧ tc ≠ [] := by
    intro b
    constructor
    · rintro ⟨r, he⟩
      rcases List.mem_append.mp he with he | he
      · have := hc.ops _ he
        exact ⟨by simpa using this, List.ne_nil_of_mem he⟩
      · obtain ⟨x, -, hq⟩ := ha _ he
        cases hq
    · rintro ⟨rfl, hne⟩
      obtain ⟨⟨q, r⟩, he⟩ := List.exists_mem_of_ne_nil _ hne
      obtain rfl : q = .erase 0 := hc.ops _ he
      exact ⟨r, List.mem_append_left _ he⟩
  have hleave : tc ≠ [] ↔ ¬∀ b ∈ ctx.factoryBad, ∃ x ∈ blocks, x.toNat = b := by
    rw [hc.nonempty]
    simp only [Ctx.factoryBad, List.mem_map, forall_exists_index, and_imp, forall_apply_eq_imp_iff₂, not_forall, not_exists, not_and, exists_prop]
    rfl
  constructor
  · intro ht
    by_cases hall : ∀ b ∈ ctx.factoryBad, ∃ x ∈ blocks, x.toNat = b
    · exact .inr (.inr (.inr (.inl hall)))
    · obtain ⟨r, he⟩ := hmem.mpr ⟨rfl, hleave.mpr hall⟩
      exact .inr (.inr (.inr (.inr (ht.erased 0 hscan.user r he))))
  · intro hcond
    refine ⟨fun b hb r he => ?_, fun b hb page data oob r he => ?_⟩
    · obtain ⟨rfl, hne⟩ := hmem.mp ⟨r, he⟩
      rcases hcond with h0 | h0 | h0 | h0 | h0
      · exact absurd h0 hv
      · exact absurd h0 hv'
      · exact absurd h0 hl
      · exact absurd h0 (hleave.mp hne)
      · exact h0
    · rcases List.mem_append.mp he with he | he
      · have := hc.ops _ he
        cases this
      · obtain ⟨x, hx, hq⟩ := ha _ he
        cases hq
        exact ⟨x, hx, rfl⟩

/-- A chip whose list of factory bad blocks holds one block. -/
def oneBadCtx (block : UInt16) : Ctx where
  totalBlks := 100
  pgSize := 2048
  blkPages := 64
  bbt := { BbtTable.fresh with table := block :: List.replicate 999 0, size := 1, table_length := by rw [List.length_cons, List.length_replicate]; rfl }
  bmt := BmtTable.blank.reset
  reserveAreaBegin := 92
  canWriteFactoryBbt := true

/-- No operation fails. -/
def allWell (junk : Ctx) : (q : Op) → Answer q
  | .erase _ => 0
  | .program _ _ _ _ => 0
  | .read _ _ => .ok ([], [])
  | .overrun => junk

theorem wFactoryBadblocks_touchesNamed_iff_same : ∃ t r, Proc.Runs (wFactoryBadblocks (oneBadCtx 5) [5]) t r ∧
    (TouchesNamed (oneBadCtx 5) [5] t ↔ EraseMeant (oneBadCtx 5) [5]) := by
  have huser : ∀ x ∈ [(5 : UInt32)], x.toNat < (oneBadCtx 5).reserveAreaBegin := by
    intro x hx
    rw [List.mem_singleton.mp hx]
    decide
  exact ⟨_, _, Proc.runs_follow (allWell (oneBadCtx 5)) _,
    wFactoryBadblocks_touchesNamed_iff ⟨by decide, by decide⟩ rfl huser (Proc.runs_follow _ _)⟩

/-- Block 5 leaves the list, and block 0, which never was on it, is erased. -/
theorem wFactoryBadblocks_erases_zero : ∃ t r, Proc.Runs (wFactoryBadblocks (oneBadCtx 5) []) t r ∧ ¬TouchesNamed (oneBadCtx 5) [] t := by
  refine ⟨_, _, Proc.runs_follow (allWell (oneBadCtx 5)) _, fun h => ?_⟩
  have hnot : (oneBadCtx 5).factoryBad = [5] := by decide
  have := (h.erased 0 (by decide) 0 (Proc.mem_follow.mpr ⟨by decide, rfl⟩)).1
  rw [hnot] at this
  revert this
  decide

end RainWrt.En75
