import RainWrt.En75.Init
import RainWrt.En75.Chip

/-! The operations that the writing functions of the EN75 driver issue. -/

namespace RainWrt.En75

/-! ### Retries -/

section
variable {op : Fl Int} {P : Op → Prop}

theorem only_retry (h : Proc.Only P op) (tries : Nat) : Proc.Only P (retry op tries) := by
  induction tries with
  | zero => exact Proc.only_pure _
  | succ tries ih =>
    rcases tries with _ | tries
    · exact h
    · refine h.bind fun ret => ?_
      split
      · exact Proc.only_pure _
      · exact ih

/-- An operation is tried at least once. -/
theorem retry_ne_nil {tries : Nat} {t : Trace} {ret : Int} (hop : ∀ {t r}, Proc.Runs op t r → t ≠ []) (hpos : 0 < tries)
    (h : Proc.Runs (retry op tries) t ret) : t ≠ [] := by
  rcases tries with _ | _ | tries
  · cases hpos
  · exact hop h
  · obtain ⟨t₁, t₂, r, rfl, h1, -⟩ := Proc.runs_bind.mp h
    exact fun h0 => hop h1 (List.append_eq_nil_iff.mp h0).1

end

section
variable {ctx : Ctx} {bi : Nat} {userArea : Bool} {data oob : Bytes} {P : Op → Prop}

theorem only_wWrite (h : P (.program bi 0 data oob)) : Proc.Only P (wWrite ctx bi userArea data oob) := by
  unfold wWrite
  split
  · exact Proc.only_pure _
  · exact only_retry (Proc.only_ask.mpr h) _

theorem only_wMarkBad (h : P (.program bi 0 [] [blockWornMark, 0xff, 0xff, 0xff])) : Proc.Only P (wMarkBad ctx bi userArea) := only_wWrite h

theorem only_wEraseOne (h : P (.erase bi)) : Proc.Only P (wEraseOne ctx bi userArea) := by
  unfold wEraseOne
  split
  · exact Proc.only_pure _
  · exact only_retry (Proc.only_ask.mpr h) _

/-- A block inside the area is erased, or at least tried. -/
theorem wEraseOne_ne_nil {t : Trace} {ret : Int} (hs : ctx.blockIndexIsSane bi userArea = true) (h : Proc.Runs (wEraseOne ctx bi userArea) t ret) : t ≠ [] := by
  unfold wEraseOne at h
  rw [if_neg (by simp [hs])] at h
  refine retry_ne_nil (fun hr => ?_) (by decide) h
  rintro rfl
  cases hr

end

end RainWrt.En75

/-! Programs of the EN75 driver on a chip on which nothing fails. -/

namespace RainWrt.En75

namespace Chip

variable {c : Chip} {pgSize : Nat} {t t₁ t₂ : Trace}

@[simp] theorem run_nil (c : Chip) : c.run [] = c := rfl

@[simp] theorem run_append : c.run (t₁ ++ t₂) = (c.run t₁).run t₂ := List.foldl_append

theorem faultless_append : Faultless pgSize c (t₁ ++ t₂) ↔ Faultless pgSize c t₁ ∧ Faultless pgSize (c.run t₁) t₂ := by
  induction t₁ generalizing c with
  | nil => simp [Faultless]
  | cons e t₁ ih =>
    change _ ∧ Faultless pgSize (c.after e.1) (t₁ ++ t₂) ↔ (_ ∧ _) ∧ Faultless pgSize ((c.after e.1).run t₁) t₂
    rw [ih, and_assoc]

/-- Reading changes nothing. -/
theorem run_reads (h : ∀ e ∈ t, ∃ b p, e.1 = .read b p) : c.run t = c := by
  induction t generalizing c with
  | nil => rfl
  | cons e t ih =>
    obtain ⟨b, p, he⟩ := h e List.mem_cons_self
    have : c.after e.1 = c := by rw [he]; rfl
    change (c.after e.1).run t = c
    rw [this]
    exact ih fun e he => h e (List.mem_cons_of_mem _ he)

theorem erase_of_ne {b blk : Nat} (h : b ≠ blk) (p : Nat) : c.erase blk b p = c b p := by
  rw [erase, if_neg h]

theorem erase_self (blk p : Nat) : c.erase blk blk p = .erased := by
  rw [erase, if_pos rfl]

theorem program_of_ne {b blk : Nat} (h : b ≠ blk) (p page : Nat) (data oob : Bytes) : c.program blk page data oob b p = c b p := by
  rw [program, if_neg fun h' => h h'.1]

/-- An operation on one block leaves the others alone. -/
theorem run_of_ne {b : Nat} (h : ∀ e ∈ t, e.1 ≠ .erase b ∧ ∀ p d o, e.1 ≠ .program b p d o) (p : Nat) : c.run t b p = c b p := by
  induction t generalizing c with
  | nil => rfl
  | cons e t ih =>
    have hone : c.after e.1 b p = c b p := by
      obtain ⟨h1, h2⟩ := h e List.mem_cons_self
      rcases he : e.1 with blk | ⟨blk, page, data, oob⟩ | _ | _
      · rw [after]
        exact erase_of_ne (fun hb => h1 (by rw [he, hb])) p
      · rw [after]
        exact program_of_ne (fun hb => h2 page data oob (by rw [he, hb])) p page data oob
      · rfl
      · rfl
    change (c.after e.1).run t b p = c b p
    rw [ih fun e he => h e (List.mem_cons_of_mem _ he), hone]

theorem overlay_nil (f : Nat → UInt8) : overlay f [] = f := by
  funext i
  rw [overlay, List.getD_nil, show (0xff : UInt8) = -1 by decide, UInt8.and_neg_one]

/-- On an erased page the bytes stand as they are programmed. -/
theorem overlay_erased (bytes : Bytes) (i : Nat) : overlay (fun _ => 0xff) bytes i = bytes.getD i 0xff := by
  rw [overlay, show (0xff : UInt8) = -1 by decide, UInt8.neg_one_and]

/-! ### Crash points -/

/-- Two paths through a program that no failure tells apart are one path, as far as both go. -/
theorem prefix_of_steps {α : Type} {p : Fl α} {T : Trace} {a : α} (hr : Proc.Runs p T a) (hT : Faultless pgSize c T) (hno : ∀ e ∈ T, e.1 ≠ .overrun)
    (hs : Proc.Steps p t) (ht : Faultless pgSize c t) : t <+: T := by
  induction hr generalizing t c with
  | ret a =>
    cases hs
    exact List.prefix_rfl
  | @call q k r T a hr ih =>
    rcases hs with _ | @⟨_, _, r', t', hs⟩
    · exact List.nil_prefix
    · have heq : r' = r := by
        have h1 := hT.1
        have h2 := ht.1
        rcases q with _ | _ | _ | _
        · exact (show r' = (0 : Int) from h2).trans (show r = (0 : Int) from h1).symm
        · exact (show r' = (0 : Int) from h2).trans (show r = (0 : Int) from h1).symm
        · exact (show r' = _ from h2).trans (show r = _ from h1).symm
        · exact absurd rfl (hno _ List.mem_cons_self)
      subst heq
      exact List.cons_prefix_cons.mpr ⟨rfl, ih hT.2 (fun e he => hno e (List.mem_cons_of_mem _ he)) hs ht.2⟩

/-- A program can always be run without failures. -/
theorem exists_faultless {α : Type} (junk : Ctx) (p : Fl α) (c : Chip) (pgSize : Nat) : ∃ t a, Proc.Runs p t a ∧ Faultless pgSize c t := by
  induction p generalizing c with
  | ret a => exact ⟨[], a, .ret a, trivial⟩
  | call q k ih =>
    have hans : ∃ r : Answer q, c.Answers pgSize ⟨q, r⟩ := by
      rcases q with _ | _ | ⟨blk, page⟩ | _
      · exact ⟨(0 : Int), rfl⟩
      · exact ⟨(0 : Int), rfl⟩
      · exact ⟨.ok (c.peek pgSize blk page), rfl⟩
      · exact ⟨junk, trivial⟩
    obtain ⟨r, hr⟩ := hans
    obtain ⟨t, a, h, hf⟩ := ih r (c.after q)
    exact ⟨⟨q, r⟩ :: t, a, .call h, hr, hf⟩

end Chip

/-! ### Single functions -/

section
variable {c : Chip} {pgSize : Nat} {t : Trace} {ret : Int} {ctx : Ctx}

theorem program_faultless {b p : Nat} {d o : Bytes} (h : Proc.Runs (program b p d o) t ret) (hf : c.Faultless pgSize t) :
    t = [⟨.program b p d o, (0 : Int)⟩] ∧ ret = 0 := by
  obtain rfl := Proc.runs_ask.mp h
  obtain rfl : ret = 0 := hf.1
  exact ⟨rfl, rfl⟩

theorem erase_faultless {b : Nat} (h : Proc.Runs (erase b) t ret) (hf : c.Faultless pgSize t) : t = [⟨.erase b, (0 : Int)⟩] ∧ ret = 0 := by
  obtain rfl := Proc.runs_ask.mp h
  obtain rfl : ret = 0 := hf.1
  exact ⟨rfl, rfl⟩

/-- What succeeds at once is not tried again. -/
theorem retry_faultless {op : Fl Int} {tries : Nat} (hpos : 0 < tries) (hop : ∀ t r, Proc.Runs op t r → c.Faultless pgSize t → r = 0)
    (h : Proc.Runs (retry op tries) t ret) (hf : c.Faultless pgSize t) : Proc.Runs op t 0 ∧ ret = 0 := by
  rcases tries with _ | _ | tries
  · cases hpos
  · obtain rfl := hop t ret h hf
    exact ⟨h, rfl⟩
  · obtain ⟨t₁, t₂, r, rfl, h1, k⟩ := Proc.runs_bind.mp h
    obtain rfl := hop t₁ r h1 (Chip.faultless_append.mp hf).1
    rw [if_pos rfl] at k
    obtain ⟨rfl, rfl⟩ := Proc.runs_pure.mp k
    rw [List.append_nil]
    exact ⟨h1, rfl⟩

theorem wWrite_faultless {bi : Nat} {userArea : Bool} {d o : Bytes} (hs : ctx.blockIndexIsSane bi userArea = true)
    (h : Proc.Runs (wWrite ctx bi userArea d o) t ret) (hf : c.Faultless pgSize t) : t = [⟨.program bi 0 d o, (0 : Int)⟩] ∧ ret = 0 := by
  unfold wWrite at h
  rw [if_neg (by simp [hs])] at h
  obtain ⟨h1, rfl⟩ := retry_faultless (by decide) (fun t r hr hf => (program_faultless hr hf).2) h hf
  exact ⟨(program_faultless h1 hf).1, rfl⟩

theorem wEraseOne_faultless {bi : Nat} {userArea : Bool} (hs : ctx.blockIndexIsSane bi userArea = true)
    (h : Proc.Runs (wEraseOne ctx bi userArea) t ret) (hf : c.Faultless pgSize t) : t = [⟨.erase bi, (0 : Int)⟩] ∧ ret = 0 := by
  unfold wEraseOne at h
  rw [if_neg (by simp [hs])] at h
  obtain ⟨h1, rfl⟩ := retry_faultless (by decide) (fun t r hr hf => (erase_faultless hr hf).2) h hf
  exact ⟨(erase_faultless h1 hf).1, rfl⟩

end

end RainWrt.En75
