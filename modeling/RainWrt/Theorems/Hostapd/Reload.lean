import RainWrt.Hostapd.Reload

/-! The addresses that a reload gives to the BSSes of a configuration are different ones. -/

namespace RainWrt.Hostapd

variable {env : ReloadEnv} {bss bss' : List Bss} {list list' : MacaddrList} {kept : Nat → Option Nat} {i j k n t : Nat}

/-! ### Addresses -/

/-- The address of a BSS, and whether it is a default one. -/
def addr (bss : List Bss) (i : Nat) : Option String := (bss[i]?).bind (·.bssid)
def isDefault (bss : List Bss) (i : Nat) : Bool := (bss[i]?).any (·.defaultMacaddr)

@[simp] theorem length_setBssid (bss : List Bss) (i : Nat) (x : Option String) : (setBssid bss i x).length = bss.length :=
  List.length_modify ..

theorem getElem?_setBssid (bss : List Bss) (i j : Nat) (x : Option String) :
    (setBssid bss i x)[j]? = if i = j then (bss[j]?).map fun b => { b with bssid := x } else bss[j]? := by
  rw [setBssid, List.getElem?_modify]
  split_ifs
  · rfl
  · cases bss[j]? <;> rfl

theorem addr_setBssid_self {x : Option String} (h : i < bss.length) : addr (setBssid bss i x) i = x := by
  rw [addr, getElem?_setBssid, if_pos rfl, List.getElem?_eq_getElem h]
  rfl

theorem addr_setBssid_ne {x : Option String} (h : j ≠ i) : addr (setBssid bss i x) j = addr bss j := by
  rw [addr, getElem?_setBssid, if_neg (Ne.symm h), addr]

@[simp] theorem isDefault_setBssid (bss : List Bss) (i j : Nat) (x : Option String) :
    isDefault (setBssid bss i x) j = isDefault bss j := by
  unfold isDefault
  rw [getElem?_setBssid]
  split_ifs
  · cases bss[j]? <;> rfl
  · rfl

theorem nodup_of_addr (h : ∀ a < bss.length, ∀ c < bss.length, a ≠ c → addr bss a ≠ addr bss c) :
    (bss.map (·.bssid)).Nodup := by
  rw [List.Nodup, List.pairwise_iff_getElem]
  intro a c ha hc hac
  rw [List.length_map] at ha hc
  have := h a ha c hc (Nat.ne_of_lt hac)
  simpa [addr, List.getElem?_eq_getElem ha, List.getElem?_eq_getElem hc] using this

theorem addr_of_nodup (h : (bss.map (·.bssid)).Nodup) (hi : i < bss.length) (hj : j < bss.length)
    (heq : addr bss i = addr bss j) : i = j := by
  rw [List.Nodup, List.pairwise_iff_getElem] at h
  by_contra hne
  have hat : ∀ {a : Nat} (ha : a < bss.length), addr bss a = bss[a].bssid := fun ha => by
    simp [addr, List.getElem?_eq_getElem ha]
  rw [hat hi, hat hj] at heq
  rcases Nat.lt_or_gt_of_ne hne with hlt | hlt
  · exact h i j (by simpa using hi) (by simpa using hj) hlt (by simpa using heq)
  · exact h j i (by simpa using hj) (by simpa using hi) hlt (by simpa using heq.symm)

theorem macaddrNext_fresh {mac : String} (h : macaddrNext env list = some mac) : list (some mac) = none := by
  unfold macaddrNext at h
  generalize 32 = tries at h
  generalize 0 = id at h
  induction tries generalizing id with
  | zero => cases h
  | succ tries ih =>
    unfold macaddrNextFrom at h
    cases hgen : env.macaddrGenerate id with
    | none => simp [hgen] at h
    | some m =>
      simp only [hgen] at h
      split_ifs at h with hfree
      · cases h
        exact hfree
      · exact ih _ h

/-! ### Step 6 -/

/-- A BSS has an address of its own behind `k` rounds: it is kept, or static, or its turn is over. -/
def Settled (kept : Nat → Option Nat) (bss : List Bss) (k j : Nat) : Prop :=
  (kept j).isSome ∨ isDefault bss j = false ∨ j < k

/-- A static BSS whose turn comes finds that its address has been given to another one. -/
def Conflict (kept : Nat → Option Nat) (bss : List Bss) (list : MacaddrList) (k a c : Nat) : Prop :=
  k ≤ a ∧ kept a = none ∧ isDefault bss a = false ∧ list (addr bss a) = some (c : Int)

/-- Before round `k`: settled addresses are in the list, and equal ones only where a conflict is to come. -/
structure Assigned (kept : Nat → Option Nat) (k : Nat) (bss : List Bss) (list : MacaddrList) : Prop where
  listed : ∀ j < bss.length, Settled kept bss k j → list (addr bss j) ≠ none
  apart : ∀ a < bss.length, ∀ c < bss.length, a ≠ c → Settled kept bss k a → Settled kept bss k c → addr bss a = addr bss c →
    Conflict kept bss list k a c ∨ Conflict kept bss list k c a
  range : ∀ a < bss.length, k ≤ a → kept a = none → isDefault bss a = false → ∃ v < bss.length, list (addr bss a) = some (v : Int)
  other : ∀ a < bss.length, k ≤ a → kept a = none → isDefault bss a = true → list (addr bss a) ≠ some (a : Int)

namespace Assigned

/-- A round that leaves everything as it is. -/
theorem skip (h : Assigned kept k bss list)
    (hk : (kept k).isSome ∨ isDefault bss k = false ∧ list (addr bss k) = some (k : Int)) : Assigned kept (k + 1) bss list := by
  have hsettled : ∀ j, Settled kept bss (k + 1) j → Settled kept bss k j := by
    rintro j (hj | hj | hj)
    · exact Or.inl hj
    · exact Or.inr (Or.inl hj)
    · rcases Nat.lt_or_ge j k with hlt | hge
      · exact Or.inr (Or.inr hlt)
      · obtain rfl : j = k := by omega
        exact hk.imp id fun h => Or.inl h.1
  have hconf : ∀ a c, a ≠ c → Conflict kept bss list k a c → Conflict kept bss list (k + 1) a c := by
    rintro a c hac ⟨hle, hkept, hstatic, hlist⟩
    refine ⟨?_, hkept, hstatic, hlist⟩
    rcases Nat.lt_or_ge k a with hlt | hge
    · exact hlt
    · obtain rfl : a = k := by omega
      rcases hk with hk | ⟨-, hk⟩
      · simp [hkept] at hk
      · rw [hk] at hlist
        have := Option.some.inj hlist
        omega
  exact ⟨fun j hj hs => h.listed j hj (hsettled j hs),
    fun a ha c hc hac hsa hsc heq => (h.apart a ha c hc hac (hsettled a hsa) (hsettled c hsc) heq).imp (hconf a c hac)
      (hconf c a hac.symm),
    fun a ha hle => h.range a ha (by omega), fun a ha hle => h.other a ha (by omega)⟩

/-- A round that gives a new address to `t`: the BSS itself, or the one that has its address. -/
theorem replace (h : Assigned kept k bss list) {x : Option String} (ht : t < bss.length) (hfree : list' x = none)
    (hkeep : ∀ y (c : Nat), list y = some (c : Int) → list' y = some (c : Int)) (hsome : ∀ y, list y ≠ none → list' y ≠ none)
    (hnew : ∀ y (a : Nat), list' y = some (a : Int) → list y = some (a : Int) ∨ a = k)
    (hk : t = k ∨ isDefault bss k = false ∧ list (addr bss k) = some (t : Int)) (hkn : k < bss.length) :
    Assigned kept (k + 1) (setBssid bss t x) (Function.update list' x (some (k : Int))) := by
  have hsettled : ∀ j, j ≠ t → Settled kept (setBssid bss t x) (k + 1) j → Settled kept bss k j := by
    rintro j hjt (hj | hj | hj)
    · exact Or.inl hj
    · exact Or.inr (Or.inl (by simpa using hj))
    · rcases Nat.lt_or_ge j k with hlt | hge
      · exact Or.inr (Or.inr hlt)
      · obtain rfl : j = k := by omega
        rcases hk with rfl | hk
        · exact absurd rfl hjt
        · exact Or.inr (Or.inl hk.1)
  -- addresses that are in the list are not the new one
  have hne : ∀ y, list y ≠ none → y ≠ x := fun y hy hyx => hsome y hy (hyx ▸ hfree)
  have hupdate : ∀ y, list y ≠ none → Function.update list' x (some (k : Int)) y = list' y := fun y hy =>
    Function.update_of_ne (hne y hy) ..
  have hconf : ∀ a c, a ≠ t → c ≠ t → Conflict kept bss list k a c →
      Conflict kept (setBssid bss t x) (Function.update list' x (some (k : Int))) (k + 1) a c := by
    rintro a c hat hct ⟨hle, hkept, hstatic, hlist⟩
    refine ⟨?_, hkept, by simpa using hstatic, ?_⟩
    · rcases Nat.lt_or_ge k a with hlt | hge
      · exact hlt
      · obtain rfl : a = k := by omega
        rcases hk with rfl | hk
        · exact absurd rfl hat
        · rw [hk.2] at hlist
          have := Option.some.inj hlist
          omega
    · rw [addr_setBssid_ne hat, hupdate _ (by simp [hlist])]
      exact hkeep _ c hlist
  refine ⟨fun j hj hs => ?_, fun a ha c hc hac hsa hsc heq => ?_, fun a ha hle hkept hstatic => ?_, fun a ha hle hkept hdef => ?_⟩
  · rw [length_setBssid] at hj
    by_cases hjt : j = t
    · rw [hjt, addr_setBssid_self ht, Function.update_self]
      simp
    · have hlisted := h.listed j hj (hsettled j hjt hs)
      rw [addr_setBssid_ne hjt, hupdate _ hlisted]
      exact hsome _ hlisted
  · rw [length_setBssid] at ha hc
    by_cases hat : a = t
    · have hct : c ≠ t := fun h => hac (hat.trans h.symm)
      rw [hat, addr_setBssid_self ht, addr_setBssid_ne hct] at heq
      exact absurd heq.symm (hne _ (h.listed c hc (hsettled c hct hsc)))
    · by_cases hct : c = t
      · rw [hct, addr_setBssid_self ht, addr_setBssid_ne hat] at heq
        exact absurd heq (hne _ (h.listed a ha (hsettled a hat hsa)))
      · rw [addr_setBssid_ne hat, addr_setBssid_ne hct] at heq
        exact (h.apart a ha c hc hac (hsettled a hat hsa) (hsettled c hct hsc) heq).imp (hconf a c hat hct) (hconf c a hct hat)
  · rw [length_setBssid] at ha ⊢
    by_cases hat : a = t
    · exact ⟨k, hkn, by rw [hat, addr_setBssid_self ht, Function.update_self]⟩
    · obtain ⟨v, hv, hlist⟩ := h.range a ha (by omega) hkept (by simpa using hstatic)
      exact ⟨v, hv, by rw [addr_setBssid_ne hat, hupdate _ (by simp [hlist])]; exact hkeep _ v hlist⟩
  · rw [length_setBssid] at ha
    have hak : a ≠ k := by omega
    by_cases hx : addr (setBssid bss t x) a = x
    · rw [hx, Function.update_self]
      intro h
      have := Option.some.inj h
      omega
    · rw [Function.update_of_ne hx]
      have hat : a ≠ t := fun hat => hx (by rw [hat, addr_setBssid_self ht])
      rw [addr_setBssid_ne hat]
      intro hlist
      rcases hnew _ a hlist with hold | hold
      · exact h.other a ha (by omega) hkept (by simpa using hdef) hold
      · exact hak hold

end Assigned

theorem assignBss_assigned (h : Assigned kept k bss list) {cur : Bss} (hcur : bss[k]? = some cur) (hkept : kept k = none)
    (hr : assignBss env k cur bss list = some (bss', list')) : Assigned kept (k + 1) bss' list' ∧ bss'.length = bss.length := by
  have hkn : k < bss.length := (List.getElem?_eq_some_iff.mp hcur).1
  have haddr : cur.bssid = addr bss k := by simp [addr, hcur]
  have hdef : cur.defaultMacaddr = isDefault bss k := by simp [isDefault, hcur]
  unfold assignBss at hr
  simp only [haddr, hdef] at hr
  cases hd : isDefault bss k with
  | false =>
    -- a static address: it may have been given away
    obtain ⟨v, hv, hlist⟩ := h.range k hkn (Nat.le_refl k) hkept hd
    have hneg : ((some (v : Int)).any (· < 0)) = false := by simp
    simp only [hlist, hneg, Bool.false_eq_true, if_false, hd, Option.bind_some] at hr
    by_cases hvk : v = k
    · subst hvk
      rw [if_pos rfl] at hr
      cases hr
      exact ⟨h.skip (Or.inr ⟨hd, hlist⟩), rfl⟩
    · have hne : ¬(some (v : Int) = some (k : Int)) := fun he => hvk (by have := Option.some.inj he; omega)
      have hidx : bssIndex bss.length (v : Int) = some v := by
        rw [bssIndex, if_pos (by omega), if_pos (by omega), Int.toNat_natCast]
      simp only [if_neg hne, hidx, Option.bind_eq_bind, Option.bind_some, Option.bind_eq_some_iff, Option.pure_def] at hr
      obtain ⟨mac, hmac, hr⟩ := hr
      cases hr
      exact ⟨h.replace hv (macaddrNext_fresh hmac) (fun _ _ h => h) (fun _ h => h) (fun _ _ h => Or.inl h) (Or.inr ⟨hd, hlist⟩) hkn,
        length_setBssid ..⟩
  | true =>
    have hne : ¬(list (addr bss k) = some (k : Int)) := h.other k hkn (Nat.le_refl k) hkept hd
    simp only [if_neg hne, hd, if_true, Option.bind_eq_bind, Option.bind_some, Option.bind_eq_some_iff, Option.pure_def] at hr
    obtain ⟨mac, hmac, hr⟩ := hr
    cases hr
    refine ⟨h.replace hkn (macaddrNext_fresh hmac) (fun y c hy => ?_) (fun y hy => ?_) (fun y a hy => ?_) (Or.inl rfl) hkn,
      length_setBssid ..⟩
    · split_ifs with hneg
      · by_cases hyk : y = addr bss k
        · rw [hyk] at hy
          simp [hy] at hneg
          omega
        · rwa [Function.update_of_ne hyk]
      · exact hy
    · split_ifs
      · by_cases hyk : y = addr bss k
        · rw [hyk, Function.update_self]
          simp
        · rwa [Function.update_of_ne hyk]
      · exact hy
    · split_ifs at hy
      · by_cases hyk : y = addr bss k
        · rw [hyk, Function.update_self] at hy
          have := Option.some.inj hy
          exact Or.inr (by omega)
        · rw [Function.update_of_ne hyk] at hy
          exact Or.inl hy
      · exact Or.inl hy

/-- Behind step 6 all addresses are different. -/
theorem assignAll_nodup {rounds : Nat} {r : List Bss} : ∀ {k : Nat} {bss : List Bss} {list : MacaddrList},
    Assigned kept k bss list → k + rounds = bss.length → assignAll env kept rounds k bss list = some r → (r.map (·.bssid)).Nodup := by
  induction rounds with
  | zero =>
    intro k bss list h hn hr
    cases hr
    refine nodup_of_addr fun a ha c hc hac heq => ?_
    rcases h.apart a ha c hc hac (Or.inr (Or.inr (by omega))) (Or.inr (Or.inr (by omega))) heq with hconf | hconf
    · have := hconf.1
      omega
    · have := hconf.1
      omega
  | succ rounds ih =>
    intro k bss list h hn hr
    have hk : k < bss.length := by omega
    rw [assignAll, List.getElem?_eq_getElem hk] at hr
    simp only at hr
    cases hkept : kept k with
    | some p =>
      simp only [hkept, Option.isSome_some, if_true] at hr
      exact ih (h.skip (Or.inl (by simp [hkept]))) (by omega) hr
    | none =>
      simp only [hkept, Option.isSome_none, Bool.false_eq_true, if_false] at hr
      cases hassign : assignBss env k bss[k] bss list with
      | none => simp [hassign] at hr
      | some p =>
        obtain ⟨bss', list'⟩ := p
        simp only [hassign] at hr
        obtain ⟨h', hlen⟩ := assignBss_assigned h (List.getElem?_eq_getElem hk) hkept hassign
        exact ih h' (by omega) hr

/-! ### The list of a configuration -/

/-- The loop of `iface_config_macaddr_list`, from an index on. -/
def listFrom (bss : List Bss) (k : Nat) (list : MacaddrList) : MacaddrList :=
  (bss.zipIdx k).foldl (fun list (b, i) => if b.defaultMacaddr then list else Function.update list b.bssid (some (i : Int))) list

theorem addr_cons_succ (b : Bss) (bss : List Bss) (j : Nat) : addr (b :: bss) (j + 1) = addr bss j := by simp [addr]

theorem isDefault_cons_succ (b : Bss) (bss : List Bss) (j : Nat) : isDefault (b :: bss) (j + 1) = isDefault bss j := by
  simp [isDefault]

/-- An address that no static BSS has is as it was. -/
theorem listFrom_of_not {y : Option String} : ∀ {bss : List Bss} {k : Nat} {list : MacaddrList},
    (∀ j < bss.length, isDefault bss j = false → addr bss j ≠ y) → listFrom bss k list y = list y
  | [], _, _, _ => rfl
  | b :: bss, k, list, h => by
    have hrest : ∀ j < bss.length, isDefault bss j = false → addr bss j ≠ y := fun j hj hd => by
      have := h (j + 1) (by simpa using hj) (by rwa [isDefault_cons_succ])
      rwa [addr_cons_succ] at this
    have hfold : listFrom (b :: bss) k list = listFrom bss (k + 1)
        (if b.defaultMacaddr then list else Function.update list b.bssid (some (k : Int))) := rfl
    rw [hfold, listFrom_of_not hrest]
    split_ifs with hb
    · rfl
    · have hne : b.bssid ≠ y := by
        have := h 0 (by simp) (by simp [isDefault, hb])
        simpa [addr] using this
      exact Function.update_of_ne hne.symm ..

/-- A static BSS is found under its address. -/
theorem listFrom_static : ∀ {bss : List Bss} (k : Nat) (list : MacaddrList),
    (∀ a < bss.length, ∀ c < bss.length, a ≠ c → isDefault bss a = false → isDefault bss c = false → addr bss a ≠ addr bss c) →
    ∀ j < bss.length, isDefault bss j = false → listFrom bss k list (addr bss j) = some ((k + j : Nat) : Int)
  | [], _, _, _, j, hj, _ => by simp at hj
  | b :: bss, k, list, h, j, hj, hd => by
    have hfold : listFrom (b :: bss) k list = listFrom bss (k + 1)
        (if b.defaultMacaddr then list else Function.update list b.bssid (some (k : Int))) := rfl
    rw [hfold]
    cases j with
    | zero =>
      have hb : b.defaultMacaddr = false := by simpa [isDefault] using hd
      rw [listFrom_of_not fun c hc hdc => ?_]
      · simp [addr, hb]
      · have := h (c + 1) (by simpa using hc) 0 (by simp) (by omega) (by rwa [isDefault_cons_succ]) hd
        rwa [addr_cons_succ] at this
    | succ j =>
      rw [addr_cons_succ]
      rw [isDefault_cons_succ] at hd
      have hrest : ∀ a < bss.length, ∀ c < bss.length, a ≠ c → isDefault bss a = false → isDefault bss c = false →
          addr bss a ≠ addr bss c := fun a ha c hc hac hda hdc => by
        have := h (a + 1) (by simpa using ha) (c + 1) (by simpa using hc) (by omega) (by rwa [isDefault_cons_succ])
          (by rwa [isDefault_cons_succ])
        rwa [addr_cons_succ, addr_cons_succ] at this
      rw [listFrom_static _ _ hrest j (by simpa using hj) hd]
      congr 2
      omega

/-- What is found is a static BSS, or was there before. -/
theorem listFrom_some {y : Option String} {v : Int} : ∀ {bss : List Bss} {k : Nat} {list : MacaddrList},
    listFrom bss k list y = some v → list y = some v ∨ ∃ j < bss.length, isDefault bss j = false ∧ addr bss j = y ∧ v = (k + j : Nat)
  | [], _, _, h => Or.inl h
  | b :: bss, k, list, h => by
    have hfold : listFrom (b :: bss) k list = listFrom bss (k + 1)
        (if b.defaultMacaddr then list else Function.update list b.bssid (some (k : Int))) := rfl
    rw [hfold] at h
    rcases listFrom_some h with h | ⟨j, hj, hd, ha, hv⟩
    · split_ifs at h with hb
      · exact Or.inl h
      · by_cases hy : y = b.bssid
        · rw [hy, Function.update_self] at h
          refine Or.inr ⟨0, by simp, by simp [isDefault, hb], by simp [addr, hy], ?_⟩
          exact (Option.some.inj h).symm
        · rw [Function.update_of_ne hy] at h
          exact Or.inl h
    · refine Or.inr ⟨j + 1, by simpa using hj, by rwa [isDefault_cons_succ], by rwa [addr_cons_succ], ?_⟩
      rw [hv]
      congr 1
      omega

/-- Static addresses are different. -/
def StaticApart (bss : List Bss) : Prop :=
  ∀ a < bss.length, ∀ c < bss.length, a ≠ c → isDefault bss a = false → isDefault bss c = false → addr bss a ≠ addr bss c

theorem configList_static (env : ReloadEnv) (j : Nat) (h : StaticApart bss) (hj : j < bss.length) (hd : isDefault bss j = false) :
    ifaceConfigMacaddrList env bss (addr bss j) = some (j : Int) := by
  have := listFrom_static 0 (env.mld.foldl (fun list macaddr => Function.update list (some macaddr) (some (-1)))
    fun _ => none) h j hj hd
  rwa [Nat.zero_add] at this

theorem mldList_some {y : Option String} {v : Int} : ∀ (mld : List String) {list : MacaddrList},
    mld.foldl (fun list macaddr => Function.update list (some macaddr) (some (-1))) list y = some v → list y = some v ∨ v = -1
  | [], _, h => Or.inl h
  | m :: mld, list, h => by
    rcases mldList_some mld h with h | h
    · beta_reduce at h
      by_cases hy : y = some m
      · rw [hy, Function.update_self] at h
        exact Or.inr (Option.some.inj h).symm
      · rw [Function.update_of_ne hy] at h
        exact Or.inl h
    · exact Or.inr h

theorem configList_some {y : Option String} {v : Int} (h : ifaceConfigMacaddrList env bss y = some v) :
    v = -1 ∨ ∃ j < bss.length, isDefault bss j = false ∧ addr bss j = y ∧ v = (j : Int) := by
  rcases listFrom_some (k := 0) h with h | ⟨j, hj, hd, ha, hv⟩
  · rcases mldList_some _ h with h | h
    · cases h
    · exact Or.inl h
  · exact Or.inr ⟨j, hj, hd, ha, by rw [hv, Nat.zero_add]⟩

/-! ### Step 1 -/

section
variable {cfg old : List Bss} {s s' : Reload} {p : Nat}

/-- The old BSS `p`, kept as `i`, leaves it its address. -/
def Takes (env : ReloadEnv) (cfg old : List Bss) (i p : Nat) : Prop :=
  ∃ c q, cfg[i]? = some c ∧ old[p]? = some q ∧ sameKind c q = true ∧ isFree (ifaceConfigMacaddrList env cfg) q.bssid = true

/-- The old BSSes that are found, from the hashes alone. -/
def preservedUpTo (env : ReloadEnv) (cfg old : List Bss) : Nat → List (Option String) × (Nat → Option Nat)
  | 0 => (old.map fun b => some (env.hash b.data), fun _ => none)
  | k + 1 =>
    let (prevHash, kept) := preservedUpTo env cfg old k
    match cfg[k]? with
    | none => (prevHash, kept)
    | some cur =>
      match findPrev env prevHash k cur with
      | (none, prevHash) => (prevHash, kept)
      | (some prev, prevHash) => (prevHash, if env.forceReload prev then kept else Function.update kept k (some prev))

def preserved (env : ReloadEnv) (cfg old : List Bss) : Nat → Option Nat := (preservedUpTo env cfg old cfg.length).2

/-- Before round `k` of step 1. -/
structure Keeping (env : ReloadEnv) (cfg old : List Bss) (k : Nat) (s : Reload) : Prop where
  len : s.bss.length = cfg.length
  same : ∀ (j : Nat) (b : Bss), s.bss[j]? = some b → ∃ c : Bss, cfg[j]? = some c ∧ b = { c with bssid := b.bssid }
  found : s.kept = (preservedUpTo env cfg old k).2 ∧ s.prevHash = (preservedUpTo env cfg old k).1
  lt : ∀ j p, s.kept j = some p → j < k ∧ p < old.length
  used : ∀ j p, s.kept j = some p → s.prevHash[p]? = some none
  inj : ∀ i j p, s.kept i = some p → s.kept j = some p → i = j
  hashes : s.prevHash.length = old.length
  moved : ∀ j, (∃ p, s.kept j = some p ∧ Takes env cfg old j p ∧ addr s.bss j = addr old p ∧ s.list (addr old p) = some (j : Int)) ∨
    (addr s.bss j = addr cfg j ∧ ∀ p, s.kept j = some p → ¬Takes env cfg old j p)
  listed : ∀ y, s.list y = ifaceConfigMacaddrList env cfg y ∨
    ∃ j p, s.kept j = some p ∧ Takes env cfg old j p ∧ addr old p = y ∧ s.list y = some (j : Int)

/-- What is found has not been found before. -/
theorem findPrev_unused {prevHash prevHash' : List (Option String)} {cur : Bss} (h : findPrev env prevHash k cur = (some p, prevHash'))
    (hlen : 0 < prevHash.length) : prevHash' = prevHash.set p none ∧ p < prevHash.length ∧
      ((∃ hash, prevHash[p]? = some (some hash)) ∨ k = 0) := by
  unfold findPrev at h
  split_ifs at h with hfull
  · cases h
    rw [Bool.and_eq_true] at hfull
    exact ⟨rfl, hlen, Or.inr (by simpa using hfull.1)⟩
  · cases hidx : prevHash.findIdx? fun h => h = some (env.hash cur.data) with
    | none => simp [hidx] at h
    | some q =>
      simp only [hidx, Prod.mk.injEq, Option.some.injEq] at h
      obtain ⟨rfl, rfl⟩ := h
      obtain ⟨hq, hp, -⟩ := List.findIdx?_eq_some_iff_getElem.mp hidx
      refine ⟨rfl, hq, Or.inl ⟨env.hash cur.data, ?_⟩⟩
      rw [List.getElem?_eq_getElem hq]
      simpa using hp

theorem findPrev_none {prevHash prevHash' : List (Option String)} {cur : Bss} (h : findPrev env prevHash k cur = (none, prevHash')) :
    prevHash' = prevHash := by
  unfold findPrev at h
  split_ifs at h
  · cases h
  · cases hidx : prevHash.findIdx? fun h => h = some (env.hash cur.data) with
    | none =>
      simp only [hidx, Prod.mk.injEq, true_and] at h
      exact h.symm
    | some q => simp [hidx] at h

theorem addr_of_getElem? {q : Bss} (h : old[p]? = some q) : addr old p = q.bssid := by simp [addr, h]

/-- What one round does. -/
theorem keepBss_cases {c : Bss} (hget : s.bss[k]? = some c) (hr : keepBss env old k s = some s') :
    (∃ prevHash, findPrev env s.prevHash k c = (none, prevHash) ∧ s' = { s with prevHash }) ∨
    ∃ p prevHash q, findPrev env s.prevHash k c = (some p, prevHash) ∧ old[p]? = some q ∧
      ((env.forceReload p = true ∧ s' = { s with prevHash }) ∨
        (env.forceReload p = false ∧ s'.prevHash = prevHash ∧ s'.kept = Function.update s.kept k (some p) ∧
          s'.list = (if sameKind c q && isFree s.list q.bssid then Function.update s.list q.bssid (some (k : Int)) else s.list) ∧
          s'.bss = if sameKind c q && isFree s.list q.bssid then setBssid s.bss k q.bssid else s.bss)) := by
  rw [keepBss, hget] at hr
  simp only at hr
  cases hprev : findPrev env s.prevHash k c with
  | mk prev prevHash =>
    rw [hprev] at hr
    cases prev with
    | none =>
      cases hr
      exact Or.inl ⟨prevHash, rfl, rfl⟩
    | some p =>
      cases hq : old[p]? with
      | none => simp [hq] at hr
      | some q =>
        refine Or.inr ⟨p, prevHash, q, rfl, hq, ?_⟩
        simp only [hq] at hr
        cases hforce : env.forceReload p with
        | true =>
          rw [if_pos hforce] at hr
          cases hr
          exact Or.inl ⟨rfl, rfl⟩
        | false =>
          rw [if_neg (by simp [hforce])] at hr
          split_ifs at hr with hlive htakes
          · cases hr
            exact Or.inr ⟨rfl, rfl, rfl, by simp only [htakes, if_true], by simp only [htakes, if_true]⟩
          · cases hr
            exact Or.inr ⟨rfl, rfl, rfl, by simp only [htakes, if_false, Bool.false_eq_true], by simp only [htakes, if_false, Bool.false_eq_true]⟩

theorem Keeping.lt_succ (h : Keeping env cfg old k s) (j p : Nat) (hj : s.kept j = some p) : j < k + 1 ∧ p < old.length :=
  ⟨Nat.lt_succ_of_lt (h.lt j p hj).1, (h.lt j p hj).2⟩

/-- A round that keeps no BSS. -/
theorem Keeping.pass (h : Keeping env cfg old k s) {prevHash : List (Option String)} (hlen : prevHash.length = old.length)
    (hup : preservedUpTo env cfg old (k + 1) = (prevHash, s.kept)) (hused : ∀ j p, s.kept j = some p → prevHash[p]? = some none) :
    Keeping env cfg old (k + 1) { s with prevHash } :=
  ⟨h.len, h.same, by rw [hup]; exact ⟨rfl, rfl⟩, h.lt_succ, hused, h.inj, hlen, h.moved, h.listed⟩

/-- The old BSSes kept with one more, which is a new one. -/
theorem update_kept (hnew : ∀ j, s.kept j ≠ some p) {j p' : Nat} (hj : Function.update s.kept k (some p) j = some p') :
    (j = k ∧ p' = p) ∨ (j ≠ k ∧ p' ≠ p ∧ s.kept j = some p') := by
  by_cases hjk : j = k
  · rw [hjk, Function.update_self] at hj
    exact Or.inl ⟨hjk, (Option.some.inj hj).symm⟩
  · rw [Function.update_of_ne hjk] at hj
    exact Or.inr ⟨hjk, fun hp => hnew j (hp ▸ hj), hj⟩

theorem takes_iff {c q : Bss} (hc : cfg[k]? = some c) (hq : old[p]? = some q) :
    Takes env cfg old k p ↔ (sameKind c q && isFree (ifaceConfigMacaddrList env cfg) q.bssid) = true := by
  rw [Bool.and_eq_true]
  constructor
  · rintro ⟨c', q', hc', hq', h⟩
    rw [hc] at hc'
    rw [hq] at hq'
    cases hc'
    cases hq'
    exact h
  · exact fun h => ⟨c, q, hc, hq, h⟩

/-- A round that keeps a BSS. -/
theorem Keeping.keep (h : Keeping env cfg old k s) (hold : (old.map (·.bssid)).Nodup) (hk : k < cfg.length) (hp : p < old.length)
    (hnew : ∀ j, s.kept j ≠ some p) (hup : preservedUpTo env cfg old (k + 1) = (s.prevHash.set p none, Function.update s.kept k (some p)))
    {c : Bss} (hc : cfg[k]? = some c) (hhash : s'.prevHash = s.prevHash.set p none)
    (hkept : s'.kept = Function.update s.kept k (some p))
    (hlist : s'.list = if sameKind c old[p] && isFree s.list old[p].bssid then
      Function.update s.list old[p].bssid (some (k : Int)) else s.list)
    (hbss : s'.bss = if sameKind c old[p] && isFree s.list old[p].bssid then setBssid s.bss k old[p].bssid else s.bss) :
    Keeping env cfg old (k + 1) s' := by
  have hkn : k < s.bss.length := by rw [h.len]; exact hk
  have hq : old[p]? = some old[p] := List.getElem?_eq_getElem hp
  have hnone : s.kept k = none := by
    cases hkept : s.kept k with
    | none => rfl
    | some p => exact absurd (h.lt k p hkept).1 (Nat.lt_irrefl k)
  have haddr : ∀ j p', s.kept j = some p' → addr old p' ≠ addr old p := fun j p' hj heq =>
    hnew j (addr_of_nodup hold (h.lt j p' hj).2 hp heq ▸ hj)
  have hfree : isFree s.list old[p].bssid = isFree (ifaceConfigMacaddrList env cfg) old[p].bssid := by
    rcases h.listed old[p].bssid with heq | ⟨j, p', hj, -, ha, -⟩
    · rw [isFree, isFree, heq]
    · exact absurd (ha.trans (addr_of_getElem? hq).symm) (haddr j p' hj)
  have hother : ∀ j, j ≠ k → s'.kept j = s.kept j := fun j hj => by rw [hkept, Function.update_of_ne hj]
  have hself : s'.kept k = some p := by rw [hkept, Function.update_self]
  have hcases : ∀ j p', s'.kept j = some p' → (j = k ∧ p' = p) ∨ (j ≠ k ∧ p' ≠ p ∧ s.kept j = some p') := fun j p' hj =>
    update_kept hnew (by rwa [hkept] at hj)
  rw [hfree] at hlist hbss
  refine ⟨?_, fun j b hb => ?_, ⟨by rw [hup, hkept], by rw [hup, hhash]⟩, fun j p' hj => ?_, fun j p' hj => ?_, fun i j p' hi hj => ?_,
    by rw [hhash, List.length_set, h.hashes], fun j => ?_, fun y => ?_⟩
  · rw [hbss]
    split_ifs
    · rw [length_setBssid, h.len]
    · exact h.len
  · rw [hbss] at hb
    split_ifs at hb
    · rw [getElem?_setBssid] at hb
      split_ifs at hb
      · obtain ⟨b', hb', rfl⟩ := Option.map_eq_some_iff.mp hb
        obtain ⟨c', hc', heq⟩ := h.same j b' hb'
        exact ⟨c', hc', by rw [heq]⟩
      · exact h.same j b hb
    · exact h.same j b hb
  · rcases hcases j p' hj with ⟨rfl, rfl⟩ | ⟨-, -, hj⟩
    · exact ⟨Nat.lt_succ_self j, hp⟩
    · exact h.lt_succ j p' hj
  · rw [hhash]
    rcases hcases j p' hj with ⟨-, rfl⟩ | ⟨-, hne, hj⟩
    · exact List.getElem?_set_self (by rw [h.hashes]; exact hp)
    · rw [List.getElem?_set_ne hne.symm]
      exact h.used j p' hj
  · rcases hcases i p' hi with ⟨rfl, rfl⟩ | ⟨-, hne, hi⟩
    · rcases hcases j _ hj with ⟨rfl, -⟩ | ⟨-, hne, -⟩
      · rfl
      · exact absurd rfl hne
    · rcases hcases j p' hj with ⟨-, hpp⟩ | ⟨-, -, hj⟩
      · exact absurd hpp hne
      · exact h.inj i j p' hi hj
  · by_cases htakes : (sameKind c old[p] && isFree (ifaceConfigMacaddrList env cfg) old[p].bssid) = true
    · rw [if_pos htakes] at hlist hbss
      rw [hbss, hlist]
      by_cases hjk : j = k
      · rw [hjk]
        exact Or.inl ⟨p, hself, (takes_iff hc hq).mpr htakes, by rw [addr_setBssid_self hkn, addr_of_getElem? hq],
          by rw [addr_of_getElem? hq, Function.update_self]⟩
      · rw [addr_setBssid_ne hjk, hother j hjk]
        refine (h.moved j).imp_left fun ⟨p', hj, htk, ha, hl⟩ => ⟨p', hj, htk, ha, ?_⟩
        rw [Function.update_of_ne (by rw [← addr_of_getElem? hq]; exact haddr j p' hj)]
        exact hl
    · rw [if_neg htakes] at hlist hbss
      rw [hbss, hlist]
      by_cases hjk : j = k
      · rw [hjk]
        rcases h.moved k with ⟨p', hj, -⟩ | ⟨ha, -⟩
        · rw [hnone] at hj
          cases hj
        · refine Or.inr ⟨ha, fun p' hp' => ?_⟩
          rw [hself] at hp'
          cases hp'
          rwa [takes_iff hc hq]
      · rw [hother j hjk]
        exact h.moved j
  · have hold' : (s.list y = ifaceConfigMacaddrList env cfg y) ∨
        ∃ j p, s'.kept j = some p ∧ Takes env cfg old j p ∧ addr old p = y ∧ s.list y = some (j : Int) :=
      (h.listed y).imp_right fun ⟨j, p', hj, hrest⟩ => by
        have hjk : j ≠ k := fun hjk => by
          rw [hjk, hnone] at hj
          cases hj
        exact ⟨j, p', by rw [hother j hjk]; exact hj, hrest⟩
    rw [hlist]
    split_ifs with htakes
    · by_cases hy : y = old[p].bssid
      · exact Or.inr ⟨k, p, hself, (takes_iff hc hq).mpr htakes, by rw [addr_of_getElem? hq, hy], by rw [hy, Function.update_self]⟩
      · rw [Function.update_of_ne hy]
        exact hold'
    · exact hold'

theorem keepBss_keeping (hold : (old.map (·.bssid)).Nodup) (h : Keeping env cfg old k s) (hk : k < cfg.length)
    (hpos : 0 < old.length) (hr : keepBss env old k s = some s') : Keeping env cfg old (k + 1) s' := by
  have hkn : k < s.bss.length := by rw [h.len]; exact hk
  obtain ⟨c, hc, hcur⟩ := h.same k _ (List.getElem?_eq_getElem hkn)
  generalize s.bss[k].bssid = x at hcur
  have hget : s.bss[k]? = some { c with bssid := x } := by rw [List.getElem?_eq_getElem hkn, hcur]
  have hup : preservedUpTo env cfg old (k + 1) = match findPrev env s.prevHash k c with
      | (none, prevHash) => (prevHash, s.kept)
      | (some prev, prevHash) => (prevHash, if env.forceReload prev then s.kept else Function.update s.kept k (some prev)) := by
    simp only [preservedUpTo, hc, h.found.1, h.found.2]
  have hfind : findPrev env s.prevHash k { c with bssid := x } = findPrev env s.prevHash k c := rfl
  rcases keepBss_cases hget hr with ⟨prevHash, hprev, rfl⟩ | ⟨p, prevHash, q, hprev, hq, hrest⟩
  · rw [hfind] at hprev
    rw [hprev] at hup
    obtain rfl := findPrev_none hprev
    exact h.pass h.hashes hup h.used
  · rw [hfind] at hprev
    rw [hprev] at hup
    obtain ⟨rfl, hp, hunused⟩ := findPrev_unused hprev (by rw [h.hashes]; exact hpos)
    have hpo : p < old.length := by rwa [h.hashes] at hp
    rcases hrest with ⟨hforce, rfl⟩ | ⟨hforce, hhash, hkept, hlist, hbss⟩
    · simp only [hforce, if_true] at hup
      refine h.pass (by rw [List.length_set, h.hashes]) hup fun j p' hj => ?_
      by_cases hpp : p = p'
      · rw [hpp, List.getElem?_set_self (hpp ▸ hp)]
      · rw [List.getElem?_set_ne hpp]
        exact h.used j p' hj
    · simp only [hforce, Bool.false_eq_true, if_false] at hup
      have hnew : ∀ j, s.kept j ≠ some p := fun j hj => by
        rcases hunused with ⟨hash, hhash⟩ | hk0
        · rw [h.used j p hj] at hhash
          cases hhash
        · have := (h.lt j p hj).1
          omega
      obtain rfl : q = old[p] := by
        rw [List.getElem?_eq_getElem hpo] at hq
        exact (Option.some.inj hq).symm
      exact h.keep hold hk hpo hnew hup hc hhash hkept hlist hbss

theorem keepAll_keeping (hold : (old.map (·.bssid)).Nodup) (hpos : 0 < old.length) : ∀ {k : Nat} {s s' : Reload},
    Keeping env cfg old 0 s → k ≤ cfg.length → keepAll env old k s = some s' → Keeping env cfg old k s'
  | 0, _, _, h, _, hr => by
    cases hr
    exact h
  | k + 1, s, s', h, hk, hr => by
    obtain ⟨u, hu, hr⟩ := Option.bind_eq_some_iff.mp hr
    exact keepBss_keeping hold (keepAll_keeping hold hpos h (by omega) hu) (by omega) hpos hr

theorem Keeping.isDefault_eq (h : Keeping env cfg old k s) (j : Nat) : isDefault s.bss j = isDefault cfg j := by
  unfold isDefault
  by_cases hj : j < s.bss.length
  · obtain ⟨c, hc, heq⟩ := h.same j _ (List.getElem?_eq_getElem hj)
    rw [List.getElem?_eq_getElem hj, hc, heq]
    rfl
  · have hj' : ¬j < cfg.length := by rwa [← h.len]
    rw [List.getElem?_eq_none (by omega), List.getElem?_eq_none (by omega)]

theorem keeping_zero : Keeping env cfg old 0
    { bss := cfg, list := ifaceConfigMacaddrList env cfg, prevHash := old.map fun b => some (env.hash b.data) } where
  len := rfl
  same := fun _ b hb => ⟨b, hb, rfl⟩
  found := ⟨rfl, rfl⟩
  lt := fun _ _ h => by cases h
  used := fun _ _ h => by cases h
  inj := fun _ _ _ h => by cases h
  hashes := List.length_map ..
  moved := fun _ => Or.inr ⟨rfl, fun _ h => by cases h⟩
  listed := fun _ => Or.inl rfl

/-! ### From the first steps to step 6 -/

/-- Where the first BSS is found and takes over no address, no other one takes over the address that it is configured with. -/
def FirstApart (env : ReloadEnv) (cfg old : List Bss) : Prop :=
  ∀ p, preserved env cfg old 0 = some p → ¬Takes env cfg old 0 p →
    ∀ i p', preserved env cfg old i = some p' → Takes env cfg old i p' → addr old p' ≠ addr cfg 0

/-- And a default BSS that is found takes over the old address. -/
structure Clean (env : ReloadEnv) (cfg old : List Bss) : Prop where
  taken : ∀ i p, preserved env cfg old i = some p → isDefault cfg i = true → Takes env cfg old i p
  first : FirstApart env cfg old

theorem assigned_of_keeping (h : Keeping env cfg old cfg.length s) (hold : (old.map (·.bssid)).Nodup) (hstatic : StaticApart cfg)
    (hclean : Clean env cfg old) : Assigned s.kept 0 s.bss s.list := by
  have hkept : s.kept = preserved env cfg old := h.found.1
  have hconfig : ∀ j < s.bss.length, isDefault s.bss j = false → ifaceConfigMacaddrList env cfg (addr cfg j) = some (j : Int) :=
    fun j hj hd => configList_static _ _ hstatic (by rwa [← h.len]) (by rwa [← h.isDefault_eq])
  -- one that keeps its configured address is static
  have hsettled : ∀ j, Settled s.kept s.bss 0 j → (∀ p, s.kept j = some p → ¬Takes env cfg old j p) → isDefault s.bss j = false := by
    rintro j (hj | hj | hj) hno
    · obtain ⟨p, hp⟩ := Option.isSome_iff_exists.mp hj
      cases hd : isDefault s.bss j with
      | false => rfl
      | true => exact absurd (hclean.taken j p (by rwa [← hkept]) (by rwa [← h.isDefault_eq])) (hno p hp)
    · exact hj
    · exact absurd hj (Nat.not_lt_zero j)
  have hconflict : ∀ a p c, s.kept a = some p → Takes env cfg old a p → s.list (addr old p) = some (a : Int) → c < s.bss.length →
      addr s.bss c = addr cfg c → isDefault s.bss c = false → (∀ p, s.kept c = some p → ¬Takes env cfg old c p) →
      addr old p = addr s.bss c → Conflict s.kept s.bss s.list 0 c a := by
    intro a p c hp htakes hlist hc hac hd hno heq
    have hc0 : c = 0 := by
      obtain ⟨_, q, -, hq, -, hfree⟩ := htakes
      rw [← addr_of_getElem? hq, heq, hac, isFree, hconfig c hc hd] at hfree
      simpa using hfree
    subst hc0
    refine ⟨Nat.le_refl 0, ?_, hd, by rw [← heq, hlist]⟩
    cases hk0 : s.kept 0 with
    | none => rfl
    | some p₀ =>
      exact absurd (heq.trans hac) (hclean.first p₀ (by rwa [← hkept]) (hno p₀ hk0) a p (by rwa [← hkept]) htakes)
  refine ⟨fun j hj hs => ?_, fun a ha c hc hac hsa hsc heq => ?_, fun a ha _ hnone hd => ?_, fun a ha _ hnone hd => ?_⟩
  · rcases h.moved j with ⟨p, -, -, ha, hl⟩ | ⟨ha, hno⟩
    · rw [ha, hl]
      simp
    · have hl := hconfig j hj (hsettled j hs hno)
      rw [ha]
      rcases h.listed (addr cfg j) with heq | ⟨i, p, -, -, -, hl'⟩
      · rw [heq, hl]
        simp
      · rw [hl']
        simp
  · rcases h.moved a with ⟨p, hp, htp, hap, hlp⟩ | ⟨haa, hnoa⟩
    · rcases h.moved c with ⟨p', hp', -, hcp, -⟩ | ⟨hcc, hnoc⟩
      · rw [hap, hcp] at heq
        obtain rfl := addr_of_nodup hold (h.lt a p hp).2 (h.lt c p' hp').2 heq
        exact absurd (h.inj a c p hp hp') hac
      · exact Or.inr (hconflict a p c hp htp hlp hc hcc (hsettled c hsc hnoc) hnoc (by rw [← hap, heq]))
    · rcases h.moved c with ⟨p', hp', htp, hcp, hlp⟩ | ⟨hcc, hnoc⟩
      · exact Or.inl (hconflict c p' a hp' htp hlp ha haa (hsettled a hsa hnoa) hnoa (by rw [← hcp, heq]))
      · rw [haa, hcc] at heq
        exact absurd heq (hstatic a (by rwa [← h.len]) c (by rwa [← h.len]) hac (by rw [← h.isDefault_eq]; exact hsettled a hsa hnoa)
          (by rw [← h.isDefault_eq]; exact hsettled c hsc hnoc))
  · rcases h.moved a with ⟨p, hp, -⟩ | ⟨haa, -⟩
    · rw [hnone] at hp
      cases hp
    · rw [haa]
      rcases h.listed (addr cfg a) with heq | ⟨j, p, hj, -, -, hl⟩
      · exact ⟨a, ha, by rw [heq, hconfig a ha hd]⟩
      · exact ⟨j, by rw [h.len]; exact (h.lt j p hj).1, hl⟩
  · rcases h.moved a with ⟨p, hp, -⟩ | ⟨haa, -⟩
    · rw [hnone] at hp
      cases hp
    · rw [haa]
      intro hl
      rcases h.listed (addr cfg a) with heq | ⟨j, p, hj, -, -, hl'⟩
      · rw [heq] at hl
        rcases configList_some hl with hneg | ⟨j, -, hdj, -, hj⟩
        · omega
        · obtain rfl : a = j := by omega
          rw [h.isDefault_eq, hdj] at hd
          cases hd
      · rw [hl'] at hl
        obtain rfl : j = a := by
          have := Option.some.inj hl
          omega
        rw [hnone] at hj
        cases hj

/-- Where nothing is found, the first one is kept. -/
theorem assigned_of_first (h : Keeping env cfg old cfg.length s) (hstatic : StaticApart cfg) (hnone : ∀ j, s.kept j = none)
    (hn : 0 < s.bss.length) {prev : Bss} :
    Assigned (Function.update s.kept 0 (some 0)) 0 (setBssid s.bss 0 prev.bssid) (Function.update s.list prev.bssid (some 0)) := by
  have haddr : ∀ j, addr s.bss j = addr cfg j := fun j => by
    rcases h.moved j with ⟨p, hp, -⟩ | ⟨ha, -⟩
    · rw [hnone] at hp
      cases hp
    · exact ha
  have hlist : ∀ y, s.list y = ifaceConfigMacaddrList env cfg y := fun y => by
    rcases h.listed y with heq | ⟨j, p, hj, -⟩
    · exact heq
    · rw [hnone] at hj
      cases hj
  have hconfig : ∀ j < s.bss.length, isDefault s.bss j = false → s.list (addr s.bss j) = some (j : Int) := fun j hj hd => by
    rw [hlist, haddr]
    exact configList_static _ _ hstatic (by rwa [← h.len]) (by rwa [← h.isDefault_eq])
  have hstatic' : ∀ j, j ≠ 0 → Settled (Function.update s.kept 0 (some 0)) (setBssid s.bss 0 prev.bssid) 0 j →
      isDefault s.bss j = false := by
    rintro j hj (hk | hk | hk)
    · rw [Function.update_of_ne hj, hnone] at hk
      cases hk
    · simpa using hk
    · exact absurd hk (Nat.not_lt_zero j)
  have hconflict : ∀ c, c ≠ 0 → c < s.bss.length → isDefault s.bss c = false → prev.bssid = addr s.bss c →
      Conflict (Function.update s.kept 0 (some 0)) (setBssid s.bss 0 prev.bssid) (Function.update s.list prev.bssid (some 0)) 0 c 0 := by
    intro c hc _ hd heq
    refine ⟨Nat.zero_le c, by rw [Function.update_of_ne hc, hnone], by simpa using hd, ?_⟩
    rw [addr_setBssid_ne hc, ← heq, Function.update_self]
    rfl
  refine ⟨fun j hj hs => ?_, fun a ha c hc hac hsa hsc heq => ?_, fun a ha _ hka hd => ?_, fun a ha _ hka hd => ?_⟩
  · by_cases hj0 : j = 0
    · rw [hj0, addr_setBssid_self hn, Function.update_self]
      simp
    · rw [addr_setBssid_ne hj0]
      by_cases hy : addr s.bss j = prev.bssid
      · rw [hy, Function.update_self]
        simp
      · rw [Function.update_of_ne hy, hconfig j (by simpa using hj) (hstatic' j hj0 hs)]
        simp
  · rw [length_setBssid] at ha hc
    by_cases ha0 : a = 0
    · have hc0 : c ≠ 0 := fun h => hac (ha0.trans h.symm)
      rw [ha0, addr_setBssid_self hn, addr_setBssid_ne hc0] at heq
      rw [ha0]
      exact Or.inr (hconflict c hc0 hc (hstatic' c hc0 hsc) heq)
    · by_cases hc0 : c = 0
      · rw [hc0, addr_setBssid_self hn, addr_setBssid_ne ha0] at heq
        rw [hc0]
        exact Or.inl (hconflict a ha0 ha (hstatic' a ha0 hsa) heq.symm)
      · rw [addr_setBssid_ne ha0, addr_setBssid_ne hc0, haddr, haddr] at heq
        exact absurd heq (hstatic a (by rwa [← h.len]) c (by rwa [← h.len]) hac
          (by rw [← h.isDefault_eq]; exact hstatic' a ha0 hsa) (by rw [← h.isDefault_eq]; exact hstatic' c hc0 hsc))
  · rw [length_setBssid] at ha ⊢
    have ha0 : a ≠ 0 := fun h => by simp [h] at hka
    rw [addr_setBssid_ne ha0]
    by_cases hy : addr s.bss a = prev.bssid
    · exact ⟨0, hn, by rw [hy, Function.update_self]; rfl⟩
    · exact ⟨a, ha, by rw [Function.update_of_ne hy]; exact hconfig a ha (by simpa using hd)⟩
  · have ha0 : a ≠ 0 := fun h => by simp [h] at hka
    rw [addr_setBssid_ne ha0]
    intro hl
    by_cases hy : addr s.bss a = prev.bssid
    · rw [hy, Function.update_self] at hl
      have := Option.some.inj hl
      omega
    · rw [Function.update_of_ne hy, hlist] at hl
      rcases configList_some hl with hneg | ⟨j, -, hdj, -, hj⟩
      · omega
      · obtain rfl : a = j := by omega
        rw [isDefault_setBssid, h.isDefault_eq, hdj] at hd
        cases hd

theorem keepFirst_assigned {mbssid : Bool} {t : Reload} (h : Keeping env cfg old cfg.length s) (hold : (old.map (·.bssid)).Nodup)
    (hstatic : StaticApart cfg) (hclean : Clean env cfg old) (ht : keepFirst env old mbssid s = some t) :
    Assigned t.kept 0 t.bss t.list := by
  unfold keepFirst at ht
  split at ht
  · cases ht
  · split at ht
    · cases ht
      exact assigned_of_keeping h hold hstatic hclean
    · rename_i hany
      have hnone : ∀ j, s.kept j = none := fun j => by
        cases hj : s.kept j with
        | none => rfl
        | some p =>
          have hlt := (h.lt j p hj).1
          rw [← h.len] at hlt
          exact absurd (List.any_eq_true.mpr ⟨j, List.mem_range.mpr hlt, by simp [hj]⟩) hany
      cases h0 : s.bss[0]? with
      | none => simp [h0] at ht
      | some first =>
        cases hprev : old[0]? with
        | none => simp [h0, hprev] at ht
        | some prev =>
          simp only [h0, hprev] at ht
          split_ifs at ht
          cases ht
          exact assigned_of_first h hstatic hnone (List.getElem?_eq_some_iff.mp h0).1

/-- The addresses of the devices come to the list where there is none. -/
theorem macaddrInit_cases (env : ReloadEnv) (list : MacaddrList) (y : Option String) :
    macaddrInit env list y = list y ∨ (list y = none ∧ macaddrInit env list y = some (-1)) := by
  unfold macaddrInit
  induction env.wdevs generalizing list with
  | nil => exact Or.inl rfl
  | cons w wdevs ih =>
    rw [List.foldl_cons]
    split_ifs with hw
    · by_cases hy : y = some w
      · subst hy
        rcases ih (Function.update list (some w) (some (-1))) with h | ⟨h, -⟩
        · rw [h, Function.update_self]
          exact Or.inr ⟨hw, rfl⟩
        · rw [Function.update_self] at h
          cases h
      · have := ih (Function.update list (some w) (some (-1)))
        rwa [Function.update_of_ne hy] at this
    · exact ih list

theorem Assigned.init (h : Assigned kept k bss list) : Assigned kept k bss (macaddrInit env list) := by
  have hkeep : ∀ y (v : Int), list y = some v → macaddrInit env list y = some v := fun y v hy => by
    rcases macaddrInit_cases env list y with heq | ⟨hnone, -⟩
    · rw [heq, hy]
    · rw [hy] at hnone
      cases hnone
  have hconf : ∀ a c, Conflict kept bss list k a c → Conflict kept bss (macaddrInit env list) k a c :=
    fun a c ⟨hle, hkept, hd, hl⟩ => ⟨hle, hkept, hd, hkeep _ _ hl⟩
  refine ⟨fun j hj hs => ?_, fun a ha c hc hac hsa hsc heq => (h.apart a ha c hc hac hsa hsc heq).imp (hconf a c) (hconf c a),
    fun a ha hle hka hd => ?_, fun a ha hle hka hd hl => ?_⟩
  · obtain ⟨v, hv⟩ := Option.ne_none_iff_exists'.mp (h.listed j hj hs)
    rw [hkeep _ v hv]
    simp
  · obtain ⟨v, hv, hl⟩ := h.range a ha hle hka hd
    exact ⟨v, hv, hkeep _ _ hl⟩
  · rcases macaddrInit_cases env list (addr bss a) with heq | ⟨-, hneg⟩
    · exact h.other a ha hle hka hd (by rw [← heq, hl])
    · rw [hneg] at hl
      have := Option.some.inj hl
      omega

end

theorem reloadSteps_nodup {config : Config} {old r : List Bss} (hold : (old.map (·.bssid)).Nodup) (hstatic : StaticApart config.bss)
    (hclean : Clean env config.bss old) (hpos : 0 < old.length) (hr : reloadSteps env config old = some r) :
    (r.map (·.bssid)).Nodup := by
  unfold reloadSteps at hr
  simp only at hr
  split at hr
  · cases hr
  · rename_i t ht
    obtain ⟨s, hs, ht⟩ := Option.bind_eq_some_iff.mp ht
    have hkeeping := keepAll_keeping hold hpos keeping_zero (Nat.le_refl _) hs
    split_ifs at hr
    exact assignAll_nodup (keepFirst_assigned hkeeping hold hstatic hclean ht).init (Nat.zero_add _) hr

/-! ### An address that is there twice -/

/-- New static BSSes are found under their addresses. -/
def Steady (kept : Nat → Option Nat) (k : Nat) (bss : List Bss) (list : MacaddrList) : Prop :=
  ∀ a < bss.length, k ≤ a → kept a = none → isDefault bss a = false → list (addr bss a) = some (a : Int)

/-- Then only new ones change their addresses. -/
theorem assignBss_steady (h : Steady kept k bss list) {cur : Bss} (hcur : bss[k]? = some cur) (hkept : kept k = none)
    (hr : assignBss env k cur bss list = some (bss', list')) :
    Steady kept (k + 1) bss' list' ∧ bss'.length = bss.length ∧ ∀ j, (kept j).isSome → addr bss' j = addr bss j := by
  have hkn : k < bss.length := (List.getElem?_eq_some_iff.mp hcur).1
  have haddr : cur.bssid = addr bss k := by simp [addr, hcur]
  have hdef : cur.defaultMacaddr = isDefault bss k := by simp [isDefault, hcur]
  have hne : ∀ j, (kept j).isSome → j ≠ k := fun j hj hjk => by simp [hjk, hkept] at hj
  unfold assignBss at hr
  simp only [haddr, hdef] at hr
  have hkeep : ∀ a < bss.length, k + 1 ≤ a → kept a = none → isDefault bss a = false →
      (if (list (addr bss k)).any (· < 0) then Function.update list (addr bss k) (some (k : Int)) else list) (addr bss a) =
        some (a : Int) := by
    intro a ha hle hka hda
    have hl := h a ha (by omega) hka hda
    split_ifs with hneg
    · by_cases hak : addr bss a = addr bss k
      · rw [← hak, hl] at hneg
        simp at hneg
        omega
      · rw [Function.update_of_ne hak, hl]
    · exact hl
  cases hd : isDefault bss k with
  | false =>
    have hl := h k hkn (Nat.le_refl k) hkept hd
    have hneg : ((some (k : Int)).any (· < 0)) = false := by simp
    rw [hl] at hkeep
    simp only [hl, hneg, Bool.false_eq_true, if_false, if_true] at hr hkeep
    cases hr
    exact ⟨hkeep, rfl, fun _ _ => rfl⟩
  | true =>
    generalize hlist : (if (list (addr bss k)).any (· < 0) then Function.update list (addr bss k) (some (k : Int)) else list) = list₁
      at hr hkeep
    by_cases hown : list (addr bss k) = some (k : Int)
    · rw [if_pos hown] at hr
      cases hr
      exact ⟨hkeep, rfl, fun _ _ => rfl⟩
    · simp only [if_neg hown, hd, if_true, Option.bind_eq_bind, Option.bind_some, Option.bind_eq_some_iff, Option.pure_def] at hr
      obtain ⟨mac, hmac, hr⟩ := hr
      cases hr
      refine ⟨fun a ha hle hka hda => ?_, length_setBssid .., fun j hj => addr_setBssid_ne (hne j hj)⟩
      have hak : a ≠ k := by omega
      have hl := hkeep a (by simpa using ha) hle hka (by simpa using hda)
      rw [addr_setBssid_ne hak, Function.update_of_ne]
      · exact hl
      · intro heq
        rw [heq, macaddrNext_fresh hmac] at hl
        cases hl

theorem assignAll_steady {rounds : Nat} {r : List Bss} : ∀ {k : Nat} {bss : List Bss} {list : MacaddrList},
    Steady kept k bss list → assignAll env kept rounds k bss list = some r →
    r.length = bss.length ∧ ∀ j, (kept j).isSome → addr r j = addr bss j := by
  induction rounds with
  | zero =>
    intro k bss list _ hr
    cases hr
    exact ⟨rfl, fun _ _ => rfl⟩
  | succ rounds ih =>
    intro k bss list h hr
    rw [assignAll] at hr
    cases hcur : bss[k]? with
    | none =>
      simp only [hcur] at hr
      cases hr
      exact ⟨rfl, fun _ _ => rfl⟩
    | some cur =>
      simp only [hcur] at hr
      cases hkept : kept k with
      | some p =>
        simp only [hkept, Option.isSome_some, if_true] at hr
        exact ih (fun a ha hle => h a ha (by omega)) hr
      | none =>
        simp only [hkept, Option.isSome_none, Bool.false_eq_true, if_false] at hr
        cases hassign : assignBss env k cur bss list with
        | none => simp [hassign] at hr
        | some p =>
          obtain ⟨bss', list'⟩ := p
          simp only [hassign] at hr
          obtain ⟨h', hlen, hsame⟩ := assignBss_steady h hcur hkept hassign
          obtain ⟨hlen', hsame'⟩ := ih h' hr
          exact ⟨hlen'.trans hlen, fun j hj => (hsame' j hj).trans (hsame j hj)⟩

section
variable {cfg old : List Bss} {s : Reload}

theorem steady_of_keeping (h : Keeping env cfg old cfg.length s) (hstatic : StaticApart cfg) (h0 : (s.kept 0).isSome) :
    Steady s.kept 0 s.bss (macaddrInit env s.list) := by
  intro a ha _ hka hda
  have hne : a ≠ 0 := fun h => by simp [← h, hka] at h0
  have haddr : addr s.bss a = addr cfg a := by
    rcases h.moved a with ⟨p, hp, -⟩ | ⟨haa, -⟩
    · rw [hka] at hp
      cases hp
    · exact haa
  have hconfig := configList_static env a hstatic (by rwa [← h.len]) (by rwa [← h.isDefault_eq])
  have hl : s.list (addr cfg a) = some (a : Int) := by
    rcases h.listed (addr cfg a) with heq | ⟨j, p, -, htakes, hp, -⟩
    · rw [heq, hconfig]
    · obtain ⟨_, q, -, hq, -, hfree⟩ := htakes
      rw [← addr_of_getElem? hq, hp, isFree, hconfig] at hfree
      simp at hfree
      omega
  rw [haddr]
  rcases macaddrInit_cases env s.list (addr cfg a) with heq | ⟨hnone, -⟩
  · rw [heq, hl]
  · rw [hl] at hnone
    cases hnone

/-- The first BSS is found and keeps its address, and another one takes it over. -/
theorem reloadSteps_dup {config : Config} {r : List Bss} (hold : (old.map (·.bssid)).Nodup) (hstatic : StaticApart config.bss)
    (hpos : 0 < old.length) {p p' i : Nat} (h0 : preserved env config.bss old 0 = some p) (hno : ¬Takes env config.bss old 0 p)
    (hi : preserved env config.bss old i = some p') (htakes : Takes env config.bss old i p')
    (heq : addr old p' = addr config.bss 0) (hr : reloadSteps env config old = some r) : ¬(r.map (·.bssid)).Nodup := by
  unfold reloadSteps at hr
  simp only at hr
  split at hr
  · cases hr
  · rename_i t ht
    obtain ⟨s, hs, ht⟩ := Option.bind_eq_some_iff.mp ht
    have h := keepAll_keeping hold hpos keeping_zero (Nat.le_refl _) hs
    have hkept : s.kept = preserved env config.bss old := h.found.1
    split_ifs at hr
    rw [← hkept] at h0 hi
    have hn : 0 < s.bss.length := by
      rw [h.len]
      exact (h.lt 0 p h0).1
    have hin : i < s.bss.length := by
      rw [h.len]
      exact (h.lt i p' hi).1
    have hts : t = s := by
      unfold keepFirst at ht
      split at ht
      · cases ht
      · rw [if_pos (List.any_eq_true.mpr ⟨0, List.mem_range.mpr hn, by simp [h0]⟩)] at ht
        exact (Option.some.inj ht).symm
    subst hts
    obtain ⟨hlen, hsame⟩ := assignAll_steady (steady_of_keeping h hstatic (by simp [h0])) hr
    have haddr : addr t.bss 0 = addr t.bss i := by
      rcases h.moved 0 with ⟨q, hq, htq, -⟩ | ⟨ha0, -⟩
      · rw [h0] at hq
        cases hq
        exact absurd htq hno
      · rcases h.moved i with ⟨q, hq, -, hai, -⟩ | ⟨-, hnot⟩
        · rw [hi] at hq
          cases hq
          rw [ha0, hai, heq]
        · exact absurd htakes (hnot p' hi)
    intro hnodup
    have h0i : 0 = i := addr_of_nodup hnodup (by omega) (by omega) (by rw [hsame 0 (by simp [h0]), hsame i (by simp [hi]), haddr])
    subst h0i
    rw [h0] at hi
    cases hi
    exact hno htakes

end

/-- Where every default BSS that is found takes over the old address, a reload that succeeds gives the BSSes different addresses
    exactly if nothing has changed, or no BSS takes over the address that the first one is configured with and keeps. -/
theorem reload_nodup_iff {config old : Config} (hold : (old.bss.map (·.bssid)).Nodup) (hstatic : StaticApart config.bss)
    (htaken : old.bss ≠ config.bss → ∀ i p, preserved env config.bss old.bss i = some p → isDefault config.bss i = true →
      Takes env config.bss old.bss i p)
    {r : List Bss} (hr : ifaceReloadConfig env config old = some r) :
    (r.map (·.bssid)).Nodup ↔ old.bss = config.bss ∨ FirstApart env config.bss old.bss := by
  unfold ifaceReloadConfig at hr
  split_ifs at hr with hradio heq hready
  · cases hr
    refine iff_of_true ?_ (Or.inl heq)
    rw [← heq]
    exact hold
  · have hpos : 0 < old.bss.length := by
      rw [Bool.or_eq_true, Bool.or_eq_true, not_or, not_or, List.isEmpty_iff] at hready
      exact List.length_pos_iff.mpr hready.1.2
    constructor
    · intro hnodup
      refine Or.inr fun p h0 hno i p' hi htakes haddr => ?_
      exact reloadSteps_dup hold hstatic hpos h0 hno hi htakes haddr hr hnodup
    · rintro (h | hfirst)
      · exact absurd h heq
      · exact reloadSteps_nodup hold hstatic ⟨htaken heq, hfirst⟩ hpos hr

/-! ### Two interfaces -/

def plainEnv : ReloadEnv :=
  { mld := [], fullmac := false, hash := fun data => data.headD "", forceReload := fun _ => false, live := fun _ => true,
    ready := true, wdevs := [], macaddrGenerate := fun _ => none, renames := true, updates := true }

/-- A static interface and a default one. -/
def twoBss (static dynamic : String) : Config :=
  { phy := "phy0", bss := [{ ifname := "ap0", bssid := some static, data := ["a"] },
                           { ifname := "ap1", bssid := some dynamic, data := ["b"], defaultMacaddr := true }] }

theorem reload_nodup_iff_two : ([some "3", some "2"] : List (Option String)).Nodup := by
  have hr : ifaceReloadConfig plainEnv (twoBss "3" "4") (twoBss "1" "2") = some (twoBss "3" "2").bss := by decide
  refine (reload_nodup_iff (by decide) ?_ (fun _ => ?_) hr).mpr (Or.inr ?_)
  · intro a ha c hc hac hda hdc
    match a, c with
    | 0, 0 => exact absurd rfl hac
    | 1, _ => exact absurd hda (by decide)
    | _, 1 => exact absurd hdc (by decide)
    | a + 2, _ => exact absurd ha (by simp [twoBss])
    | _, c + 2 => exact absurd hc (by simp [twoBss])
  · intro i p hp hd
    match i with
    | 0 => exact absurd hd (by decide)
    | 1 =>
      obtain rfl : 1 = p := Option.some.inj ((by decide : some 1 = preserved plainEnv (twoBss "3" "4").bss (twoBss "1" "2").bss 1).trans hp)
      exact ⟨_, _, rfl, rfl, by decide, by decide⟩
    | i + 2 => exact absurd hd (by simp [twoBss, isDefault])
  · intro _ _ _ _ p' _ _
    match p' with
    | 0 => decide
    | 1 => decide
    | p' + 2 => simp [twoBss, addr]

/-- The first interface gets the address that the second one had and keeps. -/
theorem reload_twice : ifaceReloadConfig plainEnv (twoBss "2" "4") (twoBss "1" "2") = some (twoBss "2" "2").bss := by
  decide

end RainWrt.Hostapd
