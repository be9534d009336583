import RainWrt.Theorems.Wifi.Macaddr

/-! The addresses that are handed out: an address repeats only where it is spelled in two ways. -/

namespace RainWrt.Wifi.Mac.Phy

/-! ### The list of addresses -/

theorem foldl_used {used : List (Text × Int)} {list : MacaddrList} {m : Text} :
    used.foldl (fun list (addr, val) => Function.update list addr (some val)) list m = none ↔
      list m = none ∧ m ∉ used.map Prod.fst := by
  induction used generalizing list with
  | nil => simp
  | cons e used ih =>
    rw [List.foldl_cons, ih]
    rcases eq_or_ne m e.1 with rfl | hne
    · simp
    · simp [hne]

theorem foldl_wdevs {wdevs : List Wdev} {list : MacaddrList} {m : Text} :
    (wdevs.foldl (fun (list : MacaddrList) w =>
      if list w.address = none then Function.update list w.address (some (-1)) else list) list) m = none ↔
      list m = none ∧ m ∉ wdevs.map (·.address) := by
  induction wdevs generalizing list with
  | nil => simp
  | cons w wdevs ih =>
    rw [List.foldl_cons, ih]
    rcases eq_or_ne m w.address with rfl | hne
    · by_cases hnone : list w.address = none
      · simp [hnone]
      · simp [hnone]
    · by_cases hnone : list w.address = none
      · simp [hnone, hne]
      · simp [hnone, hne]

/-- The used addresses and those of the interfaces. -/
def taken (phy : Phy) (used : List (Text × Int)) : List Text := used.map Prod.fst ++ phy.forEachWdev.map (·.address)

theorem macaddrInit_eq_none {phy : Phy} {used : List (Text × Int)} {m : Text} :
    phy.macaddrInit used m = none ↔ m ∉ phy.taken used := by
  rw [macaddrInit, foldl_wdevs, foldl_used, taken, List.mem_append, not_or]
  simp

/-! ### The addresses on offer -/

/-- The addresses of the identifiers, up to the first that has none or an empty one. -/
def offered (generate : Nat → Option Text) : (tries id : Nat) → List Text
  | 0, _ => []
  | tries + 1, id =>
    match (generate id).filter (· ≠ []) with
    | none => []
    | some mac => mac :: offered generate tries (id + 1)

theorem findFree_eq_find? (generate : Nat → Option Text) (list : MacaddrList) (tries id : Nat) :
    findFree generate list tries id = (offered generate tries id).find? fun mac => (list mac).isNone := by
  induction tries generalizing id with
  | zero => rfl
  | succ tries ih =>
    unfold findFree offered
    cases (generate id).filter (· ≠ []) with
    | none => rfl
    | some mac =>
      cases hmac : list mac with
      | none => simp [hmac]
      | some val => simpa [hmac] using ih (id + 1)

/-- The addresses on offer that a list does not have, each once. -/
def fresh (list : MacaddrList) : List Text → List Text
  | [] => []
  | mac :: macs => if (list mac).isSome then fresh list macs else mac :: fresh (Function.update list mac (some (-1))) macs

theorem fresh_congr {list list' : MacaddrList} (h : ∀ m, (list m).isSome = (list' m).isSome) (macs : List Text) :
    fresh list macs = fresh list' macs := by
  induction macs generalizing list list' with
  | nil => rfl
  | cons mac macs ih =>
    have hset : ∀ m, (Function.update list mac (some (-1)) m).isSome = (Function.update list' mac (some (-1)) m).isSome := by
      intro m
      rcases eq_or_ne m mac with rfl | hne
      · simp
      · simp [Function.update_of_ne hne, h m]
    rw [fresh, fresh, h mac, ih h, ih hset]

/-- A call takes the first of the fresh addresses. -/
theorem fresh_eq_find? (list : MacaddrList) (macs : List Text) :
    fresh list macs =
      match macs.find? fun mac => (list mac).isNone with
      | none => []
      | some m => m :: fresh (Function.update list m (some (-1))) macs := by
  induction macs with
  | nil => rfl
  | cons mac macs ih =>
    cases hmac : list mac with
    | none => simp [fresh, hmac]
    | some val =>
      have hne {m : Text} (hm : macs.find? (fun mac => (list mac).isNone) = some m) : mac ≠ m := by
        rintro rfl
        have hnone := List.find?_some hm
        simp [hmac] at hnone
      rw [fresh, hmac, ih]
      cases hm : macs.find? fun mac => (list mac).isNone with
      | none => simp [hmac, hm]
      | some m => simp [hmac, hm, fresh, Function.update_of_ne (hne hm)]

/-- The calls hand out the fresh addresses in order. -/
theorem allocate_eq_take (phy : Phy) (data : MacaddrOptions) (list : MacaddrList) (calls : List (Option Int)) :
    phy.allocate data list calls = (fresh list (offered (phy.macaddrGenerate data) 32 0)).take calls.length := by
  induction calls generalizing list with
  | nil => rfl
  | cons val calls ih =>
    rw [allocate, macaddrNext, findFree_eq_find?, fresh_eq_find?]
    cases hm : (offered (phy.macaddrGenerate data) 32 0).find? fun mac => (list mac).isNone with
    | none =>
      have hnil := fresh_eq_find? list (offered (phy.macaddrGenerate data) 32 0)
      rw [hm] at hnil
      simp [ih, hnil]
    | some mac =>
      have hval : ∀ m, (Function.update list mac (some (val.getD (-1))) m).isSome =
          (Function.update list mac (some (-1)) m).isSome := by
        intro m
        rcases eq_or_ne m mac with rfl | hne
        · simp
        · simp [Function.update_of_ne hne]
      simp [ih, fresh_congr hval]

/-! ### Repeated addresses -/

theorem mem_fresh {list : MacaddrList} {macs : List Text} {m : Text} : m ∈ fresh list macs ↔ m ∈ macs ∧ list m = none := by
  induction macs generalizing list with
  | nil => simp [fresh]
  | cons mac macs ih =>
    rw [fresh]
    split_ifs with hmac
    · rw [ih, List.mem_cons]
      refine ⟨fun h => ⟨.inr h.1, h.2⟩, fun h => ⟨h.1.resolve_left ?_, h.2⟩⟩
      rintro rfl
      simp [h.2] at hmac
    · rw [List.mem_cons, ih, List.mem_cons]
      have hnone : list mac = none := by simpa using hmac
      rcases eq_or_ne m mac with rfl | hne
      · simp [hnone]
      · simp [hne]

theorem fresh_nodup (list : MacaddrList) (macs : List Text) : (fresh list macs).Nodup := by
  induction macs generalizing list with
  | nil => exact List.nodup_nil
  | cons mac macs ih =>
    rw [fresh]
    split_ifs with hmac
    · exact ih list
    · refine List.nodup_cons.mpr ⟨fun hmem => ?_, ih _⟩
      have hnone := (mem_fresh.mp hmem).2
      simp at hnone

/-- No call returns an address that another one returned, that is used, or that an interface has. -/
def NeverRepeats (phy : Phy) (data : MacaddrOptions) (used : List (Text × Int)) : Prop :=
  ∀ calls, let macs := phy.allocate data (phy.macaddrInit used) calls
    (macs.map macaddrSplit).Nodup ∧ ∀ m ∈ macs, ∀ t ∈ phy.taken used, macaddrSplit m ≠ macaddrSplit t

/-- A free address on offer is spelled in one way among the taken ones and those on offer. -/
def SpelledOnce (phy : Phy) (data : MacaddrOptions) (used : List (Text × Int)) : Prop :=
  let macs := offered (phy.macaddrGenerate data) 32 0
  ∀ m ∈ macs, m ∉ phy.taken used → ∀ t ∈ phy.taken used ++ macs, macaddrSplit m = macaddrSplit t → m = t

/-- An address has one spelling where all texts are as `macaddr_join` writes them. -/
theorem spelledOnce_of_canonical {phy : Phy} {data : MacaddrOptions} {used : List (Text × Int)}
    (h : ∀ t ∈ phy.taken used ++ offered (phy.macaddrGenerate data) 32 0, macaddrJoin (macaddrSplit t) = t) :
    phy.SpelledOnce data used := by
  intro m hm _ t ht heq
  have hoffered := h m (List.mem_append_right _ hm)
  rw [← hoffered, heq, h t ht]

theorem neverRepeats_iff (phy : Phy) (data : MacaddrOptions) (used : List (Text × Int)) :
    phy.NeverRepeats data used ↔ phy.SpelledOnce data used := by
  have hmem {m : Text} : m ∈ fresh (phy.macaddrInit used) (offered (phy.macaddrGenerate data) 32 0) ↔
      m ∈ offered (phy.macaddrGenerate data) 32 0 ∧ m ∉ phy.taken used := by
    rw [mem_fresh, macaddrInit_eq_none]
  constructor
  · intro h m hm hfree t ht heq
    -- as many calls as there are free addresses hand all of them out
    have hall := h (List.replicate (fresh (phy.macaddrInit used) (offered (phy.macaddrGenerate data) 32 0)).length none)
    simp only [allocate_eq_take, List.length_replicate, List.take_length] at hall
    have hmfresh := hmem.mpr ⟨hm, hfree⟩
    by_cases htaken : t ∈ phy.taken used
    · exact absurd heq (hall.2 m hmfresh t htaken)
    · have htoffered := (List.mem_append.mp ht).resolve_left htaken
      exact List.inj_on_of_nodup_map hall.1 hmfresh (hmem.mpr ⟨htoffered, htaken⟩) heq
  · intro h calls
    simp only [allocate_eq_take]
    have htake {m : Text} (hm : m ∈ (fresh (phy.macaddrInit used) (offered (phy.macaddrGenerate data) 32 0)).take calls.length) :
        m ∈ offered (phy.macaddrGenerate data) 32 0 ∧ m ∉ phy.taken used := hmem.mp (List.mem_of_mem_take hm)
    constructor
    · refine List.Nodup.map_on (fun m hm t ht heq => ?_) ((fresh_nodup _ _).sublist (List.take_sublist _ _))
      exact h m (htake hm).1 (htake hm).2 t (List.mem_append_right _ (htake ht).1) heq
    · intro m hm t ht heq
      obtain rfl := h m (htake hm).1 (htake hm).2 t (List.mem_append_left _ ht) heq
      exact (htake hm).2 ht

/-- A phy whose address is used in upper case. -/
def upper : Phy := { macaddress := some "02:00:00:00:00:ab".toList, addressMask := some "00:00:00:00:00:00".toList }

theorem upper_repeats : ¬ upper.NeverRepeats {} [("02:00:00:00:00:AB".toList, -1)] := by
  intro h
  have hmem : "02:00:00:00:00:ab".toList ∈
      upper.allocate {} (upper.macaddrInit [("02:00:00:00:00:AB".toList, -1)]) [none] := by decide
  exact (h [none]).2 _ hmem "02:00:00:00:00:AB".toList (by decide) (by decide)

end RainWrt.Wifi.Mac.Phy
