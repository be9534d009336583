import RainWrt.Theorems.Cli.Editor
import RainWrt.Unet.Iface

/-! Whether the section of an interface has what was edited. -/

namespace RainWrt.Unet

open Cli

variable {V U : Type} {C : Cursor V U}

/-! ### Names stay distinct -/

/-- The attributes of an object have distinct names. -/
def Tidy {P : Type} (s : Store P V) : Prop := ∀ p, (Obj.keys (s p)).Nodup

section
variable {P : Type} [DecidableEq P] {L : Values V} {K : Coercion} {s : Store P V}

theorem Tidy.put (h : Tidy s) (q : P) (name : String) (val : Arg V) : Tidy (s.put q name val) := by
  intro p
  unfold Store.put
  rcases eq_or_ne p q with rfl | hne
  · rw [Function.update_self]
    exact Obj.nodup_set (h p) name val
  · rw [Function.update_of_ne hne]
    exact h p

theorem Tidy.delete (h : Tidy s) (q : P) (name : String) : Tidy (s.delete q name) := by
  intro p
  unfold Store.delete
  rcases eq_or_ne p q with rfl | hne
  · rw [Function.update_self]
    exact Obj.nodup_del (h p) name
  · rw [Function.update_of_ne hne]
    exact h p

theorem Tidy.ensure (h : Tidy s) (q : P) (name : String) : Tidy (s.ensure q name) := by
  unfold Store.ensure
  split
  · exact h.put _ _ _
  · exact h.put _ _ _
  · exact h

/-- A parameter without its own ways. -/
def Plain (cur : Param P V) : Prop := cur.add = none ∧ cur.set = none ∧ cur.remove = none

theorem tidy_addEntry (h : Tidy s) {obj : P} {cur : Param P V} (hcur : Plain cur) (name : String) (val : List V) :
    Tidy (addEntry L obj s cur name val).1 := by
  have hensure : Tidy (s.ensure (cur.getParamObject obj) (cur.key name)) := h.ensure _ _
  unfold addEntry
  rw [hcur.1]
  dsimp only
  split
  · exact hensure
  · split
    · exact hensure.put _ _ _
    · exact hensure

theorem tidy_setEntry (h : Tidy s) {obj : P} {cur : Param P V} (hcur : Plain cur) (name : String) (val : Option (Arg V)) :
    Tidy (setEntry L obj s cur name val).1 := by
  unfold setEntry
  rw [hcur.2.1]
  dsimp only
  split
  · exact h.delete _ _
  · exact h.delete _ _
  · exact h.put _ _ _
  · split
    · exact h
    · exact h.put _ _ _

theorem tidy_removeEntry (h : Tidy s) {obj : P} {cur : Param P V} (hcur : Plain cur) (name : String) (val : List Text) :
    Tidy (removeEntry L K obj s cur name val).1 := by
  unfold removeEntry
  rw [hcur.2.2]
  dsimp only
  split
  · exact h
  · exact h
  · split_ifs
    · exact h
    · exact h.delete _ _
    · exact h.put _ _ _
  · split_ifs
    · exact h.delete _ _
    · exact h.put _ _ _

variable {spec : Obj (Param P V)} {obj : P}

theorem tidy_addFrom (hspec : ∀ e ∈ spec, Plain e.2) {all named : List (String × List V)} (h : Tidy s) :
    Tidy (addFrom L spec obj all s named).store := by
  induction named generalizing s with
  | nil => exact h
  | cons e named ih =>
    unfold addFrom
    split
    · exact h
    · rename_i cur hcur
      have hentry : Tidy (addEntry L obj s cur e.1 e.2).1 := tidy_addEntry h (hspec _ (Obj.mem_of_get? hcur)) e.1 e.2
      split
      · rename_i heq
        rw [heq] at hentry
        exact hentry
      · rename_i heq
        rw [heq] at hentry
        exact ih hentry

theorem tidy_setFrom (hspec : ∀ e ∈ spec, Plain e.2) {all named : List (String × Option (Arg V))} (h : Tidy s) :
    Tidy (setFrom L spec obj all s named).store := by
  induction named generalizing s with
  | nil => exact h
  | cons e named ih =>
    unfold setFrom
    split
    · exact ih h
    · rename_i cur hcur
      have hentry : Tidy (setEntry L obj s cur e.1 e.2).1 := tidy_setEntry h (hspec _ (Obj.mem_of_get? hcur)) e.1 e.2
      split
      · rename_i heq
        rw [heq] at hentry
        exact hentry
      · rename_i heq
        rw [heq] at hentry
        exact ih hentry

theorem tidy_removeFrom (hspec : ∀ e ∈ spec, Plain e.2) {all named : List (String × List Text)} {errors : List (Error V)} (h : Tidy s) :
    Tidy (removeFrom L K spec obj all s errors named).store := by
  induction named generalizing s errors with
  | nil =>
    unfold removeFrom
    split_ifs
    · exact h
    · exact h
  | cons e named ih =>
    unfold removeFrom
    split
    · exact h
    · rename_i cur hcur
      split_ifs
      · exact h
      · exact ih (tidy_removeEntry h (hspec _ (Obj.mem_of_get? hcur)) e.1 e.2)

end

section
variable {L : Values V} {K : Coercion}

theorem plain_iface : ∀ e ∈ (ifaceEditor : Obj (Param Unit V)), Plain e.2 := by
  simp [ifaceEditor, Plain, ifaceParam]

/-- A command keeps the names distinct. -/
theorem tidy_edit {netdata : Netdata V} (h : Tidy netdata.iface) (command : Command V) : Tidy (netdata.edit L K command).iface := by
  cases command with
  | add named =>
    refine tidy_addFrom (fun e he => ?_) h
    obtain ⟨e', he', rfl⟩ := List.mem_map.mp he
    exact plain_iface e' (List.mem_of_mem_filter he')
  | set named =>
    refine tidy_setFrom (fun e he => ?_) h
    obtain ⟨e', he', rfl⟩ := List.mem_map.mp he
    exact plain_iface e' he'
  | remove named =>
    refine tidy_removeFrom (fun e he => ?_) h
    obtain ⟨e', he', rfl⟩ := List.mem_map.mp he
    exact plain_iface e' (List.mem_of_mem_filter he')

theorem keys_mapVals {α β : Type} (o : Obj α) (f : α → β) : Obj.keys (Obj.mapVals o f) = Obj.keys o := by
  unfold Obj.keys Obj.mapVals
  rw [List.map_map]
  rfl

/-- The session of edits of a section. -/
def session (C : Cursor V U) (L : Values V) (K : Coercion) (orig : Section U) (commands : List (Command V)) : Netdata V :=
  commands.foldl (Netdata.edit L K) (.new C orig)

theorem tidy_session (orig : Section U) (commands : List (Command V)) : Tidy (session C L K orig commands).iface := by
  have hnew : Tidy (Netdata.new C orig).iface := by
    intro p
    rw [show (Netdata.new C orig).iface p = Obj.mapVals orig.options C.load from rfl, keys_mapVals]
    exact orig.nodup
  unfold session
  generalize Netdata.new C orig = netdata at hnew
  induction commands generalizing netdata with
  | nil => exact hnew
  | cons command commands ih => exact ih _ (tidy_edit hnew command)

end

/-! ### The loop of the save -/

/-- What a round leaves under its name. -/
def savedValue (C : Cursor V U) (old : Option U) : Arg V → Option U
  | .null => none
  | val => if old.any fun u => C.eq u val then old else C.set old val

theorem get?_saveEntry {ifaceOrig : Obj U} {cur : Obj U × Bool} {e : String × Arg V}
    (h : Obj.get? cur.1 e.1 = Obj.get? ifaceOrig e.1) (name : String) :
    Obj.get? (saveEntry C ifaceOrig cur e).1 name =
      if name = e.1 then savedValue C (Obj.get? ifaceOrig e.1) e.2 else Obj.get? cur.1 name := by
  obtain ⟨key, val⟩ := e
  unfold saveEntry savedValue
  cases val with
  | list _ | one _ =>
    dsimp only
    rw [h]
    by_cases hname : name = key
    · subst hname
      rw [if_pos rfl]
      split_ifs
      · exact h
      · split
        · rename_i u hset
          rw [hset]
          exact Obj.get?_set_self
        · rename_i hset
          rw [hset]
          exact Obj.get?_del.trans (if_pos rfl)
    · rw [if_neg hname]
      split_ifs
      · rfl
      · split
        · exact Obj.get?_set_ne hname
        · exact Obj.get?_del.trans (if_neg hname)
  | null =>
    dsimp only
    by_cases hname : name = key
    · subst hname
      rw [if_pos rfl]
      split_ifs with hnone
      · rw [h]
        exact Option.isNone_iff_eq_none.mp hnone
      · rw [Obj.get?_del, if_pos rfl]
    · rw [if_neg hname]
      split_ifs
      · rfl
      · rw [Obj.get?_del, if_neg hname]

/-- What the loop leaves under a name. -/
theorem get?_save {ifaceOrig : Obj U} {l : Obj (Arg V)} (hl : (Obj.keys l).Nodup) {cur : Obj U × Bool}
    (h : ∀ name ∈ Obj.keys l, Obj.get? cur.1 name = Obj.get? ifaceOrig name) (name : String) :
    Obj.get? (l.foldl (saveEntry C ifaceOrig) cur).1 name =
      (Obj.get? l name).elim (Obj.get? cur.1 name) (savedValue C (Obj.get? ifaceOrig name)) := by
  induction l generalizing cur with
  | nil => rfl
  | cons e l ih =>
    obtain ⟨hnot, hnodup⟩ := List.nodup_cons.mp hl
    have hentry := get?_saveEntry (C := C) (h e.1 List.mem_cons_self)
    have hrest : ∀ name ∈ Obj.keys l, Obj.get? (saveEntry C ifaceOrig cur e).1 name = Obj.get? ifaceOrig name := by
      intro name hname
      have hne : name ≠ e.1 := by
        rintro rfl
        exact hnot hname
      rw [hentry, if_neg hne]
      exact h name (List.mem_cons_of_mem _ hname)
    rw [List.foldl_cons, ih hnodup hrest, hentry, Obj.get?_cons]
    by_cases hname : e.1 = name
    · have hnone : Obj.get? l name = none := by
        rw [← Option.not_isSome_iff_eq_none, ← Obj.mem_keys, ← hname]
        exact hnot
      rw [if_pos hname.symm, if_pos hname, hnone, ← hname]
      rfl
    · rw [if_neg (Ne.symm hname), if_neg hname]

/-! ### What is saved -/

/-- The option that a value stands for. Null, an empty text and an empty list stand for none. -/
def intended (C : Cursor V U) : Arg V → Option U
  | .null | .list [] => none
  | .one v => if C.empty v then none else some (C.store (.one v))
  | val => some (C.store val)

/-- The section has the options of the interface, with their values. -/
def Saved (C : Cursor V U) (options : Obj U) (iface : Obj (Arg V)) : Prop :=
  ∀ name, Obj.get? options name = (Obj.get? iface name).bind (intended C)

/-- What the save relies on: edits are reported, no option was removed, no value only looks like the one of the section, and
    what is no value of an option is stored as what it stands for. -/
structure Additive (C : Cursor V U) (orig : Section U) (netdata : Netdata V) : Prop where
  reported : netdata.ifaceChanged = false → Saved C orig.options (netdata.iface ())
  kept : netdata.ifaceChanged = true → ∀ name, Obj.get? (netdata.iface ()) name = none → Obj.get? orig.options name = none
  spelled : netdata.ifaceChanged = true → ∀ name val u, Obj.get? (netdata.iface ()) name = some val → val ≠ .null →
    Obj.get? orig.options name = some u → C.eq u val = true → intended C val = some u
  stored : netdata.ifaceChanged = true → ∀ name val, Obj.get? (netdata.iface ()) name = some val → val ≠ .null →
    ¬Storable C.empty val → (∀ u, Obj.get? orig.options name = some u → C.eq u val = false) →
      C.set (Obj.get? orig.options name) val = intended C val

theorem intended_eq {val : Arg V} (h : Storable C.empty val) : intended C val = some (C.store val) := by
  cases val with
  | list vals =>
    cases vals with
    | nil => exact absurd rfl h.1
    | cons v vals => rfl
  | one v => exact if_neg (Bool.eq_false_iff.mp h)
  | null => exact h.elim

theorem savedValue_of_ne {old : Option U} {val : Arg V} (h : val ≠ .null) :
    savedValue C old val = if old.any fun u => C.eq u val then old else C.set old val := by
  cases val with
  | list vals => rfl
  | one v => rfl
  | null => exact absurd rfl h

/-- What a round leaves is what is intended. -/
theorem savedValue_iff {old : Option U} {val : Arg V} (hval : val ≠ .null) :
    savedValue C old val = intended C val ↔
      (∀ u, old = some u → C.eq u val = true → intended C val = some u) ∧
        (¬Storable C.empty val → (∀ u, old = some u → C.eq u val = false) → C.set old val = intended C val) := by
  rw [savedValue_of_ne hval]
  split_ifs with heq
  · obtain ⟨u, hu, hsame⟩ := (Option.any_eq_true ..).mp heq
    constructor
    · intro h
      refine ⟨fun u' hu' _ => by rw [← h, hu'], fun _ hno => ?_⟩
      rw [hno u hu] at hsame
      cases hsame
    · intro h
      rw [h.1 u hu hsame, hu]
  · have hno : ∀ u, old = some u → C.eq u val = false := by
      rintro u rfl
      simpa using heq
    have hfirst : ∀ u, old = some u → C.eq u val = true → intended C val = some u := by
      intro u hu hsame
      rw [hno u hu] at hsame
      cases hsame
    constructor
    · exact fun h => ⟨hfirst, fun _ _ => h⟩
    · intro h
      by_cases hstorable : Storable C.empty val
      · rw [C.set_eq old val hstorable, intended_eq hstorable]
      · exact h.2 hstorable hno

/-- Edits that remove nothing are saved. -/
theorem saved_iff_of_changed {orig : Section U} {netdata : Netdata V} (htidy : (Obj.keys (netdata.iface ())).Nodup)
    (hchanged : netdata.ifaceChanged = true) : Saved C (networkIfaceSave C orig netdata).1 (netdata.iface ()) ↔
      ∀ name, (Obj.get? (netdata.iface ()) name = none → Obj.get? orig.options name = none) ∧
        ∀ val, Obj.get? (netdata.iface ()) name = some val → savedValue C (Obj.get? orig.options name) val = intended C val := by
  have hget := @get?_save _ _ C orig.options _ htidy (orig.options, false) (fun _ _ => rfl)
  rw [networkIfaceSave, hchanged]
  refine forall_congr' fun name => ?_
  simp only [Bool.not_true, Bool.false_eq_true, if_false, hget]
  cases Obj.get? (netdata.iface ()) name with
  | none => simp
  | some val => simp

theorem save_iff (C : Cursor V U) (L : Values V) (K : Coercion) (orig : Section U) (commands : List (Command V)) :
    Saved C (networkIfaceSave C orig (session C L K orig commands)).1 ((session C L K orig commands).iface ()) ↔
      Additive C orig (session C L K orig commands) := by
  have htidy := tidy_session (C := C) (L := L) (K := K) orig commands ()
  generalize session C L K orig commands = netdata at htidy
  cases hchanged : netdata.ifaceChanged with
  | false =>
    constructor
    · intro h
      simp only [networkIfaceSave, hchanged] at h
      exact ⟨fun _ => h, by simp [hchanged], by simp [hchanged], by simp [hchanged]⟩
    · intro h
      simp only [networkIfaceSave, hchanged]
      exact h.reported hchanged
  | true =>
    rw [saved_iff_of_changed htidy hchanged]
    constructor
    · intro h
      refine ⟨by simp [hchanged], fun _ name => (h name).1, fun _ name val u hval hne hu => ?_, fun _ name val hval hne => ?_⟩
      · exact ((savedValue_iff hne).mp ((h name).2 val hval)).1 u hu
      · exact ((savedValue_iff hne).mp ((h name).2 val hval)).2
    · intro h name
      refine ⟨h.kept hchanged name, fun val hval => ?_⟩
      by_cases hne : val = .null
      · subst hne
        rfl
      · exact (savedValue_iff hne).mpr ⟨fun u => h.spelled hchanged name val u hval hne, h.stored hchanged name val hval hne⟩

/-- Options as texts and lists of texts. -/
def textCursor : Cursor Text (Arg Text) where
  load := id
  store := id
  eq
    | .one a, .one b => a = b
    | _, _ => false
  empty v := v = []
  set
    | old, .list [] => old
    | _, .one [] | _, .null => none
    | _, val => some val
  set_eq := by
    intro old val h
    cases val with
    | list vals =>
      cases vals with
      | nil => exact absurd rfl h.1
      | cons v vals => rfl
    | one v =>
      cases v with
      | nil => cases h
      | cons c v => rfl
    | null => exact h.elim

/-- A section with a metric. -/
def metric : Section (Arg Text) := ⟨[("metric", .one "100".toList)], List.pairwise_singleton _ _⟩

theorem metric_stays : ¬ Saved textCursor (networkIfaceSave textCursor metric (session textCursor texts .simple metric [.set [("metric", none)]])).1
    ((session textCursor texts .simple metric [.set [("metric", none)]]).iface ()) := by
  intro h
  exact absurd (h "metric") (by decide)

end RainWrt.Unet
