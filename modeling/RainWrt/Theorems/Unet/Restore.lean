import RainWrt.Theorems.Cli.Editor
import RainWrt.Unet.Restore

/-! Whether the data that is signed has the edits made after a restore. The editor keeps the data that was opened, so that a restore
    cuts it off from `netdata.json`. -/

namespace RainWrt.Unet

open Cli

variable {V : Type} {L : Values V} {K : Coercion} {key : Option (Arg V) → String}

/-- The steps of a session. -/
def steps (L : Values V) (K : Coercion) (key : Option (Arg V) → String) (jsonData : Network V) (l : List (Step V)) : Session V :=
  l.foldl (Session.step L K key) (networkEdit jsonData)

/-! ### What is due -/

/-- The edit, in a session on this data alone. -/
def Edit.on (L : Values V) (K : Coercion) (key : Option (Arg V) → String) (e : Edit V) (data : Network V) : Network V :=
  (Session.edit L K key ⟨data, none, false⟩ e).objectEdit

/-- A step on the data that is to be signed: a restore replaces it and keeps the salt, the rounds and the id, an edit is applied
    to it. -/
def due (L : Values V) (K : Coercion) (key : Option (Arg V) → String) (data : Network V) : Step V → Network V
  | .restore none => data
  | .restore (some file) => .restore data.config file
  | .edit e => e.on L K key data
  | .apply _ => data

def dues (L : Values V) (K : Coercion) (key : Option (Arg V) → String) (jsonData : Network V) (l : List (Step V)) : Network V :=
  l.foldl (due L K key) (networkEdit jsonData).json

/-- The data with no more of an edit than a host's new names, in a session on the data `opened`. -/
def Edit.renamed (L : Values V) (K : Coercion) (key : Option (Arg V) → String) (opened data : Network V) : Edit V → Network V
  | .host name commands =>
    match opened.entry? .host name with
    | none => data
    | some entry =>
      data.modify .host fun hosts => renameHost hosts name (editHost L K key (data.objects .host).isSome entry commands).names
  | _ => data

/-- After a restore an edit only gives a host, one that the session was opened with, its new names in the restored data. -/
def Idle (L : Values V) (K : Coercion) (key : Option (Arg V) → String) (s : Session V) : Step V → Prop
  | .edit e => ∀ data, s.restored = some data → e.on L K key data = e.renamed L K key s.objectEdit data
  | _ => True

/-! ### Steps -/

section
variable {s : Session V} {e : Edit V}

variable (L K key e) in
/-- Until a restore, an edit is one of the data that is signed. -/
theorem edit_of_not_restored (h : s.restored = none) :
    (s.edit L K key e).restored = none ∧ (s.edit L K key e).objectEdit = e.on L K key s.objectEdit := by
  obtain ⟨objectEdit, restored, changed⟩ := s
  cases h
  cases e with
  | create type name named =>
    simp only [Edit.on, Session.edit, Session.create]
    split_ifs
    · exact ⟨rfl, rfl⟩
    · exact ⟨rfl, rfl⟩
  | destroy type name =>
    simp only [Edit.on, Session.edit, Session.destroy]
    cases objectEdit.entry? type name with
    | none => exact ⟨rfl, rfl⟩
    | some entry => exact ⟨rfl, rfl⟩
  | host name commands =>
    simp only [Edit.on, Session.edit, Session.host]
    cases objectEdit.entry? .host name with
    | none => exact ⟨rfl, rfl⟩
    | some entry => exact ⟨rfl, rfl⟩
  | service name commands =>
    simp only [Edit.on, Session.edit, Session.service]
    cases objectEdit.entry? .service name with
    | none => exact ⟨rfl, rfl⟩
    | some entry => exact ⟨rfl, rfl⟩
  | config commands => exact ⟨rfl, rfl⟩

variable (L K key e) in
/-- After a restore, an edit leaves the data that is signed, but for the new names of a host. -/
theorem edit_of_restored {data : Network V} (h : s.restored = some data) :
    (s.edit L K key e).restored = some (e.renamed L K key s.objectEdit data) := by
  cases e with
  | create type name named =>
    simp only [Session.edit, Session.create]
    split_ifs
    · exact h
    · exact h
  | destroy type name =>
    simp only [Session.edit, Session.destroy]
    cases s.objectEdit.entry? type name with
    | none => exact h
    | some entry => exact h
  | host name commands =>
    simp only [Session.edit, Session.host, Edit.renamed, Session.json, h, Option.getD_some]
    cases s.objectEdit.entry? .host name with
    | none => exact h
    | some entry => rfl
  | service name commands =>
    simp only [Session.edit, Session.service]
    cases s.objectEdit.entry? .service name with
    | none => exact h
    | some entry => exact h
  | config commands => exact h

/-- A step makes what is due of what is signed just if the edit is idle. -/
theorem json_step (step : Step V) : (s.step L K key step).json = due L K key s.json step ↔ Idle L K key s step := by
  cases step with
  | restore file =>
    cases file with
    | none => exact iff_of_true rfl trivial
    | some file => exact iff_of_true rfl trivial
  | edit e =>
    simp only [Session.step, due, Idle]
    cases h : s.restored with
    | none =>
      obtain ⟨hnone, hedit⟩ := edit_of_not_restored L K key e h
      simp [Session.json, h, hnone, hedit]
    | some data =>
      simp [Session.json, h, edit_of_restored L K key e h, eq_comm]
  | apply granted =>
    refine iff_of_true ?_ trivial
    simp only [Session.step, due]
    split_ifs
    · rfl
    · rfl

end

theorem json_eq_of_idle {jsonData : Network V} {l : List (Step V)}
    (h : ∀ p step, p ++ [step] <+: l → Idle L K key (steps L K key jsonData p) step) :
    (steps L K key jsonData l).json = dues L K key jsonData l := by
  induction l using List.reverseRecOn with
  | nil => rfl
  | append_singleton l step ih =>
    have hl := ih fun p step' hp => h p step' (hp.trans (List.prefix_append l [step]))
    unfold steps dues at hl ⊢
    rw [List.foldl_append, List.foldl_append, ← hl]
    exact (json_step step).mpr (h l step (List.prefix_refl _))

/-- At every moment of a session the data that would be signed is the restored data with the later edits, just if the edits after a
    restore are idle. -/
theorem restored_iff (L : Values V) (K : Coercion) (key : Option (Arg V) → String) (jsonData : Network V) (l : List (Step V)) :
    (∀ p, p <+: l → (steps L K key jsonData p).json = dues L K key jsonData p ∧
        ∀ data ∈ (steps L K key jsonData p).signed, data = dues L K key jsonData p) ↔
      ∀ p step, p ++ [step] <+: l → Idle L K key (steps L K key jsonData p) step := by
  constructor
  · intro h p step hp
    have hbefore := (h p ((List.prefix_append p [step]).trans hp)).1
    have hafter := (h _ hp).1
    rw [← json_step, hbefore]
    unfold steps dues at hafter ⊢
    rwa [List.foldl_append, List.foldl_append] at hafter
  · intro h p hp
    have hjson := json_eq_of_idle fun q step hq => h q step (hq.trans hp)
    refine ⟨hjson, fun data hdata => ?_⟩
    unfold Session.signed at hdata
    split_ifs at hdata
    · rw [← hjson]
      exact (Option.some.inj hdata).symm
    · cases hdata

/-- A network without hosts and services. -/
def bare : Network Text := ⟨fun _ => [], fun _ => none⟩

/-- A service that is created after a restore is not signed. -/
theorem service_lost : ¬ ∀ data ∈ (steps texts .simple (fun _ => "") bare
    [.restore (some bare), .edit (.create .service "mesh" [("type", some (.one "unetmsg".toList))])]).signed,
    data = dues texts .simple (fun _ => "") bare
      [.restore (some bare), .edit (.create .service "mesh" [("type", some (.one "unetmsg".toList))])] := by
  intro h
  have hobjects := congrArg (fun data => (data.objects .service).isSome) (h _ rfl)
  cases hobjects

end RainWrt.Unet
