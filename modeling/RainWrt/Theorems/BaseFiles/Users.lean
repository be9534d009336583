import RainWrt.BaseFiles.Users
import RainWrt.Theorems.BaseFiles.Ipv4
import RainWrt.Theorems.BaseFiles.Words
import RainWrt.Theorems.Lists

/-! What the registration of groups and users leaves, on files with different names: a line that is
    rewritten is a match in every line that contains it. -/

namespace RainWrt.BaseFiles.Users

/-! ### Lines -/

def isNameChar (c : Char) : Bool := 'a' ≤ c && c ≤ 'z' || 'A' ≤ c && c ≤ 'Z' || '0' ≤ c && c ≤ '9' || c = '_' || c = '-'

def IsName (s : Text) : Prop := s ≠ [] ∧ ∀ c ∈ s, isNameChar c = true

/-- A line of `/etc/group`. The password has no character with a meaning for `sed`. -/
structure Group where
  name : Text
  password : Text
  gid : Nat
  members : List Text
  named : IsName name
  plain : ∀ c ∈ password, isNameChar c = true ∨ c = '!'
  named_members : ∀ m ∈ members, IsName m

namespace Group

def memberText (a : Group) : Text := [','].intercalate a.members

def line (a : Group) : Text := a.name ++ ':' :: (a.password ++ ':' :: (decimal a.gid ++ ':' :: a.memberText))

end Group

/-- The members in a line. -/
def membersOf (line : Text) : List Text := ((cut 4 line).splitOn ',').filter (· ≠ [])

/-- A line with one more member. -/
def Extended (u line line' : Text) : Prop :=
  cut 1 line' = cut 1 line ∧ cut 2 line' = cut 2 line ∧ cut 3 line' = cut 3 line ∧ ∀ x, x ∈ membersOf line' ↔ x ∈ membersOf line ∨ x = u

/-- The group has the user as a member, the other lines stay, and a second call changes nothing. -/
def Right (opt : Text → Text → Bool) (lines : List Text) (g u : Text) : Prop :=
  List.Forall₂ (fun line line' => if cut 1 line = g then Extended u line line' else line' = line) lines (groupAddUser opt lines g u) ∧
    groupAddUser opt (groupAddUser opt lines g u) g u = groupAddUser opt lines g u

/-- A member is found among the members and is one, or it is found only once it is added, and no other line has the group's line in it. -/
def Meets (opt : Text → Text → Bool) (gs : List Group) (a : Group) (u : Text) : Prop :=
  grepUser opt u a.memberText = true ∧ u ∈ a.members ∨
    grepUser opt u a.memberText = false ∧ grepUser opt u ([','].intercalate (a.members ++ [u])) = true ∧
      ∀ b ∈ gs, b.name ≠ a.name → ¬a.line <:+: b.line

/-! ### Fields -/

theorem isNameChar_ne {c : Char} (h : isNameChar c = true) : c ≠ ':' ∧ c ≠ ',' ∧ c ≠ '\n' := by
  refine ⟨fun hc => ?_, fun hc => ?_, fun hc => ?_⟩ <;> rw [hc] at h <;> cases h

theorem IsName.colon {s : Text} (h : IsName s) : ':' ∉ s := fun hc => (isNameChar_ne (h.2 ':' hc)).1 rfl

theorem IsName.comma {s : Text} (h : IsName s) : ',' ∉ s := fun hc => (isNameChar_ne (h.2 ',' hc)).2.1 rfl

theorem colon_not_mem_decimal (n : Nat) : ':' ∉ decimal n := fun h => by
  have hdigit := digit_of_mem h
  exact absurd hdigit.2 (by decide)

theorem newline_not_mem_decimal (n : Nat) : '\n' ∉ decimal n := fun h => by
  have hdigit := digit_of_mem h
  exact absurd hdigit.1 (by decide)

theorem splitOn_of_not_mem {s : Text} (hs : ':' ∉ s) : s.splitOn ':' = [s] :=
  List.splitOnP_eq_singleton fun x hx => beq_false_of_ne fun h => hs (by rwa [h] at hx)

theorem splitOn_field {p : Text} (hp : ':' ∉ p) (s : Text) : (p ++ ':' :: s).splitOn ':' = p :: s.splitOn ':' := by
  have hne : ∀ x ∈ p, (x == ':') = false := fun x hx => beq_false_of_ne fun h => hp (by rwa [h] at hx)
  exact List.splitOnP_append_cons_of_forall_mem hne ':' (beq_self_eq_true ':') s

section
variable {p q r : Text}

theorem cut_one (hp : ':' ∉ p) (s : Text) : cut 1 (p ++ ':' :: s) = p := by
  rw [cut, if_pos (by simp), splitOn_field hp]
  rfl

theorem cut_two (hp : ':' ∉ p) (hq : ':' ∉ q) (s : Text) : cut 2 (p ++ ':' :: (q ++ ':' :: s)) = q := by
  rw [cut, if_pos (by simp), splitOn_field hp, splitOn_field hq]
  rfl

theorem cut_three (hp : ':' ∉ p) (hq : ':' ∉ q) (hr : ':' ∉ r) (s : Text) : cut 3 (p ++ ':' :: (q ++ ':' :: (r ++ ':' :: s))) = r := by
  rw [cut, if_pos (by simp), splitOn_field hp, splitOn_field hq, splitOn_field hr]
  rfl

theorem cut_four (hp : ':' ∉ p) (hq : ':' ∉ q) (hr : ':' ∉ r) {s : Text} (hs : ':' ∉ s) :
    cut 4 (p ++ ':' :: (q ++ ':' :: (r ++ ':' :: s))) = s := by
  rw [cut, if_pos (by simp), splitOn_field hp, splitOn_field hq, splitOn_field hr, splitOn_of_not_mem hs]
  rfl

/-- A name with a colon behind it is at the start of the lines of that name. -/
theorem isPrefixOf_name (hp : ':' ∉ p) (hq : ':' ∉ q) (s : Text) : (p ++ [':']).isPrefixOf (q ++ ':' :: s) = true ↔ q = p := by
  rw [List.isPrefixOf_iff_prefix]
  constructor
  · rintro ⟨t, ht⟩
    have hcut := cut_one hq s
    rw [← ht, List.append_assoc, List.singleton_append, cut_one hp] at hcut
    exact hcut.symm
  · rintro rfl
    exact ⟨s, by simp⟩

end

namespace Group

variable (a : Group)

theorem colon_password : ':' ∉ a.password := fun h => by
  rcases a.plain ':' h with h | h <;> cases h

theorem colon_memberText : ':' ∉ a.memberText := fun h => by
  rcases mem_intercalate h with h | ⟨m, hm, h⟩
  · cases List.mem_singleton.mp h
  · exact (a.named_members m hm).colon h

theorem cut_one_line : cut 1 a.line = a.name := cut_one a.named.colon _

theorem cut_two_line : cut 2 a.line = a.password := cut_two a.named.colon a.colon_password _

theorem cut_three_line : cut 3 a.line = decimal a.gid := cut_three a.named.colon a.colon_password (colon_not_mem_decimal _) _

theorem cut_four_line : cut 4 a.line = a.memberText :=
  cut_four a.named.colon a.colon_password (colon_not_mem_decimal _) a.colon_memberText

theorem membersOf_line : membersOf a.line = a.members := by
  rw [membersOf, cut_four_line, memberText]
  by_cases hnil : a.members = []
  · rw [hnil]
    rfl
  · rw [List.splitOn_intercalate ',' (fun m hm => (a.named_members m hm).comma) hnil, List.filter_eq_self]
    exact fun m hm => by simpa using (a.named_members m hm).1

theorem memberText_eq_nil : a.memberText = [] ↔ a.members = [] := by
  rw [memberText]
  cases hm : a.members with
  | nil => simp
  | cons m l =>
    have hne := (a.named_members m (by rw [hm]; exact List.mem_cons_self)).1
    cases l <;> simp [List.intercalate_cons_cons, hne]

theorem line_eq : a.line = (a.name ++ ':' :: (a.password ++ ':' :: decimal a.gid)) ++ ':' :: a.memberText := by
  simp [line]

/-- A line ends with a colon if the group has no members. -/
theorem getLast_line : a.line.getLast? = some ':' ↔ a.members = [] := by
  rw [← memberText_eq_nil, line_eq]
  constructor
  · intro h
    by_contra hne
    rw [List.getLast?_append_of_ne_nil _ (List.cons_ne_nil _ _), List.getLast?_cons_of_ne_nil hne] at h
    exact a.colon_memberText (List.mem_of_getLast? h)
  · intro h
    rw [h, List.getLast?_concat]

/-- The group with one more member. -/
def add (u : Text) (hu : IsName u) : Group :=
  { a with
    members := a.members ++ [u]
    named_members := fun m hm => (List.mem_append.mp hm).elim (a.named_members m) fun hm => List.mem_singleton.mp hm ▸ hu }

theorem intercalate_concat {l : List Text} (hl : l ≠ []) (u : Text) : [','].intercalate (l ++ [u]) = [','].intercalate l ++ ',' :: u := by
  induction l with
  | nil => exact absurd rfl hl
  | cons m l ih =>
    cases l with
    | nil => simp [List.intercalate_cons_cons]
    | cons m' l =>
      have ih := ih (List.cons_ne_nil m' l)
      rw [List.cons_append] at ih
      rw [List.cons_append, List.cons_append, List.intercalate_cons_cons, ih, List.intercalate_cons_cons]
      simp

theorem line_add (u : Text) (hu : IsName u) :
    (a.add u hu).line = a.line ++ (if a.line.getLast? = some ':' then [] else [',']) ++ u := by
  have hadd : (a.add u hu).line = (a.name ++ ':' :: (a.password ++ ':' :: decimal a.gid)) ++ ':' :: [','].intercalate (a.members ++ [u]) :=
    (a.add u hu).line_eq
  simp only [hadd, getLast_line]
  by_cases hnil : a.members = []
  · rw [if_pos hnil, line_eq, memberText, hnil]
    simp
  · rw [if_neg hnil, intercalate_concat hnil, line_eq, memberText]
    simp

end Group

/-! ### The line of a group -/

section
variable {gs : List Group} {a : Group} {u : Text} (opt : Text → Text → Bool)

theorem grepName_lines (g : Text) (hg : ':' ∉ g) : grepName g (gs.map Group.line) = (gs.filter fun b => b.name = g).map Group.line := by
  rw [grepName, List.filter_map]
  congr 1
  refine List.filter_congr fun b _ => ?_
  rw [Function.comp_apply, Bool.eq_iff_iff, decide_eq_true_eq]
  exact isPrefixOf_name hg b.named.colon _

theorem grepName_mem (hn : (gs.map (·.name)).Nodup) (ha : a ∈ gs) : grepName a.name (gs.map Group.line) = [a.line] := by
  rw [grepName_lines _ a.named.colon, filter_key hn ha]
  rfl

/-- The line with the user added. -/
def rewritten (a : Group) (u : Text) : Text := a.line ++ (if a.line.getLast? = some ':' then [] else [',']) ++ u

theorem groupAddUser_eq (hn : (gs.map (·.name)).Nodup) (ha : a ∈ gs) : groupAddUser opt (gs.map Group.line) a.name u =
    if grepUser opt u a.memberText then gs.map Group.line
    else (gs.map Group.line).map (replaceFrom a.line (rewritten a u) 0) := by
  rw [groupAddUser, grepName_mem hn ha]
  simp only [a.cut_four_line]
  rfl

theorem line_ne_nil : a.line ≠ [] := fun h => a.named.1 (List.append_eq_nil_iff.mp h).1

theorem length_rewritten (hu : u ≠ []) : a.line.length < (rewritten a u).length := by
  have hpos := List.length_pos_of_ne_nil hu
  rw [rewritten, List.length_append, List.length_append]
  omega

/-- Nothing changes exactly if the user is found. -/
theorem groupAddUser_unchanged (hn : (gs.map (·.name)).Nodup) (ha : a ∈ gs) (hu : u ≠ []) :
    groupAddUser opt (gs.map Group.line) a.name u = gs.map Group.line ↔ grepUser opt u a.memberText = true := by
  rw [groupAddUser_eq opt hn ha]
  cases hgrep : grepUser opt u a.memberText
  · simp only [Bool.false_eq_true, if_false, iff_false]
    intro h
    have hline := List.map_inj_left.mp (h.trans (List.map_id _).symm) a.line (List.mem_map_of_mem ha)
    rw [replaceFrom_self line_ne_nil, id] at hline
    have hlt := length_rewritten (a := a) hu
    rw [hline] at hlt
    exact Nat.lt_irrefl _ hlt
  · simp

theorem replaceFrom_eq_iff (hu : u ≠ []) {s : Text} : replaceFrom a.line (rewritten a u) 0 s = s ↔ ¬a.line <:+: s := by
  refine ⟨fun h hin => ?_, replaceFrom_of_not_infix⟩
  have hlt := length_lt_replaceFrom line_ne_nil (length_rewritten (a := a) hu) hin
  rw [h] at hlt
  exact Nat.lt_irrefl _ hlt

theorem name_inj (hn : (gs.map (·.name)).Nodup) (ha : a ∈ gs) {b : Group} (hb : b ∈ gs) (h : b.name = a.name) : b = a :=
  List.inj_on_of_nodup_map hn hb ha h

/-- The other lines stay exactly if none of them has the line of the group in it. -/
theorem forall₂_rewritten (hn : (gs.map (·.name)).Nodup) (ha : a ∈ gs) (hu : IsName u) :
    List.Forall₂ (fun line line' => if cut 1 line = a.name then Extended u line line' else line' = line) (gs.map Group.line)
      ((gs.map Group.line).map (replaceFrom a.line (rewritten a u) 0)) ↔ ∀ b ∈ gs, b.name ≠ a.name → ¬a.line <:+: b.line := by
  rw [List.forall₂_map_right_iff, List.forall₂_same, List.forall_mem_map]
  refine forall_congr' fun b => imp_congr_right fun hb => ?_
  rw [b.cut_one_line]
  split_ifs with hname
  · obtain rfl := name_inj hn ha hb hname
    rw [replaceFrom_self line_ne_nil, rewritten, ← b.line_add u hu]
    refine iff_of_true ⟨?_, ?_, ?_, fun x => ?_⟩ fun h => absurd hname h
    · rw [(b.add u hu).cut_one_line, b.cut_one_line, Group.add]
    · rw [(b.add u hu).cut_two_line, b.cut_two_line, Group.add]
    · rw [(b.add u hu).cut_three_line, b.cut_three_line, Group.add]
    · rw [(b.add u hu).membersOf_line, b.membersOf_line, Group.add, List.mem_append, List.mem_singleton]
  · rw [replaceFrom_eq_iff hu.1]
    exact ⟨fun h _ => h, fun h => h hname⟩

/-- With the other lines as they were, a second call finds the user or adds it again. -/
theorem second_call (hn : (gs.map (·.name)).Nodup) (ha : a ∈ gs) (hu : IsName u) (hother : ∀ b ∈ gs, b.name ≠ a.name → ¬a.line <:+: b.line) :
    groupAddUser opt ((gs.map Group.line).map (replaceFrom a.line (rewritten a u) 0)) a.name u =
        (gs.map Group.line).map (replaceFrom a.line (rewritten a u) 0) ↔
      grepUser opt u ([','].intercalate (a.members ++ [u])) = true := by
  let after (b : Group) : Group := if b.name = a.name then a.add u hu else b
  have hname : ∀ b, (after b).name = b.name := fun b => by
    simp only [after]
    split_ifs with h
    · exact h.symm
    · rfl
  have hlines : (gs.map Group.line).map (replaceFrom a.line (rewritten a u) 0) = (gs.map after).map Group.line := by
    rw [List.map_map, List.map_map]
    refine List.map_congr_left fun b hb => ?_
    simp only [Function.comp_apply, after]
    split_ifs with h
    · obtain rfl := name_inj hn ha hb h
      rw [replaceFrom_self line_ne_nil, rewritten, ← b.line_add u hu]
    · exact (replaceFrom_eq_iff hu.1).mpr (hother b hb h)
  have hnames : ((gs.map after).map (·.name)).Nodup := by
    have hsame : gs.map ((·.name) ∘ after) = gs.map (·.name) := List.map_congr_left fun b _ => hname b
    rw [List.map_map, hsame]
    exact hn
  have hafter : a.add u hu ∈ gs.map after := List.mem_map.mpr ⟨a, ha, if_pos rfl⟩
  rw [hlines]
  exact groupAddUser_unchanged opt hnames hafter hu.1

theorem right_iff (hn : (gs.map (·.name)).Nodup) (ha : a ∈ gs) (hu : IsName u) :
    Right opt (gs.map Group.line) a.name u ↔ Meets opt gs a u := by
  rw [Right, Meets]
  cases hgrep : grepUser opt u a.memberText
  · have hadded : groupAddUser opt (gs.map Group.line) a.name u = (gs.map Group.line).map (replaceFrom a.line (rewritten a u) 0) := by
      rw [groupAddUser_eq opt hn ha, hgrep]
      rfl
    rw [hadded]
    constructor
    · rintro ⟨hlines, htwice⟩
      have hother := (forall₂_rewritten hn ha hu).mp hlines
      exact Or.inr ⟨rfl, (second_call opt hn ha hu hother).mp htwice, hother⟩
    · rintro (⟨h, -⟩ | ⟨-, hfound, hother⟩)
      · cases h
      · exact ⟨(forall₂_rewritten hn ha hu).mpr hother, (second_call opt hn ha hu hother).mpr hfound⟩
  · have hsame := (groupAddUser_unchanged opt hn ha hu.1).mpr hgrep
    rw [hsame, hsame]
    simp only [List.forall₂_same, and_true, true_and, Bool.true_eq_false, false_and, or_false]
    constructor
    · intro h
      have ha' := h a.line (List.mem_map_of_mem ha)
      rw [if_pos a.cut_one_line] at ha'
      rw [← a.membersOf_line]
      exact (ha'.2.2.2 u).mpr (Or.inr rfl)
    · intro hmem line hline
      obtain ⟨b, hb, rfl⟩ := List.mem_map.mp hline
      rw [b.cut_one_line]
      split_ifs with hname
      · obtain rfl := name_inj hn ha hb hname
        refine ⟨rfl, rfl, rfl, fun x => ⟨Or.inl, fun h => h.elim id fun h => ?_⟩⟩
        rw [h, b.membersOf_line]
        exact hmem

end

/-! ### Numbers -/

theorem nextFree_congr {ids ids' : List Text} (rounds id : Nat) (h : ∀ k, id ≤ k → (decimal k ∈ ids ↔ decimal k ∈ ids')) :
    nextFree ids rounds id = nextFree ids' rounds id := by
  induction rounds generalizing id with
  | zero => rfl
  | succ rounds ih =>
    rw [nextFree, nextFree, ih (id + 1) fun k hk => h k (by omega), if_congr (h id (Nat.le_refl id)) rfl rfl]

/-- As many rounds as there are numbers, and one more, find a number that is not among them. -/
theorem nextFree_spec {ids : List Text} {rounds : Nat} (id : Nat) (h : ids.length < rounds) :
    ∃ n, nextFree ids rounds id = some n ∧ id ≤ n ∧ decimal n ∉ ids := by
  induction rounds generalizing ids id with
  | zero => cases h
  | succ rounds ih =>
    rw [nextFree]
    split_ifs with hused
    · have hlen := List.length_erase_of_mem hused
      have hpos := List.length_pos_of_mem hused
      have hmem : ∀ k, id + 1 ≤ k → (decimal k ∈ ids ↔ decimal k ∈ ids.erase (decimal id)) := fun k hk => by
        have hne : decimal k ≠ decimal id := fun heq => by
          have := decimal_inj.mp heq
          omega
        exact (List.mem_erase_of_ne hne).symm
      obtain ⟨n, hn, hle, hfree⟩ := @ih (ids.erase (decimal id)) (id + 1) (by omega)
      exact ⟨n, (nextFree_congr rounds (id + 1) hmem).trans hn, by omega, fun h => hfree ((hmem n hle).mp h)⟩
    · exact ⟨id, rfl, Nat.le_refl id, hused⟩

theorem groupAddNext_mem {gs : List Group} {a : Group} (hn : (gs.map (·.name)).Nodup) (ha : a ∈ gs) :
    groupAddNext (gs.map Group.line) a.name = some (decimal a.gid, gs.map Group.line) := by
  have hgid : substitute (['\n'].intercalate ((grepName a.name (gs.map Group.line)).map (cut 3))) = decimal a.gid := by
    rw [grepName_mem hn ha, List.map_singleton, a.cut_three_line, List.intercalate_singleton]
    exact substitute_of_not_mem (newline_not_mem_decimal a.gid)
  rw [groupAddNext]
  simp only [hgid]
  rw [if_pos (decimal_ne_nil a.gid)]

theorem groupAddNext_new {gs : List Group} {g : Text} (hg : IsName g) (hnew : ∀ a ∈ gs, a.name ≠ g) :
    ∃ n, (∀ a ∈ gs, a.gid ≠ n) ∧ groupAddNext (gs.map Group.line) g =
      some (decimal n, gs.map Group.line ++ [g ++ ":x:".toList ++ decimal n ++ [':']]) := by
  have hnone : (gs.filter fun b => b.name = g) = [] := List.filter_eq_nil_iff.mpr fun b hb => by simpa using hnew b hb
  have hgid : substitute (['\n'].intercalate ((grepName g (gs.map Group.line)).map (cut 3))) = [] := by
    rw [grepName_lines g hg.colon, hnone]
    rfl
  obtain ⟨n, hn, -, hfree⟩ := nextFree_spec firstGid (Nat.lt_succ_self ((gs.map Group.line).map (cut 3)).length)
  refine ⟨n, fun a ha hgid => hfree ?_, ?_⟩
  · rw [← hgid, ← a.cut_three_line]
    exact List.mem_map_of_mem (List.mem_map_of_mem ha)
  · rw [groupAddNext]
    simp only [hgid, ne_eq, not_true_eq_false, if_false, hn, Option.bind_eq_bind, Option.bind_some, groupAdd]

/-- A line of `/etc/passwd`. -/
structure User where
  name : Text
  password : Text
  uid : Nat
  /-- The other fields, with their colons. -/
  rest : Text
  named : IsName name
  plain : ':' ∉ password

def User.line (a : User) : Text := a.name ++ ':' :: (a.password ++ ':' :: (decimal a.uid ++ ':' :: a.rest))

theorem userAdd_new {us : List User} (shadow : List Text) (name gid desc home shell : Text) :
    ∃ n, (∀ a ∈ us, a.uid ≠ n) ∧ ∃ rest, userAdd (us.map User.line) shadow name [] gid desc home shell =
      some (us.map User.line ++ [name ++ ":x:".toList ++ decimal n ++ ':' :: rest], shadow ++ [name ++ ":x:0:0:99999:7:::".toList]) := by
  obtain ⟨n, hn, -, hfree⟩ := nextFree_spec firstUid (Nat.lt_succ_self ((us.map User.line).map (cut 3)).length)
  have hcut : ∀ a : User, cut 3 a.line = decimal a.uid := fun a => cut_three a.named.colon a.plain (colon_not_mem_decimal a.uid) a.rest
  refine ⟨n, fun a ha huid => hfree ?_, ?_⟩
  · rw [← huid, ← hcut]
    exact List.mem_map_of_mem (List.mem_map_of_mem ha)
  · rw [userAdd]
    simp only [if_true, hn, Option.map_some, Option.bind_eq_bind, Option.bind_some, List.append_assoc, List.cons_append]
    exact ⟨_, rfl⟩

/-- Adding a user to a group is right exactly if the user is found only as a member and the line of the group is in no other line.
    New groups and users get a number of their own. -/
theorem registration_iff (opt : Text → Text → Bool) :
    (∀ gs : List Group, (gs.map (·.name)).Nodup → ∀ a ∈ gs, ∀ u, IsName u → (Right opt (gs.map Group.line) a.name u ↔ Meets opt gs a u)) ∧
      (∀ gs : List Group, (gs.map (·.name)).Nodup → ∀ a ∈ gs,
        groupAddNext (gs.map Group.line) a.name = some (decimal a.gid, gs.map Group.line)) ∧
      (∀ (gs : List Group) (g : Text), IsName g → (∀ a ∈ gs, a.name ≠ g) → ∃ n, (∀ a ∈ gs, a.gid ≠ n) ∧
        groupAddNext (gs.map Group.line) g = some (decimal n, gs.map Group.line ++ [g ++ ":x:".toList ++ decimal n ++ [':']])) ∧
      ∀ (us : List User) (shadow : List Text) (name gid desc home shell : Text), ∃ n, (∀ a ∈ us, a.uid ≠ n) ∧ ∃ rest,
        userAdd (us.map User.line) shadow name [] gid desc home shell =
          some (us.map User.line ++ [name ++ ":x:".toList ++ decimal n ++ ':' :: rest], shadow ++ [name ++ ":x:0:0:99999:7:::".toList]) :=
  ⟨fun _ hn _ ha _ hu => right_iff opt hn ha hu, fun _ hn _ ha => groupAddNext_mem hn ha, fun _ _ hg hnew => groupAddNext_new hg hnew,
    fun _ => userAdd_new⟩

/-- `dialout:x:20:network`. -/
def dialout : Group where
  name := "dialout".toList
  password := ['x']
  gid := 20
  members := ["network".toList]
  named := ⟨by decide, forall_mem_of_all _ (by decide)⟩
  plain := forall_mem_of_all _ (by decide)
  named_members := fun m hm => by
    obtain rfl := List.mem_singleton.mp hm
    exact ⟨by decide, forall_mem_of_all _ (by decide)⟩

/-- `net` is found in `network`, and is no member. -/
theorem group_user_not_added : ¬Right (fun _ _ => false) [dialout.line] "dialout".toList "net".toList := fun h => by
  have hname : IsName "net".toList := ⟨by decide, forall_mem_of_all _ (by decide)⟩
  have hmeets := (@right_iff [dialout] dialout _ _ (List.nodup_singleton _) List.mem_cons_self hname).mp h
  have hfound : grepUser (fun _ _ => false) "net".toList dialout.memberText = true := by decide
  rcases hmeets with ⟨-, hmem⟩ | ⟨hnot, -⟩
  · exact absurd hmem (by decide)
  · rw [hfound] at hnot
    cases hnot

theorem registration_iff_dialout :
    (Right (fun _ _ => false) ([dialout].map Group.line) dialout.name "net".toList ↔ Meets (fun _ _ => false) [dialout] dialout "net".toList) ∧
      groupAddNext ([dialout].map Group.line) dialout.name = some ("20".toList, [dialout].map Group.line) ∧
      ∃ n, (∀ a ∈ [dialout], a.gid ≠ n) ∧ groupAddNext ([dialout].map Group.line) "net".toList =
        some (decimal n, [dialout].map Group.line ++ ["net".toList ++ ":x:".toList ++ decimal n ++ [':']]) := by
  have hname : IsName "net".toList := ⟨by decide, forall_mem_of_all _ (by decide)⟩
  have hnodup : ([dialout].map (·.name)).Nodup := List.nodup_singleton _
  have hne : ∀ a ∈ [dialout], a.name ≠ "net".toList := fun a ha => by
    obtain rfl := List.mem_singleton.mp ha
    decide
  obtain ⟨h1, h2, h3, -⟩ := registration_iff fun _ _ => false
  exact ⟨h1 [dialout] hnodup dialout List.mem_cons_self _ hname, h2 [dialout] hnodup dialout List.mem_cons_self,
    h3 [dialout] _ hname hne⟩

end RainWrt.BaseFiles.Users
