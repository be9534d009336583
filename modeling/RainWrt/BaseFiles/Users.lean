import RainWrt.BaseFiles.Words

/-! `functions.sh`: groups and users that packages require. A file is the list of its lines, each of which
    ends with a newline. -/

namespace RainWrt.BaseFiles.Users

def firstGid : Nat := 32768
def firstUid : Nat := 32768

/-! ### Groups -/

/-- `grep -s "^name:"`, where `name` has no special characters. -/
def grepName (name : Text) (lines : List Text) : List Text := lines.filter fun line => (name ++ [':']).isPrefixOf line

/-- `group_add`. -/
def groupAdd (group : List Text) (name gid : Text) : List Text := group ++ [name ++ ":x:".toList ++ gid ++ [':']]

/-- `while echo "$ids" | grep -q "^$id$"; do id=$((id + 1)); done`. -/
def nextFree (ids : List Text) : (rounds id : Nat) → Option Nat
  | 0, _ => none
  | rounds + 1, id => if decimal id ∈ ids then nextFree ids rounds (id + 1) else some id

/-- `group_add_next`: what it prints, and the file. -/
def groupAddNext (group : List Text) (name : Text) : Option (Text × List Text) :=
  let gid := substitute (['\n'].intercalate ((grepName name group).map (cut 3)))
  if gid ≠ [] then some (gid, group)
  else do
    let gids := group.map (cut 3)
    let gid ← nextFree gids (gids.length + 1) firstGid
    some (decimal gid, groupAdd group name (decimal gid))

/-- `grep -q $2`, of a line. A word that starts with `-` is an option, for which `opt` stands. -/
def grepUser (opt : Text → Text → Bool) (user line : Text) : Bool :=
  if user.head? = some '-' then opt user line else decide (user <:+: line)

/-- `group_add_user`. With no line or several ones, the pattern of `sed` is empty or has a newline, and the file stays. -/
def groupAddUser (opt : Text → Text → Bool) (group : List Text) (name user : Text) : List Text :=
  match grepName name group with
  | [grp] =>
    if grepUser opt user (cut 4 grp) then group
    else
      let delim := if grp.getLast? = some ':' then [] else [',']
      group.map (replaceFrom grp (grp ++ delim ++ user) 0)
  | _ => group

/-! ### Users -/

/-- `user_add`, of the lines of `passwd` and of `shadow`. -/
def userAdd (passwd shadow : List Text) (name uid gid desc home shell : Text) : Option (List Text × List Text) := do
  let desc := if desc = [] then name else desc
  let home := if home = [] then "/var/run/".toList ++ name else home
  let shell := if shell = [] then "/bin/false".toList else shell
  let uids := passwd.map (cut 3)
  let uid ← if uid = [] then (nextFree uids (uids.length + 1) firstUid).map decimal else some uid
  let gid := if gid = [] then uid else gid
  some (passwd ++ [name ++ ":x:".toList ++ uid ++ ':' :: gid ++ ':' :: desc ++ ':' :: home ++ ':' :: shell],
    shadow ++ [name ++ ":x:0:0:99999:7:::".toList])

end RainWrt.BaseFiles.Users
