import RainWrt.BaseFiles.Words
import RainWrt.Bytes

/-! `bootconfig.sh`: a table of partitions, each with a name and a flag for the primary boot. -/

namespace RainWrt.BaseFiles.Bootconfig

def partSize : Nat := 20
def nameSize : Nat := 16
def maxNumParts : Nat := 16

/-- Bytes in a variable of the shell. -/
def text (b : Bytes) : Text := b.map fun c => Char.ofNat c.toNat

/-- `validate_bootconfig_magic`. -/
def validMagic (file : Bytes) : Bool :=
  (slice file 0 4 = [0xa0, 0xa1, 0xa2, 0xa3] || slice file 0 4 = [0xa1, 0xa1, 0xa2, 0xa3]) && slice file 332 4 = [0xb0, 0xb1, 0xb2, 0xb3]

/-- `get_bootconfig_numparts`. -/
def numparts (file : Bytes) : Nat := (word file 8).toNat

/-- The name that is compared, of twelve bytes. The shell keeps no NUL. -/
def nameraw (file : Bytes) (i : Nat) : Text :=
  replaceFrom "S\\x00".toList [] 0 (substitute (text ((slice file (12 + i * partSize) 12).filter (· ≠ 0))))

/-- `get_bootconfig_partidx`, by its lines. -/
def partidx (file : Bytes) (partname : Text) : List Nat :=
  (List.range (min (numparts file) maxNumParts)).filter fun i => partname = nameraw file i

def primarybootOffset (i : Nat) : Nat := 12 + i * partSize + nameSize

/-- `get_bootconfig_primaryboot`. Two lines are no number for `[`. -/
def getPrimaryboot (file : Bytes) (partname : Text) : Text :=
  match partidx file partname with
  | [i] => if i < maxNumParts then decimal (word file (primarybootOffset i)).toNat else []
  | _ => []

/-- `_set_bootconfig_primaryboot`, with the status. Two lines are no number for `$((...))`, where the shell ends. -/
def setField (file : Bytes) (partname primaryboot : Text) : Bool × Bytes :=
  match partidx file partname with
  | [i] =>
    if primaryboot = ['0'] then (true, writeAt file (primarybootOffset i) [0, 0, 0, 0])
    else if primaryboot = ['1'] then (true, writeAt file (primarybootOffset i) [1, 0, 0, 0])
    else (false, file)
  | _ => (false, file)

/-- The arguments behind `$file` in `_set_bootconfig_primaryboot $file $partname $primaryboot`. -/
def setArgs (sh : Shell) (partname primaryboot : Text) : List Text := sh.words partname ++ sh.words primaryboot

/-- `set_bootconfig_primaryboot`, of a file that exists and is writable. -/
def setPrimaryboot (sh : Shell) (file : Bytes) (partname primaryboot : Text) : Bool × Bytes :=
  if partname = [] ∨ primaryboot = [] then (false, file)
  else if !validMagic file then (false, file)
  else
    let args := setArgs sh partname primaryboot
    setField file ((args[0]?).getD []) ((args[1]?).getD [])

/-- `toggle_bootconfig_primaryboot`. -/
def togglePrimaryboot (file : Bytes) (partname : Text) : Bool × Bytes :=
  if partname = [] then (false, file)
  else if !validMagic file then (false, file)
  else
    let primaryboot := getPrimaryboot file partname
    if primaryboot = ['0'] then setField file partname ['1']
    else if primaryboot = ['1'] then setField file partname ['0']
    else (false, file)

end RainWrt.BaseFiles.Bootconfig
