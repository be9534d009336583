import RainWrt.Bytes

/-! `tar.sh`: the members of an archive, printed by the shell. A byte of value 1 stands for NUL in the
    variables, and becomes one on the way out. -/

namespace RainWrt.Upgrade.Tar

def ascii (s : List Char) : Bytes := s.map fun c => .ofNat c.toNat

/-- `printf` with `%0`, a width and `d` or `o`. -/
def printf (base width n : Nat) : Bytes := ascii ((Nat.toDigits base n).leftpad width '0')

/-- `${pad:0:n}`. -/
def pad (n : Nat) : Bytes := List.replicate (min n 100) 1

/-- `tr '\1' '\0'`. -/
def tr (s : Bytes) : Bytes := s.map fun b => if b = 1 then 0 else b

/-- `__tar_print_padding`. -/
def tarPrintPadding (count : Nat) : Bytes := List.replicate count 0

/-- The part of the header before the checksum. -/
def header1 (name : Bytes) (size mtime : Nat) : Bytes :=
  let mode := 644
  let uid := 0
  let gid := 0
  name ++ pad (100 - name.length) ++ (printf 10 7 mode ++ [1]) ++ (printf 8 7 uid ++ [1]) ++ (printf 8 7 gid ++ [1]) ++
    (printf 8 11 size ++ [1]) ++ (printf 8 11 mtime ++ [1])

/-- The part of the header after the checksum. -/
def header2 : Bytes :=
  let type := 0
  let link : Bytes := []
  let username := ascii "root".toList
  let groupname := ascii "root".toList
  printf 10 0 type ++ (link ++ pad (100 - link.length)) ++ (ascii "ustar  ".toList ++ pad 1) ++
    (username ++ pad (32 - username.length)) ++ (groupname ++ pad (32 - groupname.length))

/-- The sum of the header, with blanks for the checksum. -/
def checksum (header1 : Bytes) : Nat := ((tr (header1 ++ List.replicate 8 0x20 ++ header2)).map UInt8.toNat).sum

/-- `${name#/}`. -/
def stripSlash : Bytes → Bytes
  | 0x2f :: name => name
  | name => name

/-- `tar_print_member`. -/
def tarPrintMember (name content : Bytes) (mtime : Nat) : Bytes :=
  let size := content.length
  let name := (stripSlash name).take 100
  let header1 := header1 name size mtime
  tr (header1 ++ (printf 8 6 (checksum header1) ++ [0, 0x20]) ++ header2) ++ tarPrintPadding 183 ++ content ++
    tarPrintPadding (512 - size % 512)

/-- `tar_print_trailer`. -/
def tarPrintTrailer : Bytes := tarPrintPadding 1024

end RainWrt.Upgrade.Tar
