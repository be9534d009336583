import RainWrt.Nvram

/-! The accesses of `nvram_open` to the partition that is mapped. `size_t` has 32 bits. -/

namespace RainWrt.Nvram.Memory

/-- What reads behind the end of the mapping: the search for the header, the fields of the header, or the parsing of the text. -/
inductive Fault
  | search
  | header
  | text
  deriving DecidableEq, Repr

/-- The last index of the search. For a partition below `NVRAM_MIN_SPACE` the difference wraps around. -/
def lastIndex (mem : Bytes) : Nat := (mem.length + (2 ^ 32 - NVRAM_MIN_SPACE)) % 2 ^ 32 / 4

/-- The search for the header from index `i` on. -/
def search (mem : Bytes) (i : Nat) : Except Fault (Option Nat) :=
  if i ≤ lastIndex mem then
    if 4 * i + 4 ≤ mem.length then
      if word mem (4 * i) = NVRAM_MAGIC then .ok (some (4 * i)) else search mem (i + 1)
    else .error .search
  else .ok none
termination_by mem.length - 4 * i

/-- A field of the header. -/
def field (mem : Bytes) (offset : Nat) : Except Fault UInt32 :=
  if offset + 4 ≤ mem.length then .ok (word mem offset) else .error .header

/-- The loop of `_nvram_rehash`: `strchr` stops at `=` or NUL, `strlen` at NUL. -/
def pairs (data : Bytes) : Except Fault (List Tuple) :=
  if data = [] then .error .text
  else if data.head? = some 0 then .ok []
  else
    match _h : data.dropWhile fun c => c ≠ 0 ∧ c ≠ 61 with
    | [] => .error .text
    | eq :: value =>
      if eq = 61 then
        match _h' : value.dropWhile (· ≠ 0) with
        | [] => .error .text
        | _ :: rest => do
          let ts ← pairs rest
          return { name := data.takeWhile fun c => c ≠ 0 ∧ c ≠ 61, value := value.takeWhile (· ≠ 0) } :: ts
      else .ok []
termination_by data.length
decreasing_by
  have h1 := (List.dropWhile_sublist (l := data) fun c => c ≠ 0 ∧ c ≠ 61).length_le
  have h2 := (List.dropWhile_sublist (l := value) fun c => c ≠ 0).length_le
  rw [_h, List.length_cons] at h1
  rw [_h', List.length_cons] at h2
  omega

/-- `_nvram_rehash`. The code reads a field only if its parameter is missing; behind the loop the whole header is in the buffer, so it is
    read here in any case. -/
def rehash (h : Handle) : Except Fault Handle := do
  let ts ← pairs (h.mem.drop (h.offset + headerSize))
  let g := ts.foldl (fun h t => (h.set t.name t.value).2) { h with chain := fun _ => [] }
  let crcVerInit ← field h.mem (h.offset + 8)
  let configRefresh ← field h.mem (h.offset + 12)
  let configNcdl ← field h.mem (h.offset + 16)
  let g := setDefault g sdramInit (hex16 (crcVerInit >>> 16))
  let g := setDefault g sdramConfig (hex16 (low16 configRefresh))
  let g := setDefault g sdramRefresh (hex16 (low16 (configRefresh >>> 16)))
  return setDefault g sdramNcdl (hex32 configNcdl)

/-- `header->magic == NVRAM_MAGIC && (rdonly || header->len < h->length - h->offset)`. -/
def accepts (mem : Bytes) (rdonly : Bool) (offset : Nat) : Except Fault Bool := do
  let magic ← field mem offset
  if magic ≠ NVRAM_MAGIC then return false
  else if rdonly then return true
  else
    let len ← field mem (offset + 4)
    return len.toNat < mem.length - offset

/-- `nvram_open`, of a partition with these bytes. -/
def «open» (mem : Bytes) (rdonly : Bool) : Except Fault (Option Handle) := do
  match ← search mem 0 with
  | none => return none
  | some offset =>
    let accepted ← accepts mem rdonly offset
    if accepted then
      let h ← rehash { mem, offset }
      return some h
    else return none

end RainWrt.Nvram.Memory
