import RainWrt.LinkedList
import RainWrt.Nvram

/-! The hash table of the `nvram` library as it lies in memory: tuples that are linked by pointers, in the lists of the
    table or in the list of dead tuples. Allocations succeed. -/

namespace RainWrt.Nvram

/-- `h->nvram_hash[i]` and `h->nvram_dead`. -/
inductive Anchor
  | hash (i : Nat)
  | dead
  deriving DecidableEq

structure Store where
  heap : Heap Anchor Tuple
  /-- `h->length - h->offset`. -/
  space : Nat

namespace Store

/-- The table behind `_nvram_free`, for a handle with this space. -/
def empty (space : Nat) : Store := ⟨⟨[], fun _ => none⟩, space⟩

/-- The loop that looks for a name, with `prev` and `t` at its end. A list that does not end within the cells gives none. -/
def find (s : Store) (name : Bytes) : Option (Slot Anchor × Option Nat) :=
  s.heap.find (fun t => t.name = name) (s.heap.cells.length + 1) (.head (.hash (bucket name)))

/-- `nvram_get`. -/
def get (s : Store) (name : Bytes) : Option (Option Bytes) := do
  let (_, t) ← s.find name
  return (t.bind fun t => s.heap.cells[t]?).map fun c => c.val.value

/-- `_nvram_realloc`. -/
def realloc (s : Store) (t : Option Nat) (name value : Bytes) : Option (Nat × Heap Anchor Tuple) :=
  if value.length + 1 > s.space then none
  else
    match t with
    | none => some (s.heap.cells.length, s.heap.alloc { name, value })
    | some t => some (t, s.heap.setVal t fun old => { old with value })

/-- `nvram_set`. -/
def set (s : Store) (name value : Bytes) : Option (Int × Store) := do
  let (prev, t) ← s.find name
  match s.realloc t name value with
  | none => return (-12, s)
  | some (u, heap) =>
    if t = some u then return (0, { s with heap })
    else
      let heap := match t with
        | none => heap
        | some t => (heap.unlink prev t).front t .dead
      return (0, { s with heap := heap.front u (.hash (bucket name)) })

/-- `nvram_unset`. -/
def unset (s : Store) (name : Bytes) : Option Store := do
  let (prev, t) ← s.find name
  match t with
  | none => return s
  | some t => return { s with heap := (s.heap.unlink prev t).front t .dead }

end Store

/-! ### Programs -/

inductive Call
  | get (name : Bytes)
  | set (name value : Bytes)
  | unset (name : Bytes)

/-- A call, with what it leaves. -/
def Store.call (s : Store) : Call → Option Store
  | .get name => do
    let _ ← s.get name
    return s
  | .set name value => do
    let (_, s) ← s.set name value
    return s
  | .unset name => s.unset name

end RainWrt.Nvram
