import RainWrt.Bytes

/-! `iwcap`: captured frames are kept in a ring of slots, which is dumped on request. -/

namespace RainWrt.Iwcap

/-! ### The geometry of the ring -/

/-- The options that it depends on, with the numbers that `atoi` returns. -/
inductive Opt where
  | r (n : Int)
  | c (n : Int)

structure Geometry where
  ringsz : Nat := 1024 * 1024
  pktcap : Nat := 256

/-- One option. The program ends where a size is too short. -/
def Geometry.option (g : Geometry) : Opt → Option Geometry
  | .r n =>
    let ringsz := (n % 2 ^ 32).toNat
    if ringsz < 3 * g.pktcap then none else some { g with ringsz }
  | .c n =>
    let pktcap := (n % 2 ^ 16).toNat
    if pktcap ≤ 8 + 32 then none else some { g with pktcap }

/-- The options are read one after the other. -/
def geometry (opts : List Opt) : Option Geometry := opts.foldlM Geometry.option {}

/-! ### The ring -/

/-- `sizeof(struct ringbuf_entry)`. -/
def entrySize : Nat := 16

/-- `struct ringbuf`. -/
structure Ring where
  len : Nat
  fill : Nat
  slen : Nat
  buf : Bytes

/-- `ringbuf_init` for memory with these bytes. Only the first of them are cleared. -/
def ringbufInit (numItem lenItem : Nat) (mem : Bytes) : Ring where
  len := numItem
  fill := 0
  slen := lenItem + entrySize
  buf := writeAt mem 0 (List.replicate (numItem * lenItem) 0)

/-- A frame, with the time when it was received. -/
structure Frame where
  sec : UInt32
  usec : UInt32
  data : Bytes

/-- `ringbuf_add`, and the place of the slot in the memory. Numbers have 32 bits; the remainder by zero stops the
    program. -/
def ringbufAdd (r : Ring) (sec usec : UInt32) : Option (Nat × Ring) :=
  let e := r.fill * r.slen % 2 ^ 32
  if r.len = 0 then none
  else
    let buf := writeAt r.buf e (List.replicate r.slen 0)
    let buf := writeAt buf (e + 8) (le32 sec)
    let buf := writeAt buf (e + 12) (le32 usec)
    some (e, { r with fill := (r.fill + 1) % 2 ^ 32 % r.len, buf })

/-- A frame goes into a new slot, cut off after `pktcap` bytes. -/
def store (pktcap : Nat) (r : Ring) (f : Frame) : Option Ring := do
  let (e, r) ← ringbufAdd r f.sec f.usec
  let len := if f.data.length > pktcap then pktcap else f.data.length
  let buf := writeAt r.buf (e + 4) (le32 (.ofNat f.data.length))
  let buf := writeAt buf e (le32 (.ofNat len))
  return { r with buf := writeAt buf (e + entrySize) (f.data.take len) }

/-- `ringbuf_get`: the place of a slot that is in use. -/
def ringbufGet (r : Ring) (i : Nat) : Option Nat :=
  let e := (r.fill + i) % 2 ^ 32 % r.len * r.slen % 2 ^ 32
  if 0 < (word r.buf e).toNat then some e else none

/-- What is written for a slot: the header of the frame and its bytes. -/
structure Record where
  sec : UInt32
  usec : UInt32
  inclLen : Nat
  origLen : Nat
  data : Bytes
  deriving DecidableEq

/-- `write_pcap_frame` takes lengths of 16 bits. -/
def record (buf : Bytes) (e : Nat) : Record where
  sec := word buf (e + 8)
  usec := word buf (e + 12)
  inclLen := (word buf e).toNat % 2 ^ 16
  origLen := (word buf (e + 4)).toNat % 2 ^ 16
  data := slice buf (e + entrySize) (word buf e).toNat

/-- The records of a dump, behind the header of the file. -/
def dump (r : Ring) : List Record := (List.range r.len).filterMap fun i => (ringbufGet r i).map (record r.buf)

/-! ### The capture loop -/

/-- The options that leave frames out. -/
structure Filter where
  data : Bool := false
  beacon : Bool := false

def le16At (b : Bytes) (i : Nat) : Nat := (b.getD i 0).toNat + 256 * (b.getD (i + 1) 0).toNat

/-- Whether a frame is left out: it is too short for its header, or of a type that is filtered. -/
def filtered (filter : Filter) (pkt : Bytes) : Bool :=
  let itLen := le16At pkt 2
  if pkt.length ≤ 8 ∨ itLen ≥ pkt.length then true
  else
    let frametype := pkt.getD itLen 0 &&& 0xfc
    filter.data && frametype == 0x08 || filter.beacon && frametype == 0x80

/-- The variables of the loop. -/
structure Capture where
  ring : Ring
  framesCaptured : Nat := 0
  framesFiltered : Nat := 0

/-- One round: what `recvfrom` gives, cut off at the size of the packet buffer, or an error. -/
def round (filter : Filter) (pktcap : Nat) (s : Capture) (f : Option Frame) : Option Capture :=
  let s := { s with framesCaptured := (s.framesCaptured + 1) % 2 ^ 32 }
  match f with
  | none => some { s with framesFiltered := (s.framesFiltered + 1) % 2 ^ 32 }
  | some f =>
    let f := { f with data := f.data.take 0xffff }
    if filtered filter f.data then some { s with framesFiltered := (s.framesFiltered + 1) % 2 ^ 32 }
    else (store pktcap s.ring f).map ({ s with ring := · })

/-- The loop from the start, with memory that holds these bytes. -/
def capture (filter : Filter) (g : Geometry) (mem : Bytes) (frames : List (Option Frame)) : Option Capture :=
  frames.foldlM (round filter g.pktcap) { ring := ringbufInit (g.ringsz / g.pktcap) g.pktcap mem }

end RainWrt.Iwcap
