import RainWrt.Iwcap

/-! The command line of `iwcap`. -/

namespace RainWrt.Iwcap

/-- What `getopt` returns, with the argument of the option; for `-r` and `-c` the number that `atoi` makes of it. -/
inductive Arg where
  | i (ifname : String)
  | r (n : Int)
  | c (n : Int)
  | s
  | o (output : String)
  | B
  | D
  | f
  | h
  -- `?`, for an option that is not known: `getopt` has complained about it
  | unknown

/-- The option of the geometry that it is. -/
def Arg.opt : Arg → Option Opt
  | .r n => some (.r n)
  | .c n => some (.c n)
  | _ => none

/-- The variables of `main` that the options set. -/
structure Options where
  ifname : String := ""
  ifindex : Nat := 0
  geometry : Geometry := {}
  output : Option String := none
  streaming : Bool := false
  foreground : Bool := false
  filter : Filter := {}

/-- The status that the program ends with, and its last message. -/
structure Exit where
  status : Nat
  message : String

/-- `%d` for a number of 32 bits. -/
def decimal (n : Nat) : String := toString (if n < 2 ^ 31 then (n : Int) else n - 2 ^ 32)

def usage (prog : String) (g : Geometry) : String :=
  s!"Usage:\n" ++
  s!"  {prog} -i \x7biface\x7d -s [-b] [-d]\n" ++
  s!"  {prog} -i \x7biface\x7d -o \x7bfile\x7d [-r len] [-c len] [-B] [-D] [-f]\n" ++
  "\n" ++
  "  -i iface\n" ++
  "    Specify interface to use, must be in monitor mode and\n" ++
  "    produce IEEE 802.11 Radiotap headers.\n\n" ++
  "  -s\n" ++
  "    Stream to stdout instead of Dumping to file on USR1.\n\n" ++
  "  -o file\n" ++
  "    Write current ringbuffer contents to given output file\n" ++
  "    on receipt of SIGUSR1.\n\n" ++
  "  -r len\n" ++
  "    Specify the amount of bytes to use for the ringbuffer.\n" ++
  s!"    The default length is {decimal g.ringsz} bytes.\n\n" ++
  "  -c len\n" ++
  "    Truncate captured packets after given amount of bytes.\n" ++
  s!"    The default size limit is {decimal g.pktcap} bytes.\n\n" ++
  "  -B\n" ++
  "    Don't store beacon frames in ring, default is keep.\n\n" ++
  "  -D\n" ++
  "    Don't store data frames in ring, default is keep.\n\n" ++
  "  -f\n" ++
  "    Do not daemonize but keep running in foreground.\n\n" ++
  "  -h\n" ++
  "    Display this help.\n\n"

section

-- the name of the program, and `if_nametoindex`
variable (prog : String) (ifNametoindex : String → Nat)

/-- One round of the loop. A size is stored before it is checked, and the message has the new one. -/
def Options.arg (v : Options) : Arg → Except Exit Options
  | .i ifname =>
    if ifNametoindex ifname = 0 then .error ⟨2, s!"Unknown interface '{ifname}'\n"⟩
    else .ok { v with ifname, ifindex := ifNametoindex ifname }
  | .r n =>
    match v.geometry.option (.r n) with
    | none => .error ⟨3, s!"Ring size of {decimal (n % 2 ^ 32).toNat} bytes is too short, must be at least {decimal (3 * v.geometry.pktcap)} bytes\n"⟩
    | some geometry => .ok { v with geometry }
  | .c n =>
    match v.geometry.option (.c n) with
    | none => .error ⟨4, s!"Packet truncate after {decimal (n % 2 ^ 16).toNat} bytes is too short, must be at least {decimal 40} bytes\n"⟩
    | some geometry => .ok { v with geometry }
  | .s => .ok { v with streaming := true }
  | .o output => .ok { v with output := some output }
  | .B => .ok { v with filter := { v.filter with beacon := true } }
  | .D => .ok { v with filter := { v.filter with data := true } }
  | .f => .ok { v with foreground := true }
  | .h => .error ⟨1, usage prog v.geometry⟩
  | .unknown => .ok v

/-- What is checked when all options are read. -/
def Options.check (isatty : Bool) (v : Options) : Except Exit Options :=
  if !v.streaming && v.output.isNone then .error ⟨1, "No output file specified\n"⟩
  else if v.streaming && v.output.isSome then .error ⟨1, "The -s and -o options are exclusive\n"⟩
  else if v.streaming && isatty then .error ⟨1, "Refusing to stream into a terminal\n"⟩
  else if v.ifindex = 0 then .error ⟨2, "No interface specified\n"⟩
  else .ok v

/-- The part of `main` that reads the command line. -/
def parse (isatty : Bool) (args : List Arg) : Except Exit Options := do
  (← args.foldlM (Options.arg prog ifNametoindex) {}).check isatty

end

/-- The ring that is made in memory with these bytes, where frames are not streamed. -/
def Options.ring (v : Options) (mem : Bytes) : Option Ring :=
  if v.streaming then none else some (ringbufInit (v.geometry.ringsz / v.geometry.pktcap) v.geometry.pktcap mem)

end RainWrt.Iwcap
