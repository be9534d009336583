import RainWrt.Obj

/-! `kconfig.pl`: configurations as hashes of options, read from files and combined as an expression says. The prefix of the
    options stands for itself, it holds no characters with a meaning in a pattern. -/

namespace RainWrt.Kconfig

/-- A value is text; an option that is not set has the value `#undef`. -/
abbrev Config := Obj String

/-- What Perl takes for true. -/
def truthy (v : String) : Bool := v ≠ "" && v ≠ "0"

/-- `set_config`. -/
def setConfig (config : Config) (idx newval : String) (modPlus : Bool) : Config :=
  match config.get? idx with
  | none => config.set idx newval
  | some val => if !modPlus || val = "#undef" || newval = "y" then config.set idx newval else config

/-! ### Lines -/

/-- `(.+?)` before what `follow` takes. -/
def shortest {α : Type} (follow : List Char → Option α) : List Char → Option (List Char × α)
  | [] => none
  | c :: rest =>
    match follow rest with
    | some a => some ([c], a)
    | none => (shortest follow rest).map fun (s, a) => (c :: s, a)

/-- `=(.+)`. -/
def valueOf : List Char → Option (List Char)
  | '=' :: c :: val => some (c :: val)
  | _ => none

/-- What a line says of an option. -/
def parseLine (pre line : List Char) : Option (String × String) :=
  match (line.dropPrefix? pre).bind fun rest => shortest valueOf rest with
  | some (idx, val) => some (.ofList idx, .ofList val)
  | none =>
    match (line.dropPrefix? ("# ".toList ++ pre)).bind fun rest =>
        shortest (fun l => if " is not set".toList.isPrefixOf l then some () else none) rest with
    | some (idx, _) => some (.ofList idx, "#undef")
    | none => none

/-- `load_config`, from the lines of the file; other lines are skipped, with a warning if they are no comments. -/
def loadConfig (pre : List Char) (file : List (List Char)) (modPlus : Bool) : Config :=
  file.foldl (fun config line =>
    match parseLine pre line with
    | some (idx, val) => setConfig config idx val modPlus
    | none => config) []

/-- The lines of a text, without their ends. -/
def readLines : (line text : List Char) → List (List Char)
  | line, [] => if line = [] then [] else [line]
  | line, c :: text => if c = '\n' then line :: readLines [] text else readLines (line ++ [c]) text

/-! ### Intersection -/

/-- The body of the loop in `config_and`. -/
def andOption (cfg1 cfg2 config : Config) (k : String) : Config :=
  match cfg1.get? k, cfg2.get? k with
  | some val1, some val2 => if truthy val2 && val1 = val2 then config.set k val1 else config
  | _, _ => config

/-- `config_and`. -/
def configAnd (cfg1 cfg2 : Config) : Config := cfg1.keys.foldl (andOption cfg1 cfg2) []

/-! ### Sum -/

/-- The body of the inner loop in `config_add`. -/
def addOption (cfg : Config) (modPlus : Bool) (config : Config) (k : String) : Config :=
  match cfg.get? k with
  | some val =>
    if modPlus && (config.get? k).any truthy && (config.get? k = some "y" || val = "#undef") then config
    else config.set k val
  | none => config

/-- `config_add`. -/
def configAdd (cfg1 cfg2 : Config) (modPlus : Bool) : Config :=
  [cfg1, cfg2].foldl (fun config cfg => cfg.keys.foldl (addOption cfg modPlus) config) []

/-! ### Difference -/

/-- The body of the loop in `config_diff`. -/
def diffOption (cfg1 cfg2 : Config) (newOnly : Bool) (config : Config) (k : String) : Config :=
  match cfg2.get? k with
  | some val =>
    if cfg1.get? k = some val then config
    else if newOnly && cfg1.get? k = none && val = "#undef" then config
    else config.set k val
  | none => config

/-- `config_diff`. -/
def configDiff (cfg1 cfg2 : Config) (newOnly : Bool) : Config := cfg2.keys.foldl (diffOption cfg1 cfg2 newOnly) []

/-! ### Output -/

/-- `print_cfgline`, without the end of the line. -/
def cfgline (pre : List Char) (name val : String) : List Char :=
  if val = "#undef" ∨ val = "n" then "# ".toList ++ pre ++ (name.toList ++ " is not set".toList)
  else pre ++ (name.toList ++ '=' :: val.toList)

/-- `dump_config`. -/
def dumpConfig (pre : List Char) (cfg : Config) : List Char :=
  (cfg.keys.mergeSort (· ≤ ·)).flatMap fun k =>
    match cfg.get? k with
    | some val => cfgline pre k val ++ ['\n']
    | none => []

/-! ### Expressions -/

/-- Why the script dies. -/
inductive Death where
  | cantOpen (file : String)
  | parseError
  | invalidOption (cmd : String)
  | badPattern (expr : String)
  /-- Not a death: the bound on the depth is used up. -/
  | tooDeep
  deriving DecidableEq

/-- What the script finds around it. -/
structure Surroundings where
  /-- The text that is read from what an argument opens. -/
  openFile : String → Option (List Char)
  /-- What `/^$expr$/` matches, if it is a pattern. -/
  pattern : String → Option (String → Bool)

/-- `$expr =~ /[?.*]/`. -/
def isPattern (expr : String) : Bool := expr.toList.any (· ∈ ['?', '.', '*'])

section
variable (env : Surroundings)

/-- The keys of `cfg1` that one key of `cfg2` names. -/
def subKeys (cfg1 : Config) (expr : String) : Except Death (List String) :=
  if isPattern expr then
    match cfg1.keys, env.pattern expr with
    | [], _ => .ok []
    | _ :: _, none => .error (.badPattern expr)
    | keys, some isMatch => .ok (keys.filter isMatch)
  else .ok [expr]

/-- `config_sub`. -/
def configSub (cfg1 cfg2 : Config) : Except Death Config := do
  let keys ← cfg2.keys.mapM (subKeys env cfg1)
  return keys.flatten.foldl Obj.del cfg1

/-- The operators of an expression. -/
inductive Op where
  | and
  | add
  | addMod
  | diff
  | diffNew
  | sub
  deriving DecidableEq

/-- The operator that an argument stands for; the others are files. -/
def operator (arg : String) : Option Op :=
  if arg = "&" then some .and
  else if ['+'].isPrefixOf arg.toList then some .add
  else if ['m', '+'].isPrefixOf arg.toList then some .addMod
  else if arg = ">" then some .diff
  else if arg = ">+" then some .diffNew
  else if arg = "-" then some .sub
  else none

/-- What `parse_expr` makes of two operands. -/
def Op.apply (op : Op) (arg1 arg2 : Config) : Except Death Config :=
  match op with
  | .and => .ok (configAnd arg1 arg2)
  | .add => .ok (configAdd arg1 arg2 false)
  | .addMod => .ok (configAdd arg1 arg2 true)
  | .diff => .ok (configDiff arg1 arg2 false)
  | .diffNew => .ok (configDiff arg1 arg2 true)
  | .sub => configSub env arg1 arg2

variable (pre : List Char)

/-- `load_config`, with its file. -/
def openConfig (file : String) (modPlus : Bool) : Except Death Config :=
  match env.openFile file with
  | some text => .ok (loadConfig pre (readLines [] text) modPlus)
  | none => .error (.cantOpen file)

/-- `parse_expr`: the configuration, and the arguments that are left. `$mod_plus` is for a second operand of `m+`, if that is a
    file. -/
def parseExpr : Nat → Bool → List String → Except Death (Config × List String)
  | 0, _, _ => .error .tooDeep
  | _ + 1, _, [] => .error .parseError
  | n + 1, modPlus, arg :: args =>
    if !truthy arg then .error .parseError
    else
      match operator arg with
      | some op => do
        let (arg1, args) ← parseExpr n false args
        let (arg2, args) ← parseExpr n (op = .addMod) args
        return (← op.apply env arg1 arg2, args)
      | none => do return (← openConfig env pre arg modPlus, args)

/-- `$ARGV[0] =~ /^-\w+$/`. -/
def isOption (arg : String) : Bool :=
  match arg.toList with
  | '-' :: word => word ≠ [] && word.all fun c => c.isAlphanum || c = '_'
  | _ => false

/-- The options: they set the prefix. -/
def parseOptions : List Char → List String → Except Death (List Char × List String)
  | pre, [] => .ok (pre, [])
  | pre, cmd :: args =>
    if !isOption cmd then .ok (pre, cmd :: args)
    else if cmd = "-n" then parseOptions [] args
    else if cmd = "-p" then
      match args with
      | [] => .ok ([], [])
      | prefixArg :: args => parseOptions prefixArg.toList args
    else .error (.invalidOption cmd)

/-- The script: what it prints, and why it dies, if it does. -/
def kconfig (argv : List String) : List Char × Option Death :=
  match parseOptions "CONFIG_".toList argv with
  | .error e => ([], some e)
  | .ok (pre, args) =>
    match parseExpr env pre (args.length + 1) false args with
    | .error e => ([], some e)
    | .ok (cfg, rest) => (dumpConfig pre cfg, if rest.head?.any truthy then some .parseError else none)

end

end RainWrt.Kconfig
