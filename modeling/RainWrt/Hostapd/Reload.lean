import Mathlib

/-! The configurations of `hostapd.uc`, one for each phy or radio of a phy. -/

namespace RainWrt.Hostapd

/-- The hashes of the files that a BSS names, for the fields of `hostapd.data.file_fields`. -/
structure FileHash where
  vlanFile : Option String := none
  wpaPskFile : Option String := none
  saePasswordFile : Option String := none
  rxkhFile : Option String := none
  acceptMacFile : Option String := none
  denyMacFile : Option String := none
  eapUserFile : Option String := none
  caCert : Option String := none
  serverCert : Option String := none
  serverCert2 : Option String := none
  privateKey : Option String := none
  privateKey2 : Option String := none
  dhFile : Option String := none
  eapSimDb : Option String := none
  deriving DecidableEq

structure Bss where
  ifname : String
  bssid : Option String := none
  /-- The lines of the file but `bssid`. -/
  data : List String := []
  hash : FileHash := {}
  nasid : Option String := none
  mldAp : Bool := false
  mldBssid : Option String := none
  defaultMacaddr : Bool := false
  randomMacaddr : Bool := false
  deriving DecidableEq

structure Radio where
  data : List String := []
  channel : Option String := none
  deriving DecidableEq

/-- What `iface_load_config` makes of a file. -/
structure Config where
  phy : String
  radioIdx : Option Nat := none
  radio : Radio := {}
  bss : List Bss := []
  mbssid : Bool := false
  deriving DecidableEq

end RainWrt.Hostapd

/-! `iface_reload_config`: which interfaces of the old configuration are kept, and the addresses of all of them. -/

namespace RainWrt.Hostapd

/-- `macaddr_list`: the index of a BSS, or -1. -/
abbrev MacaddrList := Option String → Option Int

/-- What the reload learns from the outside. -/
structure ReloadEnv where
  /-- The addresses of `hostapd.data.mld`. -/
  mld : List String
  fullmac : Bool
  /-- `bss_config_hash`. -/
  hash : List String → String
  /-- `force_reload` of an old BSS. -/
  forceReload : Nat → Bool
  /-- Whether `get_config_bss` finds an old BSS. -/
  live : Nat → Bool
  /-- The checks before the first step: nothing is pending, and the interface is enabled. -/
  ready : Bool
  /-- The addresses of the devices of the phy. -/
  wdevs : List String
  /-- `macaddr_generate` for an `id`. -/
  macaddrGenerate : Nat → Option String
  /-- Whether interfaces can be deleted and renamed (steps 3 to 5), and added, ordered and configured (steps 7 to 9). -/
  renames : Bool
  updates : Bool

/-- `iface_config_macaddr_list` -/
def ifaceConfigMacaddrList (env : ReloadEnv) (bss : List Bss) : MacaddrList :=
  bss.zipIdx.foldl (fun list (b, i) => if b.defaultMacaddr then list else Function.update list b.bssid (some (i : Int)))
    (env.mld.foldl (fun list macaddr => Function.update list (some macaddr) (some (-1))) fun _ => none)

/-- `!macaddr_list[addr]` -/
def isFree (list : MacaddrList) (addr : Option String) : Bool :=
  match list addr with
  | none => true
  | some v => v = 0

def setBssid (bss : List Bss) (i : Nat) (addr : Option String) : List Bss := bss.modify i fun b => { b with bssid := addr }

/-- The variables of the steps. -/
structure Reload where
  bss : List Bss
  list : MacaddrList
  /-- `bss_list` and `bss_list_cfg`: the old BSS that is kept as one of the new ones. -/
  kept : Nat → Option Nat := fun _ => none
  prevHash : List (Option String)

/-- `bss_find_existing`, where the first interface of a fullmac device is always found. -/
def findPrev (env : ReloadEnv) (prevHash : List (Option String)) (i : Nat) (cur : Bss) : Option Nat × List (Option String) :=
  if i = 0 && env.fullmac then (some 0, prevHash.set 0 none)
  else
    match prevHash.findIdx? fun h => h = some (env.hash cur.data) with
    | some prev => (some prev, prevHash.set prev none)
    | none => (none, prevHash)

/-- Whether the address of an old BSS goes to a new one, but for the list. -/
def sameKind (cur prev : Bss) : Bool :=
  (cur.defaultMacaddr || cur.randomMacaddr) && cur.randomMacaddr == prev.randomMacaddr &&
    cur.defaultMacaddr == prev.defaultMacaddr

/-- One round of step 1. -/
def keepBss (env : ReloadEnv) (old : List Bss) (i : Nat) (s : Reload) : Option Reload :=
  match s.bss[i]? with
  | none => some s
  | some cur =>
    let (prev, prevHash) := findPrev env s.prevHash i cur
    let s := { s with prevHash }
    match prev with
    | none => some s
    | some prev =>
      match old[prev]? with
      | none => none
      | some prevConfig =>
        if env.forceReload prev then some s
        else if !env.live prev then none
        else
          let s := if sameKind cur prevConfig && isFree s.list prevConfig.bssid then
              { s with list := Function.update s.list prevConfig.bssid (some (i : Int)),
                       bss := setBssid s.bss i prevConfig.bssid }
            else s
          some { s with kept := Function.update s.kept i (some prev) }

/-- Step 1. -/
def keepAll (env : ReloadEnv) (old : List Bss) : (rounds : Nat) → Reload → Option Reload
  | 0, s => some s
  | rounds + 1, s => keepAll env old rounds s >>= keepBss env old rounds

/-- Step 2: the first one is kept if no other is. -/
def keepFirst (env : ReloadEnv) (old : List Bss) (mbssid : Bool) (s : Reload) : Option Reload :=
  if mbssid && (s.kept 0).isNone then none
  else if (List.range s.bss.length).any fun i => (s.kept i).isSome then some s
  else
    match s.bss[0]?, old[0]? with
    | some first, some prev =>
      if first.bssid ≠ prev.bssid && !first.defaultMacaddr then none
      else if !env.live 0 then none
      else some { s with
        bss := setBssid s.bss 0 prev.bssid
        list := Function.update s.list prev.bssid (some 0)
        kept := Function.update s.kept 0 (some 0)
        prevHash := s.prevHash.set 0 none }
    | _, _ => none

/-- `macaddr_init`, of the addresses of the devices. -/
def macaddrInit (env : ReloadEnv) (list : MacaddrList) : MacaddrList :=
  env.wdevs.foldl (fun list addr => if list (some addr) = none then Function.update list (some addr) (some (-1)) else list) list

/-- `macaddr_next`, from an `id` on. -/
def macaddrNextFrom (env : ReloadEnv) (list : MacaddrList) : (tries id : Nat) → Option String
  | 0, _ => none
  | tries + 1, id =>
    match env.macaddrGenerate id with
    | none => none
    | some mac => if list (some mac) = none then some mac else macaddrNextFrom env list tries (id + 1)

def macaddrNext (env : ReloadEnv) (list : MacaddrList) : Option String := macaddrNextFrom env list 32 0

/-- The BSS at a position, where a negative one counts from the end. -/
def bssIndex (n : Nat) (idx : Int) : Option Nat :=
  if 0 ≤ idx then (if idx < n then some idx.toNat else none)
  else if 0 ≤ idx + n then some (idx + n).toNat
  else none

/-- One round of step 6, of a BSS that is not kept. -/
def assignBss (env : ReloadEnv) (i : Nat) (cur : Bss) (bss : List Bss) (list : MacaddrList) : Option (List Bss × MacaddrList) :=
  let macIdx := list cur.bssid
  let list := if macIdx.any (· < 0) then Function.update list cur.bssid (some (i : Int)) else list
  if macIdx = some (i : Int) then some (bss, list)
  else do
    -- `!mac_idx < 0` compares a truth value with 0, so it never holds
    let target ← if cur.defaultMacaddr then some i else macIdx.bind (bssIndex bss.length)
    let addr ← macaddrNext env list
    return (setBssid bss target (some addr), Function.update list (some addr) (some (i : Int)))

/-- Step 6. -/
def assignAll (env : ReloadEnv) (kept : Nat → Option Nat) : (rounds i : Nat) → List Bss → MacaddrList → Option (List Bss)
  | 0, _, bss, _ => some bss
  | rounds + 1, i, bss, list =>
    match bss[i]? with
    | none => some bss
    | some cur =>
      if (kept i).isSome then assignAll env kept rounds (i + 1) bss list
      else
        match assignBss env i cur bss list with
        | none => none
        | some (bss, list) => assignAll env kept rounds (i + 1) bss list

/-- The steps, from the first one on. -/
def reloadSteps (env : ReloadEnv) (config : Config) (old : List Bss) : Option (List Bss) :=
  let start : Reload := { bss := config.bss, list := ifaceConfigMacaddrList env config.bss,
                          prevHash := old.map fun b => some (env.hash b.data) }
  match keepAll env old config.bss.length start >>= keepFirst env old config.mbssid with
  | none => none
  | some s =>
    if !env.renames || !env.updates then none
    else assignAll env s.kept s.bss.length 0 s.bss (macaddrInit env s.list)

/-- `iface_reload_config`: where it returns true, the new configuration with its addresses. -/
def ifaceReloadConfig (env : ReloadEnv) (config old : Config) : Option (List Bss) :=
  if old.radio ≠ config.radio then none
  else if old.bss = config.bss then some config.bss
  else if !env.ready || old.bss.isEmpty || !env.live 0 then none
  else reloadSteps env config old.bss

end RainWrt.Hostapd
