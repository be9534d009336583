import RainWrt.Hostapd.Pending

/-! `config_reset` and `shutdown`, which take all configurations away. What `iface_set_config` does with a configuration that is there is
    left open. -/

namespace RainWrt.Hostapd

/-- A configuration with the BSSs that it was loaded with. -/
structure Loaded extends Config where
  origBss : List Bss

/-- The configuration of an MLD interface. -/
structure MldConfig where
  phy : Option String
  macaddr : Option String
  radios : List (Option Nat)
  deriving DecidableEq

/-- An entry of `hostapd.data.mld`. -/
structure MldData where
  config : MldConfig
  iface : List String := []
  ifname : Option String := none
  macaddr : Option String := none
  defaultMacaddr : Bool := false
  radioMask : Nat := 0
  hasWdev : Bool := false

structure Daemon where
  /-- `hostapd.data.config`; a configuration that was taken away is null. -/
  config : Obj (Option Loaded) := []
  /-- `hostapd.data.pending_config`. -/
  pending : Obj Pending := []
  /-- `hostapd.data.mld`. -/
  mld : Obj MldData := []
  /-- `hostapd.bss`: the BSSs of each interface of hostapd. -/
  bss : Obj (List String) := []
  /-- The network devices that were created. -/
  wdevs : List String := []

/-- An exception leaves the state as it is. -/
abbrev DaemonM := EStateM String Daemon

/-- What calls to the outside give, and the part of `iface_set_config` from `phy_open` on. -/
structure DaemonEnv where
  applyConfig : String → Loaded → Option Loaded → DaemonM Unit
  phyOpen : String → Bool
  macaddrNext : Daemon → MldConfig → Option String

def wdevRemove (name : String) : DaemonM Unit := modify fun d => { d with wdevs := d.wdevs.filter (· ≠ name) }

section
variable (env : DaemonEnv)

/-- `iface_set_config`. -/
def setConfig (name : String) (config : Option Loaded) : DaemonM Unit := do
  let oldConfig := ((← get).config.get? name).join
  modify fun d => { d with config := d.config.set name config }
  match config with
  -- `config.phy`
  | none => throw "left-hand side expression is null"
  | some config => env.applyConfig name config oldConfig

/-! ### MLD interfaces -/

/-- `mld_reload_interface`. -/
def mldReloadInterface (name : String) : DaemonM Unit := do
  match ((← get).config.get? name).join with
  | none => return
  | some config => setConfig env name (some { config with bss := config.origBss })

/-- `mld_find_matching_config`. -/
def mldFindMatchingConfig (list : Obj MldData) (config : MldConfig) : Option String :=
  (list.find? fun e => e.2.config = config).map (·.1)

/-- The loop of `mld_set_config` over the new configuration: the entries that are left of the old ones, and the new ones. -/
def mldMatch : Obj MldConfig → (prevMld newMld : Obj MldData) → Obj MldData × Obj MldData
  | [], prevMld, newMld => (prevMld, newMld)
  | (name, config) :: rest, prevMld, newMld =>
    let prev := (mldFindMatchingConfig prevMld config).bind fun prev => (prevMld.get? prev).map (prev, ·)
    match prev with
    | some (prev, data) =>
      -- `mld_rename_bss`
      if data.ifname = some name then mldMatch rest (prevMld.del prev) (newMld.set name data)
      else mldMatch rest prevMld (newMld.set name { config })
    | none => mldMatch rest prevMld (newMld.set name { config })

/-- `mld_add_bss`. -/
def mldAddBss (name : String) (data : MldData) : DaemonM Unit := do
  match data.config.phy with
  | none => return
  | some phy =>
    wdevRemove name
    if env.phyOpen phy then
      let d ← get
      let macaddr := data.config.macaddr.or (env.macaddrNext d data.config)
      let defaultMacaddr := data.defaultMacaddr || data.config.macaddr.isNone
      let radioMask := data.config.radios.foldl (fun mask r => r.elim mask fun r => mask ||| 1 <<< r) 0
      modify fun d => { d with mld := d.mld.set name { data with macaddr, defaultMacaddr, radioMask, ifname := some name } }

/-- The interfaces with a BSS of this name. -/
def ifacesWith (d : Daemon) (name : String) : List String := Obj.keys (d.bss.filter fun e => e.2.contains name)

/-- `mld_set_config`. -/
def mldSetConfig (config : Obj MldConfig) : DaemonM Unit := do
  let d ← get
  let newConfig := d.mld.isEmpty
  let (prevMld, newMld) := mldMatch config d.mld []
  modify fun d => { d with mld := prevMld.keys.foldl Obj.del d.mld }
  let reloadIface := ((Obj.keys (prevMld.filter fun e => e.2.ifname.isSome)).flatMap (ifacesWith d)).eraseDups
  reloadIface.forM (mldReloadInterface env)
  prevMld.keys.forM wdevRemove
  modify fun d => { d with mld := newMld }
  (newMld.filter fun e => e.2.ifname.isNone).forM fun e => mldAddBss env e.1 e.2
  if newConfig then (← get).config.keys.forM (mldReloadInterface env)

/-! ### The ends -/

/-- The call of `config_reset`. -/
def configReset : DaemonM Unit := do
  (← get).config.keys.forM fun name => setConfig env name none
  mldSetConfig env []

/-- `shutdown`. -/
def shutdown : DaemonM Unit := do
  (← get).config.keys.forM fun phy => setConfig env phy none

end

/-- The state behind a call, which may have thrown. -/
def Daemon.after (d : Daemon) (call : DaemonM Unit) : Daemon :=
  match call.run d with
  | .ok _ d => d
  | .error _ d => d

end RainWrt.Hostapd
