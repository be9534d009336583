import RainWrt.Hostapd.Reload
import RainWrt.Obj

/-! How a configuration reaches the interface of a phy: reloaded in place, removed, or by a chain of deferred calls to
    `wpa_supplicant` that ends with `iface_add`. -/

namespace RainWrt.Hostapd

/-- `next_state` of a pending configuration. -/
inductive PendingState where
  | init
  | createBss
  | checkPhy
  | wpasStopped
  | done
  deriving DecidableEq

/-- An entry of `pending_config`. One that is replaced or removed has no deferred call: it is aborted first. -/
structure Pending where
  config : Config
  nextState : PendingState := .init
  /-- A call is deferred, and its callback still to come. -/
  defer : Bool := false

/-- An answer to `phy_status`. -/
structure PhyStatus where
  state : String
  deriving DecidableEq

/-- An entry of `hostapd.data.mld`. -/
structure Mld where
  ifname : Option String
  macaddr : Option String
  hasWdev : Bool

/-- What calls to the outside give while an event is handled. -/
structure Env where
  /-- `phy_open` of the phy with its radio. -/
  phyOpen : Bool := true
  /-- `phy_open` of the phy alone, in `iface_check_mld`. -/
  mldPhyOpen : Bool := true
  mld : Obj Mld := []
  /-- Whether there is a network device of the name. -/
  access : String → Bool := fun _ => false
  /-- The steps of `iface_reload_config`: whether they succeed, and the address of each BSS behind them. -/
  reload : Config → Config → Bool × (Nat → Bss → Option String) := fun _ _ => (false, fun _ bss => bss.bssid)
  /-- `macaddr_next`, for the BSS at an index. -/
  macaddrNext : Nat → Option String := fun _ => none
  /-- `wdev_add` throws. -/
  wdevAddThrows : Bool := false
  /-- Whether the call made in a state is deferred; one that cannot be made is not. -/
  defers : PendingState → Bool := fun _ => true
  /-- Whether `iface_add` succeeds. -/
  ifaceAdd : Bool := true

inductive Effect where
  | ifaceAdd (phy : String) (config : Config) (status : Option PhyStatus)
  | removeIface (phy : String)

structure State where
  /-- `hostapd.data.config`. -/
  config : Obj Config := []
  /-- `hostapd.data.pending_config`. -/
  pending : Obj Pending := []

/-- The loop of `iface_check_mld`; without a result it throws, as the phy is null. -/
def checkMld (env : Env) : List Bss → Option (List Bss)
  | [] => some []
  | bss :: rest =>
    if !bss.mldAp then (checkMld env rest).map (bss :: ·)
    else
      match if bss.ifname = "" then none else env.mld.get? bss.ifname with
      | some { ifname := some _, macaddr := some macaddr, hasWdev } =>
        if hasWdev && env.access bss.ifname || env.mldPhyOpen then (checkMld env rest).map ({ bss with mldBssid := some macaddr } :: ·)
        else none
      | _ => if env.mldPhyOpen then checkMld env rest else none

namespace State

/-! ### The chain

`iface_pending_next` goes from state to state until a call is deferred; the functions below are its passes, from the last
state to the first. -/

/-- `done`. -/
def pendingDone (w : State) (phy : String) : State := { w with pending := w.pending.del phy }

/-- The chain waits, or is stuck when no call is deferred. -/
def park (w : State) (phy : String) (p : Pending) (nextState : PendingState) (defer : Bool) : State :=
  { w with pending := w.pending.set phy { p with nextState, defer } }

/-- `wpas_stopped`; its last call is aborted by `done`. -/
def fromWpasStopped (w : State) (phy : String) (p : Pending) : State × List Effect :=
  (w.pendingDone phy, [.ifaceAdd phy p.config none])

/-- `check_phy`. -/
def fromCheckPhy (env : Env) (w : State) (phy : String) (p : Pending) (data : Option PhyStatus) : State × List Effect :=
  let stop : State × List Effect :=
    if env.defers .checkPhy then (w.park phy p .wpasStopped true, []) else w.fromWpasStopped phy p
  match data with
  | some status =>
    if status.state = "COMPLETED" then
      if env.ifaceAdd then (w.pendingDone phy, [.ifaceAdd phy p.config (some status)])
      else (stop.1, .ifaceAdd phy p.config (some status) :: stop.2)
    else stop
  | none => stop

/-- `create_bss`. -/
def fromCreateBss (env : Env) (w : State) (phy : String) (p : Pending) (data : Option PhyStatus) : State × List Effect :=
  if (p.config.bss.head?.any fun bss => !bss.mldAp) && env.wdevAddThrows then (w.park phy p .createBss false, [])
  else if env.defers .createBss then (w.park phy p .checkPhy true, [])
  else w.fromCheckPhy env phy p data

/-- `iface_pending_next`. -/
def pendingNext (env : Env) (w : State) (phy : String) (p : Pending) (data : Option PhyStatus) : State × List Effect :=
  match p.nextState with
  | .init | .createBss => w.fromCreateBss env phy p data
  | .checkPhy => w.fromCheckPhy env phy p data
  | .wpasStopped => w.fromWpasStopped phy p
  | .done => (w.pendingDone phy, [])

/-! ### A new configuration -/

/-- `iface_restart`, for a configuration with a BSS. -/
def ifaceRestart (env : Env) (w : State) (name : String) (config : Config) : State × List Effect :=
  let config := { config with bss := config.bss.mapIdx fun i bss => if bss.defaultMacaddr then { bss with bssid := env.macaddrNext i } else bss }
  -- the chain that is pending is aborted
  let w := { w.pendingDone name with config := w.config.set name config }
  let (w, effects) := w.pendingNext env name { config } none
  (w, .removeIface name :: effects)

/-- `iface_reload_config`, and `iface_restart` where it does not succeed. -/
def ifaceReload (env : Env) (w : State) (name : String) (config : Config) (old : Option Config) : State × List Effect :=
  match old with
  | none => w.ifaceRestart env name config
  | some old =>
    if old.radio ≠ config.radio then w.ifaceRestart env name config
    else if old.bss = config.bss then (w, [])
    else if (w.pending.get? name).isSome || old.bss.isEmpty then w.ifaceRestart env name config
    else
      let (ok, bssid) := env.reload old config
      let config := { config with bss := config.bss.mapIdx fun i bss => { bss with bssid := bssid i bss } }
      if ok then ({ w with config := w.config.set name config }, []) else w.ifaceRestart env name config

/-- `iface_set_config`. -/
def ifaceSetConfig (env : Env) (w : State) (name : String) (config : Config) : State × List Effect :=
  let old := w.config.get? name
  let w := { w with config := w.config.set name config }
  if !env.phyOpen then (w, [])
  else
    match checkMld env config.bss with
    | none => (w, [])
    | some bss =>
      let config := { config with bss }
      let w := { w with config := w.config.set name config }
      if bss.isEmpty then (w, [.removeIface name]) else w.ifaceReload env name config old

end State

/-- `phy_name`. -/
def phyName (phy : String) : Option Nat → String
  | none => phy
  | some radio => phy ++ "." ++ toString radio

inductive Event where
  /-- `config_set`, with the configuration read from `prev_config` and the one read from `config`. -/
  | configSet (prev : Option Config) (config : Config)
  /-- The callback of the deferred call of a phy. -/
  | deferred (name : String) (data : Option PhyStatus)

structure Input where
  event : Event
  env : Env := {}

namespace State

def step (w : State) (i : Input) : State × List Effect :=
  match i.event with
  | .configSet prev config =>
    let name := phyName config.phy config.radioIdx
    let w :=
      match prev, w.config.get? name with
      | some prev, none => { w with config := w.config.set name { prev with radio := { prev.radio with data := [] } } }
      | _, _ => w
    w.ifaceSetConfig i.env name config
  | .deferred name data =>
    match w.pending.get? name with
    | some p => if p.defer then w.pendingNext i.env name p data else (w, [])
    | none => (w, [])

def run (w : State) (inputs : List Input) : State := inputs.foldl (fun w i => (w.step i).1) w

end State

end RainWrt.Hostapd
