import RainWrt.Obj

/-! The wireless devices of `netifd`: the state of each device, and the handler scripts, of which one runs at a time. What a
    script reports about its interfaces (`handler_data`) goes on to `netifd` and is left out, as is the notification that all
    handlers are done. -/

namespace RainWrt.Wifi

inductive Op where
  | setup
  | teardown
  deriving DecidableEq

inductive DevState where
  | down
  | setup
  | up
  | teardown
  deriving DecidableEq

/-! ### Configurations -/

structure Vlan (α : Type) where
  name : String
  config : α
  /-- `config.network`. -/
  network : List String
  deriving DecidableEq

structure Sta (α : Type) where
  name : String
  config : α
  deriving DecidableEq

structure Vif (α : Type) where
  name : String
  config : α
  /-- `config.network`. -/
  network : List String
  vlan : List (Vlan α)
  sta : List (Sta α)
  deriving DecidableEq

/-- The configuration of a device, without its name. -/
structure Data (α : Type) where
  config : α
  vif : List (Vif α)
  deriving DecidableEq

/-- What `update_config` gets. -/
structure Config (α : Type) where
  devices : Obj (Data α)
  nodup : devices.keys.Nodup

structure IfState where
  enabled : Bool
  ifindex : Option Nat

/-- What `netifd` says of networks: `interface_get_enabled` and `interface_get_bridge`. -/
structure Env where
  enabled : String → Option IfState
  bridge : String → Option String

structure IfaceVlan (α : Type) where
  name : String
  config : α
  bridge : Option String
  deriving DecidableEq

structure Iface (α : Type) where
  name : String
  config : α
  bridge : Option String
  vlans : List (IfaceVlan α)
  stas : List (Sta α)
  deriving DecidableEq

/-- What a script is given. -/
structure HandlerConfig (α : Type) where
  config : α
  interfaces : List (Iface α)
  deriving DecidableEq

/-- The interfaces in `wdev_config_init`, without those that are disabled. -/
def Data.interfaces {α : Type} (data : Data α) (disabled : List String) (bridge : String → Option String) : List (Iface α) :=
  (data.vif.filter (·.name ∉ disabled)).map fun vif => {
    name := vif.name
    config := vif.config
    bridge := vif.network.findSome? bridge
    vlans := vif.vlan.map fun vlan => { name := vlan.name, config := vlan.config, bridge := vlan.network.findSome? bridge }
    stas := vif.sta }

/-! ### A device -/

def defaultRetry : Int := 3

structure Wdev (α : Type) where
  data : Data α
  handlerConfig : HandlerConfig α
  /-- `disabled_vifs`. -/
  disabled : List String := []
  /-- `ifindex_cache`. -/
  cache : Obj Nat := []
  procs : List (Nat × String) := []
  autostart : Bool := true
  state : DevState := .down
  delete : Bool := false
  cancelSetup : Bool := false
  configChange : Bool := false
  /-- Not set before the device is started, which is as if it were 0. -/
  retry : Int := 0
  retrySetupFailed : Bool := false

/-- Whether one of the networks is enabled, and the last ifindex. -/
def netsEnabled (env : Env) (network : List String) : Option Bool × Option Nat :=
  network.foldl (fun acc net =>
    match env.enabled net with
    | none => acc
    | some state => (if state.enabled then some true else if acc.1 = none then some false else acc.1, state.ifindex <|> acc.2)) (none, none)

namespace Wdev
variable {α : Type}

/-- `wdev_config_init`. -/
def configInit (env : Env) (d : Wdev α) : Wdev α :=
  { d with handlerConfig := { config := d.data.config, interfaces := d.data.interfaces d.disabled env.bridge } }

/-- The names of the interfaces and VLANs with their networks. -/
def vifs (data : Data α) : List (String × List String) :=
  data.vif.flatMap fun vif => (vif.name, vif.network) :: vif.vlan.map fun vlan => (vlan.name, vlan.network)

/-- `wdev_update_disabled_vifs`; it returns whether the configuration changes. -/
def updateDisabledVifs (env : Env) (d : Wdev α) : Wdev α :=
  let (disabled, cache, changed) := (vifs d.data).foldl (fun (acc : List String × Obj Nat × Bool) vif =>
    let (disabled, cache, changed) := acc
    let (enabled, ifindex) := netsEnabled env vif.2
    (if enabled = some false then (if vif.1 ∈ disabled then disabled else disabled ++ [vif.1]) else disabled,
      match ifindex with
      | some i => cache.set vif.1 i
      | none => cache.del vif.1,
      changed || (enabled ≠ some false && ifindex ≠ cache.get? vif.1))) ([], d.cache, false)
  let same := d.disabled.all (· ∈ disabled) && disabled.all (· ∈ d.disabled)
  { d with disabled, cache, configChange := d.configChange || changed || !same }

/-- `setup`, with the script that is to be run. -/
def setup (d : Wdev α) : Wdev α × Option Op :=
  if d.state ≠ .up ∧ d.state ≠ .down then (d, none)
  else if !d.autostart || d.retrySetupFailed then (d, none)
  else ({ d with procs := [], configChange := false, state := .setup }, some .setup)

/-- `teardown`. -/
def teardown (d : Wdev α) : Wdev α × Option Op :=
  let d := { d with cancelSetup := false }
  if d.state = .teardown ∨ d.state = .down then (d, none)
  else ({ d with procs := [], state := .teardown }, some .teardown)

/-- `wdev_setup_cb`. -/
def setupCb (env : Env) (d : Wdev α) : Wdev α × Option Op :=
  if d.state ≠ .setup then
    if d.state = .up ∧ d.configChange = true then (d.configInit env).setup else (d, none)
  else if d.retry > 0 then { d with retry := d.retry - 1 }.teardown
  else { d with retrySetupFailed := true }.teardown

/-- `wdev_teardown_cb`; a device that is to be deleted goes. -/
def teardownCb (d : Wdev α) : Option (Wdev α × Option Op) :=
  let d := { d with state := .down }
  if d.delete then none else some d.setup

/-- `wdev_reset`. -/
def reset (d : Wdev α) : Wdev α := { d with retry := defaultRetry, retrySetupFailed := false }

/-- `check`. -/
def check (env : Env) (d : Wdev α) : Wdev α × Option Op :=
  let d := d.updateDisabledVifs env
  if d.configChange then (d.configInit env).setup else (d, none)

/-- `update`, without data for `reconf`. -/
def update [DecidableEq α] (env : Env) (data : Option (Data α)) (d : Wdev α) : Wdev α × Option Op :=
  if data = some d.data then (d, none)
  else
    let d :=
      match data with
      | some data => { d with data, cache := [], retrySetupFailed := false, delete := false }
      | none => d
    { d.reset with configChange := true }.check env

/-- `start`. -/
def start (env : Env) (d : Wdev α) : Wdev α × Option Op :=
  if d.delete then (d, none)
  else
    let d := { d with autostart := true }.reset
    if d.state ≠ .down then (d, none)
    else
      let d := d.updateDisabledVifs env
      (if d.configChange then d.configInit env else d).setup

/-- `retry_setup`. -/
def retrySetup (env : Env) (d : Wdev α) : Wdev α × Option Op :=
  if d.delete ∨ d.state ≠ .down ∨ !d.autostart then (d, none) else d.start env

/-- `stop`. -/
def stop (d : Wdev α) : Wdev α × Option Op :=
  let d := { d with autostart := false }
  match d.state with
  | .setup => ({ d with cancelSetup := true }, none)
  | .up => d.teardown
  | _ => (d, none)

/-- `destroy`. -/
def destroy (d : Wdev α) : Option (Wdev α × Option Op) :=
  let d := { d with autostart := false, delete := true }
  if d.state ≠ .down then some d.stop else none

/-- `wdev_mark_up`. -/
def markUp (d : Wdev α) : Wdev α := if d.state = .setup then { d with state := .up } else d

/-- `PROCESS_ADD`, for a process id and an executable that are given. -/
def procAdd (pid : Nat) (exe : String) (d : Wdev α) : Wdev α :=
  if d.state ≠ .setup ∧ d.state ≠ .up ∨ pid = 0 ∨ exe = "" then d else { d with procs := d.procs ++ [(pid, exe)] }

/-- `wdev_proc_check`: the first process that is gone tears the device down. -/
def procCheck (alive : Nat × String → Bool) (d : Wdev α) : Wdev α × Option Op :=
  if d.procs.all alive then (d, none) else d.teardown

/-- `SET_RETRY`. -/
def setRetry (retry : Option Int) (d : Wdev α) : Wdev α := { d with retry := retry.getD defaultRetry }

/-- `new`. -/
def new (env : Env) (data : Data α) : Wdev α :=
  (({ data, handlerConfig := { config := data.config, interfaces := [] } } : Wdev α).updateDisabledVifs env).configInit env

end Wdev

/-! ### The scripts -/

/-- An entry of `wdev_handler`. -/
structure Job where
  op : Op
  time : Nat
  deriving DecidableEq

/-- A call of a script. -/
structure Script where
  id : Nat
  name : String
  op : Op
  deriving DecidableEq

inductive Effect (α : Type) where
  /-- The process of a script is to be started. -/
  | run (s : Script) (config : HandlerConfig α)
  /-- The callback of the script. -/
  | callback (s : Script)
  deriving DecidableEq

/-- The devices and the scripts. A device is removed only when no script of it is queued or running, so that its name stands
    for it. -/
structure Wireless (α : Type) where
  devices : Obj (Wdev α) := []
  /-- `wdev_handler`. -/
  queue : Obj Job := []
  /-- `wdev_cur`. -/
  cur : Option Script := none
  /-- The processes whose callback is still to come. -/
  tasks : List Script := []
  /-- The timers of scripts that are set. -/
  timers : List Script := []
  /-- `wdev_script_task`. -/
  scriptTask : Option Script := none
  /-- `wdev_script_timeout`. -/
  scriptTimeout : Option Script := none
  nextId : Nat := 0
  /-- What `time` returns. -/
  clock : Nat := 0
  trace : List (Effect α) := []

namespace Wireless
variable {α : Type}

/-- `__run_next_handler_name`: the first entry in the order of the times. -/
def nextName (w : Wireless α) : Option String :=
  let first := w.queue.foldl (fun (first : Option (String × Job)) e =>
    match first with
    | none => some e
    | some e' => if e.2.time < e'.2.time then some e else some e') none
  first.map (·.1)

/-- The device changes, and a script of it is queued. -/
def setDev (w : Wireless α) (name : String) (r : Wdev α × Option Op) : Wireless α :=
  match r.2 with
  | none => { w with devices := w.devices.set name r.1 }
  | some op => { w with devices := w.devices.set name r.1, queue := w.queue.set name { op, time := w.clock } }

/-- The callback of a script, and whether it queues another one. -/
def callback (env : Env) (w : Wireless α) (s : Script) : Wireless α × Bool :=
  match w.devices.get? s.name with
  | none => (w, false)
  | some d =>
    match s.op with
    | .setup => (w.setDev s.name (d.setupCb env), (d.setupCb env).2.isSome)
    | .teardown =>
      match d.teardownCb with
      | none => ({ w with devices := w.devices.del s.name }, false)
      | some r => (w.setDev s.name r, r.2.isSome)

/-- `run_handler_cb`. -/
def handlerCb (env : Env) (w : Wireless α) (s : Script) : Wireless α × Bool :=
  if w.cur.map (·.name) ≠ some s.name then (w, false)
  else
    callback env { w with
      timers := w.timers.filter fun t => w.scriptTimeout ≠ some t
      scriptTimeout := none
      scriptTask := none
      cur := none
      trace := w.trace ++ [.callback s] } s

/-- The call of `process` in `__run_next_handler`. -/
def popped (w : Wireless α) (name : String) (job : Job) (d : Wdev α) : Wireless α :=
  let s := { id := w.nextId, name, op := job.op }
  { w with
    queue := w.queue.del name
    cur := some s
    nextId := w.nextId + 1
    trace := w.trace ++ [.run s d.handlerConfig] }

/-- The process is started. -/
def started (w : Wireless α) (s : Script) : Wireless α :=
  { w with tasks := w.tasks ++ [s], timers := w.timers ++ [s], scriptTask := some s, scriptTimeout := some s }

/-- `run_next_handler`, when this many processes cannot be started. The callback of such a script is called at once; what it
    queues is run by the same loop. -/
def runNextHandler (env : Env) : Nat → Wireless α → Wireless α
  | fails, w =>
    match w.cur, w.nextName with
    | none, some name =>
      match w.queue.get? name, w.devices.get? name with
      | some job, some d =>
        let s := { id := w.nextId, name, op := job.op }
        match fails with
        | 0 => (w.popped name job d).started s
        | fails + 1 => runNextHandler env fails ((w.popped name job d).handlerCb env s).1
      | _, _ => w
    | _, _ => w

/-- `run_handler` behind a change of a device. -/
def request (env : Env) (fails : Nat) (w : Wireless α) (name : String) (r : Wdev α × Option Op) : Wireless α :=
  if r.2.isSome then (w.setDev name r).runNextHandler env fails else w.setDev name r

/-- A method of a device that is there. -/
def onDevice (env : Env) (fails : Nat) (w : Wireless α) (name : String) (f : Wdev α → Wdev α × Option Op) : Wireless α :=
  match w.devices.get? name with
  | none => w
  | some d => w.request env fails name (f d)

/-- `destroy` of a device. -/
def destroy (env : Env) (fails : Nat) (w : Wireless α) (name : String) : Wireless α :=
  match w.devices.get? name with
  | none => w
  | some d =>
    match d.destroy with
    | none => { w with devices := w.devices.del name }
    | some r => w.request env fails name r

/-- The end of a script. -/
def finish (env : Env) (fails : Nat) (w : Wireless α) (s : Script) : Wireless α :=
  let (w, queued) := w.handlerCb env s
  if queued then w.runNextHandler env fails else w

/-- The first loop of `update_config`. -/
def dropDevice (env : Env) (fails : String → Nat) (new : Config α) (w : Wireless α) (name : String) : Wireless α :=
  if (new.devices.get? name).isNone then w.destroy env (fails name) name else w

/-- The second loop of `update_config`. -/
def configDevice [DecidableEq α] (env : Env) (fails : String → Nat) (w : Wireless α) (e : String × Data α) : Wireless α :=
  match w.devices.get? e.1 with
  | some d => w.request env (fails e.1) e.1 (d.update env (some e.2))
  | none => { w with devices := w.devices.set e.1 (Wdev.new env e.2) }

/-- `update_config`. -/
def updateConfig [DecidableEq α] (env : Env) (fails : String → Nat) (w : Wireless α) (new : Config α) : Wireless α :=
  new.devices.foldl (configDevice env fails) (w.devices.keys.foldl (dropDevice env fails new) w)

/-- A loop over the devices with `autostart`. -/
def forAutostart (env : Env) (fails : String → Nat) (w : Wireless α) (f : Wdev α → Wdev α × Option Op) : Wireless α :=
  w.devices.keys.foldl (fun w name => w.onDevice env (fails name) name fun d => if d.autostart then f d else (d, none)) w

end Wireless

/-! ### Events -/

inductive Event (α : Type) where
  | start (name : String)
  | retrySetup (name : String)
  | stop (name : String)
  | update (name : String) (data : Option (Data α))
  | destroy (name : String)
  | check (name : String)
  /-- `NOTIFY_CMD_UP`. -/
  | up (name : String)
  | setData (name : String)
  | procAdd (name : String) (pid : Nat) (exe : String)
  | setRetry (name : String) (retry : Option Int)
  | procCheck (name : String) (alive : Nat × String → Bool)
  /-- The process of a script has ended. -/
  | exit (s : Script)
  | timeout (s : Script)
  /-- `handler_timer`. -/
  | timer
  | clock (time : Nat)
  | updateConfig (new : Config α)
  | configStart
  | checkInterfaces

/-- An event, with what `netifd` says of networks meanwhile, and how many processes cannot be started. -/
structure Input (α : Type) where
  event : Event α
  env : Env
  fails : String → Nat

namespace Wireless
variable {α : Type} [DecidableEq α]

def step (w : Wireless α) (i : Input α) : Wireless α :=
  match i.event with
  | .start name => w.onDevice i.env (i.fails name) name (·.start i.env)
  | .retrySetup name => w.onDevice i.env (i.fails name) name (·.retrySetup i.env)
  | .stop name => w.onDevice i.env (i.fails name) name (·.stop)
  | .update name data => w.onDevice i.env (i.fails name) name (·.update i.env data)
  | .destroy name => w.destroy i.env (i.fails name) name
  | .check name => w.onDevice i.env (i.fails name) name (·.check i.env)
  | .up name => w.onDevice i.env (i.fails name) name fun d => (d.markUp, none)
  | .setData _ => w
  | .procAdd name pid exe => w.onDevice i.env (i.fails name) name fun d => (d.procAdd pid exe, none)
  | .setRetry name retry => w.onDevice i.env (i.fails name) name fun d => (d.setRetry retry, none)
  | .procCheck name alive => w.onDevice i.env (i.fails name) name (·.procCheck alive)
  | .exit s => if s ∈ w.tasks then { w with tasks := w.tasks.erase s }.finish i.env (i.fails s.name) s else w
  | .timeout s =>
    if s ∈ w.timers then
      { w with timers := w.timers.erase s, tasks := w.tasks.filter fun t => w.scriptTask ≠ some t }.finish i.env (i.fails s.name) s
    else w
  | .timer => w.runNextHandler i.env (i.fails "")
  | .clock time => { w with clock := time }
  | .updateConfig new => w.updateConfig i.env i.fails new
  | .configStart => w.forAutostart i.env i.fails (·.start i.env)
  | .checkInterfaces => w.forAutostart i.env i.fails (·.check i.env)

def run (w : Wireless α) (inputs : List (Input α)) : Wireless α := inputs.foldl step w

end Wireless

end RainWrt.Wifi
