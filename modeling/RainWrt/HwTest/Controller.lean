import RainWrt.HwTest.Remote

/-! `Controller`: the two commands that change the router, each followed by a wait for the system that
    comes back. -/

namespace RainWrt.HwTest

/-- The command that replaces the system: the verification once more, the last check of the memory, the
    boot that it must still be, and the archive and the image in the directory `remote`. -/
structure Upgrade where
  verify : Text
  finalMemoryCheck : Script
  bootId : Json
  remote : Text

/-- All calls of the runner. -/
inductive Act where
  | look (q : Look)
  /-- `exec /sbin/sysupgrade`. -/
  | sysupgrade (command : Upgrade)
  /-- `sync; reboot`. -/
  | reboot

abbrev ActAnswer : Act → Type
  | .look q => LookAnswer q
  | .sysupgrade _ => Result Completed
  | .reboot => Result Completed

abbrev ActTrace := Proc.Trace Act ActAnswer

/-- A program that only looks, as a part of one that may do more. -/
def looking {α : Type} : Proc Look LookAnswer α → Proc Act ActAnswer α
  | .ret a => .ret a
  | .call q k => .call (.look q) fun r => looking (k r)

/-- A program that may change the router. -/
abbrev Run (α : Type) := ExceptT Exn (Proc Act ActAnswer) α

instance : MonadLift (ExceptT Exn (Proc Look LookAnswer)) (ExceptT Exn (Proc Act ActAnswer)) where
  monadLift x := ExceptT.mk (looking x.run)

def sysupgrade (command : Upgrade) : Run Completed := ExceptT.mk (Proc.ask (A := ActAnswer) (.sysupgrade command))
def rebootRouter : Run Completed := ExceptT.mk (Proc.ask (A := ActAnswer) .reboot)

/-- `str(e)`, of the exceptions that `wait_return` catches. -/
def caughtText : Exn → Option Text
  | .stop m => some m
  | .valueError m => some m
  | .keyError k => some ('\'' :: k ++ ['\''])
  | _ => none

/-- The message of a state that stops the wait. -/
def ReturnState.message : ReturnState → String
  | .returnedOldSystem => "RETURNED_OLD_SYSTEM"
  | .returnedWrongBuild => "RETURNED_WRONG_BUILD"
  | .postcheckFailed => "POSTCHECK_FAILED"
  | .waitingForReturn => "WAITING_FOR_RETURN"
  | .success => "SUCCESS"

/-- `'REBOOT_VALIDATION_FAILED' if reboot else state`. -/
def failure {α : Type} (reboot : Bool) (message : String) : Py α := raiseStop (if reboot then "REBOOT_VALIDATION_FAILED" else message)

section
variable (lib : Python) (site : Site) (expected baseline : Json)

/-- What the wait makes of a probe: the system is back, or `none` to wait on. -/
def judge (previous : Json) (reboot : Bool) (p : Json) : Py (Option Json) := do
  if (← ofResult (p.item "boot_id")).eq (← ofResult (previous.item "boot_id")) then pure none
  else
    match ← ofResult (classifyReturn p expected previous) with
    | .returnedOldSystem => failure reboot (ReturnState.message .returnedOldSystem)
    | .returnedWrongBuild => failure reboot (ReturnState.message .returnedWrongBuild)
    | .success => pure (some p)
    | _ =>
      if ← ofResult ((← ofResult (p.item "uptime")).lt 120) then pure none
      else
        emit "required_checks" (some (.obj (← ofResult (requiredChecks p expected baseline))))
        failure reboot (ReturnState.message .postcheckFailed)

/-- The loop of `wait_return`. -/
def waitReturnFrom (previous : Json) (reboot : Bool) (finish : ℚ) : Nat → Py Json
  | 0 => ofResult (.error .outOfRounds)
  | rounds + 1 => do
    if (← clock) < finish then
      match ← Proc.Raising.outcome (probe lib site) with
      | .error e =>
        match caughtText e with
        | none => throw e
        | some message =>
          if message = "SSH_HOST_KEY_CHANGED".toList then throw e
          else
            sleep 5
            waitReturnFrom previous reboot finish rounds
      | .ok p =>
        match ← judge expected baseline previous reboot p with
        | some p => pure p
        | none =>
          sleep 5
          waitReturnFrom previous reboot finish rounds
    else failure reboot "FAILED_TO_RETURN"

/-- `Controller.wait_return`. -/
def waitReturn (rounds : Nat) (previous : Json) (reboot : Bool) : Py Json := do
  let finish := (← clock) + 600
  emit "WAITING_FOR_RETURN"
  sleep 35
  waitReturnFrom lib site expected baseline previous reboot finish rounds

/-- The counters of a `Controller`. -/
structure Controller where
  writes : Nat := 0
  reboots : Nat := 0

/-- `Controller.execute`. -/
def Controller.execute (self : Controller) (rounds : Nat) (command : Upgrade) : Run (Controller × Json) := do
  refuse (self.writes ≠ 0) "REFUSING_SECOND_SYSUPGRADE"
  let self := { self with writes := self.writes + 1 }
  let result ← sysupgrade command
  let state := handoffState result.returncode (result.stdout ++ result.stderr)
  emit state.event
  refuse (state = .preHandoffFailure) state.event
  return (self, ← waitReturn lib site expected baseline rounds baseline false)

/-- `Controller.reboot`. -/
def Controller.reboot (self : Controller) (rounds : Nat) (previous : Json) : Run (Controller × Json) := do
  refuse (self.reboots ≠ 0) "REFUSING_UNSAFE_OR_SECOND_REBOOT"
  let checks ← ofResult (requiredChecks previous expected baseline)
  refuse (!checks.allTrue) "REFUSING_UNSAFE_OR_SECOND_REBOOT"
  let self := { self with reboots := self.reboots + 1 }
  emit "NORMAL_REBOOT_VALIDATION"
  let _ ← rebootRouter
  return (self, ← waitReturn lib site expected baseline rounds previous true)

end

end RainWrt.HwTest
