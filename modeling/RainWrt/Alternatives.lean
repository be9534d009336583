import Mathlib

/-! `update_alternatives`: the packages of the running system name targets, sources and priorities, and each target is a
    symbolic link to a source. -/

namespace RainWrt.Alternatives

/-- A word `prio:target:src` of a `.alternatives` file. -/
structure Alt where
  prio : Nat
  target : String
  src : String
deriving DecidableEq, Repr

def busybox : String := "/bin/busybox"

/-! ### The file system -/

/-- The symbolic links that lead on from a path. -/
abbrev Links := String → Option String

/-- `ln -sf dest path`. -/
def ln (links : Links) (dest path : String) : Links := fun p => if p = path then some dest else links p

/-- Whether a path leads to a file, over at most so many links. -/
def resolves (files : String → Bool) (links : Links) : (hops : Nat) → String → Bool
  | 0, _ => false
  | hops + 1, path =>
    match links path with
    | some dest => resolves files links hops dest
    | none => files path

/-- `[ -e "$root/$path" ]`. Without a path this is the root directory. -/
def test (files : String → Bool) (links : Links) (path : String) : Bool := path = "" || resolves files links 41 path

/-! ### The script -/

inductive Action | install | remove
deriving DecidableEq, Repr

/-- The links, and the shell variable `target`, which is not local. -/
structure Shell where
  links : Links
  target : String := ""

/-- The variables of the inner loops. -/
structure Scan where
  bestPrio : Nat := 0
  bestSrc : String := busybox
  target : String

/-- The inner loops over the words of all `.alternatives` files, for the alternative `a` of the package. -/
def scan (a : Alt) : Scan → List Alt → Scan
  | s, [] => s
  | s, alt :: alts =>
    if alt.target = a.target ∧ alt.src ≠ a.src ∧ s.bestPrio < alt.prio then
      scan a { bestPrio := alt.prio, bestSrc := alt.src, target := alt.target } alts
    else scan a { s with target := alt.target } alts

/-- What the outer loop does with an alternative of the package. The files are scanned only where the target of the last
    scanned alternative exists. -/
def handle (action : Action) (files : String → Bool) (alts : List Alt) (sh : Shell) (a : Alt) : Shell :=
  let s : Scan := if test files sh.links sh.target then scan a { target := sh.target } alts else { target := sh.target }
  if s.bestPrio < a.prio then
    match action with
    | .install => { links := ln sh.links a.src a.target, target := s.target }
    | .remove => { links := ln sh.links s.bestSrc a.target, target := s.target }
  else { sh with target := s.target }

/-- The system: the links, and the packages whose `.alternatives` file is in place, in the order of the files' names. -/
structure State where
  links : Links
  dir : List String

/-- The content of each `.alternatives` file. -/
abbrev Packages := String → List Alt

/-- The words of all files that are in place. -/
def State.alts (pkgs : Packages) (s : State) : List Alt := s.dir.flatMap pkgs

/-- `update_alternatives`, in a shell of its own. `files` are the files that exist at that time. -/
def updateAlternatives (pkgs : Packages) (action : Action) (pkgname : String) (files : String → Bool) (s : State) : State :=
  if pkgname ∈ s.dir then
    { s with links := ((pkgs pkgname).foldl (handle action files (s.alts pkgs)) { links := s.links }).links }
  else s

/-! ### Packages -/

/-- The name of the file of a package, by which the shell orders the directory. -/
def fileName (pkgname : String) : String := pkgname ++ ".alternatives"

/-- A file comes into the directory, at the place of its name. -/
def place (dir : List String) (pkgname : String) : List String :=
  dir.filter (fileName · < fileName pkgname) ++ pkgname :: dir.filter fun q => ¬fileName q < fileName pkgname ∧ q ≠ pkgname

/-- An installation or removal of a package, with the files that exist when its script runs. -/
inductive Op
  | install (pkgname : String) (files : String → Bool)
  | remove (pkgname : String) (files : String → Bool)

/-- `default_postinst` with the file in place, and `default_prerm`, after which the file is deleted. -/
def step (pkgs : Packages) (s : State) : Op → State
  | .install pkgname files => updateAlternatives pkgs .install pkgname files { s with dir := place s.dir pkgname }
  | .remove pkgname files =>
    let s := updateAlternatives pkgs .remove pkgname files s
    { s with dir := s.dir.filter (· ≠ pkgname) }

/-- A run from a system without packages. -/
def run (pkgs : Packages) (links : Links) (ops : List Op) : State := ops.foldl (step pkgs) { links, dir := [] }

end RainWrt.Alternatives
