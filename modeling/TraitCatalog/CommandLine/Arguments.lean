import TraitCatalog.LoadPlan
import TraitCatalog.Path
import TraitCatalog.Setting

/-!
# Arguments

A command line is a subcommand with options before and behind its name. The options that every
subcommand has may stand on either side; one given on both counts as it is given behind. Within one
side no option is given twice. Everything else is a usage error, which carries no further detail.
-/

namespace TraitCatalog.CommandLine

structure Settings where
  root : Option Path
  order : Option LoadOrder
  activateAfter : Option Nat
  verbose : Bool

inductive Command where
  | interfaces
  | keys (interface : String)
  | lookup (interface : String) (library exclude : Option String) (json : Bool)
  | library (name : String) (json : Bool)
  | dump
  | check (files : List Path)

structure Invocation where
  settings : Settings
  command : Command

/-! ### Options -/

/-- Options with their values, if they take one, and the words that are no options. -/
structure Given where
  options : List (String × Option Bytes) := []
  words : List Bytes := []

/-- Which options there are: `some true` for one that takes a value. -/
abbrev Spec := String → Option Bool

def dash : UInt8 := 0x2D

def equals : UInt8 := 0x3D

def isEnd (argument : Bytes) : Bool :=
  argument == [dash, dash]

/-- Whether an argument is an option or the end of options. A single dash is a word. -/
def isOption (argument : Bytes) : Bool :=
  match argument with
  | first :: _ :: _ => first == dash
  | _ => false

def long? (argument : Bytes) : Option (String × Option Bytes) :=
  match argument with
  | a :: b :: rest =>
    if a = dash ∧ b = dash then do
      let name ← Bytes.text? (rest.takeWhile (· != equals))
      match rest.dropWhile (· != equals) with
      | [] => return (name, none)
      | _ :: value => return (name, some value)
    else none
  | _ => none

def option? (argument : Bytes) : Option (String × Option Bytes) :=
  if argument = Bytes.ofText "-v" then some ("verbose", none) else long? argument

def Given.withOption (name : String) (value : Option Bytes) (given : Given) : Given :=
  { given with options := (name, value) :: given.options }

def Given.withWord (word : Bytes) (given : Given) : Given :=
  { given with words := word :: given.words }

/-- Reads arguments. With `untilWord` the options end before the first word, and all that follows is
left as words. -/
def scan (spec : Spec) (untilWord : Bool) : List Bytes → Option Given
  | [] => some {}
  | argument :: rest =>
    if isEnd argument then (if untilWord then none else some { words := rest })
    else if isOption argument then
      match option? argument with
      | none => none
      | some (name, attached) =>
        match spec name, attached with
        | some true, some value =>
          (scan spec untilWord rest).map (Given.withOption name (some value))
        | some true, none =>
          match rest with
          | [] => none
          | value :: more =>
            if isOption value then none
            else (scan spec untilWord more).map (Given.withOption name (some value))
        | some false, none => (scan spec untilWord rest).map (Given.withOption name none)
        | _, _ => none
    else if untilWord then some { words := argument :: rest }
    else (scan spec untilWord rest).map (Given.withWord argument)

def scanOnce (spec : Spec) (untilWord : Bool) (arguments : List Bytes) : Option Given := do
  let given ← scan spec untilWord arguments
  let names := given.options.map Prod.fst
  if names.eraseDups.length = names.length then some given else none

namespace Given

def value? (given : Given) (name : String) : Option Bytes :=
  (Entries.get? name given.options).join

def has (given : Given) (name : String) : Bool :=
  (Entries.get? name given.options).isSome

/-- The value of an option, read by `read`; fails if that does. -/
def read {α : Type} (given : Given) (name : String) (read : Bytes → Option α) :
    Option (Option α) :=
  match given.value? name with
  | none => some none
  | some bytes => (read bytes).map some

end Given

/-! ### Values -/

/-- A path is not empty. -/
def path? (bytes : Bytes) : Option Path :=
  if bytes.isEmpty then none else some ⟨bytes⟩

def sharedSpec : Spec
  | "root" | "order" | "activate-after" => some true
  | "verbose" => some false
  | _ => none

def settings? (given : Given) : Option Settings := do
  let root ← given.read "root" path?
  let order ← given.read "order" fun bytes => bytes.text?.bind LoadOrder.ofName?
  let activateAfter ← given.read "activate-after" fun bytes => bytes.text?.bind Setting.count?
  return ⟨root, order, activateAfter, given.has "verbose"⟩

/-- The settings of both sides; those behind the subcommand come first. -/
def Settings.withDefaults (behind before : Settings) : Settings where
  root := behind.root <|> before.root
  order := behind.order <|> before.order
  activateAfter := behind.activateAfter <|> before.activateAfter
  verbose := behind.verbose || before.verbose

/-! ### Subcommands -/

def spec (command : String) : Spec := fun name =>
  match command, name with
  | "lookup", "library" | "lookup", "exclude" => some true
  | "lookup", "json" | "library", "json" => some false
  | _, name => sharedSpec name

def command? (name : String) (given : Given) : Option Command :=
  match name, given.words with
  | "interfaces", [] => some .interfaces
  | "dump", [] => some .dump
  | "keys", [interface] => do return .keys (← interface.text?)
  | "lookup", [interface] => do
    return .lookup (← interface.text?) (← given.read "library" Bytes.text?)
      (← given.read "exclude" Bytes.text?) (given.has "json")
  | "library", [library] => do return .library (← library.text?) (given.has "json")
  | "check", file :: files => do return .check (← (file :: files).mapM path?)
  | _, _ => none

/-- Reads a command line; none for a usage error. -/
def parse (arguments : List Bytes) : Option Invocation := do
  let before ← scanOnce sharedSpec true arguments
  let settings ← settings? before
  match before.words with
  | [] => none
  | word :: rest =>
    let name ← word.text?
    let behind ← scanOnce (spec name) false rest
    return ⟨(← settings? behind).withDefaults settings, ← command? name behind⟩

end TraitCatalog.CommandLine
