import TraitCatalog.CommandLine.Arguments
import TraitCatalog.Journal.Filter
import TraitCatalog.Text.Items

/-!
# The command line

`execute` runs a command line on a file system and tells everything that is seen of it: the exit
code, the two outputs and the journal.
-/

namespace TraitCatalog.CommandLine

structure Environment where
  files : FileSystem
  /-- The values of the variables that are set. -/
  rootVariable : Option Bytes := none
  orderVariable : Option Bytes := none
  activateAfterVariable : Option Bytes := none
  logVariable : Option Bytes := none

structure Outcome where
  code : Nat
  output : String
  errors : String
  journal : List Journal.Entry

/-! ### Loading -/

structure Request where
  order : LoadOrder
  after : Option Nat
  root : Path

/-- The load order: the option comes before the variable. -/
def chosenOrder (environment : Environment) (settings : Settings) : Except Report LoadOrder :=
  match settings.order with
  | some order => .ok order
  | none =>
    match Setting.order environment.orderVariable with
    | .ok order => .ok (order.getD .discovered)
    | .error error => .error (.rule error.message)

def chosenPoint (environment : Environment) (settings : Settings) :
    Except Report (Option Nat) :=
  match settings.activateAfter with
  | some after => .ok (some after)
  | none =>
    match Setting.activateAfter environment.activateAfterVariable with
    | .ok after => .ok after
    | .error error => .error (.rule error.message)

def chosenRoot (environment : Environment) (settings : Settings) : Except Report Path :=
  match DocRoot.find environment.files settings.root environment.rootVariable with
  | .ok root => .ok root
  | .error error => .error (error.report.within "locating documentation root")

def request (environment : Environment) (settings : Settings) : Except Report Request := do
  let order ← chosenOrder environment settings
  let after ← chosenPoint environment settings
  let root ← chosenRoot environment settings
  return ⟨order, after, root⟩

def Request.load (request : Request) (files : FileSystem) : Except Report Catalog :=
  (Catalog.build files request.root request.order request.after).mapError
    fun error => error.report.within s!"loading fragments under {request.root.display}"

/-! ### Output -/

def lines (texts : List String) : String :=
  String.join (texts.map (· ++ "\n"))

def jsonLines (value : Json) : String :=
  value.pretty ++ "\n"

def listsJson (lists : List (String × List Descriptor)) : Json :=
  .object (lists.map fun entry => (entry.1, .ofTexts entry.2))

def registryJson (registry : Registry) : Json :=
  listsJson registry.toList

def snapshotJson (catalog : Catalog) : Json :=
  .object (catalog.snapshot.entries.map fun entry => (entry.1.text, registryJson entry.2))

/-- What `lookup` selects: libraries that are not excluded, and only the given one if any. -/
def selection (catalog : Catalog) (interface : Interface) (library exclude : Option String) :
    List (Library × List Descriptor) :=
  let excluded := (exclude.map Text.items).getD []
  (catalog.foreign interface excluded).filter fun entry =>
    match library with
    | none => true
    | some only => entry.1 == only

def lookupOutput (catalog : Catalog) (interface : Interface) (library exclude : Option String)
    (json : Bool) : String :=
  let selected := selection catalog interface library exclude
  if json then jsonLines (listsJson selected)
  else lines (selected.flatMap Prod.snd)

def libraryOutput (catalog : Catalog) (library : Library) (json : Bool) : String :=
  let found := (catalog.byLibrary library).map fun entry => (entry.1.text, entry.2)
  if json then jsonLines (listsJson found)
  else lines (found.flatMap fun entry => entry.1 :: entry.2)

/-! ### Checking files -/

/-- The components behind the first directory of fragments. -/
def locationBelow (path : Path) : List Path.Component :=
  (path.components.dropWhile (· != .normal DocRoot.fragmentsName.bytes)).drop 1

def located? (path : Path) : Option Interface :=
  (Interface.ofComponents path (locationBelow path)).toOption

def checkLine (path : Path) (content : Fragment.Content) : String :=
  let interface := content.declared <|> located? path
  let descriptors := (content.contributions.flatMap Contribution.descriptors).length
  "\t".intercalate [path.display, (interface.map Interface.text).getD "-",
    s!"{content.contributions.length} libraries", s!"{descriptors} descriptors"]

/-- The lines about files up to the first that is refused, and the refusal. -/
def check (files : FileSystem) : List Path → List String × Option Report
  | [] => ([], none)
  | path :: rest =>
    match files.readFragment path with
    | .error error => ([], some error.report)
    | .ok content =>
      let (later, refusal) := check files rest
      (checkLine path content :: later, refusal)

/-! ### Running -/

def withCatalog (environment : Environment) (settings : Settings) (output : Catalog → String) :
    String × Option Report × List Journal.Entry :=
  match request environment settings with
  | .error report => ("", some report, [])
  | .ok request =>
    let journal := Journal.ofBuild environment.files request.root request.order request.after
    match request.load environment.files with
    | .error report => ("", some report, journal)
    | .ok catalog => (output catalog, none, journal)

/-- The run of a command about one interface, which is named before anything is loaded. -/
def withInterface (environment : Environment) (settings : Settings) (interface : String)
    (output : Catalog → Interface → String) : String × Option Report × List Journal.Entry :=
  match Interface.parse interface with
  | .error error => ("", some (.rule error.message), [])
  | .ok interface => withCatalog environment settings fun catalog => output catalog interface

/-- What a command prints, why it stopped, and its journal. -/
def run (environment : Environment) (invocation : Invocation) :
    String × Option Report × List Journal.Entry :=
  let settings := invocation.settings
  match invocation.command with
  | .check files =>
    let (printed, refusal) := check environment.files files
    (lines printed, refusal, [])
  | .interfaces =>
    withCatalog environment settings fun catalog => lines (catalog.interfaces.map Interface.text)
  | .keys interface =>
    withInterface environment settings interface fun catalog interface =>
      lines (catalog.visible interface).libraries
  | .lookup interface library exclude json =>
    withInterface environment settings interface fun catalog interface =>
      lookupOutput catalog interface library exclude json
  | .library name json =>
    withCatalog environment settings fun catalog => libraryOutput catalog name json
  | .dump => withCatalog environment settings fun catalog => jsonLines (snapshotJson catalog)

/-! ### Journal -/

def logVariableName : String := "IMPLEMENTORS_LOG"

/-- What is shown of the journal: what the variable asks for if it is set to a filter, else what
`verbose` does. -/
def journalFilter (setting : Option Bytes) (verbose : Bool) : Journal.Filter :=
  ((setting.bind Bytes.text?).bind Journal.Filter.parse?).getD (.usual verbose)

/-! ### Execution -/

def usageCode : Nat := 2

def failureCode : Nat := 1

def usageText : String :=
  "usage: implementors [--root DIR] [--order discovered|reverse] [--activate-after N] [-v] COMMAND\n"

def execute (environment : Environment) (arguments : List Bytes) : Outcome :=
  match parse arguments with
  | none => ⟨usageCode, "", usageText, []⟩
  | some invocation =>
    let (output, stopped, journal) := run environment invocation
    let filter := journalFilter environment.logVariable invocation.settings.verbose
    let shown := journal.filter filter.shows
    match stopped with
    | none => ⟨0, output, "", shown⟩
    | some report => ⟨failureCode, output, report.message .plain ++ "\n", shown⟩

end TraitCatalog.CommandLine
