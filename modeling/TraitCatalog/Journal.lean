import TraitCatalog.Build

/-!
# Journal

The journal tells what a catalog does with contributions and signals. What an operation enters is a
function of the state before it, so the operations themselves do not carry the journal along.
-/

namespace TraitCatalog.Journal

/-- The name of the program, with which the names of its areas start. -/
def program : String := "implementors"

/-- How much an entry matters, the most important first. -/
inductive Level where
  | error
  | warn
  | info
  | debug
  | trace
deriving DecidableEq

namespace Level

def rank : Level → Nat
  | .error => 0
  | .warn => 1
  | .info => 2
  | .debug => 3
  | .trace => 4

def label : Level → String
  | .error => "ERROR"
  | .warn => "WARN"
  | .info => "INFO"
  | .debug => "DEBUG"
  | .trace => "TRACE"

end Level

inductive Entry where
  | fragmentLoaded (path : Path) (interface : Interface) (contributions : Nat)
  | fragmentRun (path : Path)
  | contributionBuffered (library : Library) (queued : Nat)
  | contributionForwarded (library : Library)
  | emptyIgnored (library : Library)
  | descriptorsRegistered (library : Library) (count : Nat)
  | registryActivated (replayed : Nat)
  | activatedAgain
  | pageActivated (interface : Interface) (replayed : Nat)
  | pageMadeReady (interface : Interface)
  | signalGiven (activated : Nat)
deriving DecidableEq

namespace Entry

def level : Entry → Level
  | .registryActivated _ => .info
  | .contributionForwarded _ | .emptyIgnored _ | .descriptorsRegistered _ _ => .trace
  | .fragmentLoaded _ _ _ | .fragmentRun _ | .contributionBuffered _ _ | .activatedAgain
  | .pageActivated _ _ | .pageMadeReady _ | .signalGiven _ => .debug

def area : Entry → String
  | .fragmentLoaded _ _ _ => program ++ "::fragment"
  | .fragmentRun _ | .signalGiven _ => program ++ "::load_plan"
  | .contributionBuffered _ _ | .contributionForwarded _ | .registryActivated _
  | .activatedAgain => program ++ "::activation"
  | .emptyIgnored _ | .descriptorsRegistered _ _ => program ++ "::registry"
  | .pageActivated _ _ | .pageMadeReady _ => program ++ "::catalog::index"

def event : Entry → String
  | .fragmentLoaded _ _ _ => "loaded fragment"
  | .fragmentRun _ => "running fragment"
  | .contributionBuffered _ _ => "registry not ready; buffering contribution"
  | .contributionForwarded _ => "forwarding contribution"
  | .emptyIgnored _ => "ignoring empty contribution"
  | .descriptorsRegistered _ _ => "registering descriptors"
  | .registryActivated _ => "registry activated"
  | .activatedAgain => "activation triggered again; already forwarding directly"
  | .pageActivated _ _ => "page activated"
  | .pageMadeReady _ => "page created after ready signal"
  | .signalGiven _ => "page ready"

def fields : Entry → List (String × String)
  | .fragmentLoaded path interface contributions =>
    [("path", path.display), ("interface", interface.text),
      ("contributions", toString contributions)]
  | .fragmentRun path => [("path", path.display)]
  | .contributionBuffered library queued => [("library", library), ("queued", toString queued)]
  | .contributionForwarded library | .emptyIgnored library => [("library", library)]
  | .descriptorsRegistered library count => [("library", library), ("count", toString count)]
  | .registryActivated replayed => [("replayed", toString replayed)]
  | .activatedAgain => []
  | .pageActivated interface replayed =>
    [("interface", interface.text), ("replayed", toString replayed)]
  | .pageMadeReady interface => [("interface", interface.text)]
  | .signalGiven activated => [("activated", toString activated)]

/-- Whether the entry has a field. The event itself is the field `message`. -/
def hasField (entry : Entry) (name : String) : Bool :=
  name == "message" || entry.fields.any (·.1 == name)

def message (entry : Entry) : String :=
  String.join (entry.event :: entry.fields.map fun field => " " ++ field.1 ++ "=" ++ field.2)

def line (entry : Entry) : String :=
  entry.level.label ++ " " ++ entry.message

/-- Whether the entry is shown up to a level; without one nothing is. -/
def shownAt (threshold : Option Level) (entry : Entry) : Bool :=
  match threshold with
  | none => false
  | some level => entry.level.rank ≤ level.rank

end Entry

/-! ### What operations enter -/

def ofRegister (contribution : Contribution) : List Entry :=
  if contribution.isEmpty then [.emptyIgnored contribution.library]
  else [.descriptorsRegistered contribution.library contribution.descriptors.length]

def ofPageSubmit (contribution : Contribution) : Page → List Entry
  | .buffering pending => [.contributionBuffered contribution.library (pending.length + 1)]
  | .direct _ => .contributionForwarded contribution.library :: ofRegister contribution

def ofPageActivate : Page → List Entry
  | .buffering pending => pending.flatMap ofRegister ++ [.registryActivated pending.length]
  | .direct _ => [.activatedAgain]

def ofTouch (catalog : Catalog) (interface : Interface) : List Entry :=
  if (catalog.page? interface).isNone && catalog.ready then
    ofPageActivate .fresh ++ [.pageMadeReady interface]
  else []

def ofSubmit (catalog : Catalog) (interface : Interface) (contribution : Contribution) :
    List Entry :=
  ofTouch catalog interface ++ ofPageSubmit contribution (catalog.touch interface)

def ofSubmitAll (interface : Interface) : Catalog → List Contribution → List Entry
  | _, [] => []
  | catalog, contribution :: rest =>
    ofSubmit catalog interface contribution ++
      ofSubmitAll interface (catalog.submit interface contribution) rest

def ofActivateAll (catalog : Catalog) : List Entry :=
  catalog.pages.entries.flatMap fun entry =>
    ofPageActivate entry.2 ++
      if entry.2.isDirect then [] else [.pageActivated entry.1 entry.2.pendingCount]

/-- The events of a load plan, up to the first that fails. -/
def ofEvents (fragments : List Fragment) : List LoadEvent → Catalog → List Entry
  | [], _ => []
  | .submit index :: rest, catalog =>
    match fragments[index]? with
    | none => []
    | some fragment =>
      .fragmentRun fragment.path ::
        ofSubmitAll fragment.interface catalog fragment.contributions ++
        ofEvents fragments rest (catalog.submitAll fragment.interface fragment.contributions)
  | .activate :: rest, catalog =>
    ofActivateAll catalog ++ .signalGiven catalog.activateAll.1 ::
      ofEvents fragments rest catalog.activateAll.2

def ofLoad (fragment : Fragment) : Entry :=
  .fragmentLoaded fragment.path fragment.interface fragment.contributions.length

/-- The fragments that were loaded, up to the first that was refused. -/
def loadedFirst (files : FileSystem) (directory : Path) : List Path → List Fragment
  | [] => []
  | path :: rest =>
    match files.loadFragment directory path with
    | .error _ => []
    | .ok fragment => fragment :: loadedFirst files directory rest

def ofBuild (files : FileSystem) (root : Path) (order : LoadOrder) (after : Option Nat) :
    List Entry :=
  let directory := Catalog.fragmentsDirectory root
  match files.discover directory with
  | .error _ => []
  | .ok paths =>
    let fragments := loadedFirst files directory paths
    fragments.map ofLoad ++
      if fragments.length = paths.length then
        ofEvents fragments (LoadPlan.make fragments.length order after).events .empty
      else []

end TraitCatalog.Journal
