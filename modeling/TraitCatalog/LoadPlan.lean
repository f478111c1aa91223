import TraitCatalog.Catalog
import TraitCatalog.Fragment

/-!
# Load plans

A load plan says in which order fragments run and when the ready signal is given.
-/

namespace TraitCatalog

inductive LoadOrder where
  | discovered
  | reverse
deriving DecidableEq

namespace LoadOrder

def name : LoadOrder → String
  | .discovered => "discovered"
  | .reverse => "reverse"

def ofName? (name : String) : Option LoadOrder :=
  if name = "discovered" then some .discovered
  else if name = "reverse" then some .reverse
  else none

def unknownMessage (name : String) : String :=
  s!"Unknown load order: {name}"

def arrange {α : Type} : LoadOrder → List α → List α
  | .discovered, found => found
  | .reverse, found => found.reverse

end LoadOrder

inductive LoadEvent where
  | submit (index : Nat)
  | activate
deriving DecidableEq

structure LoadPlan where
  events : List LoadEvent
deriving DecidableEq

namespace LoadPlan

/-- How many of `count` fragments run before the ready signal: as many as asked for, all of them
unless asked. -/
def activationPoint (count : Nat) (after : Option Nat) : Nat :=
  min (after.getD count) count

def make (count : Nat) (order : LoadOrder) (after : Option Nat) : LoadPlan :=
  let indices := order.arrange (List.range count)
  let point := activationPoint count after
  ⟨(indices.take point).map .submit ++ .activate :: (indices.drop point).map .submit⟩

inductive Error where
  | outOfRange (index count : Nat)
deriving DecidableEq

def Error.message : Error → String
  | .outOfRange index count => s!"load plan references fragment {index}, only {count} loaded"

/-- Runs events on a catalog. What was done before an error stays. -/
def run (fragments : List Fragment) : List LoadEvent → Catalog → Option Error × Catalog
  | [], catalog => (none, catalog)
  | .submit index :: rest, catalog =>
    match fragments[index]? with
    | none => (some (.outOfRange index fragments.length), catalog)
    | some fragment =>
      run fragments rest (catalog.submitAll fragment.interface fragment.contributions)
  | .activate :: rest, catalog => run fragments rest catalog.activateAll.2

def apply (plan : LoadPlan) (fragments : List Fragment) (catalog : Catalog) :
    Option Error × Catalog :=
  run fragments plan.events catalog

end LoadPlan
end TraitCatalog
