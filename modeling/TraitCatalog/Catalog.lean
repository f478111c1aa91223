import TraitCatalog.Interface.Basic
import TraitCatalog.Page

/-!
# Catalogs

A catalog has a page for each interface that was touched. The ready signal activates every page,
those that are made later too.
-/

namespace TraitCatalog

structure Catalog where
  ready : Bool
  pages : Table Interface Page
deriving DecidableEq

namespace Catalog

def empty : Catalog :=
  ⟨false, .empty⟩

def page? (catalog : Catalog) (interface : Interface) : Option Page :=
  catalog.pages.get? interface

/-- A page made now: after the ready signal it starts activated. -/
def newPage (catalog : Catalog) : Page :=
  if catalog.ready then Page.fresh.activate.2 else Page.fresh

def touch (catalog : Catalog) (interface : Interface) : Page :=
  (catalog.page? interface).getD catalog.newPage

def setPage (catalog : Catalog) (interface : Interface) (page : Page) : Catalog :=
  { catalog with pages := catalog.pages.insert interface page }

/-! ### Operations -/

def submit (catalog : Catalog) (interface : Interface) (contribution : Contribution) : Catalog :=
  catalog.setPage interface ((catalog.touch interface).submit contribution)

def activate (catalog : Catalog) (interface : Interface) : Page.Outcome × Catalog :=
  let (outcome, page) := (catalog.touch interface).activate
  (outcome, catalog.setPage interface page)

/-- Gives the ready signal and says how many pages it activated. -/
def activateAll (catalog : Catalog) : Nat × Catalog :=
  ((catalog.pages.entries.filter fun entry => entry.2.activate.1.isActivated).length,
    ⟨true, catalog.pages.mapValues fun page => page.activate.2⟩)

def submitAll (catalog : Catalog) (interface : Interface) (contributions : List Contribution) :
    Catalog :=
  contributions.foldl (fun catalog contribution => catalog.submit interface contribution) catalog

/-! ### Views -/

def visible (catalog : Catalog) (interface : Interface) : Registry :=
  match catalog.page? interface with
  | some page => page.visible
  | none => .empty

def interfaces (catalog : Catalog) : List Interface :=
  catalog.pages.keys

def byLibrary (catalog : Catalog) (library : Library) : List (Interface × List Descriptor) :=
  (catalog.pages.entries.map fun entry => (entry.1, entry.2.visible.lookup library)).filter
    fun entry => !entry.2.isEmpty

/-- What the libraries outside a list contributed to an interface. -/
def foreign (catalog : Catalog) (interface : Interface) (own : List Library) :
    List (Library × List Descriptor) :=
  (catalog.visible interface).toList.filter fun entry => !own.contains entry.1

def snapshot (catalog : Catalog) : Table Interface Registry :=
  catalog.pages.mapValues Page.visible

end Catalog
end TraitCatalog
