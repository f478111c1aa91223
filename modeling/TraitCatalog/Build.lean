import TraitCatalog.Discovery
import TraitCatalog.DocRoot
import TraitCatalog.LoadPlan

/-!
# Building a catalog

The catalog of a documentation root: all fragments below it are loaded, then a load plan runs them.
-/

namespace TraitCatalog.Catalog

inductive BuildError where
  | load (error : Fragment.LoadError)
  | plan (error : LoadPlan.Error)

def BuildError.report : BuildError → Report
  | .load error => error.report
  | .plan error => .rule error.message

def fragmentsDirectory (root : Path) : Path :=
  root.join DocRoot.fragmentsName

def build (files : FileSystem) (root : Path) (order : LoadOrder) (after : Option Nat) :
    Except BuildError Catalog :=
  match files.loadAll (fragmentsDirectory root) with
  | .error error => .error (.load error)
  | .ok fragments =>
    match (LoadPlan.make fragments.length order after).apply fragments .empty with
    | (none, catalog) => .ok catalog
    | (some error, _) => .error (.plan error)

end TraitCatalog.Catalog
