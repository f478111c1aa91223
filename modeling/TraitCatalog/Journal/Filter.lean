import TraitCatalog.Journal.Directive

/-!
# Journal filters

A filter says which entries of the journal are shown. It is a list of directives. Of those that
cover an entry the most specific one decides, and of equally specific ones the last.
-/

namespace TraitCatalog.Journal

structure Filter where
  directives : List Directive
deriving DecidableEq

namespace Filter

/-- Reads directives with commas between them; none if one of them is malformed. -/
def parse? (text : String) : Option Filter :=
  (((text.toList.splitOn ',').filter (!·.isEmpty)).mapM Directive.parse?).map .mk

def usual (verbose : Bool) : Filter :=
  ⟨[if verbose then { area := some program.toList, threshold := some .debug }
    else { threshold := some .warn }]⟩

def deciding? (filter : Filter) (entry : Entry) : Option Directive :=
  match filter.directives.filter (·.covers entry) with
  | [] => none
  | first :: others => some (others.foldl Directive.heavier first)

/-- Whether an entry is shown. Without a directive about it it is not. -/
def shows (filter : Filter) (entry : Entry) : Bool :=
  match filter.deciding? entry with
  | none => false
  | some directive => entry.shownAt directive.threshold

end Filter
end TraitCatalog.Journal
