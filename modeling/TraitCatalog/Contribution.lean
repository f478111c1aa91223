/-!
# Contributions

A contribution says which descriptors one library adds to one interface. A descriptor is the markup
of one implementation, shown as it was written.
-/

namespace TraitCatalog

/-- The name of a library. Names are compared character by character. -/
abbrev Library := String

/-- The markup of one implementation. -/
abbrev Descriptor := String

structure Contribution where
  library : Library
  descriptors : List Descriptor
deriving DecidableEq

namespace Contribution

def isEmpty (contribution : Contribution) : Bool :=
  contribution.descriptors.isEmpty

end Contribution
end TraitCatalog
