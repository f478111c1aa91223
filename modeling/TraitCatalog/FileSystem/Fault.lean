/-!
# Why a file cannot be used
-/

namespace TraitCatalog

inductive FileFault where
  | notFound
  /-- The path leads through a file. -/
  | notADirectory
  | isADirectory
  /-- The file does not hold UTF-8. -/
  | notText
deriving DecidableEq

end TraitCatalog
