import TraitCatalog.FileSystem.Fault
import TraitCatalog.Json.Basic

/-!
# Reports

A report says what was being done, from the outside in, and what stopped it. How a fault of a file or
of a JSON text is put into words is up to whoever shows the report.
-/

namespace TraitCatalog

inductive Cause where
  /-- A rule of the catalog, in words. -/
  | rule (message : String)
  | file (fault : FileFault)
  | json (fault : Json.Fault)
deriving DecidableEq

/-- What was being done, outermost first, and what stopped it. -/
structure Report where
  contexts : List String
  cause : Cause
deriving DecidableEq

/-- The words for faults that do not come from the catalog. -/
structure Wording where
  file : FileFault → String
  json : Json.Fault → String

def Wording.plain : Wording where
  file
    | .notFound => "No such file or directory (os error 2)"
    | .notADirectory => "Not a directory (os error 20)"
    | .isADirectory => "Is a directory (os error 21)"
    | .notText => "stream did not contain valid UTF-8"
  json
    | .malformed => "malformed JSON"
    | .truncated => "JSON text ended early"
    | .mismatched => "JSON value of the wrong shape"

namespace Report

def rule (message : String) : Report :=
  ⟨[], .rule message⟩

def within (context : String) (report : Report) : Report :=
  { report with contexts := context :: report.contexts }

def message (wording : Wording) (report : Report) : String :=
  let cause :=
    match report.cause with
    | .rule message => message
    | .file fault => wording.file fault
    | .json fault => wording.json fault
  ": ".intercalate (report.contexts ++ [cause])

end Report
end TraitCatalog
