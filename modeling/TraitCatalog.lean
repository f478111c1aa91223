import TraitCatalog.Document.Reader
import TraitCatalog.Main
import TraitCatalog.Proofs.Registry.Calls
import TraitCatalog.Proofs.Catalog.Independence
import TraitCatalog.Proofs.Catalog.Refinement
import TraitCatalog.Proofs.LoadPlan.Apply
import TraitCatalog.Proofs.LoadPlan.Reordering
import TraitCatalog.Proofs.LoadPlan.Shortage
import TraitCatalog.Proofs.LoadPlan.Events
import TraitCatalog.Proofs.Json.Literal
import TraitCatalog.Proofs.Script.Grammar
import TraitCatalog.Proofs.Script.Layout
import TraitCatalog.Proofs.Interface.Language
import TraitCatalog.Proofs.Interface.Pattern
import TraitCatalog.Proofs.Interface.Location
import TraitCatalog.Proofs.Interface.Mirror
import TraitCatalog.Proofs.Path.Spelling
import TraitCatalog.Proofs.Path.Descent
import TraitCatalog.Proofs.Text.ByteOrder
import TraitCatalog.Proofs.Text.Items
import TraitCatalog.Proofs.Json.Loops
import TraitCatalog.Proofs.Json.Canonical
import TraitCatalog.Proofs.Json.Verbatim
import TraitCatalog.Proofs.Json.Written
import TraitCatalog.Proofs.Document.Admission
import TraitCatalog.Proofs.Document.Text
import TraitCatalog.Proofs.Fragment.Forms
import TraitCatalog.Proofs.FileSystem.Rearranged
import TraitCatalog.Proofs.FileSystem.Walk
import TraitCatalog.Proofs.FileSystem.Joined
import TraitCatalog.Proofs.Discovery
import TraitCatalog.Proofs.Discovery.Traversal
import TraitCatalog.Proofs.Discovery.Placement
import TraitCatalog.Proofs.Build
import TraitCatalog.Proofs.Catalog.Views
import TraitCatalog.Proofs.CommandLine.Run
import TraitCatalog.Proofs.Catalog.WellFormed
import TraitCatalog.Proofs.CommandLine.Output
import TraitCatalog.Proofs.CommandLine.Check
import TraitCatalog.Proofs.DocRoot
import TraitCatalog.Proofs.Setting
import TraitCatalog.Proofs.Text.Position
import TraitCatalog.Proofs.Script.Refusal
import TraitCatalog.Proofs.Script.Offsets
import TraitCatalog.Proofs.Schema
