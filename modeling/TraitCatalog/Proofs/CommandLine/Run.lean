import TraitCatalog.CommandLine.Basic
import TraitCatalog.Proofs.Interface.Language
import TraitCatalog.Proofs.Text.ByteOrder

/-!
# Runs that succeed

A command line that is understood, about a catalog that is built, prints what its command makes of the
catalog and exits with no complaint. A path is always understood as a word.
-/

namespace TraitCatalog.CommandLine

/-! ### Words -/

theorem isOption_of_isPath {text : String} (path : Interface.IsPath text.toList) :
    isOption (Bytes.ofText text) = false := by
  unfold Bytes.ofText
  cases same : text.toList with
  | nil => rfl
  | cons c rest =>
    rw [same, Interface.isPath_cons_iff, Interface.isSegmentChar_iff] at path
    have range := Interface.toNat_of_segmentChar path.1
    have other : UInt8.ofNat c.toNat ≠ dash := by
      intro found
      have number : c.toNat % 256 = 45 := congrArg UInt8.toNat found
      omega
    rw [List.flatMap_cons, Bytes.encodeChar_of_ascii (by omega), List.cons_append, List.nil_append]
    unfold isOption
    split
    · rename_i first _ _ split
      obtain ⟨rfl, _⟩ := List.cons.inj split
      simpa using other
    · rfl

theorem scan_word {spec : Spec} {word : Bytes} (plain : isOption word = false) (rest : List Bytes)
    (untilWord : Bool) :
    scan spec untilWord (word :: rest) =
      if untilWord then some { words := word :: rest }
      else (scan spec untilWord rest).map (Given.withWord word) := by
  have inside : isEnd word = false := by
    cases ending : isEnd word with
    | false => rfl
    | true =>
      rw [beq_iff_eq.1 ending] at plain
      cases plain
  rw [scan.eq_def]
  simp [inside, plain]

/-- A subcommand that is given words and no options. -/
theorem parse_words {name : String} {arguments words : List Bytes} {command : Command}
    (plain : isOption (.ofText name) = false)
    (behind : scanOnce (spec name) false arguments = some { words := words })
    (named : command? name { words := words } = some command) :
    parse (.ofText name :: arguments) = some ⟨⟨none, none, none, false⟩, command⟩ := by
  have before : scanOnce sharedSpec true (.ofText name :: arguments) =
      some { words := .ofText name :: arguments } := by
    rw [scanOnce, scan_word plain]
    rfl
  have default : ∀ words, settings? { words := words } = some ⟨none, none, none, false⟩ :=
    fun _ => rfl
  rw [parse, before]
  simp [Bytes.text?_ofText, behind, named, default, Settings.withDefaults]

theorem parse_keys {text : String} (path : Interface.IsPath text.toList) :
    parse [.ofText "keys", .ofText text] = some ⟨⟨none, none, none, false⟩, .keys text⟩ := by
  have behind : scanOnce (spec "keys") false [.ofText text] = some { words := [.ofText text] } := by
    rw [scanOnce, scan_word (isOption_of_isPath path)]
    rfl
  have named : command? "keys" { words := [.ofText text] } = some (.keys text) := by
    simp [command?, Bytes.text?_ofText]
  exact parse_words (by decide) behind named

/-! ### Running -/

section Built

variable {environment : Environment} {settings : Settings} {request : Request} {catalog : Catalog}
  (requested : CommandLine.request environment settings = .ok request)
  (built : Catalog.build environment.files request.root request.order request.after = .ok catalog)

include requested built

theorem withCatalog_of_built (output : Catalog → String) :
    ∃ journal, withCatalog environment settings output = (output catalog, none, journal) := by
  have loaded : request.load environment.files = .ok catalog := by
    rw [Request.load, built]
    rfl
  simp only [withCatalog, requested, loaded]
  exact ⟨_, rfl⟩

theorem withInterface_of_built {text : String} {interface : Interface}
    (named : Interface.parse text = .ok interface) (output : Catalog → Interface → String) :
    ∃ journal, withInterface environment settings text output =
      (output catalog interface, none, journal) := by
  rw [withInterface, named]
  exact withCatalog_of_built requested built fun catalog => output catalog interface

end Built

theorem execute_of_run {environment : Environment} {arguments : List Bytes} {invocation : Invocation}
    {output : String} (parsed : parse arguments = some invocation)
    (ran : ∃ journal, run environment invocation = (output, none, journal)) :
    ∃ journal, execute environment arguments = ⟨0, output, "", journal⟩ := by
  obtain ⟨journal, ran⟩ := ran
  simp only [execute, parsed, ran]
  exact ⟨_, rfl⟩

end TraitCatalog.CommandLine
