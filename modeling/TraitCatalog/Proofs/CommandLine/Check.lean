import TraitCatalog.Proofs.Build
import TraitCatalog.Proofs.CommandLine.Run
import TraitCatalog.Proofs.Fragment.Forms
import TraitCatalog.Proofs.Interface.Location
import TraitCatalog.Proofs.Text.Display

/-!
# Checking a file that was loaded

`check` is given a file and no root, so it takes the first directory `implementors` on the way for the
directory of fragments. Loading knows the root. The two tell the same interface unless the path to the
root passes such a directory too.
-/

namespace TraitCatalog.CommandLine

open DocRoot (fragmentsName)

/-! ### The first directory of fragments -/

theorem components_fragmentsDirectory (root : Path) :
    (Catalog.fragmentsDirectory root).components =
      root.components ++ [.normal fragmentsName.bytes] :=
  Path.components_join root ⟨by decide, by decide, by decide, by decide⟩

theorem locationBelow_eq {path : Path} {front back : List Path.Component}
    (absent : .normal fragmentsName.bytes ∉ front)
    (split : path.components = front ++ .normal fragmentsName.bytes :: back) :
    locationBelow path = back := by
  have passed : ∀ component ∈ front, (component != .normal fragmentsName.bytes) = true := by
    intro component member
    have differ : component ≠ .normal fragmentsName.bytes := fun same => absent (same ▸ member)
    simpa using differ
  unfold locationBelow
  rw [split, List.dropWhile_append_of_pos passed]
  simp

section Located

variable {root path relative : Path} {interface : Interface}
  (below : path.below? (Catalog.fragmentsDirectory root) = some relative)
  (located : Interface.ofPath relative = .ok interface)

include below

theorem components_below_root :
    path.components = root.components ++ .normal fragmentsName.bytes :: relative.components := by
  have some_directory : (Catalog.fragmentsDirectory root).components ≠ [] := by
    simp [components_fragmentsDirectory]
  rw [Path.components_of_below? below some_directory, components_fragmentsDirectory]
  simp

include located

theorem located?_of_not_mem (absent : .normal fragmentsName.bytes ∉ root.components) :
    located? path = some interface := by
  have told : Interface.ofComponents path relative.components = .ok interface :=
    Interface.ofComponents_eq_ok_iff.2 (Interface.ofComponents_eq_ok_iff.1 located)
  rw [located?, locationBelow_eq absent (components_below_root below), told]
  rfl

theorem located?_ne_of_mem (passed : .normal fragmentsName.bytes ∈ root.components) :
    located? path ≠ some interface := by
  obtain ⟨front, back, split, absent⟩ := List.eq_append_cons_of_mem passed
  have whole := components_below_root below
  rw [split, List.append_assoc, List.cons_append] at whole
  have passes : Path.moves (back ++ [.normal fragmentsName.bytes]) ≠ [] := by simp [Path.moves]
  have other : Interface.ofComponents path _ ≠ .ok interface :=
    Interface.ofComponents_append_ne located passes
  rw [located?, locationBelow_eq absent whole]
  intro told
  cases found : Interface.ofComponents path
      (back ++ .normal fragmentsName.bytes :: relative.components) with
  | error error =>
    rw [found] at told
    cases told
  | ok longer =>
    rw [found] at told
    obtain rfl := Option.some.inj told
    exact other (by simpa using found)

theorem located?_eq_some_iff :
    located? path = some interface ↔ .normal fragmentsName.bytes ∉ root.components := by
  constructor
  · intro told passed
    exact located?_ne_of_mem below located passed told
  · exact located?_of_not_mem below located

end Located

/-! ### The report -/

/-- A dash stands for no interface, and none is called so. -/
theorem name_eq_iff {told : Option Interface} {interface : Interface}
    (proper : Interface.IsPath interface.text.toList) :
    (told.map Interface.text).getD "-" = interface.text ↔ told = some interface := by
  constructor
  · intro named
    cases told with
    | none =>
      rw [← named] at proper
      exact absurd (Schema.matchesPath_iff.2 proper) (by decide)
    | some other => exact congrArg (fun text => some (Interface.mk text)) named
  · intro same
    rw [same]
    rfl

/-- The line about a file that calls its interface by a name. -/
def lineNaming (path : Path) (name : String) (contributions : List Contribution) : String :=
  path.display ++ "\t" ++ name ++ "\t" ++ toString contributions.length ++ " libraries" ++ "\t" ++
    toString (contributions.flatMap Contribution.descriptors).length ++ " descriptors" ++ "\n"

theorem lineNaming_inj {path : Path} {left right : String} {contributions : List Contribution} :
    lineNaming path left contributions = lineNaming path right contributions ↔ left = right := by
  simp [lineNaming, String.append_right_inj, String.append_left_inj]

theorem lines_checkLine (path : Path) (content : Fragment.Content) :
    lines [checkLine path content] =
      lineNaming path (((content.declared <|> located? path).map Interface.text).getD "-")
        content.contributions := by
  have tabbed : ∀ first second third fourth : String,
      "\t".intercalate [first, second, third, fourth] =
        first ++ "\t" ++ second ++ "\t" ++ third ++ "\t" ++ fourth := fun _ _ _ _ => rfl
  simp only [lines, checkLine, lineNaming, List.map_singleton, String.join, List.foldl_cons,
    List.foldl_nil, String.empty_append, tabbed, String.append_assoc]
  rfl

theorem bytes_ne_nil_of_readFragment {files : FileSystem} {path : Path} {content : Fragment.Content}
    (read : files.readFragment path = .ok content) : path.bytes ≠ [] := by
  obtain ⟨bytes⟩ := path
  rintro rfl
  cases read

theorem parse_check {path : Path} (some_path : path.bytes ≠ []) :
    parse [.ofText "check", .ofText "--", path.bytes] =
      some ⟨⟨none, none, none, false⟩, .check [path]⟩ := by
  have behind : scanOnce (spec "check") false [.ofText "--", path.bytes] =
      some { words := [path.bytes] } := rfl
  have named : command? "check" { words := [path.bytes] } = some (.check [path]) := by
    simp [command?, path?, some_path]
  exact parse_words (by decide) behind named

theorem execute_check {environment : Environment} {path : Path} {content : Fragment.Content}
    (read : environment.files.readFragment path = .ok content) :
    execute environment [.ofText "check", .ofText "--", path.bytes] =
      ⟨0, lines [checkLine path content], "", []⟩ := by
  have printed : check environment.files [path] = ([checkLine path content], none) := by
    simp only [check, read]
  simp only [execute, parse_check (bytes_ne_nil_of_readFragment read), run, printed, List.filter_nil]

def holding (contribution : Contribution) (names : List String) : Environment where
  files := ⟨FileTree.write (.directory []) (names.map Bytes.ofText)
    (Bytes.ofText (Script.render [contribution])), []⟩

theorem readFragment_holding {contribution : Contribution} {names : List String} {path : Path}
    (quotable : Script.Quotable contribution.library)
    (form : Fragment.Format.ofPath? path = some .script)
    (found : (holding contribution names).files.find path =
      .ok (.file (Bytes.ofText (Script.render [contribution])))) :
    (holding contribution names).files.readFragment path = .ok ⟨none, [contribution]⟩ := by
  have read := Script.parse_render (List.cons_ne_nil contribution [])
    (List.forall_mem_singleton.2 quotable)
  have parsed : Fragment.Format.script.parse (Script.render [contribution]) path.display =
      .ok ⟨none, [contribution]⟩ := by
    simp only [Fragment.Format.parse, read]
  exact FileSystem.readFragment_of_find form found parsed

/-- For a file that was loaded, `check` prints a line about the interface that the text declares, or else
that the first directory of fragments on its path tells. This is the interface that the file was loaded
with if the text declares it or no directory on the way to the root is called `implementors`, and only
then. -/
theorem check_agrees_with_load_iff {environment : Environment} {root path : Path} {fragment : Fragment}
    (loaded : environment.files.loadFragment (Catalog.fragmentsDirectory root) path = .ok fragment) :
    ∃ content, environment.files.readFragment path = .ok content ∧
      execute environment [.ofText "check", .ofText "--", path.bytes] =
        ⟨0, lineNaming path (((content.declared <|> located? path).map Interface.text).getD "-")
          fragment.contributions, "", []⟩ ∧
      ((content.declared <|> located? path) = some fragment.interface ↔
        content.declared.isSome = true ∨ .normal (.ofText "implementors") ∉ root.components) ∧
      (execute environment [.ofText "check", .ofText "--", path.bytes] =
          ⟨0, lineNaming path fragment.interface.text fragment.contributions, "", []⟩ ↔
        content.declared.isSome = true ∨ .normal (.ofText "implementors") ∉ root.components) := by
  obtain ⟨content, below, read, same, origin⟩ := FileSystem.exists_content_of_loadFragment loaded
  have printed := execute_check read
  rw [lines_checkLine, same] at printed
  have line : execute environment [.ofText "check", .ofText "--", path.bytes] =
      ⟨0, lineNaming path fragment.interface.text fragment.contributions, "", []⟩ ↔
        ((content.declared <|> located? path).map Interface.text).getD "-" =
          fragment.interface.text := by
    rw [printed, Outcome.mk.injEq, lineNaming_inj]
    simp only [true_and, and_true]
  refine ⟨content, read, printed, ?_⟩
  rw [line]
  rcases origin with declared | ⟨undeclared, located⟩
  · simp [declared]
  · have told := located?_eq_some_iff below located
    rw [undeclared, name_eq_iff (Interface.isPath_of_ofPath located)]
    simp only [Option.isSome_none, Bool.false_eq_true, false_or]
    exact ⟨told, told⟩

-- The second directory `implementors` stands below the root, so it is a segment for both.
theorem check_agrees_with_load_iff_inner_directory :
    let contribution : Contribution := ⟨"petgraph", ["impl Clone"]⟩
    let path := Path.ofText "/implementors/core/implementors/trait.Clone.js"
    let environment := holding contribution ["implementors", "core", "implementors", "trait.Clone.js"]
    environment.files.loadFragment (Catalog.fragmentsDirectory (.ofText "/")) path =
      .ok ⟨.ofText "core/implementors/trait.Clone.js", ⟨"core::implementors::Clone"⟩, [contribution]⟩ ∧
    execute environment [.ofText "check", .ofText "--", path.bytes] =
      ⟨0, "/implementors/core/implementors/trait.Clone.js\tcore::implementors::Clone\t" ++
        "1 libraries\t1 descriptors\n", "", []⟩ := by
  intro contribution path environment
  have loaded : environment.files.loadFragment (Catalog.fragmentsDirectory (.ofText "/")) path =
      .ok ⟨.ofText "core/implementors/trait.Clone.js", ⟨"core::implementors::Clone"⟩,
        [contribution]⟩ :=
    FileSystem.loadFragment_of_located (by rfl)
      (readFragment_holding ⟨by decide, by decide⟩ (by rfl) (by rfl)) (by rfl)
  obtain ⟨content, _, _, _, agrees⟩ := check_agrees_with_load_iff loaded
  have shown : path.display = "/implementors/core/implementors/trait.Clone.js" :=
    Bytes.display_ofText _
  have line : lineNaming path "core::implementors::Clone" [contribution] =
      "/implementors/core/implementors/trait.Clone.js\tcore::implementors::Clone\t" ++
        "1 libraries\t1 descriptors\n" := by
    rw [lineNaming, shown]
    decide
  rw [← line]
  exact ⟨loaded, agrees.2 (Or.inr (by decide))⟩

/-- One file below two roots has two interfaces, and `check`, which sees only the path, reports the one of
the outer root. -/
theorem check_reports_outer_root :
    let contribution : Contribution := ⟨"petgraph", ["impl Display"]⟩
    let path := Path.ofText "/implementors/docs/implementors/core/fmt/trait.Display.js"
    let environment := holding contribution
      ["implementors", "docs", "implementors", "core", "fmt", "trait.Display.js"]
    let inner : Interface := ⟨"core::fmt::Display"⟩
    let outer : Interface := ⟨"docs::implementors::core::fmt::Display"⟩
    environment.files.loadFragment (Catalog.fragmentsDirectory (.ofText "/implementors/docs")) path =
      .ok ⟨.ofText "core/fmt/trait.Display.js", inner, [contribution]⟩ ∧
    environment.files.loadFragment (Catalog.fragmentsDirectory (.ofText "/")) path =
      .ok ⟨.ofText "docs/implementors/core/fmt/trait.Display.js", outer, [contribution]⟩ ∧
    execute environment [.ofText "check", .ofText "--", path.bytes] =
      ⟨0, "/implementors/docs/implementors/core/fmt/trait.Display.js\t" ++ outer.text ++
        "\t1 libraries\t1 descriptors\n", "", []⟩ ∧
    outer ≠ inner := by
  intro contribution path environment inner outer
  have read : environment.files.readFragment path = .ok ⟨none, [contribution]⟩ :=
    readFragment_holding ⟨by decide, by decide⟩ (by rfl) (by rfl)
  refine ⟨?_, ?_, ?_, by decide⟩
  · exact FileSystem.loadFragment_of_located (by rfl) read (by rfl)
  · exact FileSystem.loadFragment_of_located (by rfl) read (by rfl)
  · have shown : path.display = "/implementors/docs/implementors/core/fmt/trait.Display.js" :=
      Bytes.display_ofText _
    have line : lineNaming path outer.text [contribution] =
        "/implementors/docs/implementors/core/fmt/trait.Display.js\t" ++ outer.text ++
          "\t1 libraries\t1 descriptors\n" := by
      rw [lineNaming, shown]
      decide
    rw [execute_check read, lines_checkLine, ← line]
    rfl

end TraitCatalog.CommandLine
