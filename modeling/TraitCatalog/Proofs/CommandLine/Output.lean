import TraitCatalog.Proofs.Build
import TraitCatalog.Proofs.Catalog.Views
import TraitCatalog.Proofs.CommandLine.Run
import TraitCatalog.Proofs.Document.Text

/-!
# What a command line prints

The commands that print JSON print a view of the catalog, and reading their output gives this view
back: the names stand in increasing order, so no member is lost, and what is written over lines is read
as it was written (`parse_jsonLines`). The plain output of a look-up has the descriptors of the same
selection.
-/

namespace TraitCatalog

theorem Registry.toList_eq_map (registry : Registry) :
    registry.toList = registry.libraries.map fun library => (library, registry.lookup library) := by
  have same : ∀ entry ∈ registry.toList, (entry.1, registry.lookup entry.1) = entry := by
    intro entry listed
    rw [← (mem_toList_iff.1 listed).2]
  calc registry.toList
      = registry.toList.map fun entry => (entry.1, registry.lookup entry.1) :=
        ((List.map_congr_left same).trans (List.map_id' _)).symm
    _ = registry.libraries.map fun library => (library, registry.lookup library) := by
        unfold libraries Table.keys
        rw [List.map_map]
        rfl

namespace CommandLine

/-! ### Reading lines of JSON -/

theorem parse_jsonLines {value : Json} (plain : Json.Plain Json.depthLimit value)
    (canonical : value.Canonical) : Json.parse (jsonLines value) = .ok value :=
  Json.parse_eq_ok_iff.2
    ⟨value, Json.verbatim_pretty plain (List.forall_mem_singleton.2 rfl), canonical.settled_eq⟩

theorem parse_listsJson {lists : List (String × List Descriptor)}
    (ordered : (lists.map Prod.fst).Pairwise (· < ·)) :
    Json.parse (jsonLines (listsJson lists)) = .ok (listsJson lists) :=
  parse_jsonLines (Json.plain_ofLists lists 125) (Json.canonical_ofLists (List.pairwise_map.1 ordered))

theorem parse_snapshotJson (catalog : Catalog) :
    Json.parse (jsonLines (snapshotJson catalog)) = .ok (snapshotJson catalog) := by
  refine parse_jsonLines (.object fun member present => ?_) (.object ?_ fun member present => ?_)
  · obtain ⟨entry, _, rfl⟩ := List.mem_map.1 present
    exact Json.plain_ofLists entry.2.toList 124
  · exact List.pairwise_map.2 catalog.snapshot.sorted
  · obtain ⟨entry, _, rfl⟩ := List.mem_map.1 present
    exact Json.canonical_ofLists entry.2.lists.sorted

/-! ### What is selected -/

/-- The libraries that the options of a look-up leave, in increasing order: those that are no item of
the excluded ones, and only the given one if one is given. -/
def selected (registry : Registry) (library exclude : Option String) : List Library :=
  registry.libraries.filter fun name =>
    name ∉ (exclude.map Text.items).getD [] ∧ ∀ only ∈ library, name = only

theorem selected_pairwise (registry : Registry) (library exclude : Option String) :
    (selected registry library exclude).Pairwise (· < ·) :=
  registry.libraries_pairwise.filter _

theorem selection_eq_map (catalog : Catalog) (interface : Interface) (library exclude : Option String) :
    selection catalog interface library exclude =
      (selected (catalog.visible interface) library exclude).map
        fun name => (name, (catalog.visible interface).lookup name) := by
  unfold selection Catalog.foreign selected
  dsimp only
  rw [Registry.toList_eq_map, List.filter_map, List.filter_map, List.filter_filter]
  refine congrArg (List.map _) (List.filter_congr fun name _ => ?_)
  rw [Bool.eq_iff_iff]
  cases library with
  | none => simp
  | some only => simp [and_comm]

theorem parse_lookupOutput (catalog : Catalog) (interface : Interface)
    (library exclude : Option String) :
    Json.parse (lookupOutput catalog interface library exclude true) =
      .ok (.object ((selected (catalog.visible interface) library exclude).map fun name =>
        (name, .ofTexts ((catalog.visible interface).lookup name)))) := by
  have ordered : ((selection catalog interface library exclude).map Prod.fst).Pairwise (· < ·) := by
    rw [selection_eq_map, List.map_map]
    exact List.pairwise_map.2 (selected_pairwise (catalog.visible interface) library exclude)
  have read := parse_listsJson ordered
  rw [selection_eq_map] at read
  rw [lookupOutput, if_pos rfl, selection_eq_map, read, listsJson, List.map_map]
  rfl

theorem lookupOutput_plain (catalog : Catalog) (interface : Interface)
    (library exclude : Option String) :
    lookupOutput catalog interface library exclude false =
      String.join (((selected (catalog.visible interface) library exclude).flatMap
        (catalog.visible interface).lookup).map (· ++ "\n")) := by
  rw [lookupOutput, selection_eq_map, List.flatMap_map]
  rfl

theorem parse_libraryOutput (catalog : Catalog) (name : Library) :
    Json.parse (libraryOutput catalog name true) =
      .ok (.object ((catalog.byLibrary name).map fun entry => (entry.1.text, .ofTexts entry.2))) := by
  have ordered : (((catalog.byLibrary name).map fun entry => (entry.1.text, entry.2)).map
      Prod.fst).Pairwise (· < ·) := by
    rw [List.map_map]
    exact catalog.byLibrary_pairwise name
  rw [libraryOutput, if_pos rfl, parse_listsJson ordered, listsJson, List.map_map]
  rfl

/-! ### Whole runs -/

/-- The run succeeds, and what it prints is read as a value. -/
def Prints (environment : Environment) (arguments : List Bytes) (value : Json) : Prop :=
  ∃ output journal, execute environment arguments = ⟨0, output, "", journal⟩ ∧
    Json.parse output = .ok value

/-- What is printed of a catalog. As JSON, a look-up gives every selected library with its descriptors,
a dump all pages, and a library its descriptors at every interface; without JSON a look-up gives the
descriptors of the same selection, one to a line. -/
theorem output_shows_view {environment : Environment} {settings : Settings} {request : Request}
    {catalog : Catalog} (requested : CommandLine.request environment settings = .ok request)
    (built : Catalog.build environment.files request.root request.order request.after = .ok catalog) :
    (∀ arguments text interface library exclude, Interface.parse text = .ok interface →
      (parse arguments = some ⟨settings, .lookup text library exclude true⟩ →
        Prints environment arguments
          (.object ((selected (catalog.visible interface) library exclude).map fun name =>
            (name, .ofTexts ((catalog.visible interface).lookup name))))) ∧
      (parse arguments = some ⟨settings, .lookup text library exclude false⟩ →
        ∃ journal, execute environment arguments =
          ⟨0, String.join (((selected (catalog.visible interface) library exclude).flatMap
            (catalog.visible interface).lookup).map (· ++ "\n")), "", journal⟩)) ∧
    (∀ arguments, parse arguments = some ⟨settings, .dump⟩ →
      Prints environment arguments
        (.object (catalog.snapshot.entries.map fun page =>
          (page.1.text, .object (page.2.toList.map fun entry => (entry.1, .ofTexts entry.2)))))) ∧
    (∀ arguments name, parse arguments = some ⟨settings, .library name true⟩ →
      Prints environment arguments
        (.object ((catalog.byLibrary name).map fun entry =>
          (entry.1.text, .ofTexts entry.2)))) := by
  have loaded := withCatalog_of_built requested built
  refine ⟨fun arguments text interface library exclude named => ⟨fun parsed => ?_, fun parsed => ?_⟩,
    fun arguments parsed => ?_, fun arguments name parsed => ?_⟩
  · have looked := withInterface_of_built requested built named fun catalog interface =>
      lookupOutput catalog interface library exclude true
    obtain ⟨journal, ran⟩ := execute_of_run parsed looked
    exact ⟨_, journal, ran, parse_lookupOutput catalog interface library exclude⟩
  · have looked := withInterface_of_built requested built named fun catalog interface =>
      lookupOutput catalog interface library exclude false
    rw [lookupOutput_plain] at looked
    exact execute_of_run parsed looked
  · obtain ⟨journal, ran⟩ := execute_of_run parsed (loaded _)
    exact ⟨_, journal, ran, parse_snapshotJson catalog⟩
  · have listed := loaded fun catalog => libraryOutput catalog name true
    obtain ⟨journal, ran⟩ := execute_of_run parsed listed
    exact ⟨_, journal, ran, parse_libraryOutput catalog name⟩

-- One library is excluded by an item of a list, the other has a quote, a backslash and a line end in
-- its descriptor.
theorem output_shows_view_excluded :
    let document : Document := ⟨Document.currentVersion, some "core::hash::Hash",
      .ofPairs [("serde", ["\"\\\n"]), ("alloc", ["impl Hash", ""])]⟩
    let environment : Environment := { files := ⟨.directory [(Bytes.ofText "implementors",
      .directory [(Bytes.ofText "hash.json", .file (Bytes.ofText document.render))])], []⟩ }
    let ask (words : List String) : List Bytes := ("--root" :: "/" :: words).map .ofText
    Prints environment (ask ["lookup", "core::hash::Hash", "--exclude=std, alloc", "--json"])
      (.object [("serde", .ofTexts ["\"\\\n"])]) ∧
    (∃ journal, execute environment (ask ["lookup", "--library=alloc", "core::hash::Hash"]) =
      ⟨0, "impl Hash\n\n", "", journal⟩) ∧
    Prints environment (ask ["dump"])
      (.object [("core::hash::Hash",
        .object [("alloc", .ofTexts ["impl Hash", ""]), ("serde", .ofTexts ["\"\\\n"])])]) ∧
    Prints environment (ask ["library", "alloc", "--json"])
      (.object [("core::hash::Hash", .ofTexts ["impl Hash", ""])]) := by
  intro document environment ask
  let catalog := (Catalog.empty.submitAll ⟨"core::hash::Hash"⟩
    [⟨"alloc", ["impl Hash", ""]⟩, ⟨"serde", ["\"\\\n"]⟩]).activateAll.2
  let directory := Catalog.fragmentsDirectory (.ofText "/")
  have admitted : document.Admitted := Document.admitted_of_matchesPath (by decide) (by decide)
  have fragment : environment.files.loadFragment directory (.ofText "/implementors/hash.json") =
      .ok ⟨.ofText "hash.json", ⟨"core::hash::Hash"⟩,
        [⟨"alloc", ["impl Hash", ""]⟩, ⟨"serde", ["\"\\\n"]⟩]⟩ :=
    FileSystem.loadFragment_of_document admitted rfl (by rfl) (by rfl) (by rfl)
  have loaded : environment.files.loadAll directory = .ok [⟨.ofText "hash.json", ⟨"core::hash::Hash"⟩,
      [⟨"alloc", ["impl Hash", ""]⟩, ⟨"serde", ["\"\\\n"]⟩]⟩] := by
    have found : environment.files.find directory = .ok (.directory
        [(Bytes.ofText "hash.json", .file (Bytes.ofText document.render))]) := by rfl
    refine FileSystem.loadAll_of_each found
      (List.mergeSort_singleton (Path.ofText "/implementors/hash.json")) ?_
    rw [List.map_singleton, fragment]
    rfl
  have applied : ∀ fragment, ((LoadPlan.make 1 .discovered none).apply [fragment] .empty).2 =
      (Catalog.empty.submitAll fragment.interface fragment.contributions).activateAll.2 := fun _ => rfl
  have built : Catalog.build environment.files (.ofText "/") .discovered none = .ok catalog :=
    (Catalog.build_of_loadAll loaded .discovered none).trans (congrArg Except.ok (applied _))
  have requested : request environment ⟨some (.ofText "/"), none, none, false⟩ =
      .ok ⟨.discovered, none, .ofText "/"⟩ := by rfl
  have named : Interface.parse "core::hash::Hash" = .ok ⟨"core::hash::Hash"⟩ := by rfl
  have seen : catalog.visible ⟨"core::hash::Hash"⟩ =
      .registerAll .empty [⟨"alloc", ["impl Hash", ""]⟩, ⟨"serde", ["\"\\\n"]⟩] := by rfl
  obtain ⟨lookups, dump, library⟩ := output_shows_view requested built
  refine ⟨?_, ?_, ?_, ?_⟩
  · have shown := (lookups (ask ["lookup", "core::hash::Hash", "--exclude=std, alloc", "--json"])
      _ _ none (some "std, alloc") named).1 (by rfl)
    have kept : selected (.registerAll .empty [⟨"alloc", ["impl Hash", ""]⟩, ⟨"serde", ["\"\\\n"]⟩])
        none (some "std, alloc") = ["serde"] := by decide
    rw [seen, kept] at shown
    exact shown
  · have shown := (lookups (ask ["lookup", "--library=alloc", "core::hash::Hash"])
      _ _ (some "alloc") none named).2 (by rfl)
    have kept : selected (.registerAll .empty [⟨"alloc", ["impl Hash", ""]⟩, ⟨"serde", ["\"\\\n"]⟩])
        (some "alloc") none = ["alloc"] := by decide
    have printed : String.join ((["alloc"].flatMap (Registry.lookup (.registerAll .empty
        [⟨"alloc", ["impl Hash", ""]⟩, ⟨"serde", ["\"\\\n"]⟩]))).map (· ++ "\n")) =
          "impl Hash\n\n" := by decide
    rw [seen, kept, printed] at shown
    exact shown
  · exact dump (ask ["dump"]) (by rfl)
  · exact library (ask ["library", "alloc", "--json"]) "alloc" (by rfl)

end CommandLine
end TraitCatalog
