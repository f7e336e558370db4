import SchemaSets.Command.Export
import SchemaSets.Proofs.Compiled
import SchemaSets.Proofs.Denotation
import SchemaSets.Proofs.RoundTrip
import SchemaSets.Proofs.Tasks

/-!
# Documents in files

The command that exports a set into a directory writes one file after another, each under
the name of its entry with a suffix.  The name is taken as it is.  If it has no slash in
it, the file is right in the directory, and so every entry of such a set gets a file of
its own there and nothing else comes of it (`export_fills_directory`).

A slash makes a name lead further.  A name that leads up puts its file outside of the
directory (`export_leaves_directory`).  A name that leads down needs a directory inside,
and nothing makes one, so the command ends there at the latest (`export_fails_of_deep`).

## Main results

* `writeDocuments_ok` — documents are written to places of their own, and nothing else is.
* `writeDocuments_error` — writing ends at a name that leads down.
* `export_fills_directory` — one file for each entry, where no name has a slash.
-/

namespace SchemaSets

open FileTree

namespace Command

namespace Export

variable {tree ready : FileTree} {surroundings : Surroundings} {words : List String}
  {asked : Option String} {file directory text : String} {settings : Settings} {set : SchemaSet}

/-- What is told of documents that were written. -/
def told (count : Nat) (directory : String) : Outcome where
  code := 0
  output := "✅ Exported " ++ toString count ++ " schema(s) to " ++ directory ++ "\n"

/-- The command comes to what writing the documents comes to, once the directory is made. -/
theorem run_eq (hwords : Request.ofWords? words = some (asked, .documents file (some directory)))
    (hsettings : ((Settings.load surroundings asked : StateM FileTree _) tree).1 = .ok settings)
    (htext : tree.readText file = .ok text) (hset : SchemaSet.ofText text = .ok set)
    (hmade : (Files.makeDirectories directory : StateM FileTree _) tree = (.ok (), ready)) :
    (run surroundings words : StateM FileTree _) tree =
      match onTree (writeDocuments settings.exporter.outputFormat directory
        (exportSet settings set).documents) ready with
      | (.ok (), final) => (told (exportSet settings set).size directory, final)
      | (.error reason, final) => (failed failureCode reason, final) := by
  have hload : onTree (loadSettings surroundings asked) tree = (.ok settings, tree) := by
    have hsame : (Settings.load surroundings asked : StateM FileTree _) tree =
        (.ok settings, tree) :=
      Prod.ext hsettings (Settings.leads_load surroundings asked tree).symm
    exact onTree_orFail _ hsame
  have hread : onTree (readSet file) tree = (.ok set, tree) := by
    have hfile : onTree (readFile file) tree = (.ok text, tree) :=
      onTree_orFail _ (congrArg (·, tree) htext)
    rw [readSet, onTree_bind_of_ok hfile, hset]
    rfl
  have hperform : onTree (perform settings (.documents file (some directory))) tree =
      match onTree (writeDocuments settings.exporter.outputFormat directory
        (exportSet settings set).documents) ready with
      | (.ok (), final) => (.ok (told (exportSet settings set).size directory), final)
      | (.error reason, final) => (.error reason, final) := by
    rw [perform, onTree_bind_of_ok hread]
    show onTree (liftM _ >>= fun result => orFail FileError.text result >>= _) tree = _
    rw [onTree_ask_ok FileError.text hmade]
    cases hwritten : onTree (writeDocuments settings.exporter.outputFormat directory
        (exportSet settings set).documents) ready with
    | mk result final =>
        cases result with
        | ok =>
            rw [onTree_bind_of_ok hwritten]
            rfl
        | error reason => rw [onTree_bind_of_error hwritten]
  have htask : onTree (loadSettings surroundings asked >>= fun settings =>
      perform settings (.documents file (some directory))) tree =
      onTree (perform settings (.documents file (some directory))) tree := onTree_bind_of_ok hload
  rw [run, hwords]
  simp only [bind_apply]
  rw [onTree, hperform] at htask
  rw [htask]
  split <;> rfl

/-! ## Files of documents -/

/-- The place of the document of an entry, in a directory at a place. -/
def documentPlace (place : List String) (name : String) : List String :=
  place ++ [name ++ ".schema.json"]

/-- A name that is one part of a file's name. -/
structure Plain (tree : FileTree) (name : String) : Prop where
  slash : '/' ∉ name.toList
  nul : '\x00' ∉ name.toList
  admits : tree.admits (name ++ ".schema.json")

variable {place other : List String} {format : OutputFormat} {documents : List (String × Json)}
  {name : String}

/-- The name of a file of a document is longer than the parts that lead elsewhere. -/
theorem suffixed_ne {name part : String} (h : part.length < ".schema.json".length) :
    name ++ ".schema.json" ≠ part := by
  rintro rfl
  rw [String.length_append] at h
  exact absurd h (Nat.not_lt.2 (Nat.le_add_left ..))

/-- The file of a plain name is in the directory. -/
theorem locate_documentFile (hdirectory : tree.locate directory = .ok place)
    (hplace : tree.find? place = some .directory) (hname : Plain tree name) :
    tree.locate (documentFile directory name) = .ok (documentPlace place name) := by
  have hslash : '/' ∉ (name ++ ".schema.json").toList := by
    simpa using hname.slash
  rw [documentFile, locate_join hdirectory (Files.isAbsolute_of_notMem hslash)
    (by simpa using hname.nul), Files.pieces_of_notMem hslash,
    walk_singleton hplace _ hname.admits]
  · rfl
  · exact ⟨suffixed_ne (by decide), suffixed_ne (by decide), suffixed_ne (by decide)⟩

/-- Documents whose files have places of their own are written there, and nothing else
is. -/
theorem writeDocuments_ok (format : OutputFormat) {placeOf : String → List String}
    (hplaces : ∀ name ∈ Keyed.keys documents,
      tree.locate (documentFile directory name) = .ok (placeOf name) ∧
        tree.find? (placeOf name) ≠ some .directory)
    (honce : ((Keyed.keys documents).map placeOf).Nodup) :
    ∃ final, onTree (writeDocuments format directory documents) tree = (.ok (), final) ∧
      (∀ name document, (name, document) ∈ documents →
        final.find? (placeOf name) = some (.file (format.render document))) ∧
      ∀ other, (∀ name ∈ Keyed.keys documents, other ≠ placeOf name) →
        final.find? other = tree.find? other := by
  induction documents generalizing tree with
  | nil => exact ⟨tree, rfl, nofun, fun other _ => rfl⟩
  | cons first rest ih =>
      obtain ⟨name, document⟩ := first
      obtain ⟨⟨hlocate, hfree⟩, hrest⟩ := List.forall_mem_cons.1 hplaces
      obtain ⟨hnew, honce⟩ := List.nodup_cons.1 honce
      have hwrite : (Files.writeText (documentFile directory name) (format.render document) :
          StateM FileTree _) tree =
          (.ok (), tree.set (placeOf name) (.file (format.render document))) := by
        rw [writeText_apply, writeText_eq_ok_iff.2 ⟨_, hlocate, hfree, rfl⟩]
      obtain ⟨final, hwritten, hdocuments, hothers⟩ := ih (fun other hother =>
        ⟨(keeps_set hfree).locate (hrest other hother).1,
          mt (find?_set_file_eq_directory_iff hfree).1 (hrest other hother).2⟩) honce
      refine ⟨final, ?_, fun other d hmem => ?_, fun other hother => ?_⟩
      · rw [writeDocuments, onTree_ask_ok _ hwrite, hwritten]
      · rcases List.mem_cons.1 hmem with heq | hlater
        · cases heq
          rw [hothers, find?_set_self hfree]
          exact fun later hlater heq => hnew (heq ▸ List.mem_map_of_mem hlater)
        · exact hdocuments other d hlater
      · obtain ⟨hne, hlater⟩ := List.forall_mem_cons.1 hother
        rw [hothers other hlater, find?_set_of_ne hne]

/-- A name that leads into a directory inside: a part that names something, a slash, and
more. -/
def Deep (name : String) : Prop :=
  ∃ first rest : String, name = first ++ "/" ++ rest ∧ '/' ∉ first.toList ∧
    first ≠ "" ∧ first ≠ "." ∧ first ≠ ".."

/-- There is no directory in a directory. -/
def NoneInside (tree : FileTree) (place : List String) : Prop :=
  ∀ part, part ≠ ".." → part ≠ "/" → tree.find? (place ++ [part]) ≠ some .directory

/-- A deep name leads nowhere where there is no directory inside. -/
theorem locate_documentFile_of_deep (hdirectory : tree.locate directory = .ok place)
    (hinside : NoneInside tree place) (hname : Deep name) :
    ∃ refusal, tree.locate (documentFile directory name) = .error refusal := by
  obtain ⟨first, rest, rfl, hslash, hne, hpoint, hpoints⟩ := hname
  cases hlocate : tree.locate (documentFile directory (first ++ "/" ++ rest)) with
  | error refusal => exact ⟨refusal, rfl⟩
  | ok there =>
      have hassoc : first ++ "/" ++ rest ++ ".schema.json" =
          first ++ "/" ++ (rest ++ ".schema.json") := String.append_assoc
      have habsolute : Files.isAbsolute (first ++ "/" ++ (rest ++ ".schema.json")) = false := by
        rw [String.append_assoc, Files.isAbsolute_append hne, Files.isAbsolute_of_notMem hslash]
      have hnul : '\x00' ∉ (first ++ "/" ++ (rest ++ ".schema.json")).toList := by
        obtain ⟨base, hjoin, -⟩ := Files.join_eq (locate_eq_ok_iff.1 hdirectory).2.1 habsolute
        have hclean := (locate_eq_ok_iff.1 hlocate).1
        rw [documentFile, hassoc, hjoin, String.toList_append] at hclean
        exact fun hmem => hclean (List.mem_append_right _ hmem)
      rw [documentFile, hassoc, locate_join hdirectory habsolute hnul, Files.pieces_append_slash,
        walk_append, Files.pieces_of_notMem hslash] at hlocate
      obtain ⟨inner, hfirst, hmore⟩ := bind_eq_ok_iff.1 hlocate
      have hinner := eq_of_walk_singleton ⟨hne, hpoint, hpoints⟩ hfirst
      have hslashed : first ≠ "/" := by
        rintro rfl
        simp at hslash
      exact absurd (find?_of_walk (Files.pieces_ne_nil _) hmore)
        (hinner ▸ hinside first hpoints hslashed)

/-- Where there is no directory inside, writing comes to an end at a deep name at the
latest. -/
theorem writeDocuments_error (format : OutputFormat)
    (hdirectory : tree.locate directory = .ok place) (hinside : NoneInside tree place)
    (hname : name ∈ Keyed.keys documents) (hdeep : Deep name) :
    ∃ reason final,
      onTree (writeDocuments format directory documents) tree = (.error reason, final) := by
  induction documents generalizing tree with
  | nil => cases hname
  | cons first rest ih =>
      obtain ⟨other, document⟩ := first
      have hstep := writeText_apply (documentFile directory other) (format.render document) tree
      cases hwrite : tree.writeText (documentFile directory other) (format.render document) with
      | error refusal =>
          rw [hwrite] at hstep
          exact ⟨_, tree, onTree_ask_error _ hstep _⟩
      | ok tree' =>
          rw [hwrite] at hstep
          obtain ⟨there, hlocate, hfree, rfl⟩ := writeText_eq_ok_iff.1 hwrite
          have hlater : name ∈ Keyed.keys rest := by
            rcases List.mem_cons.1 hname with rfl | hlater
            · obtain ⟨refusal, hrefused⟩ := locate_documentFile_of_deep hdirectory hinside hdeep
              rw [hrefused] at hlocate
              cases hlocate
            · exact hlater
          obtain ⟨reason, final, hended⟩ := ih ((keeps_set hfree).locate hdirectory)
            (fun part hpoints hslash => mt (find?_set_file_eq_directory_iff hfree).1
              (hinside part hpoints hslash)) hlater
          exact ⟨reason, final, by rw [writeDocuments, onTree_ask_ok _ hstep, hended]⟩

/-! ## Sets -/

/-- A directory that is asked for has a name. -/
theorem ne_empty_of_ofWords?
    (h : Request.ofWords? words = some (asked, .documents file (some directory))) :
    directory ≠ "" := by
  rintro rfl
  obtain ⟨⟨leading, rest⟩, -, h⟩ := Option.bind_eq_some_iff.1 h
  dsimp only at h
  split at h
  · obtain ⟨arguments, -, h⟩ := Option.bind_eq_some_iff.1 h
    split at h
    · split_ifs at h with hempty
      · cases h
      · obtain ⟨-, hsame⟩ := Request.documents.inj (congrArg Prod.snd (Option.some.inj h))
        simp [hsame] at hempty
    · cases h
  · obtain ⟨arguments, -, h⟩ := Option.bind_eq_some_iff.1 h
    split at h
    · split_ifs at h <;> cases h
    · cases h
  · cases h

/-- A set that is read has each name once. -/
theorem nodup_names_of_ofText (h : SchemaSet.ofText text = .ok set) : set.names.Nodup := by
  rw [SchemaSet.ofText] at h
  split at h
  · rename_i document hparse
    have hordered := Json.ordered_of_parse hparse
    cases document with
    | object members =>
        rw [← ((SchemaSet.ofJson_eq_ok_iff hordered.2).1 h).1]
        exact Keyed.nodup_keys hordered.1
    | _ => cases h
  · cases h

/-- There is one document for each entry. -/
theorem keys_documents_exportSet : Keyed.keys (exportSet settings set).documents = set.names := by
  have hcompile : (set.compile settings.compiler (.ofSet 0)).names = set.names :=
    SchemaSet.names_compile
  rw [← hcompile]
  exact List.map_map

/-! ## Directories of documents -/

/-- A place is somewhere inside another. -/
def Inside (place other : List String) : Prop :=
  ∃ part rest, other = place ++ part :: rest ∧ part ≠ ".." ∧ part ≠ "/"

/-- A directory is there when it has been made, and nothing is in it. -/
structure Fresh (tree : FileTree) (directory : String) (ready : FileTree) : Prop where
  made : (Files.makeDirectories directory : StateM FileTree _) tree = (.ok (), ready)
  empty : ∀ place other, ready.locate directory = .ok place → Inside place other →
    ready.find? other = none

/-- There is one file for each document inside a place and nothing else, and outside of it
nothing has changed. -/
structure Stores (ready final : FileTree) (place : List String) (format : OutputFormat)
    (documents : List (String × Json)) : Prop where
  within : ∀ other, Inside place other → ∀ node, final.find? other = some node ↔
    ∃ name document, (name, document) ∈ documents ∧ other = documentPlace place name ∧
      node = .file (format.render document)
  without : ∀ other, ¬Inside place other → final.find? other = ready.find? other

theorem inside_documentPlace (place : List String) (name : String) :
    Inside place (documentPlace place name) := by
  refine ⟨_, [], rfl, ?_, ?_⟩
  · exact suffixed_ne (by decide)
  · exact suffixed_ne (by decide)

theorem documentPlace_injective (place : List String) :
    Function.Injective (documentPlace place) := by
  intro first second h
  simpa [documentPlace] using h

/-- A fresh directory is somewhere, and nothing is inside. -/
theorem Fresh.exists_place (h : Fresh tree directory ready) (hne : directory ≠ "") :
    ∃ place, ready.locate directory = .ok place ∧ ready.find? place = some .directory ∧
      ∀ other, Inside place other → ready.find? other = none := by
  obtain ⟨place, hlocate, hplace⟩ :=
    at?_eq_some_iff.1 (isDirectory_iff.1 (provides_makeDirectories hne tree ready h.made))
  exact ⟨place, hlocate, hplace, fun other => h.empty place other hlocate⟩

/-- A directory is made where nothing was. -/
theorem Fresh.extends (h : Fresh tree directory ready) : tree.Extends ready := by
  have hleads := leads_makeDirectories directory tree
  rwa [h.made] at hleads

/-- Documents of plain names are written into a directory, where nothing is inside. -/
theorem writeDocuments_stores (format : OutputFormat)
    (hdirectory : tree.locate directory = .ok place) (hplace : tree.find? place = some .directory)
    (hempty : ∀ other, Inside place other → tree.find? other = none)
    (hplain : ∀ name ∈ Keyed.keys documents, Plain tree name)
    (honce : (Keyed.keys documents).Nodup) :
    ∃ final, onTree (writeDocuments format directory documents) tree = (.ok (), final) ∧
      Stores tree final place format documents := by
  have hplaces : ∀ name ∈ Keyed.keys documents,
      tree.locate (documentFile directory name) = .ok (documentPlace place name) ∧
        tree.find? (documentPlace place name) ≠ some .directory := by
    intro name hname
    refine ⟨locate_documentFile hdirectory hplace (hplain name hname), ?_⟩
    simp [hempty _ (inside_documentPlace place name)]
  obtain ⟨final, hwritten, hdocuments, hothers⟩ :=
    writeDocuments_ok format hplaces (honce.map (documentPlace_injective place))
  refine ⟨final, hwritten, fun other hinside node => ⟨fun hnode => ?_, ?_⟩,
    fun other houtside => ?_⟩
  · by_cases hwhose : ∃ name ∈ Keyed.keys documents, other = documentPlace place name
    · obtain ⟨name, hname, rfl⟩ := hwhose
      obtain ⟨⟨_, document⟩, hmem, rfl⟩ := List.mem_map.1 hname
      rw [hdocuments _ _ hmem] at hnode
      exact ⟨_, document, hmem, rfl, (Option.some.inj hnode).symm⟩
    · rw [hothers other fun name hname heq => hwhose ⟨name, hname, heq⟩,
        hempty other hinside] at hnode
      cases hnode
  · rintro ⟨name, document, hmem, rfl, rfl⟩
    exact hdocuments name document hmem
  · refine hothers other fun name _ heq => houtside ?_
    rw [heq]
    exact inside_documentPlace place name

end Export

open Export

/-- Where no name has a slash in it, the command that exports a set into a fresh directory
succeeds.  Then there is one file right in the directory for each entry, different entries
have different files, each file is the document of its entry as it is rendered, and nothing
else has changed but for the directories around that were missing. -/
theorem export_fills_directory {tree ready : FileTree} {surroundings : Surroundings}
    {words : List String} {asked : Option String} {file directory text : String}
    {settings : Settings} {set : SchemaSet}
    (hwords : Request.ofWords? words = some (asked, .documents file (some directory)))
    (hsettings : ((Settings.load surroundings asked : StateM FileTree _) tree).1 = .ok settings)
    (htext : tree.readText file = .ok text) (hset : SchemaSet.ofText text = .ok set)
    (hfresh : Fresh tree directory ready) (hnames : ∀ name ∈ set.names, Plain tree name) :
    ∃ place final,
      (run surroundings words : StateM FileTree _) tree = (told set.size directory, final) ∧
      ready.locate directory = .ok place ∧ ready.find? place = some .directory ∧
      Keyed.keys (exportSet settings set).documents = set.names ∧ set.names.Nodup ∧
      Function.Injective (documentPlace place) ∧
      Stores ready final place settings.exporter.outputFormat (exportSet settings set).documents ∧
      tree.Extends ready := by
  obtain ⟨place, hlocate, hplace, hempty⟩ := hfresh.exists_place (ne_empty_of_ofWords? hwords)
  have hkeys : Keyed.keys (exportSet settings set).documents = set.names :=
    keys_documents_exportSet
  have honce : set.names.Nodup := nodup_names_of_ofText hset
  have hplain : ∀ name ∈ Keyed.keys (exportSet settings set).documents, Plain ready name := by
    intro name hname
    obtain ⟨hslash, hnul, hadmits⟩ := hnames name (hkeys ▸ hname)
    exact ⟨hslash, hnul, by rw [hfresh.extends.keeps.admits, hadmits]⟩
  obtain ⟨final, hwritten, hstores⟩ := writeDocuments_stores settings.exporter.outputFormat hlocate
    hplace hempty hplain (hkeys ▸ honce)
  have hsize : (exportSet settings set).size = set.size := by
    have hlength := congrArg List.length hkeys
    rwa [Keyed.keys, SchemaSet.names, Keyed.keys, List.length_map, List.length_map] at hlength
  refine ⟨place, final, ?_, hlocate, hplace, hkeys, honce, documentPlace_injective place, hstores,
    hfresh.extends⟩
  rw [run_eq hwords hsettings htext hset hfresh.made, hwritten, ← hsize]

/-! ### A directory with a set in it -/

/-- A directory with a set in a file and nothing else; names may be of any length. -/
def setOnly (set : SchemaSet) : FileTree where
  nodes := [(["set.json"], .file set.toJson.compact)]
  partLimit := none

/-- The same directory with another one beside the set. -/
def besideSet (set : SchemaSet) : FileTree where
  nodes := [(["out"], .directory), (["set.json"], .file set.toJson.compact)]
  partLimit := none

/-- The words that ask for the documents of the set in the other directory. -/
def wordsForOut : List String := ["json-schema", "set.json", "--out", "out"]

theorem ofWords?_wordsForOut :
    Request.ofWords? wordsForOut = some (none, .documents "set.json" (some "out")) := by rfl

theorem load_setOnly (set : SchemaSet) :
    ((Settings.load {} none : StateM FileTree _) (setOnly set)).1 = .ok {} := by rfl

theorem readText_setOnly (set : SchemaSet) :
    (setOnly set).readText "set.json" = .ok set.toJson.compact := by rfl

theorem fresh_setOnly (set : SchemaSet) : Fresh (setOnly set) "out" (besideSet set) where
  made := by rfl
  empty place other hplace hinside := by
    have hout : place = ["out"] := by
      cases hplace
      rfl
    obtain ⟨part, rest, rfl, -, -⟩ := hinside
    simp [hout, FileTree.find?, besideSet]

/-- An entry without a name, and one that is named by two points. -/
def oddNames : SchemaSet := ⟨[("", .simple .any false), ("..", .reference "" false)]⟩

/-- Both get a file of their own. -/
theorem export_fills_directory_oddNames :
    SchemaSet.ofText oddNames.toJson.compact = .ok oddNames ∧
    (∀ name ∈ oddNames.names, Plain (setOnly oddNames) name) ∧
    Fresh (setOnly oddNames) "out" (besideSet oddNames) ∧ ∃ place final,
      (run {} wordsForOut : StateM FileTree _) (setOnly oddNames) = (told 2 "out", final) ∧
      (besideSet oddNames).locate "out" = .ok place ∧
      (besideSet oddNames).find? place = some .directory ∧
      Keyed.keys (exportSet {} oddNames).documents = oddNames.names ∧ oddNames.names.Nodup ∧
      Function.Injective (documentPlace place) ∧
      Stores (besideSet oddNames) final place .pretty (exportSet {} oddNames).documents ∧
      (setOnly oddNames).Extends (besideSet oddNames) := by
  have htext : SchemaSet.ofText oddNames.toJson.compact = .ok oddNames :=
    (SchemaSet.ofText_compact_iff (by decide)).1.2 (by decide)
  have hplain : ∀ name ∈ oddNames.names, Plain (setOnly oddNames) name :=
    List.forall_mem_cons.2 ⟨⟨by decide, by decide, rfl⟩,
      List.forall_mem_singleton.2 ⟨by decide, by decide, rfl⟩⟩
  have hfills := export_fills_directory ofWords?_wordsForOut (load_setOnly oddNames)
    (readText_setOnly oddNames) htext (fresh_setOnly oddNames) hplain
  exact ⟨htext, hplain, fresh_setOnly oddNames, hfills⟩

/-- An entry whose name leads up. -/
def climbing : SchemaSet := ⟨[("../x", .simple .string false)]⟩

/-- The command succeeds, with no file in the directory and one beside it. -/
theorem export_leaves_directory :
    SchemaSet.ofText climbing.toJson.compact = .ok climbing ∧
    Fresh (setOnly climbing) "out" (besideSet climbing) ∧ ∃ document final,
      Keyed.find? "../x" (exportSet {} climbing).documents = some document ∧
      (run {} wordsForOut : StateM FileTree _) (setOnly climbing) = (told 1 "out", final) ∧
      (besideSet climbing).locate "out" = .ok ["out"] ∧
      (∀ other, Inside ["out"] other → final.find? other = none) ∧
      (besideSet climbing).find? ["x.schema.json"] = none ∧
      final.find? ["x.schema.json"] = some (.file document.pretty) := by
  have htext : SchemaSet.ofText climbing.toJson.compact = .ok climbing :=
    (SchemaSet.ofText_compact_iff (by decide)).1.2 (by decide)
  have hfresh := fresh_setOnly climbing
  have hkeys : Keyed.keys (exportSet {} climbing).documents = ["../x"] := keys_documents_exportSet
  have hfile : (besideSet climbing).locate (documentFile "out" "../x") = .ok ["x.schema.json"] := by
    rfl
  have hnothing : (besideSet climbing).find? ["x.schema.json"] = none := by rfl
  obtain ⟨⟨name, document⟩, hdocuments, hname⟩ := List.map_eq_singleton_iff.1 hkeys
  subst hname
  have hplaces : ∀ name ∈ Keyed.keys (exportSet {} climbing).documents,
      (besideSet climbing).locate (documentFile "out" name) = .ok ["x.schema.json"] ∧
        (besideSet climbing).find? ["x.schema.json"] ≠ some .directory := by
    rw [hkeys]
    exact List.forall_mem_singleton.2 ⟨hfile, by simp [hnothing]⟩
  obtain ⟨final, hwritten, hfiles, hothers⟩ := writeDocuments_ok
    ({} : Settings).exporter.outputFormat hplaces (by simp [hkeys])
  refine ⟨htext, hfresh, document, final, ?_, ?_, rfl, ?_, hnothing, ?_⟩
  · rw [hdocuments]
    rfl
  · rw [run_eq ofWords?_wordsForOut (load_setOnly climbing) (readText_setOnly climbing) htext
      hfresh.made, hwritten, ExportedSet.size, hdocuments]
    rfl
  · intro other hinside
    rw [hothers other ?_]
    · exact hfresh.empty ["out"] other rfl hinside
    · obtain ⟨part, rest, rfl, -⟩ := hinside
      simp
  · refine hfiles "../x" document ?_
    rw [hdocuments]
    exact List.mem_cons_self

/-- Where a name leads into a directory inside, the command that exports a set into a fresh
directory fails. -/
theorem export_fails_of_deep {tree ready : FileTree} {surroundings : Surroundings}
    {words : List String} {asked : Option String} {file directory text name : String}
    {settings : Settings} {set : SchemaSet}
    (hwords : Request.ofWords? words = some (asked, .documents file (some directory)))
    (hsettings : ((Settings.load surroundings asked : StateM FileTree _) tree).1 = .ok settings)
    (htext : tree.readText file = .ok text) (hset : SchemaSet.ofText text = .ok set)
    (hfresh : Fresh tree directory ready) (hname : name ∈ set.names) (hdeep : Deep name) :
    ∃ reason final,
      (run surroundings words : StateM FileTree _) tree = (failed failureCode reason, final) := by
  obtain ⟨place, hlocate, -, hempty⟩ := hfresh.exists_place (ne_empty_of_ofWords? hwords)
  have hinside : NoneInside ready place := by
    intro part hpoints hslash
    simp [hempty _ ⟨part, [], rfl, hpoints, hslash⟩]
  obtain ⟨reason, final, hended⟩ := writeDocuments_error settings.exporter.outputFormat
    hlocate hinside (keys_documents_exportSet ▸ hname) hdeep
  exact ⟨reason, final, by rw [run_eq hwords hsettings htext hset hfresh.made, hended]⟩

/-- An entry whose name leads into a directory. -/
def nested : SchemaSet := ⟨[("a/b", .simple .string false)]⟩

/-- The command fails for the sake of this name. -/
theorem export_fails_of_deep_nested :
    SchemaSet.ofText nested.toJson.compact = .ok nested ∧
    Fresh (setOnly nested) "out" (besideSet nested) ∧ ∃ reason final,
      (run {} wordsForOut : StateM FileTree _) (setOnly nested) = (failed 1 reason, final) := by
  have htext : SchemaSet.ofText nested.toJson.compact = .ok nested :=
    (SchemaSet.ofText_compact_iff (by decide)).1.2 (by decide)
  have hdeep : Deep "a/b" := ⟨"a", "b", rfl, by decide, by decide, by decide, by decide⟩
  exact ⟨htext, fresh_setOnly nested,
    export_fails_of_deep ofWords?_wordsForOut (load_setOnly nested) (readText_setOnly nested) htext
      (fresh_setOnly nested) List.mem_cons_self hdeep⟩

end Command

end SchemaSets
