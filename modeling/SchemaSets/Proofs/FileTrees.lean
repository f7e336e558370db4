import Mathlib.Data.List.Basic
import Mathlib.Order.Defs.Unbundled
import SchemaSets.Error
import SchemaSets.Files.Tree

/-!
# Places in trees of files

What a name leads to in a tree depends on the directories of the tree only, and on
nothing but those on the way.  So names lead where they led before as long as
directories stay (`locate_of_keeps`), and the way to something in a directory is the
way to the directory and on from there (`locate_join`).

Making directories adds directories where nothing was, and changes nothing else
(`leads_makeDirectories`).  When it succeeds the name leads to a directory
(`exists_locate_of_makeDirectories`).
-/

namespace SchemaSets

/-! ## Names -/

namespace Files

theorem pieces_append_slash (a b : String) : pieces (a ++ "/" ++ b) = pieces a ++ pieces b := by
  have hslash : (a ++ "/" ++ b).toList = a.toList ++ '/' :: b.toList := by simp
  rw [pieces, hslash, List.splitOn_append_cons_self, List.map_append, pieces, pieces]

/-- A slash at the end is followed by an empty piece. -/
theorem pieces_slash (a : String) : pieces (a ++ "/") = pieces a ++ [""] := by
  rw [← String.append_empty (s := a ++ "/"), pieces_append_slash]
  rfl

theorem pieces_ne_nil (a : String) : pieces a ≠ [] :=
  mt List.map_eq_nil_iff.1 (List.splitOn_ne_nil _ _)

/-- A name without a slash is one piece. -/
theorem pieces_of_notMem {part : String} (h : '/' ∉ part.toList) : pieces part = [part] := by
  rw [pieces, List.splitOn_eq_singleton h, List.map_singleton, String.ofList_toList]

/-- A name without a slash does not start at the root. -/
theorem isAbsolute_of_notMem {part : String} (h : '/' ∉ part.toList) : isAbsolute part = false :=
  decide_eq_false fun hhead => h (List.mem_of_mem_head? hhead)

/-- Whether a name starts at the root is told by its beginning. -/
theorem isAbsolute_append {a : String} (ha : a ≠ "") (b : String) :
    isAbsolute (a ++ b) = isAbsolute a := by
  rw [isAbsolute, isAbsolute, String.toList_append,
    List.head?_append_of_ne_nil _ (mt String.toList_eq_nil_iff.1 ha)]

/-- The name of something in a directory is put together with one slash, which may be the
last of the directory's own name. -/
theorem join_eq {directory name : String} (hdirectory : directory ≠ "")
    (hname : isAbsolute name = false) :
    ∃ base, join directory name = base ++ "/" ++ name ∧
      (directory = base ∨ directory = base ++ "/") := by
  have hempty : directory.isEmpty = false := by simpa using hdirectory
  rw [join, hname, hempty, Bool.or_self, if_neg Bool.false_ne_true]
  split
  · rename_i hlast
    obtain ⟨cs, hcs⟩ := List.getLast?_eq_some_iff.1 hlast
    have hbase : directory = String.ofList cs ++ "/" := by
      rw [← String.toList_inj, hcs]
      simp
    exact ⟨String.ofList cs, by rw [← hbase], .inr hbase⟩
  · exact ⟨directory, rfl, .inl rfl⟩

end Files

namespace FileTree

variable {tree tree' : FileTree} {place other : List String} {node : FileNode}

/-! ## Places -/

/-- Only the place at which something is put changes. -/
theorem find?_set_of_ne (h : other ≠ place) :
    (tree.set place node).find? other = tree.find? other := by
  rw [find?, find?, set]
  split
  · rfl
  · rw [List.find?_cons_of_neg (by simpa using h.symm), List.find?_filter]
    congr 2
    funext entry
    by_cases hentry : entry.1 = other <;> simp [hentry, h]

/-- What is put at a place is there, unless a directory is there that cannot be changed. -/
theorem find?_set_self (h : tree.find? place ≠ some .directory) :
    (tree.set place node).find? place = some node := by
  rw [find?] at h ⊢
  split
  · rename_i hknown
    exact absurd (if_pos hknown) h
  · simp [set]

/-- Going along parts is going along the first and on from there. -/
theorem walk_append (tree : FileTree) (place parts more : List String) :
    tree.walk place (parts ++ more) = tree.walk place parts >>= (tree.walk · more) := by
  induction parts generalizing place with
  | nil => rfl
  | cons part rest ih =>
      rw [List.cons_append, walk, walk]
      split
      · rfl
      · rfl
      · split_ifs
        · exact ih place
        · exact ih (above place)
        · exact ih (place ++ [part])
        · rfl

/-- Any part is asked of a directory. -/
theorem find?_of_walk {parts : List String} (hparts : parts ≠ [])
    (h : tree.walk place parts = .ok other) : tree.find? place = some .directory := by
  cases parts with
  | nil => exact absurd rfl hparts
  | cons part rest =>
      rw [walk] at h
      split at h
      · cases h
      · cases h
      · assumption

/-- An empty part leads nowhere, and it is asked of a directory. -/
theorem walk_empty_eq_ok_iff :
    tree.walk place [""] = .ok other ↔ tree.find? place = some .directory ∧ other = place := by
  rw [walk]
  split
  · simp [*]
  · simp [*]
  · rename_i hplace
    rw [if_pos (.inl rfl), walk, hplace]
    simp [eq_comm]

/-- A part that names something leads nowhere else. -/
theorem eq_of_walk_singleton {part : String} (hpart : part ≠ "" ∧ part ≠ "." ∧ part ≠ "..")
    (h : tree.walk place [part] = .ok other) : other = place ++ [part] := by
  rw [walk, find?_of_walk (List.cons_ne_nil _ _) h] at h
  simp only [hpart, or_self, if_false] at h
  split at h
  · exact (Except.ok.inj h).symm
  · cases h

/-- A part that names something leads to it. -/
theorem walk_singleton {part : String} (hplace : tree.find? place = some .directory)
    (hpart : part ≠ "" ∧ part ≠ "." ∧ part ≠ "..") (hadmits : tree.admits part) :
    tree.walk place [part] = .ok (place ++ [part]) := by
  rw [walk, hplace]
  simp [hpart, hadmits, walk]

/-! ## Names in trees -/

/-- Where the way of a name starts. -/
def start (name : String) : List String := if Files.isAbsolute name then ["/"] else []

/-- The pieces of a name that leads somewhere lead there. -/
theorem locate_eq_ok_iff {name : String} :
    tree.locate name = .ok place ↔ '\x00' ∉ name.toList ∧ name ≠ "" ∧
      tree.walk (start name) (Files.pieces name) = .ok place := by
  rw [locate]
  split_ifs with hnul hempty <;> simp_all [start]

/-- The way to something in a directory is the way to the directory and on from there. -/
theorem locate_join {directory name : String} (hdirectory : tree.locate directory = .ok place)
    (hname : Files.isAbsolute name = false) (hnul : '\x00' ∉ name.toList) :
    tree.locate (Files.join directory name) = tree.walk place (Files.pieces name) := by
  obtain ⟨hclean, hne, hwalk⟩ := locate_eq_ok_iff.1 hdirectory
  obtain ⟨base, hjoin, hbase⟩ := Files.join_eq hne hname
  have hstart : start (base ++ "/" ++ name) = start directory := by
    rw [start, start]
    rcases hbase with rfl | rfl
    · rw [String.append_assoc, Files.isAbsolute_append hne]
    · rw [Files.isAbsolute_append hne]
  have hthere : tree.walk (start directory) (Files.pieces base) = .ok place := by
    rcases hbase with rfl | rfl
    · exact hwalk
    · rw [Files.pieces_slash, walk_append] at hwalk
      obtain ⟨before, hbefore, hlast⟩ := bind_eq_ok_iff.1 hwalk
      rw [(walk_empty_eq_ok_iff.1 hlast).2, hbefore]
  have hnul : '\x00' ∉ (base ++ "/" ++ name).toList := by
    rcases hbase with rfl | rfl <;> simp_all
  rw [hjoin, locate, if_neg (by simpa using hnul), if_neg (by simp), ← start, hstart,
    Files.pieces_append_slash, walk_append, hthere]
  rfl

/-- A slash at the end of a directory's name leads nowhere. -/
theorem locate_slashes {name : String} (hname : tree.locate name = .ok place)
    (hplace : tree.find? place = some .directory) (count : Nat) :
    tree.locate (name ++ String.ofList (List.replicate count '/')) = .ok place := by
  induction count with
  | zero => simpa using hname
  | succ count ih =>
      obtain ⟨hnul, hne, hwalk⟩ := locate_eq_ok_iff.1 ih
      rw [List.replicate_succ', String.ofList_append, ← String.append_assoc]
      refine locate_eq_ok_iff.2 ⟨by simpa using hnul, by simp, ?_⟩
      rw [start, Files.isAbsolute_append hne, ← start]
      show tree.walk _ (Files.pieces (_ ++ "/")) = _
      rw [Files.pieces_slash, walk_append, hwalk]
      exact walk_empty_eq_ok_iff.2 ⟨hplace, rfl⟩

theorem at?_eq_some_iff {name : String} :
    tree.at? name = some node ↔
      ∃ place, tree.locate name = .ok place ∧ tree.find? place = some node := by
  rw [at?]
  cases tree.locate name <;> simp [Except.toOption]

theorem isDirectory_iff {name : String} :
    tree.isDirectory name = true ↔ tree.at? name = some .directory := by
  rw [isDirectory]
  split <;> simp_all

/-- A text is written where a name leads, unless that is a directory. -/
theorem writeText_eq_ok_iff {name text : String} :
    tree.writeText name text = .ok tree' ↔ ∃ place, tree.locate name = .ok place ∧
      tree.find? place ≠ some .directory ∧ tree.set place (.file text) = tree' := by
  rw [writeText, bind_eq_ok_iff]
  refine exists_congr fun place => and_congr_right fun _ => ?_
  split <;> simp_all

/-! ## Trees that change -/

/-- Directories stay, and names may be as long as before. -/
structure Keeps (tree tree' : FileTree) : Prop where
  limit : tree'.partLimit = tree.partLimit
  directories : ∀ place, tree.find? place = some .directory → tree'.find? place = some .directory

/-- Directories are added where nothing was, and nothing else changes. -/
structure Extends (tree tree' : FileTree) : Prop where
  limit : tree'.partLimit = tree.partLimit
  places : ∀ place, tree'.find? place = tree.find? place ∨
    tree.find? place = none ∧ tree'.find? place = some .directory

theorem Keeps.admits (h : tree.Keeps tree') (part : String) :
    tree'.admits part = tree.admits part := by
  rw [FileTree.admits, FileTree.admits, h.limit]

/-- Parts lead where they led before. -/
theorem Keeps.walk (h : tree.Keeps tree') {parts : List String}
    (hwalk : tree.walk place parts = .ok other) : tree'.walk place parts = .ok other := by
  induction parts generalizing place with
  | nil => exact hwalk
  | cons part rest ih =>
      rw [FileTree.walk] at hwalk ⊢
      split at hwalk
      · cases hwalk
      · cases hwalk
      · rename_i hplace
        rw [h.directories place hplace, h.admits]
        split_ifs at hwalk ⊢
        all_goals exact ih hwalk

/-- Names lead where they led before. -/
theorem Keeps.locate (h : tree.Keeps tree') {name : String} (hname : tree.locate name = .ok place) :
    tree'.locate name = .ok place := by
  rw [locate_eq_ok_iff] at hname ⊢
  exact ⟨hname.1, hname.2.1, h.walk hname.2.2⟩

/-- Something put where no directory is leaves the directories. -/
theorem keeps_set (h : tree.find? place ≠ some .directory) : tree.Keeps (tree.set place node) where
  limit := rfl
  directories other hother := by
    rw [find?_set_of_ne, hother]
    rintro rfl
    exact h hother

/-- A text makes no directory. -/
theorem find?_set_file_eq_directory_iff {text : String} (h : tree.find? place ≠ some .directory) :
    (tree.set place (.file text)).find? other = some .directory ↔
      tree.find? other = some .directory := by
  by_cases hother : other = place
  · subst hother
    simp [find?_set_self h, h]
  · rw [find?_set_of_ne hother]

theorem Extends.refl (tree : FileTree) : tree.Extends tree := ⟨rfl, fun _ => .inl rfl⟩

theorem Extends.trans {tree'' : FileTree} (h : tree.Extends tree') (h' : tree'.Extends tree'') :
    tree.Extends tree'' where
  limit := h'.limit.trans h.limit
  places place := by
    rcases h.places place with hsame | ⟨hnone, hmade⟩
    · rw [← hsame]
      exact h'.places place
    · refine .inr ⟨hnone, ?_⟩
      rcases h'.places place with hsame | ⟨hnothing, -⟩
      · rw [hsame, hmade]
      · rw [hmade] at hnothing
        cases hnothing

instance : Std.Refl Extends := ⟨Extends.refl⟩

instance : IsTrans FileTree Extends := ⟨fun _ _ _ h h' => h.trans h'⟩

theorem Extends.keeps (h : tree.Extends tree') : tree.Keeps tree' where
  limit := h.limit
  directories place hplace := by
    rcases h.places place with hsame | ⟨hnone, -⟩
    · rw [hsame, hplace]
    · rw [hplace] at hnone
      cases hnone

theorem extends_set (h : tree.find? place = none) : tree.Extends (tree.set place .directory) where
  limit := rfl
  places other := by
    by_cases hother : other = place
    · subst hother
      exact .inr ⟨h, find?_set_self (by simp [h])⟩
    · exact .inl (find?_set_of_ne hother)

/-! ## Directories that are made -/

/-- Only slashes at the end of a name are trimmed. -/
theorem exists_eq_trimSlashes_append (name : String) :
    ∃ count, name = trimSlashes name ++ String.ofList (List.replicate count '/') := by
  rw [trimSlashes]
  split
  · exact ⟨0, by simp⟩
  · have hslashes : name.toList.reverse.takeWhile (· = '/') =
        List.replicate (name.toList.reverse.takeWhile (· = '/')).length '/' :=
      List.eq_replicate_of_mem fun c hc => by simpa using List.all_eq_true.1 List.all_takeWhile c hc
    refine ⟨(name.toList.reverse.takeWhile (· = '/')).length, ?_⟩
    rw [← String.toList_inj, String.toList_append, String.toList_ofList, String.toList_ofList,
      ← List.reverse_inj, List.reverse_append, List.reverse_reverse, List.reverse_replicate,
      ← hslashes, List.takeWhile_append_dropWhile]

/-- A directory is made where nothing was, and its name leads to it. -/
theorem of_makeDirectory_eq_ok {name : String} (h : tree.makeDirectory name = .ok tree') :
    tree.Extends tree' ∧ tree'.isDirectory name = true := by
  obtain ⟨place, hplace, h⟩ := bind_eq_ok_iff.1 h
  split at h
  · cases h
  · rename_i hnone
    cases h
    have hextends := extends_set hnone
    refine ⟨hextends, isDirectory_iff.2 (at?_eq_some_iff.2 ⟨place, ?_, ?_⟩)⟩
    · obtain ⟨count, hname⟩ := exists_eq_trimSlashes_append name
      rw [hname]
      exact locate_slashes (hextends.keeps.locate hplace) (find?_set_self (by simp [hnone])) count
    · exact find?_set_self (by simp [hnone])

section Computations

variable {α β : Type}

theorem bind_apply (x : StateM FileTree α) (f : α → StateM FileTree β) (tree : FileTree) :
    (x >>= f) tree = f (x tree).1 (x tree).2 := rfl

theorem writeText_apply (name text : String) (tree : FileTree) :
    (Files.writeText name text : StateM FileTree _) tree =
      match tree.writeText name text with
      | .ok tree' => (.ok (), tree')
      | .error refusal => (.error refusal, tree) := rfl

theorem isDirectory_apply (name : String) (tree : FileTree) :
    (Files.isDirectory name : StateM FileTree Bool) tree = (tree.isDirectory name, tree) := rfl

theorem makeDirectory_apply (name : String) (tree : FileTree) :
    (Files.makeDirectory name : StateM FileTree _) tree =
      match tree.makeDirectory name with
      | .ok tree' => (.ok (), tree')
      | .error refusal => (.error refusal, tree) := rfl

end Computations

/-- A computation on files leads from trees to trees of a kind. -/
def Leads {α : Type} (R : FileTree → FileTree → Prop) (x : StateM FileTree α) : Prop :=
  ∀ tree, R tree (x tree).2

section Leads

variable {α β : Type} {R : FileTree → FileTree → Prop}

theorem leads_pure [Std.Refl R] (a : α) : Leads R (pure a : StateM FileTree α) := refl_of R

theorem Leads.bind [IsTrans FileTree R] {x : StateM FileTree α} {f : α → StateM FileTree β}
    (hx : Leads R x) (hf : ∀ a, Leads R (f a)) : Leads R (x >>= f) :=
  fun tree => trans_of R (hx tree) (hf _ _)

end Leads

theorem leads_makeDirectory (name : String) :
    Leads Extends (Files.makeDirectory name : StateM FileTree _) := by
  intro tree
  show Extends tree (update _ tree).2
  rw [update]
  split
  · rename_i hmade
    exact (of_makeDirectory_eq_ok hmade).1
  · exact .refl tree

/-- Making directories adds directories where nothing was, and changes nothing else. -/
theorem leads_makeDirectories (name : String) :
    Leads Extends (Files.makeDirectories name : StateM FileTree _) := by
  rw [Files.makeDirectories]
  generalize name.length + 1 = fuel
  induction fuel generalizing name with
  | zero => exact leads_pure _
  | succ fuel ih =>
      have hsettle : ∀ refusal : FileError, Leads Extends (do
          if ← Files.isDirectory name then pure (.ok ()) else pure (.error refusal) :
          StateM FileTree (Except FileError Unit)) := by
        intro refusal
        refine Leads.bind Extends.refl fun isThere => ?_
        cases isThere <;> exact leads_pure _
      rw [Files.makeDirectoriesWithin]
      split
      · exact leads_pure _
      · refine (leads_makeDirectory name).bind fun made => ?_
        cases made with
        | ok => exact leads_pure _
        | error refusal =>
            cases refusal with
            | notFound =>
                cases Files.parent? name with
                | none => exact leads_pure _
                | some parent =>
                    refine (ih parent).bind fun around => ?_
                    cases around with
                    | error => exact leads_pure _
                    | ok =>
                        refine (leads_makeDirectory name).bind fun made => ?_
                        cases made with
                        | ok => exact leads_pure _
                        | error refusal => exact hsettle refusal
            | _ => exact hsettle _

/-- When a computation succeeds, a name leads to a directory. -/
def Provides (name : String) (x : StateM FileTree (Except FileError Unit)) : Prop :=
  ∀ tree ready, x tree = (.ok (), ready) → ready.isDirectory name = true

section Provides

variable {α : Type} {name : String}

theorem provides_error (refusal : FileError) : Provides name (pure (.error refusal)) := by
  rintro _ _ ⟨⟩

/-- What comes last counts. -/
theorem provides_bind {x : StateM FileTree α} {f : α → StateM FileTree (Except FileError Unit)}
    (hf : ∀ a, Provides name (f a)) : Provides name (x >>= f) :=
  fun _ ready h => hf _ _ ready h

/-- A directory that cannot be made may be there. -/
theorem provides_settle (refusal : FileError) : Provides name (do
    if ← Files.isDirectory name then pure (.ok ()) else pure (.error refusal)) := by
  intro tree ready h
  cases hthere : tree.isDirectory name with
  | true =>
      rw [bind_apply, isDirectory_apply, hthere, if_pos rfl] at h
      cases h
      exact hthere
  | false =>
      rw [bind_apply, isDirectory_apply, hthere, if_neg Bool.false_ne_true] at h
      cases h

/-- A directory is made, or something else is done about it. -/
theorem provides_makeDirectory {f : Except FileError Unit → StateM FileTree (Except FileError Unit)}
    (hok : f (.ok ()) = pure (.ok ())) (herror : ∀ refusal, Provides name (f (.error refusal))) :
    Provides name (Files.makeDirectory name >>= f) := by
  intro tree ready h
  cases hmade : tree.makeDirectory name with
  | ok tree' =>
      rw [bind_apply, makeDirectory_apply, hmade, hok] at h
      cases h
      exact (of_makeDirectory_eq_ok hmade).2
  | error refusal =>
      rw [bind_apply, makeDirectory_apply, hmade] at h
      exact herror refusal tree ready h

end Provides

/-- The name of directories that were made leads to a directory. -/
theorem provides_makeDirectories {name : String} (hname : name ≠ "") :
    Provides name (Files.makeDirectories name) := by
  rw [Files.makeDirectories, Files.makeDirectoriesWithin, if_neg (by simpa using hname)]
  refine provides_makeDirectory rfl fun refusal => ?_
  cases refusal with
  | notFound =>
      cases Files.parent? name with
      | none => exact provides_error _
      | some parent =>
          refine provides_bind fun around => ?_
          cases around with
          | error refusal => exact provides_error refusal
          | ok => exact provides_makeDirectory rfl provides_settle
  | _ => exact provides_settle _

end FileTree
end SchemaSets
