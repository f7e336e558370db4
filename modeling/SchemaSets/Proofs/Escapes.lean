import SchemaSets.Proofs.Pointer

/-!
# Escapes as replacements

A token of a pointer is commonly said to be written by two replacements, one
after the other: first every tilde by `~0`, then every slash by `~1`.  It is read
by two as well, in the other order: first `~1`, then `~0`.  The second
replacement of each pair sees what the first one made, so the order matters, and
a token may hold anything to begin with, also what looks like an escape.

Both pairs come to one pass over the characters (`escapeInPasses_eq`,
`unescapeInPasses_eq`).  Hence the text of a reference tells the key and the name
that it was made from, and no other (`reference_tells_key_and_name`).
-/

namespace SchemaSets

namespace Json.Pointer

/-! ## Replacements -/

/-- A text with every occurrence of `old` replaced, from the left and without
overlap.  What is put in is not looked at again. -/
def replaceAll (old new : List Char) : List Char → List Char
  | [] => []
  | c :: rest =>
    if old.isPrefixOf (c :: rest) then new ++ replaceAll old new (rest.drop (old.length - 1))
    else c :: replaceAll old new rest
termination_by text => text.length
decreasing_by
  · rw [List.length_drop]
    exact Nat.lt_succ_of_le (Nat.sub_le ..)
  · exact Nat.lt_succ_self _

/-- A token written by two replacements. -/
def escapeInPasses (token : List Char) : List Char :=
  replaceAll ['/'] ['~', '1'] (replaceAll ['~'] ['~', '0'] token)

/-- A token read by two replacements. -/
def unescapeInPasses (written : List Char) : List Char :=
  replaceAll ['~', '0'] ['~'] (replaceAll ['~', '1'] ['/'] written)

/-- The tokens of a written pointer, parted at its slashes and read by
replacements. -/
def tokensInPasses? : List Char → Option (List String)
  | [] => some []
  | '/' :: rest =>
    some ((rest.splitOn '/').map fun part => String.ofList (unescapeInPasses part))
  | _ => none

@[simp] theorem replaceAll_nil (old new : List Char) : replaceAll old new [] = [] := by
  rw [replaceAll]

/-- A single character is replaced wherever it stands. -/
theorem replaceAll_singleton (old : Char) (new text : List Char) :
    replaceAll [old] new text = text.flatMap fun c => if c = old then new else [c] := by
  induction text with
  | nil => rw [replaceAll_nil, List.flatMap_nil]
  | cons c rest ih =>
      rw [replaceAll, List.flatMap_cons, List.length_singleton, Nat.sub_self, List.drop_zero, ih]
      by_cases hold : c = old <;> simp [hold, Ne.symm]

section Pair

variable {first second c : Char} {new rest : List Char}

/-- A pair is replaced where it stands. -/
@[simp] theorem replaceAll_pair :
    replaceAll [first, second] new (first :: second :: rest) =
      new ++ replaceAll [first, second] new rest := by
  rw [replaceAll]
  simp

/-- A character that does not begin the pair stays. -/
theorem replaceAll_cons_of_ne (h : c ≠ first) :
    replaceAll [first, second] new (c :: rest) = c :: replaceAll [first, second] new rest := by
  rw [replaceAll, if_neg]
  simp [Ne.symm h]

/-- A character that the pair does not go on from stays. -/
theorem replaceAll_cons_of_head?_ne (h : rest.head? ≠ some second) :
    replaceAll [first, second] new (c :: rest) = c :: replaceAll [first, second] new rest := by
  rw [replaceAll, if_neg]
  cases rest with
  | nil => simp
  | cons d rest =>
      have hne : second ≠ d := fun heq => h (heq ▸ rfl)
      simp [hne]

end Pair

/-! ## Passes -/

/-- The two replacements of writing are one pass: a slash is not what a tilde is
replaced by. -/
theorem escapeInPasses_eq (token : List Char) : escapeInPasses token = escapeChars token := by
  rw [escapeInPasses, replaceAll_singleton, replaceAll_singleton, List.flatMap_assoc, escapeChars]
  congr 1
  funext c
  by_cases htilde : c = '~'
  · simp [htilde, escapeChar]
  · simp [htilde, escapeChar]

/-- The first replacement of reading puts no zero at the start. -/
theorem head?_replaceAll_ne {rest : List Char} (h : rest.head? ≠ some '0') :
    (replaceAll ['~', '1'] ['/'] rest).head? ≠ some '0' := by
  cases rest with
  | nil => simp
  | cons c rest =>
      rw [replaceAll]
      split
      · simp
      · exact h

/-- The two replacements of reading are one pass: the slash that the first puts in
does not complete an escape for the second. -/
theorem unescapeInPasses_eq (written : List Char) :
    unescapeInPasses written = unescapeChars written := by
  rw [unescapeInPasses]
  fun_induction unescapeChars written with
  | case1 rest ih =>
      have hfirst : replaceAll ['~', '1'] ['/'] ('~' :: '0' :: rest) =
          '~' :: '0' :: replaceAll ['~', '1'] ['/'] rest := by
        rw [replaceAll_cons_of_head?_ne (by simp), replaceAll_cons_of_ne (by decide)]
      rw [hfirst, replaceAll_pair, ih, List.singleton_append]
  | case2 rest ih =>
      rw [replaceAll_pair, List.singleton_append, replaceAll_cons_of_ne (by decide), ih]
  | case3 c rest hzero hone ih =>
      by_cases htilde : c = '~'
      · subst htilde
        have hhead : ∀ d, (d = '0' ∨ d = '1') → rest.head? ≠ some d := by
          rintro d hd hrest
          obtain ⟨tail, rfl⟩ := List.head?_eq_some_iff.1 hrest
          rcases hd with rfl | rfl
          · exact hzero tail rfl rfl
          · exact hone tail rfl rfl
        rw [replaceAll_cons_of_head?_ne (hhead _ (.inr rfl)),
          replaceAll_cons_of_head?_ne (head?_replaceAll_ne (hhead _ (.inl rfl))), ih]
      · rw [replaceAll_cons_of_ne htilde, replaceAll_cons_of_ne htilde, ih]
  | case4 => simp

/-- The pointer to a definition is read by replacements as the key and the name. -/
theorem tokensInPasses?_escapeChars (key target : String) :
    tokensInPasses? ('/' :: (escapeChars key.toList ++ '/' :: escapeChars target.toList)) =
      some [key, target] := by
  rw [tokensInPasses?, List.splitOn_append_cons_self_of_not_mem (slash_notMem_escapeChars _),
    List.splitOn_eq_singleton (slash_notMem_escapeChars _)]
  simp [unescapeInPasses_eq, unescapeChars_escapeChars]

/-- A key and a name that look like escapes come back as they are. -/
example : tokensInPasses? ("/~01/~1~00".toList) = some ["~1", "/~0"] := by cbv

end Json.Pointer

open Json.Pointer

/-- A reference is written as a pointer whose two tokens, each by two replacements,
are the key of the definitions and the name; split at slashes and read by
replacements, it gives exactly these two.  So references that are written alike
have the same key and the same name. -/
theorem reference_tells_key_and_name (shelf : Shelf) (settings : ExportSettings)
    (target owner : String) (registry : Handle) :
    ∃ fragment : List Char,
      (Validator.reference target owner registry).schema shelf settings =
        .object [("$ref", .string (String.ofList ('#' :: fragment)))] ∧
      fragment = '/' :: (escapeInPasses settings.definitionsKey.toList ++
        '/' :: escapeInPasses target.toList) ∧
      tokensInPasses? fragment = some [settings.definitionsKey, target] ∧
      ∀ (elsewhere : Shelf) (others : ExportSettings) (other author : String) (handle : Handle),
        (Validator.reference other author handle).schema elsewhere others =
            (Validator.reference target owner registry).schema shelf settings ↔
          others.definitionsKey = settings.definitionsKey ∧ other = target := by
  have hwritten : ∀ (shelf : Shelf) (settings : ExportSettings) (target owner : String)
      (registry : Handle), (Validator.reference target owner registry).schema shelf settings =
        .object [("$ref", .string (definitionReference settings.definitionsKey target))] :=
    fun _ _ _ _ _ => rfl
  refine ⟨'/' :: (escapeChars settings.definitionsKey.toList ++ '/' :: escapeChars target.toList),
    ?_, ?_, tokensInPasses?_escapeChars _ _, ?_⟩
  · rw [hwritten, ← toList_definitionReference, String.ofList_toList]
  · rw [escapeInPasses_eq, escapeInPasses_eq]
  · intro elsewhere others other author handle
    rw [hwritten, hwritten]
    constructor
    · intro hsame
      have htext : definitionReference others.definitionsKey other =
          definitionReference settings.definitionsKey target := by simpa using hsame
      have hread := congrArg (fun text : String => tokensInPasses? text.toList.tail) htext
      simp only [toList_definitionReference, List.tail_cons, tokensInPasses?_escapeChars] at hread
      simpa using hread
    · rintro ⟨hkey, rfl⟩
      rw [hkey]

end SchemaSets
