import SchemaSets.Draft07.Rendering

/-!
# Written pointers

What a pointer is written as is read back: the written form of a token has no
slash and gives the token again, so the pointer to a definition has exactly two
tokens, whatever the key and the name are (`tokens?_definitionReference`).
-/

namespace SchemaSets.Json.Pointer

/-- The written form of a token is read back. -/
theorem unescapeChars_escapeChars (cs : List Char) :
    unescapeChars (escapeChars cs) = cs := by
  induction cs with
  | nil => rfl
  | cons c rest ih =>
      rw [escapeChars, List.flatMap_cons, ← escapeChars]
      by_cases htilde : c = '~'
      · subst htilde
        simp [escapeChar, unescapeChars, ih]
      · by_cases hslash : c = '/'
        · subst hslash
          simp [escapeChar, unescapeChars, ih]
        · simp only [escapeChar, if_neg htilde, if_neg hslash, List.singleton_append]
          rw [unescapeChars.eq_3, ih]
          all_goals simp [htilde]

/-- A token is written without slashes. -/
theorem slash_notMem_escapeChars (cs : List Char) : '/' ∉ escapeChars cs := by
  simp only [escapeChars, List.mem_flatMap, not_exists, not_and]
  intro c _
  by_cases htilde : c = '~'
  · simp [escapeChar, htilde]
  · by_cases hslash : c = '/'
    · simp [escapeChar, hslash]
    · simp [escapeChar, htilde, hslash, Ne.symm hslash]

/-- Text without a slash is one part. -/
theorem splitSlash_of_notMem {part : List Char} (h : '/' ∉ part) : splitSlash part = [part] := by
  induction part with
  | nil => rfl
  | cons c rest ih =>
      rw [List.mem_cons, not_or] at h
      rw [splitSlash, if_neg (Ne.symm h.1), ih h.2]

/-- The first part ends at the first slash. -/
theorem splitSlash_append {part : List Char} (h : '/' ∉ part) (rest : List Char) :
    splitSlash (part ++ '/' :: rest) = part :: splitSlash rest := by
  induction part with
  | nil => rfl
  | cons c part ih =>
      rw [List.mem_cons, not_or] at h
      rw [List.cons_append, splitSlash, if_neg (Ne.symm h.1), ih h.2]

/-- The text of a reference to a definition. -/
theorem toList_definitionReference (key target : String) :
    (definitionReference key target).toList =
      '#' :: '/' :: (escapeChars key.toList ++ '/' :: escapeChars target.toList) := by
  simp [definitionReference, escape]

/-- The pointer to a definition leads by the key to the name. -/
theorem tokens?_definitionReference (key target : String) :
    tokens? ('/' :: (escapeChars key.toList ++ '/' :: escapeChars target.toList)) =
      some [key, target] := by
  rw [tokens?, splitSlash_append (slash_notMem_escapeChars _),
    splitSlash_of_notMem (slash_notMem_escapeChars _)]
  simp [unescapeChars_escapeChars]

end SchemaSets.Json.Pointer
