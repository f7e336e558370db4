import Mathlib.Data.List.Basic
import SchemaSets.Text.Quoted

/-!
# Texts that show where they end

A written text stands in the middle of a longer one, and what comes after it is
to be found again.  A word ends at the first character that is none of its own.
A quoted text ends at its closing quote, since no escape begins with one and no
escape begins another (`escapeChar_append_inj`).  Parts that are separated and
closed by a bracket end at the bracket, if each part ends in front of the
separator and in front of the bracket (`intercalate_append_inj`).

All statements have one form: if two texts agree, each with something behind it,
then what was written agrees, and so does what comes after.
-/

namespace SchemaSets.Text

/-! ## Words -/

/-- A word ends at the first character that is not one of its own. -/
theorem word_append_inj {p : Char → Prop} {word other rest more : List Char} {c d : Char}
    (hword : ∀ x ∈ word, p x) (hother : ∀ x ∈ other, p x) (hc : ¬p c) (hd : ¬p d)
    (h : word ++ c :: rest = other ++ d :: more) : word = other ∧ c :: rest = d :: more := by
  induction word generalizing other with
  | nil =>
      cases other with
      | nil => exact ⟨rfl, h⟩
      | cons y other =>
          have hy : p y := hother y List.mem_cons_self
          rw [List.nil_append, List.cons_append, List.cons.injEq] at h
          exact absurd (h.1 ▸ hy) hc
  | cons x word ih =>
      have hx : p x := hword x List.mem_cons_self
      cases other with
      | nil =>
          rw [List.nil_append, List.cons_append, List.cons.injEq] at h
          exact absurd (h.1 ▸ hx) hd
      | cons y other =>
          rw [List.cons_append, List.cons_append, List.cons.injEq] at h
          have hrest := ih (fun z hz => hword z (List.mem_cons_of_mem _ hz))
            (fun z hz => hother z (List.mem_cons_of_mem _ hz)) h.2
          exact ⟨by rw [h.1, hrest.1], hrest.2⟩

/-! ## Hexadecimal digits -/

/-- The sixteen digits. -/
def hexAlphabet : List Char := "0123456789abcdef".toList

/-- Digits below the base are told apart by their characters. -/
private theorem digitChar_inj : ∀ m < 16, ∀ n < 16, m.digitChar = n.digitChar → m = n := by decide

private theorem digitChar_mem : ∀ n < 16, n.digitChar ∈ hexAlphabet := by decide

/-- A number is written with digits. -/
theorem mem_hexAlphabet_of_mem_hexDigits {n : Nat} : ∀ c ∈ hexDigits n, c ∈ hexAlphabet := by
  induction n using Nat.strongRecOn with
  | ind n ih =>
      intro c hc
      rw [hexDigits, Nat.toDigits_eq_if (by decide)] at hc
      split at hc
      · next hlt =>
          rw [List.mem_singleton.1 hc]
          exact digitChar_mem n hlt
      · next hge =>
          rcases List.mem_append.1 hc with hhigh | hlow
          · exact ih (n / 16) (by omega) c hhigh
          · rw [List.mem_singleton.1 hlow]
            exact digitChar_mem _ (Nat.mod_lt _ (by decide))

/-- Two numbers with the same digits are equal. -/
theorem hexDigits_injective : Function.Injective hexDigits := by
  intro m
  induction m using Nat.strongRecOn with
  | ind m ih =>
      intro n h
      have hnonempty : ∀ k, Nat.toDigits 16 k ≠ [] := fun k => Nat.toDigits_ne_nil
      rw [hexDigits, hexDigits, Nat.toDigits_eq_if (by decide),
        Nat.toDigits_eq_if (n := n) (by decide)] at h
      split at h <;> rename_i hm <;> split at h <;> rename_i hn
      · exact digitChar_inj m hm n hn (List.singleton_inj.1 h)
      · have hlength := congrArg List.length h
        have hpos := List.length_pos_iff.2 (hnonempty (n / 16))
        simp only [List.length_append, List.length_singleton] at hlength
        omega
      · have hlength := congrArg List.length h
        have hpos := List.length_pos_iff.2 (hnonempty (m / 16))
        simp only [List.length_append, List.length_singleton] at hlength
        omega
      · obtain ⟨hhigh, hlow⟩ := List.append_inj' h rfl
        have hdiv := ih (m / 16) (by omega) hhigh
        have hmod := digitChar_inj (m % 16) (Nat.mod_lt _ (by decide)) (n % 16)
          (Nat.mod_lt _ (by decide)) (List.singleton_inj.1 hlow)
        omega

/-! ## Quoted texts -/

/-- The characters with an escape of their own, and the letter of that escape. -/
def namedEscapes : List (Char × Char) :=
  [('\x00', '0'), ('\t', 't'), ('\n', 'n'), ('\r', 'r'), ('"', '"'), ('\\', '\\')]

private theorem named_inj : ∀ a ∈ namedEscapes, ∀ b ∈ namedEscapes, a.2 = b.2 → a = b := by decide

private theorem named_ne_u : ∀ a ∈ namedEscapes, a.2 ≠ 'u' := by decide

private theorem escapeChar_named : ∀ a ∈ namedEscapes, escapeChar a.1 = ['\\', a.2] := by decide

/-- A character is written as it is, by an escape of its own or by its number. -/
theorem escapeChar_cases (c : Char) :
    (escapeChar c = [c] ∧ c ≠ '\\' ∧ c ≠ '"') ∨
      (∃ letter, (c, letter) ∈ namedEscapes ∧ escapeChar c = ['\\', letter]) ∨
      escapeChar c = '\\' :: 'u' :: '\x7b' :: (hexDigits c.toNat ++ ['\x7d']) := by
  by_cases hnamed : c ∈ namedEscapes.map Prod.fst
  · refine .inr (.inl ?_)
    obtain ⟨⟨char, letter⟩, hletter, rfl⟩ := List.mem_map.1 hnamed
    exact ⟨letter, hletter, escapeChar_named _ hletter⟩
  · have hplain : c ≠ '\x00' ∧ c ≠ '\t' ∧ c ≠ '\n' ∧ c ≠ '\r' ∧ c ≠ '"' ∧ c ≠ '\\' := by
      simpa [namedEscapes] using hnamed
    obtain ⟨hzero, htab, hline, hreturn, hquote, hslash⟩ := hplain
    simp only [escapeChar, if_neg hzero, if_neg htab, if_neg hline, if_neg hreturn,
      if_neg hquote, if_neg hslash]
    by_cases hhidden : isHidden c = true
    · rw [if_pos hhidden]
      exact .inr (.inr rfl)
    · rw [if_neg hhidden]
      exact .inl ⟨rfl, hslash, hquote⟩

/-- No written character begins with a quote. -/
theorem escapeChar_append_ne_quote (c : Char) (rest more : List Char) :
    escapeChar c ++ rest ≠ '"' :: more := by
  rcases escapeChar_cases c with ⟨hplain, -, hquote⟩ | ⟨letter, -, hnamed⟩ | hnumber
  · simp [hplain, hquote]
  · simp [hnamed]
  · simp [hnumber]

/-- A written character shows where it ends. -/
theorem escapeChar_append_inj {c d : Char} {rest more : List Char}
    (h : escapeChar c ++ rest = escapeChar d ++ more) : c = d ∧ rest = more := by
  rcases escapeChar_cases c with ⟨hc, hcslash, -⟩ | ⟨letter, hletter, hc⟩ | hc <;>
    rcases escapeChar_cases d with ⟨hd, hdslash, -⟩ | ⟨other, hother, hd⟩ | hd <;>
    simp only [hc, hd, List.cons_append, List.nil_append, List.append_assoc, List.cons.injEq,
      true_and] at h
  · exact h
  · exact absurd h.1 hcslash
  · exact absurd h.1 hcslash
  · exact absurd h.1.symm hdslash
  · have hsame := named_inj _ hletter _ hother h.1
    exact ⟨congrArg Prod.fst hsame, h.2⟩
  · exact absurd h.1 (named_ne_u _ hletter)
  · exact absurd h.1.symm hdslash
  · exact absurd h.1.symm (named_ne_u _ hother)
  · have hbrace : '\x7d' ∉ hexAlphabet := by decide
    obtain ⟨hdigits, hrest⟩ := word_append_inj mem_hexAlphabet_of_mem_hexDigits
      mem_hexAlphabet_of_mem_hexDigits hbrace hbrace h
    refine ⟨Char.ext (UInt32.toNat_inj.1 (hexDigits_injective hdigits)), ?_⟩
    exact (List.cons.inj hrest).2

private theorem escapeChars_cons_append (c : Char) (cs rest : List Char) :
    escapeChars (c :: cs) ++ rest = escapeChar c ++ (escapeChars cs ++ rest) := by
  rw [escapeChars, List.flatMap_cons, List.append_assoc, ← escapeChars]

/-- A written text ends at the quote. -/
theorem escapeChars_append_inj {cs ds rest more : List Char}
    (h : escapeChars cs ++ '"' :: rest = escapeChars ds ++ '"' :: more) :
    cs = ds ∧ rest = more := by
  induction cs generalizing ds with
  | nil =>
      cases ds with
      | nil => exact ⟨rfl, (List.cons.inj h).2⟩
      | cons d ds =>
          rw [escapeChars_cons_append] at h
          exact absurd h.symm (escapeChar_append_ne_quote d _ _)
  | cons c cs ih =>
      rw [escapeChars_cons_append] at h
      cases ds with
      | nil => exact absurd h (escapeChar_append_ne_quote c _ _)
      | cons d ds =>
          rw [escapeChars_cons_append] at h
          obtain ⟨hchar, hrest⟩ := escapeChar_append_inj h
          obtain ⟨hchars, hmore⟩ := ih hrest
          exact ⟨by rw [hchar, hchars], hmore⟩

/-- A quoted text shows where it ends. -/
theorem quote_append_inj {text other : String} {rest more : List Char}
    (h : (quote text).toList ++ rest = (quote other).toList ++ more) :
    text = other ∧ rest = more := by
  simp only [quote, String.toList_ofList, List.cons_append, List.append_assoc, List.nil_append,
    List.cons.injEq, true_and] at h
  obtain ⟨hchars, hrest⟩ := escapeChars_append_inj h
  exact ⟨String.toList_inj.1 hchars, hrest⟩

/-! ## Separated parts -/

/-- A separator and a closing bracket are told apart, and parts end in front of
both. -/
structure Parts (Stops : List Char → Prop) (separator : List Char) (close : Char) : Prop where
  differ : ∀ rest more, separator ++ rest ≠ close :: more
  stopsAtSeparator : ∀ rest, Stops (separator ++ rest)
  stopsAtClose : ∀ rest, Stops (close :: rest)

section Separated

variable {α β : Type} {Stops : List Char → Prop} {separator : List Char} {close : Char}
variable {write : α → List Char} {view : α → β} {Valid : α → Prop}

/-- Written in front of what stops it, a part shows where it ends and how it looks
to `view`. -/
def Shows (Stops : List Char → Prop) (write : α → List Char) (view : α → β) (Valid : α → Prop)
    (a : α) : Prop :=
  ∀ b, Valid b → ∀ rest more, Stops rest → Stops more → write a ++ rest = write b ++ more →
    view a = view b ∧ rest = more

/-- Parts that each follow a separator, up to the bracket. -/
private theorem flatMap_append_inj (hparts : Parts Stops separator close) {as bs : List α}
    (has : ∀ a ∈ as, Shows Stops write view Valid a) (hbs : ∀ b ∈ bs, Valid b)
    {rest more : List Char}
    (h : (as.flatMap fun a => separator ++ write a) ++ close :: rest =
      (bs.flatMap fun b => separator ++ write b) ++ close :: more) :
    as.map view = bs.map view ∧ rest = more := by
  have hstops : ∀ (cs : List α) (tail : List Char),
      Stops ((cs.flatMap fun c => separator ++ write c) ++ close :: tail) := by
    intro cs tail
    cases cs with
    | nil => exact hparts.stopsAtClose tail
    | cons c cs =>
        rw [List.flatMap_cons, List.append_assoc, List.append_assoc]
        exact hparts.stopsAtSeparator _
  induction as generalizing bs with
  | nil =>
      cases bs with
      | nil => exact ⟨rfl, (List.cons.inj h).2⟩
      | cons b bs =>
          rw [List.flatMap_cons, List.append_assoc, List.append_assoc] at h
          exact absurd h.symm (hparts.differ _ _)
  | cons a as ih =>
      cases bs with
      | nil =>
          rw [List.flatMap_cons, List.append_assoc, List.append_assoc] at h
          exact absurd h (hparts.differ _ _)
      | cons b bs =>
          rw [List.flatMap_cons, List.flatMap_cons, List.append_assoc, List.append_assoc,
            List.append_assoc, List.append_assoc, List.append_right_inj] at h
          obtain ⟨hview, htail⟩ := has a List.mem_cons_self b (hbs b List.mem_cons_self) _ _
            (hstops as rest) (hstops bs more) h
          obtain ⟨hviews, hrest⟩ := ih (fun c hc => has c (List.mem_cons_of_mem _ hc))
            (fun c hc => hbs c (List.mem_cons_of_mem _ hc)) htail
          exact ⟨by rw [List.map_cons, List.map_cons, hview, hviews], hrest⟩

/-- With a separator in front, separated parts each follow one. -/
private theorem append_intercalate_cons (separator : List Char) (a : α) (as : List α) :
    separator ++ separator.intercalate ((a :: as).map write) =
      (a :: as).flatMap fun c => separator ++ write c := by
  induction as generalizing a with
  | nil => simp
  | cons b as ih =>
      rw [List.map_cons, List.map_cons, List.intercalate_cons_cons, ← List.map_cons,
        List.flatMap_cons, ← ih b]
      simp only [List.append_assoc]

/-- Separated parts begin like the first of them. -/
private theorem exists_intercalate_cons_eq (separator : List Char) (write : α → List Char)
    (a : α) (as : List α) :
    ∃ tail, separator.intercalate ((a :: as).map write) = write a ++ tail := by
  cases as with
  | nil => exact ⟨[], by simp⟩
  | cons b as =>
      rw [List.map_cons, List.map_cons, List.intercalate_cons_cons, List.append_assoc]
      exact ⟨_, rfl⟩

/-- Separated parts in front of a bracket show where they end, if the parts do and
none begins with the bracket. -/
theorem intercalate_append_inj (hparts : Parts Stops separator close) {as bs : List α}
    (has : ∀ a ∈ as, Shows Stops write view Valid a) (hbs : ∀ b ∈ bs, Valid b)
    (hbegin : ∀ a ∈ as ++ bs, ∀ rest more, write a ++ rest ≠ close :: more)
    {rest more : List Char}
    (h : separator.intercalate (as.map write) ++ close :: rest =
      separator.intercalate (bs.map write) ++ close :: more) :
    as.map view = bs.map view ∧ rest = more := by
  cases as with
  | nil =>
      cases bs with
      | nil => exact ⟨rfl, (List.cons.inj h).2⟩
      | cons b bs =>
          obtain ⟨tail, htail⟩ := exists_intercalate_cons_eq separator write b bs
          rw [htail, List.append_assoc] at h
          exact absurd h.symm (hbegin b (by simp) _ _)
  | cons a as =>
      cases bs with
      | nil =>
          obtain ⟨tail, htail⟩ := exists_intercalate_cons_eq separator write a as
          rw [htail, List.append_assoc] at h
          exact absurd h (hbegin a (by simp) _ _)
      | cons b bs =>
          have hseparated := congrArg (separator ++ ·) h
          simp only [← List.append_assoc] at hseparated
          rw [append_intercalate_cons, append_intercalate_cons] at hseparated
          exact flatMap_append_inj hparts has hbs hseparated

end Separated

end SchemaSets.Text
