/-
# The first word and what comes behind it

Fragments are judged by the first word of their literal text, and the pieces of that text are put together first.  So
a word may begin in one fragment and end in a later one, unknown values between them passed over.  Once the text has
gone on behind its first word the verdict is settled, whatever is appended; a text that is nothing but a word is still
open at its end, and letters that come next belong to the word (`leadingWord_append`).

| the literal text so far | what can be appended without changing the verdict |
| :-- | :-- |
| a word with something behind it, or no word in front | anything |
| a word and no more | anything that does not begin with a letter |
| | letters, if neither the shorter nor the longer word is a keyword |

It changes in all other cases (`keywordOf?_append_eq_iff`).
-/
import EmbeddedSql.Flow.Fragment
import Mathlib.Data.List.TakeWhile

namespace EmbeddedSql

/-! ## Words -/

/-- The letters of `u` that belong to the first word of `t` when `u` is put behind it: none, unless `t` is a word and
no more. -/
def carriedOver (t u : Text) : Text :=
  if (t.dropWhile CodePoint.isBlank).all (·.satisfies isKeywordChar) then
    u.takeWhile (·.satisfies isKeywordChar)
  else []

/-- A text that is not blank keeps its first word, but for the letters that come next. -/
theorem leadingWord_append {t : Text} (u : Text) (h : ∃ p ∈ t, p.isBlank = false) :
    leadingWord (t ++ u) = leadingWord t ++ carriedOver t u := by
  have hvisible : t.dropWhile CodePoint.isBlank ≠ [] := by
    obtain ⟨p, hp, hblank⟩ := h
    intro hnil
    have hall := List.dropWhile_eq_nil_iff.1 hnil p hp
    rw [hblank] at hall
    cases hall
  have hdrop : (t ++ u).dropWhile CodePoint.isBlank = t.dropWhile CodePoint.isBlank ++ u := by
    rw [List.dropWhile_append, if_neg (by simpa using hvisible)]
  rw [leadingWord, leadingWord, carriedOver, hdrop, List.takeWhile_append]
  by_cases hword : (t.dropWhile CodePoint.isBlank).all (·.satisfies isKeywordChar) = true
  · have htake := List.takeWhile_eq_self_iff.2 (List.all_eq_true.1 hword)
    rw [if_pos hword, htake, if_pos rfl]
  · rw [if_neg hword, List.append_nil, if_neg]
    intro hlength
    have htake := (List.takeWhile_prefix _).eq_of_length hlength
    exact hword (List.all_eq_true.2 (List.takeWhile_eq_self_iff.1 htake))

/-- The literal text of a sequence of fragments. -/
def Fragment.literals (fragments : List Fragment) : Text := fragments.flatMap Fragment.literalText

theorem Fragment.literals_append (fs gs : List Fragment) : literals (fs ++ gs) = literals fs ++ literals gs :=
  List.flatMap_append

namespace RuleSet

/-- Is the word a keyword, in whatever letter case? -/
def Accepts (rules : RuleSet) (word : Text) : Prop :=
  word ≠ [] ∧ word.map CodePoint.toUpperAscii ∈ rules.sqlKeywords

instance (rules : RuleSet) : DecidablePred rules.Accepts := fun _ => inferInstanceAs (Decidable (_ ∧ _))

/-- The keyword that a word is. -/
def keyword? (rules : RuleSet) (word : Text) : Option Text :=
  if rules.Accepts word then some (word.map CodePoint.toUpperAscii) else none

variable {rules : RuleSet} {word more : Text}

theorem isSome_keyword? : (rules.keyword? word).isSome = true ↔ rules.Accepts word := by
  rw [keyword?, Option.isSome_ite]

theorem keywordOf?_eq (rules : RuleSet) (fragments : List Fragment) :
    rules.keywordOf? fragments = rules.keyword? (leadingWord (Fragment.literals fragments)) := by
  rw [keywordOf?, leadingKeyword?, keyword?]
  refine if_congr (and_congr_left' ?_) rfl rfl
  exact not_congr List.map_eq_nil_iff

/-- Two words that differ in length are the same keyword only if they are none. -/
theorem keyword?_append_eq_iff (hmore : more ≠ []) :
    rules.keyword? (word ++ more) = rules.keyword? word ↔
      ¬ rules.Accepts word ∧ ¬ rules.Accepts (word ++ more) := by
  constructor
  · intro h
    have hiff : rules.Accepts (word ++ more) ↔ rules.Accepts word := by
      rw [← isSome_keyword?, ← isSome_keyword?, h]
    have hword : ¬ rules.Accepts word := by
      intro hword
      rw [keyword?, keyword?, if_pos (hiff.2 hword), if_pos hword, Option.some.injEq] at h
      have hlength := congrArg List.length h
      rw [List.length_map, List.length_map, List.length_append] at hlength
      exact hmore (List.length_eq_zero_iff.1 (by omega))
    exact ⟨hword, fun hlong => hword (hiff.1 hlong)⟩
  · rintro ⟨hword, hlong⟩
    rw [keyword?, keyword?, if_neg hlong, if_neg hword]

/-! ## Fragments -/

/-- When does appending fragments leave the verdict as it is?  As long as no letters are carried over to the first
word; and if some are, the keyword stays where there is none before and after, and being a statement stays where the
shorter and the longer word agree in being keywords. -/
theorem keywordOf?_append_eq_iff (rules : RuleSet) {fs : List Fragment} (gs : List Fragment)
    (hfs : ∃ p ∈ Fragment.literals fs, p.isBlank = false) :
    let word := leadingWord (Fragment.literals fs)
    let more := carriedOver (Fragment.literals fs) (Fragment.literals gs)
    (rules.keywordOf? (fs ++ gs) = rules.keywordOf? fs ↔
        (more ≠ [] → ¬ rules.Accepts word ∧ ¬ rules.Accepts (word ++ more))) ∧
      (rules.isStatement (fs ++ gs) = rules.isStatement fs ↔
        (more ≠ [] → (rules.Accepts (word ++ more) ↔ rules.Accepts word))) := by
  intro word more
  have hshort : rules.keywordOf? fs = rules.keyword? word := rules.keywordOf?_eq fs
  have hlong : rules.keywordOf? (fs ++ gs) = rules.keyword? (word ++ more) := by
    rw [keywordOf?_eq, Fragment.literals_append, leadingWord_append _ hfs]
  rw [isStatement, isStatement, hlong, hshort]
  by_cases hmore : more = []
  · simp only [hmore, List.append_nil, ne_eq, not_true_eq_false, false_implies, and_self]
  · rw [forall_prop_of_true hmore, forall_prop_of_true hmore]
    refine ⟨keyword?_append_eq_iff hmore, ?_⟩
    rw [← isSome_keyword?, ← isSome_keyword?, Bool.eq_iff_iff]

/-- A keyword that is given in two pieces, and one that a longer word takes back. -/
theorem keywordOf?_append_partedWords :
    standard.keywordOf? [.literal "SEL" 1] = none ∧
      standard.keywordOf? ([.literal "SEL" 1] ++ [.unknown "x" 1, .literal "ECT 1" 2]) ≠
        standard.keywordOf? [.literal "SEL" 1] ∧
      standard.isStatement ([.literal " create" 1] ++ [.literal "d by hand" 1]) ≠
        standard.isStatement [.literal " create" 1] := by
  refine ⟨by decide, fun heq => ?_, fun heq => ?_⟩
  · exact absurd ((keywordOf?_append_eq_iff standard [.unknown "x" 1, .literal "ECT 1" 2]
      ⟨.char 'S', by decide, by decide⟩).1.1 heq) (by decide)
  · exact absurd ((keywordOf?_append_eq_iff standard [.literal "d by hand" 1]
      ⟨.char 'c', by decide, by decide⟩).2.1 heq) (by decide)

end RuleSet

end EmbeddedSql
