/-
# Constructs that are never closed

The lexer fails in front of a construct and nowhere else, however far the search for its end has gone:
where a construct opens of which no beginning of the text is complete (`lexeme_eq_error_iff`).  So a
failure tells three things, and they tell the failure:

| | |
| :-- | :-- |
| the tokens before | are those that the lexer cuts first, and all there are in their own text |
| the text that is left | begins with the opening of the construct, and holds no end for it |
| the line | counts the newlines before that text |

An end that only an escaped line break would reach is none for a literal of one line.  A backslash at
the end of the text takes no character with it, and is no unit.
-/
import EmbeddedSql.Proofs.Token.Constructs
import EmbeddedSql.Proofs.Token.Locality

namespace EmbeddedSql

/-- A construct opens, and no beginning of the text is complete. -/
structure Construct.Unclosed (construct : Construct) (cs : List Char) : Prop where
  opens : construct.Opens cs
  incomplete : ∀ text, text <+: cs → ¬ construct.IsComplete text

namespace Lexer

theorem lexeme_eq_error_iff {construct : Construct} {c : Char} {rest : List Char} :
    lexeme c rest = .error construct ↔ construct.Unclosed (c :: rest) := by
  constructor
  · intro h
    have hopens := opens_of_lexeme_error h
    rcases lexeme_of_opens hopens with ⟨n, hcut, -⟩ | ⟨-, hnone⟩
    · rw [hcut] at h
      cases h
    · exact ⟨hopens, hnone⟩
  · rintro ⟨hopens, hnone⟩
    rcases lexeme_of_opens hopens with ⟨n, -, hiff⟩ | ⟨hfail, -⟩
    · have hprefix : c :: rest.take n <+: c :: rest :=
        List.cons_prefix_cons.2 ⟨rfl, List.take_prefix n rest⟩
      exact absurd ((hiff _ hprefix).2 rfl) (hnone _ hprefix)
    · exact hfail

end Lexer

/-- The tokens that the lexer cuts first, and the text that it has left then. -/
def CutsFirst (source : String) (first : List Token) (left : String) : Prop :=
  ∃ line, Lexer.Cuts 1 source.toList first line left.toList

/-- The lexer fails on a source if and only if it comes to a construct that is never closed, and then
it reports the construct and the line on which it opens. -/
theorem tokenize_fails (source : String) :
    (∀ e, tokenize source = .error e → ∃ first left, CutsFirst source first left ∧
      source = joinedText first ++ left ∧
      tokenize (joinedText first) = .ok first ∧
      e.construct.Unclosed left.toList ∧
      e.line = 1 + (joinedText first).toList.count '\n' ∧
      e.message = "line " ++ toString (1 + (joinedText first).toList.count '\n') ++
        ": unterminated " ++ e.construct.name) ∧
    ∀ first left construct, CutsFirst source first left → construct.Unclosed left.toList →
      tokenize source = .error ⟨construct, 1 + (joinedText first).toList.count '\n'⟩ := by
  constructor
  · intro e h
    obtain ⟨first, c, rest, hcuts, hl⟩ := Lexer.tokensFrom_eq_error_iff.1 h
    have hline : e.line = 1 + (joinedText first).toList.count '\n' := by
      rw [toList_joinedText]
      exact hcuts.last_line
    refine ⟨first, String.ofList (c :: rest), ⟨e.line, ?_⟩, ?_, ?_, ?_, hline, ?_⟩
    · rw [String.toList_ofList]
      exact hcuts
    · apply String.toList_injective
      rw [String.toList_append, toList_joinedText, String.toList_ofList]
      exact hcuts.text
    · rw [tokenize, toList_joinedText]
      exact Lexer.tokensFrom_eq_ok_iff.2 ⟨_, hcuts.alone⟩
    · rw [String.toList_ofList]
      exact Lexer.lexeme_eq_error_iff.1 hl
    · rw [← hline]
      rfl
  · rintro first left construct ⟨line, hcuts⟩ hunclosed
    obtain ⟨c, rest, hleft⟩ := hunclosed.opens.exists_cons
    rw [hleft] at hcuts hunclosed
    rw [toList_joinedText, ← hcuts.last_line]
    exact Lexer.tokensFrom_eq_error_iff.2
      ⟨first, c, rest, hcuts, Lexer.lexeme_eq_error_iff.2 hunclosed⟩

/-- An escaped quote, a comment of two lines and an escaped line break in a literal. -/
def brokenSource : String := "\"\\\"\"/*\n*/'\\\n'"

theorem tokenize_fails_brokenSource :
    (∃ first left, CutsFirst brokenSource first left ∧
      brokenSource = joinedText first ++ left ∧
      tokenize (joinedText first) = .ok first ∧
      Construct.characterLiteral.Unclosed left.toList ∧
      2 = 1 + (joinedText first).toList.count '\n' ∧
      "line 2: unterminated character literal" =
        "line " ++ toString (1 + (joinedText first).toList.count '\n') ++
          ": unterminated " ++ Construct.characterLiteral.name) ∧
    CutsFirst "'\\\n'" [] "'\\\n'" ∧
    Construct.characterLiteral.Unclosed "'\\\n'".toList ∧
    tokenize "'\\\n'" = .error ⟨.characterLiteral, 1 + (joinedText []).toList.count '\n'⟩ := by
  have hfirst : CutsFirst "'\\\n'" [] "'\\\n'" := ⟨1, .done⟩
  have hunclosed : Construct.characterLiteral.Unclosed "'\\\n'".toList :=
    Lexer.lexeme_eq_error_iff.1 rfl
  exact ⟨(tokenize_fails brokenSource).1 ⟨.characterLiteral, 2⟩ (by decide +kernel), hfirst,
    hunclosed, (tokenize_fails _).2 _ _ _ hfirst hunclosed⟩

end EmbeddedSql
