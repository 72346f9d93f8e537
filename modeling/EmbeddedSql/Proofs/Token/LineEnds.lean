/-
# Line ends do not matter

A carriage return before every newline of a source changes nothing but the text of text blocks, which is
where newlines are part of the code.  A text block still denotes the same, because blanks at the ends of
its lines are stripped, and they have no part in its margin (`stripIndent_crlf`); and a candidate still
gets the same lines, because they are taken without carriage returns (`sourceLines_withReturns`).

Both look at a text line by line.  The text with carriage returns has the same lines with one at the end of
each but the last (`splitAtEach_crlf`), so what is the same for a line with and without it is the same
for the texts (`map_endLines`).
-/
import Mathlib.Data.List.Forall2
import EmbeddedSql.Proofs.Token.CarriageReturns
import EmbeddedSql.Scan.Source

namespace EmbeddedSql

/-! ## Lines -/

/-- The lines with a carriage return at the end of all of them but the last. -/
def endLines (lines : List (List Char)) : List (List Char) :=
  lines.dropLast.map (· ++ ['\r']) ++ lines.getLast?.toList

theorem endLines_cons (line : List Char) {lines : List (List Char)} (h : lines ≠ []) :
    endLines (line :: lines) = (line ++ ['\r']) :: endLines lines := by
  cases lines with
  | nil => exact absurd rfl h
  | cons next lines => rfl

theorem splitAtEach_crlf (cs : List Char) :
    splitAtEach '\n' (crlf cs) = endLines (splitAtEach '\n' cs) := by
  induction cs with
  | nil => rfl
  | cons c cs ih =>
      have hne := splitAtEach_ne_nil '\n' cs
      by_cases hc : c = '\n'
      · subst hc
        have hreturn : '\n' ∉ ['\r'] := by decide
        have hsplit : splitAtEach '\n' ('\n' :: cs) = [] :: splitAtEach '\n' cs := if_pos rfl
        rw [crlf_newline, hsplit, endLines_cons [] hne, ← ih]
        exact splitAtEach_append_cons hreturn (crlf cs)
      · rw [crlf_cons hc]
        obtain ⟨line, lines, hlines⟩ := List.exists_cons_of_ne_nil hne
        rw [hlines] at ih
        rw [splitAtEach_cons_of_ne hc hlines]
        cases lines with
        | nil => exact splitAtEach_cons_of_ne hc ih
        | cons next lines =>
            rw [endLines_cons _ (List.cons_ne_nil next lines)] at ih ⊢
            exact splitAtEach_cons_of_ne hc ih

/-- What does not see the carriage returns sees the lines as they were. -/
theorem map_endLines {β : Type} {f : List Char → β} (hf : ∀ line, f (line ++ ['\r']) = f line)
    (lines : List (List Char)) : (endLines lines).map f = lines.map f := by
  induction lines with
  | nil => rfl
  | cons line lines ih =>
      cases lines with
      | nil => rfl
      | cons next lines =>
          rw [endLines_cons line (List.cons_ne_nil next lines), List.map_cons, List.map_cons, hf, ih]

theorem dropWhileEnd_append_singleton {α : Type} {p : α → Bool} {x : α} (hx : p x = true)
    (xs : List α) : dropWhileEnd p (xs ++ [x]) = dropWhileEnd p xs := by
  rw [dropWhileEnd, dropWhileEnd, List.reverse_append, List.reverse_singleton, List.singleton_append,
    List.dropWhile_cons_of_pos hx]

namespace Literal

open Lexer

theorem splitLines_eq (cs : List Char) : splitLines cs = splitAtEach '\n' cs := by
  calc cs.splitOn '\n'
      = (List.intercalate ['\n'] (splitAtEach '\n' cs)).splitOn '\n' := by
        rw [intercalate_splitAtEach]
    _ = splitAtEach '\n' cs :=
        List.splitOn_intercalate _ (fun _ h => not_mem_of_mem_splitAtEach h) (splitAtEach_ne_nil _ _)

theorem isBlankLine_return (line : List Char) : isBlankLine (line ++ ['\r']) = isBlankLine line := by
  have hreturn : isBlankLine ['\r'] = true := rfl
  rw [isBlankLine, List.all_append, ← isBlankLine, ← isBlankLine, hreturn, Bool.and_true]

theorem indentation_return {line : List Char} (h : isBlankLine line = false) :
    indentation (line ++ ['\r']) = indentation line := by
  have hnot : (line.takeWhile isBlank).length ≠ line.length := by
    intro hall
    have hwhole : line.takeWhile isBlank = line := (List.takeWhile_prefix isBlank).eq_of_length hall
    have hblank : isBlankLine line = true :=
      List.all_eq_true.2 fun c hc => (List.takeWhile_eq_self_iff.1 hwhole) c hc
    rw [h] at hblank
    cases hblank
  rw [indentation, List.takeWhile_append, if_neg hnot, indentation]

theorem margin_endLines (lines : List (List Char)) : margin (endLines lines) = margin lines := by
  cases hlast : lines.getLast? with
  | none =>
      rw [List.getLast?_eq_none_iff.1 hlast]
      rfl
  | some last =>
      have hends : endLines lines = lines.dropLast.map (· ++ ['\r']) ++ [last] := by
        rw [endLines, hlast]
        rfl
      have hcounted : ∀ init : List (List Char),
          ((init.map (· ++ ['\r'])).filter (!isBlankLine ·)).map indentation =
            (init.filter (!isBlankLine ·)).map indentation := by
        intro init
        have hsame : init.filter ((!isBlankLine ·) ∘ (· ++ ['\r'])) = init.filter (!isBlankLine ·) :=
          List.filter_congr fun line _ => congrArg not (isBlankLine_return line)
        rw [List.filter_map, List.map_map, hsame]
        refine List.map_congr_left fun line hline => indentation_return ?_
        exact (Bool.not_eq_true' _).mp (List.mem_filter.1 hline).2
      rw [margin, margin, hends, List.dropLast_concat, List.getLast?_concat, hlast, List.map_append,
        List.map_append, hcounted]

theorem freeLine_return (n : Nat) (line : List Char) :
    freeLine n (line ++ ['\r']) = freeLine n line := by
  rw [freeLine, freeLine, isBlankLine_return, List.drop_append]
  cases n - line.length with
  | zero => rw [List.drop_zero, dropWhileEnd_append_singleton (by decide)]
  | succ k => rw [List.drop_succ_cons, List.drop_nil, List.append_nil]

theorem stripIndent_crlf (body : List Char) : stripIndent (crlf body) = stripIndent body := by
  rw [stripIndent, stripIndent, splitLines_eq, splitLines_eq, splitAtEach_crlf, margin_endLines,
    map_endLines (freeLine_return _)]

theorem isTextBlock_quotedBlock (body : List Char) : isTextBlock (quotedBlock body) = true := by
  have hlength : 6 ≤ (quotedBlock body).length := by
    simp only [quotedBlock, List.length_cons, List.length_append, List.length_nil]
    omega
  exact Bool.and_eq_true_iff.2 ⟨rfl, decide_eq_true hlength⟩

theorem blockBody_quotedBlock (body : List Char) :
    blockBody (quotedBlock body) = (body.dropWhile (· != '\n')).drop 1 := by
  have hclosing : body ++ ['"', '"', '"'] = ((body ++ ['"']) ++ ['"']) ++ ['"'] := by
    rw [List.append_assoc, List.append_assoc]
    rfl
  rw [blockBody, quotedBlock, List.drop_succ_cons, List.drop_succ_cons, List.drop_succ_cons, List.drop_zero,
    hclosing, List.dropLast_concat, List.dropLast_concat, List.dropLast_concat]

/-- A text block denotes the same, and so does any other literal. -/
theorem value_of_sameText {kind : TokenKind} {text text' : String}
    (h : SameText kind text.toList text'.toList) (hkind : kind.isTrivia = false) :
    value text' = value text := by
  rw [value, value]
  generalize text.toList = cs at h ⊢
  generalize text'.toList = cs' at h ⊢
  cases h with
  | trivia htrivia _ =>
      rw [hkind] at htrivia
      cases htrivia
  | plain => rfl
  | block body =>
      rw [isTextBlock_quotedBlock, isTextBlock_quotedBlock, if_pos rfl, if_pos rfl,
        blockBody_quotedBlock, blockBody_quotedBlock]
      rcases dropWhile_line body with ⟨h, h'⟩ | ⟨left, h, h'⟩
      · rw [h, h']
      · rw [h, h', List.drop_succ_cons, List.drop_succ_cons, List.drop_zero, List.drop_zero,
          stripIndent_crlf]

end Literal

/-- The source with a carriage return before each newline. -/
def withReturns (source : String) : String := String.ofList (crlf source.toList)

theorem sourceLines_withReturns (source : String) :
    sourceLines (withReturns source) = sourceLines source := by
  rw [sourceLines, sourceLines, withReturns, String.toList_ofList, splitAtEach_crlf, map_endLines]
  exact fun line => dropWhileEnd_append_singleton rfl line

/-! ## Tokens -/

/-- A token, and the one it becomes when every line ends with a carriage return. -/
structure Token.SameButReturns (t t' : Token) : Prop where
  kind : t'.kind = t.kind
  startLine : t'.startLine = t.startLine
  endLine : t'.endLine = t.endLine
  text : t'.text = if t.inertForm? = some .textBlock then withReturns t.text else t.text
  value : Literal.value t'.text = Literal.value t.text

namespace Lexer

/-- All newlines of a token are in the text of a text block. -/
theorem SameText.cases_text {kind : TokenKind} {text text' : List Char} (h : SameText kind text text')
    (hkind : kind.isTrivia = false) :
    text' = crlf text ∧
      (text' = text ∨ kind = .stringLiteral ∧ Literal.isTextBlock text = true) := by
  cases h with
  | trivia htrivia _ =>
      rw [hkind] at htrivia
      cases htrivia
  | plain hnone => exact ⟨(crlf_of_not_mem hnone).symm, .inl rfl⟩
  | block body =>
      have hclosing : '\n' ∉ ['"', '"', '"'] := by decide
      refine ⟨?_, .inr ⟨rfl, Literal.isTextBlock_quotedBlock body⟩⟩
      rw [quotedBlock, quotedBlock, crlf_cons (by decide), crlf_cons (by decide),
        crlf_cons (by decide), crlf_append, crlf_of_not_mem hclosing]

theorem withReturns_of_sameText {t t' : Token} (h : SameText t.kind t.text.toList t'.text.toList)
    (hkind : t.kind.isTrivia = false) :
    t'.text = if t.inertForm? = some .textBlock then withReturns t.text else t.text := by
  obtain ⟨hcrlf, hform⟩ := h.cases_text hkind
  split
  · apply String.toList_injective
    rw [withReturns, String.toList_ofList, hcrlf]
  · next hno =>
      rcases hform with hsame | ⟨hstring, hblock⟩
      · exact String.toList_injective hsame
      · refine absurd ?_ hno
        rw [Token.inertForm?, hstring]
        dsimp only
        rw [hblock, if_pos rfl]

theorem count_of_sameText {kind : TokenKind} {text text' : List Char} (h : SameText kind text text') :
    text'.count '\n' = text.count '\n' := by
  cases hkind : kind.isTrivia with
  | false => rw [(h.cases_text hkind).1, count_crlf]
  | true =>
      cases h with
      | trivia _ hcount => exact hcount
      | plain => rfl
      | block => cases hkind

variable {c c' : Char} {rest rest' : List Char} {taken taken' : TokenKind × Nat}

theorem InStep.endLine_eq (h : InStep c rest c' rest' taken taken') (line : Nat) :
    (tokenAt line c' rest' taken'.1 taken'.2).endLine =
      (tokenAt line c rest taken.1 taken.2).endLine :=
  congrArg (line + ·) (count_of_sameText h.text)

/-- Tokens in step are the same token, unless they are white space or comments. -/
theorem InStep.sameButReturns (h : InStep c rest c' rest' taken taken')
    (hkind : taken.1.isTrivia = false) (line : Nat) :
    (tokenAt line c rest taken.1 taken.2).SameButReturns (tokenAt line c' rest' taken'.1 taken'.2) := by
  have htext : SameText taken.1 (tokenAt line c rest taken.1 taken.2).text.toList
      (tokenAt line c' rest' taken'.1 taken'.2).text.toList := by
    rw [tokenAt, tokenAt, String.toList_ofList, String.toList_ofList]
    exact h.text
  exact ⟨h.kind, rfl, h.endLine_eq line, withReturns_of_sameText htext hkind,
    Literal.value_of_sameText htext hkind⟩

/-- Texts in step are cut alike. -/
theorem tokensFrom_alike {line : Nat} {cs cs' : List Char} (h : Tails cs cs') :
    EndAlike
      (fun tokens tokens' =>
        List.Forall₂ Token.SameButReturns (significant tokens) (significant tokens'))
      (tokensFrom line cs) (tokensFrom line cs') := by
  induction hlength : cs.length using Nat.strong_induction_on generalizing line cs cs' with
  | _ length ih =>
      cases cs with
      | nil =>
          cases h
          rw [crlf_nil, tokensFrom.eq_def]
          exact .ok List.Forall₂.nil
      | cons c rest =>
          obtain ⟨c', rest', rfl⟩ := h.exists_cons
          have hstep := tails_lexeme h
          generalize hl : lexeme c rest = first at hstep
          generalize hl' : lexeme c' rest' = first' at hstep
          cases hstep with
          | error construct =>
              rw [tokensFrom_cons_error hl, tokensFrom_cons_error hl']
              exact .error _
          | @ok taken taken' hstep =>
              have hshorter : (rest.drop taken.2).length < length := by
                rw [← hlength, List.length_drop, List.length_cons]
                exact Nat.lt_succ_of_le (Nat.sub_le _ _)
              rw [tokensFrom_cons_ok hl, tokensFrom_cons_ok hl', hstep.endLine_eq line]
              refine (ih _ hshorter hstep.tails rfl).map fun tokens tokens' htokens => ?_
              have hkind' : (tokenAt line c' rest' taken'.1 taken'.2).kind =
                  (tokenAt line c rest taken.1 taken.2).kind := hstep.kind
              rw [significant, significant, List.filter_cons, List.filter_cons, hkind']
              split
              · next hkind =>
                  exact .cons (hstep.sameButReturns ((Bool.not_eq_true' _).mp hkind) line) htokens
              · exact htokens

end Lexer

/-- Carriage returns at the ends of lines: a source is cut into tokens or not as before, with the same
message; what takes part in patterns of code is the same but for the text of text blocks, and denotes the
same; and every candidate gets the same lines. -/
theorem tokenize_withReturns (source : String) :
    EndAlike
        (fun tokens tokens' =>
          List.Forall₂ Token.SameButReturns (significant tokens) (significant tokens'))
        (tokenize source) (tokenize (withReturns source)) ∧
      ∀ c : Candidate,
        c.attach (sourceLines (withReturns source)) = c.attach (sourceLines source) := by
  refine ⟨?_, fun c => ?_⟩
  · rw [tokenize, tokenize, withReturns, String.toList_ofList]
    exact Lexer.tokensFrom_alike (.inStep source.toList)
  · rw [sourceLines_withReturns]

end EmbeddedSql
