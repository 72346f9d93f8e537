/-
# Literals that are written for a text

A text can be written as a literal in two ways, and either literal is one token that denotes the text
again.

| | one line | text block |
| :-- | :-- | :-- |
| backslashes and quotes | behind a backslash | behind a backslash |
| line breaks | `\n` | as they are |
| in front of a line | | a margin, as wide as the closing line |

The lexer and the reader of escapes pair a backslash with different things: the lexer with the one
character behind it, the reader with up to three octal digits or four hexadecimal ones.  They agree here
because the character behind a written backslash is a backslash, a quote or an `n`, and so begins none
of the longer escapes.  What comes behind, a `u` with digits perhaps, is plain text for both.
-/
import Mathlib.Data.List.DropRight
import EmbeddedSql.Proofs.Token.Constructs
import EmbeddedSql.Proofs.Token.LineEnds

namespace EmbeddedSql

namespace Literal

open Lexer

/-! ## Writing -/

/-- In a text block. -/
def escapeMark (c : Char) : List Char := if c = '\\' ∨ c = '"' then ['\\', c] else [c]

/-- On one line. -/
def escapeChar (c : Char) : List Char := if c = '\n' then ['\\', 'n'] else escapeMark c

/-- The literal on one line that denotes a text. -/
def written (w : String) : String :=
  String.ofList ('"' :: (w.toList.flatMap escapeChar ++ ['"']))

def blanks (n : Nat) : List Char := List.replicate n ' '

/-- A line of a text block behind its margin.  An empty line has none. -/
def writtenLine (n : Nat) (line : List Char) : List Char :=
  if line = [] then [] else blanks n ++ line.flatMap escapeMark

/-- The text block that denotes some lines, each with its line break. -/
def writtenBlock (n : Nat) (lines : List String) : String :=
  String.ofList <| quotedBlock <|
    '\n' :: joinLines (lines.map (writtenLine n ·.toList) ++ [blanks n])

variable {c : Char} {cs rest : List Char} {n : Nat}

/-! ## Reading escapes -/

/-- Reading goes on behind a written character. -/
def ReadsBack (encode : Char → List Char) : Prop :=
  ∀ c rest, decode (encode c ++ rest) = (decode rest).map (.char c :: ·)

theorem decode_plain (hc : c ≠ '\\') (rest : List Char) :
    decode (c :: rest) = (decode rest).map (.char c :: ·) := by
  rw [decode]
  · cases decode rest <;> rfl
  · exact fun _ _ heq _ => hc heq

/-- An escape of two characters. -/
theorem decode_simple {d : Char} (hd : simpleEscape? d = some c) (hu : d ≠ 'u')
    (hoctal : isOctal d = false) (rest : List Char) :
    decode ('\\' :: d :: rest) = (decode rest).map (.char c :: ·) := by
  have hescape : escape d rest = .ok ([.char c], 0) := by
    rw [escape, if_neg fun heq => hu (beq_iff_eq.1 heq)]
    dsimp only
    rw [if_neg (Bool.eq_false_iff.1 hoctal), escapedChar, hd]
  rw [decode, hescape]
  dsimp only
  rw [List.drop_zero]
  cases decode rest <;> rfl

theorem readsBack_escapeMark : ReadsBack escapeMark := by
  intro c rest
  rw [escapeMark]
  split
  · next hmark =>
      rcases hmark with rfl | rfl
      · exact decode_simple rfl (by decide) rfl rest
      · exact decode_simple rfl (by decide) rfl rest
  · next hmark => exact decode_plain (fun hc => hmark (.inl hc)) rest

theorem readsBack_escapeChar : ReadsBack escapeChar := by
  intro c rest
  rw [escapeChar]
  split
  · next hline =>
      subst hline
      exact decode_simple rfl (by decide) rfl rest
  · exact readsBack_escapeMark c rest

theorem ReadsBack.decode_flatMap {encode : Char → List Char} (h : ReadsBack encode)
    (cs : List Char) : decode (cs.flatMap encode) = .ok (cs.map .char) := by
  induction cs with
  | nil =>
      rw [List.flatMap_nil, decode]
      rfl
  | cons c cs ih =>
      rw [List.flatMap_cons, h, ih]
      rfl

/-! ## One line -/

theorem closesQuoted_escaped (cs : List Char) :
    ClosesQuoted '"' (cs.flatMap escapeChar ++ ['"']) := by
  induction cs with
  | nil => exact .quote
  | cons c cs ih =>
      rw [List.flatMap_cons, List.append_assoc, escapeChar]
      split
      · exact .escape (by decide) ih
      · next hline =>
          rw [escapeMark]
          split
          · exact .escape hline ih
          · next hmark => exact .plain (fun hc => hmark (.inr hc)) (fun hc => hmark (.inl hc)) hline ih

/-- Behind the quote stands a backslash if anything that needs one does. -/
theorem not_threeQuotes_prefix (cs : List Char) :
    ¬ threeQuotes <+: '"' :: (cs.flatMap escapeChar ++ ['"']) := by
  rintro ⟨tail, htail⟩
  have htail := (List.cons.inj htail).2
  cases cs with
  | nil => cases (List.cons.inj htail).2
  | cons c cs =>
      rw [List.flatMap_cons, escapeChar, escapeMark] at htail
      split at htail
      · cases (List.cons.inj htail).1
      split at htail
      · cases (List.cons.inj htail).1
      · next hmark => exact hmark (.inr (List.cons.inj htail).1.symm)

theorem toList_written (w : String) :
    (written w).toList = '"' :: (w.toList.flatMap escapeChar ++ ['"']) := String.toList_ofList

theorem tokenize_written (w : String) :
    tokenize (written w) =
      .ok [⟨.stringLiteral, written w, 1, 1 + (written w).toList.count '\n'⟩] := by
  have hopens : Construct.stringLiteral.Opens (written w).toList := by
    refine ⟨⟨_, toList_written w⟩, ?_⟩
    rintro ⟨gap, tail, -, htext⟩
    rw [toList_written] at htext
    exact not_threeQuotes_prefix w.toList ⟨gap ++ '\n' :: tail, htext.symm⟩
  exact tokenize_of_isComplete hopens ⟨_, closesQuoted_escaped w.toList, toList_written w⟩

theorem value_written (w : String) : value (written w) = .ok (Text.ofString w) := by
  have hblock : isTextBlock (written w).toList = false := by
    rw [isTextBlock, toList_written, Bool.and_eq_false_iff]
    refine .inl (Bool.eq_false_iff.2 fun hquotes => ?_)
    exact not_threeQuotes_prefix w.toList (List.isPrefixOf_iff_prefix.1 hquotes)
  rw [value, hblock, toList_written, List.drop_succ_cons, List.drop_zero, List.dropLast_concat,
    if_neg Bool.false_ne_true]
  exact readsBack_escapeChar.decode_flatMap w.toList

/-! ## Lines and their line breaks -/

/-- A piece in front of others. -/
theorem joinLines_cons (line : List Char) {lines : List (List Char)} (h : lines ≠ []) :
    joinLines (line :: lines) = line ++ '\n' :: joinLines lines := by
  rw [joinLines, List.intercalate_cons_of_ne_nil h, List.append_assoc]
  rfl

/-- Pieces that all end with a line break have an empty one behind them. -/
theorem joinLines_concat_nil (lines : List (List Char)) :
    joinLines (lines ++ [[]]) = lines.flatMap (· ++ ['\n']) := by
  induction lines with
  | nil => rfl
  | cons line lines ih =>
      rw [List.cons_append, joinLines_cons line (by simp), ih, List.flatMap_cons, List.append_assoc]
      rfl

/-- Line breaks are not escaped in a text block. -/
theorem flatMap_joinLines (lines : List (List Char)) :
    (joinLines lines).flatMap escapeMark = joinLines (lines.map (·.flatMap escapeMark)) := by
  induction lines with
  | nil => rfl
  | cons line lines ih =>
      cases lines with
      | nil => simp only [joinLines, List.map_cons, List.map_nil, List.intercalate_singleton]
      | cons next lines =>
          rw [joinLines_cons line (List.cons_ne_nil next lines), List.flatMap_append,
            List.flatMap_cons, ih]
          exact (joinLines_cons _ (List.cons_ne_nil _ _)).symm

/-! ## The text block is one token -/

/-- Text that can stand before the end of a text block. -/
def StandsBefore (p : List Char) : Prop := ∀ body, ClosesBlock body → ClosesBlock (p ++ body)

theorem StandsBefore.append {p q : List Char} (hp : StandsBefore p) (hq : StandsBefore q) :
    StandsBefore (p ++ q) := by
  intro body hbody
  rw [List.append_assoc]
  exact hp _ (hq body hbody)

theorem standsBefore_nil : StandsBefore [] := fun _ hbody => hbody

theorem standsBefore_plain (hc : c ≠ '\\') (hquote : c ≠ '"') : StandsBefore [c] := by
  intro body hbody
  refine .plain hc ?_ hbody
  rintro ⟨tail, htail⟩
  exact hquote (List.cons.inj htail).1.symm

theorem standsBefore_escapeMark (c : Char) : StandsBefore (escapeMark c) := by
  rw [escapeMark]
  split
  · exact fun body hbody => .escape hbody
  · next hmark => exact standsBefore_plain (fun hc => hmark (.inl hc)) fun hc => hmark (.inr hc)

theorem standsBefore_escaped (cs : List Char) : StandsBefore (cs.flatMap escapeMark) := by
  induction cs with
  | nil => exact standsBefore_nil
  | cons c cs ih =>
      rw [List.flatMap_cons]
      exact (standsBefore_escapeMark c).append ih

theorem standsBefore_blanks (n : Nat) : StandsBefore (blanks n) := by
  induction n with
  | zero => exact standsBefore_nil
  | succ n ih => exact (standsBefore_plain (by decide) (by decide)).append ih

theorem standsBefore_writtenLine (n : Nat) (line : List Char) :
    StandsBefore (writtenLine n line) := by
  rw [writtenLine]
  split
  · exact standsBefore_nil
  · exact (standsBefore_blanks n).append (standsBefore_escaped line)

theorem standsBefore_joinLines {lines : List (List Char)} (h : ∀ line ∈ lines, StandsBefore line) :
    StandsBefore (joinLines lines) := by
  induction lines with
  | nil => exact standsBefore_nil
  | cons line lines ih =>
      obtain ⟨hline, hlines⟩ := List.forall_mem_cons.1 h
      cases lines with
      | nil =>
          rw [joinLines, List.intercalate_singleton]
          exact hline
      | cons next lines =>
          rw [joinLines_cons line (List.cons_ne_nil next lines)]
          exact hline.append ((standsBefore_plain (by decide) (by decide)).append (ih hlines))

theorem toList_writtenBlock (n : Nat) (lines : List String) :
    (writtenBlock n lines).toList =
      quotedBlock ('\n' :: joinLines (lines.map (writtenLine n ·.toList) ++ [blanks n])) :=
  String.toList_ofList

theorem tokenize_writtenBlock (n : Nat) (lines : List String) :
    tokenize (writtenBlock n lines) =
      .ok [⟨.stringLiteral, writtenBlock n lines, 1,
        1 + (writtenBlock n lines).toList.count '\n'⟩] := by
  have hopens : Construct.textBlock.Opens (writtenBlock n lines).toList :=
    ⟨[], _, List.forall_mem_nil _, toList_writtenBlock n lines⟩
  refine tokenize_of_isComplete hopens
    ⟨[], _, List.forall_mem_nil _, ?_, toList_writtenBlock n lines⟩
  refine standsBefore_joinLines ?_ threeQuotes .quotes
  intro line hline
  rw [List.mem_append, List.mem_map, List.mem_singleton] at hline
  rcases hline with ⟨line, -, rfl⟩ | rfl
  · exact standsBefore_writtenLine n line.toList
  · exact standsBefore_blanks n

/-! ## The margin comes off again -/

/-- A line that a text block keeps as it is: it holds no line break and does not end with a blank. -/
structure IsKept (line : List Char) : Prop where
  noBreak : '\n' ∉ line
  noBlankEnd : ∀ c ∈ line.getLast?, isBlank c = false

/-- Escaping does not change the end of a line. -/
theorem getLast?_escaped (cs : List Char) : (cs.flatMap escapeMark).getLast? = cs.getLast? := by
  rcases List.eq_nil_or_concat cs with rfl | ⟨init, c, rfl⟩
  · rfl
  · have hlast : (escapeMark c).getLast? = some c := by
      rw [escapeMark]
      split <;> rfl
    rw [List.concat_eq_append, List.flatMap_append, List.getLast?_append, List.getLast?_append,
      List.flatMap_singleton, hlast]
    rfl

theorem newline_not_mem_escaped {line : List Char} (h : '\n' ∉ line) :
    '\n' ∉ line.flatMap escapeMark := by
  intro hmem
  obtain ⟨c, hc, hmem⟩ := List.mem_flatMap.1 hmem
  rw [escapeMark] at hmem
  split at hmem
  · rcases List.mem_cons.1 hmem with heq | hmem
    · cases heq
    · exact h (List.mem_singleton.1 hmem ▸ hc)
  · exact h (List.mem_singleton.1 hmem ▸ hc)

theorem mem_blanks {d : Char} {n : Nat} (h : d ∈ blanks n) : d = ' ' := List.eq_of_mem_replicate h

theorem newline_not_mem_writtenLine {line : List Char} (h : '\n' ∉ line) (n : Nat) :
    '\n' ∉ writtenLine n line := by
  rw [writtenLine]
  split
  · exact List.not_mem_nil
  · intro hmem
    rcases List.mem_append.1 hmem with hmem | hmem
    · cases mem_blanks hmem
    · exact newline_not_mem_escaped h hmem

theorem isBlank_of_mem_blanks {n : Nat} : ∀ d ∈ blanks n, isBlank d = true := by
  intro d hd
  rw [mem_blanks hd]
  rfl

theorem indentation_blanks_append (n : Nat) (cs : List Char) :
    indentation (blanks n ++ cs) = n + indentation cs := by
  rw [indentation, List.takeWhile_append_of_pos isBlank_of_mem_blanks, List.length_append, blanks,
    List.length_replicate, indentation]

theorem isBlankLine_blanks (n : Nat) : isBlankLine (blanks n) = true :=
  List.all_eq_true.2 isBlank_of_mem_blanks

/-- The closing line has the margin, and no line that counts has less. -/
theorem margin_written (n : Nat) (lines : List (List Char)) :
    margin (lines.map (writtenLine n) ++ [blanks n]) = n := by
  have hclosing : indentation (blanks n) = n := by
    have := indentation_blanks_append n []
    rwa [List.append_nil] at this
  have hmin : (((lines.map (writtenLine n)).filter (!isBlankLine ·) ++ [blanks n]).map
      indentation).min? = some n := by
    refine List.min?_eq_some_iff.2 ⟨?_, ?_⟩
    · exact List.mem_map.2 ⟨blanks n, List.mem_concat_self, hclosing⟩
    · intro width hwidth
      obtain ⟨line, hline, rfl⟩ := List.mem_map.1 hwidth
      rcases List.mem_append.1 hline with hline | hline
      · obtain ⟨hmem, hblank⟩ := List.mem_filter.1 hline
        obtain ⟨line, -, rfl⟩ := List.mem_map.1 hmem
        rw [writtenLine] at hblank ⊢
        split at hblank
        · cases hblank
        · next hne =>
            rw [if_neg hne, indentation_blanks_append]
            exact Nat.le_add_right n _
      · rw [List.mem_singleton.1 hline, hclosing]
  rw [margin, List.dropLast_concat, List.getLast?_concat]
  exact congrArg (Option.getD · 0) hmin

theorem dropWhileEnd_eq_self {p : Char → Bool} {cs : List Char}
    (h : ∀ c ∈ cs.getLast?, p c = false) : dropWhileEnd p cs = cs :=
  List.rdropWhile_eq_self_iff.2 fun hne => by
    simp [h _ (List.getLast?_eq_some_getLast hne)]

/-- A line comes out from behind its margin as it was escaped. -/
theorem freeLine_written {line : List Char} (h : IsKept line) (n : Nat) :
    freeLine n (writtenLine n line) = line.flatMap escapeMark := by
  rw [writtenLine]
  split
  · next hnil =>
      rw [hnil]
      rfl
  · next hne =>
      have hlast : ∀ c ∈ (line.flatMap escapeMark).getLast?, isBlank c = false := by
        rw [getLast?_escaped]
        exact h.noBlankEnd
      have hvisible : isBlankLine (blanks n ++ line.flatMap escapeMark) = false := by
        refine Bool.eq_false_iff.2 fun hblank => ?_
        obtain ⟨c, hc⟩ : ∃ c, line.getLast? = some c :=
          ⟨_, List.getLast?_eq_some_getLast hne⟩
        have hend : (line.flatMap escapeMark).getLast? = some c := by rw [getLast?_escaped, hc]
        have hall := List.all_eq_true.1 hblank c
          (List.mem_append_right _ (List.mem_of_getLast? hend))
        rw [hlast c hend] at hall
        cases hall
      have hlength : (blanks n).length = n := List.length_replicate
      rw [freeLine, hvisible, if_neg Bool.false_ne_true, List.drop_left' hlength,
        dropWhileEnd_eq_self hlast]

theorem stripIndent_written {lines : List (List Char)} (h : ∀ line ∈ lines, IsKept line) (n : Nat) :
    stripIndent (joinLines (lines.map (writtenLine n) ++ [blanks n])) =
      (lines.flatMap (· ++ ['\n'])).flatMap escapeMark := by
  have hsplit : splitLines (joinLines (lines.map (writtenLine n) ++ [blanks n])) =
      lines.map (writtenLine n) ++ [blanks n] := by
    rw [splitLines_eq, joinLines, splitAtEach_intercalate (by simp)]
    intro line hline hmem
    rw [List.mem_append, List.mem_map, List.mem_singleton] at hline
    rcases hline with ⟨line, hline, rfl⟩ | rfl
    · exact newline_not_mem_writtenLine (h line hline).noBreak n hmem
    · cases mem_blanks hmem
  have hlines : lines.map (freeLine n ∘ writtenLine n) = lines.map (·.flatMap escapeMark) :=
    List.map_congr_left fun line hline => freeLine_written (h line hline) n
  rw [stripIndent, hsplit, margin_written, List.map_append, List.map_map, hlines, ← joinLines_concat_nil,
    flatMap_joinLines, List.map_append, List.map_singleton, List.map_singleton, freeLine,
    isBlankLine_blanks, if_pos rfl]
  rfl

theorem value_writtenBlock {lines : List String} (h : ∀ line ∈ lines, IsKept line.toList) (n : Nat) :
    value (writtenBlock n lines) = .ok (Text.ofString (String.join (lines.map (· ++ "\n")))) := by
  have hjoin : (String.join (lines.map (· ++ "\n"))).toList =
      (lines.map (·.toList)).flatMap (· ++ ['\n']) := by
    rw [String.toList_join, List.flatMap_map, List.flatMap_map]
    exact List.flatMap_congr fun line _ => String.toList_append
  have hkept : ∀ line ∈ lines.map (·.toList), IsKept line := by
    intro line hline
    obtain ⟨line, hmem, rfl⟩ := List.mem_map.1 hline
    exact h line hmem
  have hstrip := stripIndent_written hkept n
  rw [List.map_map] at hstrip
  rw [value, toList_writtenBlock, isTextBlock_quotedBlock, if_pos rfl, blockBody_quotedBlock]
  show decode (stripIndent (joinLines (lines.map (writtenLine n ∘ (·.toList)) ++ [blanks n]))) = _
  rw [hstrip, readsBack_escapeMark.decode_flatMap, Text.ofString, hjoin]

end Literal

/-- A text is denoted by the literal that is written for it, on one line or as a text block. -/
theorem written_denotes :
    (∀ w : String, ∃ t, tokenize (Literal.written w) = .ok [t] ∧ t.kind = .stringLiteral ∧
      t.text = Literal.written w ∧ Literal.value t.text = .ok (Text.ofString w)) ∧
    ∀ (n : Nat) (lines : List String), (∀ line ∈ lines, Literal.IsKept line.toList) →
      ∃ t, tokenize (Literal.writtenBlock n lines) = .ok [t] ∧ t.kind = .stringLiteral ∧
        t.text = Literal.writtenBlock n lines ∧
        Literal.value t.text = .ok (Text.ofString (String.join (lines.map (· ++ "\n")))) :=
  ⟨fun w => ⟨_, Literal.tokenize_written w, rfl, rfl, Literal.value_written w⟩,
    fun n lines h => ⟨_, Literal.tokenize_writtenBlock n lines, rfl, rfl,
      Literal.value_writtenBlock h n⟩⟩

/-- Backslashes in front of what would be an escape, quotes, an empty line, and blanks in front of a
line. -/
theorem written_denotes_apparentEscapes :
    Literal.written "\\u0041\"\n\\\\7" = "\"\\\\u0041\\\"\\n\\\\\\\\7\"" ∧
    (∃ t, tokenize (Literal.written "\\u0041\"\n\\\\7") = .ok [t] ∧ t.kind = .stringLiteral ∧
      t.text = Literal.written "\\u0041\"\n\\\\7" ∧
      Literal.value t.text = .ok (Text.ofString "\\u0041\"\n\\\\7")) ∧
    Literal.writtenBlock 2 [" \"\"\"", "", "\\n\\"] =
      "\"\"\"\n   \\\"\\\"\\\"\n\n  \\\\n\\\\\n  \"\"\"" ∧
    (∀ line ∈ [" \"\"\"", "", "\\n\\"], Literal.IsKept line.toList) ∧
    ∃ t, tokenize (Literal.writtenBlock 2 [" \"\"\"", "", "\\n\\"]) = .ok [t] ∧
      t.kind = .stringLiteral ∧ t.text = Literal.writtenBlock 2 [" \"\"\"", "", "\\n\\"] ∧
      Literal.value t.text = .ok (Text.ofString " \"\"\"\n\n\\n\\\n") := by
  have hkept : ∀ line ∈ [" \"\"\"", "", "\\n\\"], Literal.IsKept line.toList := by
    intro line hline
    simp only [List.mem_cons, List.not_mem_nil, or_false] at hline
    rcases hline with rfl | rfl | rfl
    · exact ⟨by decide, fun c hc => by cases hc; rfl⟩
    · exact ⟨by decide, fun c hc => by cases hc⟩
    · exact ⟨by decide, fun c hc => by cases hc; rfl⟩
  exact ⟨rfl, written_denotes.1 _, rfl, hkept, written_denotes.2 2 _ hkept⟩

end EmbeddedSql
