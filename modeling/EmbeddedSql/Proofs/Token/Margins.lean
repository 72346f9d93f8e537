/-
# Margins of text blocks

A text block stands as far from the left as the code around it, and its text does not: the margin comes
off all its lines.  Two kinds of lines are measured for the margin.

| line | measured | becomes |
| :-- | :-- | :-- |
| holds more than blanks | yes | the line without margin and without blanks at its end |
| blank, the last one | yes | empty |
| blank, another one | no | empty |

The margin is the indentation of a measured line and of none of them more (`margin_spec`), so taking it off
takes blanks only.  A line that is measured and has no more than the margin ends without indentation,
and then there is nothing left to take off (`margin_freed`).
-/
import EmbeddedSql.Proofs.Token.WrittenLiterals

namespace EmbeddedSql

namespace Literal

variable {lines : List (List Char)} {line : List Char} {m n : Nat}

/-! ## The margin -/

/-- The lines that are measured. -/
def counted (lines : List (List Char)) : List (List Char) :=
  lines.dropLast.filter (!isBlankLine ·) ++ lines.getLast?.toList

theorem mem_counted :
    line ∈ counted lines ↔ (line ∈ lines ∧ isBlankLine line = false) ∨ lines.getLast? = some line := by
  rcases List.eq_nil_or_concat lines with rfl | ⟨init, last, rfl⟩
  · simp [counted]
  · simp only [counted, List.concat_eq_append, List.dropLast_concat, List.getLast?_concat,
      Option.toList_some, List.mem_append, List.mem_filter, List.mem_singleton, Option.some.injEq,
      Bool.not_eq_true']
    constructor
    · rintro (⟨hmem, hvisible⟩ | rfl)
      · exact .inl ⟨.inl hmem, hvisible⟩
      · exact .inr rfl
    · rintro (⟨hmem | rfl, hvisible⟩ | rfl)
      · exact .inl ⟨hmem, hvisible⟩
      · exact .inr rfl
      · exact .inr rfl

/-- The least indentation of a line that is measured. -/
theorem margin_spec (h : lines ≠ []) :
    (∃ line ∈ counted lines, indentation line = margin lines) ∧
      ∀ line ∈ counted lines, margin lines ≤ indentation line := by
  have hlast : lines.getLast h ∈ counted lines := mem_counted.2 (.inr (List.getLast?_eq_some_getLast h))
  have hne : ((counted lines).map indentation) ≠ [] :=
    List.ne_nil_of_mem (List.mem_map_of_mem hlast)
  obtain ⟨k, hk⟩ := Option.isSome_iff_exists.1 (List.isSome_min?_of_ne_nil hne)
  have hmargin : margin lines = k := congrArg (Option.getD · 0) hk
  obtain ⟨hmem, hle⟩ := List.min?_eq_some_iff.1 hk
  rw [hmargin]
  exact ⟨List.mem_map.1 hmem, fun line hline => hle _ (List.mem_map_of_mem hline)⟩

theorem margin_le (h : line ∈ lines) (hvisible : isBlankLine line = false) :
    margin lines ≤ indentation line :=
  (margin_spec (List.ne_nil_of_mem h)).2 line (mem_counted.2 (.inl ⟨h, hvisible⟩))

/-! ## One line -/

/-- A line that is not blank: its indentation and the text behind it. -/
theorem exists_visible (h : isBlankLine line = false) :
    ∃ gap c rest, line = gap ++ c :: rest ∧ (∀ d ∈ gap, isBlank d = true) ∧ isBlank c = false ∧
      indentation line = gap.length := by
  have hsplit := List.takeWhile_append_dropWhile (p := isBlank) (l := line)
  have hgap : ∀ d ∈ line.takeWhile isBlank, isBlank d = true := fun d hd => List.mem_takeWhile_imp hd
  cases hrest : line.dropWhile isBlank with
  | nil =>
      rw [hrest, List.append_nil] at hsplit
      rw [← hsplit, isBlankLine, List.all_eq_true.2 hgap] at h
      cases h
  | cons c rest =>
      have hstops := List.head?_dropWhile_not isBlank line
      rw [hrest] at hstops
      rw [hrest] at hsplit
      exact ⟨_, c, rest, hsplit.symm, hgap, hstops, rfl⟩

theorem isBlankLine_eq_false {gap rest : List Char} {c : Char} (hc : isBlank c = false) :
    isBlankLine (gap ++ c :: rest) = false := by
  simp [isBlankLine, hc]

theorem indentation_eq {gap rest : List Char} {c : Char} (hgap : ∀ d ∈ gap, isBlank d = true)
    (hc : isBlank c = false) : indentation (gap ++ c :: rest) = gap.length := by
  rw [indentation, List.takeWhile_append_of_pos hgap, List.takeWhile_cons_of_neg (by simp [hc]),
    List.append_nil]

theorem dropWhileEnd_append_cons (gap rest : List Char) {c : Char} (hc : isBlank c = false) :
    dropWhileEnd isBlank (gap ++ c :: rest) = gap ++ c :: dropWhileEnd isBlank rest := by
  have hvisible : ¬ isBlank c = true := by rw [hc]; exact Bool.false_ne_true
  induction rest using List.reverseRecOn with
  | nil => exact List.rdropWhile_concat_neg isBlank gap c hvisible
  | append_singleton rest d ih =>
      have hshift : gap ++ c :: (rest ++ [d]) = (gap ++ c :: rest) ++ [d] := by simp
      by_cases hd : isBlank d = true
      · rw [hshift, dropWhileEnd_append_singleton hd, ih, dropWhileEnd_append_singleton hd]
      · have hkeep : dropWhileEnd isBlank (rest ++ [d]) = rest ++ [d] :=
          List.rdropWhile_concat_neg isBlank rest d hd
        rw [hshift, hkeep, ← hshift]
        exact hshift ▸ List.rdropWhile_concat_neg isBlank (gap ++ c :: rest) d hd

/-- Taking off no more than the indentation takes blanks only. -/
theorem freeLine_visible {gap rest : List Char} {c : Char} (hc : isBlank c = false)
    (hm : m ≤ gap.length) :
    freeLine m (gap ++ c :: rest) = gap.drop m ++ c :: dropWhileEnd isBlank rest := by
  rw [freeLine, isBlankLine_eq_false hc, if_neg Bool.false_ne_true, List.drop_append_of_le_length hm,
    dropWhileEnd_append_cons _ _ hc]

/-- What becomes of a line that is not blank. -/
theorem visible_freeLine (h : isBlankLine line = false) (hm : m ≤ indentation line) :
    isBlankLine (freeLine m line) = false ∧
      indentation (freeLine m line) = indentation line - m ∧
      trim isBlank (freeLine m line) = trim isBlank line := by
  obtain ⟨gap, c, rest, rfl, hgap, hc, hwidth⟩ := exists_visible h
  rw [hwidth] at hm
  have hrest : ∀ d ∈ gap.drop m, isBlank d = true := fun d hd => hgap d (List.mem_of_mem_drop hd)
  have htrim : ∀ {gap rest : List Char}, (∀ d ∈ gap, isBlank d = true) →
      trim isBlank (gap ++ c :: rest) = c :: dropWhileEnd isBlank rest := by
    intro gap rest hgap
    rw [trim, List.dropWhile_append_of_pos hgap, List.dropWhile_cons_of_neg (by simp [hc])]
    exact dropWhileEnd_append_cons [] rest hc
  have htwice : dropWhileEnd isBlank (dropWhileEnd isBlank rest) = dropWhileEnd isBlank rest :=
    List.rdropWhile_idempotent isBlank rest
  rw [freeLine_visible hc hm, indentation_eq hrest hc, List.length_drop, hwidth, htrim hrest,
    htrim hgap, htwice]
  exact ⟨isBlankLine_eq_false hc, rfl, rfl⟩

theorem freeLine_blank (h : isBlankLine line = true) : freeLine m line = [] := if_pos h

/-- No freed line ends with a blank. -/
theorem not_isBlank_getLast?_freeLine (m : Nat) (line : List Char) :
    ∀ c ∈ (freeLine m line).getLast?, isBlank c = false := by
  intro c hc
  rw [freeLine] at hc
  split at hc
  · cases hc
  · have hne := List.ne_nil_of_mem (List.mem_of_getLast? hc)
    have hlast := List.rdropWhile_last_not isBlank _ hne
    rw [Option.mem_def, List.getLast?_eq_some_getLast hne] at hc
    rw [← Option.some.inj hc]
    exact Bool.eq_false_iff.2 hlast

/-- There is nothing to take off a line without blanks at its end but a margin. -/
theorem freeLine_zero (h : ∀ c ∈ line.getLast?, isBlank c = false) : freeLine 0 line = line := by
  rw [freeLine]
  split
  · next hblank =>
      rcases List.eq_nil_or_concat line with rfl | ⟨init, c, rfl⟩
      · rfl
      · have hc := h c (by simp)
        simp [isBlankLine, hc] at hblank
  · rw [List.drop_zero, dropWhileEnd_eq_self h]

theorem newline_not_mem_freeLine (h : '\n' ∉ line) (m : Nat) : '\n' ∉ freeLine m line := by
  rw [freeLine]
  split
  · exact List.not_mem_nil
  · intro hmem
    exact h (List.mem_of_mem_drop ((List.rdropWhile_prefix isBlank _).subset hmem))

/-! ## Lines behind a wider indentation -/

theorem isBlankLine_blanks_append (n : Nat) (line : List Char) :
    isBlankLine (blanks n ++ line) = isBlankLine line := by
  have hblank := isBlankLine_blanks n
  rw [isBlankLine] at hblank
  rw [isBlankLine, List.all_append, hblank, Bool.true_and, isBlankLine]

theorem freeLine_blanks_append (n m : Nat) (line : List Char) :
    freeLine (n + m) (blanks n ++ line) = freeLine m line := by
  have hlength : (blanks n).length = n := List.length_replicate
  rw [freeLine, freeLine, isBlankLine_blanks_append, ← List.drop_drop, List.drop_left' hlength]

theorem counted_blanks_append (n : Nat) (lines : List (List Char)) :
    counted (lines.map (blanks n ++ ·)) = (counted lines).map (blanks n ++ ·) := by
  have hvisible : (fun line => !isBlankLine line) ∘ (blanks n ++ ·) = fun line => !isBlankLine line :=
    funext fun line => congrArg not (isBlankLine_blanks_append n line)
  rw [counted, counted, List.map_append, ← List.map_dropLast, List.filter_map, hvisible,
    List.getLast?_map, Option.toList_map]

/-- The margin grows with the indentation of all lines. -/
theorem margin_blanks_append (n : Nat) (h : lines ≠ []) :
    margin (lines.map (blanks n ++ ·)) = n + margin lines := by
  obtain ⟨⟨line, hline, hmin⟩, hle⟩ := margin_spec h
  have hne : lines.map (blanks n ++ ·) ≠ [] := List.map_eq_nil_iff.not.2 h
  obtain ⟨⟨wide, hwide, hmin'⟩, hle'⟩ := margin_spec hne
  rw [counted_blanks_append] at hwide hle'
  obtain ⟨other, hother, rfl⟩ := List.mem_map.1 hwide
  have hupper := hle' _ (List.mem_map_of_mem hline)
  have hlower := hle other hother
  rw [indentation_blanks_append] at hmin' hupper
  omega

/-! ## All lines -/

theorem splitLines_ne_nil (body : List Char) : splitLines body ≠ [] := by
  rw [splitLines_eq]
  exact splitAtEach_ne_nil '\n' body

theorem newline_not_mem_of_mem_splitLines {body : List Char} (h : line ∈ splitLines body) :
    '\n' ∉ line := by
  rw [splitLines_eq] at h
  exact not_mem_of_mem_splitAtEach h

theorem joinLines_splitLines (body : List Char) : joinLines (splitLines body) = body := by
  rw [splitLines_eq]
  exact intercalate_splitAtEach '\n' body

/-- Lines stay the lines of a text if they are changed one by one. -/
theorem splitLines_joinLines_map {f : List Char → List Char} {body : List Char}
    (hf : ∀ line, '\n' ∉ line → '\n' ∉ f line) :
    splitLines (joinLines ((splitLines body).map f)) = (splitLines body).map f := by
  rw [splitLines_eq (joinLines _)]
  refine splitAtEach_intercalate (by simpa using splitLines_ne_nil body) ?_
  intro changed hchanged
  obtain ⟨line, hline, rfl⟩ := List.mem_map.1 hchanged
  exact hf line (newline_not_mem_of_mem_splitLines hline)

theorem splitLines_stripIndent (body : List Char) :
    splitLines (stripIndent body) =
      (splitLines body).map (freeLine (margin (splitLines body))) :=
  splitLines_joinLines_map fun _ hline => newline_not_mem_freeLine hline _

/-- A measured line with no more than the margin, which is left without indentation. -/
theorem exists_flush (h : lines ≠ []) :
    ∃ line ∈ counted lines, indentation (freeLine (margin lines) line) = 0 ∧
      freeLine (margin lines) line ∈ counted (lines.map (freeLine (margin lines))) := by
  obtain ⟨⟨line, hline, hmin⟩, -⟩ := margin_spec h
  refine ⟨line, hline, ?_⟩
  by_cases hblank : isBlankLine line = true
  · rw [freeLine_blank hblank]
    refine ⟨rfl, ?_⟩
    rcases mem_counted.1 hline with ⟨-, hvisible⟩ | hlast
    · rw [hblank] at hvisible
      cases hvisible
    · rw [mem_counted, List.getLast?_map, hlast, Option.map_some, freeLine_blank hblank]
      exact .inr rfl
  · have hvisible := Bool.eq_false_iff.2 hblank
    obtain ⟨hvisible', hwidth, -⟩ := visible_freeLine hvisible hmin.ge
    refine ⟨by omega, ?_⟩
    have hmem : line ∈ lines := by
      rcases mem_counted.1 hline with ⟨hmem, -⟩ | hlast
      · exact hmem
      · exact List.mem_of_getLast? hlast
    exact mem_counted.2 (.inl ⟨List.mem_map_of_mem hmem, hvisible'⟩)

/-- Freed lines have no margin. -/
theorem margin_freed (h : lines ≠ []) : margin (lines.map (freeLine (margin lines))) = 0 := by
  obtain ⟨line, -, hwidth, hcounted⟩ := exists_flush h
  have hle := (margin_spec (List.map_eq_nil_iff.not.2 h)).2 _ hcounted
  omega

theorem stripIndent_stripIndent (body : List Char) :
    stripIndent (stripIndent body) = stripIndent body := by
  have hsame : ∀ line ∈ splitLines (stripIndent body), freeLine 0 line = line := by
    intro line hline
    rw [splitLines_stripIndent] at hline
    obtain ⟨old, -, rfl⟩ := List.mem_map.1 hline
    exact freeLine_zero (not_isBlank_getLast?_freeLine _ old)
  have hmargin : margin (splitLines (stripIndent body)) = 0 := by
    rw [splitLines_stripIndent]
    exact margin_freed (splitLines_ne_nil body)
  rw [stripIndent, hmargin, List.map_congr_left hsame, List.map_id', joinLines_splitLines]

/-- A text with every line, the last one too, behind `n` more spaces. -/
def indented (n : Nat) (body : List Char) : List Char :=
  joinLines ((splitLines body).map (blanks n ++ ·))

theorem stripIndent_indented (n : Nat) (body : List Char) :
    stripIndent (indented n body) = stripIndent body := by
  have hlines : splitLines (indented n body) = (splitLines body).map (blanks n ++ ·) := by
    refine splitLines_joinLines_map fun line hline hmem => ?_
    rcases List.mem_append.1 hmem with hmem | hmem
    · cases mem_blanks hmem
    · exact hline hmem
  rw [stripIndent, stripIndent, hlines, margin_blanks_append n (splitLines_ne_nil body), List.map_map]
  exact congrArg joinLines (List.map_congr_left fun line _ => freeLine_blanks_append n _ line)

/-- The lines of a text and the same lines without their margin. -/
structure Freed (lines freed : List (List Char)) : Prop where
  length : freed.length = lines.length
  noBlankEnd : ∀ line ∈ freed, ∀ c ∈ line.getLast?, isBlank c = false
  blank : ∀ {i : Nat} {line}, lines[i]? = some line → isBlankLine line = true → freed[i]? = some []
  content : ∀ {i : Nat} {line}, lines[i]? = some line → isBlankLine line = false →
    ∃ line', freed[i]? = some line' ∧ isBlankLine line' = false ∧
      trim isBlank line' = trim isBlank line
  distance : ∀ {i j : Nat} {line other}, lines[i]? = some line → isBlankLine line = false →
    lines[j]? = some other → isBlankLine other = false →
      ∃ line' other', freed[i]? = some line' ∧ freed[j]? = some other' ∧
        (indentation line' : Int) - indentation other' = indentation line - indentation other
  flush : ∃ (i : Nat) (line line' : List Char), lines[i]? = some line ∧
    (isBlankLine line = false ∨ i + 1 = lines.length) ∧
      freed[i]? = some line' ∧ indentation line' = 0

theorem freed_map (h : lines ≠ []) : Freed lines (lines.map (freeLine (margin lines))) where
  length := List.length_map _
  noBlankEnd := by
    intro line' hline'
    obtain ⟨line, -, rfl⟩ := List.mem_map.1 hline'
    exact not_isBlank_getLast?_freeLine _ line
  blank := by
    intro i line hi hblank
    rw [List.getElem?_map, hi, Option.map_some, freeLine_blank hblank]
  content := by
    intro i line hi hvisible
    have hm := margin_le (List.mem_of_getElem? hi) hvisible
    obtain ⟨hvisible', -, htrim⟩ := visible_freeLine hvisible hm
    exact ⟨_, by rw [List.getElem?_map, hi, Option.map_some], hvisible', htrim⟩
  distance := by
    intro i j line other hi hline hj hother
    have hm := margin_le (List.mem_of_getElem? hi) hline
    have hm' := margin_le (List.mem_of_getElem? hj) hother
    refine ⟨_, _, by rw [List.getElem?_map, hi, Option.map_some],
      by rw [List.getElem?_map, hj, Option.map_some], ?_⟩
    rw [(visible_freeLine hline hm).2.1, (visible_freeLine hother hm').2.1]
    omega
  flush := by
    obtain ⟨line, hcounted, hwidth, -⟩ := exists_flush h
    rcases mem_counted.1 hcounted with ⟨hmem, hvisible⟩ | hlast
    · obtain ⟨i, hi⟩ := List.getElem?_of_mem hmem
      exact ⟨i, line, _, hi, .inl hvisible, by rw [List.getElem?_map, hi, Option.map_some], hwidth⟩
    · rw [List.getLast?_eq_getElem?] at hlast
      have hpos := List.length_pos_iff.2 h
      exact ⟨lines.length - 1, line, _, hlast, .inr (by omega),
        by rw [List.getElem?_map, hlast, Option.map_some], hwidth⟩

end Literal

/-- The margin of a text block comes off: more spaces in front of every line change nothing, a second
time changes nothing either, and the lines are what they were but for margin and blanks at their
ends. -/
theorem stripIndent_freesLines (body : List Char) :
    (∀ n, Literal.stripIndent (Literal.indented n body) = Literal.stripIndent body) ∧
      Literal.stripIndent (Literal.stripIndent body) = Literal.stripIndent body ∧
      Literal.Freed (Literal.splitLines body)
        (Literal.splitLines (Literal.stripIndent body)) := by
  refine ⟨fun n => Literal.stripIndent_indented n body, Literal.stripIndent_stripIndent body, ?_⟩
  rw [Literal.splitLines_stripIndent]
  exact Literal.freed_map (Literal.splitLines_ne_nil body)

end EmbeddedSql
