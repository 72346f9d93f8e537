/-
# Reading back pages

The form for readers is read back like the one-line form.  It has a new line and a stretch of blanks
wherever that has a blank or nothing at all, and the reader skips these.  Objects read back if their keys
differ: the reader puts each member under its key, at the end if that is new.

A page is plain ASCII without control characters, newlines apart, so that it comes out of a file as it went
in, whatever is done to line ends and whatever is taken for the encoding.
-/
import EmbeddedSql.Proofs.Json.ReadingBack

namespace EmbeddedSql.Json

/-! ## What pages are made of -/

/-- The newline and the printable characters of ASCII. -/
def IsPageChar (c : Char) : Prop := c = '\n' ∨ IsPrintable c

instance (c : Char) : Decidable (IsPageChar c) := inferInstanceAs (Decidable (_ ∨ _))

theorem isPageChar_of_all {cs : List Char} (h : cs.all (IsPageChar ·) = true) {c : Char} (hc : c ∈ cs) :
    IsPageChar c := of_decide_eq_true (List.all_eq_true.1 h c hc)

theorem isPageChar_writeString {t : Text} {c : Char} (h : c ∈ writeString t) : IsPageChar c :=
  .inr (isPrintable_writeString h)

theorem isPageChar_newLine {level : Nat} {c : Char} (h : c ∈ newLine level) : IsPageChar c := by
  rcases List.mem_cons.1 h with rfl | h
  · exact .inl rfl
  · rw [List.eq_of_mem_replicate h]
    decide

/-! ## Values -/

/-- The page form of a value, at whatever level it stands, is read as the value whatever comes after it.  It
is made of the characters of pages, and begins like no space or bracket. -/
structure ReadsBackFromPage (v : Json) : Prop where
  opening : ∀ level, ∃ c rest, pretty level v = c :: rest ∧ isSpace c = false ∧ c ≠ ']'
    ∧ c ≠ '\uFEFF'
  written : ∀ level, ∀ c ∈ pretty level v, IsPageChar c
  read : ∀ level fuel after, 2 * (pretty level v).length ≤ fuel →
    readValue fuel (pretty level v ++ after) = .ok (v, after)

theorem skipSpace_newLine (level : Nat) {c : Char} {rest : List Char} (h : isSpace c = false) :
    skipSpace (newLine level ++ c :: rest) = c :: rest := by
  have hblank : ∀ d ∈ newLine level, isSpace d = true := by
    intro d hd
    rcases List.mem_cons.1 hd with rfl | hd
    · rfl
    · rw [List.eq_of_mem_replicate hd]
      rfl
  unfold skipSpace
  rw [List.dropWhile_append_of_pos hblank]
  exact skipSpace_cons h

/-- A value on a line of its own, with the space before it skipped. -/
theorem ReadsBackFromPage.skipSpace_newLine {v : Json} (h : v.ReadsBackFromPage) (line level : Nat)
    (after : List Char) :
    skipSpace (newLine line ++ (pretty level v ++ after)) = pretty level v ++ after := by
  obtain ⟨c, rest, hv, hspace, -⟩ := h.opening level
  rw [hv, List.cons_append]
  exact Json.skipSpace_newLine line hspace

theorem ReadsBackFromPage.length_pos {v : Json} (h : v.ReadsBackFromPage) (level : Nat) :
    0 < (pretty level v).length := by
  obtain ⟨c, rest, hv, -⟩ := h.opening level
  rw [hv]
  exact Nat.succ_pos _

theorem readsBackFromPage_str {t : Text} {cs : List Char} (h : t = cs.map .char) :
    ReadsBackFromPage (.str t) where
  opening level := ⟨'"', _, rfl, by decide, by decide, by decide⟩
  written level c hc := isPageChar_writeString hc
  read level fuel after hfuel := by
    cases fuel with
    | zero => cases hfuel
    | succ fuel =>
        show readValue (fuel + 1) ('"' :: t.flatMap escape ++ ['"'] ++ after) = _
        rw [List.append_assoc, List.cons_append, h]
        exact readValue_quote (readString_written _ cs after)

/-! ## Arrays -/

/-- Items on lines of their own are read up to the closing bracket. -/
theorem readItems_pretty {v : Json} {vs : List Json} (hv : v.ReadsBackFromPage)
    (hvs : ∀ v ∈ vs, ReadsBackFromPage v) (level fuel : Nat) (after : List Char)
    (hfuel : 2 * (pretty (level + 1) v ++ prettyItems level vs).length ≤ fuel) :
    readItems fuel (pretty (level + 1) v ++ prettyItems level vs ++ after) = .ok (v :: vs, after) := by
  induction vs generalizing v fuel with
  | nil =>
      have hpos := hv.length_pos (level + 1)
      rw [List.length_append] at hfuel
      obtain ⟨fuel, rfl⟩ : ∃ k, fuel = k + 1 := ⟨fuel - 1, by omega⟩
      have hread := hv.read (level + 1) fuel (newLine level ++ ']' :: after)
        (by simp only [prettyItems, List.length_append, newLine, List.length_cons] at hfuel; omega)
      have hskip : skipSpace (newLine level ++ ']' :: after) = ']' :: after :=
        skipSpace_newLine level rfl
      have hform : pretty (level + 1) v ++ prettyItems level [] ++ after =
          pretty (level + 1) v ++ (newLine level ++ ']' :: after) := by
        simp [prettyItems]
      rw [hform, readItems, hread]
      dsimp only
      rw [hskip]
      rfl
  | cons w ws ih =>
      have hw := hvs w List.mem_cons_self
      have hpos := hv.length_pos (level + 1)
      have hlen : (pretty (level + 1) w ++ prettyItems level ws).length <
          (prettyItems level (w :: ws)).length := by
        simp only [prettyItems, List.length_append, List.length_cons]
        omega
      rw [List.length_append] at hfuel
      obtain ⟨fuel, rfl⟩ : ∃ k, fuel = k + 1 := ⟨fuel - 1, by omega⟩
      let more := pretty (level + 1) w ++ prettyItems level ws ++ after
      have hread := hv.read (level + 1) fuel (',' :: (newLine (level + 1) ++ more)) (by omega)
      have hskip : skipSpace (newLine (level + 1) ++ more) = more := by
        show skipSpace (newLine (level + 1) ++ (_ ++ _ ++ after)) = _ ++ _ ++ after
        rw [List.append_assoc]
        exact hw.skipSpace_newLine (level + 1) (level + 1) _
      have hform : pretty (level + 1) v ++ prettyItems level (w :: ws) ++ after =
          pretty (level + 1) v ++ ',' :: (newLine (level + 1) ++ more) := by
        simp [prettyItems, more]
      rw [hform]
      refine readItems_comma hread ?_
      rw [hskip]
      exact ih hw (fun u hu => hvs u (List.mem_cons_of_mem _ hu)) fuel (by omega)

theorem isPageChar_prettyItems {vs : List Json} (h : ∀ v ∈ vs, ReadsBackFromPage v) {level : Nat}
    {c : Char} (hc : c ∈ prettyItems level vs) : IsPageChar c := by
  induction vs with
  | nil =>
      rw [prettyItems, List.mem_append, List.mem_singleton] at hc
      rcases hc with hc | rfl
      · exact isPageChar_newLine hc
      · decide
  | cons v vs ih =>
      rw [prettyItems, List.cons_append, List.cons_append, List.mem_cons, List.mem_append,
        List.mem_append] at hc
      rcases hc with rfl | (hc | hc) | hc
      · decide
      · exact isPageChar_newLine hc
      · exact (h v List.mem_cons_self).written _ c hc
      · exact ih (fun u hu => h u (List.mem_cons_of_mem _ hu)) hc

theorem readsBackFromPage_arr {vs : List Json} (h : ∀ v ∈ vs, ReadsBackFromPage v) :
    ReadsBackFromPage (.arr vs) := by
  cases vs with
  | nil =>
      refine ⟨fun level => ⟨'[', _, rfl, by decide, by decide, by decide⟩, fun level c hc => ?_, ?_⟩
      · exact isPageChar_of_all (rfl : "[]".toList.all _ = true) hc
      · intro level fuel after hfuel
        cases fuel with
        | zero => cases hfuel
        | succ fuel => rfl
  | cons v vs =>
      have hv := h v List.mem_cons_self
      have hvs : ∀ v ∈ vs, ReadsBackFromPage v := fun u hu => h u (List.mem_cons_of_mem _ hu)
      refine ⟨fun level => ⟨'[', _, rfl, by decide, by decide, by decide⟩, ?_, ?_⟩
      · intro level c hc
        rw [pretty, List.cons_append, List.cons_append, List.mem_cons, List.mem_append,
          List.mem_append] at hc
        rcases hc with rfl | (hc | hc) | hc
        · decide
        · exact isPageChar_newLine hc
        · exact hv.written _ c hc
        · exact isPageChar_prettyItems hvs hc
      · intro level fuel after hfuel
        obtain ⟨c, rest, hfirst, hspace, hbracket, -⟩ := hv.opening (level + 1)
        have hlen : (pretty (level + 1) v ++ prettyItems level vs).length <
            (pretty level (.arr (v :: vs))).length := by
          simp only [pretty, List.length_append, List.length_cons]
          omega
        obtain ⟨fuel, rfl⟩ : ∃ k, fuel = k + 1 := ⟨fuel - 1, by omega⟩
        have hitems := readItems_pretty hv hvs level fuel after (by omega)
        have hform : pretty level (.arr (v :: vs)) ++ after =
            '[' :: (newLine (level + 1) ++ (pretty (level + 1) v ++ prettyItems level vs ++ after)) := by
          simp [pretty]
        rw [hform, readValue]
        rw [hfirst, List.cons_append, List.cons_append] at hitems ⊢
        rw [skipSpace_newLine _ hspace]
        split
        · next heq =>
            cases heq
            exact absurd rfl hbracket
        · rw [hitems]

/-! ## Objects -/

/-- A member that can be read back: its key is made of characters, and its value reads back. -/
structure MemberReadsBack (m : Text × Json) : Prop where
  key : ∃ cs : List Char, m.1 = cs.map .char
  value : m.2.ReadsBackFromPage

/-- Members on lines of their own, whose keys differ, are read up to the closing brace. -/
theorem readMembers_pretty (before : List (Text × Json)) {m : Text × Json} {ms : List (Text × Json)}
    (hm : MemberReadsBack m) (hms : ∀ m ∈ ms, MemberReadsBack m)
    (hkeys : ((before ++ m :: ms).map (·.1)).Nodup) (level fuel : Nat) (after : List Char)
    (hfuel : 2 * (writeString m.1 ++ (": ".toList ++ (pretty (level + 1) m.2
      ++ prettyMembers level ms))).length ≤ fuel) :
    readMembers fuel before (writeString m.1 ++ (": ".toList ++ (pretty (level + 1) m.2
      ++ (prettyMembers level ms ++ after)))) = .ok (before ++ m :: ms, after) := by
  -- Its key is new among the members from before, so the member goes to the end.
  have hput : putMember m.1 m.2 before = before ++ [m] := by
    refine putMember_of_not_mem (fun hmem => ?_) m.2
    rw [List.map_append, List.map_cons] at hkeys
    exact (List.nodup_append.1 hkeys).2.2 _ hmem _ List.mem_cons_self rfl
  have hpos := hm.value.length_pos (level + 1)
  have hquotes : 2 ≤ (writeString m.1).length := by
    simp only [writeString, List.length_append, List.length_cons, List.length_nil]
    omega
  simp only [List.length_append] at hfuel
  obtain ⟨fuel, rfl⟩ : ∃ k, fuel = k + 1 := ⟨fuel - 1, by omega⟩
  have hread := hm.value.read (level + 1) fuel (prettyMembers level ms ++ after) (by omega)
  have hopening : OpensLine (pretty (level + 1) m.2) := by
    obtain ⟨c, rest, hv, hspace, -⟩ := hm.value.opening (level + 1)
    exact ⟨c, rest, hv, hspace⟩
  cases ms with
  | nil =>
      have hclose : skipSpace (prettyMembers level [] ++ after) = '\x7d' :: after := by
        rw [prettyMembers, List.append_assoc]
        exact skipSpace_newLine level rfl
      rw [readMembers_close hm.key hopening hread hclose, hput]
  | cons next ms =>
      have hnext := hms next List.mem_cons_self
      let more := writeString next.1 ++ (": ".toList ++ (pretty (level + 1) next.2
        ++ (prettyMembers level ms ++ after)))
      have hform : prettyMembers level (next :: ms) ++ after =
          ',' :: (newLine (level + 1) ++ more) := by
        simp [prettyMembers, more]
      have hcomma : skipSpace (prettyMembers level (next :: ms) ++ after) =
          ',' :: (newLine (level + 1) ++ more) := by
        rw [hform]
        exact skipSpace_cons rfl
      have hskip : skipSpace (newLine (level + 1) ++ more) = more :=
        skipSpace_newLine (level + 1) (c := '"') rfl
      have hlen : (writeString next.1 ++ (": ".toList ++ (pretty (level + 1) next.2
          ++ prettyMembers level ms))).length < (prettyMembers level (next :: ms)).length := by
        simp only [prettyMembers, List.length_append, List.length_cons]
        omega
      -- The recursion is on the members to come; those from before grow by this one.
      have hrest := readMembers_pretty (before ++ [m]) hnext
        (fun u hu => hms u (List.mem_cons_of_mem _ hu)) (by rwa [List.append_assoc]) level fuel after
        (by omega)
      rw [readMembers_comma hm.key hopening hread hcomma, hskip, hput]
      rwa [List.append_assoc] at hrest
termination_by ms.length

theorem isPageChar_colon {c : Char} (h : c ∈ ": ".toList) : IsPageChar c := isPageChar_of_all rfl h

theorem isPageChar_prettyMembers {ms : List (Text × Json)} (h : ∀ m ∈ ms, MemberReadsBack m)
    {level : Nat} {c : Char} (hc : c ∈ prettyMembers level ms) : IsPageChar c := by
  induction ms with
  | nil =>
      rw [prettyMembers, List.mem_append, List.mem_singleton] at hc
      rcases hc with hc | rfl
      · exact isPageChar_newLine hc
      · decide
  | cons m ms ih =>
      simp only [prettyMembers, List.cons_append, List.mem_cons, List.mem_append] at hc
      rcases hc with rfl | ((((hc | hc) | hc) | hc) | hc)
      · decide
      · exact isPageChar_newLine hc
      · exact isPageChar_writeString hc
      · exact isPageChar_colon hc
      · exact (h m List.mem_cons_self).value.written _ c hc
      · exact ih (fun u hu => h u (List.mem_cons_of_mem _ hu)) hc

theorem readsBackFromPage_obj {ms : List (Text × Json)} (h : ∀ m ∈ ms, MemberReadsBack m)
    (hkeys : (ms.map (·.1)).Nodup) : ReadsBackFromPage (.obj ms) := by
  cases ms with
  | nil =>
      refine ⟨fun level => ⟨'\x7b', _, rfl, by decide, by decide, by decide⟩, fun level c hc => ?_, ?_⟩
      · exact isPageChar_of_all (rfl : "\x7b\x7d".toList.all _ = true) hc
      · intro level fuel after hfuel
        cases fuel with
        | zero => cases hfuel
        | succ fuel => rfl
  | cons m ms =>
      have hm := h m List.mem_cons_self
      have hms : ∀ m ∈ ms, MemberReadsBack m := fun u hu => h u (List.mem_cons_of_mem _ hu)
      refine ⟨fun level => ⟨'\x7b', _, rfl, by decide, by decide, by decide⟩, ?_, ?_⟩
      · intro level c hc
        simp only [pretty, List.cons_append, List.mem_cons, List.mem_append] at hc
        rcases hc with rfl | ((((hc | hc) | hc) | hc) | hc)
        · decide
        · exact isPageChar_newLine hc
        · exact isPageChar_writeString hc
        · exact isPageChar_colon hc
        · exact hm.value.written _ c hc
        · exact isPageChar_prettyMembers hms hc
      · intro level fuel after hfuel
        have hlen : (writeString m.1 ++ (": ".toList ++ (pretty (level + 1) m.2
            ++ prettyMembers level ms))).length < (pretty level (.obj (m :: ms))).length := by
          simp only [pretty, List.length_append, List.length_cons]
          omega
        obtain ⟨fuel, rfl⟩ : ∃ k, fuel = k + 1 := ⟨fuel - 1, by omega⟩
        have hmembers := readMembers_pretty [] hm hms hkeys level fuel after (by omega)
        let inside := writeString m.1 ++ (": ".toList ++ (pretty (level + 1) m.2
          ++ (prettyMembers level ms ++ after)))
        have hform : pretty level (.obj (m :: ms)) ++ after =
            '\x7b' :: (newLine (level + 1) ++ inside) := by
          simp [pretty, inside]
        have hskip : skipSpace (newLine (level + 1) ++ inside) = inside :=
          skipSpace_newLine (level + 1) (c := '"') rfl
        have hinside : readMembers fuel [] inside = .ok (m :: ms, after) := hmembers
        obtain ⟨tail, hopening⟩ : ∃ tail, inside = '"' :: tail := ⟨_, rfl⟩
        rw [hform, readValue, hskip, hopening]
        rw [hopening] at hinside
        split
        · next heq => cases heq
        · rw [hinside]

/-! ## Whole texts -/

/-- A value that reads back is read from its page. -/
theorem read_pretty {v : Json} (h : v.ReadsBackFromPage) : read (pretty 0 v) = .ok v := by
  obtain ⟨c, rest, hv, hspace, -, hmark⟩ := h.opening 0
  have hread := h.read 0 (2 * (pretty 0 v).length + 2) [] (Nat.le_add_right _ _)
  rw [List.append_nil] at hread
  have hskip : skipSpace (pretty 0 v) = pretty 0 v := by
    rw [hv]
    exact skipSpace_cons hspace
  unfold read
  split
  · next heq =>
      rw [hv] at heq
      cases heq
      exact absurd rfl hmark
  · rw [hskip, hread]
    rfl

end EmbeddedSql.Json
