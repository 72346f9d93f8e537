/-
# Reading back lines

What can be written at all is read back from its one-line form: an object whose keys differ, an integer
with no more digits than a number may have, a text without lone surrogates, and whatever is made of these.
The one-line form consists of printable characters, so it is one line.
-/
import EmbeddedSql.Proofs.Json.Numbers

namespace EmbeddedSql.Json

/-- The values that can be written and hold no lone surrogate. -/
inductive IsWritable : Json → Prop
  | null : IsWritable .null
  | bool (b : Bool) : IsWritable (.bool b)
  | int {n : Int} (hsize : n.natAbs < 10 ^ maxIntegerDigits) : IsWritable (.int n)
  | float {x : Binary64} (hvalue : x.IsValue) : IsWritable (.float x)
  | str (cs : List Char) : IsWritable (.str (cs.map .char))
  | arr {items : List Json} (hitems : ∀ v ∈ items, IsWritable v) : IsWritable (.arr items)
  | obj {members : List (Text × Json)} (hkeys : (members.map (·.1)).Nodup)
      (hchars : ∀ m ∈ members, ∃ cs : List Char, m.1 = cs.map .char)
      (hvalues : ∀ m ∈ members, IsWritable m.2) : IsWritable (.obj members)

theorem isWritable_ofString (s : String) : IsWritable (.ofString s) := .str s.toList

theorem isWritable_ofOption {α : Type} {f : α → Json} (h : ∀ a, IsWritable (f a)) (o : Option α) :
    IsWritable (.ofOption f o) := by
  cases o with
  | none => exact .null
  | some a => exact h a

/-! ## Objects -/

/-- A member of a line that can be read back. -/
structure MemberReadsBackFromLine (m : Text × Json) : Prop where
  key : ∃ cs : List Char, m.1 = cs.map .char
  value : m.2.ReadsBack

theorem ReadsBack.opensLine {v : Json} (h : v.ReadsBack) : OpensLine (compact v) := by
  obtain ⟨c, rest, hv, hspace, -⟩ := h.opening
  exact ⟨c, rest, hv, hspace⟩

theorem ends_compactMembers (members : List (Text × Json)) (after : List Char) :
    Ends (compactMembers members ++ after) := by
  cases members with
  | nil =>
      rintro c ⟨⟩
      exact .inr (.inr rfl)
  | cons m members =>
      rintro c ⟨⟩
      exact .inl rfl

/-- Members on one line, whose keys differ, are read up to the closing brace. -/
theorem readMembers_compact (before : List (Text × Json)) {m : Text × Json} {ms : List (Text × Json)}
    (hm : MemberReadsBackFromLine m) (hms : ∀ m ∈ ms, MemberReadsBackFromLine m)
    (hkeys : ((before ++ m :: ms).map (·.1)).Nodup) (fuel : Nat) (after : List Char)
    (hfuel : 2 * (writeString m.1 ++ (": ".toList ++ (compact m.2 ++ compactMembers ms))).length ≤ fuel) :
    readMembers fuel before (writeString m.1 ++ (": ".toList ++ (compact m.2
      ++ (compactMembers ms ++ after)))) = .ok (before ++ m :: ms, after) := by
  -- Its key is new among the members from before, so the member goes to the end.
  have hput : putMember m.1 m.2 before = before ++ [m] := by
    refine putMember_of_not_mem (fun hmem => ?_) m.2
    rw [List.map_append, List.map_cons] at hkeys
    exact (List.nodup_append.1 hkeys).2.2 _ hmem _ List.mem_cons_self rfl
  have hpos := length_compact_pos hm.value
  have hquotes : 2 ≤ (writeString m.1).length := by
    simp only [writeString, List.length_append, List.length_cons, List.length_nil]
    omega
  simp only [List.length_append] at hfuel
  obtain ⟨fuel, rfl⟩ : ∃ k, fuel = k + 1 := ⟨fuel - 1, by omega⟩
  have hread := hm.value.read fuel (compactMembers ms ++ after) (by omega) (ends_compactMembers ms after)
  cases ms with
  | nil =>
      have hclose : skipSpace (compactMembers [] ++ after) = '\x7d' :: after := skipSpace_cons rfl
      rw [readMembers_close hm.key hm.value.opensLine hread hclose, hput]
  | cons next ms =>
      have hnext := hms next List.mem_cons_self
      let more := writeString next.1 ++ (": ".toList ++ (compact next.2 ++ (compactMembers ms ++ after)))
      have hform : compactMembers (next :: ms) ++ after = ',' :: ' ' :: more := by
        simp [compactMembers, more]
      have hcomma : skipSpace (compactMembers (next :: ms) ++ after) = ',' :: ' ' :: more := by
        rw [hform]
        exact skipSpace_cons rfl
      have hskip : skipSpace (' ' :: more) = more := skipSpace_cons (c := '"') rfl
      have hlen : (writeString next.1 ++ (": ".toList ++ (compact next.2
          ++ compactMembers ms))).length < (compactMembers (next :: ms)).length := by
        have hseparator : 0 < ", ".toList.length := by decide
        simp only [compactMembers, List.length_append]
        omega
      -- The recursion is on the members to come; those from before grow by this one.
      have hrest := readMembers_compact (before ++ [m]) hnext
        (fun u hu => hms u (List.mem_cons_of_mem _ hu)) (by rwa [List.append_assoc]) fuel after (by omega)
      rw [readMembers_comma hm.key hm.value.opensLine hread hcomma, hskip, hput]
      rwa [List.append_assoc] at hrest
termination_by ms.length

theorem readsBack_obj {ms : List (Text × Json)} (h : ∀ m ∈ ms, MemberReadsBackFromLine m)
    (hkeys : (ms.map (·.1)).Nodup) : ReadsBack (.obj ms) := by
  cases ms with
  | nil => exact readsBack_of_succ rfl (by decide) fun _ _ _ => rfl
  | cons m ms =>
      have hm := h m List.mem_cons_self
      have hms : ∀ m ∈ ms, MemberReadsBackFromLine m := fun u hu => h u (List.mem_cons_of_mem _ hu)
      refine ⟨⟨'\x7b', _, rfl, by decide, by decide, by decide⟩, fun fuel after hfuel _ => ?_⟩
      have hlen : (writeString m.1 ++ (": ".toList ++ (compact m.2 ++ compactMembers ms))).length <
          (compact (.obj (m :: ms))).length := by
        simp only [compact, List.length_append, List.length_cons]
        omega
      obtain ⟨fuel, rfl⟩ : ∃ k, fuel = k + 1 := ⟨fuel - 1, by omega⟩
      let inside := writeString m.1 ++ (": ".toList ++ (compact m.2 ++ (compactMembers ms ++ after)))
      have hinside : readMembers fuel [] inside = .ok (m :: ms, after) :=
        readMembers_compact [] hm hms hkeys fuel after (by omega)
      have hform : compact (.obj (m :: ms)) ++ after = '\x7b' :: inside := by
        simp [compact, inside]
      have hskip : skipSpace inside = inside := skipSpace_cons (c := '"') rfl
      obtain ⟨tail, hopening⟩ : ∃ tail, inside = '"' :: tail := ⟨_, rfl⟩
      rw [hform, readValue, hskip, hopening]
      rw [hopening] at hinside
      split
      · next heq => cases heq
      · rw [hinside]

/-- Whatever can be written is read back. -/
theorem IsWritable.readsBack {v : Json} (h : IsWritable v) : ReadsBack v := by
  induction h with
  | null => exact readsBack_null
  | bool b => exact readsBack_bool b
  | int hsize => exact readsBack_int hsize
  | float hvalue => exact readsBack_float hvalue
  | str cs => exact readsBack_str rfl
  | arr _ ih => exact readsBack_arr ih
  | obj hkeys hchars _ ih => exact readsBack_obj (fun m hm => ⟨hchars m hm, ih m hm⟩) hkeys

/-! ## What lines are made of -/

theorem isPrintable_of_isDecimal {c : Char} (h : isDecimal c = true) : IsPrintable c := by
  simp only [isDecimal, Bool.and_eq_true, decide_eq_true_eq, Char.le_def, UInt32.le_iff_toNat_le] at h
  have hlow : 48 ≤ c.toNat := h.1
  have hhigh : c.toNat ≤ 57 := h.2
  exact ⟨by omega, by omega⟩

theorem isPrintable_signOf {negative : Bool} {c : Char} (h : c ∈ signOf negative) : IsPrintable c := by
  cases negative with
  | false => cases h
  | true =>
      rw [List.mem_singleton.1 h]
      decide

theorem isPrintable_layout {digits : List Char} (hne : digits ≠ []) (hd : AreDigits digits)
    (hz : digits.head? ≠ some '0') {point : Int} {c : Char} (hc : c ∈ Binary64.layout digits point) :
    IsPrintable c := by
  by_cases h : point ≤ -4 ∨ 16 < point
  · obtain ⟨d, fraction, rfl⟩ := List.exists_cons_of_ne_nil hne
    rw [layout_exponent h] at hc
    simp only [List.mem_append, List.mem_cons, List.not_mem_nil, or_false] at hc
    rcases hc with rfl | hc | rfl | rfl | hc
    · exact isPrintable_of_isDecimal (hd c List.mem_cons_self)
    · unfold pointed at hc
      split at hc
      · cases hc
      · rcases List.mem_cons.1 hc with rfl | hc
        · decide
        · exact isPrintable_of_isDecimal (hd c (List.mem_cons_of_mem _ hc))
    · decide
    · split <;> decide
    · exact isPrintable_of_isDecimal (areDigits_exponentDigits _ c hc)
  · obtain ⟨whole, fraction, haround⟩ := exists_around hne hd hz h
    rw [haround.eq, List.mem_append, List.mem_cons] at hc
    rcases hc with hc | rfl | hc
    · exact isPrintable_of_isDecimal (haround.isWhole.digits c hc)
    · decide
    · exact isPrintable_of_isDecimal (haround.digits c hc)

theorem isPrintable_render {x : Binary64} (hx : x.IsValue) {c : Char} (hc : c ∈ x.render) : IsPrintable c := by
  cases x with
  | finite negative m e =>
      rcases hx with ⟨rfl, rfl⟩ | hfits
      · cases negative with
        | false => exact isPrintable_of_all (rfl : "0.0".toList.all _ = true) hc
        | true => exact isPrintable_of_all (rfl : "-0.0".toList.all _ = true) hc
      · obtain ⟨digits, point, hrender, hne, hd, hz, -⟩ := exists_layout hfits negative
        rw [hrender, List.mem_append] at hc
        rcases hc with hc | hc
        · exact isPrintable_signOf hc
        · exact isPrintable_layout hne hd hz hc
  | infinite negative =>
      cases negative with
      | false => exact isPrintable_of_all (rfl : "Infinity".toList.all _ = true) hc
      | true => exact isPrintable_of_all (rfl : "-Infinity".toList.all _ = true) hc
  | nan => exact isPrintable_of_all (rfl : "NaN".toList.all _ = true) hc

theorem isPrintable_compactItems {vs : List Json} (h : ∀ v ∈ vs, ∀ c ∈ compact v, IsPrintable c) {c : Char}
    (hc : c ∈ compactItems vs) : IsPrintable c := by
  induction vs with
  | nil =>
      rw [List.mem_singleton.1 hc]
      decide
  | cons v vs ih =>
      rw [compactItems, List.mem_append, List.mem_append] at hc
      rcases hc with (hc | hc) | hc
      · exact isPrintable_of_all (rfl : ", ".toList.all _ = true) hc
      · exact h v List.mem_cons_self c hc
      · exact ih (fun u hu => h u (List.mem_cons_of_mem _ hu)) hc

theorem isPrintable_compactMembers {ms : List (Text × Json)} (h : ∀ m ∈ ms, ∀ c ∈ compact m.2, IsPrintable c)
    {c : Char} (hc : c ∈ compactMembers ms) : IsPrintable c := by
  induction ms with
  | nil =>
      rw [List.mem_singleton.1 hc]
      decide
  | cons m ms ih =>
      rw [compactMembers, List.mem_append, List.mem_append, List.mem_append, List.mem_append] at hc
      rcases hc with (((hc | hc) | hc) | hc) | hc
      · exact isPrintable_of_all (rfl : ", ".toList.all _ = true) hc
      · exact isPrintable_writeString hc
      · exact isPrintable_of_all (rfl : ": ".toList.all _ = true) hc
      · exact h m List.mem_cons_self c hc
      · exact ih (fun u hu => h u (List.mem_cons_of_mem _ hu)) hc

/-- What is written on one line is printable. -/
theorem IsWritable.isPrintable {v : Json} (h : IsWritable v) : ∀ c ∈ compact v, IsPrintable c := by
  induction h with
  | null => exact fun c hc => isPrintable_of_all (rfl : "null".toList.all _ = true) hc
  | bool b =>
      intro c hc
      cases b with
      | false => exact isPrintable_of_all (rfl : "false".toList.all _ = true) hc
      | true => exact isPrintable_of_all (rfl : "true".toList.all _ = true) hc
  | int hsize =>
      rename_i n
      intro c hc
      have hwritten : c ∈ signOf (decide (n < 0)) ++ Nat.toDigits 10 n.natAbs := writeInt_eq n ▸ hc
      rcases List.mem_append.1 hwritten with hc | hc
      · exact isPrintable_signOf hc
      · exact isPrintable_of_isDecimal (areDigits_toDigits _ c hc)
  | float hvalue => exact fun c hc => isPrintable_render hvalue hc
  | str cs => exact fun c hc => isPrintable_writeString hc
  | @arr items _ ih =>
      intro c hc
      cases items with
      | nil => exact isPrintable_of_all (rfl : "[]".toList.all _ = true) hc
      | cons v vs =>
          rw [compact, List.cons_append, List.mem_cons, List.mem_append] at hc
          rcases hc with rfl | hc | hc
          · decide
          · exact ih v List.mem_cons_self c hc
          · exact isPrintable_compactItems (fun u hu => ih u (List.mem_cons_of_mem _ hu)) hc
  | @obj members _ _ _ ih =>
      intro c hc
      cases members with
      | nil => exact isPrintable_of_all (rfl : "\x7b\x7d".toList.all _ = true) hc
      | cons m ms =>
          simp only [compact, List.cons_append, List.mem_cons, List.mem_append] at hc
          rcases hc with rfl | ((hc | hc) | hc) | hc
          · decide
          · exact isPrintable_writeString hc
          · exact isPrintable_of_all (rfl : ": ".toList.all _ = true) hc
          · exact ih m List.mem_cons_self c hc
          · exact isPrintable_compactMembers (fun u hu => ih u (List.mem_cons_of_mem _ hu)) hc

/-- What is written on one line is one line. -/
theorem IsWritable.newline_not_mem {v : Json} (h : IsWritable v) : '\n' ∉ compact v :=
  fun hc => absurd (h.isPrintable '\n' hc) (by decide)

end EmbeddedSql.Json
