/-
# Reading back what was written

A value reads back if its one-line form is read as the value again, whatever comes after it in the text.
Strings of characters do: each character is written as itself, by a short escape or by its units, and
the reader undoes each of these, joining the two units of a higher plane.  Arrays read back if their
items do.

The reader wants at least one character after the digits of an escape, which the closing quote
provides.  Lone surrogates are left out: two of them side by side can be read as one character.
-/
import EmbeddedSql.Json.Parser
import EmbeddedSql.Json.Printer
import EmbeddedSql.Proofs.Fallible

namespace EmbeddedSql.Json

/-! ## Escapes -/

theorem hexValue?_digitChar {d : Nat} (h : d < 16) : hexValue? (Nat.digitChar d) = some d :=
  (by decide : ∀ d : Fin 16, hexValue? (Nat.digitChar d) = some d.val) ⟨d, h⟩

/-- The digits of a unit. -/
def unitDigits (n : Nat) : List Char :=
  [n / 4096 % 16, n / 256 % 16, n / 16 % 16, n % 16].map Nat.digitChar

theorem take_unitDigits (n : Nat) (rest : List Char) :
    (unitDigits n ++ rest).take 4 = unitDigits n := rfl

theorem drop_unitDigits (n : Nat) (rest : List Char) : (unitDigits n ++ rest).drop 4 = rest := rfl

theorem hexNumber?_unitDigits {n : Nat} (h : n < 65536) : hexNumber? (unitDigits n) = some n := by
  have h₁ : n / 4096 % 16 < 16 := Nat.mod_lt _ (by decide)
  have h₂ : n / 256 % 16 < 16 := Nat.mod_lt _ (by decide)
  have h₃ : n / 16 % 16 < 16 := Nat.mod_lt _ (by decide)
  have h₄ : n % 16 < 16 := Nat.mod_lt _ (by decide)
  simp only [unitDigits, hexNumber?, List.map_cons, List.map_nil, List.foldl_cons, List.foldl_nil,
    hexValue?_digitChar h₁, hexValue?_digitChar h₂, hexValue?_digitChar h₃,
    hexValue?_digitChar h₄, Option.bind_some, Option.map_some, Option.some.injEq]
  omega

theorem unit?_unitDigits {n : Nat} (h : n < 65536) {rest : List Char} (hr : rest ≠ []) :
    unit? (unitDigits n ++ rest) = some n := by
  have hlen : 0 < rest.length := List.length_pos_iff.2 hr
  unfold unit?
  rw [if_neg]
  · exact hexNumber?_unitDigits h
  · show ¬ rest.length + 1 + 1 + 1 + 1 < 5
    omega

theorem char_toNat_lt (c : Char) : c.toNat < 0x110000 := by
  have h := c.valid
  rcases h with h | h
  · exact Nat.lt_trans h (by decide)
  · exact h.2

theorem char_not_surrogate (c : Char) : ¬ (0xD800 ≤ c.toNat ∧ c.toNat < 0xE000) := by
  have h := c.valid
  rintro ⟨h₁, h₂⟩
  rcases h with h | h
  · exact absurd h₁ (Nat.not_le.2 h)
  · exact absurd h₂ (Nat.not_lt.2 (Nat.succ_le_of_lt h.1))

theorem ofNat_toNat (c : Char) : CodePoint.ofNat c.toNat = .char c := by
  rw [CodePoint.ofNat, dif_neg (char_not_surrogate c), Char.ofNat_toNat]

/-- A character of the first plane by its unit. -/
theorem readEscape_unit (opening : Nat) {c : Char} (h : c.toNat < 65536) {rest : List Char}
    (hr : rest ≠ []) : readEscape opening ('u' :: unitDigits c.toNat ++ rest) = .ok (.char c, 5) := by
  rw [List.cons_append, readEscape, unit?_unitDigits h hr]
  dsimp only
  rw [ofNat_toNat]
  split
  · rw [if_neg]
    rintro ⟨hp, -⟩
    cases hp
  · rfl

theorem ofNat_high {k : Nat} (h : k < 1024) :
    CodePoint.ofNat (0xD800 + k) = .surrogate ⟨k, Nat.lt_trans h (by decide)⟩ := by
  rw [CodePoint.ofNat, dif_pos (by omega)]
  exact congrArg CodePoint.surrogate (Fin.ext (Nat.add_sub_cancel_left _ _))

/-- A character of a higher plane by its two units. -/
theorem readEscape_pair (opening : Nat) {c : Char} (h : 65536 ≤ c.toNat) {rest : List Char}
    (hr : rest ≠ []) :
    readEscape opening ('u' :: unitDigits (0xD800 + (c.toNat - 0x10000) / 1024)
        ++ '\\' :: 'u' :: (unitDigits (0xDC00 + (c.toNat - 0x10000) % 1024) ++ rest)) =
      .ok (.char c, 11) := by
  have hc := char_toNat_lt c
  have hlen : 0 < rest.length := List.length_pos_iff.2 hr
  generalize hhigh : (c.toNat - 0x10000) / 1024 = high
  generalize hlow : (c.toNat - 0x10000) % 1024 = low
  have hh : high < 1024 := by omega
  have hl : low < 1024 := by omega
  have hsum : 0x10000 + (0xD800 + high - 0xD800) * 1024 + (0xDC00 + low - 0xDC00) = c.toNat := by
    omega
  rw [List.cons_append, readEscape, unit?_unitDigits (by omega) (by simp)]
  dsimp only
  rw [drop_unitDigits, ofNat_high hh]
  split
  · next more heq =>
      cases heq
      rw [if_pos]
      · rw [take_unitDigits, hexNumber?_unitDigits (by omega)]
        dsimp only
        rw [if_pos (by omega), hsum, ofNat_toNat]
      · refine ⟨decide_eq_true hh, ?_⟩
        show 4 < rest.length + 1 + 1 + 1 + 1
        omega
  · next hne => exact absurd rfl (hne _)

/-! ## What is written -/

/-- The printable characters of ASCII. -/
def IsPrintable (c : Char) : Prop := 0x20 ≤ c.toNat ∧ c.toNat ≤ 0x7E

instance (c : Char) : Decidable (IsPrintable c) := inferInstanceAs (Decidable (_ ∧ _))

theorem isPrintable_of_all {cs : List Char} (h : cs.all (IsPrintable ·) = true) {c : Char} (hc : c ∈ cs) :
    IsPrintable c := of_decide_eq_true (List.all_eq_true.1 h c hc)

theorem isPrintable_digitChar (n : Nat) : IsPrintable (Nat.digitChar (n % 16)) :=
  (by decide : ∀ d : Fin 16, IsPrintable (Nat.digitChar d.val)) ⟨n % 16, Nat.mod_lt n (by decide)⟩

theorem isPrintable_unitEscape {n : Nat} {c : Char} (h : c ∈ unitEscape n) : IsPrintable c := by
  simp only [unitEscape, List.map_cons, List.map_nil, List.mem_cons, List.not_mem_nil, or_false] at h
  rcases h with rfl | rfl | rfl | rfl | rfl | rfl
  · decide
  · decide
  all_goals exact isPrintable_digitChar _

theorem isPrintable_escapeChar {c d : Char} (h : d ∈ escapeChar c) : IsPrintable d := by
  have hshort : ∀ e, IsPrintable e → d ∈ ['\\', e] → IsPrintable d := by
    intro e he hd
    rcases List.mem_cons.1 hd with rfl | hd
    · decide
    · rw [List.mem_singleton.1 hd]
      exact he
  unfold escapeChar at h
  split at h
  · exact hshort _ (by decide) h
  · exact hshort _ (by decide) h
  · exact hshort _ (by decide) h
  · exact hshort _ (by decide) h
  · exact hshort _ (by decide) h
  · exact hshort _ (by decide) h
  · exact hshort _ (by decide) h
  · dsimp only at h
    split at h
    · next hprintable =>
        rw [List.mem_singleton.1 h]
        exact hprintable
    · split at h
      · exact isPrintable_unitEscape h
      · rcases List.mem_append.1 h with h | h <;> exact isPrintable_unitEscape h

theorem isPrintable_writeString {t : Text} {c : Char} (h : c ∈ writeString t) : IsPrintable c := by
  rw [writeString, List.cons_append, List.mem_cons, List.mem_append, List.mem_singleton,
    List.mem_flatMap] at h
  rcases h with rfl | ⟨p, -, hc⟩ | rfl
  · decide
  · cases p with
    | char d => exact isPrintable_escapeChar hc
    | surrogate offset => exact isPrintable_unitEscape hc
  · decide

/-! ## Strings -/

/-- What reading gives with one character more. -/
def consChar (c : Char) (r : Text × List Char) : Text × List Char := (.char c :: r.1, r.2)

theorem readString_escaped (opening : Nat) {c : Char} (cs : List Char) {rest : List Char} {size : Nat}
    (h : readEscape opening (cs ++ rest) = .ok (.char c, size)) (hs : size = cs.length) :
    readString opening ('\\' :: (cs ++ rest)) = (readString opening rest).map (consChar c) := by
  rw [readString, if_neg (by decide), if_pos (by decide), h]
  dsimp only
  rw [hs, List.drop_left]
  cases readString opening rest <;> rfl

/-- The reader undoes the escape of a character. -/
theorem readString_escapeChar (opening : Nat) (c : Char) {rest : List Char} (hr : rest ≠ []) :
    readString opening (escapeChar c ++ rest) = (readString opening rest).map (consChar c) := by
  unfold escapeChar
  split
  · exact readString_escaped opening ['"'] rfl rfl
  · exact readString_escaped opening ['\\'] rfl rfl
  · exact readString_escaped opening ['n'] rfl rfl
  · exact readString_escaped opening ['r'] rfl rfl
  · exact readString_escaped opening ['t'] rfl rfl
  · exact readString_escaped opening ['b'] rfl rfl
  · exact readString_escaped opening ['f'] rfl rfl
  · next hquote hslash _ _ _ _ _ =>
      dsimp only
      split
      · next hplain =>
          rw [List.singleton_append, readString, if_neg (by simpa using hquote),
            if_neg (by simpa using hslash), if_neg (by omega)]
          cases readString opening rest <;> rfl
      · split
        · next hunit =>
            exact readString_escaped opening ('u' :: unitDigits c.toNat)
              (readEscape_unit opening hunit hr) rfl
        · next hpair =>
            refine readString_escaped (c := c) opening
              ('u' :: unitDigits (0xD800 + (c.toNat - 0x10000) / 1024)
                ++ '\\' :: 'u' :: unitDigits (0xDC00 + (c.toNat - 0x10000) % 1024)) ?_ rfl
            rw [List.append_assoc]
            exact readEscape_pair opening (Nat.not_lt.1 hpair) hr

theorem readString_written (opening : Nat) (cs after : List Char) :
    readString opening ((cs.map .char).flatMap escape ++ '"' :: after) =
      .ok (cs.map .char, after) := by
  induction cs with
  | nil => rw [List.map_nil, List.flatMap_nil, List.nil_append, readString, if_pos (by decide)]
  | cons c cs ih =>
      rw [List.map_cons, List.flatMap_cons, List.append_assoc]
      show readString opening (escapeChar c ++ _) = _
      rw [readString_escapeChar opening c (by simp), ih]
      rfl

/-! ## Values -/

/-- What can come after a value: the end of the text, or of an item. -/
def Ends (after : List Char) : Prop := ∀ c ∈ after.head?, c = ',' ∨ c = ']' ∨ c = '\x7d'

/-- The one-line form of a value is read as the value, and begins like no space or bracket. -/
structure ReadsBack (v : Json) : Prop where
  opening : ∃ c rest, compact v = c :: rest ∧ isSpace c = false ∧ c ≠ ']' ∧ c ≠ '\uFEFF'
  read : ∀ fuel after, 2 * (compact v).length ≤ fuel → Ends after →
    readValue fuel (compact v ++ after) = .ok (v, after)

theorem skipSpace_cons {c : Char} {rest : List Char} (h : isSpace c = false) :
    skipSpace (c :: rest) = c :: rest := by
  rw [skipSpace, List.dropWhile_cons_of_neg (by simp [h])]

theorem readValue_quote {fuel : Nat} {rest after : List Char} {t : Text}
    (h : readString ('"' :: rest).length rest = .ok (t, after)) :
    readValue (fuel + 1) ('"' :: rest) = .ok (.str t, after) := by
  rw [readValue, h]

theorem readItems_comma {fuel : Nat} {cs more after : List Char} {v : Json} {items : List Json}
    (hv : readValue fuel cs = .ok (v, ',' :: more))
    (hitems : readItems fuel (skipSpace more) = .ok (items, after)) :
    readItems (fuel + 1) cs = .ok (v :: items, after) := by
  have hskip : skipSpace (',' :: more) = ',' :: more := skipSpace_cons rfl
  rw [readItems, hv]
  dsimp only
  rw [hskip]
  simp only [hitems]

/-- A value without parts takes one of the fuel. -/
theorem readsBack_of_succ {v : Json} {c : Char} {rest : List Char} (hv : compact v = c :: rest)
    (hopening : isSpace c = false ∧ c ≠ ']' ∧ c ≠ '\uFEFF')
    (hread : ∀ fuel after, Ends after → readValue (fuel + 1) (compact v ++ after) = .ok (v, after)) :
    ReadsBack v where
  opening := ⟨c, rest, hv, hopening⟩
  read := by
    intro fuel after hfuel ha
    rw [hv, List.length_cons] at hfuel
    obtain ⟨fuel, rfl⟩ : ∃ k, fuel = k + 1 := ⟨fuel - 1, by omega⟩
    exact hread fuel after ha

theorem readsBack_str {t : Text} {cs : List Char} (h : t = cs.map .char) : ReadsBack (.str t) := by
  refine readsBack_of_succ rfl (by decide) fun fuel after _ => ?_
  show readValue (fuel + 1) ('"' :: t.flatMap escape ++ ['"'] ++ after) = _
  rw [List.append_assoc, List.cons_append, h]
  exact readValue_quote (readString_written _ cs after)

theorem length_compact_pos {v : Json} (h : ReadsBack v) : 0 < (compact v).length := by
  obtain ⟨c, rest, hv, -⟩ := h.opening
  rw [hv]
  exact Nat.succ_pos _

/-- Items that read back are read up to the closing bracket. -/
theorem readItems_compact {v : Json} {vs : List Json} (hv : ReadsBack v)
    (hvs : ∀ v ∈ vs, ReadsBack v) (fuel : Nat) (after : List Char)
    (hfuel : 2 * (compact v ++ compactItems vs).length ≤ fuel) :
    readItems fuel (compact v ++ compactItems vs ++ after) = .ok (v :: vs, after) := by
  induction vs generalizing v fuel with
  | nil =>
      have hpos := length_compact_pos hv
      rw [List.length_append] at hfuel
      obtain ⟨fuel, rfl⟩ : ∃ k, fuel = k + 1 := ⟨fuel - 1, by omega⟩
      have hread := hv.read fuel (']' :: after) (by simp [compactItems] at hfuel; omega)
        (by rintro c ⟨⟩; exact .inr (.inl rfl))
      rw [List.append_assoc]
      show readItems (fuel + 1) (compact v ++ ']' :: after) = _
      rw [readItems, hread]
      rfl
  | cons w ws ih =>
      obtain ⟨c, rest, hw, hspace, -⟩ := (hvs w List.mem_cons_self).opening
      have hpos := length_compact_pos hv
      have hlen : (compactItems (w :: ws)).length = (compact w ++ compactItems ws).length + 2 := by
        show (", ".toList ++ compact w ++ compactItems ws).length = _
        simp [List.length_append]
      rw [List.length_append, hlen] at hfuel
      obtain ⟨fuel, rfl⟩ : ∃ k, fuel = k + 1 := ⟨fuel - 1, by omega⟩
      have hread := hv.read fuel (',' :: ' ' :: (compact w ++ compactItems ws ++ after)) (by omega)
        (by rintro c ⟨⟩; exact .inl rfl)
      have hskip : skipSpace (' ' :: (compact w ++ compactItems ws ++ after)) =
          compact w ++ compactItems ws ++ after := by
        rw [hw]
        exact skipSpace_cons hspace
      have hitems := ih (hvs w List.mem_cons_self) (fun u hu => hvs u (List.mem_cons_of_mem _ hu))
        fuel (by omega)
      rw [List.append_assoc]
      show readItems (fuel + 1) (compact v ++ ',' :: ' ' :: (compact w ++ compactItems ws ++ after))
        = _
      refine readItems_comma hread ?_
      rw [hskip, hitems]

theorem readsBack_arr {vs : List Json} (h : ∀ v ∈ vs, ReadsBack v) : ReadsBack (.arr vs) := by
  cases vs with
  | nil =>
      refine ⟨⟨'[', _, rfl, by decide, by decide, by decide⟩, ?_⟩
      intro fuel after hfuel hends
      cases fuel with
      | zero => cases hfuel
      | succ fuel => rfl
  | cons v vs =>
      refine ⟨⟨'[', _, rfl, by decide, by decide, by decide⟩, ?_⟩
      intro fuel after hfuel hends
      obtain ⟨c, rest, hv, hspace, hbracket, -⟩ := (h v List.mem_cons_self).opening
      have hlen : (compact (.arr (v :: vs))).length = (compact v ++ compactItems vs).length + 1 := rfl
      rw [hlen] at hfuel
      obtain ⟨fuel, rfl⟩ : ∃ k, fuel = k + 1 := ⟨fuel - 1, by omega⟩
      have hitems := readItems_compact (h v List.mem_cons_self)
        (fun u hu => h u (List.mem_cons_of_mem _ hu)) fuel after (by omega)
      show readValue (fuel + 1) ('[' :: (compact v ++ compactItems vs ++ after)) = _
      rw [hv] at hitems ⊢
      rw [readValue, List.cons_append, List.cons_append, skipSpace_cons hspace]
      split
      · next heq =>
          cases heq
          exact absurd rfl hbracket
      · rw [← List.cons_append, ← List.cons_append, hitems]

/-! ## Members -/

theorem putMember_of_not_mem {key : Text} {members : List (Text × Json)}
    (h : key ∉ members.map (·.1)) (value : Json) :
    putMember key value members = members ++ [(key, value)] := by
  induction members with
  | nil => rfl
  | cons m rest ih =>
      obtain ⟨k, v⟩ := m
      rw [List.map_cons, List.mem_cons, not_or] at h
      rw [putMember, if_neg (Ne.symm h.1), ih h.2]
      rfl

/-- What is written of a value does not begin with space. -/
def OpensLine (written : List Char) : Prop := ∃ c rest, written = c :: rest ∧ isSpace c = false

/-- Once a member has been read, what comes behind it decides. -/
theorem readMembers_step {fuel : Nat} {before : List (Text × Json)} {key : Text}
    (hkey : ∃ cs : List Char, key = cs.map .char) {value : Json} {written rest : List Char}
    (hopening : OpensLine written) (hread : readValue fuel (written ++ rest) = .ok (value, rest))
    {outcome : Reading (List (Text × Json))}
    (hrest : (match skipSpace rest with
      | '\x7d' :: after => .ok (putMember key value before, after)
      | ',' :: more => readMembers fuel (putMember key value before) (skipSpace more)
      | other => fail .expectingComma other) = outcome) :
    readMembers (fuel + 1) before (writeString key ++ (": ".toList ++ (written ++ rest))) = outcome := by
  obtain ⟨cs, hchars⟩ := hkey
  obtain ⟨c, tail, hfirst, hspace⟩ := hopening
  have hstring : ∀ opening, readString opening
      (key.flatMap escape ++ '"' :: (": ".toList ++ (written ++ rest))) =
        .ok (key, ": ".toList ++ (written ++ rest)) := by
    intro opening
    rw [hchars]
    exact readString_written opening cs _
  have hcolon : skipSpace (": ".toList ++ (written ++ rest)) = ':' :: ' ' :: (written ++ rest) :=
    skipSpace_cons rfl
  have hskip : skipSpace (' ' :: (written ++ rest)) = written ++ rest := by
    rw [hfirst]
    exact skipSpace_cons hspace
  have hform : writeString key ++ (": ".toList ++ (written ++ rest)) =
      '"' :: (key.flatMap escape ++ '"' :: (": ".toList ++ (written ++ rest))) := by
    simp [writeString]
  rw [hform, readMembers, hstring]
  simp only [hcolon, hskip, hread]
  exact hrest

section Ending

variable {fuel : Nat} {before : List (Text × Json)} {m : Text × Json} {written rest : List Char}

theorem readMembers_close (hkey : ∃ cs : List Char, m.1 = cs.map .char) (hopening : OpensLine written)
    (hread : readValue fuel (written ++ rest) = .ok (m.2, rest)) {after : List Char}
    (hrest : skipSpace rest = '\x7d' :: after) :
    readMembers (fuel + 1) before (writeString m.1 ++ (": ".toList ++ (written ++ rest))) =
      .ok (putMember m.1 m.2 before, after) := by
  refine readMembers_step hkey hopening hread ?_
  rw [hrest]
  rfl

theorem readMembers_comma (hkey : ∃ cs : List Char, m.1 = cs.map .char) (hopening : OpensLine written)
    (hread : readValue fuel (written ++ rest) = .ok (m.2, rest)) {more : List Char}
    (hrest : skipSpace rest = ',' :: more) :
    readMembers (fuel + 1) before (writeString m.1 ++ (": ".toList ++ (written ++ rest))) =
      readMembers fuel (putMember m.1 m.2 before) (skipSpace more) := by
  refine readMembers_step hkey hopening hread ?_
  rw [hrest]
  rfl

end Ending

/-! ## Whole texts -/

/-- A value that reads back is read from its one-line form. -/
theorem read_compact {v : Json} (h : ReadsBack v) : read (compact v) = .ok v := by
  obtain ⟨c, rest, hv, hspace, -, hmark⟩ := h.opening
  have hread := h.read (2 * (compact v).length + 2) [] (Nat.le_add_right _ _)
    (by rintro c ⟨⟩)
  rw [List.append_nil] at hread
  unfold read
  split
  · next heq =>
      rw [hv] at heq
      cases heq
      exact absurd rfl hmark
  · have hskip : skipSpace (compact v) = compact v := by
      rw [hv]
      exact skipSpace_cons hspace
    rw [hskip, hread]
    rfl

end EmbeddedSql.Json
