/-
# What a reader leaves over

A reader leaves over an end of what it was given.  It has one failure that is no problem of form: an integer
with more digits than it takes.  Since each reader is given an end of the text, the digits it complains about
stand in the text one after the other, and there are as many of them as it says.
-/
import Mathlib.Data.List.Infix
import Mathlib.Data.List.TakeWhile
import EmbeddedSql.Json.Parser

namespace EmbeddedSql.Json

/-- Somewhere in the text there are `n` digits in a row, more than an integer may have. -/
def HasLongNumber (n : Nat) (cs : List Char) : Prop :=
  maxIntegerDigits < n ∧ ∃ digits, digits <:+: cs ∧ digits.length = n ∧ ∀ c ∈ digits, isDecimal c = true

theorem HasLongNumber.mono {n : Nat} {cs ds : List Char} (h : HasLongNumber n cs) (hsuffix : cs <:+ ds) :
    HasLongNumber n ds := by
  obtain ⟨hlong, digits, hinfix, hlength, hdecimal⟩ := h
  exact ⟨hlong, digits, hinfix.trans hsuffix.isInfix, hlength, hdecimal⟩

/-- What a reader may come to on a text: it leaves over an end of it, or finds a problem of form, or a number
in it that is too long. -/
inductive Reading.Within {α : Type} (cs : List Char) : Reading α → Prop
  | ok {a : α} {rest : List Char} (hrest : rest <:+ cs) : Within cs (.ok (a, rest))
  | problem (problem : Problem) (remaining : Nat) : Within cs (.error (.at problem remaining))
  | longNumber {n : Nat} (hlong : HasLongNumber n cs) : Within cs (.error (.tooManyDigits n))

namespace Reading.Within

variable {α β : Type} {cs ds : List Char}

theorem mono {r : Reading α} (h : Within cs r) (hsuffix : cs <:+ ds) : Within ds r := by
  cases h with
  | ok hrest => exact .ok (hrest.trans hsuffix)
  | problem problem remaining => exact .problem problem remaining
  | longNumber hlong => exact .longNumber (hlong.mono hsuffix)

/-- A failure is handed on whatever was to be read. -/
theorem error {r : Reading α} {e : Failure} (h : Within cs r) (heq : r = .error e) :
    Within cs (.error e : Reading β) := by
  subst heq
  cases h with
  | problem problem remaining => exact .problem problem remaining
  | longNumber hlong => exact .longNumber hlong

theorem hasLongNumber {r : Reading α} {n : Nat} (h : Within cs r)
    (heq : r = .error (.tooManyDigits n)) : HasLongNumber n cs := by
  subst heq
  cases h with
  | longNumber hlong => exact hlong

theorem suffix {r : Reading α} {a : α} {rest : List Char} (h : Within cs r) (heq : r = .ok (a, rest)) :
    rest <:+ cs := by
  subst heq
  cases h with
  | ok hrest => exact hrest

end Reading.Within

open Reading (Within)

/-! ## Parts of values -/

theorem skipSpace_suffix (cs : List Char) : skipSpace cs <:+ cs := List.dropWhile_suffix _

theorem suffix_of_skipSpace {cs rest : List Char} {c : Char} (h : skipSpace cs = c :: rest) :
    rest <:+ cs :=
  (List.suffix_cons c rest).trans (h ▸ skipSpace_suffix cs)

theorem readEscape_problem {opening : Nat} {cs : List Char} {e : Failure}
    (h : readEscape opening cs = .error e) : ∃ problem remaining, e = .at problem remaining := by
  unfold readEscape at h
  grind

theorem readString_within (opening : Nat) (cs : List Char) : Within cs (readString opening cs) := by
  fun_induction readString opening cs with
  | case1 => exact .problem _ _
  | case2 c rest => exact .ok (List.suffix_cons c rest)
  | case3 c rest _ _ e hescape =>
      obtain ⟨problem, remaining, rfl⟩ := readEscape_problem hescape
      exact .problem problem remaining
  | case4 c rest _ _ p size _ e hrest ih =>
      exact (ih.mono ((List.drop_suffix size rest).trans (List.suffix_cons c rest))).error hrest
  | case5 c rest _ _ p size _ t after hrest ih =>
      exact .ok ((ih.suffix hrest).trans ((List.drop_suffix size rest).trans (List.suffix_cons c rest)))
  | case6 c rest => exact .problem _ _
  | case7 c rest _ _ _ e hrest ih =>
      exact (ih.mono (List.suffix_cons c rest)).error hrest
  | case8 c rest _ _ _ t after hrest ih =>
      exact .ok ((ih.suffix hrest).trans (List.suffix_cons c rest))

theorem readFraction_suffix (cs : List Char) : (readFraction cs).2 <:+ cs := by
  unfold readFraction
  split
  · next rest =>
      dsimp only
      split
      · exact List.suffix_rfl
      · exact (List.drop_suffix _ rest).trans (List.suffix_cons '.' rest)
  · exact List.suffix_rfl

theorem readExponent_suffix (cs : List Char) : (readExponent cs).2 <:+ cs := by
  unfold readExponent
  split
  · exact List.suffix_rfl
  · next e rest =>
      split
      · split
        next negative unsigned hsigned =>
          have hunsigned : unsigned <:+ rest := by
            split at hsigned
            · cases hsigned
              exact List.suffix_cons _ _
            · cases hsigned
              exact List.suffix_cons _ _
            · cases hsigned
              exact List.suffix_rfl
          dsimp only
          split
          · exact List.suffix_rfl
          · exact (List.drop_suffix _ unsigned).trans (hunsigned.trans (List.suffix_cons e rest))
      · exact List.suffix_rfl

theorem readSign_suffix (cs : List Char) : (readSign cs).2 <:+ cs := by
  unfold readSign
  split
  · exact List.suffix_cons _ _
  · exact List.suffix_rfl

theorem readWhole_isPrefix (cs : List Char) : readWhole cs <+: cs := by
  unfold readWhole
  split
  · next rest => exact ⟨rest, rfl⟩
  · exact List.takeWhile_prefix _

theorem isDecimal_of_mem_readWhole {cs : List Char} {c : Char} (h : c ∈ readWhole cs) :
    isDecimal c = true := by
  unfold readWhole at h
  split at h
  · rw [List.mem_singleton.1 h]
    rfl
  · exact List.mem_takeWhile_imp h

theorem readNumber_within (cs : List Char) : Within cs (readNumber cs) := by
  unfold readNumber
  have hunsigned := readSign_suffix cs
  generalize readSign cs = signed at hunsigned
  obtain ⟨negative, unsigned⟩ := signed
  have hrest : ∀ (size : Nat) {exponent rest},
      readExponent (readFraction (unsigned.drop size)).2 = (exponent, rest) → rest <:+ cs := by
    intro size exponent rest h
    have hexponent := readExponent_suffix (readFraction (unsigned.drop size)).2
    rw [h] at hexponent
    exact hexponent.trans ((readFraction_suffix _).trans ((List.drop_suffix _ _).trans hunsigned))
  dsimp only
  split
  · exact .problem _ _
  · split
    · next heq =>
        split
        · next hlong =>
            exact .longNumber ⟨hlong, readWhole unsigned,
              (readWhole_isPrefix unsigned).isInfix.trans hunsigned.isInfix, rfl,
              fun c hc => isDecimal_of_mem_readWhole hc⟩
        · exact .ok (hrest _ heq)
    · next heq _ => exact .ok (hrest _ heq)

/-! ## Values -/

/-- The three readers of values, with the same fuel. -/
structure ReadersWithin (fuel : Nat) : Prop where
  value : ∀ cs, Within cs (readValue fuel cs)
  items : ∀ cs, Within cs (readItems fuel cs)
  members : ∀ before cs, Within cs (readMembers fuel before cs)

theorem ReadersWithin.items_succ {fuel : Nat} (h : ReadersWithin fuel) (cs : List Char) :
    Within cs (readItems (fuel + 1) cs) := by
  have hvalue := h.value cs
  rw [readItems]
  split
  · next e heq => exact hvalue.error heq
  · next item rest heq =>
      have hrest := hvalue.suffix heq
      split
      · next after hclose => exact .ok ((suffix_of_skipSpace hclose).trans hrest)
      · next more hcomma =>
          have hitems := (h.items (skipSpace more)).mono
            ((skipSpace_suffix more).trans ((suffix_of_skipSpace hcomma).trans hrest))
          split
          · next e heq => exact hitems.error heq
          · next items after heq => exact .ok (hitems.suffix heq)
      · exact .problem _ _

theorem ReadersWithin.members_succ {fuel : Nat} (h : ReadersWithin fuel)
    (before : List (Text × Json)) (cs : List Char) :
    Within cs (readMembers (fuel + 1) before cs) := by
  by_cases hopening : ∃ rest, cs = '"' :: rest
  · obtain ⟨rest, rfl⟩ := hopening
    have hkey := (readString_within ('"' :: rest).length rest).mono (List.suffix_cons '"' rest)
    rw [readMembers]
    split
    · next e heq => exact hkey.error heq
    · next key afterKey heq =>
        split
        · next afterColon hcolon =>
            have hvalue := (h.value (skipSpace afterColon)).mono
              ((skipSpace_suffix afterColon).trans ((suffix_of_skipSpace hcolon).trans (hkey.suffix heq)))
            split
            · next e heq => exact hvalue.error heq
            · next value afterValue heq =>
                have hrest := hvalue.suffix heq
                dsimp only
                split
                · next after hclose => exact .ok ((suffix_of_skipSpace hclose).trans hrest)
                · next more hcomma =>
                    exact (h.members _ (skipSpace more)).mono
                      ((skipSpace_suffix more).trans ((suffix_of_skipSpace hcomma).trans hrest))
                · exact .problem _ _
        · exact .problem _ _
  · -- Where no key begins, the reader says so.
    rw [readMembers]
    · exact .problem _ _
    · exact fun rest heq => hopening ⟨rest, heq⟩

theorem ReadersWithin.value_succ {fuel : Nat} (h : ReadersWithin fuel) (cs : List Char) :
    Within cs (readValue (fuel + 1) cs) := by
  rw [readValue.eq_def]
  split
  · next rest _ =>
      have hstring := (readString_within ('"' :: rest).length rest).mono (List.suffix_cons '"' rest)
      split
      · next e heq => exact hstring.error heq
      · next t after heq => exact .ok (hstring.suffix heq)
  · next rest hfuel =>
      cases hfuel
      split
      · next after hclose =>
          exact .ok ((suffix_of_skipSpace hclose).trans (List.suffix_cons '[' rest))
      · have hitems := (h.items (skipSpace rest)).mono
          ((skipSpace_suffix rest).trans (List.suffix_cons '[' rest))
        split
        · next e heq => exact hitems.error heq
        · next items after heq => exact .ok (hitems.suffix heq)
  · next rest hfuel =>
      cases hfuel
      split
      · next after hclose =>
          exact .ok ((suffix_of_skipSpace hclose).trans (List.suffix_cons _ rest))
      · have hmembers := (h.members [] (skipSpace rest)).mono
          ((skipSpace_suffix rest).trans (List.suffix_cons '\x7b' rest))
        split
        · next e heq => exact hmembers.error heq
        · next members after heq => exact .ok (hmembers.suffix heq)
  · split
    · exact .ok (List.drop_suffix _ _)
    · exact readNumber_within _
  · exact .problem _ _

theorem readersWithin (fuel : Nat) : ReadersWithin fuel := by
  induction fuel with
  | zero =>
      refine ⟨fun cs => ?_, fun cs => ?_, fun before cs => ?_⟩
      · rw [readValue]
        exact .problem _ _
      · rw [readItems]
        exact .problem _ _
      · rw [readMembers]
        exact .problem _ _
  | succ fuel ih => exact ⟨ih.value_succ, ih.items_succ, ih.members_succ⟩

/-- Where reading a text stops at an integer with too many digits, the text has these digits. -/
theorem hasLongNumber_of_read {cs : List Char} {n : Nat} (h : read cs = .error (.tooManyDigits n)) :
    HasLongNumber n cs := by
  unfold read at h
  split at h
  · cases h
  · have hvalue := ((readersWithin (2 * cs.length + 2)).value (skipSpace cs)).mono (skipSpace_suffix cs)
    split at h
    · next e heq =>
        cases h
        exact hvalue.hasLongNumber heq
    · split at h
      · cases h
      · cases h

end EmbeddedSql.Json
