/-
# Text with lone surrogates

A string literal may name half of a surrogate pair, and each escape of a literal stands for one
code point of its own: two halves side by side stay two.  The texts a literal denotes are therefore
lists of *code points*, where a code point is a character or a lone surrogate.  Source text and
everything read from files are ordinary strings; `Text.ofString` embeds them.
-/
namespace EmbeddedSql

/-- A Unicode code point: a character, or the surrogate `0xD800 + offset`. -/
inductive CodePoint where
  | char (c : Char)
  | surrogate (offset : Fin 2048)
deriving DecidableEq, Repr, Inhabited

namespace CodePoint

/-- The number of a code point. -/
def val : CodePoint → Nat
  | char c => c.toNat
  | surrogate offset => 0xD800 + offset.val

/-- The code point with number `n`; numbers past the last plane give the character 0. -/
def ofNat (n : Nat) : CodePoint :=
  if h : 0xD800 ≤ n ∧ n < 0xE000 then surrogate ⟨n - 0xD800, by omega⟩ else char (Char.ofNat n)

/-- The leading half of a surrogate pair. -/
def isHighSurrogate : CodePoint → Bool
  | char _ => false
  | surrogate offset => offset.val < 1024

/-- Lift a class of characters: a surrogate belongs to none. -/
def satisfies (p : Char → Bool) : CodePoint → Bool
  | char c => p c
  | surrogate _ => false

end CodePoint

/-- A text that may hold lone surrogates. -/
abbrev Text := List CodePoint

namespace Text

/-- The text of a string, character by character. -/
def ofString (s : String) : Text := s.toList.map .char

instance : Coe String Text := ⟨ofString⟩

/-- The characters of a text that holds no surrogate. -/
def toChars? : Text → Option (List Char)
  | [] => some []
  | .char c :: rest => (toChars? rest).map (c :: ·)
  | .surrogate _ :: _ => none

/-- The string of a text that holds no surrogate. -/
def toString? (t : Text) : Option String := (toChars? t).map String.ofList

theorem toChars?_map_char (cs : List Char) : toChars? (cs.map .char) = some cs := by
  induction cs with
  | nil => rfl
  | cons c cs ih => simp [toChars?, ih]

@[simp]
theorem toString?_ofString (s : String) : toString? (ofString s) = some s := by
  simp [toString?, ofString, toChars?_map_char, String.ofList_toList]

theorem ofString_toString? {t : Text} {s : String} (h : toString? t = some s) : ofString s = t := by
  suffices ∀ cs, toChars? t = some cs → cs.map CodePoint.char = t by
    obtain ⟨cs, hcs, rfl⟩ := Option.map_eq_some_iff.1 h
    simpa [ofString, String.toList_ofList] using this cs hcs
  clear h
  induction t with
  | nil => intro cs h; simp [toChars?] at h; simp [h]
  | cons p t ih =>
    intro cs h
    cases p with
    | surrogate o => simp [toChars?] at h
    | char c =>
      obtain ⟨ds, hds, rfl⟩ := Option.map_eq_some_iff.1 h
      simp [ih ds hds]

end Text

end EmbeddedSql
