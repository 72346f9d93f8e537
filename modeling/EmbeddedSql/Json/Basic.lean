/-
# JSON values

Rule files, stored statement lists, journal lines and reports are JSON.  Objects keep their members
in order, because the order of what is written is part of the format; putting a key that is already
there keeps its place and takes the new value.  Strings may hold lone surrogates.
-/
import EmbeddedSql.Number.Binary64
import EmbeddedSql.Text.CodePoint

namespace EmbeddedSql

inductive Json where
  | null
  | bool (b : Bool)
  | int (n : Int)
  | float (x : Binary64)
  | str (t : Text)
  | arr (items : List Json)
  | obj (members : List (Text × Json))
deriving Inhabited

namespace Json

/-- Members after putting a value under a key: in place if the key is there, else at the end. -/
def putMember (key : Text) (value : Json) : List (Text × Json) → List (Text × Json)
  | [] => [(key, value)]
  | (k, v) :: rest => if k = key then (k, value) :: rest else (k, v) :: putMember key value rest

/-- The value under a key. -/
def member? (key : Text) (members : List (Text × Json)) : Option Json :=
  (members.find? (·.1 = key)).map (·.2)

@[simp]
theorem member?_putMember (key : Text) (value : Json) (members : List (Text × Json)) :
    member? key (putMember key value members) = some value := by
  induction members with
  | nil => simp [putMember, member?]
  | cons m rest ih =>
    obtain ⟨k, v⟩ := m
    by_cases h : k = key
    · simp [putMember, member?, h]
    · simpa [putMember, member?, h] using ih

/-- A string value. -/
def ofString (s : String) : Json := .str (Text.ofString s)

/-- A value that may be missing. -/
def ofOption {α : Type} (f : α → Json) : Option α → Json
  | none => .null
  | some a => f a

/-- Values that count as missing data: null, false, zeros and whatever is empty. -/
def isVoid : Json → Bool
  | null => true
  | bool b => !b
  | int n => n == 0
  | float x => match x with
    | .finite _ m _ => m == 0
    | _ => false
  | str t => t.isEmpty
  | arr items => items.isEmpty
  | obj members => members.isEmpty

mutual
/-- Is every number of the value a number that JSON can write? -/
def isStrict : Json → Bool
  | float x => match x with
    | .finite .. => true
    | _ => false
  | arr items => allStrict items
  | obj members => allStrictMembers members
  | _ => true

def allStrict : List Json → Bool
  | [] => true
  | item :: items => item.isStrict && allStrict items

def allStrictMembers : List (Text × Json) → Bool
  | [] => true
  | (_, value) :: members => value.isStrict && allStrictMembers members
end

end Json

end EmbeddedSql
