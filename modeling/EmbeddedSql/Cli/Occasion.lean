/-
# Occasions

A command is the same whenever it is run, except for what it is given from outside: the time, the day,
and an identity for a run.  Times are written in the order year to second, so that they sort as they
follow each other, and days name the files of the journal.
-/
import EmbeddedSql.Text.Quoted

namespace EmbeddedSql

/-- What a command is given from outside. -/
structure Occasion where
  now : String
  day : String
  freshId : String

/-- A moment in the calendar. -/
structure Moment where
  year : Nat
  month : Nat
  day : Nat
  hour : Nat
  minute : Nat
  second : Nat
deriving DecidableEq, Repr

namespace Moment

/-- A number with at least `width` digits. -/
def padded (width n : Nat) : String :=
  let digits := toString n
  String.ofList (List.replicate (width - digits.length) '0') ++ digits

def dayText (m : Moment) : String :=
  "-".intercalate [padded 4 m.year, padded 2 m.month, padded 2 m.day]

def text (m : Moment) : String :=
  m.dayText ++ " " ++ ":".intercalate [padded 2 m.hour, padded 2 m.minute, padded 2 m.second]

end Moment

/-- Random bytes as an identity: groups of hexadecimal digits, where one digit says that the others are
random and one is of the common variant. -/
def identityOf (bytes : List UInt8) : String :=
  let digits := bytes.flatMap fun b => Quoted.hex 2 b.toNat
  let group (first count : Nat) : String := String.ofList ((digits.drop first).take count)
  "-".intercalate [group 0 8, group 8 4, "4" ++ group 13 3, "a" ++ group 17 3, group 20 12]

/-- The occasion of a moment and some random bytes. -/
def Occasion.of (moment : Moment) (random : List UInt8) : Occasion :=
  ⟨moment.text, moment.dayText, identityOf random⟩

end EmbeddedSql
