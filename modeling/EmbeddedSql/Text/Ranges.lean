/-
# Tables of ranges

A Unicode class is kept as a list of closed ranges of character numbers.
-/
namespace EmbeddedSql

/-- Does one of the closed ranges hold `n`? -/
def inRanges (table : List (Nat × Nat)) (n : Nat) : Bool :=
  table.any fun (first, last) => first ≤ n && n ≤ last

end EmbeddedSql
