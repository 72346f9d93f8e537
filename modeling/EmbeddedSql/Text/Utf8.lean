/-
# Bytes and characters

Files hold bytes.  `Utf8.encode` is the byte form of a text.  Reading is done in steps: at each
place the bytes either begin with the form of a character, or with a faulty stretch, which is the
longest piece that begins some character's form, or the first byte alone where none does.
`decodeLossy` puts the replacement character for each faulty stretch; `decode` stops at the first
and says where it is and what is wrong with it.
-/
namespace EmbeddedSql

abbrev Bytes := List UInt8

/-- What makes a stretch of bytes faulty. -/
inductive Utf8Fault where
  | startByte
  | continuationByte
  | endOfData
deriving DecidableEq, Repr

namespace Utf8Fault

def reason : Utf8Fault → String
  | startByte => "invalid start byte"
  | continuationByte => "invalid continuation byte"
  | endOfData => "unexpected end of data"

end Utf8Fault

namespace Utf8

def encode (cs : List Char) : Bytes := cs.flatMap String.utf8EncodeChar

theorem encode_append (cs ds : List Char) : encode (cs ++ ds) = encode cs ++ encode ds :=
  List.flatMap_append

/-- What a first byte promises: its share of the character's number, and the closed range that each
following byte has to lie in. -/
def lead (b : Nat) : Option (Nat × List (Nat × Nat)) :=
  let any := (0x80, 0xBF)
  if b < 0x80 then some (b, [])
  else if 0xC2 ≤ b ∧ b ≤ 0xDF then some (b - 0xC0, [any])
  else if b = 0xE0 then some (0, [(0xA0, 0xBF), any])
  else if b = 0xED then some (0xD, [(0x80, 0x9F), any])
  else if 0xE1 ≤ b ∧ b ≤ 0xEF then some (b - 0xE0, [any, any])
  else if b = 0xF0 then some (0, [(0x90, 0xBF), any, any])
  else if 0xF1 ≤ b ∧ b ≤ 0xF3 then some (b - 0xF0, [any, any, any])
  else if b = 0xF4 then some (4, [(0x80, 0x8F), any, any])
  else none

/-- One step of reading: a character, or a fault, with the number of bytes after the first one that
belong to it. -/
inductive Step where
  | char (c : Char) (more : Nat)
  | fault (f : Utf8Fault) (more : Nat)

/-- Collect the following bytes; `value` is the number so far and `taken` how many bytes it took. -/
def follow (value taken : Nat) : List (Nat × Nat) → Bytes → Step
  | [], _ => .char (Char.ofNat value) taken
  | _ :: _, [] => .fault .endOfData taken
  | (low, high) :: ranges, b :: rest =>
    if low ≤ b.toNat ∧ b.toNat ≤ high then
      follow (value * 64 + (b.toNat - 0x80)) (taken + 1) ranges rest
    else .fault .continuationByte taken

/-- The step at the byte `b` before `rest`. -/
def step (b : UInt8) (rest : Bytes) : Step :=
  match lead b.toNat with
  | none => .fault .startByte 0
  | some (value, ranges) => follow value 0 ranges rest

/-- Read all bytes, with the replacement character for each faulty stretch. -/
def decodeLossy : Bytes → List Char
  | [] => []
  | b :: rest =>
    match step b rest with
    | .char c more => c :: decodeLossy (rest.drop more)
    | .fault _ more => '\uFFFD' :: decodeLossy (rest.drop more)
termination_by bytes => bytes.length
decreasing_by all_goals simp only [List.length_drop, List.length_cons]; omega

/-- The first faulty stretch of a byte sequence. -/
structure Failure where
  fault : Utf8Fault
  position : Nat
  bytes : Bytes
deriving DecidableEq, Repr

/-- Read bytes that stand at `position`, or report the first faulty stretch. -/
def decodeAt (position : Nat) : Bytes → Except Failure (List Char)
  | [] => .ok []
  | b :: rest =>
    match step b rest with
    | .char c more => (decodeAt (position + 1 + more) (rest.drop more)).map (c :: ·)
    | .fault f more => .error ⟨f, position, b :: rest.take more⟩
termination_by bytes => bytes.length
decreasing_by simp only [List.length_drop, List.length_cons]; omega

def decode (bytes : Bytes) : Except Failure (List Char) := decodeAt 0 bytes

end Utf8

/-- Line ends written `\r\n` or `\r` become `\n`. -/
def unifyLineEnds : List Char → List Char
  | [] => []
  | '\r' :: '\n' :: rest => '\n' :: unifyLineEnds rest
  | '\r' :: rest => '\n' :: unifyLineEnds rest
  | c :: rest => c :: unifyLineEnds rest

end EmbeddedSql
