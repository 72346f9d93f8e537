/-
# Placeholders

A value that the analysis cannot know is shown by a placeholder: a template with fields in braces,
each of which takes the source text of the expression.

    field      ::= name lookup* ["!" conversion] [":" specification]
    name       ::= "" | number
    lookup     ::= "." attribute | "[" index "]"
    conversion ::= "r" | "s" | "a"

The name is empty or stands for position zero; doubled braces stand for themselves.  A lookup takes a
part of the text, a conversion quotes it, and a specification lays it out; a specification may have
fields of its own, which have none.  A template can be faulty, which comes out only when it is used,
and no sooner than at the field that is faulty.

The attributes of a text are objects of the interpreter, methods mostly, and what is shown of them
depends on the interpreter and even on places in memory.  A template comes with what fields can show
of them, and nothing here is said about it.
-/
import EmbeddedSql.Text.CodePoint
import EmbeddedSql.Text.FormatSpec
import EmbeddedSql.Text.Quoted

namespace EmbeddedSql

/-- What is wrong with a template. -/
inductive TemplateError where
  | loneOpening
  | loneClosing
  | openingInField
  | unclosedField
  | noConversion
  | afterConversion
  | unknownConversion (conversion : Char)
  | unclosedFormat
  | tooDeep
  | unknownName (name : String)
  | noSuchPosition (index : Nat)
  | hugeNumber
  | positionAfterEmpty
  | emptyAfterPosition
  | emptyLookup
  | unclosedIndex
  | afterIndex
  | unknownAttribute (name : String)
  | indexIsText
  | indexOutside
  | format (e : FormatError)
  | object (message : String)
deriving DecidableEq, Repr

namespace TemplateError

/-- A conversion as messages show it: as it is, or by number. -/
def showConversion (c : Char) : String :=
  if 32 < c.toNat && c.toNat < 127 then c.toString
  else "\\x" ++ String.ofList (Nat.toDigits 16 c.toNat)

def message : TemplateError → String
  | loneOpening => "Single '\x7b' encountered in format string"
  | loneClosing => "Single '\x7d' encountered in format string"
  | openingInField => "unexpected '\x7b' in field name"
  | unclosedField => "expected '\x7d' before end of string"
  | noConversion => "end of string while looking for conversion specifier"
  | afterConversion => "expected ':' after conversion specifier"
  | unknownConversion conversion => "Unknown conversion specifier " ++ showConversion conversion
  | unclosedFormat => "unmatched '\x7b' in format spec"
  | tooDeep => "Max string recursion exceeded"
  | unknownName name => quoted name
  | noSuchPosition index =>
    "Replacement index " ++ toString index ++ " out of range for positional args tuple"
  | hugeNumber => "Too many decimal digits in format string"
  | positionAfterEmpty =>
    "cannot switch from automatic field numbering to manual field specification"
  | emptyAfterPosition =>
    "cannot switch from manual field specification to automatic field numbering"
  | emptyLookup => "Empty attribute in format string"
  | unclosedIndex => "Missing ']' in format string"
  | afterIndex => "Only '.' or '[' may follow ']' in format field specifier"
  | unknownAttribute name => "'str' object has no attribute '" ++ name ++ "'"
  | indexIsText => "string indices must be integers, not 'str'"
  | indexOutside => "string index out of range"
  | format e => e.message
  | object message => message

end TemplateError

namespace Placeholder

/-! ## Values -/

/-- What a field can show of a value: its text, its quoted form, and its text under a format
specification. -/
structure Shown where
  text : List Char
  quoted : List Char
  format : List Char → Except TemplateError (List Char)

/-- A character in a quoted form that has ASCII characters only. -/
def asciiChar (c : Char) : List Char :=
  if c.toNat < 0x80 then [c]
  else if c.toNat ≤ 0xFF then '\\' :: 'x' :: Quoted.hex 2 c.toNat
  else if c.toNat ≤ 0xFFFF then '\\' :: 'u' :: Quoted.hex 4 c.toNat
  else '\\' :: 'U' :: Quoted.hex 8 c.toNat

namespace Shown

/-- What can be shown of a text. -/
def ofText (value : List Char) : Shown where
  text := value
  quoted := Quoted.encode value
  format spec := (formatText spec value).mapError .format

@[simp]
theorem format_ofText_nil (value : List Char) : (ofText value).format [] = .ok value := by
  show (formatText [] value).mapError TemplateError.format = .ok value
  rw [formatText_nil]
  rfl

/-- A conversion makes a text of any value. -/
def convert (v : Shown) (conversion : Char) : Except TemplateError Shown :=
  if conversion == 's' then .ok (ofText v.text)
  else if conversion == 'r' then .ok (ofText v.quoted)
  else if conversion == 'a' then .ok (ofText (v.quoted.flatMap asciiChar))
  else .error (.unknownConversion conversion)

end Shown

/-- A step from a value to a part of it. -/
inductive Lookup where
  | attribute (name : List Char)
  | index (i : Nat)
  | key (name : List Char)
deriving DecidableEq, Repr

/-- The attributes that every text has. -/
def textAttributes : List String := [
  "__add__", "__class__", "__contains__", "__delattr__", "__dir__", "__doc__", "__eq__",
  "__format__", "__ge__", "__getattribute__", "__getitem__", "__getnewargs__", "__getstate__",
  "__gt__", "__hash__", "__init__", "__init_subclass__", "__iter__", "__le__", "__len__",
  "__lt__", "__mod__", "__mul__", "__ne__", "__new__", "__reduce__", "__reduce_ex__", "__repr__",
  "__rmod__", "__rmul__", "__setattr__", "__sizeof__", "__str__", "__subclasshook__",
  "capitalize", "casefold", "center", "count", "encode", "endswith", "expandtabs", "find",
  "format", "format_map", "index", "isalnum", "isalpha", "isascii", "isdecimal", "isdigit",
  "isidentifier", "islower", "isnumeric", "isprintable", "isspace", "istitle", "isupper", "join",
  "ljust", "lower", "lstrip", "maketrans", "partition", "removeprefix", "removesuffix", "replace",
  "rfind", "rindex", "rjust", "rpartition", "rsplit", "rstrip", "split", "splitlines",
  "startswith", "strip", "swapcase", "title", "translate", "upper", "zfill"]

/-- What fields can show of the attributes of texts: for a text, the name of one of its attributes,
and the lookups that follow it. -/
abbrev Objects := List Char → List Char → List Lookup → Except TemplateError Shown

/-- Objects of which nothing can be shown. -/
def Objects.hidden : Objects :=
  fun _ name _ => .error (.object ("attribute '" ++ String.ofList name ++ "' cannot be shown"))

/-! ## Fields -/

/-- The lookups behind a field's name, up to the first that is faulty.  An index of decimal digits is
a number. -/
def lookups (cs : List Char) : List Lookup × Option TemplateError :=
  match cs with
  | [] => ([], none)
  | '.' :: rest =>
    let name := rest.takeWhile fun c => c != '.' && c != '['
    if name.isEmpty then ([], some .emptyLookup)
    else
      let (steps, fault) := lookups (rest.drop name.length)
      (.attribute name :: steps, fault)
  | '[' :: rest =>
    let name := rest.takeWhile (· != ']')
    if name.length = rest.length then ([], some .unclosedIndex)
    else if name.isEmpty then ([], some .emptyLookup)
    else
      match leadingNumber? name with
      | none => ([], some .hugeNumber)
      | some i =>
        let (steps, fault) := lookups (rest.drop (name.length + 1))
        ((if name.all isDecimalDigit then .index i else .key name) :: steps, fault)
  | _ :: _ => ([], some .afterIndex)
termination_by cs.length
decreasing_by all_goals simp only [List.length_drop, List.length_cons]; omega

/-- Follow lookups from a text.  A part of a text is a text; what an attribute is, and what the
lookups after it lead to, is up to the objects. -/
def follow (objects : Objects) (value : List Char) :
    List Lookup → Option TemplateError → Except TemplateError Shown
  | [], none => .ok (.ofText value)
  | [], some fault => .error fault
  | .index i :: steps, fault =>
    match value[i]? with
    | some c => follow objects [c] steps fault
    | none => .error .indexOutside
  | .key _ :: _, _ => .error .indexIsText
  | .attribute name :: steps, fault =>
    if textAttributes.contains (String.ofList name) then
      match objects value name steps, fault with
      | .ok v, none => .ok v
      | .ok _, some fault => .error fault
      | .error e, _ => .error e
    else .error (.unknownAttribute (String.ofList name))

/-- How the fields so far chose their positions: not at all, by counting, or by naming them. -/
inductive Numbering where
  | open
  | counted (next : Nat)
  | named
deriving DecidableEq, Repr

/-- Only position zero has a value. -/
def checkPosition (index : Nat) (next : Numbering) : Except TemplateError Numbering :=
  if index = 0 then .ok next else .error (.noSuchPosition index)

/-- Check a field's name against the fields before it. -/
def checkName (numbering : Numbering) (name : List Char) : Except TemplateError Numbering :=
  match leadingNumber? name with
  | none => .error .hugeNumber
  | some index =>
    if name.isEmpty then
      match numbering with
      | .open => checkPosition 0 (.counted 1)
      | .counted next => checkPosition next (.counted (next + 1))
      | .named => .error .emptyAfterPosition
    else if name.all isDecimalDigit then
      match numbering with
      | .counted _ => .error .positionAfterEmpty
      | .open | .named => checkPosition index .named
    else .error (.unknownName (String.ofList name))

/-- A field as it is written: its name with the lookups, its conversion and its specification. -/
structure Field where
  name : List Char
  conversion : Option Char
  spec : List Char
deriving DecidableEq, Repr

/-- Read a field's name, up to the character that ends it.  Between square brackets none does. -/
def readName (inBrackets : Bool) : List Char → Except TemplateError (List Char × List Char)
  | [] => .error .unclosedField
  | c :: cs =>
    if inBrackets then (readName (c != ']') cs).map fun (name, rest) => (c :: name, rest)
    else if c == '{' then .error .openingInField
    else if c == '}' || c == ':' || c == '!' then .ok ([], c :: cs)
    else (readName (c == '[') cs).map fun (name, rest) => (c :: name, rest)

/-- Read a specification, up to the brace that closes the field.  Braces inside are paired. -/
def readSpec (depth : Nat) : List Char → Except TemplateError (List Char × List Char)
  | [] => .error .unclosedFormat
  | c :: cs =>
    if c == '}' then
      match depth with
      | 0 => .ok ([], cs)
      | depth + 1 => (readSpec depth cs).map fun (spec, rest) => (c :: spec, rest)
    else
      (readSpec (if c == '{' then depth + 1 else depth) cs).map fun (spec, rest) => (c :: spec, rest)

/-- Read a field whose opening brace stands before `cs`: the field, and what is behind it. -/
def readField (cs : List Char) : Except TemplateError (Field × List Char) := do
  let (name, rest) ← readName false cs
  match rest with
  | '!' :: [] => .error .noConversion
  | '!' :: c :: more =>
    -- the null character stands for no conversion
    let conversion := if c = '\x00' then none else some c
    match more with
    | '}' :: rest => .ok (⟨name, conversion, []⟩, rest)
    | ':' :: rest => (readSpec 0 rest).map fun (spec, rest) => (⟨name, conversion, spec⟩, rest)
    | [] => .error .unclosedFormat
    | _ => .error .afterConversion
  | ':' :: rest => (readSpec 0 rest).map fun (spec, rest) => (⟨name, none, spec⟩, rest)
  | _ => .ok (⟨name, none, []⟩, rest.tail)

/-- A name ends at a character, which is still there. -/
theorem length_of_readName {inBrackets : Bool} {cs name rest : List Char}
    (h : readName inBrackets cs = .ok (name, rest)) : 0 < rest.length ∧ rest.length ≤ cs.length := by
  induction cs generalizing inBrackets name with
  | nil => cases h
  | cons c cs ih =>
      have step {b : Bool} (h : (readName b cs).map (fun r => (c :: r.1, r.2)) = .ok (name, rest)) :
          0 < rest.length ∧ rest.length ≤ (c :: cs).length := by
        cases hr : readName b cs with
        | error e => simp [hr, Except.map] at h
        | ok r =>
            simp only [hr, Except.map, Except.ok.injEq, Prod.mk.injEq] at h
            obtain ⟨rfl, rfl⟩ := h
            exact ⟨(ih hr).1, Nat.le_succ_of_le (ih hr).2⟩
      unfold readName at h
      split at h
      · exact step h
      · split at h
        · cases h
        · split at h
          · cases h
            simp
          · exact step h

theorem length_of_readSpec {depth : Nat} {cs spec rest : List Char}
    (h : readSpec depth cs = .ok (spec, rest)) : rest.length < cs.length := by
  induction cs generalizing depth spec with
  | nil => cases h
  | cons c cs ih =>
      have step {n : Nat} (h : (readSpec n cs).map (fun r => (c :: r.1, r.2)) = .ok (spec, rest)) :
          rest.length < (c :: cs).length := by
        cases hr : readSpec n cs with
        | error e => simp [hr, Except.map] at h
        | ok r =>
            simp only [hr, Except.map, Except.ok.injEq, Prod.mk.injEq] at h
            obtain ⟨rfl, rfl⟩ := h
            exact Nat.lt_succ_of_lt (ih hr)
      unfold readSpec at h
      split at h
      · split at h
        · cases h
          exact Nat.lt_succ_self _
        · exact step h
      · exact step h

/-- What is behind a field is shorter than the template from its opening brace on. -/
theorem length_of_readField {cs rest : List Char} {field : Field}
    (h : readField cs = .ok (field, rest)) : rest.length < cs.length := by
  unfold readField at h
  cases hn : readName false cs with
  | error e => simp [hn, bind, Except.bind] at h
  | ok r =>
      obtain ⟨name, behind⟩ := r
      have hb := length_of_readName hn
      have step {conversion : Option Char} {more : List Char}
          (h : (readSpec 0 more).map (fun r => (Field.mk name conversion r.1, r.2)) =
            .ok (field, rest)) : rest.length < more.length := by
        cases hr : readSpec 0 more with
        | error e => simp [hr, Except.map] at h
        | ok r =>
            simp only [hr, Except.map, Except.ok.injEq, Prod.mk.injEq] at h
            obtain ⟨rfl, rfl⟩ := h
            exact length_of_readSpec hr
      simp only [hn, bind, Except.bind] at h
      split at h
      · cases h
      · split at h
        · cases h
          simp only [List.length_cons] at hb
          omega
        · have := step h
          simp only [List.length_cons] at hb
          omega
        · cases h
        · cases h
      · have := step h
        simp only [List.length_cons] at hb
        omega
      · cases h
        simp only [List.length_tail]
        omega

/-! ## Templates -/

/-- Show a field.  Fields in its specification are filled by `expand`. -/
def Field.fill (field : Field) (objects : Objects) (value : List Char)
    (expand : Numbering → List Char → Except TemplateError (List Char × Numbering))
    (numbering : Numbering) : Except TemplateError (List Char × Numbering) := do
  let first := field.name.takeWhile fun c => c != '.' && c != '['
  let numbering ← checkName numbering first
  let (steps, fault) := lookups (field.name.drop first.length)
  let found ← follow objects value steps fault
  let shown ← match field.conversion with
    | none => .ok found
    | some c => found.convert c
  let (spec, numbering) ←
    if field.spec.contains '{' then expand numbering field.spec else .ok (field.spec, numbering)
  let text ← shown.format spec
  return (text, numbering)

/-- Fill the fields of a template one after the other. -/
def fillFields (objects : Objects) (value : List Char)
    (expand : Numbering → List Char → Except TemplateError (List Char × Numbering))
    (numbering : Numbering) (cs : List Char) : Except TemplateError (List Char × Numbering) :=
  match cs with
  | [] => .ok ([], numbering)
  | c :: rest =>
    if c == '{' || c == '}' then
      match rest with
      | [] => .error (if c == '{' then .loneOpening else .loneClosing)
      | d :: more =>
        if d == c then
          (fillFields objects value expand numbering more).map fun (text, next) => (c :: text, next)
        else if c == '}' then .error .loneClosing
        else
          match _h : readField (d :: more) with
          | .error e => .error e
          | .ok (field, behind) =>
            match field.fill objects value expand numbering with
            | .error e => .error e
            | .ok (shown, next) =>
              (fillFields objects value expand next behind).map fun (text, last) =>
                (shown ++ text, last)
    else (fillFields objects value expand numbering rest).map fun (text, next) => (c :: text, next)
termination_by cs.length
decreasing_by
  · exact Nat.lt_succ_of_lt (Nat.lt_succ_self _)
  · exact Nat.lt_succ_of_lt (length_of_readField ‹_›)
  · exact Nat.lt_succ_self _

/-- Filling goes on behind a field that can be read and shown. -/
theorem fillFields_field {objects : Objects} {value shown more behind : List Char} {field : Field}
    {expand : Numbering → List Char → Except TemplateError (List Char × Numbering)}
    {numbering next : Numbering} {d : Char} (hd : d ≠ '{')
    (hread : readField (d :: more) = .ok (field, behind))
    (hfill : field.fill objects value expand numbering = .ok (shown, next)) :
    fillFields objects value expand numbering ('{' :: d :: more) =
      (fillFields objects value expand next behind).map fun (text, last) => (shown ++ text, last) := by
  rw [fillFields]
  have hopening : '{' ≠ '}' := by decide
  simp only [BEq.rfl, Bool.true_or, if_true, beq_iff_eq, hd, if_false, hopening]
  split
  · next h => cases hread.symm.trans h
  · next h =>
      cases hread.symm.trans h
      simp only [hfill]

/-- Fill a template whose specifications may have fields, down to a depth. -/
def fill (objects : Objects) (value : List Char) :
    Nat → Numbering → List Char → Except TemplateError (List Char × Numbering)
  | 0, _, _ => .error .tooDeep
  | depth + 1, numbering, cs => fillFields objects value (fill objects value depth) numbering cs

end Placeholder

/-- A template, with what it can show of the attributes of texts. -/
structure Template where
  text : String
  objects : Placeholder.Objects := .hidden

instance : Coe String Template where
  coe text := { text }

/-- The placeholder for the expression with this source text. -/
def Placeholder.render (template : Template) (source : String) : Except TemplateError Text :=
  (fill template.objects source.toList 2 .open template.text.toList).map (·.1.map .char)

/-- The standard template: the expression in braces after a dollar sign. -/
def standardPlaceholder : String := "$\x7b\x7b\x7b\x7d\x7d\x7d"

/-- The standard template shows every expression. -/
theorem Placeholder.render_standard {template : Template} (h : template.text = standardPlaceholder)
    (source : String) : render template source = .ok ("$\x7b" ++ source ++ "\x7d" : String) := by
  have hread : readField ['}', '}', '}'] = .ok (⟨[], none, []⟩, ['}', '}']) := rfl
  have hfill (expand) : (Field.mk [] none []).fill template.objects source.toList expand .open =
      .ok (source.toList, .counted 1) := by
    simp [Field.fill, checkName, leadingNumber?, decimalNumber, checkPosition, lookups, follow, bind,
      Except.bind, pure, Except.pure]
  have hf : fill template.objects source.toList 2 .open standardPlaceholder.toList =
      .ok ('$' :: '{' :: (source.toList ++ ['}']), .counted 1) := by
    rw [fill, standardPlaceholder]
    simp [fillFields, fillFields_field (by decide) hread (hfill _), Except.map]
  simp [render, h, hf, Except.map, Text.ofString]

end EmbeddedSql
