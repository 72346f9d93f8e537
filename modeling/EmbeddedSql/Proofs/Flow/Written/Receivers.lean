/-
# Receiver paths

A call is written as a path of links with dots between them, the name of the method and the parenthesis that opens
its arguments.  A link is a name, perhaps with arguments of its own.

| written | receiver |
| :-- | :-- |
| `m(` | the empty path |
| `a.b.m(` | `a.b` |
| `a(…).b(…).m(` | `a().b()` |

The walk back from the method goes over each link in one step (`receiverPath_link`), over its arguments by their
brackets alone.  So arguments of whatever content leave no trace in the receiver (`callAt_written`).
-/
import EmbeddedSql.Proofs.Flow.Written.Backwards
import EmbeddedSql.Token.Lexer

namespace EmbeddedSql.Written

open StraightLine

variable {b b' : Brackets} {i i' j : Nat} {l : Lexeme}

/-! ## Syntax -/

/-- A part of a receiver path: a name, and what stands in its argument list if it has one. -/
structure PathLink where
  name : String
  arguments : Option (List Lexeme)

namespace PathLink

def lexemes (k : PathLink) : List Lexeme := word k.name :: (k.arguments.map (group .paren)).getD []

/-- Its argument list balances. -/
def WellFormed (k : PathLink) : Prop := ∀ inside ∈ k.arguments, Paired inside

instance : DecidablePred WellFormed := fun k => inferInstanceAs (Decidable (∀ inside ∈ k.arguments, Paired inside))

/-- The link in a receiver: arguments are shown as empty parentheses. -/
def shown (k : PathLink) : String := if k.arguments.isSome then k.name ++ "()" else k.name

end PathLink

/-- A call up to the parenthesis that opens its arguments. -/
structure WrittenCall where
  path : List PathLink
  method : String

namespace WrittenCall

/-- The links of a path, with a dot behind each. -/
def pathLexemes (path : List PathLink) : List Lexeme := path.flatMap fun k => k.lexemes ++ [punct "."]

def lexemes (c : WrittenCall) : List Lexeme := pathLexemes c.path ++ [word c.method, punct "("]

/-- The place of the parenthesis of a call that begins at place `i`. -/
def opening (c : WrittenCall) (i : Nat) : Nat := i + (pathLexemes c.path).length + 1

def receiver (c : WrittenCall) : String := ".".intercalate (c.path.map PathLink.shown)

/-- The call without the content of its inner arguments. -/
def outline (c : WrittenCall) : List (String × Bool) × String :=
  (c.path.map fun k => (k.name, k.arguments.isSome), c.method)

/-- The call stands at place `i` of a scope and begins there.  A dot before it would make it the end of a longer call;
a method without a path must not be a constructor or an annotation, and words of control flow are no methods. -/
structure Stands (b : Brackets) (i : Nat) (c : WrittenCall) : Prop where
  reads : Reads b i c.lexemes
  wellFormed : ∀ k ∈ c.path, k.WellFormed
  first : (b.tokenBefore? i 1).map lexeme ≠ some (punct ".")
  alone : c.path = [] → ∀ l ∈ (b.tokenBefore? i 1).map lexeme, l ≠ word "new" ∧ l ≠ punct "@"
  method : c.method ∉ Brackets.controlWords

end WrittenCall

open WrittenCall

/-! ## The walk back -/

/-- The walk ends where no dot stands. -/
theorem receiverPath_of_first {path : List String} (h : (b.tokenBefore? i 1).map lexeme ≠ some (punct ".")) :
    b.receiverPath i path = path := by
  rw [Brackets.receiverPath]
  split
  · next hi =>
      refine if_neg fun hdot => h ?_
      obtain ⟨t, ht, hpunct⟩ := (Option.any_eq_true _ _).1 hdot
      rw [isPunct_eq, decide_eq_true_iff] at hpunct
      rw [Brackets.tokenBefore?, if_pos (by omega), show b.tokens[i - 1]? = some t from ht, Option.map_some, hpunct]
  · rfl

/-- A name before a dot. -/
theorem receiverPath_name {name : String} {path : List String} (hname : At b i (word name))
    (hdot : At b (i + 1) (punct ".")) : b.receiverPath (i + 2) path = b.receiverPath i (name :: path) := by
  obtain ⟨t, ht, hl⟩ := hname.exists_token
  have hident : t.isIdent = true := beq_iff_eq.2 (congrArg Prod.fst hl)
  have htoken : b.token? (i + 2 - 2) = some t := ht
  rw [Brackets.receiverPath, if_pos (Nat.le_add_left 2 i), show i + 2 - 1 = i + 1 from rfl, hdot.isPunct,
    if_pos (decide_eq_true rfl), htoken]
  dsimp only
  rw [if_pos hident, show t.text = name from congrArg Prod.snd hl]
  rfl

/-- A name with arguments before a dot: what stands in the arguments is passed over. -/
theorem receiverPath_arguments {name : String} {inside : List Lexeme} {path : List String} (h : Paired inside)
    (hname : At b i (word name)) (hr : Reads b (i + 1) (group .paren inside))
    (hdot : At b (i + 1 + 1 + inside.length + 1) (punct ".")) :
    b.receiverPath (i + 1 + 1 + inside.length + 2) path = b.receiverPath i ((name ++ "()") :: path) := by
  obtain ⟨t, ht, hl⟩ := hname.exists_token
  obtain ⟨u, hu, hclosing⟩ := (reads_group hr).2.2.exists_token
  have hident : t.isIdent = true := beq_iff_eq.2 (congrArg Prod.fst hl)
  have hparen : u.isPunct ")" = true := (isPunct_eq u ")").trans (decide_eq_true hclosing)
  have hno : ¬ u.isIdent = true := fun h => by
    have hkind := (congrArg Prod.fst hclosing).symm.trans (beq_iff_eq.1 h)
    cases hkind
  have htoken : b.token? (i + 1 + 1 + inside.length + 2 - 2) = some u := hu
  have hopener : b.opener? (i + 1 + 1 + inside.length + 2 - 2) = some ⟨i + 1, by omega⟩ := opener?_group h hr
  rw [Brackets.receiverPath, if_pos (Nat.le_add_left 2 _), show ∀ n, n + 2 - 1 = n + 1 from fun _ => rfl, hdot.isPunct,
    if_pos (decide_eq_true rfl), htoken]
  dsimp only
  rw [if_neg hno, if_pos hparen, hopener]
  dsimp only
  rw [Brackets.tokenBefore?_succ, ht]
  dsimp only
  rw [if_pos hident, show t.text = name from congrArg Prod.snd hl]
  rfl

/-- Before a dot stands a link, which the walk puts in front of the path. -/
theorem receiverPath_link {k : PathLink} {path : List String} (hk : k.WellFormed)
    (hr : Reads b i (k.lexemes ++ [punct "."])) :
    b.receiverPath (i + (k.lexemes ++ [punct "."]).length) path = b.receiverPath i (k.shown :: path) := by
  obtain ⟨name, arguments⟩ := k
  cases arguments with
  | none => exact receiverPath_name hr.1 hr.2.1
  | some inside =>
      obtain ⟨hlink, hdot, -⟩ := reads_append.1 hr
      have hlength : (PathLink.lexemes ⟨name, some inside⟩).length = inside.length + 3 :=
        congrArg (· + 1) (length_group .paren inside)
      rw [List.length_append, List.length_singleton, hlength,
        show i + (inside.length + 3 + 1) = i + 1 + 1 + inside.length + 2 by omega]
      rw [hlength, show i + (inside.length + 3) = i + 1 + 1 + inside.length + 1 by omega] at hdot
      exact receiverPath_arguments (hk inside rfl) hlink.1 hlink.2 hdot

/-- The whole path is found. -/
theorem receiverPath_path {path : List PathLink} {found : List String} {i : Nat} (hpath : ∀ k ∈ path, k.WellFormed)
    (hr : Reads b i (pathLexemes path)) :
    b.receiverPath (i + (pathLexemes path).length) found = b.receiverPath i (path.map PathLink.shown ++ found) := by
  induction path generalizing i with
  | nil => rfl
  | cons k rest ih =>
      rw [pathLexemes, List.flatMap_cons] at hr ⊢
      obtain ⟨hfirst, hrest⟩ := reads_append.1 hr
      rw [List.length_append, ← Nat.add_assoc]
      refine (ih (fun k' hk => hpath k' (List.mem_cons_of_mem _ hk)) hrest).trans ?_
      exact receiverPath_link (hpath k List.mem_cons_self) hfirst

/-! ## Calls -/

theorem lexeme_before (h : At b i l) : (b.tokenBefore? (i + 1) 1).map lexeme = some l := by
  rw [Brackets.tokenBefore?_succ]
  exact h

/-- Behind a path stands a dot, or what stands before it if it is empty. -/
theorem lexeme_behind_path {path : List PathLink} {i : Nat} (hr : Reads b i (pathLexemes path)) :
    (b.tokenBefore? (i + (pathLexemes path).length) 1).map lexeme =
      if path = [] then (b.tokenBefore? i 1).map lexeme else some (punct ".") := by
  induction path generalizing i with
  | nil => rfl
  | cons k rest ih =>
      rw [pathLexemes, List.flatMap_cons] at hr ⊢
      obtain ⟨hfirst, hrest⟩ := reads_append.1 hr
      have hdot : At b (i + k.lexemes.length) (punct ".") := (reads_append.1 hfirst).2.1
      rw [List.length_append, ← Nat.add_assoc, if_neg (List.cons_ne_nil k rest)]
      refine (ih hrest).trans (ite_eq_right_iff.2 fun _ => ?_)
      rw [List.length_append, List.length_singleton, ← Nat.add_assoc]
      exact lexeme_before hdot

namespace WrittenCall

/-- What stands before the method is neither `new` nor an at sign. -/
theorem Stands.before {c : WrittenCall} (h : c.Stands b i) :
    ∀ l ∈ (b.tokenBefore? (i + (pathLexemes c.path).length) 1).map lexeme, l ≠ word "new" ∧ l ≠ punct "@" := by
  rw [lexeme_behind_path (reads_append.1 h.reads).1]
  split
  · next hpath => exact h.alone hpath
  · rintro l ⟨⟩
    decide

/-- The call that the parenthesis opens. -/
theorem Stands.callAt_eq {c : WrittenCall} (h : c.Stands b i) :
    b.callAt (c.opening i) = some ⟨c.receiver, c.method⟩ := by
  obtain ⟨hpath, hmethod, -⟩ := reads_append.1 h.reads
  obtain ⟨t, ht, hl⟩ := hmethod.exists_token
  have hident : t.isIdent = true := beq_iff_eq.2 (congrArg Prod.fst hl)
  have htext : t.text = c.method := congrArg Prod.snd hl
  have hcontrol : Brackets.controlWords.contains t.text = false := by
    rw [htext]
    exact Bool.eq_false_iff.2 fun hmem => h.method (List.contains_iff_mem.1 hmem)
  have hreceiver : b.receiverPath (i + (pathLexemes c.path).length) [] = c.path.map PathLink.shown := by
    rw [receiverPath_path h.wellFormed hpath, List.append_nil, receiverPath_of_first h.first]
  have hbefore {p : Token → Bool} (hp : ∀ u, p u = true → lexeme u = word "new" ∨ lexeme u = punct "@") :
      (b.tokenBefore? (i + (pathLexemes c.path).length + 1) 2).any p = false := by
    rw [tokenBefore?_add _ 1 1, Bool.eq_false_iff]
    intro hany
    obtain ⟨u, hu, hpu⟩ := (Option.any_eq_true _ _).1 hany
    have hno := h.before (lexeme u) (by rw [hu]; rfl)
    exact (hp u hpu).elim hno.1 hno.2
  have hnew := hbefore (p := fun u => u.isIdent && u.text == "new") fun u hu => by
    rw [Bool.and_eq_true, Token.isIdent, beq_iff_eq, beq_iff_eq] at hu
    exact .inl (Prod.ext hu.1 hu.2)
  have hat := hbefore (p := (·.isPunct "@")) fun u hu => by
    rw [isPunct_eq, decide_eq_true_iff] at hu
    exact .inr hu
  rw [Brackets.callAt, opening, Brackets.tokenBefore?_succ, ht]
  dsimp only
  rw [hident, hcontrol, Bool.not_true, Bool.or_false, if_neg Bool.false_ne_true, hnew, if_neg Bool.false_ne_true, hat,
    if_neg Bool.false_ne_true, Nat.add_sub_cancel, hreceiver, htext, receiver]

/-- The outline of a call decides about its receiver. -/
theorem receiver_of_outline {c c' : WrittenCall} (h : c'.outline = c.outline) :
    c'.receiver = c.receiver ∧ c'.method = c.method := by
  obtain ⟨hpath, hmethod⟩ := Prod.mk.inj h
  have hshown (d : WrittenCall) :
      d.path.map PathLink.shown =
        (d.path.map fun k => (k.name, k.arguments.isSome)).map fun k => if k.2 then k.1 ++ "()" else k.1 := by
    rw [List.map_map]
    rfl
  exact ⟨by rw [receiver, receiver, hshown c', hshown c, hpath], hmethod⟩

end WrittenCall

/-- What is the receiver of a call?  The names of its path with dots between them, and empty parentheses behind those
that have arguments.  So calls with the same outline, whatever stands in their inner arguments and wherever they
stand, are classed alike. -/
theorem callAt_written {c : WrittenCall} (h : c.Stands b i) :
    b.callAt (c.opening i) = some ⟨".".intercalate (c.path.map PathLink.shown), c.method⟩ ∧
      ∀ {b' : Brackets} {i' : Nat} {c' : WrittenCall}, c'.Stands b' i' → c'.outline = c.outline →
        ∀ classifier : Classifier,
          (b'.frameAt classifier (c'.opening i')).disposition =
            (b.frameAt classifier (c.opening i)).disposition := by
  refine ⟨h.callAt_eq, fun {b' i' c'} h' houtline classifier => ?_⟩
  obtain ⟨hreceiver, hmethod⟩ := receiver_of_outline houtline
  rw [Brackets.frameAt, Brackets.frameAt, h.callAt_eq, h'.callAt_eq]
  dsimp only
  rw [hreceiver, hmethod]

/-- Two calls on the console, the first with brackets and quotes in its inner arguments. -/
def consoles : Brackets :=
  .ofTokens (significant ((tokenize
    "\x7b System.console(x[f(1)], \") + (\").readLine(); System.console().readLine(); \x7d").toOption.getD []))

def busyConsole : WrittenCall where
  path :=
    [⟨"System", none⟩,
      ⟨"console", some (word "x" :: group .square (word "f" :: group .paren [(.other, "1")]) ++
        [punct ",", (.stringLiteral, "\") + (\"")])⟩]
  method := "readLine"

def plainConsole : WrittenCall where
  path := [⟨"System", none⟩, ⟨"console", some []⟩]
  method := "readLine"

/-- Both have the receiver that the standard rules class as input. -/
theorem callAt_written_busyConsole :
    consoles.callAt (busyConsole.opening 1) = some ⟨"System.console()", "readLine"⟩ ∧
      (consoles.frameAt RuleSet.standard.classifier (plainConsole.opening 20)).disposition =
        (consoles.frameAt RuleSet.standard.classifier (busyConsole.opening 1)).disposition := by
  -- evaluated at once, since each evaluation cuts the source anew
  obtain ⟨hread, hbefore, hread', hbefore'⟩ :
      busyConsole.lexemes <+: (consoles.tokens.toList.drop 1).map lexeme ∧
        (consoles.tokenBefore? 1 1).map lexeme ≠ some (punct ".") ∧
        plainConsole.lexemes <+: (consoles.tokens.toList.drop 20).map lexeme ∧
        (consoles.tokenBefore? 20 1).map lexeme ≠ some (punct ".") := by
    decide +kernel
  have hbusy : busyConsole.Stands consoles 1 := ⟨reads_front hread, by decide, hbefore, nofun, by decide⟩
  have hplain : plainConsole.Stands consoles 20 := ⟨reads_front hread', by decide, hbefore', nofun, by decide⟩
  have hwritten := callAt_written hbusy
  exact ⟨hwritten.1, hwritten.2 hplain rfl RuleSet.standard.classifier⟩

end EmbeddedSql.Written
