/-
# Parameter lists

A parameter is a type and a name with annotations and `final` before them.  A declaration looks like that too, and
what tells them apart is what stands before the type.

| before the type of a parameter | a declaration can begin there |
| :-- | :-- |
| `(` or `,`, perhaps with annotations behind it | no: annotations are passed over (`boundary_modifiers`) |
| a dot, since the type is dotted | no |
| `final`, perhaps with annotations behind it | yes: it is a modifier of declarations as well |

So a `final` parameter with an undotted tracked type stands where a declaration can begin (`Parameter.Shadows`),
and it is one if a comma follows its name, which is also what ends the first name of a declaration.  Its name is then
declared, and a variable of that name is lost.  All other places of a parameter list are calm: processing a list
without such a parameter leaves the variables and the declared names as they are, unless an annotation reads as a
chain of calls on a tracked builder (`parameterList_untouched_unless_shadows`).
-/
import EmbeddedSql.Proofs.Flow.Changes
import EmbeddedSql.Proofs.Flow.Declared
import EmbeddedSql.Proofs.Flow.StraightLine.Statements
import EmbeddedSql.Proofs.Flow.Written.Backwards
import EmbeddedSql.Proofs.Flow.Written.Untouched
import EmbeddedSql.Token.Lexer

namespace EmbeddedSql.Written

open StraightLine

variable {b : Brackets} {i j k : Nat} {l : Lexeme} {ls : List Lexeme}

/-! ## Syntax -/

/-- What stands before a parameter, or before an argument. -/
def Opening (l : Lexeme) : Prop := l = punct "(" ∨ l = punct ","

instance : DecidablePred Opening := fun _ => inferInstanceAs (Decidable (_ ∨ _))

/-- Code in which words do not stand side by side, and assignment signs only behind a word that begins an argument;
`before` is the lexeme before it. -/
def Quiet : (before : Lexeme) → List Lexeme → Prop
  | _, [] => True
  | before, l :: rest =>
    (l.1 = .identifier → before.1 ≠ .identifier ∧
      ((∃ sign ∈ rest.head?, assigns sign) → Opening before)) ∧ Quiet l rest

instance : DecidableRel Quiet := go
where
  go : (before : Lexeme) → (ls : List Lexeme) → Decidable (Quiet before ls)
    | _, [] => isTrue trivial
    | before, l :: rest =>
      have := go l rest
      inferInstanceAs (Decidable ((l.1 = .identifier → before.1 ≠ .identifier ∧
        ((∃ sign ∈ rest.head?, assigns sign) → Opening before)) ∧ Quiet l rest))

/-- `@Name`, perhaps with arguments, or the word `final`. -/
inductive Modifier where
  | annotate (first : String) (path : List String) (arguments : Option (List Lexeme))
  | final

namespace Modifier

def lexemes : Modifier → List Lexeme
  | annotate first path arguments =>
    punct "@" :: dotted first path ++ (arguments.map (group .paren)).getD []
  | final => [word "final"]

/-- The arguments of an annotation balance and hold no statements. -/
def WellFormed : Modifier → Prop
  | annotate _ _ arguments => ∀ inside ∈ arguments, Paired inside ∧ Quiet (punct "(") inside
  | final => True

instance : DecidablePred WellFormed := fun
  | annotate _ _ arguments =>
    inferInstanceAs (Decidable (∀ inside ∈ arguments, Paired inside ∧ Quiet (punct "(") inside))
  | final => .isTrue trivial

def isFinal : Modifier → Bool
  | annotate .. => false
  | final => true

end Modifier

/-- A name behind this type is declared even without a value. -/
def Declares (rules : RuleSet) (type : String) : Prop :=
  type ≠ "var" ∧ (rules.isPlainType type || rules.isBuilderType type) = true

instance (rules : RuleSet) : DecidablePred (Declares rules) := fun _ => inferInstanceAs (Decidable (_ ∧ _))

structure Parameter where
  modifiers : List Modifier
  type : String
  path : List String
  name : String

namespace Parameter

/-- Its modifiers. -/
def head (p : Parameter) : List Lexeme := p.modifiers.flatMap Modifier.lexemes

def lexemes (p : Parameter) : List Lexeme := p.head ++ (dotted p.type p.path ++ [word p.name])

def WellFormed (p : Parameter) : Prop := ∀ m ∈ p.modifiers, m.WellFormed

instance : DecidablePred WellFormed := fun p => inferInstanceAs (Decidable (∀ m ∈ p.modifiers, m.WellFormed))

/-- A `final` parameter with an undotted type that declares names. -/
def Shadows (rules : RuleSet) (p : Parameter) : Prop :=
  p.modifiers.any Modifier.isFinal = true ∧ p.path = [] ∧ Declares rules p.type

instance (rules : RuleSet) : DecidablePred (Shadows rules) := fun _ => inferInstanceAs (Decidable (_ ∧ _))

end Parameter

/-- A name and parameters in parentheses. -/
structure ParameterList where
  name : String
  parameters : List Parameter

namespace ParameterList

/-- Parameters with commas between them. -/
def separated : List Parameter → List Lexeme
  | [] => []
  | [p] => p.lexemes
  | p :: rest => p.lexemes ++ punct "," :: separated rest

/-- Parameters with a comma behind each. -/
def followed (ps : List Parameter) : List Lexeme := ps.flatMap fun p => p.lexemes ++ [punct ","]

def lexemes (c : ParameterList) : List Lexeme :=
  word c.name :: punct "(" :: (separated c.parameters ++ [punct ")"])

def WellFormed (c : ParameterList) : Prop := ∀ p ∈ c.parameters, p.WellFormed

instance : DecidablePred WellFormed := fun c => inferInstanceAs (Decidable (∀ p ∈ c.parameters, p.WellFormed))

theorem separated_cons {p : Parameter} {rest : List Parameter} (hrest : rest ≠ []) :
    separated (p :: rest) = p.lexemes ++ punct "," :: separated rest := by
  cases rest with
  | nil => exact absurd rfl hrest
  | cons q more => rfl

theorem separated_append (before : List Parameter) {after : List Parameter} (hafter : after ≠ []) :
    separated (before ++ after) = followed before ++ separated after := by
  induction before with
  | nil => rfl
  | cons p rest ih =>
      rw [List.cons_append, separated_cons (by simp [hafter]), ih, followed, followed, List.flatMap_cons,
        List.append_assoc, List.append_assoc]
      rfl

end ParameterList

open ParameterList

/-! ## Looking back -/

/-- An annotation is passed over. -/
theorem annotationStart_annotate {first : String} {path : List String}
    {arguments : Option (List Lexeme)} (h : ∀ inside ∈ arguments, Paired inside)
    (hr : Reads b i (Modifier.annotate first path arguments).lexemes) :
    b.annotationStart (i + (Modifier.annotate first path arguments).lexemes.length) =
      b.annotationStart i := by
  obtain ⟨hat, hr⟩ := hr
  obtain ⟨hname, harguments⟩ := reads_append.1 hr
  have hlength : i + (Modifier.annotate first path arguments).lexemes.length =
      i + 1 + (dotted first path).length + ((arguments.map (group .paren)).getD []).length := by
    rw [Modifier.lexemes, List.length_append, List.length_cons]
    omega
  obtain ⟨x, hlast⟩ := exists_last_dotted hname
  have hend : i + 1 + (dotted first path).length = i + 1 + 2 * path.length + 1 := by
    rw [length_dotted]
    omega
  have hbefore : b.beforeArguments (i + (Modifier.annotate first path arguments).lexemes.length) =
      i + 1 + (dotted first path).length := by
    rw [hlength]
    cases arguments with
    | none =>
        show b.beforeArguments (i + 1 + (dotted first path).length) = _
        rw [hend]
        exact beforeArguments_of_not hlast nofun
    | some inside => exact beforeArguments_group (h inside rfl) harguments
  have hstart : b.dottedStart (i + 1 + (dotted first path).length) = i + 1 :=
    (dottedStart_dotted hname).trans (dottedStart_of_not hat (by decide))
  have hident : (b.tokenBefore? (i + 1 + (dotted first path).length) 1).any (·.isIdent) = true := by
    rw [hend, isIdent_before hlast]
    rfl
  rw [Brackets.annotationStart]
  simp only [hbefore, hstart]
  rw [dif_pos ⟨hident, by omega⟩, isPunct_before hat, if_pos (decide_eq_true rfl), Nat.add_sub_cancel]

/-- What stands before a modifier or a type: the end of another modifier, or the parenthesis or the comma before
the parameter. -/
def Precedes (b : Brackets) (i : Nat) : Prop :=
  ∃ k l, i = k + 1 ∧ At b k l ∧ (l = punct "(" ∨ l = punct "," ∨ l = punct ")" ∨ l.1 = .identifier)

/-- Behind a parenthesis that opens, a comma, a dot or an at sign no statement begins. -/
theorem boundary_behind {text : String} (h : At b k (punct text)) (htext : text ∈ ["(", ",", ".", "@"]) :
    b.atBoundary (k + 1) = false ∧ b.atDeclarationBoundary (k + 1) = false := by
  obtain ⟨t, ht, hl⟩ := h.exists_token
  have hkind : t.kind = .punctuation := congrArg Prod.fst hl
  have hmem : t.text ∈ ["(", ",", ".", "@"] := (show t.text = text from congrArg Prod.snd hl) ▸ htext
  have hno : t.text ∉ [";", "\x7b", "\x7d", ")"] := fun hends =>
    (by decide : ∀ x ∈ ["(", ",", ".", "@"], x ∉ [";", "\x7b", "\x7d", ")"]) t.text hmem hends
  have hboundary : b.atBoundary (k + 1) = false := by
    rw [Brackets.atBoundary, Brackets.tokenBefore?_succ, ht]
    dsimp only
    rw [hkind]
    exact Bool.eq_false_iff.2 fun hends => hno (List.contains_iff_mem.1 hends)
  have hclosing : punct text ≠ punct ")" := by
    intro heq
    obtain rfl : text = ")" := congrArg Prod.snd heq
    revert htext
    decide
  have hstart : b.annotationStart (k + 1) = k + 1 := by
    rw [Brackets.annotationStart]
    simp only [beforeArguments_of_not h hclosing, isIdent_before h]
    exact dif_neg fun hident => by simp [punct] at hident
  refine ⟨hboundary, ?_⟩
  rw [Brackets.atDeclarationBoundary, hstart, hboundary, Bool.false_or, Brackets.tokenBefore?_succ, ht,
    Option.any_some, Token.isIdent, hkind]
  rfl

theorem Opening.boundary (hl : Opening l) (h : At b k l) :
    b.atBoundary (k + 1) = false ∧ b.atDeclarationBoundary (k + 1) = false := by
  rcases hl with rfl | rfl
  · exact boundary_behind h (by decide)
  · exact boundary_behind h (by decide)

/-- Behind a modifier a declaration can begin. -/
theorem boundary_modifierWord {x : String} (hx : x ∈ Brackets.modifierWords) (h : At b i (word x))
    (hno : ∀ k l, i = k + 1 → At b k l → l ≠ punct "." ∧ l ≠ punct "@") :
    b.atDeclarationBoundary (i + 1) = true := by
  obtain ⟨t, ht, hlex⟩ := h.exists_token
  have htext : t.text = x := congrArg Prod.snd hlex
  rw [Brackets.atDeclarationBoundary, annotationStart_word h hno, Brackets.tokenBefore?_succ, ht, Option.any_some,
    Token.isIdent, show t.kind = .identifier from congrArg Prod.fst hlex, htext, List.contains_iff_mem.2 hx]
  exact Bool.or_true _

/-- Behind `final` a declaration can begin. -/
theorem boundary_final (hb : Precedes b i) (h : At b i (word "final")) :
    b.atDeclarationBoundary (i + 1) = true := by
  obtain ⟨k, l, rfl, hat, hl⟩ := hb
  refine boundary_modifierWord (by decide) h fun k' l' hk hat' => ?_
  obtain rfl : k = k' := Nat.add_right_cancel hk
  obtain rfl : l = l' := Option.some.inj (hat.symm.trans hat')
  constructor
  · rintro rfl
    simp [punct] at hl
  · rintro rfl
    simp [punct] at hl

theorem boundary_modifier {m : Modifier} (hm : m.WellFormed) (hb : Precedes b i)
    (hr : Reads b i m.lexemes) :
    b.atDeclarationBoundary (i + m.lexemes.length) = (m.isFinal || b.atDeclarationBoundary i) := by
  cases m with
  | annotate first path arguments =>
      rw [Brackets.atDeclarationBoundary, annotationStart_annotate (fun inside h => (hm inside h).1) hr]
      rfl
  | final => exact boundary_final hb hr.1

theorem precedes_modifier {m : Modifier} (hr : Reads b i m.lexemes) :
    Precedes b (i + m.lexemes.length) := by
  cases m with
  | annotate first path arguments =>
      obtain ⟨hname, harguments⟩ := reads_append.1 hr.2
      cases arguments with
      | none =>
          obtain ⟨x, hlast⟩ := exists_last_dotted hname
          refine ⟨_, word x, ?_, hlast, .inr (.inr (.inr rfl))⟩
          rw [Modifier.lexemes, List.length_append, List.length_cons, length_dotted]
          show i + (2 * path.length + 1 + 1 + 0) = _
          omega
      | some inside =>
          have harguments : Reads _ _ (group .paren inside) := harguments
          have hclosing := (reads_group harguments).2.2
          refine ⟨_, _, ?_, hclosing, .inr (.inr (.inl rfl))⟩
          rw [Modifier.lexemes, List.length_append, List.length_cons, Option.map_some, Option.getD_some,
            length_group]
          omega
  | final => exact ⟨i, word "final", rfl, hr.1, .inr (.inr (.inr rfl))⟩

/-- Behind modifiers a declaration can begin if one of them is `final`, or it can begin before them. -/
theorem boundary_modifiers {ms : List Modifier} {i : Nat} (hms : ∀ m ∈ ms, m.WellFormed)
    (hb : Precedes b i) (hr : Reads b i (ms.flatMap Modifier.lexemes)) :
    b.atDeclarationBoundary (i + (ms.flatMap Modifier.lexemes).length) =
      (ms.any Modifier.isFinal || b.atDeclarationBoundary i) := by
  induction ms generalizing i with
  | nil => rfl
  | cons m rest ih =>
      rw [List.flatMap_cons] at hr ⊢
      obtain ⟨hfirst, hrest⟩ := reads_append.1 hr
      rw [List.length_append, ← Nat.add_assoc,
        ih (fun m' hm => hms m' (List.mem_cons_of_mem _ hm)) (precedes_modifier hfirst) hrest,
        boundary_modifier (hms m List.mem_cons_self) hb hfirst, List.any_cons, ← Bool.or_assoc,
        Bool.or_comm (rest.any _)]

/-- Before the type of a parameter a declaration can begin if one of its modifiers is `final`. -/
theorem boundary_parameter {p : Parameter} {opening : Lexeme} (hp : p.WellFormed)
    (hopening : Opening opening) (hat : At b k opening)
    (hr : Reads b (k + 1) p.head) :
    b.atDeclarationBoundary (k + 1 + p.head.length) = p.modifiers.any Modifier.isFinal := by
  have hprecedes : Precedes b (k + 1) := ⟨k, opening, rfl, hat, hopening.imp_right .inl⟩
  rw [Parameter.head, boundary_modifiers hp hprecedes hr, (hopening.boundary hat).2, Bool.or_false]

/-! ## Looking ahead -/

/-- What stands behind a word begins no declarator and no assignment: it is no word and no assignment sign, or a
word that is followed by nothing that ends a declarator. -/
def Leads (b : Brackets) (i : Nat) : Prop :=
  ∃ l, At b i l ∧ (l.1 ≠ .identifier ∧ ¬ assigns l ∨
    ∃ x l', l = word x ∧ At b (i + 1) l' ∧ l' ∉ declaratorEnds)

/-- A parameter begins with an at sign or a word. -/
theorem exists_head {ms : List Modifier} {type name : String} {path : List String}
    (hr : Reads b i (ms.flatMap Modifier.lexemes ++ (dotted type path ++ [word name]))) :
    ∃ l, At b i l ∧ (l = punct "@" ∨ ∃ x, l = word x) := by
  cases ms with
  | nil => exact ⟨word type, hr.1, .inr ⟨type, rfl⟩⟩
  | cons m rest =>
      cases m with
      | annotate first path arguments => exact ⟨punct "@", hr.1, .inl rfl⟩
      | final => exact ⟨word "final", hr.1, .inr ⟨"final", rfl⟩⟩

/-- The rest of a parameter from a modifier or the type on. -/
theorem leads_parameter {ms : List Modifier} {type name : String} {path : List String}
    (hr : Reads b i (ms.flatMap Modifier.lexemes ++ (dotted type path ++ [word name]))) : Leads b i := by
  cases ms with
  | nil =>
      refine ⟨word type, hr.1, .inr ⟨type, ?_⟩⟩
      cases path with
      | nil => exact ⟨word name, rfl, hr.2.1, by simp [declaratorEnds, word, op, punct]⟩
      | cons x rest => exact ⟨punct ".", rfl, hr.2.1, by decide⟩
  | cons m rest =>
      cases m with
      | annotate first path arguments => exact ⟨punct "@", hr.1, .inl ⟨by decide, by decide⟩⟩
      | final =>
          have hrest : Reads b (i + 1)
              (rest.flatMap Modifier.lexemes ++ (dotted type path ++ [word name])) := hr.2
          obtain ⟨l, hl, hlex⟩ := exists_head hrest
          refine ⟨word "final", hr.1, .inr ⟨"final", l, rfl, hl, ?_⟩⟩
          rcases hlex with rfl | ⟨x, rfl⟩
          · decide
          · simp [declaratorEnds, word, op, punct]

/-- Parameters and what stands behind them. -/
theorem leads_separated {ps : List Parameter} (hne : ps ≠ []) (hr : Reads b i (separated ps ++ ls)) :
    Leads b i := by
  cases ps with
  | nil => exact absurd rfl hne
  | cons p rest =>
      cases rest with
      | nil => exact leads_parameter (reads_append.1 hr).1
      | cons q more =>
          rw [separated_cons (List.cons_ne_nil q more), List.append_assoc] at hr
          exact leads_parameter (reads_append.1 hr).1

/-! ## Calm places -/

variable {cx : FlowContext}

theorem calm_of_leads (hi : i < cx.scope.size) (h : Leads cx.scope.toBrackets (i + 1)) : cx.Calm i := by
  obtain ⟨l, hat, hl | ⟨x, l', rfl, hat', hno⟩⟩ := h
  · exact calm_before hi hat hl
  · exact calm_of_words hi hat hat' fun hends => absurd hends hno

/-- All places from `i` up to `stop` are calm. -/
def CalmFrom (cx : FlowContext) (i stop : Nat) : Prop := ∀ j, i ≤ j → j < stop → cx.Calm j

namespace CalmFrom

theorem nil (i : Nat) : CalmFrom cx i i := Throughout.nil i

theorem cons {stop : Nat} (h : cx.Calm i) (hrest : CalmFrom cx (i + 1) stop) : CalmFrom cx i stop :=
  Throughout.cons h hrest

theorem append {i j k : Nat} (h : CalmFrom cx i j) (h' : CalmFrom cx j k) : CalmFrom cx i k := Throughout.append h h'

end CalmFrom

/-- The arguments of an annotation. -/
theorem calm_quiet {before : Lexeme} {i : Nat} (h : Quiet before ls)
    (hbefore : At cx.scope.toBrackets i before) (hr : Reads cx.scope.toBrackets (i + 1) ls)
    (hend : At cx.scope.toBrackets (i + 1 + ls.length) (punct ")")) :
    CalmFrom cx (i + 1) (i + 1 + ls.length) := by
  induction ls generalizing before i with
  | nil => exact .nil _
  | cons l rest ih =>
      obtain ⟨hl, hrest⟩ := h
      obtain ⟨hat, hbehind⟩ := hr
      have hlength : i + 1 + (l :: rest).length = i + 1 + 1 + rest.length := by
        rw [List.length_cons]
        omega
      rw [hlength] at hend ⊢
      refine .cons ?_ (ih hrest hat hbehind hend)
      by_cases hword : l.1 = .identifier
      · obtain ⟨-, hassign⟩ := hl hword
        cases rest with
        | nil => exact calm_before hat.lt_size hend (by decide)
        | cons next rest =>
            refine calm_of_next hat.lt_size hbehind.1 (fun hnext => (hrest.1 hnext).1 hword) fun hsign => ?_
            exact ((hassign ⟨next, rfl, hsign⟩).boundary hbefore).1
      · exact calm_of_not_word hat hword

/-- A dotted name up to its last part. -/
theorem calm_dotted {first : String} {path : List String} {i : Nat}
    (hr : Reads cx.scope.toBrackets i (dotted first path)) :
    CalmFrom cx i (i + 2 * path.length) := by
  induction path generalizing first i with
  | nil => exact .nil i
  | cons x rest ih =>
      obtain ⟨hfirst, hdot, hrest⟩ := hr
      rw [List.length_cons, show i + 2 * (rest.length + 1) = i + 2 + 2 * rest.length by omega]
      refine .cons (calm_before hfirst.lt_size hdot (by decide)) ?_
      exact .cons (calm_of_not_word hdot (by decide)) (ih (i := i + 2) hrest)

theorem calm_modifier {m : Modifier} (hm : m.WellFormed) (hr : Reads cx.scope.toBrackets i m.lexemes)
    (hnext : Leads cx.scope.toBrackets (i + m.lexemes.length)) :
    CalmFrom cx i (i + m.lexemes.length) := by
  cases m with
  | final => exact .cons (calm_of_leads hr.1.lt_size hnext) (.nil _)
  | annotate first path arguments =>
      obtain ⟨hat, hr⟩ := hr
      obtain ⟨hname, harguments⟩ := reads_append.1 hr
      obtain ⟨x, hlast⟩ := exists_last_dotted hname
      have hlength : i + (Modifier.annotate first path arguments).lexemes.length =
          i + 1 + (dotted first path).length + ((arguments.map (group .paren)).getD []).length := by
        rw [Modifier.lexemes, List.length_append, List.length_cons]
        omega
      have hend : i + 1 + (dotted first path).length = i + 1 + 2 * path.length + 1 := by
        rw [length_dotted]
        omega
      rw [hlength, hend] at hnext ⊢
      rw [hend] at harguments
      refine .cons (calm_of_not_word hat (by decide)) ((calm_dotted hname).append ?_)
      cases arguments with
      | none => exact .cons (calm_of_leads hlast.lt_size hnext) (.nil _)
      | some inside =>
          have harguments : Reads _ _ (group .paren inside) := harguments
          obtain ⟨hopening, hinside, hclosing⟩ := reads_group harguments
          rw [Option.map_some, Option.getD_some, length_group,
            show i + 1 + 2 * path.length + 1 + (inside.length + 2) =
              i + 1 + 2 * path.length + 1 + 1 + inside.length + 1 by omega]
          refine .cons (calm_before hlast.lt_size hopening (by decide)) ?_
          refine .cons (calm_of_not_word hopening (by decide)) ?_
          refine (calm_quiet (hm inside rfl).2 hopening hinside hclosing).append ?_
          exact .cons (calm_of_not_word hclosing (by decide)) (.nil _)

theorem calm_modifiers {ms : List Modifier} {type name : String} {path : List String} {i : Nat}
    (hms : ∀ m ∈ ms, m.WellFormed)
    (hr : Reads cx.scope.toBrackets i (ms.flatMap Modifier.lexemes ++ (dotted type path ++ [word name]))) :
    CalmFrom cx i (i + (ms.flatMap Modifier.lexemes).length) := by
  induction ms generalizing i with
  | nil => exact .nil i
  | cons m rest ih =>
      rw [List.flatMap_cons, List.append_assoc] at hr
      obtain ⟨hfirst, hrest⟩ := reads_append.1 hr
      rw [List.flatMap_cons, List.length_append, ← Nat.add_assoc]
      exact (calm_modifier (hms m List.mem_cons_self) hfirst (leads_parameter hrest)).append
        (ih (fun m' hm => hms m' (List.mem_cons_of_mem _ hm)) hrest)

/-! ## Types and names -/

/-- A type and a name before a comma are taken up to the next parameter.  Unless the type is `var`, the name is
declared. -/
theorem declarators_ends {C : FlowError → Prop} {P : FlowState → Prop} {s : FlowState} {x : String}
    (typeName : String) (line : Nat) (hr : Reads cx.scope.toBrackets k [word x, punct ","])
    (hnext : Leads cx.scope.toBrackets (k + 2))
    (h : Ends C P (if typeName = "var" then .ok s else cx.declare s x (cx.kindOfType typeName))) :
    Ends C (fun r => P r.1) (cx.declarators s typeName line k) := by
  obtain ⟨hname, hcomma, -⟩ := hr
  obtain ⟨t, -, ht, hl, -, -⟩ := hname.fetch
  have htext : t.text = x := congrArg Prod.snd hl
  have hsign : ¬ cx.scope.isOp (k + 1) "=" = true := by
    rw [hcomma.isOp]
    decide
  have hfirst : Ends C (fun r => r.2 = k + 1 ∧ P r.1) (cx.declarator s typeName line k) := by
    rw [FlowContext.declarator, ht]
    show Ends C _ (if cx.scope.isOp (k + 1) "=" = true then _ else _)
    rw [if_neg hsign, htext]
    by_cases hvar : typeName = "var"
    · rw [if_pos hvar] at h
      rw [if_neg (by simpa using hvar)]
      exact ⟨rfl, h⟩
    · rw [if_neg hvar] at h
      rw [if_pos (by simpa using hvar)]
      exact h.map fun _ hs => ⟨rfl, hs⟩
  rw [FlowContext.declarators]
  refine hfirst.bind ?_
  rintro ⟨s', stop⟩ ⟨rfl, hs'⟩
  dsimp only
  split
  · split
    · next hident =>
        split
        · next hends =>
            obtain ⟨l, hat, hno | ⟨y, l', -, hat', hno⟩⟩ := hnext
            · rw [hat.isIdent, beq_iff_eq] at hident
              exact absurd hident hno.1
            · exact absurd ((endsDeclarator_iff hat').1 hends) hno
        · exact hs'
    · exact hs'
  · exact hs'

theorem declaration?_of_untracked {s : FlowState} {type : String} (h : At cx.scope.toBrackets i (word type))
    (hvar : type ≠ "var")
    (hrules : (cx.rules.isPlainType type || cx.rules.isBuilderType type) = false) :
    cx.declaration? s i = .ok none := by
  obtain ⟨t, ht, hl⟩ := h.exists_token
  have htext : t.text = type := congrArg Prod.snd hl
  have htracked : (type == "var" || cx.rules.isPlainType type || cx.rules.isBuilderType type) = false := by
    rw [Bool.or_assoc, hrules, beq_false_of_ne hvar]
    rfl
  rw [FlowContext.declaration?, ht]
  dsimp only
  rw [htext, htracked, Bool.and_false]
  rfl

/-- The place of a type. -/
theorem calm_type {type name : String} (hr : Reads cx.scope.toBrackets i [word type, word name, l])
    (hl : l = punct ")" ∨ l = punct "," ∧ Leads cx.scope.toBrackets (i + 3) ∧
      ¬ (cx.scope.atDeclarationBoundary i = true ∧ Declares cx.rules type)) : cx.Calm i := by
  obtain ⟨htype, hname, hbehind, -⟩ := hr
  rcases hl with rfl | ⟨rfl, hnext, hno⟩
  · exact calm_of_words htype.lt_size hname hbehind fun hends => absurd hends (by decide)
  · by_cases hboundary : cx.scope.atDeclarationBoundary i = true
    · by_cases hvar : type = "var"
      · intro s _
        have hends : cx.scope.endsDeclarator (i + 2) = true := (endsDeclarator_iff hbehind).2 (by decide)
        refine step_of_declaration (declaration?_eq hboundary ⟨htype, hname, trivial⟩ hends (.inl hvar)) ?_
        refine declarators_ends type _ ⟨hname, hbehind, trivial⟩ hnext ?_
        rw [if_pos hvar]
        exact .rfl
      · have hrules : (cx.rules.isPlainType type || cx.rules.isBuilderType type) = false :=
          Bool.eq_false_iff.2 fun htracked => hno ⟨hboundary, hvar, htracked⟩
        exact FlowContext.calm_of_none htype.lt_size (fun _ => declaration?_of_untracked htype hvar hrules)
          fun _ => assignment?_before_word hname
    · exact calm_of_words htype.lt_size hname hbehind fun _ => Bool.eq_false_iff.2 hboundary

/-- A type and a name, and the parenthesis or the comma behind them. -/
theorem calm_typed {type name : String} {path : List String} {i : Nat}
    (hr : Reads cx.scope.toBrackets i (dotted type path ++ [word name, l]))
    (hl : l = punct ")" ∨ l = punct "," ∧ Leads cx.scope.toBrackets (i + (dotted type path).length + 2) ∧
      ¬ (cx.scope.atDeclarationBoundary i = true ∧ path = [] ∧ Declares cx.rules type)) :
    CalmFrom cx i (i + (dotted type path).length + 2) := by
  induction path generalizing type i with
  | nil =>
      obtain ⟨htype, hname, hbehind, -⟩ := hr
      have hpunct : l.1 ≠ .identifier ∧ ¬ assigns l := by
        rcases hl with rfl | ⟨rfl, -⟩
        · decide
        · decide
      refine .cons (calm_type ⟨htype, hname, hbehind, trivial⟩ (hl.imp_right ?_)) ?_
      · rintro ⟨hcomma, hnext, hno⟩
        exact ⟨hcomma, hnext, fun ⟨hboundary, h⟩ => hno ⟨hboundary, rfl, h⟩⟩
      · refine .cons (calm_before hname.lt_size hbehind hpunct) ?_
        exact .cons (calm_of_not_word hbehind hpunct.1) (.nil _)
  | cons x rest ih =>
      obtain ⟨htype, hdot, hrest⟩ := hr
      have hlength : i + (dotted type (x :: rest)).length = i + 2 + (dotted x rest).length := by
        rw [length_dotted, length_dotted, List.length_cons]
        omega
      rw [hlength] at hl ⊢
      refine .cons (calm_before htype.lt_size hdot (by decide)) ?_
      refine .cons (calm_of_not_word hdot (by decide)) (ih (i := i + 2) hrest (hl.imp_right ?_))
      refine fun ⟨hcomma, hnext, _⟩ => ⟨hcomma, hnext, fun ⟨hboundary, _⟩ => ?_⟩
      rw [(boundary_behind hdot (by decide)).2] at hboundary
      cases hboundary

/-! ## Parameters -/

/-- A parameter, and the parenthesis or the comma behind it. -/
theorem calm_parameter {p : Parameter} {opening l : Lexeme} (hp : p.WellFormed)
    (hopening : Opening opening) (hat : At cx.scope.toBrackets k opening)
    (hr : Reads cx.scope.toBrackets (k + 1) (p.lexemes ++ [l]))
    (hl : l = punct ")" ∨ l = punct "," ∧ Leads cx.scope.toBrackets (k + 1 + p.lexemes.length + 1) ∧
      ¬ p.Shadows cx.rules) :
    CalmFrom cx (k + 1) (k + 1 + p.lexemes.length + 1) := by
  have hlength : k + 1 + p.lexemes.length + 1 =
      k + 1 + p.head.length + (dotted p.type p.path).length + 2 := by
    rw [Parameter.lexemes, List.length_append, List.length_append]
    show k + 1 + (_ + (_ + 1)) + 1 = _
    omega
  rw [hlength] at hl ⊢
  have hmodifiers := calm_modifiers hp (reads_append.1 hr).1
  rw [Parameter.lexemes, List.append_assoc, List.append_assoc] at hr
  obtain ⟨hhead, hrest⟩ := reads_append.1 hr
  refine hmodifiers.append (calm_typed hrest (hl.imp_right ?_))
  rintro ⟨hcomma, hnext, hno⟩
  have hboundary := boundary_parameter hp hopening hat hhead
  exact ⟨hcomma, hnext, fun ⟨hbegins, h⟩ => hno ⟨hboundary.symm.trans hbegins, h⟩⟩

/-- The places of parameters and of the parenthesis behind them. -/
theorem calm_separated {ps : List Parameter} {opening : Lexeme} {k : Nat}
    (hps : ∀ p ∈ ps, p.WellFormed) (hno : ∀ p ∈ ps.dropLast, ¬ p.Shadows cx.rules)
    (hopening : Opening opening) (hat : At cx.scope.toBrackets k opening)
    (hr : Reads cx.scope.toBrackets (k + 1) (separated ps ++ [punct ")"])) :
    CalmFrom cx (k + 1) (k + 1 + (separated ps).length + 1) := by
  induction ps generalizing k opening with
  | nil => exact .cons (calm_of_not_word hr.1 (by decide)) (.nil _)
  | cons p rest ih =>
      have hp := hps p List.mem_cons_self
      cases rest with
      | nil => exact calm_parameter hp hopening hat hr (.inl rfl)
      | cons q more =>
          rw [separated_cons (List.cons_ne_nil q more), List.append_assoc, List.cons_append] at hr
          obtain ⟨hfirst, hcomma, hrest⟩ := reads_append.1 hr
          rw [separated_cons (List.cons_ne_nil q more), List.length_append, List.length_cons,
            show k + 1 + (p.lexemes.length + ((separated (q :: more)).length + 1)) + 1 =
              k + 1 + p.lexemes.length + 1 + (separated (q :: more)).length + 1 by omega]
          refine (calm_parameter hp hopening hat (reads_append.2 ⟨hfirst, hcomma, trivial⟩) (.inr ?_)).append ?_
          · exact ⟨rfl, leads_separated (List.cons_ne_nil q more) hrest, hno p List.mem_cons_self⟩
          · exact ih (fun p' h => hps p' (List.mem_cons_of_mem _ h))
              (fun p' h => hno p' (List.mem_cons_of_mem _ h)) (.inr rfl) hcomma hrest

theorem calm_list {c : ParameterList} (hc : c.WellFormed) (hr : Reads cx.scope.toBrackets i c.lexemes)
    (hno : ∀ p ∈ c.parameters.dropLast, ¬ p.Shadows cx.rules) :
    CalmFrom cx i (i + c.lexemes.length) := by
  obtain ⟨hname, hopening, hrest⟩ := hr
  have hlength : i + c.lexemes.length = i + 1 + 1 + (separated c.parameters).length + 1 := by
    rw [lexemes, List.length_cons, List.length_cons, List.length_append]
    show i + (_ + 1 + 1 + 1) = _
    omega
  rw [hlength]
  refine .cons (calm_before hname.lt_size hopening (by decide)) ?_
  refine .cons (calm_of_not_word hopening (by decide)) ?_
  exact calm_separated hc hno (.inl rfl) hopening hrest

/-- Behind parameters with commas a comma stands, or what stands before them if there are none. -/
theorem opening_followed {ps : List Parameter} {opening : Lexeme} {k : Nat}
    (hopening : Opening opening) (hat : At b k opening)
    (hr : Reads b (k + 1) (followed ps)) :
    ∃ opening, Opening opening ∧ At b (k + (followed ps).length) opening := by
  induction ps generalizing opening k with
  | nil => exact ⟨opening, hopening, hat⟩
  | cons p rest ih =>
      rw [followed, List.flatMap_cons, List.append_assoc] at hr
      obtain ⟨-, hcomma, hrest⟩ := reads_append.1 hr
      have hlength : k + (followed (p :: rest)).length =
          k + 1 + p.lexemes.length + (followed rest).length := by
        rw [followed, List.flatMap_cons, List.length_append, List.length_append]
        show k + (_ + 1 + (followed rest).length) = _
        omega
      rw [hlength]
      exact ih (.inr rfl) hcomma hrest

/-- A parameter in front of others stands behind the parenthesis or a comma, and before a comma and another
parameter. -/
theorem reads_parameter {c : ParameterList} {p : Parameter} {before after : List Parameter}
    (hr : Reads b i c.lexemes) (hp : c.parameters = before ++ p :: after) (hafter : after ≠ []) :
    ∃ opening, Opening opening ∧
      At b (i + 1 + (followed before).length) opening ∧
      Reads b (i + 1 + (followed before).length + 1) (p.lexemes ++ [punct ","]) ∧
      Leads b (i + 1 + (followed before).length + 1 + p.lexemes.length + 1) := by
  obtain ⟨-, hat, hr⟩ := hr
  rw [hp, separated_append before (List.cons_ne_nil p after), separated_cons hafter, List.append_assoc,
    List.append_assoc, List.cons_append] at hr
  obtain ⟨hbefore, hr⟩ := reads_append.1 hr
  rw [show i + 1 + 1 + (followed before).length = i + 1 + (followed before).length + 1 by omega] at hr
  obtain ⟨opening, hopening, hat⟩ := opening_followed (.inl rfl) hat hbefore
  obtain ⟨hread, hcomma, hrest⟩ := reads_append.1 hr
  exact ⟨opening, hopening, hat, reads_append.2 ⟨hread, hcomma, trivial⟩, leads_separated hafter hrest⟩

/-- A name that is declared has no variable. -/
theorem declare_ends (s : FlowState) (name : String) (kind : VariableKind) :
    Ends cx.Cause (fun s' => s'.arena.get? name = none ∧ s'.declaredKind? name = some kind)
      (cx.declare s name kind) := by
  cases hdeclare : cx.declare s name kind with
  | error err => exact (cx.declare_shows s name kind).sound.of_error hdeclare
  | ok s' =>
      obtain ⟨s'', hdiscard, rfl⟩ := ok_of_map_eq_ok hdeclare
      have hfree : s''.arena.get? name = none := FlowContext.get?_of_discard hdiscard
      exact ⟨hfree, FlowState.declaredKind?_declareKind_self s'' name kind⟩

/-- Is the name of a parameter declared?  No parameter list changes variables or declared names, unless an
annotation in it reads as a chain of calls on a tracked builder or a parameter before the last one shadows its name:
the step that comes to the type of such a parameter declares the name, and a variable that it had is lost. -/
theorem parameterList_untouched_unless_shadows {c : ParameterList} (hc : c.WellFormed)
    (hr : Reads cx.scope.toBrackets i c.lexemes) (s : FlowState) :
    ((∀ p ∈ c.parameters.dropLast, ¬ p.Shadows cx.rules) →
      (∀ j, i ≤ j → j < i + c.lexemes.length → cx.NoChain s j) →
      let sinks := ∃ j, i ≤ j ∧ j < i + c.lexemes.length ∧ cx.scope.underSink j = true
      Ends cx.Cause (fun r => s.Untouched sinks r.1) (cx.stepsUpTo s i (i + c.lexemes.length))) ∧
    ∀ before p after, c.parameters = before ++ p :: after → after ≠ [] → p.Shadows cx.rules →
      Ends cx.Cause
        (fun r => r.1.arena.get? p.name = none ∧ r.1.declaredKind? p.name = some (cx.kindOfType p.type))
        (cx.step s (i + 2 + (followed before).length + p.head.length)) := by
  refine ⟨fun hno hchain => FlowContext.stepsUpTo_untouched (calm_list hc hr hno) hchain (Nat.le_refl i), ?_⟩
  rintro before p after hparameters hafter ⟨hfinal, hpath, hvar, hrules⟩
  have hp : p.WellFormed := hc p (hparameters ▸ List.mem_append_right _ List.mem_cons_self)
  obtain ⟨opening, hopening, hat, hread, hnext⟩ := reads_parameter hr hparameters hafter
  have hplace : i + 2 + (followed before).length + p.head.length =
      i + 1 + (followed before).length + 1 + p.head.length := by
    omega
  have hlength : p.lexemes.length = p.head.length + 2 := by
    rw [Parameter.lexemes, hpath, List.length_append]
    rfl
  rw [hlength, show ∀ n m, n + (m + 2) + 1 = n + m + 1 + 2 by omega] at hnext
  rw [Parameter.lexemes, hpath, List.append_assoc] at hread
  obtain ⟨hhead, htype, hname, hcomma, -⟩ := reads_append.1 hread
  have hboundary := (boundary_parameter hp hopening hat hhead).trans hfinal
  have hends := (endsDeclarator_iff hcomma).2 (by decide)
  have hdeclares : Ends cx.Cause
      (fun s' : FlowState => s'.arena.get? p.name = none ∧ s'.declaredKind? p.name = some (cx.kindOfType p.type))
      (if p.type = "var" then .ok s else cx.declare s p.name (cx.kindOfType p.type)) := by
    rw [if_neg hvar]
    exact declare_ends s p.name (cx.kindOfType p.type)
  rw [hplace]
  refine step_of_declaration (declaration?_eq hboundary ⟨htype, hname, trivial⟩ hends (.inr hrules)) ?_
  exact declarators_ends p.type _ ⟨hname, hcomma, trivial⟩ hnext hdeclares

/-- Two parameter lists with a parameter that is called like a variable. -/
def overloaded : FlowContext :=
  .ofTokens .standard RuleSet.standard.classifier standardPlaceholder
    (significant ((tokenize
      "String a = \"SELECT 1\"; void f(@A(x = 1) String a, final String b) { } void f(final String a, int b) { }"
      ).toOption.getD []))

/-- The state in which the variable is bound. -/
def bound : FlowState := ((overloaded.step .start 0).toOption.getD (.start, 0)).1

/-- The first list: a `final` parameter comes last. -/
def harmless : ParameterList where
  name := "f"
  parameters :=
    [⟨[.annotate "A" [] (some [word "x", op "=", (.other, "1")])], "String", [], "a"⟩,
      ⟨[.final], "String", [], "b"⟩]

/-- The second list: one comes first. -/
def shadowing : ParameterList where
  name := "f"
  parameters := [⟨[.final], "String", [], "a"⟩, ⟨[], "int", [], "b"⟩]

/-- The first list leaves the variable alone, and in the second it is lost. -/
theorem parameterList_overloaded :
    (bound.arena.get? "a").isSome = true ∧
      (∃ r, overloaded.stepsUpTo bound 6 22 = .ok r ∧ r.1.arena = bound.arena ∧
        r.1.declared = bound.declared) ∧
      ∃ r, overloaded.step bound 28 = .ok r ∧ r.1.arena.get? "a" = none := by
  -- evaluated at once, since each evaluation cuts the source anew
  obtain ⟨htracked, hplain, hlist, hlist', hnone, hruns, hsteps⟩ :
      (bound.arena.get? "a").isSome = true ∧ (∀ v ∈ bound.arena, v.kind = .plain) ∧
        harmless.lexemes <+: (overloaded.scope.tokens.toList.drop 6).map lexeme ∧
        shadowing.lexemes <+: (overloaded.scope.tokens.toList.drop 25).map lexeme ∧
        (∀ j < 22, overloaded.scope.underSink j = false) ∧
        (overloaded.stepsUpTo bound 6 22).toOption.isSome = true ∧
        (overloaded.step bound 28).toOption.isSome = true := by
    decide +kernel
  have hchain : ∀ j, overloaded.NoChain bound j := by
    intro j name _ hbuilder
    obtain ⟨v, hv, hkind⟩ := Option.map_eq_some_iff.1 hbuilder
    have hplain := hplain v (List.mem_of_find?_eq_some hv)
    rw [hkind] at hplain
    cases hplain
  have hsinks : ¬ ∃ j, 6 ≤ j ∧ j < 6 + harmless.lexemes.length ∧ overloaded.scope.underSink j = true := by
    rintro ⟨j, -, hlt, hsink⟩
    rw [hnone j hlt] at hsink
    cases hsink
  have hshadows : ∀ p ∈ harmless.parameters.dropLast, ¬ p.Shadows overloaded.rules := by decide +kernel
  have huntouched := (parameterList_untouched_unless_shadows (by decide +kernel) (reads_front hlist)
    bound).1 hshadows fun j _ _ => hchain j
  have hlost := (parameterList_untouched_unless_shadows (by decide +kernel) (reads_front hlist')
    bound).2 [] _ _ rfl (List.cons_ne_nil _ _) (by decide +kernel)
  refine ⟨htracked, ?_, ?_⟩
  · cases hrun : overloaded.stepsUpTo bound 6 22 with
    | error err =>
        rw [hrun] at hruns
        cases hruns
    | ok r =>
        have hr := huntouched.of_ok hrun
        exact ⟨r, rfl, hr.marks hsinks, hr.declared⟩
  · cases hstep : overloaded.step bound 28 with
    | error err =>
        rw [hstep] at hsteps
        cases hsteps
    | ok r => exact ⟨r, rfl, (hlost.of_ok hstep).1⟩

end EmbeddedSql.Written
