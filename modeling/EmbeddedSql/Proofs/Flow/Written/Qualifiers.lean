/-
# Annotations and modifiers before a declaration

Annotations `@a.b.C` and `@a.b.C(…)` and modifiers stand before a declaration in any order (`Qualifier`).  They do not
hide it, for two reasons:

| | |
| :-- | :-- |
| looking back from the type | annotations are passed over up to a modifier, or to what stands before all of them |
| going forward to the type | nothing stands in them, so they are read loosely (`idle_qualifier`) |

So the declaration is followed from the same variables as without them, and what it does is the same
(`FlowContext.Inserted`).

There is one exception: `@sb.append(…)` with a tracked builder `sb` is taken for a call on the builder
(`Qualifier.Chains`), since only the dot before a name is looked for and not the at sign.  The chain goes on to the end
of the statement, which is that of the declaration, and the declaration is passed over.
-/
import EmbeddedSql.Proofs.Flow.Standing
import EmbeddedSql.Proofs.Flow.Written.Initializers
import EmbeddedSql.Proofs.Flow.Written.Parameters

namespace EmbeddedSql

open StraightLine Written

variable {b : Brackets} {cx : FlowContext} {s : FlowState} {i j k : Nat} {l : Lexeme} {ls : List Lexeme}

namespace Written

/-! ## Syntax -/

/-- An annotation, perhaps with arguments, or a modifier. -/
inductive Qualifier where
  | annotate (first : String) (path : List String) (arguments : Option (List Lexeme))
  | modifier (name : String)

namespace Qualifier

def lexemes : Qualifier → List Lexeme
  | annotate first path arguments => (Modifier.annotate first path arguments).lexemes
  | modifier x => [word x]

/-- Arguments balance, and modifiers are those of declarations. -/
def WellFormed : Qualifier → Prop
  | annotate _ _ arguments => ∀ inside ∈ arguments, Paired inside
  | modifier x => x ∈ Brackets.modifierWords

instance : DecidablePred WellFormed := fun
  | annotate _ _ arguments => inferInstanceAs (Decidable (∀ inside ∈ arguments, Paired inside))
  | modifier x => inferInstanceAs (Decidable (x ∈ Brackets.modifierWords))

/-- It begins like a chain of calls on a tracked builder. -/
def Chains (s : FlowState) : Qualifier → Prop
  | annotate first [x] (some _) =>
    x ∈ ["append", "setLength"] ∧ (s.arena.get? first).map (·.kind) = some .builder
  | _ => False

instance (s : FlowState) : DecidablePred (Chains s) := fun
  | annotate _ [_] (some _) => inferInstanceAs (Decidable (_ ∧ _))
  | annotate _ [] _ | annotate _ [_] none | annotate _ (_ :: _ :: _) _ | modifier _ => isFalse id

/-- Where it stands, no statement stands in its arguments, and creation expressions in them end there. -/
def PlainAt (cx : FlowContext) (s : FlowState) (i : Nat) : Qualifier → Prop
  | annotate first path (some inside) =>
    let lower := i + 1 + (dotted first path).length + 1
    (∀ j, lower ≤ j → j < lower + inside.length → cx.statementAt s j = false) ∧
      cx.scope.CreationsEnd lower (lower + inside.length)
  | _ => True

instance (cx : FlowContext) (s : FlowState) (i : Nat) : DecidablePred (PlainAt cx s i) := fun
  | annotate first path (some inside) =>
    let lower := i + 1 + (dotted first path).length + 1
    have := Nat.decidableLoHi lower (lower + inside.length) fun j => cx.statementAt s j = false
    inferInstanceAs (Decidable (_ ∧ cx.scope.CreationsEnd lower (lower + inside.length)))
  | annotate _ _ none | modifier _ => isTrue trivial

/-- The same of qualifiers that stand one behind the other. -/
def AllPlainAt (cx : FlowContext) (s : FlowState) (i : Nat) : List Qualifier → Prop
  | [] => True
  | q :: rest => q.PlainAt cx s i ∧ AllPlainAt cx s (i + q.lexemes.length) rest

instance (cx : FlowContext) (s : FlowState) (i : Nat) : DecidablePred (AllPlainAt cx s i) := go i
where
  go : (i : Nat) → (qs : List Qualifier) → Decidable (AllPlainAt cx s i qs)
    | _, [] => isTrue trivial
    | i, q :: rest =>
      have := go (i + q.lexemes.length) rest
      inferInstanceAs (Decidable (q.PlainAt cx s i ∧ AllPlainAt cx s (i + q.lexemes.length) rest))

theorem AllPlainAt.of_append {qs qs' : List Qualifier} {i : Nat} (h : AllPlainAt cx s i (qs ++ qs')) :
    AllPlainAt cx s i qs := by
  induction qs generalizing i with
  | nil => trivial
  | cons q rest ih => exact ⟨h.1, ih h.2⟩

end Qualifier

open Qualifier

/-- Another qualifier begins at the place, or a declaration does. -/
def Ahead (b : Brackets) (i : Nat) : Prop :=
  At b i (punct "@") ∨ ∃ x l, At b i (word x) ∧ At b (i + 1) l ∧ (l = punct "@" ∨ ∃ y, l = word y)

namespace Ahead

theorem leads (h : Ahead b i) : Leads b i := by
  rcases h with hat | ⟨x, l, hat, hnext, hl⟩
  · exact ⟨_, hat, .inl ⟨by decide, by decide⟩⟩
  · refine ⟨_, hat, .inr ⟨x, l, rfl, hnext, ?_⟩⟩
    rcases hl with rfl | ⟨y, rfl⟩
    · decide
    · simp [declaratorEnds, word, op, punct]

theorem isPunct (h : Ahead b i) {text : String} (htext : text ≠ "@") : b.isPunct i text = false := by
  rcases h with hat | ⟨x, l, hat, -⟩
  · rw [hat.isPunct, decide_eq_false_iff_not]
    exact fun heq => htext (congrArg Prod.snd heq).symm
  · rw [hat.isPunct, decide_eq_false_iff_not]
    exact nofun

theorem word {x : String} (h : At b i (word x)) (hnext : Ahead b (i + 1)) : Ahead b i := by
  rcases hnext with hat | ⟨y, l, hat, -⟩
  · exact .inr ⟨x, _, h, hat, .inl rfl⟩
  · exact .inr ⟨x, _, h, hat, .inr ⟨y, rfl⟩⟩

theorem declaration {type name : String} (hr : Reads b i [StraightLine.word type, StraightLine.word name]) : Ahead b i :=
  .inr ⟨type, _, hr.1, hr.2.1, .inr ⟨name, rfl⟩⟩

theorem qualifiers {qs : List Qualifier} {i : Nat} (hr : Reads b i (qs.flatMap lexemes))
    (hnext : Ahead b (i + (qs.flatMap lexemes).length)) : Ahead b i := by
  induction qs generalizing i with
  | nil => exact hnext
  | cons q rest ih =>
      rw [List.flatMap_cons] at hr
      rw [List.flatMap_cons, List.length_append, ← Nat.add_assoc] at hnext
      obtain ⟨hfirst, hrest⟩ := reads_append.1 hr
      cases q with
      | annotate first path arguments => exact .inl hfirst.1
      | modifier x => exact .word hfirst.1 (ih hrest hnext)

end Ahead

/-! ## Looking back -/

theorem not_behind_sign (h : b.atDeclarationBoundary i = true) (hi : i = k + 1) (hat : At b k l) :
    l ≠ punct "." ∧ l ≠ punct "@" := by
  subst hi
  constructor
  · rintro rfl
    rw [(boundary_behind hat (by decide)).2] at h
    cases h
  · rintro rfl
    rw [(boundary_behind hat (by decide)).2] at h
    cases h

theorem boundary_qualifier {q : Qualifier} (hq : q.WellFormed) (h : b.atDeclarationBoundary i = true)
    (hr : Reads b i q.lexemes) : b.atDeclarationBoundary (i + q.lexemes.length) = true := by
  cases q with
  | annotate first path arguments =>
      rw [Brackets.atDeclarationBoundary, lexemes, annotationStart_annotate hq hr]
      exact h
  | modifier x => exact boundary_modifierWord hq hr.1 fun k l hi hat => not_behind_sign h hi hat

/-- Where a declaration can begin, one can begin behind qualifiers. -/
theorem boundary_qualifiers {qs : List Qualifier} {i : Nat} (hqs : ∀ q ∈ qs, q.WellFormed)
    (h : b.atDeclarationBoundary i = true) (hr : Reads b i (qs.flatMap lexemes)) :
    b.atDeclarationBoundary (i + (qs.flatMap lexemes).length) = true := by
  induction qs generalizing i with
  | nil => exact h
  | cons q rest ih =>
      rw [List.flatMap_cons] at hr ⊢
      obtain ⟨hfirst, hrest⟩ := reads_append.1 hr
      rw [List.length_append, ← Nat.add_assoc]
      exact ih (fun q' hq => hqs q' (List.mem_cons_of_mem _ hq))
        (boundary_qualifier (hqs q List.mem_cons_self) h hfirst) hrest

/-! ## Going forward -/

theorem statementAt_of_not_word (h : At cx.scope.toBrackets i l) (hl : l.1 ≠ .identifier) :
    cx.statementAt s i = false := by
  obtain ⟨t, ht, hlex⟩ := h.exists_token
  have hident : t.isIdent = false := by
    rw [Token.isIdent, beq_eq_false_iff_ne]
    exact fun hkind => hl ((congrArg Prod.fst hlex).symm.trans hkind)
  simp [FlowContext.statementAt, FlowContext.declaresAt, FlowContext.assignsAt, FlowContext.growsAt, ht, hident]

/-- Before what begins no declarator and no assignment, neither stands. -/
theorem not_declaresAt_of_leads (h : Leads cx.scope.toBrackets (i + 1)) :
    cx.declaresAt i = false ∧ cx.assignsAt s i = false := by
  obtain ⟨l, hat, hl⟩ := h
  have hassign : ¬ assigns l := by
    rcases hl with ⟨-, hno⟩ | ⟨x, l', rfl, -⟩
    · exact hno
    · exact nofun
  constructor
  · rw [FlowContext.declaresAt]
    rcases hl with ⟨hno, -⟩ | ⟨x, l', rfl, hat', hno⟩
    · rw [hat.isIdent, beq_eq_false_iff_ne.2 hno, Bool.and_false, Bool.false_and, Bool.false_and]
    · rw [← endsDeclarator_iff hat', Bool.not_eq_true] at hno
      rw [show i + 2 = i + 1 + 1 from rfl, hno, Bool.and_false, Bool.false_and]
  · rw [← isOp_of_assigns hat, ← Bool.or_eq_true, Bool.not_eq_true] at hassign
    rw [FlowContext.assignsAt, hassign, Bool.and_false]

theorem statementAt_eq_growsAt (h : Leads cx.scope.toBrackets (i + 1)) : cx.statementAt s i = cx.growsAt s i := by
  obtain ⟨hd, ha⟩ := not_declaresAt_of_leads (s := s) h
  rw [FlowContext.statementAt, hd, ha]
  rfl

theorem growsAt_word {x : String} (h : At cx.scope.toBrackets i (word x)) (hdot : cx.scope.afterDot i = false) :
    cx.growsAt s i = ((s.arena.get? x).map (·.kind) == some .builder && cx.scope.isPunct (i + 1) "."
      && cx.scope.isWordIn (i + 2) ["append", "setLength"] && cx.scope.isPunct (i + 3) "(") := by
  obtain ⟨t, ht, hlex⟩ := h.exists_token
  have hident : t.isIdent = true := beq_iff_eq.2 (congrArg Prod.fst hlex)
  have htext : t.text = x := congrArg Prod.snd hlex
  rw [FlowContext.growsAt, ht, Option.any_some, hident, htext, hdot]
  rfl

theorem growsAt_of_not_dot (h : cx.scope.isPunct (i + 1) "." = false) : cx.growsAt s i = false := by
  rw [FlowContext.growsAt, h, Bool.and_false, Bool.false_and, Bool.false_and]

theorem growsAt_of_afterDot (h : cx.scope.afterDot i = true) : cx.growsAt s i = false := by
  rw [FlowContext.growsAt, h]
  cases cx.scope.token? i with
  | none => rfl
  | some t => simp

variable {bound : Nat}

theorem idle_of_at (h : At cx.scope.toBrackets i l) (hl : l.1 ≠ .stringLiteral) (hlt : i < bound)
    (hno : cx.statementAt s i = false) : cx.Idle s bound i := by
  refine FlowContext.idle_of_not_string h.lt_size hlt ?_ hno
  rw [h.isString, beq_eq_false_iff_ne]
  exact hl

/-- Punctuation. -/
theorem idle_punct {text : String} (h : At cx.scope.toBrackets i (punct text)) (hlt : i < bound) :
    cx.Idle s bound i :=
  idle_of_at h nofun hlt (statementAt_of_not_word h nofun)

/-- A word behind which something follows that begins no declarator and is no dot. -/
theorem idle_word {x : String} (h : At cx.scope.toBrackets i (word x)) (hlt : i < bound)
    (hnext : Leads cx.scope.toBrackets (i + 1)) (hdot : cx.scope.isPunct (i + 1) "." = false) :
    cx.Idle s bound i :=
  idle_of_at h nofun hlt ((statementAt_eq_growsAt hnext).trans (growsAt_of_not_dot hdot))

theorem leads_punct {text : String} (h : At cx.scope.toBrackets i (punct text)) : Leads cx.scope.toBrackets i :=
  ⟨_, h, .inl ⟨nofun, by rintro (hop | hop) <;> cases (Prod.mk.inj hop).1⟩⟩

/-- A dotted name up to its last part. -/
theorem idle_dotted {first : String} {path : List String} {i : Nat}
    (hr : Reads cx.scope.toBrackets i (dotted first path)) (hlt : i + 2 * path.length ≤ bound)
    (hgrows : cx.growsAt s i = false) : Throughout (cx.Idle s bound) i (i + 2 * path.length) := by
  induction path generalizing first i with
  | nil => exact .nil i
  | cons x rest ih =>
      obtain ⟨hfirst, hdot, hrest⟩ := hr
      rw [List.length_cons] at hlt ⊢
      have hafter : cx.scope.afterDot (i + 2) = true := by
        rw [hdot.afterDot]
        exact decide_eq_true rfl
      refine .cons ?_ (.cons (idle_punct hdot (by omega)) ?_)
      · exact idle_of_at hfirst nofun (by omega)
          ((statementAt_eq_growsAt (leads_punct hdot)).trans hgrows)
      · rw [show i + 2 * (rest.length + 1) = i + 2 + 2 * rest.length by omega]
        exact ih (i := i + 2) hrest (by omega) (growsAt_of_afterDot hafter)

/-- Where the first name of an annotation stands, a chain stands if the annotation begins like one. -/
theorem growsAt_annotate {first : String} {path : List String} {arguments : Option (List Lexeme)}
    (hr : Reads cx.scope.toBrackets i (annotate first path arguments).lexemes)
    (hnext : Ahead cx.scope.toBrackets (i + (annotate first path arguments).lexemes.length)) :
    cx.growsAt s (i + 1) = true ↔ (annotate first path arguments).Chains s := by
  obtain ⟨hsign, hr⟩ := hr
  obtain ⟨hname, harguments⟩ := reads_append.1 hr
  have hfirst : At cx.scope.toBrackets (i + 1) (word first) := by
    cases path with
    | nil => exact hname.1
    | cons x rest => exact hname.1
  rw [growsAt_word hfirst (by rw [hsign.afterDot]; decide)]
  match path, arguments with
  | [], none =>
    have hdot : cx.scope.isPunct (i + 1 + 1) "." = false := hnext.isPunct (by decide)
    simp [hdot, Chains]
  | [], some inside =>
    have hat : At cx.scope.toBrackets (i + 1 + 1) (punct "(") := harguments.1
    have hdot : cx.scope.isPunct (i + 1 + 1) "." = false := by
      rw [hat.isPunct]
      decide
    simp [hdot, Chains]
  | [x], none =>
    have hopening : cx.scope.isPunct (i + 1 + 3) "(" = false := hnext.isPunct (by decide)
    simp [hopening, Chains]
  | [x], some inside =>
    have hopening : At cx.scope.toBrackets (i + 1 + 3) (punct "(") := harguments.1
    rw [hname.2.1.isPunct, hname.2.2.1.isWordIn, hopening.isPunct, Chains]
    simp [word, and_comm]
  | x :: y :: rest, _ =>
    have hdot : At cx.scope.toBrackets (i + 1 + 3) (punct ".") := hname.2.2.2.1
    have hopening : cx.scope.isPunct (i + 1 + 3) "(" = false := by
      rw [hdot.isPunct]
      decide
    simp [hopening, Chains]

/-- Annotations and modifiers are read loosely. -/
theorem idle_qualifier {q : Qualifier} (hq : q.WellFormed) (hr : Reads cx.scope.toBrackets i q.lexemes)
    (hnext : Ahead cx.scope.toBrackets (i + q.lexemes.length)) (hchain : ¬ q.Chains s) (hplain : q.PlainAt cx s i)
    (hbound : i + q.lexemes.length ≤ bound) :
    Throughout (cx.Idle s bound) i (i + q.lexemes.length) := by
  cases q with
  | modifier x => exact .cons (idle_word hr.1 hbound hnext.leads (hnext.isPunct (by decide))) (.nil _)
  | annotate first path arguments =>
      have hgrows := Bool.eq_false_iff.2 (mt (growsAt_annotate hr hnext).1 hchain)
      obtain ⟨hat, hr⟩ := hr
      obtain ⟨hname, harguments⟩ := reads_append.1 hr
      obtain ⟨x, hlast⟩ := exists_last_dotted hname
      have hlength : i + (annotate first path arguments).lexemes.length =
          i + 1 + 2 * path.length + 1 + ((arguments.map (group .paren)).getD []).length := by
        rw [lexemes, Modifier.lexemes, List.length_append, List.length_cons, length_dotted]
        omega
      have hend : i + 1 + (dotted first path).length = i + 1 + 2 * path.length + 1 := by
        rw [length_dotted]
        omega
      rw [hlength] at hnext hbound ⊢
      rw [hend] at harguments
      refine .cons (idle_punct hat (by omega)) ((idle_dotted hname (by omega) hgrows).append ?_)
      cases arguments with
      | none => exact .cons (idle_word hlast (by omega) hnext.leads (hnext.isPunct (by decide))) (.nil _)
      | some inside =>
          have harguments : Reads _ _ (group .paren inside) := harguments
          obtain ⟨hopening, hinside, hclosing⟩ := reads_group harguments
          have hno : cx.scope.isPunct (i + 1 + 2 * path.length + 1) "." = false := by
            rw [hopening.isPunct]
            decide
          have hparen : cx.scope.isPunct (i + 1 + 2 * path.length + 1) "(" = true := by
            rw [hopening.isPunct]
            decide
          rw [Option.map_some, Option.getD_some, length_group] at hbound
          rw [Option.map_some, Option.getD_some, length_group,
            show i + 1 + 2 * path.length + 1 + (inside.length + 2) =
              i + 1 + 2 * path.length + 1 + 1 + inside.length + 1 by omega]
          refine .cons (idle_word hlast (by omega) (leads_punct hopening) hno) ?_
          refine .cons (idle_punct hopening (by omega)) (.append ?_ (.cons (idle_punct hclosing (by omega)) (.nil _)))
          rw [PlainAt, hend] at hplain
          intro j hj hlt
          exact (FlowContext.idle_inside (enclosed_group (hq inside rfl) harguments) hplain.2 hparen hj hlt
            (hplain.1 j hj hlt)).mono (by omega)

theorem idle_qualifiers {qs : List Qualifier} {i : Nat} (hqs : ∀ q ∈ qs, q.WellFormed)
    (hr : Reads cx.scope.toBrackets i (qs.flatMap lexemes))
    (hnext : Ahead cx.scope.toBrackets (i + (qs.flatMap lexemes).length)) (hchain : ∀ q ∈ qs, ¬ q.Chains s)
    (hplain : AllPlainAt cx s i qs) (hbound : i + (qs.flatMap lexemes).length ≤ bound) :
    Throughout (cx.Idle s bound) i (i + (qs.flatMap lexemes).length) := by
  induction qs generalizing i with
  | nil => exact .nil i
  | cons q rest ih =>
      rw [List.flatMap_cons] at hr
      obtain ⟨hfirst, hrest⟩ := reads_append.1 hr
      obtain ⟨hplain, hplains⟩ := hplain
      rw [List.flatMap_cons, List.length_append, ← Nat.add_assoc] at hnext hbound ⊢
      refine (idle_qualifier (hqs q List.mem_cons_self) hfirst (.qualifiers hrest hnext)
        (hchain q List.mem_cons_self) hplain (by omega)).append ?_
      exact ih (fun q' hq => hqs q' (List.mem_cons_of_mem _ hq)) hrest hnext
        (fun q' hq => hchain q' (List.mem_cons_of_mem _ hq)) hplains hbound

/-! ## Annotations that read as chains -/

theorem Qualifier.level {q : Qualifier} (hq : q.WellFormed) : Level q.lexemes := by
  have hdotted (first : String) (path : List String) : Level (dotted first path) := by
    induction path generalizing first with
    | nil => exact level_of_kind nofun .nil
    | cons x rest ih => exact level_of_kind nofun (.flat flat_dot (by decide) (by decide) (ih x))
  cases q with
  | modifier x => exact level_of_kind nofun .nil
  | annotate first path arguments =>
      have hsign : Flat (punct "@") := fun _ => by decide
      refine .flat hsign (by decide) (by decide) ((hdotted first path).append ?_)
      cases arguments with
      | none => exact .nil
      | some inside =>
          have hgroup : Level (group .paren inside ++ []) := .group (hq inside rfl) .nil
          rwa [List.append_nil] at hgroup

/-- A single call is the whole chain, if no dot stands behind it. -/
theorem le_applyChain {x name : String} {inside : List Lexeme} {s u : FlowState} {stop : Nat} (hinside : Paired inside)
    (hcall : Reads cx.scope.toBrackets i (punct "." :: word x :: group .paren inside))
    (hdot : cx.scope.isPunct (i + 2 + (group .paren inside).length) "." = false) (hrest : Level ls)
    (hr : Reads cx.scope.toBrackets (i + 2 + (group .paren inside).length) ls)
    (h : cx.applyChain s name [";"] i = .ok (u, stop)) : i + 2 + (group .paren inside).length + ls.length ≤ stop := by
  obtain ⟨hat, hx, hgroup⟩ := hcall
  have hgroup : Reads cx.scope.toBrackets (i + 2) (group .paren inside) := hgroup
  have hcloser := closer?_group hinside hgroup
  have hgoes : cx.scope.isPunct i "." = true := by
    rw [hat.isPunct]
    decide
  have hmethod : (cx.scope.isIdent (i + 1) && cx.scope.isPunct (i + 2) "(") = true := by
    rw [hx.isIdent, (reads_group hgroup).1.isPunct]
    rfl
  have hbehind : i + 2 + 1 + inside.length + 1 = i + 2 + (group .paren inside).length := by
    rw [length_group]
    omega
  rw [FlowContext.applyChain, dif_pos hgoes, if_pos hmethod] at h
  split at h
  · next hnone =>
      rw [hcloser] at hnone
      cases hnone
  · next closing hclosing =>
      rw [hcloser] at hclosing
      obtain rfl := Option.some.inj hclosing
      obtain ⟨v, -, h⟩ := ok_of_bind_eq_ok h
      rw [hbehind, FlowContext.applyChain, dif_neg (by rw [hdot]; exact nofun)] at h
      obtain ⟨w, -, hstop⟩ := ok_of_map_eq_ok h
      obtain ⟨rfl, rfl⟩ := Prod.mk.inj hstop
      rw [Level.skipToStop_eq (List.cons_subset_cons _ (List.nil_subset _)) hrest hr]
      exact Brackets.le_skipToStop _ _ _

/-- An annotation that begins like a chain takes everything with it up to the end of the statement. -/
theorem step_chains {q : Qualifier} {later : List Qualifier} {type name : String} (hq : q.WellFormed)
    (hlater : ∀ q ∈ later, q.WellFormed) (hchain : q.Chains s)
    (hr : Reads cx.scope.toBrackets i (q.lexemes ++ (later.flatMap lexemes ++ [word type, word name]))) :
    Ends cx.Cause (fun r => i + q.lexemes.length + (later.flatMap lexemes).length + 2 ≤ r.2) (cx.step s (i + 1)) := by
  obtain ⟨hfirst, hlast⟩ := reads_append.1 hr
  obtain ⟨hbetween, hdeclared⟩ := reads_append.1 hlast
  have hnext := Ahead.qualifiers hbetween (.declaration hdeclared)
  match q, hchain with
  | annotate first [x] (some inside), hchain@⟨_, _⟩ =>
    have hgrows := (growsAt_annotate hfirst hnext).2 hchain
    obtain ⟨-, hname, hcall⟩ := hfirst
    have hlength : (annotate first [x] (some inside)).lexemes.length = (group .paren inside).length + 4 := rfl
    have hcall : Reads cx.scope.toBrackets (i + 1 + 1) (punct "." :: word x :: group .paren inside) := hcall
    rw [hlength, show i + ((group .paren inside).length + 4) = i + 1 + 1 + 2 + (group .paren inside).length by omega]
      at hlast hnext ⊢
    have hlevel : Level (later.flatMap lexemes ++ [word type, word name]) :=
      (Level.flatMap fun q hq => Qualifier.level (hlater q hq)).append (level_of_kind nofun (level_of_kind nofun .nil))
    obtain ⟨hd, ha⟩ := not_declaresAt_of_leads (s := s) (leads_punct hcall.1)
    cases hstep : cx.step s (i + 1) with
    | error e => exact (FlowContext.step_sound hname.lt_size).of_error hstep
    | ok r =>
        obtain ⟨builder, u, stop, happly, hstop⟩ := FlowContext.exists_applyChain_of_step hd ha hgrows hstep
        have hle := le_applyChain (hq inside rfl) hcall (hnext.isPunct (by decide)) hlevel hlast happly
        rw [List.length_append] at hle
        exact Nat.le_trans hle (Nat.le_trans (cx.le_afterStatement stop) hstop)

theorem Qualifier.Chains.of_like {q : Qualifier} {s' : FlowState} (h : q.Chains s) (hs : s.Like s') : q.Chains s' := by
  match q, h with
  | annotate first [x] (some inside), ⟨hx, hkind⟩ => exact ⟨hx, (Arena.kind?_of_unmarked hs.arena first).trans hkind⟩

theorem Qualifier.Chains.one_lt_length {q : Qualifier} (h : q.Chains s) : 1 < q.lexemes.length := by
  match q, h with
  | annotate first [x] (some inside), _ =>
    show 1 < (group .paren inside).length + 4
    omega

/-! ## Declarations behind them -/

section

variable {qs : List Qualifier} {type name : String} (hqs : ∀ q ∈ qs, q.WellFormed)
  (hr : Reads cx.scope.toBrackets i (qs.flatMap lexemes ++ [word type, word name])) (hplain : AllPlainAt cx s i qs)
include hqs hr hplain

/-- Qualifiers change neither variables nor declared names. -/
theorem stepsUpTo_qualifiers (hchain : ∀ q ∈ qs, ¬ q.Chains s) :
    Ends cx.Cause (fun u => s.Like u.1 ∧ u.2 = i + (qs.flatMap lexemes).length)
      (cx.stepsUpTo s i (i + (qs.flatMap lexemes).length)) := by
  obtain ⟨hqualifiers, hdeclared⟩ := reads_append.1 hr
  exact FlowContext.stepsUpTo_idle ⟨rfl, rfl⟩ (Nat.le_add_right _ _) (Nat.le_of_lt hdeclared.1.lt_size)
    (idle_qualifiers hqs hqualifiers (.declaration hdeclared) hchain hplain (Nat.le_refl _))

/-- If one of them chains, the type and the name of the declaration are passed over with it. -/
theorem stepsUpTo_of_chains (hchain : ∃ q ∈ qs, q.Chains s) :
    Ends cx.Cause (fun u => i + (qs.flatMap lexemes).length + 2 ≤ u.2)
      (cx.stepsUpTo s i (i + (qs.flatMap lexemes).length)) := by
  -- the first that does
  have hfound : (qs.find? fun q => decide (q.Chains s)).isSome = true :=
    List.find?_isSome.2 (hchain.imp fun q hq => ⟨hq.1, decide_eq_true hq.2⟩)
  obtain ⟨q, hfind⟩ := Option.isSome_iff_exists.1 hfound
  obtain ⟨hq, earlier, later, rfl, hearlier⟩ := List.find?_eq_some_iff_append.1 hfind
  have hq : q.Chains s := of_decide_eq_true hq
  rw [List.flatMap_append, List.flatMap_cons, List.append_assoc, List.append_assoc] at hr
  obtain ⟨hbefore, hread⟩ := reads_append.1 hr
  have hsize := (reads_append.1 (reads_append.1 hread).2).2.1.lt_size
  have hlength := hq.one_lt_length
  have hsign : At cx.scope.toBrackets (i + (earlier.flatMap lexemes).length) (punct "@") := by
    match q, hq, hread with
    | annotate first [x] (some inside), _, hread => exact hread.1
  rw [List.flatMap_append, List.flatMap_cons, List.length_append, List.length_append]
  generalize hplace : i + (earlier.flatMap lexemes).length = place at hsign hread hsize
  have hidle : Throughout (cx.Idle s (place + 1)) i (place + 1) := by
    have hfirst : Throughout (cx.Idle s (place + 1)) i (i + (earlier.flatMap lexemes).length) :=
      idle_qualifiers (fun q hq => hqs q (List.mem_append_left _ hq)) hbefore (.inl (hplace ▸ hsign))
        (fun q hq => by simpa using hearlier q hq) hplain.of_append (by omega)
    rw [hplace] at hfirst
    exact hfirst.append (.cons (idle_punct hsign (Nat.lt_succ_self place)) (.nil _))
  rw [FlowContext.stepsUpTo_split cx s i (show place + 1 ≤ _ by omega)]
  refine (FlowContext.stepsUpTo_idle ⟨rfl, rfl⟩ (by omega) (by omega) hidle).bind ?_
  rintro ⟨u, next⟩ ⟨hu, hnext⟩
  obtain rfl : next = place + 1 := hnext
  rw [FlowContext.stepsUpTo, dif_pos (by dsimp only; omega)]
  refine (step_chains (hqs q (List.mem_append_right _ List.mem_cons_self))
    (fun q hq => hqs q (List.mem_append_right _ (List.mem_cons_of_mem _ hq))) (hq.of_like hu) hread).bind ?_
  rintro ⟨v, stop⟩ hstop
  have hstop : place + q.lexemes.length + (later.flatMap lexemes).length + 2 ≤ stop := hstop
  show Ends _ _ (cx.stepsUpTo v (max stop (place + 1 + 1)) _)
  rw [FlowContext.stepsUpTo, dif_neg (by omega)]
  show _ ≤ max stop _
  omega

end

/-- A declaration begins with two words. -/
theorem exists_reads_of_declaresAt (h : cx.declaresAt i = true) :
    ∃ type name, Reads cx.scope.toBrackets i [word type, word name] := by
  simp only [FlowContext.declaresAt, Bool.and_eq_true] at h
  obtain ⟨⟨⟨htype, hname⟩, -⟩, -⟩ := h
  obtain ⟨t, ht, htype⟩ := (Option.any_eq_true _ _).1 htype
  obtain ⟨n, hn, hname⟩ := (Option.any_eq_true _ _).1 hname
  have hat {k : Nat} {t : Token} (ht : cx.scope.token? k = some t) (hident : t.isIdent = true) :
      At cx.scope.toBrackets k (word t.text) := by
    rw [At, ht, Option.map_some, lexeme, beq_iff_eq.1 hident]
    rfl
  exact ⟨t.text, n.text, hat ht (Bool.and_eq_true_iff.1 htype).1, hat hn hname, trivial⟩

theorem declaresAt_qualified {cx' : FlowContext} {d : Nat} {qs : List Qualifier} (hqs : ∀ q ∈ qs, q.WellFormed)
    (hinserted : cx.Inserted cx' i d) (hlength : (qs.flatMap lexemes).length = d)
    (hr : Reads cx'.scope.toBrackets i (qs.flatMap lexemes)) (h : cx.declaresAt i = true) :
    cx'.declaresAt (i + d) = true := by
  have hcode := hinserted.code
  simp only [FlowContext.declaresAt, Bool.and_eq_true] at h ⊢
  obtain ⟨⟨⟨htype, hname⟩, hends⟩, hboundary⟩ := h
  have hbehind := boundary_qualifiers hqs ((hcode.atDeclarationBoundary (Nat.le_refl i)).trans hboundary) hr
  rw [hlength] at hbehind
  refine ⟨⟨⟨?_, ?_⟩, ?_⟩, hbehind⟩
  · rw [hcode.behind (Nat.le_refl i), hinserted.rules]
    exact htype
  · rw [show i + d + 1 = i + 1 + d by omega, hcode.isIdent (Nat.le_succ i)]
    exact hname
  · rw [show i + d + 2 = i + 2 + d by omega, hcode.endsDeclarator (Nat.le_add_right i 2)]
    exact hends

/-- Do qualifiers hide a declaration?  Wherever a declaration of a tracked type begins, it is taken for one with
annotations and modifiers put before it, too.  If no statement stands in their arguments and creation expressions there
end there, then what is read depends on one question alone: whether an annotation begins like a chain of calls on a
tracked builder.  If none does, the steps come to the declaration with the variables and names that they had, and it does
to them what it does without the qualifiers.  If one does, the steps go past type and name of the declaration. -/
theorem declaration_kept_unless_chains (rules : RuleSet) (classifier : Classifier) (placeholder : Template)
    {before more rest : List Token} {qs : List Qualifier} (hqs : ∀ q ∈ qs, q.WellFormed)
    (hmore : more.map lexeme = qs.flatMap lexemes)
    (hdeclares : (FlowContext.ofTokens rules classifier placeholder (before ++ rest)).declaresAt before.length = true)
    (s : FlowState)
    (hplain : AllPlainAt (.ofTokens rules classifier placeholder (before ++ (more ++ rest))) s before.length qs) :
    let alone := FlowContext.ofTokens rules classifier placeholder (before ++ rest)
    let qualified := FlowContext.ofTokens rules classifier placeholder (before ++ (more ++ rest))
    let place := before.length + more.length
    let comes := qualified.stepsUpTo s before.length place
    (qualified.declaresAt place = true ∧ ∀ u, qualified.declaration? u place ≠ .ok none) ∧
      ((∀ q ∈ qs, ¬ q.Chains s) →
        Ends qualified.Cause (fun u => s.Like u.1 ∧ u.2 = place) comes ∧
          Ends qualified.Cause (fun r' => ∀ r, alone.step s before.length = .ok r →
            r.1.Like r'.1 ∧ r'.2 = r.2 + more.length) (comes >>= fun u => qualified.step u.1 u.2)) ∧
      ((∃ q ∈ qs, q.Chains s) → Ends qualified.Cause (fun u => place + 2 ≤ u.2) comes) := by
  intro alone qualified place comes
  obtain ⟨t, ht, hnext, -⟩ := FlowContext.exists_declaration?_eq hdeclares
  have hrest : rest ≠ [] := by
    rintro rfl
    rw [List.append_nil] at hnext
    exact Nat.not_succ_lt_self (Nat.lt_of_lt_of_eq hnext List.size_toArray)
  have hinserted : alone.Inserted qualified before.length more.length :=
    ⟨Brackets.inserted_ofTokens before more hrest, rfl⟩
  have hlength : (qs.flatMap lexemes).length = more.length := by
    rw [← hmore, List.length_map]
  have hr : Reads qualified.scope.toBrackets before.length (qs.flatMap lexemes) := by
    refine reads_front ⟨rest.map lexeme, ?_⟩
    show _ = ((before ++ (more ++ rest)).drop before.length).map lexeme
    rw [List.drop_left, List.map_append, hmore]
  have hdeclares' : qualified.declaresAt place = true := declaresAt_qualified hqs hinserted hlength hr hdeclares
  obtain ⟨type, name, hdeclared⟩ := exists_reads_of_declaresAt hdeclares'
  have hread : Reads qualified.scope.toBrackets before.length (qs.flatMap lexemes ++ [word type, word name]) :=
    reads_append.2 ⟨hr, hlength ▸ hdeclared⟩
  have hplace : before.length + (qs.flatMap lexemes).length = place := congrArg (before.length + ·) hlength
  refine ⟨⟨hdeclares', fun u hnone => ?_⟩, fun hchain => ?_, fun hchain => ?_⟩
  · obtain ⟨t, -, -, hdeclaration⟩ := FlowContext.exists_declaration?_eq hdeclares'
    obtain ⟨r, -, hr⟩ := ok_of_map_eq_ok ((hdeclaration u).symm.trans hnone)
    cases hr
  · have hcomes : Ends qualified.Cause (fun u => s.Like u.1 ∧ u.2 = place) comes := by
      have h := stepsUpTo_qualifiers hqs hread hplain hchain
      rwa [hplace] at h
    refine ⟨hcomes, hcomes.bind ?_⟩
    rintro ⟨u, next⟩ ⟨hu, hnext⟩
    obtain rfl : next = place := hnext
    dsimp only
    cases hstep : qualified.step u place with
    | error e => exact (FlowContext.step_sound hdeclared.1.lt_size).of_error hstep
    | ok r' =>
        intro r hr
        have hmoved := hinserted.step hu hdeclares hdeclares' r r' hr hstep
        exact ⟨hmoved.like, hmoved.place⟩
  · have h := stepsUpTo_of_chains hqs hread hplain hchain
    rwa [hplace] at h

/-- The tokens of a line of code. -/
def lineOf (source : String) : List Token := significant ((tokenize source).toOption.getD [])

def builderLine : List Token := lineOf "StringBuilder sb = new StringBuilder();"

def queryLine : List Token := lineOf "String s = \"SELECT 1\";"

def following (tokens : List Token) : FlowContext :=
  .ofTokens .standard RuleSet.standard.classifier standardPlaceholder tokens

/-- The state in which the builder is bound. -/
def built : FlowState := (((following (builderLine ++ queryLine)).step .start 0).toOption.getD (.start, 0)).1

/-- An annotation with an argument, and a modifier. -/
def plainLine : List Token := lineOf "@a.B(x = \"y\") static"

def plainQualifiers : List Qualifier :=
  [.annotate "a" ["B"] (some [word "x", op "=", (.stringLiteral, "\"y\"")]), .modifier "static"]

/-- An annotation that is written like a call on the builder. -/
def chainingLine : List Token := lineOf "@sb.append(\"x\")"

def chainingQualifiers : List Qualifier :=
  [.annotate "sb" ["append"] (some [(.stringLiteral, "\"x\"")])]

/-- Behind the first the declaration binds its name, and behind the second it is passed over. -/
theorem declaration_behindBuilder :
    (∃ r, ((following (builderLine ++ (plainLine ++ queryLine))).stepsUpTo built 8 18 >>= fun u =>
        (following (builderLine ++ (plainLine ++ queryLine))).step u.1 u.2) = .ok r ∧
      r.1.arena.value? "s" = some [.literal (Text.ofString "SELECT 1") 1]) ∧
    ∃ u, (following (builderLine ++ (chainingLine ++ queryLine))).stepsUpTo built 8 15 = .ok u ∧ 17 ≤ u.2 := by
  -- evaluated at once, since each evaluation cuts the sources anew
  obtain ⟨hlength, hlength', hlength'', hdeclares, hvalue, hmore, hmore', hplain, hplain', hgoes, hgoes'⟩ :
      builderLine.length = 8 ∧ plainLine.length = 10 ∧ chainingLine.length = 7 ∧
        (following (builderLine ++ queryLine)).declaresAt builderLine.length = true ∧
        ((following (builderLine ++ queryLine)).step built 8).toOption.map (fun r => r.1.arena.value? "s") =
          some (some [.literal (Text.ofString "SELECT 1") 1]) ∧
        plainLine.map lexeme = plainQualifiers.flatMap lexemes ∧
        chainingLine.map lexeme = chainingQualifiers.flatMap lexemes ∧
        AllPlainAt (following (builderLine ++ (plainLine ++ queryLine))) built builderLine.length plainQualifiers ∧
        AllPlainAt (following (builderLine ++ (chainingLine ++ queryLine))) built builderLine.length
          chainingQualifiers ∧
        ((following (builderLine ++ (plainLine ++ queryLine))).stepsUpTo built 8 18 >>= fun u =>
          (following (builderLine ++ (plainLine ++ queryLine))).step u.1 u.2).toOption.isSome = true ∧
        ((following (builderLine ++ (chainingLine ++ queryLine))).stepsUpTo built 8 15).toOption.isSome = true := by
    decide +kernel
  have hkept := (declaration_kept_unless_chains _ _ _ (by decide +kernel) hmore hdeclares built hplain).2.1
    (by decide +kernel)
  have hpassed := (declaration_kept_unless_chains _ _ _ (by decide +kernel) hmore' hdeclares built hplain').2.2
    (by decide +kernel)
  rw [hlength, hlength'] at hkept
  rw [hlength, hlength''] at hpassed
  obtain ⟨alone, halone, hvalue⟩ := Option.map_eq_some_iff.1 hvalue
  obtain ⟨r, hr⟩ := exists_eq_ok hgoes
  obtain ⟨u, hu⟩ := exists_eq_ok hgoes'
  have hlike := (hkept.2.of_ok hr alone (toOption_eq_some.1 halone)).1
  exact ⟨⟨r, hr, (hlike.value? "s").trans hvalue⟩, u, hu, hpassed.of_ok hu⟩

end Written

end EmbeddedSql
