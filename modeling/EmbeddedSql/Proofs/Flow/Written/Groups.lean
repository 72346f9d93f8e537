/-
# Groups as they are written

Code is given by its lexemes here, and stands somewhere in a scope whose other tokens may be anything
(`Reads`), balanced or not.  What is written between two brackets and balances by itself (`Paired`)
decides alone which brackets belong together:

| in a group that stands in a scope | |
| :-- | :-- |
| the closing bracket of the group | closes it (`closer?_group`) and nothing before it (`opener?_group`) |
| each bracket inside of the group | is closed inside of it (`enclosed_group`) |

A place inside is not left by anything that goes over whole groups only: not by arguments or dimensions, and
not by what follows an operand (`Enclosed`).  What follows an operand are *links*, members and groups, and
they are passed over one by one (`skipPostfix_links`).
-/
import EmbeddedSql.Proofs.Scope.Across
import EmbeddedSql.Proofs.Scope.Beginning
import EmbeddedSql.Proofs.Flow.StraightLine.Places

namespace EmbeddedSql

namespace Bracket

/-- A token opens a bracket, closes the innermost open one, or is no bracket. -/
theorem afterToken_cases {stack next : List Bracket} {t : Token} (h : afterToken stack t = some next) :
    (∃ own, t.opens? = some own ∧ next = own :: stack) ∨
      (∃ own, t.opens? = none ∧ t.closes? = some own ∧ stack = own :: next) ∨
      t.opens? = none ∧ t.closes? = none ∧ next = stack := by
  rw [afterToken] at h
  cases ho : t.opens? with
  | some own =>
      rw [ho] at h
      exact .inl ⟨own, rfl, (Option.some.inj h).symm⟩
  | none =>
      cases hc : t.closes? with
      | none =>
          rw [ho, hc] at h
          exact .inr (.inr ⟨rfl, rfl, (Option.some.inj h).symm⟩)
      | some own =>
          rw [ho, hc] at h
          cases stack with
          | nil => cases h
          | cons top outer =>
              dsimp only at h
              split at h
              · next htop =>
                  obtain rfl := Option.some.inj h
                  exact .inr (.inl ⟨own, rfl, rfl, by rw [htop]⟩)
              · cases h

/-- The search for the end of a group passes over code that closes no other brackets than those it meets
open. -/
theorem distance?_over {own : Bracket} {stack stack' inner : List Bracket} {code more : List Token}
    (h : openAfter stack code = some stack') :
    own.distance? (stack ++ inner) (code ++ more) =
      (own.distance? (stack' ++ inner) more).map (· + code.length) := by
  induction code generalizing stack with
  | nil =>
      obtain rfl := Option.some.inj h
      simp
  | cons t rest ih =>
      obtain ⟨next, ht, hrest⟩ := Option.bind_eq_some_iff.1 h
      have hgo : (own.distance? (next ++ inner) (rest ++ more)).map (· + 1) =
          (own.distance? (stack' ++ inner) more).map (· + (t :: rest).length) := by
        rw [ih hrest, Option.map_map]
        rfl
      rw [List.cons_append, distance?, ← hgo]
      rcases afterToken_cases ht with ⟨b, ho, rfl⟩ | ⟨b, ho, hc, rfl⟩ | ⟨ho, hc, rfl⟩
      · rw [ho]
        rfl
      · rw [ho, hc]
        dsimp only [List.cons_append]
        rw [dropWhile_top]
      · rw [ho, hc]

/-- Brackets that are open already make no difference to it. -/
theorem openAfter_append {stack stack' : List Bracket} (outer : List Bracket) {code : List Token}
    (h : openAfter stack code = some stack') :
    openAfter (stack ++ outer) code = some (stack' ++ outer) := by
  induction code generalizing stack with
  | nil =>
      obtain rfl := Option.some.inj h
      rfl
  | cons t rest ih =>
      obtain ⟨next, ht, hrest⟩ := Option.bind_eq_some_iff.1 h
      refine Option.bind_eq_some_iff.2 ⟨next ++ outer, ?_, ih hrest⟩
      rw [afterToken]
      rcases afterToken_cases ht with ⟨b, ho, rfl⟩ | ⟨b, ho, hc, rfl⟩ | ⟨ho, hc, rfl⟩
      · rw [ho]
        rfl
      · rw [ho, hc]
        exact if_pos rfl
      · rw [ho, hc]

end Bracket

namespace Brackets

variable {b : Brackets} {i j lower stop : Nat}

/-- From `lower` on, every bracket is closed before place `stop`, where a bracket stands that closes one. -/
structure Enclosed (b : Brackets) (lower stop : Nat) : Prop where
  closed {i : Nat} {t : Token} : lower ≤ i → i < stop → b.token? i = some t → t.opens?.isSome = true →
    ∃ j, b.closer? i = some j ∧ j < stop
  bar : ∃ t own, b.token? stop = some t ∧ t.closes? = some own

namespace Enclosed

variable (h : b.Enclosed lower stop)
include h

theorem lt_size : stop < b.size := by
  obtain ⟨t, -, ht, -⟩ := h.bar
  exact (Array.getElem?_eq_some_iff.1 ht).1

/-- The token at the end is punctuation that opens nothing and is no dot. -/
theorem isPunct_stop {text : String} (htext : text ∈ [".", "(", "[", "\x7b"]) :
    b.isPunct stop text = false := by
  obtain ⟨t, own, ht, hc⟩ := h.bar
  rw [isPunct, ht, Option.any_some]
  refine Token.isPunct_of_ne (Token.closes?_eq_some.1 hc) ?_
  rintro rfl
  cases own <;> revert htext <;> decide

theorem kind_stop {t : Token} (ht : b.token? stop = some t) : t.kind = .punctuation := by
  obtain ⟨u, own, hu, hc⟩ := h.bar
  obtain rfl := Option.some.inj (ht.symm.trans hu)
  have hclosing := Token.closes?_eq_some.1 hc
  rw [Token.isPunct, Bool.and_eq_true, beq_iff_eq] at hclosing
  exact hclosing.1

theorem isIdent_stop : b.isIdent stop = false := by
  obtain ⟨t, -, ht, -⟩ := h.bar
  rw [isIdent, ht, Option.any_some, Token.isIdent, h.kind_stop ht]
  rfl

theorem skipGroup_le (hl : lower ≤ i) (hi : i < stop) {t : Token} (ht : b.token? i = some t)
    (ho : t.opens?.isSome = true) : b.skipGroup i ≤ stop := by
  obtain ⟨j, hj, hlt⟩ := h.closed hl hi ht ho
  rw [skipGroup, hj]
  exact hlt

/-- A group that opens at such a place, if one does. -/
theorem skipGroup_le_of_isPunct {text : String} (hl : lower ≤ i) (hi : i ≤ stop)
    (hp : b.isPunct i text = true) (htext : text ∈ ["(", "[", "\x7b"]) : b.skipGroup i ≤ stop := by
  obtain ⟨t, ht, hpunct⟩ := (Option.any_eq_true _ _).1 hp
  refine h.skipGroup_le hl (Nat.lt_of_le_of_ne hi ?_) ht (Token.isSome_opens? hpunct htext)
  rintro rfl
  rw [h.isPunct_stop (List.mem_cons_of_mem _ htext)] at hp
  cases hp

/-- What follows an operand inside ends inside. -/
theorem skipPostfix_le (hl : lower ≤ i) (hi : i ≤ stop) : b.skipPostfix i ≤ stop := by
  fun_induction skipPostfix b i with
  | case1 i hlt t hmember ih =>
      rw [Bool.and_eq_true, Bool.or_eq_true] at hmember
      obtain ⟨hdots, hident⟩ := hmember
      have ht : b.token? i = some t := Array.getElem?_eq_getElem hlt
      have hne : i ≠ stop := by
        rintro rfl
        rcases hdots with hdot | hop
        · have hpunct : b.isPunct i "." = true := by rwa [isPunct, ht, Option.any_some]
          rw [h.isPunct_stop (by decide)] at hpunct
          cases hpunct
        · rw [Token.isOp, h.kind_stop ht] at hop
          cases hop
      have hne' : i + 1 ≠ stop := by
        rintro heq
        rw [heq, h.isIdent_stop] at hident
        cases hident
      exact ih (by omega) (by omega)
  | case2 i hlt t _ hopening hgroup ih =>
      have ht : b.token? i = some t := Array.getElem?_eq_getElem hlt
      rw [Bool.or_eq_true] at hopening
      refine ih (by omega) ?_
      rcases hopening with hp | hp
      · exact h.skipGroup_le_of_isPunct hl hi (by rwa [isPunct, ht, Option.any_some]) (by decide)
      · exact h.skipGroup_le_of_isPunct hl hi (by rwa [isPunct, ht, Option.any_some]) (by decide)
  | case3 => exact hi
  | case4 => exact hi

/-- Arguments and dimensions inside end inside. -/
theorem skipGroups_le (hl : lower ≤ i) (hi : i ≤ stop) : b.skipGroups i ≤ stop := by
  fun_induction skipGroups b i with
  | case1 i hlt t hopening hgroup ih =>
      have ht : b.token? i = some t := Array.getElem?_eq_getElem hlt
      rw [Bool.or_eq_true] at hopening
      refine ih (by omega) ?_
      rcases hopening with hp | hp
      · exact h.skipGroup_le_of_isPunct hl hi (by rwa [isPunct, ht, Option.any_some]) (by decide)
      · exact h.skipGroup_le_of_isPunct hl hi (by rwa [isPunct, ht, Option.any_some]) (by decide)
  | case2 => exact hi
  | case3 => exact hi

end Enclosed

end Brackets

namespace Written

open StraightLine

variable {b : Brackets} {i j : Nat} {l : Lexeme} {ls : List Lexeme} {own : Bracket}

/-! ## Brackets that balance by themselves -/

/-- The lexeme as a token that stands nowhere. -/
def tokenOf (l : Lexeme) : Token := ⟨l.1, l.2, 0, 0⟩

/-- Every bracket is closed by one of its kind before the brackets around it are, and no other is closed. -/
def Paired (ls : List Lexeme) : Prop := Balanced (ls.map tokenOf)

instance (ls : List Lexeme) : Decidable (Paired ls) :=
  inferInstanceAs (Decidable (Balanced (ls.map tokenOf)))

theorem openAfter_tokenOf (stack : List Bracket) (tokens : List Token) :
    Bracket.openAfter stack ((tokens.map lexeme).map tokenOf) = Bracket.openAfter stack tokens := by
  rw [Bracket.openAfter, Bracket.openAfter, List.map_map, List.foldlM_map]
  rfl

/-- The tokens of a piece of code that stands somewhere. -/
theorem exists_tokens {i : Nat} (hr : Reads b i ls) :
    ∃ tokens, tokens.map lexeme = ls ∧ after b i = tokens ++ after b (i + ls.length) := by
  refine ⟨(after b i).take ls.length, ?_, ?_⟩
  · have hs := reads_slice hr
    rwa [Brackets.slice, Array.toList_extract, List.extract_eq_take_drop, Nat.add_sub_cancel_left] at hs
  · rw [after, after, ← List.drop_drop, List.take_append_drop]

theorem Paired.openAfter_eq {tokens : List Token} (h : Paired (tokens.map lexeme)) :
    Bracket.openAfter [] tokens = some [] := by
  rw [← openAfter_tokenOf]
  exact h

/-- The search for the end of a group passes over it. -/
theorem Paired.distance? (h : Paired ls) (own : Bracket) (inner : List Bracket) {i : Nat}
    (hr : Reads b i ls) :
    own.distance? inner (after b i) =
      (own.distance? inner (after b (i + ls.length))).map (· + ls.length) := by
  obtain ⟨tokens, rfl, hafter⟩ := exists_tokens hr
  have hover : own.distance? ([] ++ inner) (tokens ++ after b (i + (tokens.map lexeme).length)) = _ :=
    Bracket.distance?_over h.openAfter_eq
  rw [hafter, List.length_map]
  rw [List.length_map] at hover
  exact hover

/-! ## Groups -/

/-- A group of brackets. -/
def group (own : Bracket) (inside : List Lexeme) : List Lexeme :=
  punct own.opening :: inside ++ [punct own.closing]

@[simp]
theorem length_group (own : Bracket) (inside : List Lexeme) :
    (group own inside).length = inside.length + 2 := by
  simp [group]

theorem opens?_of_lexeme {t : Token} (h : lexeme t = punct own.opening) : t.opens? = some own := by
  rw [Token.opens?_eq_some, isPunct_eq, h]
  exact decide_eq_true rfl

theorem closes?_of_lexeme {t : Token} (h : lexeme t = punct own.closing) : t.closes? = some own := by
  rw [Token.closes?_eq_some, isPunct_eq, h]
  exact decide_eq_true rfl

/-- The parts of a group that stands somewhere. -/
theorem reads_group {inside : List Lexeme} (hr : Reads b i (group own inside)) :
    At b i (punct own.opening) ∧ Reads b (i + 1) inside ∧
      At b (i + 1 + inside.length) (punct own.closing) := by
  obtain ⟨hopening, hr⟩ := hr
  obtain ⟨hinside, hclosing, -⟩ := reads_append.1 hr
  exact ⟨hopening, hinside, hclosing⟩

/-- The closing bracket of a group closes it. -/
theorem closer?_group {inside : List Lexeme} (h : Paired inside) (hr : Reads b i (group own inside)) :
    b.closer? i = some (i + 1 + inside.length) := by
  obtain ⟨hopening, hinside, hclosing⟩ := reads_group hr
  obtain ⟨t, ht, hl⟩ := hopening.exists_token
  obtain ⟨u, hu, hl'⟩ := hclosing.after_eq
  have hc := closes?_of_lexeme hl'
  have hd := h.distance? own [] hinside
  rw [hu, Bracket.distance?, Token.opens?_of_closes? hc, hc] at hd
  rw [Brackets.closer?_eq, ht, Option.bind_some, opens?_of_lexeme hl, Option.bind_some]
  show (own.distance? [] (after b (i + 1))).map _ = _
  rw [hd]
  simp only [List.dropWhile, if_true, Option.map_some]
  congr 1
  omega

theorem skipGroup_group {inside : List Lexeme} (h : Paired inside)
    (hr : Reads b i (group own inside)) : b.skipGroup i = i + (group own inside).length := by
  rw [Brackets.skipGroup, closer?_group h hr, length_group]
  show i + 1 + inside.length + 1 = _
  omega

/-- A bracket in balanced code is closed in it. -/
theorem closer?_inside {i : Nat} (h : Paired ls) (hr : Reads b i ls) (hj : i ≤ j)
    (hj' : j < i + ls.length) {t : Token} (ht : b.token? j = some t) (ho : t.opens?.isSome = true) :
    ∃ k, b.closer? j = some k ∧ k < i + ls.length := by
  obtain ⟨own, ho⟩ := Option.isSome_iff_exists.1 ho
  obtain ⟨tokens, rfl, hafter⟩ := exists_tokens hr
  rw [List.length_map] at hj' hafter ⊢
  -- the code splits at the bracket
  obtain ⟨p, rfl⟩ := Nat.exists_eq_add_of_le hj
  have hdrop : after b (i + p) = tokens.drop p ++ after b (i + tokens.length) := by
    rw [after, ← List.drop_drop, ← after, hafter, List.drop_append_of_le_length (by omega)]
  have hhead : tokens.drop p = t :: tokens.drop (p + 1) := by
    have hp : p < tokens.length := by omega
    rw [after, Brackets.drop_of_token? ht, List.drop_eq_getElem_cons hp, List.cons_append] at hdrop
    rw [List.drop_eq_getElem_cons hp, ← (List.cons.inj hdrop).1]
  have hopen := h.openAfter_eq
  rw [← List.take_append_drop p tokens, Bracket.openAfter, List.foldlM_append] at hopen
  obtain ⟨stack, -, hrest⟩ := Option.bind_eq_some_iff.1 hopen
  rw [hhead, List.foldlM_cons, Bracket.afterToken, ho] at hrest
  have hclosed : Bracket.openAfter ([] ++ own :: stack) (tokens.drop (p + 1)) = some [] := hrest
  obtain ⟨n, hn⟩ := Bracket.exists_distance? hclosed
  have hlt := Bracket.distance?_lt hn
  rw [List.length_drop] at hlt
  refine ⟨i + p + n + 1, ?_, by omega⟩
  rw [after, Brackets.drop_of_token? ht, hhead, List.cons_append, List.cons.injEq] at hdrop
  rw [Brackets.closer?_eq, ht, Option.bind_some, ho, Option.bind_some, hdrop.2,
    Bracket.distance?_append hn]
  rfl

/-- The inside of a group is enclosed. -/
theorem enclosed_group {inside : List Lexeme} (h : Paired inside)
    (hr : Reads b i (group own inside)) : b.Enclosed (i + 1) (i + 1 + inside.length) where
  closed hl hlt ht ho := closer?_inside h (reads_group hr).2.1 hl hlt ht ho
  bar := by
    obtain ⟨t, ht, hl⟩ := (reads_group hr).2.2.exists_token
    exact ⟨t, own, ht, closes?_of_lexeme hl⟩

theorem lastBelow_eq {p : Nat → Bool} {n k : Nat} (hk : k < n) (hp : p k = true)
    (hafter : ∀ j, k < j → j < n → p j = false) : Brackets.lastBelow p n = some ⟨k, hk⟩ := by
  induction n with
  | zero => exact absurd hk (Nat.not_lt_zero k)
  | succ n ih =>
      rw [Brackets.lastBelow]
      rcases Nat.lt_or_ge k n with hlt | hge
      · rw [hafter n hlt n.lt_succ_self, ih hlt fun j hj hjn => hafter j hj (Nat.lt_succ_of_lt hjn)]
        rfl
      · obtain rfl : k = n := Nat.le_antisymm (Nat.le_of_lt_succ hk) hge
        rw [hp]
        rfl

/-- The opening bracket of a group is the one that its closing bracket closes. -/
theorem opener?_group {inside : List Lexeme} (h : Paired inside) (hr : Reads b i (group own inside)) :
    b.opener? (i + 1 + inside.length) = some ⟨i, by omega⟩ := by
  refine lastBelow_eq (by omega) (by rw [closer?_group h hr, beq_self_eq_true]) fun j hj hlt => ?_
  rw [beq_eq_false_iff_ne]
  intro hclose
  obtain ⟨t, -, kind, ht, ho, -, -⟩ := Brackets.exists_kind_of_closer? hclose
  obtain ⟨k, hk, hin⟩ := (enclosed_group h hr).closed hj hlt ht (by rw [ho]; rfl)
  obtain rfl := Option.some.inj (hk.symm.trans hclose)
  exact Nat.lt_irrefl _ hin

/-! ## Code that balances -/

theorem paired_nil : Paired [] := rfl

theorem Paired.append {ls' : List Lexeme} (h : Paired ls) (h' : Paired ls') : Paired (ls ++ ls') := by
  rw [Paired, Balanced, List.map_append, Bracket.openAfter, List.foldlM_append]
  exact Option.bind_eq_some_iff.2 ⟨[], h, h'⟩

/-- A flat lexeme opens and closes nothing. -/
theorem opens?_of_flat {t : Token} (h : Flat (lexeme t)) : t.opens? = none ∧ t.closes? = none := by
  constructor
  · simp [Token.opens?, h.isPunct]
  · simp [Token.closes?, h.isPunct]

theorem Paired.cons (hl : Flat l) (h : Paired ls) : Paired (l :: ls) := by
  obtain ⟨hopen, hclose⟩ := @opens?_of_flat (tokenOf l) hl
  refine Option.bind_eq_some_iff.2 ⟨[], ?_, h⟩
  rw [Bracket.afterToken, hopen, hclose]

theorem Paired.group (h : Paired ls) (own : Bracket) : Paired (Written.group own ls) := by
  have hopen : (tokenOf (punct own.opening)).opens? = some own := opens?_of_lexeme rfl
  have hclose : (tokenOf (punct own.closing)).closes? = some own := closes?_of_lexeme rfl
  rw [Paired, Balanced, Written.group, List.map_append, Bracket.openAfter, List.foldlM_append]
  refine Option.bind_eq_some_iff.2 ⟨[own], ?_, ?_⟩
  · refine Option.bind_eq_some_iff.2 ⟨[own], ?_, Bracket.openAfter_append [own] h⟩
    rw [Bracket.afterToken, hopen]
  · refine Option.bind_eq_some_iff.2 ⟨[], ?_, rfl⟩
    rw [Bracket.afterToken, Token.opens?_of_closes? hclose, hclose]
    exact if_pos rfl

theorem paired_of_balanced (h : StraightLine.Balanced ls) : Paired ls := by
  induction h with
  | nil => exact paired_nil
  | flat hl _ ih => exact ih.cons hl
  | @call w inside rest _ _ _ ihi ihr =>
      have hcall := ((ihi.group .paren).append ihr).cons (flat_word w)
      rwa [Written.group, List.append_assoc, List.singleton_append] at hcall

/-! ## Names -/

/-- A name with dots in it. -/
def dotted (first : String) (path : List String) : List Lexeme :=
  word first :: path.flatMap fun x => [punct ".", word x]

/-! ## What follows an operand -/

/-- A member after a dot or a double colon, or arguments or an index in brackets. -/
inductive Link where
  | member (x : String)
  | reference (x : String)
  | group (own : Bracket) (inside : List Lexeme)

namespace Link

def lexemes : Link → List Lexeme
  | member x => [punct ".", word x]
  | reference x => [op "::", word x]
  | group own inside => Written.group own inside

/-- Its brackets are no braces, and what is in them balances. -/
def WellFormed : Link → Prop
  | group own inside => own ≠ .brace ∧ Paired inside
  | _ => True

instance : DecidablePred WellFormed
  | member _ | reference _ => isTrue trivial
  | group own inside => inferInstanceAs (Decidable (own ≠ .brace ∧ Paired inside))

/-- Does it begin with a dot or a double colon? -/
def isMember : Link → Bool
  | group .. => false
  | _ => true

end Link

/-- At this place, more follows the operand that ends before it. -/
def GoesOn (b : Brackets) (i : Nat) : Prop :=
  ((b.isPunct i "." = true ∨ b.isOp i "::" = true) ∧ b.isIdent (i + 1) = true) ∨
    b.isPunct i "(" = true ∨ b.isPunct i "[" = true

instance (b : Brackets) (i : Nat) : Decidable (GoesOn b i) := inferInstanceAs (Decidable (_ ∨ _))

theorem skipPostfix_eq_self_iff : b.skipPostfix i = i ↔ ¬ GoesOn b i := by
  rw [Brackets.skipPostfix]
  split
  · next hi =>
      have ht : b.token? i = some b.tokens[i] := Array.getElem?_eq_getElem hi
      simp only [GoesOn, Brackets.isPunct, Brackets.isOp, ht, Option.any_some]
      split
      · next hmember =>
          have hle := b.le_skipPostfix (i + 2)
          rw [Bool.and_eq_true, Bool.or_eq_true] at hmember
          exact iff_of_false (by omega) (not_not_intro (.inl hmember))
      · next hmember =>
          rw [Bool.and_eq_true, Bool.or_eq_true] at hmember
          split
          · next hopening =>
              have hlt := Brackets.lt_skipGroup hi
              have hle := b.le_skipPostfix (b.skipGroup i)
              rw [Bool.or_eq_true] at hopening
              exact iff_of_false (by omega) (not_not_intro (.inr hopening))
          · next hopening =>
              rw [Bool.or_eq_true] at hopening
              exact iff_of_true rfl fun h => h.elim hmember hopening
  · next hi =>
      have ht : b.token? i = none := Array.getElem?_eq_none (Nat.le_of_not_lt hi)
      refine iff_of_true rfl ?_
      simp [GoesOn, Brackets.isPunct, Brackets.isOp, ht]

theorem skipPostfix_member {x : String} (hdot : At b i l) (hl : l = punct "." ∨ l = op "::")
    (hword : At b (i + 1) (word x)) : b.skipPostfix i = b.skipPostfix (i + 2) := by
  rw [Brackets.skipPostfix, dif_pos hdot.lt_size]
  simp only [isPunct_eq, isOp_eq, hdot.lexeme_getElem hdot.lt_size, hword.isIdent]
  rcases hl with rfl | rfl
  · exact if_pos rfl
  · exact if_pos rfl

theorem skipPostfix_group {inside : List Lexeme} (hown : own ≠ .brace) (h : Paired inside)
    (hr : Reads b i (group own inside)) :
    b.skipPostfix i = b.skipPostfix (i + (group own inside).length) := by
  have hopening := (reads_group hr).1
  rw [Brackets.skipPostfix, dif_pos hopening.lt_size]
  simp only [isPunct_eq, isOp_eq, hopening.lexeme_getElem hopening.lt_size]
  rw [if_neg (by cases own <;> simp [Bracket.opening, punct, op]),
    if_pos (by cases own <;> first | exact absurd rfl hown | decide), skipGroup_group h hr]

theorem Link.skipPostfix_eq {k : Link} (h : k.WellFormed) (hr : Reads b i k.lexemes) :
    b.skipPostfix i = b.skipPostfix (i + k.lexemes.length) := by
  cases k with
  | member x => exact skipPostfix_member hr.1 (.inl rfl) hr.2.1
  | reference x => exact skipPostfix_member hr.1 (.inr rfl) hr.2.1
  | group own inside => exact skipPostfix_group h.1 h.2 hr

/-- Links belong to the operand before them. -/
theorem skipPostfix_links {links : List Link} {i : Nat} (h : ∀ k ∈ links, k.WellFormed)
    (hr : Reads b i (links.flatMap Link.lexemes)) :
    b.skipPostfix i = b.skipPostfix (i + (links.flatMap Link.lexemes).length) := by
  induction links generalizing i with
  | nil => rfl
  | cons k rest ih =>
      rw [List.flatMap_cons] at hr ⊢
      obtain ⟨hfirst, hrest⟩ := reads_append.1 hr
      rw [k.skipPostfix_eq (h k List.mem_cons_self) hfirst,
        ih (fun k' hk => h k' (List.mem_cons_of_mem _ hk)) hrest, List.length_append, Nat.add_assoc]

end Written

end EmbeddedSql
