/-
# Where a creation expression ends

A creation expression is `new`, a dotted name, perhaps type arguments, an argument list, perhaps a class
body, and what follows an operand.  The brackets of type arguments are operators, of which several may be
joined: `>>` closes two and `>>>` three.  The search for the end of the type (`Brackets.typeEnd`) counts them,
but it does not count `>>>`.

| the type arguments hold | the search |
| :-- | :-- |
| no `>>>` | comes to the argument list at depth zero, and the expression ends where it ends |
| some `>>>` | is three too deep there for each of them |

In the second case it goes on as inside of type arguments.  At a positive depth it passes over every token but
`<`, `>` and `>>`, and what it meets there decides (`strays_group`): either it becomes shallow enough inside of a
bracket group, and then it ends in that group, or it leaves the whole expression, and then it ends somewhere
in the code that follows (`skipNew_eq_iff`).
-/
import EmbeddedSql.Proofs.Flow.Written.Groups
import EmbeddedSql.Token.Lexer

namespace EmbeddedSql.Written

open StraightLine

variable {b : Brackets} {i : Nat} {l : Lexeme} {ls : List Lexeme} {depth : Int}

/-! ## Syntax -/

/-- How many angle brackets an operator opens; those that it closes count against it. -/
def angle (l : Lexeme) : Int :=
  if l = op "<" then 1
  else if l = op ">" then -1
  else if l = op ">>" then -2
  else if l = op ">>>" then -3
  else 0

/-- Inside of `depth` angle brackets, the last of them is closed by the last lexeme and not before. -/
def ClosesAngles : Int → List Lexeme → Prop
  | depth, [] => depth = 0
  | depth, l :: rest => 0 < depth ∧ ClosesAngles (depth + angle l) rest

instance : DecidableRel ClosesAngles := go
where
  go : (depth : Int) → (ls : List Lexeme) → Decidable (ClosesAngles depth ls)
    | depth, [] => inferInstanceAs (Decidable (depth = 0))
    | depth, l :: rest =>
      have := go (depth + angle l) rest
      inferInstanceAs (Decidable (0 < depth ∧ ClosesAngles (depth + angle l) rest))

/-- Nothing, or a list in angle brackets, which may be nested. -/
def TypeArguments : List Lexeme → Prop
  | [] => True
  | l :: rest => l = op "<" ∧ ClosesAngles 1 rest

instance : DecidablePred TypeArguments
  | [] => isTrue trivial
  | l :: rest => inferInstanceAs (Decidable (l = op "<" ∧ ClosesAngles 1 rest))

structure Creation where
  name : String
  path : List String
  typeArguments : List Lexeme
  arguments : List Lexeme
  body : Option (List Lexeme)
  links : List Link

namespace Creation

/-- What stands behind the argument list. -/
def tail (c : Creation) : List Lexeme :=
  (c.body.map (group .brace)).getD [] ++ c.links.flatMap Link.lexemes

def lexemes (c : Creation) : List Lexeme :=
  word "new" :: dotted c.name c.path ++ (c.typeArguments ++ (group .paren c.arguments ++ c.tail))

structure WellFormed (c : Creation) : Prop where
  typeArguments : TypeArguments c.typeArguments
  arguments : Paired c.arguments
  body : ∀ inside ∈ c.body, Paired inside
  links : ∀ k ∈ c.links, k.WellFormed

/-- The code from place `e` on is no part of a creation expression that ends before it: it does not go on, and
no class body could begin there. -/
def EndsBefore (c : Creation) (b : Brackets) (e : Nat) : Prop :=
  ¬ GoesOn b e ∧ (b.isPunct e "\x7b" = true → c.body.isSome = true ∨ c.links.any Link.isMember = true)

instance (c : Creation) (b : Brackets) (e : Nat) : Decidable (c.EndsBefore b e) :=
  inferInstanceAs (Decidable (_ ∧ _))

end Creation

/-! ## Angle brackets -/

/-- What the search for the end of the type counts. -/
def counted (l : Lexeme) : Int :=
  if l = op "<" then 1 else if l = op ">" then -1 else if l = op ">>" then -2 else 0

theorem counted_eq (l : Lexeme) : counted l = angle l + 3 * ([l].count (op ">>>") : Int) := by
  rw [List.count_singleton]
  unfold counted angle
  by_cases h₁ : l = op "<"
  · subst h₁
    decide
  · by_cases h₂ : l = op ">"
    · subst h₂
      decide
    · by_cases h₃ : l = op ">>"
      · subst h₃
        decide
      · by_cases h₄ : l = op ">>>"
        · subst h₄
          decide
        · simp [h₁, h₂, h₃, h₄]

/-- Inside of angle brackets the search goes on with the next token. -/
theorem typeEnd_inside (hd : 0 < depth) (h : At b i l) :
    b.typeEnd depth i = b.typeEnd (depth + counted l) (i + 1) := by
  have hshallow : decide (depth ≤ 0) = false := decide_eq_false (by omega)
  rw [Brackets.typeEnd, dif_pos h.lt_size]
  simp only [isOp_eq, h.lexeme_getElem h.lt_size, hshallow, Bool.false_and, Bool.false_eq_true, if_false,
    decide_eq_true_eq, counted]
  by_cases h₁ : l = op "<"
  · simp only [h₁, if_true]
  · by_cases h₂ : l = op ">"
    · simp only [h₂, if_neg (show op ">" ≠ op "<" by decide), if_true]
      rfl
    · by_cases h₃ : l = op ">>"
      · simp only [h₃, if_neg (show op ">>" ≠ op "<" by decide),
          if_neg (show op ">>" ≠ op ">" by decide), if_true]
        rfl
      · simp only [h₁, h₂, h₃, if_false, Int.add_zero]

/-- It passes over everything but angle brackets. -/
theorem typeEnd_passing (hd : 0 < depth) (h : At b i l) (hl : l.1 = .operator → l = op "::") :
    b.typeEnd depth i = b.typeEnd depth (i + 1) := by
  have hzero : counted l = 0 := by
    have hne : ∀ text, text ≠ "::" → l ≠ op text := fun text htext heq => by
      subst heq
      exact htext (congrArg Prod.snd (hl rfl))
    simp [counted, hne]
  rw [typeEnd_inside hd h, hzero, Int.add_zero]

/-- Behind type arguments the search is too deep by three for every `>>>`. -/
theorem typeEnd_closing {missed : Int} (hmissed : 0 ≤ missed) (h : ClosesAngles depth ls)
    (hr : Reads b i ls) :
    b.typeEnd (depth + missed) i = b.typeEnd (missed + 3 * ls.count (op ">>>")) (i + ls.length) := by
  induction ls generalizing i depth missed with
  | nil =>
      obtain rfl : depth = 0 := h
      simp
  | cons l rest ih =>
      have hcount : ((l :: rest).count (op ">>>") : Int) =
          [l].count (op ">>>") + rest.count (op ">>>") := by
        rw [← List.singleton_append, List.count_append]
        rfl
      have hstep : depth + missed + counted l =
          depth + angle l + (missed + 3 * [l].count (op ">>>")) := by
        rw [counted_eq]
        omega
      rw [typeEnd_inside (by have := h.1; omega) hr.1, hstep, ih (by omega) h.2 hr.2, hcount,
        List.length_cons, show i + 1 + rest.length = i + (rest.length + 1) by omega]
      congr 1
      omega

theorem typeEnd_typeArguments (h : TypeArguments ls) (hr : Reads b i ls) :
    b.typeEnd 0 i = b.typeEnd (3 * ls.count (op ">>>")) (i + ls.length) := by
  cases ls with
  | nil => rfl
  | cons l rest =>
      obtain ⟨rfl, hclose⟩ := h
      have hcount : (op "<" :: rest).count (op ">>>") = rest.count (op ">>>") :=
        List.count_cons_of_ne (by decide)
      have hfirst : b.typeEnd 0 i = b.typeEnd (1 + 0) (i + 1) := by
        rw [Brackets.typeEnd, dif_pos hr.1.lt_size]
        simp only [isOp_eq, hr.1.lexeme_getElem hr.1.lt_size]
        rfl
      rw [hfirst, typeEnd_closing (Int.le_refl 0) hclose hr.2, hcount, List.length_cons, Int.zero_add,
        show i + 1 + rest.length = i + (rest.length + 1) by omega]

/-! ## The name of the type -/

theorem typeEnd_word {x : String} (h : At b i (word x)) : b.typeEnd 0 i = b.typeEnd 0 (i + 1) := by
  obtain ⟨t, ht, hl⟩ := h.exists_token
  have hkind : t.kind = .identifier := congrArg Prod.fst hl
  exact Brackets.typeEnd_of_name ht (by simp [Token.isIdent, hkind])

theorem typeEnd_dot (h : At b i (punct ".")) : b.typeEnd 0 i = b.typeEnd 0 (i + 1) := by
  obtain ⟨t, ht, hl⟩ := h.exists_token
  exact Brackets.typeEnd_of_name ht (by simp [isPunct_eq, hl])

theorem typeEnd_dotted {first : String} {path : List String} (hr : Reads b i (dotted first path)) :
    b.typeEnd 0 i = b.typeEnd 0 (i + (dotted first path).length) := by
  obtain ⟨hfirst, hpath⟩ := hr
  rw [typeEnd_word hfirst, dotted, List.length_cons]
  clear hfirst
  induction path generalizing i with
  | nil => rfl
  | cons x rest ih =>
      obtain ⟨hdot, hword, hrest⟩ := hpath
      rw [typeEnd_dot hdot, typeEnd_word hword, ih (i := i + 2) hrest, List.flatMap_cons,
        List.length_append]
      congr 1
      simp only [List.length_cons, List.length_nil]
      omega

/-! ## Behind the type -/

/-- The end of a creation expression from the end of its type. -/
def afterType (b : Brackets) : Nat × Bool → Nat
  | (j, false) => j
  | (j, true) =>
    let j := b.skipGroups j
    b.skipPostfix (if b.isPunct j "\x7b" then b.skipGroup j else j)

theorem skipNew_eq_afterType (b : Brackets) (i : Nat) :
    b.skipNew i = afterType b (b.typeEnd 0 (i + 1)) := by
  unfold Brackets.skipNew
  split
  · next h => rw [h]; rfl
  · next h => rw [h]; rfl

theorem le_skipBody (b : Brackets) (j : Nat) :
    j ≤ if b.isPunct j "\x7b" = true then b.skipGroup j else j := by
  split
  · next h => exact Nat.le_of_lt (Brackets.lt_skipGroup (Brackets.lt_size_of_any h))
  · exact Nat.le_refl j

theorem le_afterType (b : Brackets) (r : Nat × Bool) : r.1 ≤ afterType b r := by
  obtain ⟨j, _ | _⟩ := r
  · exact Nat.le_refl j
  · exact Nat.le_trans (b.le_skipGroups j)
      (Nat.le_trans (le_skipBody b (b.skipGroups j)) (b.le_skipPostfix _))

/-- A type that ends in enclosed code is followed by nothing that leaves it. -/
theorem afterType_le {lower stop : Nat} (h : b.Enclosed lower stop) {r : Nat × Bool} (hl : lower ≤ r.1)
    (hr : r.1 ≤ stop) : afterType b r ≤ stop := by
  obtain ⟨j, _ | _⟩ := r
  · exact hr
  · have hj := Nat.le_trans hl (b.le_skipGroups j)
    have hle := h.skipGroups_le hl hr
    refine h.skipPostfix_le (Nat.le_trans hj (le_skipBody b _)) ?_
    split
    · next hbody => exact h.skipGroup_le_of_isPunct hj hle hbody (by decide)
    · exact hle

/-! ## The search among groups -/

/-- In enclosed code the search ends, or it comes to the end of the code inside of angle brackets. -/
theorem typeEnd_enclosed {depth : Int} {i lower stop : Nat} (h : b.Enclosed lower stop) (hi : i ≤ stop) :
    (b.typeEnd depth i).1 ≤ stop ∨
      ∃ deep : Int, 0 < deep ∧ b.typeEnd depth i = b.typeEnd deep stop := by
  rcases Nat.eq_or_lt_of_le hi with rfl | hlt
  · by_cases hd : 0 < depth
    · exact .inr ⟨depth, hd, rfl⟩
    · obtain ⟨t, own, ht, hc⟩ := h.bar
      have hshallow : depth ≤ 0 := by omega
      left
      obtain ⟨hi, rfl⟩ := Array.getElem?_eq_some_iff.1 ht
      rw [Brackets.typeEnd, dif_pos hi]
      have hkind := h.kind_stop ht
      have hno : ∀ text ∈ [".", "(", "[", "\x7b"], b.tokens[i].isPunct text = false := fun text htext => by
        have hp := h.isPunct_stop htext
        rwa [Brackets.isPunct, ht, Option.any_some] at hp
      simp [Token.isOp, Token.isIdent, hkind, hshallow, hno]
  · have hs : i < b.size := Nat.lt_trans hlt h.lt_size
    rw [Brackets.typeEnd, dif_pos hs]
    dsimp only
    split
    · exact typeEnd_enclosed h hlt
    · split
      · exact typeEnd_enclosed h hlt
      · split
        · exact typeEnd_enclosed h hlt
        · split
          · exact .inl hi
          · split
            · exact .inl hi
            · exact typeEnd_enclosed h hlt
termination_by stop - i

/-- A search inside of angle brackets strays: before place `e` it gives the end of the expression, or it comes to
that place inside of angle brackets. -/
def Strays (b : Brackets) (depth : Int) (i e : Nat) : Prop :=
  afterType b (b.typeEnd depth i) < e ∨ ∃ deep : Int, 0 < deep ∧ b.typeEnd depth i = b.typeEnd deep e

theorem Strays.trans {e e' : Nat} (h : Strays b depth i e) (hle : e ≤ e')
    (hrest : ∀ deep : Int, 0 < deep → Strays b deep e e') : Strays b depth i e' := by
  rcases h with hin | ⟨deep, hdeep, hout⟩
  · exact .inl (Nat.lt_of_lt_of_le hin hle)
  · rw [Strays, hout]
    exact hrest deep hdeep

theorem Strays.of_eq {e : Nat} (hd : 0 < depth) (h : b.typeEnd depth i = b.typeEnd depth e) :
    Strays b depth i e :=
  .inr ⟨depth, hd, h⟩

/-- It ends in a group, or it leaves the group inside of angle brackets. -/
theorem strays_group {own : Bracket} {inside : List Lexeme} (hd : 0 < depth) (h : Paired inside)
    (hr : Reads b i (group own inside)) : Strays b depth i (i + (group own inside).length) := by
  have henclosed := enclosed_group h hr
  obtain ⟨hopening, -, hclosing⟩ := reads_group hr
  rw [Strays, typeEnd_passing hd hopening nofun, length_group,
    show i + (inside.length + 2) = i + 1 + inside.length + 1 by omega]
  rcases typeEnd_enclosed henclosed (Nat.le_add_right _ _) with hin | ⟨deep, hdeep, hout⟩
  · left
    exact Nat.lt_succ_of_le (afterType_le henclosed (b.le_typeEnd depth (i + 1)) hin)
  · right
    exact ⟨deep, hdeep, hout.trans (typeEnd_passing hdeep hclosing nofun)⟩

theorem strays_link {k : Link} (hd : 0 < depth) (h : k.WellFormed) (hr : Reads b i k.lexemes) :
    Strays b depth i (i + k.lexemes.length) := by
  cases k with
  | member x => exact .of_eq hd ((typeEnd_passing hd hr.1 nofun).trans (typeEnd_passing hd hr.2.1 nofun))
  | reference x =>
      exact .of_eq hd ((typeEnd_passing hd hr.1 fun _ => rfl).trans (typeEnd_passing hd hr.2.1 nofun))
  | group own inside => exact strays_group hd h.2 hr

theorem strays_links {links : List Link} {i : Nat} (hd : 0 < depth) (h : ∀ k ∈ links, k.WellFormed)
    (hr : Reads b i (links.flatMap Link.lexemes)) :
    Strays b depth i (i + (links.flatMap Link.lexemes).length) := by
  induction links generalizing i depth with
  | nil => exact .of_eq hd rfl
  | cons k rest ih =>
      rw [List.flatMap_cons] at hr ⊢
      obtain ⟨hfirst, hrest⟩ := reads_append.1 hr
      rw [List.length_append, ← Nat.add_assoc]
      exact (strays_link hd (h k List.mem_cons_self) hfirst).trans (Nat.le_add_right _ _)
        fun deep hdeep => ih hdeep (fun k' hk' => h k' (List.mem_cons_of_mem _ hk')) hrest

theorem strays_tail {c : Creation} (hc : c.WellFormed) (hd : 0 < depth)
    (hr : Reads b i (group .paren c.arguments ++ c.tail)) :
    Strays b depth i (i + (group .paren c.arguments ++ c.tail).length) := by
  obtain ⟨harguments, hr⟩ := reads_append.1 hr
  obtain ⟨hbody, hlinks⟩ := reads_append.1 hr
  rw [List.length_append, Creation.tail, List.length_append, ← Nat.add_assoc, ← Nat.add_assoc]
  refine (strays_group hd hc.arguments harguments).trans (by omega) fun deep hdeep => ?_
  refine Strays.trans ?_ (Nat.le_add_right _ _) fun deep hdeep => strays_links hdeep hc.links hlinks
  cases hbody' : c.body with
  | none => exact .of_eq hdeep rfl
  | some inside =>
      rw [hbody'] at hbody
      exact strays_group hdeep (hc.body inside hbody') hbody

/-- So it does not end at that place, if there is a token there. -/
theorem Strays.afterType_ne {e : Nat} (h : Strays b depth i e) (he : e < b.size) :
    afterType b (b.typeEnd depth i) ≠ e := by
  rcases h with hin | ⟨deep, hdeep, hout⟩
  · exact Nat.ne_of_lt hin
  · have hat : At b e (lexeme b.tokens[e]) := by
      rw [At, show b.token? e = some b.tokens[e] from Array.getElem?_eq_getElem he]
      rfl
    rw [hout, typeEnd_inside hdeep hat]
    exact Nat.ne_of_gt (Nat.lt_of_lt_of_le (b.le_typeEnd _ (e + 1)) (le_afterType b _))

/-! ## The search at depth zero -/

theorem skipGroups_group {own : Bracket} {inside : List Lexeme} (hown : own ≠ .brace) (h : Paired inside)
    (hr : Reads b i (group own inside)) :
    b.skipGroups i = b.skipGroups (i + (group own inside).length) := by
  have hopening := (reads_group hr).1
  rw [Brackets.skipGroups, dif_pos hopening.lt_size]
  simp only [isPunct_eq, hopening.lexeme_getElem hopening.lt_size]
  rw [if_pos (by cases own <;> first | exact absurd rfl hown | decide), skipGroup_group h hr]

theorem skipGroups_of_not (h : ¬ (b.isPunct i "(" = true ∨ b.isPunct i "[" = true)) :
    b.skipGroups i = i := by
  rw [Brackets.skipGroups]
  split
  · next hi =>
      have ht : b.token? i = some b.tokens[i] := Array.getElem?_eq_getElem hi
      rw [Brackets.isPunct, Brackets.isPunct, ht, Option.any_some, Option.any_some] at h
      exact if_neg (by rwa [Bool.or_eq_true])
  · rfl

theorem lt_skipGroups (h : b.isPunct i "(" = true ∨ b.isPunct i "[" = true) : i < b.skipGroups i := by
  have hi : i < b.size := h.elim Brackets.lt_size_of_any Brackets.lt_size_of_any
  have ht : b.token? i = some b.tokens[i] := Array.getElem?_eq_getElem hi
  rw [Brackets.isPunct, Brackets.isPunct, ht, Option.any_some, Option.any_some] at h
  rw [Brackets.skipGroups, dif_pos hi]
  dsimp only
  rw [if_pos (by rwa [Bool.or_eq_true])]
  exact Nat.lt_of_lt_of_le (Brackets.lt_skipGroup hi) (b.le_skipGroups _)

theorem afterType_of_not (h : ¬ (b.isPunct i "(" = true ∨ b.isPunct i "[" = true)) :
    afterType b (i, true) = b.skipPostfix (if b.isPunct i "\x7b" = true then b.skipGroup i else i) := by
  show b.skipPostfix (if b.isPunct (b.skipGroups i) "\x7b" = true then _ else _) = _
  rw [skipGroups_of_not h]

/-- Arguments and dimensions are passed over. -/
theorem afterType_group {own : Bracket} {inside : List Lexeme} (hown : own ≠ .brace)
    (h : Paired inside) (hr : Reads b i (group own inside)) :
    afterType b (i, true) = afterType b (i + (group own inside).length, true) := by
  show b.skipPostfix (if b.isPunct (b.skipGroups i) "\x7b" = true then _ else _) = _
  rw [skipGroups_group hown h hr]
  rfl

/-- A creation expression may end at its arguments if nothing goes on there and no brace follows. -/
theorem afterType_eq_self_iff :
    afterType b (i, true) = i ↔ ¬ GoesOn b i ∧ ¬ b.isPunct i "\x7b" = true := by
  by_cases hopening : b.isPunct i "(" = true ∨ b.isPunct i "[" = true
  · have hlt : i < afterType b (i, true) :=
      Nat.lt_of_lt_of_le (lt_skipGroups hopening)
        (Nat.le_trans (le_skipBody b (b.skipGroups i)) (b.le_skipPostfix _))
    exact iff_of_false (Nat.ne_of_gt hlt) fun h => h.1 (.inr hopening)
  · rw [afterType_of_not hopening]
    split
    · next hbrace =>
        have hlt := Nat.lt_of_lt_of_le (Brackets.lt_skipGroup (Brackets.lt_size_of_any hbrace))
          (b.le_skipPostfix (b.skipGroup i))
        exact iff_of_false (Nat.ne_of_gt hlt) fun h => h.2 hbrace
    · next hbrace => exact skipPostfix_eq_self_iff.trans (iff_self_and.2 fun _ => hbrace)

theorem afterType_links {links : List Link} {i : Nat} (h : ∀ k ∈ links, k.WellFormed)
    (hr : Reads b i (links.flatMap Link.lexemes)) :
    let e := i + (links.flatMap Link.lexemes).length
    afterType b (i, true) = e ↔
      ¬ GoesOn b e ∧ (b.isPunct e "\x7b" = true → links.any Link.isMember = true) := by
  induction links generalizing i with
  | nil => exact afterType_eq_self_iff.trans (and_congr_right fun _ => (imp_iff_not nofun).symm)
  | cons k rest ih =>
      dsimp only at ih ⊢
      have hmember {l : Lexeme} (hl : l = punct "." ∨ l = op "::") (hat : At b i l)
          (hk : k.isMember = true) :
          afterType b (i, true) = i + ((k :: rest).flatMap Link.lexemes).length ↔
            ¬ GoesOn b (i + ((k :: rest).flatMap Link.lexemes).length) ∧
              (b.isPunct (i + ((k :: rest).flatMap Link.lexemes).length) "\x7b" = true →
                (k :: rest).any Link.isMember = true) := by
        have hany : (k :: rest).any Link.isMember = true := by rw [List.any_cons, hk, Bool.true_or]
        have hno (text : String) (htext : text ∈ ["(", "[", "\x7b"]) : b.isPunct i text = false := by
          rw [hat.isPunct]
          refine decide_eq_false ?_
          rintro rfl
          rcases hl with heq | heq
          · rw [(Prod.mk.inj heq).2] at htext
            revert htext
            decide
          · cases (Prod.mk.inj heq).1
        rw [afterType_of_not (by simp [hno]), hno "\x7b" (by decide), if_neg Bool.false_ne_true,
          skipPostfix_links h hr, skipPostfix_eq_self_iff]
        exact (and_iff_left fun _ => hany).symm
      cases k with
      | member x => exact hmember (.inl rfl) hr.1 rfl
      | reference x => exact hmember (.inr rfl) hr.1 rfl
      | group own inside =>
          have hk := h _ List.mem_cons_self
          rw [List.flatMap_cons] at hr ⊢
          obtain ⟨hfirst, hrest⟩ := reads_append.1 hr
          rw [afterType_group hk.1 hk.2 hfirst, List.length_append, ← Nat.add_assoc, List.any_cons]
          exact ih (fun k' hk' => h k' (List.mem_cons_of_mem _ hk')) hrest

/-- A class body is passed over, and nothing but what follows an operand comes behind it. -/
theorem afterType_body {inside : List Lexeme} {links : List Link} (h : Paired inside)
    (hlinks : ∀ k ∈ links, k.WellFormed)
    (hr : Reads b i (group .brace inside ++ links.flatMap Link.lexemes)) :
    let e := i + (group .brace inside ++ links.flatMap Link.lexemes).length
    afterType b (i, true) = e ↔ ¬ GoesOn b e := by
  obtain ⟨hbody, hrest⟩ := reads_append.1 hr
  have hbrace := (reads_group hbody).1
  have hno (text : String) (htext : text ≠ "\x7b") : b.isPunct i text = false := by
    rw [hbrace.isPunct]
    exact decide_eq_false fun heq => htext (Prod.mk.inj heq).2.symm
  have hyes : b.isPunct i "\x7b" = true := by
    rw [hbrace.isPunct]
    exact decide_eq_true rfl
  dsimp only
  rw [afterType_of_not (by simp [hno]), if_pos hyes, skipGroup_group h hbody,
    skipPostfix_links hlinks hrest, List.length_append, ← Nat.add_assoc, skipPostfix_eq_self_iff]

theorem afterType_tail {c : Creation} (hc : c.WellFormed)
    (hr : Reads b i (group .paren c.arguments ++ c.tail)) :
    afterType b (i, true) = i + (group .paren c.arguments ++ c.tail).length ↔
      c.EndsBefore b (i + (group .paren c.arguments ++ c.tail).length) := by
  obtain ⟨harguments, hr⟩ := reads_append.1 hr
  rw [afterType_group (by decide) hc.arguments harguments, List.length_append, ← Nat.add_assoc,
    Creation.EndsBefore]
  cases hbody : c.body with
  | none =>
      have htail : c.tail = c.links.flatMap Link.lexemes := by
        rw [Creation.tail, hbody]
        rfl
      rw [htail] at hr ⊢
      refine (afterType_links hc.links hr).trans (and_congr_right fun _ => imp_congr_right fun _ => ?_)
      exact (or_iff_right nofun).symm
  | some inside =>
      have htail : c.tail = group .brace inside ++ c.links.flatMap Link.lexemes := by
        rw [Creation.tail, hbody]
        rfl
      rw [htail] at hr ⊢
      refine (afterType_body (hc.body inside hbody) hc.links hr).trans ?_
      exact (and_iff_left fun _ => .inl rfl).symm

/-! ## The end of a creation expression -/

/-- The end of a creation expression is found if and only if its type arguments hold no `>>>`, and the
expression is the longest one that can be read there. -/
theorem skipNew_eq_iff (c : Creation) (hc : c.WellFormed) (hr : Reads b i c.lexemes)
    (hmore : op ">>>" ∈ c.typeArguments → i + c.lexemes.length < b.size) :
    b.skipNew i = i + c.lexemes.length ↔
      op ">>>" ∉ c.typeArguments ∧ c.EndsBefore b (i + c.lexemes.length) := by
  obtain ⟨-, hname, hr⟩ := And.imp_right reads_append.1 hr
  obtain ⟨htypes, htail⟩ := reads_append.1 hr
  have htype : b.typeEnd 0 (i + 1) = b.typeEnd (3 * c.typeArguments.count (op ">>>"))
      (i + 1 + (dotted c.name c.path).length + c.typeArguments.length) :=
    (typeEnd_dotted hname).trans (typeEnd_typeArguments hc.typeArguments htypes)
  have hend : i + c.lexemes.length = i + 1 + (dotted c.name c.path).length + c.typeArguments.length +
      (group .paren c.arguments ++ c.tail).length := by
    rw [Creation.lexemes, List.length_append, List.length_cons, List.length_append]
    omega
  rw [skipNew_eq_afterType, htype]
  rw [hend] at hmore ⊢
  by_cases hshift : op ">>>" ∈ c.typeArguments
  · have hpos : 0 < c.typeArguments.count (op ">>>") := List.count_pos_iff.2 hshift
    exact iff_of_false ((strays_tail hc (by omega) htail).afterType_ne (hmore hshift))
      fun h => h.1 hshift
  · obtain ⟨t, ht, hl⟩ := htail.1.exists_token
    rw [List.count_eq_zero_of_not_mem hshift]
    show afterType b (b.typeEnd 0 _) = _ ↔ _
    rw [Brackets.typeEnd_of_opening ht (by rw [isPunct_eq, hl]; rfl), afterType_tail hc htail]
    exact (and_iff_right hshift).symm

/-- Two creation expressions whose type arguments are nested, with more code behind them. -/
def nestedCreations : Brackets :=
  .ofTokens (significant ((tokenize
    "s = new a.A<B<C>>(x) \x7b f(); \x7d.g() + new A<B<C<D>>>(x) + t;").toOption.getD []))

/-- The first one, with a class body and a call behind it. -/
def withBody : Creation where
  name := "a"
  path := ["A"]
  typeArguments := [op "<", word "B", op "<", word "C", op ">>"]
  arguments := [word "x"]
  body := some [word "f", punct "(", punct ")", punct ";"]
  links := [.member "g", .group .paren []]

/-- The second one, whose type arguments end in `>>>`. -/
def deeplyNested : Creation where
  name := "A"
  path := []
  typeArguments := [op "<", word "B", op "<", word "C", op "<", word "D", op ">>>"]
  arguments := [word "x"]
  body := none
  links := []

/-- The first one ends where it ends; the second one does not. -/
theorem skipNew_nestedCreations :
    nestedCreations.skipNew 2 = 24 ∧ nestedCreations.skipNew 25 ≠ 37 := by
  -- evaluated at once, since each evaluation cuts the source anew
  obtain ⟨hr, hr', hends, hmore⟩ :
      withBody.lexemes <+: (nestedCreations.tokens.toList.drop 2).map lexeme ∧
        deeplyNested.lexemes <+: (nestedCreations.tokens.toList.drop 25).map lexeme ∧
        withBody.EndsBefore nestedCreations 24 ∧ 37 < nestedCreations.size := by
    decide +kernel
  have hwell : withBody.WellFormed := ⟨by decide, by decide, by decide, by decide⟩
  have hwell' : deeplyNested.WellFormed := ⟨by decide, by decide, by decide, by decide⟩
  constructor
  · exact (skipNew_eq_iff withBody hwell (reads_front hr) (by decide)).2 ⟨by decide, hends⟩
  · intro hend
    exact ((skipNew_eq_iff deeplyNested hwell' (reads_front hr') fun _ => hmore).1 hend).1 (by decide)

end EmbeddedSql.Written
