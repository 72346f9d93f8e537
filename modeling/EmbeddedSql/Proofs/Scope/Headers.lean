/-
# Headers

Outside of every body, a brace ends a header: what stands between the brace and the last semicolon or brace
in front of it.  The end of the header decides whether the brace opens a body (`opensBody_header`):

| the header                                            | the brace opens a body  |
|-------------------------------------------------------|-------------------------|
| is empty                                              | inside of other braces  |
| ends with `)`, an arrow or `static`                   | always                  |
| ends with `throws` and names without type words       | always                  |
| ends in another way                                   | never                   |

The header is read backwards.  A `throws` clause is looked for up to the first token that is no part of a
name, and a word of a type header (`typeHeaderWords`) is none; so what stands in front of such a word makes
no difference (`endsThrows_append`), and the header of a type comes down to what stands behind its keyword
(`headsBody_append_cons`).  The components of a record stand there and end with `)`, and a name that has a
word of a type header among its parts ends the search too early.
-/
import Mathlib.Data.List.TakeWhile
import EmbeddedSql.Proofs.Scope.Bodies
import EmbeddedSql.Token.Lexer

namespace EmbeddedSql

namespace Token

def isWord (t : Token) (word : String) : Bool := t.isIdent && t.text == word

/-- An identifier from the list. -/
def isWordIn (t : Token) (words : List String) : Bool := t.isIdent && words.contains t.text

end Token

namespace Scope

variable {tokens before behind names : List Token} {t : Token} {depth : Int} {i k : Nat}

/-! ## Outside of bodies -/

/-- The place lies in no body. -/
def Outside (tokens : List Token) (i : Nat) : Prop := ∀ s ∈ bodySpans tokens, i ∉ s.places

/-- A body begins right behind the place. -/
def OpensBody (tokens : List Token) (i : Nat) : Prop := ∃ s ∈ bodySpans tokens, s.start = i + 1

/-- The braces around the code behind some tokens. -/
def depthOf (before : List Token) : Int := openings before - closings before

theorem depthOf_cons (t : Token) (before : List Token) :
    depthOf (t :: before) = depthAfter (depthOf before) t := by
  rw [depthOf, openings_cons, closings_cons, depthAfter, depthOf]
  split
  · next hopen =>
      have hclose : t.isPunct "\x7d" = false := Token.isPunct_of_ne hopen (by decide)
      simp [openings, closings, hopen, hclose]
      omega
  · next hopen =>
      split
      · next hclose =>
          simp [openings, closings, hopen, hclose]
          omega
      · next hclose => simp [openings, closings, hopen, hclose]

theorem depthOf_append (first rest : List Token) :
    depthOf (first ++ rest) = depthOf first + depthOf rest := by
  rw [depthOf, openings_append, closings_append, depthOf, depthOf]
  omega

theorem depthOf_reverse (before : List Token) : depthOf before.reverse = depthOf before := by
  rw [depthOf, openings, closings, List.countP_reverse, List.countP_reverse, depthOf, openings, closings]

/-- A body that is closed leaves the depth as it was. -/
theorem depthOf_body {rest : List Token} (h : rest.drop (bodyLength 0 rest) ≠ []) :
    depthOf (rest.take (bodyLength 0 rest)) = 0 := by
  obtain ⟨-, -, hend | ⟨-, -, -, heven⟩⟩ := bodyLength_spec 0 rest
  · exact absurd (List.drop_eq_nil_of_le (Nat.le_of_eq hend.symm)) h
  · rw [depthOf, heven, Nat.zero_add, Int.sub_self]

/-- The code up to the place behind a token. -/
theorem reverse_take_succ (h : tokens[i]? = some t) :
    (tokens.take (i + 1)).reverse = t :: (tokens.take i).reverse := by
  rw [List.take_add_one, h, Option.toList_some, List.reverse_append, List.reverse_singleton,
    List.singleton_append]

/-- What decides about a brace outside of bodies is what stands in front of it. -/
theorem opens_spansFrom {rest : List Token} (h : tokens.drop i = rest)
    (hbefore : before = (tokens.take i).reverse) (hdepth : rest ≠ [] → depth = depthOf before)
    (hk : tokens[k]? = some t) (hbrace : t.isPunct "\x7b" = true) (hik : i ≤ k)
    (hout : ∀ s ∈ spansFrom i before depth rest, k ∉ s.places) :
    (∃ s ∈ spansFrom i before depth rest, s.start = k + 1) ↔
      opensBody (tokens.take k).reverse (depthOf (tokens.take k).reverse) = true := by
  fun_induction spansFrom i before depth rest with
  | case1 i before depth =>
      have hend := List.drop_eq_nil_iff.1 h
      have hlt := (List.getElem?_eq_some_iff.1 hk).1
      omega
  | case2 i before depth u rest hopens n ih =>
      obtain ⟨hi, hnext⟩ := drop_succ_of_cons h
      have hbehind : tokens.drop (i + 1 + n) = rest.drop n := by rw [← List.drop_drop, hnext]
      rcases Nat.eq_or_lt_of_le hik with rfl | hlt
      · refine iff_of_true ⟨_, List.mem_cons_self, rfl⟩ ?_
        rw [← hbefore, ← hdepth (List.cons_ne_nil u rest)]
        exact (Bool.and_eq_true_iff.1 hopens).2
      · obtain ⟨hfirst, hothers⟩ := List.forall_mem_cons.1 hout
        have hstop : i + 1 + n ≤ k := Nat.le_of_not_lt fun hlast =>
          hfirst (Span.mem_places.2 ⟨hlt, hlast⟩)
        have htaken : (rest.take n).reverse ++ u :: before = (tokens.take (i + 1 + n)).reverse := by
          rw [List.take_add, List.reverse_append, hnext, reverse_take_succ hi, hbefore]
        have hafter : rest.drop n ≠ [] → depth + 1 = depthOf ((rest.take n).reverse ++ u :: before) := by
          intro hne
          rw [depthOf_append, depthOf_reverse, depthOf_body hne, Int.zero_add, depthOf_cons,
            ← hdepth (List.cons_ne_nil u rest), depthAfter, if_pos (Bool.and_eq_true_iff.1 hopens).1]
        rw [← ih hbehind htaken hafter hstop hothers, List.exists_mem_cons_iff]
        exact or_iff_right fun hstart => Nat.ne_of_lt hlt (Nat.succ.inj hstart)
  | case3 i before depth u rest hopens ih =>
      obtain ⟨hi, hnext⟩ := drop_succ_of_cons h
      rcases Nat.eq_or_lt_of_le hik with rfl | hlt
      · obtain rfl : u = t := Option.some.inj (hi.symm.trans hk)
        rw [hbrace, Bool.true_and] at hopens
        rw [← hbefore, ← hdepth (List.cons_ne_nil u rest)]
        refine iff_of_false ?_ hopens
        rintro ⟨s, hs, hstart⟩
        exact Nat.ne_of_gt ((spansFrom_spec hnext).1 s hs).1 hstart
      · refine ih hnext ?_ (fun _ => ?_) hlt hout
        · rw [hbefore, reverse_take_succ hi]
        · rw [depthOf_cons, hdepth (List.cons_ne_nil u rest)]

theorem opensBody_iff (hi : tokens[i]? = some t) (hbrace : t.isPunct "\x7b" = true)
    (hout : Outside tokens i) :
    OpensBody tokens i ↔
      opensBody (tokens.take i).reverse (depthOf (tokens.take i).reverse) = true :=
  opens_spansFrom List.drop_zero rfl (fun _ => rfl) hi hbrace i.zero_le hout

/-- A brace that opens no body keeps the bodies around it apart. -/
theorem apart_of_not_opensBody (hout : Outside tokens i) (h : ¬ OpensBody tokens i) :
    ∀ s ∈ bodySpans tokens, s.stop ≤ i ∨ i + 1 < s.start := by
  intro s hs
  by_contra hacross
  have hstart : s.start ≠ i + 1 := fun heq => h ⟨s, hs, heq⟩
  refine hout s hs (Span.mem_places.2 ?_)
  omega

/-! ## Reading a `throws` clause backwards -/

/-- A token that the reading goes past. -/
def isNamePart (t : Token) : Bool :=
  if t.isIdent then !typeHeaderWords.contains t.text else t.isPunct "." || t.isPunct ","

theorem isNamePart_throws (h : t.isWord "throws" = true) : isNamePart t = true := by
  simp only [Token.isWord, Bool.and_eq_true, beq_iff_eq] at h
  rw [isNamePart, if_pos h.1, h.2]
  decide

theorem endsThrows_cons (t : Token) (before : List Token) :
    endsThrows (t :: before) = (t.isWord "throws" || isNamePart t && endsThrows before) := by
  rw [endsThrows, Token.isWord, isNamePart]
  cases t.isIdent with
  | false => cases t.isPunct "." || t.isPunct "," <;> simp
  | true =>
      cases hthrows : t.text == "throws" with
      | false => cases typeHeaderWords.contains t.text <;> simp
      | true => simp

theorem endsThrows_of_not_isNamePart (h : isNamePart t = false) (before : List Token) :
    endsThrows (t :: before) = false := by
  have hthrows : t.isWord "throws" = false := by
    by_contra hword
    rw [isNamePart_throws (Bool.not_eq_false _ ▸ hword)] at h
    cases h
  rw [endsThrows_cons, hthrows, h]
  rfl

/-- What stands in front of a token that ends the reading makes no difference. -/
theorem endsThrows_append (h : ∀ t ∈ before.head?, isNamePart t = false) (behind : List Token) :
    endsThrows (behind ++ before) = endsThrows behind := by
  induction behind with
  | nil =>
      cases before with
      | nil => rfl
      | cons t before => exact endsThrows_of_not_isNamePart (h t rfl) before
  | cons u behind ih => rw [List.cons_append, endsThrows_cons, ih, endsThrows_cons]

theorem endsThrows_iff : endsThrows before = true ↔
    ∃ names word rest, before = names ++ word :: rest ∧ word.isWord "throws" = true ∧
      ∀ t ∈ names, isNamePart t = true := by
  induction before with
  | nil => simp [endsThrows]
  | cons t before ih =>
      rw [endsThrows_cons, Bool.or_eq_true, Bool.and_eq_true, ih]
      constructor
      · rintro (hword | ⟨hpart, names, word, rest, rfl, hword, hnames⟩)
        · exact ⟨[], t, before, rfl, hword, List.forall_mem_nil _⟩
        · exact ⟨t :: names, word, rest, rfl, hword, List.forall_mem_cons.2 ⟨hpart, hnames⟩⟩
      · rintro ⟨names, word, rest, heq, hword, hnames⟩
        rcases List.cons_eq_append_iff.1 heq with ⟨rfl, hrest⟩ | ⟨names, rfl, rfl⟩
        · obtain ⟨rfl, -⟩ := List.cons.inj hrest
          exact .inl hword
        · obtain ⟨hpart, hnames⟩ := List.forall_mem_cons.1 hnames
          exact .inr ⟨hpart, names, word, rest, rfl, hword, hnames⟩

/-! ## Headers -/

/-- A header begins behind such a token. -/
def isEdge (t : Token) : Bool := t.isPunct ";" || t.isPunct "\x7b" || t.isPunct "\x7d"

/-- The header in front of a place. -/
def headerAt (tokens : List Token) (i : Nat) : List Token :=
  ((tokens.take i).reverse.takeWhile fun t => !isEdge t).reverse

/-- The headers behind which a brace opens a body. -/
inductive HeadsBody : List Token → Prop
  | parameters (start : List Token) {close : Token} (hclose : close.isPunct ")" = true) :
      HeadsBody (start ++ [close])
  | arrow (start : List Token) {arrow : Token} (harrow : arrow.isOp "->" = true) :
      HeadsBody (start ++ [arrow])
  | initializer (start : List Token) {word : Token} (hword : word.isWord "static" = true) :
      HeadsBody (start ++ [word])
  | throws (start : List Token) {word : Token} {names : List Token}
      (hword : word.isWord "throws" = true) (hnames : ∀ t ∈ names, isNamePart t = true)
      (hlast : ∀ t ∈ names.getLast?, t.isIdent = true) : HeadsBody (start ++ word :: names)

theorem opensBody_cons (h : isEdge t = false) (before : List Token) (depth : Int) :
    opensBody (t :: before) depth = true ↔ t.isPunct ")" = true ∨ t.isOp "->" = true ∨
      t.isWord "static" = true ∨ t.isIdent = true ∧ endsThrows (t :: before) = true := by
  rw [isEdge] at h
  rw [opensBody, h, Token.isWord]
  cases t.isPunct ")" <;> cases t.isOp "->" <;> cases t.isIdent <;> simp

theorem headsBody_of_opensBody (h : isEdge t = false)
    (hopens : opensBody (t :: before) depth = true) : HeadsBody (before.reverse ++ [t]) := by
  rcases (opensBody_cons h before depth).1 hopens with hclose | harrow | hword | ⟨hident, hthrows⟩
  · exact .parameters _ hclose
  · exact .arrow _ harrow
  · exact .initializer _ hword
  · obtain ⟨names, word, rest, heq, hword, hnames⟩ := endsThrows_iff.1 hthrows
    have hheader : before.reverse ++ [t] = rest.reverse ++ word :: names.reverse := by
      rw [← List.reverse_cons, heq, List.reverse_append, List.reverse_cons, List.append_assoc]
      rfl
    rw [hheader]
    refine .throws _ hword (fun u hu => hnames u (List.mem_reverse.1 hu)) fun u hu => ?_
    rw [List.getLast?_reverse] at hu
    cases names with
    | nil => cases hu
    | cons v names =>
        obtain rfl : v = u := Option.some.inj hu
        obtain rfl : t = v := (List.cons.inj heq).1
        exact hident

theorem opensBody_of_headsBody {header : List Token} (h : isEdge t = false) (hheads : HeadsBody header)
    (hheader : header = before.reverse ++ [t]) : opensBody (t :: before) depth = true := by
  rw [opensBody_cons h]
  cases hheads with
  | parameters start hclose =>
      obtain rfl := List.singleton_inj.1 (List.append_inj' hheader rfl).2
      exact .inl hclose
  | arrow start harrow =>
      obtain rfl := List.singleton_inj.1 (List.append_inj' hheader rfl).2
      exact .inr (.inl harrow)
  | initializer start hword =>
      obtain rfl := List.singleton_inj.1 (List.append_inj' hheader rfl).2
      exact .inr (.inr (.inl hword))
  | @throws start word names hword hnames hlast =>
      have hbefore : t :: before = names.reverse ++ word :: start.reverse := by
        have := congrArg List.reverse hheader
        simpa using this.symm
      refine .inr (.inr (.inr ⟨?_, endsThrows_iff.2 ⟨names.reverse, word, start.reverse, hbefore,
        hword, fun u hu => hnames u (List.mem_reverse.1 hu)⟩⟩))
      rcases List.cons_eq_append_iff.1 hbefore with ⟨-, hrest⟩ | ⟨rest, hnames', -⟩
      · obtain ⟨rfl, -⟩ := List.cons.inj hrest
        exact (Bool.and_eq_true_iff.1 hword).1
      · refine hlast t ?_
        rw [← List.head?_reverse, hnames']
        rfl

/-- A header without an edge in it opens a body by its end. -/
theorem opensBody_reverse_iff {header : List Token} (hne : header ≠ [])
    (hedges : ∀ t ∈ header, isEdge t = false) (depth : Int) :
    opensBody header.reverse depth = true ↔ HeadsBody header := by
  obtain ⟨start, last, rfl⟩ := (List.eq_nil_or_concat header).resolve_left hne
  have hlast : isEdge last = false := hedges last (by simp)
  rw [List.concat_eq_append, List.reverse_append, List.reverse_singleton, List.singleton_append]
  constructor
  · intro hopens
    simpa using headsBody_of_opensBody hlast hopens
  · exact fun hheads => opensBody_of_headsBody hlast hheads (by simp)

theorem isEdge_iff : isEdge t = true ↔ t.kind = .punctuation ∧ t.text ∈ [";", "\x7b", "\x7d"] := by
  simp [isEdge, Token.isPunct, ← and_or_left, or_assoc]

theorem isPunct_of_isEdge (h : isEdge t = true) {mark : String} (hmark : mark ∉ [";", "\x7b", "\x7d"]) :
    t.isPunct mark = false := by
  rw [Bool.eq_false_iff]
  intro hpunct
  rw [Token.isPunct, Bool.and_eq_true, beq_iff_eq, beq_iff_eq] at hpunct
  exact hmark (hpunct.2 ▸ (isEdge_iff.1 h).2)

theorem not_isNamePart_of_isEdge (h : isEdge t = true) : isNamePart t = false := by
  have hkind := (isEdge_iff.1 h).1
  rw [isNamePart, isPunct_of_isEdge h (by decide), isPunct_of_isEdge h (by decide), Token.isIdent, hkind]
  rfl

/-- Only what stands behind a token that ends the reading decides. -/
theorem opensBody_append (hne : behind ≠ []) (h : ∀ t ∈ before.head?, isNamePart t = false)
    (depth : Int) : opensBody (behind ++ before) depth = opensBody behind depth := by
  obtain ⟨t, behind, rfl⟩ := List.exists_cons_of_ne_nil hne
  have hthrows := endsThrows_append h (t :: behind)
  rw [List.cons_append] at hthrows
  rw [List.cons_append, opensBody, opensBody, hthrows]

theorem isEdge_of_mem_headerAt (h : t ∈ headerAt tokens i) : isEdge t = false := by
  simpa using List.mem_takeWhile_imp (List.mem_reverse.1 h)

/-- The code in front of a place is its header, from an edge or from the beginning of the code on. -/
theorem exists_edge (tokens : List Token) (i : Nat) :
    ∃ before, (tokens.take i).reverse = (headerAt tokens i).reverse ++ before ∧
      ∀ t ∈ before.head?, isEdge t = true := by
  refine ⟨(tokens.take i).reverse.dropWhile fun t => !isEdge t, ?_, fun t ht => ?_⟩
  · rw [headerAt, List.reverse_reverse, List.takeWhile_append_dropWhile]
  · rw [← List.find?_eq_head?_dropWhile_not] at ht
    exact List.find?_some ht

/-! ## Deciding by the header -/

variable {header : List Token}

/-- With a header, its end decides. -/
theorem opensBody_header (hne : headerAt tokens i ≠ []) (depth : Int) :
    opensBody (tokens.take i).reverse depth = true ↔ HeadsBody (headerAt tokens i) := by
  obtain ⟨before, hbefore, hedge⟩ := exists_edge tokens i
  have hstop : ∀ t ∈ before.head?, isNamePart t = false := fun t ht =>
    not_isNamePart_of_isEdge (hedge t ht)
  have hreverse : (headerAt tokens i).reverse ≠ [] := mt List.reverse_eq_nil_iff.1 hne
  rw [hbefore, opensBody_append hreverse hstop]
  exact opensBody_reverse_iff hne (fun t ht => isEdge_of_mem_headerAt ht) depth

/-- Without a header, the braces around it decide. -/
theorem opensBody_no_header (h : headerAt tokens i = []) :
    opensBody (tokens.take i).reverse (depthOf (tokens.take i).reverse) = true ↔
      closings (tokens.take i) < openings (tokens.take i) := by
  have hdepth : 0 < depthOf (tokens.take i).reverse ↔
      closings (tokens.take i) < openings (tokens.take i) := by
    rw [depthOf_reverse, depthOf]
    omega
  obtain ⟨before, hbefore, hedge⟩ := exists_edge tokens i
  rw [h, List.reverse_nil, List.nil_append] at hbefore
  rw [← hdepth, hbefore]
  cases before with
  | nil => decide
  | cons t before =>
      have ht := hedge t rfl
      have hclose : t.isPunct ")" = false := isPunct_of_isEdge ht (by decide)
      have harrow : t.isOp "->" = false := by simp [Token.isOp, (isEdge_iff.1 ht).1]
      rw [isEdge] at ht
      rw [opensBody, hclose, harrow, ht]
      simp

/-- What stands in front of a word of a type header says nothing. -/
theorem headsBody_append_cons {keyword : Token}
    (hedges : ∀ t ∈ before ++ keyword :: behind, isEdge t = false)
    (hne : behind ≠ []) (hstop : isNamePart keyword = false) :
    HeadsBody (before ++ keyword :: behind) ↔ HeadsBody behind := by
  have hreverse : behind.reverse ≠ [] := mt List.reverse_eq_nil_iff.1 hne
  have hhead : ∀ t ∈ (keyword :: before.reverse).head?, isNamePart t = false := by
    intro t ht
    obtain rfl : keyword = t := Option.some.inj ht
    exact hstop
  rw [← opensBody_reverse_iff (List.append_ne_nil_of_right_ne_nil _ (List.cons_ne_nil _ _)) hedges 0,
    List.reverse_append, List.reverse_cons, List.append_assoc, List.singleton_append,
    opensBody_append hreverse hhead, opensBody_reverse_iff hne]
  intro t ht
  exact hedges t (List.mem_append_right _ (List.mem_cons_of_mem _ ht))

/-! ## The headers of types and of methods -/

/-- The words that declare a type. -/
def typeKeywords : List String := ["class", "interface", "enum", "record"]

/-- Dotted names with commas between them. -/
inductive IsNameList : List Token → Prop
  | name {t : Token} (hname : t.isIdent = true) : IsNameList [t]
  | next {t mark : Token} {rest : List Token} (hname : t.isIdent = true)
      (hmark : mark.isPunct "." = true ∨ mark.isPunct "," = true) (hrest : IsNameList rest) :
      IsNameList (t :: mark :: rest)

theorem not_isNamePart_of_isWordIn (h : t.isWordIn typeKeywords = true) : isNamePart t = false := by
  rw [Token.isWordIn, Bool.and_eq_true, List.contains_iff_mem] at h
  have hsubset : typeKeywords ⊆ typeHeaderWords := by decide
  rw [isNamePart, if_pos h.1, List.contains_iff_mem.2 (hsubset h.2)]
  rfl

theorem IsNameList.getLast (h : IsNameList names) :
    ∃ start last, names = start ++ [last] ∧ last.isIdent = true := by
  induction h with
  | @name t hname => exact ⟨[], t, rfl, hname⟩
  | @next t mark rest hname hmark hrest ih =>
      obtain ⟨start, last, rfl, hlast⟩ := ih
      exact ⟨t :: mark :: start, last, rfl, hlast⟩

theorem IsNameList.isNamePart_iff (h : IsNameList names) :
    ∀ t ∈ names, isNamePart t = true ↔ t.text ∉ typeHeaderWords := by
  have hident : ∀ {t : Token}, t.isIdent = true →
      (isNamePart t = true ↔ t.text ∉ typeHeaderWords) := by
    intro t hname
    rw [isNamePart, if_pos hname, Bool.not_eq_true', ← Bool.not_eq_true, List.contains_iff_mem]
  induction h with
  | name hname => exact List.forall_mem_singleton.2 (hident hname)
  | @next t mark rest hname hmark hrest ih =>
      refine List.forall_mem_cons.2 ⟨hident hname, List.forall_mem_cons.2 ⟨?_, ih⟩⟩
      simp only [Token.isPunct, Bool.and_eq_true, beq_iff_eq] at hmark
      rcases hmark with ⟨hkind, htext⟩ | ⟨hkind, htext⟩
      all_goals
        rw [isNamePart, Token.isIdent, Token.isPunct, Token.isPunct, hkind, htext]
        decide

/-- A clause that names nothing but names. -/
theorem IsNameList.headsBody {word : Token} (h : IsNameList names) (hword : word.isWord "throws" = true)
    (hfree : ∀ t ∈ names, t.text ∉ typeHeaderWords) : HeadsBody (before ++ word :: names) := by
  refine .throws _ hword (fun t ht => (h.isNamePart_iff t ht).2 (hfree t ht)) fun t ht => ?_
  obtain ⟨start, last, rfl, hlast⟩ := h.getLast
  rw [List.getLast?_concat] at ht
  obtain rfl : last = t := Option.some.inj ht
  exact hlast

/-- A clause with a word of a type header among its names; no name is `throws` or `static`. -/
theorem IsNameList.not_headsBody (h : IsNameList names)
    (hedges : ∀ t ∈ before ++ names, isEdge t = false)
    (hword : ∃ t ∈ names, t.text ∈ typeHeaderWords)
    (hreserved : ∀ t ∈ names, t.text ∉ ["throws", "static"]) : ¬ HeadsBody (before ++ names) := by
  obtain ⟨start, last, hnames, hlast⟩ := h.getLast
  have hmem : last ∈ names := by simp [hnames]
  have hreverse : (before ++ names).reverse = last :: (before ++ start).reverse := by
    rw [hnames, ← List.append_assoc, List.reverse_append, List.reverse_singleton,
      List.singleton_append]
  have hne : before ++ names ≠ [] := List.ne_nil_of_mem (List.mem_append_right _ hmem)
  have hkind : last.kind = .identifier := beq_iff_eq.1 hlast
  rw [← opensBody_reverse_iff hne hedges 0, hreverse,
    opensBody_cons (hedges last (List.mem_append_right _ hmem))]
  rintro (hclose | harrow | hstatic | ⟨-, hthrows⟩)
  · rw [Token.isPunct_of_kind (hkind ▸ by decide)] at hclose
    cases hclose
  · rw [Token.isOp, hkind] at harrow
    cases harrow
  · have htext := beq_iff_eq.1 (Bool.and_eq_true_iff.1 hstatic).2
    exact hreserved last hmem (by simp [htext])
  · obtain ⟨w, hw, hwtext⟩ := hword
    obtain ⟨front, behind, hsplit⟩ := List.append_of_mem hw
    have hstop : isNamePart w = false := by
      rw [← Bool.not_eq_true, h.isNamePart_iff w hw]
      exact not_not_intro hwtext
    have hbehind : (before ++ names).reverse = behind.reverse ++ w :: (before ++ front).reverse := by
      rw [hsplit, ← List.append_assoc, List.reverse_append, List.reverse_cons, List.append_assoc]
      rfl
    rw [← hreverse, hbehind, endsThrows_append] at hthrows
    · obtain ⟨part, word, rest, heq, hwordThrows, -⟩ := endsThrows_iff.1 hthrows
      have hbehind : word ∈ behind.reverse := heq ▸ List.mem_append_cons_self
      have hmem : word ∈ names := by simp [hsplit, List.mem_reverse.1 hbehind]
      have htext := beq_iff_eq.1 (Bool.and_eq_true_iff.1 hwordThrows).2
      exact hreserved word hmem (by simp [htext])
    · intro t ht
      obtain rfl : w = t := Option.some.inj ht
      exact hstop

end Scope

/-- A brace outside of every body opens one by its header.  Behind the keyword of a type and its name, only
what stands behind the keyword counts; the parameters of a method count, and a list of the names that it
throws does as long as no word of a type header is one of their parts.  A brace that opens no body keeps the
bodies in front of it and those inside of it apart. -/
theorem opens_by_header {tokens : List Token} {i : Nat} {brace : Token}
    (hbrace : tokens[i]? = some brace) (hopen : brace.isPunct "\x7b" = true)
    (hout : Scope.Outside tokens i) :
    let header := Scope.headerAt tokens i
    let opens := Scope.OpensBody tokens i
    splitScopes tokens = ((Scope.bodySpans tokens).map (fun s => Scope.tokensAt tokens s.places) ++
      [Scope.tokensAt tokens (Scope.memberPlaces tokens)]).filter (!·.isEmpty) ∧
    (header = [] → (opens ↔ Scope.closings (tokens.take i) < Scope.openings (tokens.take i))) ∧
    (header ≠ [] → (opens ↔ Scope.HeadsBody header)) ∧
    (∀ before keyword name rest, header = before ++ keyword :: name :: rest →
      keyword.isWordIn Scope.typeKeywords = true → name.isIdent = true →
      (opens ↔ Scope.HeadsBody (name :: rest))) ∧
    (∀ parameters close, header = parameters ++ [close] → close.isPunct ")" = true → opens) ∧
    (∀ parameters close word names, header = parameters ++ close :: word :: names →
      close.isPunct ")" = true → word.isWord "throws" = true → Scope.IsNameList names →
      ((∀ t ∈ names, t.text ∉ Scope.typeHeaderWords) → opens) ∧
      ((∃ t ∈ names, t.text ∈ Scope.typeHeaderWords) →
        (∀ t ∈ names, t.text ∉ ["throws", "static"]) → ¬ opens)) ∧
    (¬ opens → ∀ s ∈ Scope.bodySpans tokens, s.stop ≤ i ∨ i + 1 < s.start) := by
  intro header opens
  have hiff := Scope.opensBody_iff hbrace hopen hout
  have hedges : ∀ t ∈ header, Scope.isEdge t = false := fun t ht => Scope.isEdge_of_mem_headerAt ht
  have hheads : header ≠ [] → (opens ↔ Scope.HeadsBody header) := fun hne =>
    hiff.trans (Scope.opensBody_header hne _)
  refine ⟨Scope.splitScopes_filter tokens,
    fun hempty => hiff.trans (Scope.opensBody_no_header hempty), hheads, ?_, ?_, ?_,
    Scope.apart_of_not_opensBody hout⟩
  · intro before keyword name rest heq hkeyword _
    rw [heq] at hedges hheads
    rw [hheads (by simp), Scope.headsBody_append_cons hedges (List.cons_ne_nil name rest)
      (Scope.not_isNamePart_of_isWordIn hkeyword)]
  · intro parameters close heq hclose
    rw [heq] at hheads
    exact (hheads (by simp)).2 (.parameters parameters hclose)
  · intro parameters close word names heq _ hword hnames
    refine ⟨fun hfree => ?_, fun htype hreserved hopens => ?_⟩
    · rw [heq, List.append_cons] at hheads
      exact (hheads (by simp)).2 (hnames.headsBody hword hfree)
    · rw [heq, List.append_cons, List.append_cons] at hheads hedges
      exact hnames.not_headsBody hedges htype hreserved ((hheads (by simp)).1 hopens)

/-- A class with a record in it that has a component, and with a method that throws. -/
def nestedRecord : List Token :=
  significant ((tokenize
    "class A \x7b record P(int x) \x7b \x7d void m() throws a.E \x7b f(); \x7d \x7d").toOption.getD [])

/-- The class opens no body; the record opens one like the method. -/
theorem opens_by_header_nestedRecord :
    ¬ Scope.OpensBody nestedRecord 2 ∧ Scope.OpensBody nestedRecord 9 ∧
      Scope.OpensBody nestedRecord 19 := by
  let brace : Token := ⟨.punctuation, "\x7b", 1, 1⟩
  let close : Token := ⟨.punctuation, ")", 1, 1⟩
  let word (text : String) : Token := ⟨.identifier, text, 1, 1⟩
  have hplaces : ∀ i ∈ [2, 9, 19], nestedRecord[i]? = some brace ∧
      ∀ s ∈ Scope.bodySpans nestedRecord, i ∉ s.places := by
    decide +kernel
  obtain ⟨hclass, houtClass⟩ := hplaces 2 (by simp)
  obtain ⟨hrecord, houtRecord⟩ := hplaces 9 (by simp)
  obtain ⟨hmethod, houtMethod⟩ := hplaces 19 (by simp)
  refine ⟨?_, ?_, ?_⟩
  · obtain ⟨-, -, -, htype, -⟩ := opens_by_header hclass rfl houtClass
    rw [htype [] (word "class") (word "A") [] (by decide +kernel) (by decide) rfl,
      ← Scope.opensBody_reverse_iff (List.cons_ne_nil _ _) (by decide) 0]
    decide
  · obtain ⟨-, -, -, -, hcallable, -⟩ := opens_by_header hrecord rfl houtRecord
    exact hcallable ((nestedRecord.drop 3).take 5) close (by decide +kernel) rfl
  · obtain ⟨-, -, -, -, -, hthrows, -⟩ := opens_by_header hmethod rfl houtMethod
    have hnames : Scope.IsNameList [word "a", ⟨.punctuation, ".", 1, 1⟩, word "E"] :=
      .next rfl (.inl rfl) (.name rfl)
    exact (hthrows ((nestedRecord.drop 11).take 3) close (word "throws") _ (by decide +kernel) rfl rfl
      hnames).1 (by decide)

end EmbeddedSql
