/-
# Where the bodies lie

Scopes are lists of tokens, and the same token may stand in a code twice.  So what it means that nothing is
lost and nothing is told twice is said of places: every body is a span of places right behind an opening
brace (`bodySpans`), the members are the places outside of all spans, and each scope is the tokens at its
places (`splitFrom_eq`).

A span ends in front of the first closing brace that closes more than has been opened in it
(`bodyLength_spec`), so it is balanced, or goes on to the end of the code.  The next span begins behind
that brace, and a span that goes to the end has none behind it.
-/
import Mathlib.Data.List.Basic
import Mathlib.Data.List.Nodup
import Mathlib.Data.List.Perm.Basic
import EmbeddedSql.Proofs.Scope.Complete
import EmbeddedSql.Scope.Split

namespace EmbeddedSql

namespace Scope

/-! ## The end of a body -/

def openings (tokens : List Token) : Nat := tokens.countP (·.isPunct "\x7b")

def closings (tokens : List Token) : Nat := tokens.countP (·.isPunct "\x7d")

/-- No beginning closes more braces than it opens, and `level` more. -/
def Nested (level : Nat) (tokens : List Token) : Prop :=
  ∀ first, first <+: tokens → closings first ≤ level + openings first

variable {t : Token} {rest tokens : List Token} {level n : Nat}

theorem openings_append (first rest : List Token) :
    openings (first ++ rest) = openings first + openings rest := List.countP_append

theorem closings_append (first rest : List Token) :
    closings (first ++ rest) = closings first + closings rest := List.countP_append

theorem openings_cons (t : Token) (rest : List Token) :
    openings (t :: rest) = openings [t] + openings rest := openings_append [t] rest

theorem closings_cons (t : Token) (rest : List Token) :
    closings (t :: rest) = closings [t] + closings rest := closings_append [t] rest

theorem nested_nil (level : Nat) : Nested level [] := by
  intro first hfirst
  rw [List.prefix_nil.1 hfirst]
  exact Nat.zero_le _

theorem Nested.of_tail {next : Nat} (h : Nested next rest)
    (hstep : closings [t] + next ≤ level + openings [t]) : Nested level (t :: rest) := by
  intro first hfirst
  rcases List.prefix_cons_iff.1 hfirst with rfl | ⟨tail, rfl, htail⟩
  · exact Nat.zero_le _
  · have hrest := h tail htail
    rw [closings_cons, openings_cons]
    omega

/-- How a body ends `n` tokens ahead, inside of `level` braces that were opened in it. -/
structure Ends (level : Nat) (rest : List Token) (n : Nat) : Prop where
  le : n ≤ rest.length
  nested : Nested level (rest.take n)
  closed : n = rest.length ∨ ∃ t, rest[n]? = some t ∧ t.isPunct "\x7d" = true ∧
    closings (rest.take n) = level + openings (rest.take n)

/-- One more token in front. -/
theorem Ends.cons {next : Nat} (h : Ends next rest n)
    (hstep : closings [t] + next = level + openings [t]) : Ends level (t :: rest) (n + 1) where
  le := Nat.succ_le_succ h.le
  nested := h.nested.of_tail (Nat.le_of_eq hstep)
  closed := by
    rcases h.closed with rfl | ⟨close, hclose, hbrace, heven⟩
    · exact .inl rfl
    · refine .inr ⟨close, hclose, hbrace, ?_⟩
      rw [List.take_succ_cons, closings_cons, openings_cons]
      omega

theorem bodyLength_spec (level : Nat) (rest : List Token) :
    Ends level rest (bodyLength level rest) := by
  fun_induction bodyLength level rest with
  | case1 level => exact ⟨Nat.le_refl 0, nested_nil level, .inl rfl⟩
  | case2 level t rest hopen ih =>
      have hclose : t.isPunct "\x7d" = false := Token.isPunct_of_ne hopen (by decide)
      refine ih.cons ?_
      simp [openings, closings, hopen, hclose]
  | case3 t rest _ hclose =>
      exact ⟨Nat.zero_le _, nested_nil 0, .inr ⟨t, rfl, hclose, rfl⟩⟩
  | case4 t rest hopen hclose level ih =>
      refine ih.cons ?_
      simp [openings, closings, hopen, hclose]
      omega
  | case5 level t rest hopen hclose ih =>
      refine ih.cons ?_
      simp [openings, closings, hopen, hclose]

/-! ## Spans -/

/-- The place of the first token of a body, and how many tokens it has. -/
structure Span where
  start : Nat
  length : Nat
deriving DecidableEq, Repr

namespace Span

/-- The place behind the last token. -/
def stop (s : Span) : Nat := s.start + s.length

def places (s : Span) : List Nat := List.range' s.start s.length

theorem mem_places {s : Span} {k : Nat} : k ∈ s.places ↔ s.start ≤ k ∧ k < s.stop :=
  List.mem_range'_1

end Span

/-- The braces around the code behind a token. -/
def depthAfter (depth : Int) (t : Token) : Int :=
  if t.isPunct "\x7b" then depth + 1 else if t.isPunct "\x7d" then depth - 1 else depth

/-- The bodies of a stretch of tokens that begins at place `i` outside of any body. -/
def spansFrom (i : Nat) (before : List Token) (depth : Int) : List Token → List Span
  | [] => []
  | t :: rest =>
    if t.isPunct "\x7b" && opensBody before depth then
      let n := bodyLength 0 rest
      ⟨i + 1, n⟩ ::
        spansFrom (i + 1 + n) ((rest.take n).reverse ++ t :: before) (depth + 1) (rest.drop n)
    else spansFrom (i + 1) (t :: before) (depthAfter depth t) rest
termination_by tokens => tokens.length
decreasing_by
  · simp only [List.length_drop, List.length_cons]; omega
  · simp

/-- The bodies of a code, empty ones too. -/
def bodySpans (tokens : List Token) : List Span := spansFrom 0 [] 0 tokens

/-- The tokens at some places. -/
def tokensAt (tokens : List Token) (places : List Nat) : List Token := places.filterMap (tokens[·]?)

/-- Of `n` places from `i` on, those that lie in none of the spans. -/
def others (spans : List Span) (i n : Nat) : List Nat :=
  (List.range' i n).filter fun k => decide (∀ s ∈ spans, k ∉ s.places)

/-! ## What a span is -/

/-- A body of a code: right behind an opening brace, and in front of the brace that closes it, or
never closed. -/
structure Span.IsBody (tokens : List Token) (s : Span) : Prop where
  inside : s.stop ≤ tokens.length
  opened : ∃ i t, s.start = i + 1 ∧ tokens[i]? = some t ∧ t.isPunct "\x7b" = true
  nested : Nested 0 (tokensAt tokens s.places)

/-- The closing brace follows, and as many braces are closed in the body as are opened. -/
structure Span.IsClosed (tokens : List Token) (s : Span) : Prop where
  closed : ∃ t, tokens[s.stop]? = some t ∧ t.isPunct "\x7d" = true
  even : closings (tokensAt tokens s.places) = openings (tokensAt tokens s.places)

theorem tokensAt_cons (tokens : List Token) {i : Nat} (h : tokens[i]? = some t) (places : List Nat) :
    tokensAt tokens (i :: places) = t :: tokensAt tokens places := by
  rw [tokensAt, List.filterMap_cons, h, tokensAt]

/-- The code from a place on, and from the next place on. -/
theorem drop_succ_of_cons {i : Nat} (h : tokens.drop i = t :: rest) :
    tokens[i]? = some t ∧ tokens.drop (i + 1) = rest := by
  refine ⟨?_, ?_⟩
  · rw [← List.head?_drop, h, List.head?_cons]
  · rw [← List.drop_drop, h, List.drop_succ_cons, List.drop_zero]

/-- Places side by side. -/
theorem tokensAt_range' {i : Nat} (h : tokens.drop i = rest) (hn : n ≤ rest.length) :
    tokensAt tokens (List.range' i n) = rest.take n := by
  induction n generalizing i rest with
  | zero => rfl
  | succ n ih =>
      cases rest with
      | nil => cases hn
      | cons t rest =>
          obtain ⟨hi, hnext⟩ := drop_succ_of_cons h
          rw [List.range'_succ, tokensAt_cons tokens hi, List.take_succ_cons,
            ih hnext (Nat.le_of_succ_le_succ hn)]

/-- The body behind an opening brace. -/
theorem isBody_of_bodyLength {i : Nat} (h : tokens.drop i = t :: rest) (hopen : t.isPunct "\x7b" = true) :
    (⟨i + 1, bodyLength 0 rest⟩ : Span).IsBody tokens ∧
      ((⟨i + 1, bodyLength 0 rest⟩ : Span).IsClosed tokens ∨
        (⟨i + 1, bodyLength 0 rest⟩ : Span).stop = tokens.length) := by
  obtain ⟨hi, hnext⟩ := drop_succ_of_cons h
  obtain ⟨hle, hnested, hclosed⟩ := bodyLength_spec 0 rest
  have hlength : i + 1 + rest.length = tokens.length := by
    have := congrArg List.length h
    rw [List.length_drop, List.length_cons] at this
    omega
  have hbody : tokensAt tokens (⟨i + 1, bodyLength 0 rest⟩ : Span).places =
      rest.take (bodyLength 0 rest) := tokensAt_range' hnext hle
  refine ⟨⟨?_, ⟨i, t, rfl, hi, hopen⟩, ?_⟩, ?_⟩
  · show i + 1 + bodyLength 0 rest ≤ tokens.length
    omega
  · rw [hbody]
    exact hnested
  · rcases hclosed with hend | ⟨close, hclose, hbrace, heven⟩
    · right
      show i + 1 + bodyLength 0 rest = tokens.length
      omega
    · left
      refine ⟨⟨close, ?_, hbrace⟩, ?_⟩
      · show tokens[i + 1 + bodyLength 0 rest]? = some close
        rw [← List.getElem?_drop, hnext, hclose]
      · rw [hbody, heven, Nat.zero_add]

/-- Every span is a body, and they follow one another. -/
theorem spansFrom_spec {i : Nat} {before : List Token} {depth : Int} (h : tokens.drop i = rest) :
    (∀ s ∈ spansFrom i before depth rest,
      i < s.start ∧ s.IsBody tokens ∧ (s.IsClosed tokens ∨ s.stop = tokens.length)) ∧
    (spansFrom i before depth rest).Pairwise fun s s' => s.stop < s'.start := by
  fun_induction spansFrom i before depth rest with
  | case1 => exact ⟨List.forall_mem_nil _, List.Pairwise.nil⟩
  | case2 i before depth t rest hopens n ih =>
      obtain ⟨-, hnext⟩ := drop_succ_of_cons h
      have hbehind : tokens.drop (i + 1 + n) = rest.drop n := by rw [← List.drop_drop, hnext]
      obtain ⟨hspans, hapart⟩ := ih hbehind
      have hbody := isBody_of_bodyLength h (Bool.and_eq_true_iff.1 hopens).1
      refine ⟨List.forall_mem_cons.2 ⟨⟨Nat.lt_succ_self i, hbody⟩, fun s hs => ?_⟩,
        List.pairwise_cons.2 ⟨fun s hs => (hspans s hs).1, hapart⟩⟩
      obtain ⟨hstart, hrest⟩ := hspans s hs
      exact ⟨by omega, hrest⟩
  | case3 i before depth t rest hopens ih =>
      obtain ⟨hspans, hapart⟩ := ih (drop_succ_of_cons h).2
      refine ⟨fun s hs => ?_, hapart⟩
      obtain ⟨hstart, hrest⟩ := hspans s hs
      exact ⟨Nat.lt_of_succ_lt hstart, hrest⟩

/-! ## The scopes by their places -/

variable {spans : List Span} {i : Nat}

theorem others_cons (h : ∀ s ∈ spans, i < s.start) (n : Nat) :
    others spans i (n + 1) = i :: others spans (i + 1) n := by
  have hi : ∀ s ∈ spans, i ∉ s.places := fun s hs hmem =>
    Nat.not_le_of_lt (h s hs) (Span.mem_places.1 hmem).1
  rw [others, List.range'_succ, List.filter_cons, if_pos (decide_eq_true hi), others]

theorem others_span (length n : Nat) :
    others (⟨i, length⟩ :: spans) i (length + n) = others spans (i + length) n := by
  let first : Span := ⟨i, length⟩
  have hinside : (List.range' i length).filter
      (fun k => decide (∀ s ∈ first :: spans, k ∉ s.places)) = [] := by
    refine List.filter_eq_nil_iff.2 fun k hk hout => ?_
    exact of_decide_eq_true hout first List.mem_cons_self hk
  have hbehind : ∀ k ∈ List.range' (i + length) n,
      decide (∀ s ∈ first :: spans, k ∉ s.places) = decide (∀ s ∈ spans, k ∉ s.places) := by
    intro k hk
    have hout : k ∉ first.places := fun hmem =>
      Nat.not_lt.2 (List.mem_range'_1.1 hk).1 (Span.mem_places.1 hmem).2
    rw [decide_eq_decide, List.forall_mem_cons]
    exact and_iff_right hout
  rw [others, ← List.range'_append_1, List.filter_append, hinside, List.nil_append,
    List.filter_congr hbehind, others]

/-- Behind a brace that opens a body, the members go on behind the body. -/
theorem others_of_body (h : tokens.drop i = t :: rest) (before : List Token) (depth : Int) :
    others (⟨i + 1, bodyLength 0 rest⟩ ::
        spansFrom (i + 1 + bodyLength 0 rest) before depth (rest.drop (bodyLength 0 rest)))
        i (rest.length + 1) =
      i :: others (spansFrom (i + 1 + bodyLength 0 rest) before depth (rest.drop (bodyLength 0 rest)))
        (i + 1 + bodyLength 0 rest) (rest.drop (bodyLength 0 rest)).length := by
  obtain ⟨-, hnext⟩ := drop_succ_of_cons h
  have hn := (bodyLength_spec 0 rest).le
  generalize bodyLength 0 rest = n at hn ⊢
  have hbehind : tokens.drop (i + 1 + n) = rest.drop n := by rw [← List.drop_drop, hnext]
  have hlength : rest.length = n + (rest.drop n).length := by
    rw [List.length_drop]
    omega
  rw [others_cons, hlength, others_span]
  refine List.forall_mem_cons.2 ⟨Nat.lt_succ_self i, fun s hs => ?_⟩
  have := ((spansFrom_spec hbehind).1 s hs).1
  omega

theorem others_of_member (h : tokens.drop i = t :: rest) (before : List Token) (depth : Int) :
    others (spansFrom (i + 1) before depth rest) i (rest.length + 1) =
      i :: others (spansFrom (i + 1) before depth rest) (i + 1) rest.length := by
  refine others_cons (fun s hs => ?_) _
  exact Nat.lt_of_succ_lt ((spansFrom_spec (drop_succ_of_cons h).2).1 s hs).1

/-- Splitting by tokens is splitting by places. -/
theorem splitFrom_eq {before : List Token} {depth : Int} (h : tokens.drop i = rest) :
    splitFrom before depth rest =
      ((spansFrom i before depth rest).map fun s => tokensAt tokens s.places,
        tokensAt tokens (others (spansFrom i before depth rest) i rest.length)) := by
  fun_induction spansFrom i before depth rest with
  | case1 => rw [splitFrom]; rfl
  | case2 i before depth t rest hopens n ih =>
      obtain ⟨hi, hnext⟩ := drop_succ_of_cons h
      have hbehind : tokens.drop (i + 1 + n) = rest.drop n := by rw [← List.drop_drop, hnext]
      have hbody : tokensAt tokens (⟨i + 1, n⟩ : Span).places = rest.take n :=
        tokensAt_range' hnext (bodyLength_spec 0 rest).le
      rw [splitFrom, if_pos hopens]
      dsimp only
      rw [ih hbehind, List.map_cons, hbody, List.length_cons, others_of_body h, tokensAt_cons tokens hi]
  | case3 i before depth t rest hopens ih =>
      obtain ⟨hi, hnext⟩ := drop_succ_of_cons h
      rw [splitFrom, if_neg hopens]
      dsimp only
      rw [← depthAfter, ih hnext, List.length_cons, others_of_member h, tokensAt_cons tokens hi]

/-- Every place is in one span, or in none, and is counted once. -/
theorem places_perm {before : List Token} {depth : Int} (h : tokens.drop i = rest) :
    (((spansFrom i before depth rest).map Span.places).flatten ++
      others (spansFrom i before depth rest) i rest.length).Perm (List.range' i rest.length) := by
  fun_induction spansFrom i before depth rest with
  | case1 => exact .refl _
  | case2 i before depth t rest hopens n ih =>
      obtain ⟨-, hnext⟩ := drop_succ_of_cons h
      have hbehind : tokens.drop (i + 1 + n) = rest.drop n := by rw [← List.drop_drop, hnext]
      have hlength : rest.length = n + (rest.drop n).length := by
        have := (bodyLength_spec 0 rest).le
        rw [List.length_drop]
        omega
      rw [List.length_cons, others_of_body h, List.map_cons, List.flatten_cons]
      refine List.perm_middle.trans ?_
      rw [List.range'_succ, hlength, ← List.range'_append_1, List.append_assoc]
      exact ((ih hbehind).append_left _).cons i
  | case3 i before depth t rest hopens ih =>
      obtain ⟨-, hnext⟩ := drop_succ_of_cons h
      rw [List.length_cons, others_of_member h, List.range'_succ]
      exact List.perm_middle.trans ((ih hnext).cons i)

/-! ## Empty scopes are left out -/

theorem isEmpty_tokensAt {places : List Nat} (h : ∀ k ∈ places, k < tokens.length) :
    (tokensAt tokens places).isEmpty = places.isEmpty := by
  cases places with
  | nil => rfl
  | cons k places =>
      have hk := List.getElem?_eq_getElem (h k List.mem_cons_self)
      rw [tokensAt_cons tokens hk]
      rfl

theorem bodySpans_spec (tokens : List Token) :
    (∀ s ∈ bodySpans tokens,
      0 < s.start ∧ s.IsBody tokens ∧ (s.IsClosed tokens ∨ s.stop = tokens.length)) ∧
    (bodySpans tokens).Pairwise fun s s' => s.stop < s'.start :=
  spansFrom_spec List.drop_zero

theorem bodySpans_perm (tokens : List Token) :
    (((bodySpans tokens).map Span.places).flatten ++
      others (bodySpans tokens) 0 tokens.length).Perm (List.range tokens.length) := by
  rw [List.range_eq_range']
  exact places_perm List.drop_zero

/-- The bodies that are scopes. -/
def filledSpans (tokens : List Token) : List Span := (bodySpans tokens).filter (0 < ·.length)

/-- The members' places. -/
def memberPlaces (tokens : List Token) : List Nat := others (bodySpans tokens) 0 tokens.length

theorem memberPlaces_ne_nil (h : tokens ≠ []) : memberPlaces tokens ≠ [] := by
  obtain ⟨t, rest, rfl⟩ := List.exists_cons_of_ne_nil h
  rw [memberPlaces, List.length_cons,
    others_cons fun s hs => ((bodySpans_spec (t :: rest)).1 s hs).1]
  exact List.cons_ne_nil _ _

theorem lt_of_mem_memberPlaces {k : Nat} (h : k ∈ memberPlaces tokens) : k < tokens.length := by
  have hrange := (List.mem_filter.1 h).1
  rw [← List.range_eq_range'] at hrange
  exact List.mem_range.1 hrange

/-- The scopes are the bodies and the members, as far as there is something in them. -/
theorem splitScopes_filter (tokens : List Token) :
    splitScopes tokens = ((bodySpans tokens).map (fun s => tokensAt tokens s.places) ++
      [tokensAt tokens (memberPlaces tokens)]).filter (!·.isEmpty) := by
  have hsplit : splitFrom [] 0 tokens =
      ((bodySpans tokens).map fun s => tokensAt tokens s.places,
        tokensAt tokens (memberPlaces tokens)) := splitFrom_eq List.drop_zero
  rw [splitScopes, hsplit]

theorem splitScopes_eq (tokens : List Token) :
    splitScopes tokens = (filledSpans tokens).map (fun s => tokensAt tokens s.places) ++
      if tokens = [] then [] else [tokensAt tokens (memberPlaces tokens)] := by
  have hfilled : ∀ s ∈ bodySpans tokens,
      (!(tokensAt tokens s.places).isEmpty) = decide (0 < s.length) := by
    intro s hs
    have hinside : ∀ k ∈ s.places, k < tokens.length := fun k hk =>
      Nat.lt_of_lt_of_le (Span.mem_places.1 hk).2 ((bodySpans_spec tokens).1 s hs).2.1.inside
    rw [isEmpty_tokensAt hinside, Span.places]
    cases s.length <;> rfl
  have hmembers : [tokensAt tokens (memberPlaces tokens)].filter (!·.isEmpty) =
      if tokens = [] then [] else [tokensAt tokens (memberPlaces tokens)] := by
    rw [List.filter_singleton, isEmpty_tokensAt fun k hk => lt_of_mem_memberPlaces hk]
    split
    · next hempty =>
        subst hempty
        rfl
    · next hne =>
        rw [List.isEmpty_eq_false_iff.2 (memberPlaces_ne_nil hne)]
        rfl
  rw [splitScopes_filter, List.filter_append, List.filter_map, hmembers, filledSpans]
  exact congrArg (fun spans : List Span => spans.map _ ++ _) (List.filter_congr hfilled)

/-- Empty bodies have no places. -/
theorem flatten_filledSpans (tokens : List Token) :
    ((filledSpans tokens).map Span.places).flatten = ((bodySpans tokens).map Span.places).flatten := by
  rw [filledSpans]
  induction bodySpans tokens with
  | nil => rfl
  | cons s spans ih =>
      rw [List.filter_cons]
      split
      · rw [List.map_cons, List.map_cons, List.flatten_cons, List.flatten_cons, ih]
      · next hempty =>
          have hlength : s.length = 0 := by simpa using hempty
          rw [ih, List.map_cons, List.flatten_cons, Span.places, hlength]
          rfl

theorem memberPlaces_eq (tokens : List Token) :
    memberPlaces tokens =
      (List.range tokens.length).filter (· ∉ ((filledSpans tokens).map Span.places).flatten) := by
  rw [memberPlaces, others, List.range_eq_range', flatten_filledSpans]
  refine List.filter_congr fun k _ => ?_
  simp only [List.mem_flatten, List.mem_map, decide_eq_decide]
  constructor
  · rintro hout ⟨_, ⟨s, hs, rfl⟩, hk⟩
    exact hout s hs hk
  · exact fun hout s hs hk => hout ⟨_, ⟨s, hs, rfl⟩, hk⟩

/-- A body that goes on to the end is the last one. -/
theorem last_of_stop {spans : List Span} {k : Nat} {s : Span}
    (hinside : ∀ s ∈ spans, s.IsBody tokens)
    (hapart : spans.Pairwise fun s s' => s.stop < s'.start) (hk : spans[k]? = some s)
    (hstop : s.stop = tokens.length) : k + 1 = spans.length := by
  obtain ⟨hlt, rfl⟩ := List.getElem?_eq_some_iff.1 hk
  by_contra hne
  have hnext : k + 1 < spans.length := by omega
  have hstart := List.pairwise_iff_getElem.1 hapart k (k + 1) hlt hnext (Nat.lt_succ_self k)
  have hend := (hinside _ (List.getElem_mem hnext)).inside
  rw [hstop] at hstart
  rw [Span.stop] at hend
  omega

end Scope

/-- Scopes by places: every place of a code is in exactly one of the scopes, and the tokens of a scope are in
the order of the code.  The bodies are stretches of code, each right behind an opening brace and in front
of a closing one, with braces that match; one that is never closed is the last and goes to the end.  The
members are all that is left, which is something unless there is no code at all. -/
theorem splitScopes_partition (tokens : List Token) :
    ∃ (bodies : List Scope.Span) (members : List Nat),
      splitScopes tokens = bodies.map (fun s => Scope.tokensAt tokens s.places) ++
        (if tokens = [] then [] else [Scope.tokensAt tokens members]) ∧
      ((bodies.map Scope.Span.places).flatten ++ members).Perm (List.range tokens.length) ∧
      members = (List.range tokens.length).filter (· ∉ (bodies.map Scope.Span.places).flatten) ∧
      (∀ s ∈ bodies, 0 < s.length ∧ s.IsBody tokens) ∧
      ∀ k s, bodies[k]? = some s →
        s.IsClosed tokens ∨ s.stop = tokens.length ∧ k + 1 = bodies.length := by
  obtain ⟨hspans, hapart⟩ := Scope.bodySpans_spec tokens
  have hbodies : ∀ s ∈ Scope.filledSpans tokens, s.IsBody tokens := fun s hs =>
    (hspans s (List.mem_of_mem_filter hs)).2.1
  refine ⟨Scope.filledSpans tokens, Scope.memberPlaces tokens, Scope.splitScopes_eq tokens,
    ?_, Scope.memberPlaces_eq tokens, fun s hs => ?_, fun k s hk => ?_⟩
  · rw [Scope.flatten_filledSpans]
    exact Scope.bodySpans_perm tokens
  · exact ⟨of_decide_eq_true (List.mem_filter.1 hs).2, hbodies s hs⟩
  · have hs : s ∈ Scope.bodySpans tokens := List.mem_of_mem_filter (List.mem_of_getElem? hk)
    rcases (hspans s hs).2.2 with hclosed | hstop
    · exact .inl hclosed
    · exact .inr ⟨hstop, Scope.last_of_stop hbodies (hapart.filter _) hk hstop⟩

end EmbeddedSql
