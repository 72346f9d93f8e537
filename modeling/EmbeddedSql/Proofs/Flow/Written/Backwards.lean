/-
# Looking back at written code

What stands before a place is found out token by token (`tokenBefore?_any`).  Behind a dotted name the look back comes
to its first part (`dottedStart_dotted`), and behind arguments to the parenthesis that opens them
(`beforeArguments_group`).
-/
import EmbeddedSql.Proofs.Flow.Written.Groups

namespace EmbeddedSql.Written

open StraightLine

variable {b : Brackets} {i j k : Nat} {l : Lexeme} {ls : List Lexeme}

/-! ## Dotted names -/

theorem length_dotted (first : String) (path : List String) :
    (dotted first path).length = 2 * path.length + 1 := by
  induction path generalizing first with
  | nil => rfl
  | cons x rest ih =>
      rw [show dotted first (x :: rest) = word first :: punct "." :: dotted x rest from rfl,
        List.length_cons, List.length_cons, ih, List.length_cons]
      omega

/-- The last part of a dotted name. -/
theorem exists_last_dotted {first : String} {path : List String} {i : Nat}
    (hr : Reads b i (dotted first path)) : ∃ x, At b (i + 2 * path.length) (word x) := by
  induction path generalizing first i with
  | nil => exact ⟨first, hr.1⟩
  | cons x rest ih =>
      obtain ⟨y, hy⟩ := ih (i := i + 2) hr.2.2
      refine ⟨y, ?_⟩
      rwa [List.length_cons, show i + 2 * (rest.length + 1) = i + 2 + 2 * rest.length by omega]

/-! ## The token before a place -/

theorem tokenBefore?_any (h : At b i l) (p : Token → Bool) (q : Lexeme → Bool)
    (hpq : ∀ t, p t = q (lexeme t)) : (b.tokenBefore? (i + 1) 1).any p = q l := by
  obtain ⟨t, ht, rfl⟩ := h.exists_token
  rw [Brackets.tokenBefore?_succ, ht, Option.any_some, hpq]

theorem isPunct_before (h : At b i l) (text : String) :
    (b.tokenBefore? (i + 1) 1).any (·.isPunct text) = decide (l = punct text) :=
  tokenBefore?_any h _ (fun l => decide (l = punct text)) fun t => isPunct_eq t text

theorem isIdent_before (h : At b i l) :
    (b.tokenBefore? (i + 1) 1).any (·.isIdent) = (l.1 == .identifier) :=
  tokenBefore?_any h _ (fun l => l.1 == .identifier) fun _ => rfl

theorem tokenBefore?_add (i n m : Nat) : b.tokenBefore? (i + n) (m + n) = b.tokenBefore? i m := by
  unfold Brackets.tokenBefore?
  rw [Nat.add_sub_add_right]
  by_cases h : m ≤ i
  · rw [if_pos h, if_pos (by omega)]
  · rw [if_neg h, if_neg (by omega)]

/-! ## Where names and arguments begin -/

/-- A name that no dot stands before begins where it stands. -/
theorem dottedStart_of_not (h : At b i l) (hl : l ≠ punct ".") : b.dottedStart (i + 2) = i + 1 := by
  have hdot : (b.tokenBefore? (i + 2) 2).any (·.isPunct ".") = false := by
    rw [tokenBefore?_add (i + 1) 1 1, isPunct_before h]
    exact decide_eq_false hl
  rw [Brackets.dottedStart, hdot]
  split
  · rfl
  · rfl

/-- A dotted name begins at its first part. -/
theorem dottedStart_dotted {first : String} {path : List String} {i : Nat}
    (hr : Reads b i (dotted first path)) :
    b.dottedStart (i + (dotted first path).length) = b.dottedStart (i + 1) := by
  induction path generalizing first i with
  | nil => rfl
  | cons x rest ih =>
      obtain ⟨hfirst, hdot, hrest⟩ := hr
      have hlength : i + (dotted first (x :: rest)).length = i + 2 + (dotted x rest).length := by
        rw [length_dotted, length_dotted, List.length_cons]
        omega
      have hdots : (b.tokenBefore? (i + 3) 2).any (·.isPunct ".") = true := by
        rw [tokenBefore?_add (i + 2) 1 1, isPunct_before hdot]
        exact decide_eq_true rfl
      have hident : (b.tokenBefore? (i + 3) 3).any (·.isIdent) = true := by
        rw [tokenBefore?_add (i + 1) 2 1, isIdent_before hfirst]
        rfl
      rw [hlength, ih (i := i + 2) hrest]
      show b.dottedStart (i + 3) = _
      rw [Brackets.dottedStart, dif_pos (by omega), hdots, hident]
      rfl

theorem beforeArguments_of_not (h : At b k l) (hl : l ≠ punct ")") :
    b.beforeArguments (k + 1) = k + 1 := by
  rw [Brackets.beforeArguments, isPunct_before h]
  exact if_neg (by simpa using hl)

/-- Arguments are passed over. -/
theorem beforeArguments_group {inside : List Lexeme} (h : Paired inside)
    (hr : Reads b i (group .paren inside)) :
    b.beforeArguments (i + (group .paren inside).length) = i := by
  have hopener : b.opener? (i + 1 + inside.length + 1 - 1) = some ⟨i, by omega⟩ := opener?_group h hr
  rw [length_group, show i + (inside.length + 2) = i + 1 + inside.length + 1 by omega,
    Brackets.beforeArguments, isPunct_before (reads_group hr).2.2, if_pos (by decide), hopener]

/-- A word is no annotation if neither a dot nor an at sign stands before it. -/
theorem annotationStart_word {x : String} (h : At b i (word x))
    (hno : ∀ k l, i = k + 1 → At b k l → l ≠ punct "." ∧ l ≠ punct "@") : b.annotationStart (i + 1) = i + 1 := by
  rw [Brackets.annotationStart]
  simp only [beforeArguments_of_not h (show word x ≠ punct ")" by rintro ⟨⟩)]
  split
  · cases i with
    | zero =>
        rw [Brackets.dottedStart, dif_neg (by decide)]
        rfl
    | succ k =>
        have hlt : k < b.size := Nat.lt_of_succ_lt h.lt_size
        have hat : At b k (lexeme b.tokens[k]) := by
          rw [At, Brackets.token?, Array.getElem?_eq_getElem hlt, Option.map_some]
        obtain ⟨hdot, hsign⟩ := hno k _ rfl hat
        rw [dottedStart_of_not hat hdot, isPunct_before hat, if_neg (by simpa using hsign)]
  · rfl

end EmbeddedSql.Written
