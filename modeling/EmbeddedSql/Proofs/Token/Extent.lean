/-
# No token reaches past the end of its text

The ends of tokens are found in different ways: stretches of a class of characters, searches for a mark,
and loops in which a backslash takes the next character with it.  Each of them counts characters that are
there.  So the length that `lexeme` finds is the length of what is taken, and nothing is cut short
(`lexeme_le`).
-/
import EmbeddedSql.Token.Lexer

namespace EmbeddedSql

namespace Lexer

/-! ## Searches -/

theorem spanLength_le (p : Char → Bool) (cs : List Char) : spanLength p cs ≤ cs.length :=
  (List.takeWhile_sublist p).length_le

theorem commentEnd?_le {cs : List Char} {n : Nat} (h : commentEnd? cs = some n) :
    n ≤ cs.length := by
  fun_induction commentEnd? cs generalizing n with
  | case1 =>
      cases h
      simp
  | case2 c rest _ ih =>
      obtain ⟨m, hm, rfl⟩ := Option.map_eq_some_iff.1 h
      exact Nat.succ_le_succ (ih hm)
  | case3 => cases h

theorem quoteEnd?_le {quote : Char} {cs : List Char} {n : Nat} (h : quoteEnd? quote cs = some n) :
    n ≤ cs.length := by
  fun_induction quoteEnd? quote cs generalizing n with
  | case1 => cases h
  | case2 => cases h
  | case3 c rest _ ih =>
      obtain ⟨m, hm, rfl⟩ := Option.map_eq_some_iff.1 h
      exact Nat.succ_le_succ (Nat.succ_le_succ (ih hm))
  | case4 => cases h
  | case5 =>
      cases h
      exact Nat.succ_pos _
  | case6 c rest _ _ _ ih =>
      obtain ⟨m, hm, rfl⟩ := Option.map_eq_some_iff.1 h
      exact Nat.succ_le_succ (ih hm)

theorem textBlockEnd?_le {cs : List Char} {n : Nat} (h : textBlockEnd? cs = some n) :
    n ≤ cs.length := by
  fun_induction textBlockEnd? cs generalizing n with
  | case1 c rest ih =>
      obtain ⟨m, hm, rfl⟩ := Option.map_eq_some_iff.1 h
      exact Nat.succ_le_succ (Nat.succ_le_succ (ih hm))
  | case2 =>
      cases h
      simp
  | case3 => cases h
  | case4 c rest _ _ _ ih =>
      obtain ⟨m, hm, rfl⟩ := Option.map_eq_some_iff.1 h
      exact Nat.succ_le_succ (ih hm)
  | case5 => cases h

/-! ## Numbers -/

theorem optionalLength_le (p : Char → Bool) (cs : List Char) : optionalLength p cs ≤ cs.length := by
  unfold optionalLength
  split
  · split <;> simp
  · exact Nat.le_refl _

/-- Two stretches, the second of which begins where the first one ends. -/
theorem add_drop_le {cs : List Char} {n m : Nat} (hn : n ≤ cs.length)
    (hm : m ≤ (cs.drop n).length) : n + m ≤ cs.length := by
  rw [List.length_drop] at hm
  omega

theorem exponentLength_le (cs : List Char) : exponentLength cs ≤ cs.length := by
  unfold exponentLength
  split
  · next e rest =>
      split
      · have hsign := optionalLength_le (fun c => c == '+' || c == '-') rest
        have hdigits := add_drop_le hsign (spanLength_le isDecimalDigit (rest.drop _))
        dsimp only
        split
        · exact Nat.zero_le _
        · rw [List.length_cons]
          omega
      · exact Nat.zero_le _
  · exact Nat.zero_le _

theorem numberTailLength_le (cs : List Char) : numberTailLength cs ≤ cs.length :=
  add_drop_le (exponentLength_le cs) (optionalLength_le isNumberSuffix _)

theorem fractionLength_le (cs : List Char) : fractionLength cs ≤ cs.length := by
  unfold fractionLength
  split
  · next c rest =>
      split
      · have hdigits := spanLength_le isDigitOrBar rest
        rw [List.length_cons]
        omega
      · exact Nat.zero_le _
  · exact Nat.zero_le _

/-- The length holds the mark before the digits. -/
theorem markedNumberLength?_le {p : Char → Bool} {cs : List Char} {n : Nat}
    (h : markedNumberLength? p cs = some n) : n ≤ cs.length + 1 := by
  unfold markedNumberLength? at h
  dsimp only at h
  split at h
  · cases h
  · cases h
    have hdigits := add_drop_le (spanLength_le p cs) (optionalLength_le isLongSuffix _)
    omega

theorem radixNumberLength?_le {c : Char} {cs : List Char} {n : Nat}
    (h : radixNumberLength? c cs = some n) : n ≤ cs.length := by
  unfold radixNumberLength? at h
  split at h
  · split at h
    · cases h
    · split at h
      · exact markedNumberLength?_le h
      · split at h
        · exact markedNumberLength?_le h
        · cases h
  · cases h

theorem numberLength?_le {c : Char} {rest : List Char} {n : Nat}
    (h : numberLength? c rest = some n) : n ≤ rest.length := by
  unfold numberLength? at h
  split at h
  · next hradix =>
      cases h
      exact radixNumberLength?_le hradix
  · split at h
    · cases h
      have hwhole := spanLength_le isDigitOrBar rest
      exact add_drop_le (add_drop_le hwhole (fractionLength_le _)) (numberTailLength_le _)
    · split at h
      · cases h
        exact add_drop_le (spanLength_le isDigitOrBar rest) (numberTailLength_le _)
      · cases h

/-! ## Tokens -/

theorem le_of_followedBy {a b : Char} {rest : List Char} (h : followedBy a b rest = true) :
    2 ≤ rest.length := by
  unfold followedBy at h
  split at h
  · simp
  · cases h

theorem operator?_le {c : Char} {rest : List Char} {op : String}
    (h : operator? (c :: rest) = some op) : op.length - 1 ≤ rest.length := by
  have hprefix := List.find?_some h
  have hle : op.length ≤ (c :: rest).length := (List.isPrefixOf_iff_prefix.1 hprefix).length_le
  exact Nat.sub_le_of_le_add hle

/-- A construct that is opened by `k` more characters ends where its end is found after them. -/
theorem closed_le {construct : Construct} {kind kind' : TokenKind} {rest : List Char}
    {o : Option Nat} {k n : Nat} (hk : k ≤ rest.length)
    (ho : ∀ m, o = some m → m ≤ (rest.drop k).length)
    (h : closed construct kind (o.map (k + ·)) = .ok (kind', n)) : n ≤ rest.length := by
  cases o with
  | none => cases h
  | some m =>
      cases h
      exact add_drop_le hk (ho m rfl)

/-- The same of a construct that is opened by its first character. -/
theorem closed_quote_le {construct : Construct} {kind kind' : TokenKind} {quote : Char}
    {rest : List Char} {n : Nat}
    (h : closed construct kind (quoteEnd? quote rest) = .ok (kind', n)) : n ≤ rest.length := by
  cases hq : quoteEnd? quote rest with
  | none =>
      rw [hq] at h
      cases h
  | some m =>
      rw [hq] at h
      cases h
      exact quoteEnd?_le hq

/-- No token reaches past the end of the text. -/
theorem lexeme_le {c : Char} {rest : List Char} {kind : TokenKind} {n : Nat}
    (h : lexeme c rest = .ok (kind, n)) : n ≤ rest.length := by
  unfold lexeme at h
  split at h
  · cases h
    exact spanLength_le isBlank rest
  split at h
  · cases h
    exact spanLength_le _ rest
  split at h
  · next hcomment =>
      refine closed_le ?_ (fun m hm => commentEnd?_le hm) h
      cases rest with
      | nil => simp at hcomment
      | cons d rest => exact Nat.succ_pos _
  split at h
  · next hblock =>
      rw [Bool.and_eq_true, Bool.and_eq_true] at hblock
      exact closed_le (le_of_followedBy hblock.1.2) (fun m hm => textBlockEnd?_le hm) h
  split at h
  · exact closed_quote_le h
  split at h
  · exact closed_quote_le h
  split at h
  · next hnumber =>
      cases h
      exact numberLength?_le hnumber
  split at h
  · cases h
    exact spanLength_le isIdentChar rest
  split at h
  · next hdots =>
      cases h
      rw [Bool.and_eq_true] at hdots
      exact le_of_followedBy hdots.2
  split at h
  · cases h
    exact Nat.zero_le _
  split at h
  · next hop =>
      cases h
      exact operator?_le hop
  · cases h
    exact Nat.zero_le _

end Lexer
end EmbeddedSql
