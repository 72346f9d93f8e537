/-
# What surrounds a stretch

In balanced code the same parentheses are around both ends of a stretch, and around every place where it
steps (`Across.framesBefore?_eq`): a group that it goes over is closed again when it goes on.  One step
into a group, the parenthesis that opens the group is added.

So the nearest classified call around a place (`Scope.nearestCall?`), which decides whether a free-standing
expression counts, is the same all along a stretch, and the same inside of parentheses that are no call
themselves.
-/
import EmbeddedSql.Proofs.Scope.Frames
import EmbeddedSql.Proofs.Scope.Skipped

namespace EmbeddedSql

namespace Brackets

variable (b : Brackets) (classifier : Classifier)

/-- The frames after the token at place `i`, if there are those `around` it. -/
def framesAfter (i : Nat) (t : Token) (around : List Frame) : List Frame :=
  if t.isPunct "(" then b.frameAt classifier i :: around
  else if t.isPunct ")" then around.tail
  else around

variable {b classifier} {P : Token → Prop} {i j close : Nat} {t : Token} {around : List Frame}

theorem getElem?_framesFrom_succ {frames : List Frame} {tokens : List Token} {k : Nat}
    (ht : tokens[k]? = some t) (hframes : (b.framesFrom classifier i around tokens)[k]? = some frames)
    (hk : k + 1 < tokens.length) :
    (b.framesFrom classifier i around tokens)[k + 1]? =
      some (b.framesAfter classifier (i + k) t frames) := by
  induction tokens generalizing i k around with
  | nil => cases ht
  | cons u rest ih =>
      cases k with
      | zero =>
          obtain rfl := Option.some.inj ht
          obtain rfl : around = frames := Option.some.inj hframes
          cases rest with
          | nil => simp at hk
          | cons v rest => rfl
      | succ k =>
          rw [show i + (k + 1) = i + 1 + k by omega]
          exact ih ht hframes (Nat.lt_of_succ_lt_succ hk)

theorem framesBefore?_succ (ht : b.token? i = some t)
    (hframes : b.framesBefore? classifier i = some around) (hi : i + 1 < b.size) :
    b.framesBefore? classifier (i + 1) = some (b.framesAfter classifier i t around) := by
  have htoken : b.tokens.toList[i]? = some t := by rwa [Array.getElem?_toList]
  have hsucc := getElem?_framesFrom_succ htoken hframes (by rwa [Array.length_toList])
  rwa [Nat.zero_add] at hsucc

/-- A token that is no bracket leaves the frames as they are. -/
theorem framesAfter_of_token (ho : t.opens? = none) (hc : t.closes? = none) :
    b.framesAfter classifier i t around = around := by
  have hopen : ¬ t.isPunct "(" = true := by
    intro h
    have hsome : t.opens? = some .paren := Token.opens?_eq_some.2 h
    rw [ho] at hsome
    cases hsome
  have hclose : ¬ t.isPunct ")" = true := by
    intro h
    have hsome : t.closes? = some .paren := Token.closes?_eq_some.2 h
    rw [hc] at hsome
    cases hsome
  rw [framesAfter, if_neg hopen, if_neg hclose]

/-- No other bracket than a parenthesis changes them either. -/
theorem framesAfter_of_isPunct {text : String} (h : t.isPunct text = true) (hopen : text ≠ "(")
    (hclose : text ≠ ")") : b.framesAfter classifier i t around = around := by
  simp [framesAfter, Token.isPunct_of_ne h hopen, Token.isPunct_of_ne h hclose]

theorem framesAfter_of_paren (h : t.isPunct "(" = true) :
    b.framesAfter classifier i t around = b.frameAt classifier i :: around :=
  if_pos h

/-- Closing a group leaves the frames as they were before it was opened. -/
theorem framesAfter_of_closes? {u : Token} {own : Bracket} (ho : t.opens? = some own)
    (hc : u.closes? = some own) :
    b.framesAfter classifier j u (b.framesAfter classifier i t around) = around := by
  rw [Token.opens?_eq_some] at ho
  rw [Token.closes?_eq_some] at hc
  cases own with
  | paren =>
      have hu : ¬ u.isPunct "(" = true := by
        rw [Token.isPunct_of_ne hc (by decide)]
        exact Bool.false_ne_true
      rw [framesAfter_of_paren ho, framesAfter, if_neg hu]
      exact if_pos hc
  | square =>
      rw [framesAfter_of_isPunct hc (by decide) (by decide),
        framesAfter_of_isPunct ho (by decide) (by decide)]
  | brace =>
      rw [framesAfter_of_isPunct hc (by decide) (by decide),
        framesAfter_of_isPunct ho (by decide) (by decide)]

/-- The frames at the end of a stretch are those at its beginning. -/
theorem Across.framesBefore?_eq (hb : Balanced b.tokens.toList) (h : b.Across P i j)
    (hframes : b.framesBefore? classifier i = some around) (hj : j < b.size) :
    b.framesBefore? classifier j = some around := by
  induction hn : j - i using Nat.strongRecOn generalizing i j around P with
  | ind n ih =>
      subst hn
      cases h with
      | here => exact hframes
      | @token _ _ t ht ho hc hp hrest =>
          have hle := hrest.le
          have hnext := framesBefore?_succ ht hframes (by omega)
          rw [framesAfter_of_token ho hc] at hnext
          exact ih (j - (i + 1)) (by omega) hrest hnext hj rfl
      | @group _ close _ hc hrest =>
          have hle := hrest.le
          have hlt := lt_of_closer? hc
          obtain ⟨t, u, own, ht, ho, hu, hclose⟩ := exists_kind_of_closer? hc
          -- into the group, through it and out of it
          have hin := framesBefore?_succ ht hframes (by omega)
          have hend := ih (close - (i + 1)) (by omega) (across_of_closer? hb hc) hin (by omega) rfl
          have hout := framesBefore?_succ hu hend (by omega)
          rw [framesAfter_of_closes? ho hclose] at hout
          exact ih (j - (close + 1)) (by omega) hrest hout hj rfl

/-- A parenthesis after anything but a name is no call. -/
theorem disposition_frameAt (h : (b.tokenBefore? i 1).any (·.isIdent) = false) :
    (b.frameAt classifier i).disposition = .unclassified := by
  have hcall : b.callAt i = none := by
    unfold callAt
    cases ht : b.tokenBefore? i 1 with
    | none => rfl
    | some t =>
        rw [ht, Option.any_some] at h
        simp [h]
  unfold frameAt
  rw [hcall]

end Brackets

namespace Scope

variable {sc : Scope} {i j close : Nat}

/-- The nearest call around a place that is classified at all. -/
def nearestCall? (sc : Scope) (i : Nat) : Option Frame :=
  (sc.framesAt i).find? (·.disposition ≠ .unclassified)

/-- The class that counts for a place is that of its nearest classified call. -/
theorem callClassAt_eq (sc : Scope) (i : Nat) :
    sc.callClassAt i = ((sc.nearestCall? i).map (·.disposition)).getD .unclassified := by
  unfold callClassAt nearestCall?
  cases (sc.framesAt i).find? (·.disposition ≠ .unclassified) <;> rfl

/-- The frames of a scope are those of its parentheses. -/
def FramedBy (classifier : Classifier) (sc : Scope) : Prop :=
  sc.frames.toList = sc.framesFrom classifier 0 [] sc.tokens.toList

theorem framedBy_ofTokens (classifier : Classifier) (tokens : List Token) :
    (Scope.ofTokens classifier tokens).FramedBy classifier := rfl

variable {classifier : Classifier} {P : Token → Prop}

theorem FramedBy.framesBefore?_eq (h : sc.FramedBy classifier) (hi : i < sc.size) :
    sc.framesBefore? classifier i = some (sc.framesAt i) := by
  have hlength : i < (sc.framesFrom classifier 0 [] sc.tokens.toList).length := by
    rwa [Brackets.length_framesFrom, Array.length_toList]
  have hget : sc.frames[i]? = (sc.framesFrom classifier 0 [] sc.tokens.toList)[i]? := by
    rw [← Array.getElem?_toList, h]
  rw [Brackets.framesBefore?, framesAt, hget, List.getElem?_eq_getElem hlength]
  rfl

/-- The nearest classified call is the same all along a stretch. -/
theorem FramedBy.nearestCall?_across (h : sc.FramedBy classifier)
    (hb : Balanced sc.tokens.toList) (hacross : sc.Across P i j) (hj : j < sc.size) :
    sc.nearestCall? j = sc.nearestCall? i := by
  have hle := hacross.le
  have hframes := hacross.framesBefore?_eq hb (h.framesBefore?_eq (by omega)) hj
  rw [h.framesBefore?_eq hj] at hframes
  rw [nearestCall?, nearestCall?, Option.some.inj hframes]

/-- It is the same inside of parentheses that are no call. -/
theorem FramedBy.nearestCall?_inside (h : sc.FramedBy classifier) (hparen : sc.isPunct i "(" = true)
    (hcall : (sc.tokenBefore? i 1).any (·.isIdent) = false) (hi : i + 1 < sc.size) :
    sc.nearestCall? (i + 1) = sc.nearestCall? i := by
  obtain ⟨t, ht, hp⟩ := (Option.any_eq_true _ _).1 hparen
  have hframes := Brackets.framesBefore?_succ ht (h.framesBefore?_eq (by omega)) hi
  rw [h.framesBefore?_eq hi, Brackets.framesAfter_of_paren hp] at hframes
  rw [nearestCall?, nearestCall?, Option.some.inj hframes]
  exact List.find?_cons_of_neg (by simp [Brackets.disposition_frameAt hcall])

end Scope

end EmbeddedSql
