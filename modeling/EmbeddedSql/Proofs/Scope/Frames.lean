/-
# Frames from tables

The frames around a token are kept as a list, which shares its tail with the list of the token before
the outermost new parenthesis.  They can also be looked up in two tables, made in one pass over the code:
for each token the place of the innermost parenthesis around it (`enclosing`), and for each opening
parenthesis its frame (`frameTable`).  The frame of a place is found under the place of its parenthesis,
and the one around it under the place that encloses that parenthesis.

Such a chain of lookups may fail in three ways: a place is not in the code, a parenthesis has no frame, or
it does not stand further out than the one before, so that there is no end.  None of this happens,
whether the brackets balance or not (`lookUpFrames?_eq`).  What carries this is that the list around a
token is made of such chains: each of its tails is the list around the parenthesis before it (`Nested`).
-/
import Mathlib.Data.List.Basic
import EmbeddedSql.Scope.Basic

namespace EmbeddedSql

namespace Brackets

variable (b : Brackets) (classifier : Classifier)

/-! ## Tables -/

/-- For each token from place `i` on, the place of the innermost parenthesis around it, where `around`
holds the places of those around the first of them. -/
def enclosingFrom (i : Nat) (around : List Nat) : List Token → List (Option Nat)
  | [] => []
  | t :: rest =>
    let next :=
      if t.isPunct "(" then i :: around
      else if t.isPunct ")" then around.tail
      else around
    around.head? :: enclosingFrom (i + 1) next rest

/-- For each token, the place of the innermost parenthesis around it, if there is one. -/
def enclosing : List (Option Nat) := enclosingFrom 0 [] b.tokens.toList

/-- The frames of all opening parentheses, by their places. -/
def frameTable : List (Nat × Frame) :=
  ((List.range b.size).filter (b.isPunct · "(")).map fun o => (o, b.frameAt classifier o)

/-- The frame of the parenthesis at `o` and those around it, innermost first; nothing if a lookup fails
or does not lead outwards. -/
def lookUpFrom? (o : Nat) : Option (List Frame) :=
  match (b.frameTable classifier).lookup o with
  | none => none
  | some frame =>
    match b.enclosing[o]? with
    | none => none
    | some none => some [frame]
    | some (some parent) =>
      if parent < o then (lookUpFrom? parent).map (frame :: ·) else none
termination_by o

/-- The frames around the token at place `i`, innermost first. -/
def lookUpFrames? (i : Nat) : Option (List Frame) :=
  match b.enclosing[i]? with
  | none => none
  | some none => some []
  | some (some o) => b.lookUpFrom? classifier o

/-! ## Lists of frames -/

/-- The list of frames around the token at place `i`, if there is one. -/
def framesBefore? (i : Nat) : Option (List Frame) := (b.framesFrom classifier 0 [] b.tokens.toList)[i]?

/-- A list of frames around place `i`: each of them belongs to a parenthesis further out, and those
after it are the list around that parenthesis. -/
inductive Nested : Nat → List Frame → Prop
  | nil {i : Nat} : Nested i []
  | cons {i o : Nat} {around : List Frame} : o < i → b.isPunct o "(" = true →
      b.framesBefore? classifier o = some around → Nested o around →
      Nested i (b.frameAt classifier o :: around)

variable {b classifier}

theorem Nested.mono {i j : Nat} {frames : List Frame} (h : b.Nested classifier i frames)
    (hij : i ≤ j) : b.Nested classifier j frames := by
  cases h with
  | nil => exact .nil
  | cons ho hp hf hn => exact .cons (Nat.lt_of_lt_of_le ho hij) hp hf hn

theorem Nested.tail {i : Nat} {frames : List Frame} (h : b.Nested classifier i frames) :
    b.Nested classifier i frames.tail := by
  cases h with
  | nil => exact .nil
  | cons ho hp hf hn => exact hn.mono (Nat.le_of_lt ho)

/-- One token after the other keeps the lists nested. -/
theorem nested_of_framesFrom {i k : Nat} {around frames : List Frame} {rest : List Token}
    (htokens : ∀ k, rest[k]? = b.token? (i + k))
    (hframes : ∀ k, (b.framesFrom classifier i around rest)[k]? = b.framesBefore? classifier (i + k))
    (hn : b.Nested classifier i around) (h : (b.framesFrom classifier i around rest)[k]? = some frames) :
    b.Nested classifier (i + k) frames := by
  induction rest generalizing i k around with
  | nil => cases h
  | cons t rest ih =>
      cases k with
      | zero =>
          cases h
          exact hn
      | succ k =>
          have hhere : b.token? i = some t := (htokens 0).symm
          have haround : b.framesBefore? classifier i = some around := (hframes 0).symm
          have hshift : ∀ k, i + 1 + k = i + (k + 1) := fun k => by omega
          rw [← hshift]
          refine ih (fun k => ?_) (fun k => ?_) ?_ h
          · rw [hshift, ← htokens]
            rfl
          · rw [hshift, ← hframes]
            rfl
          · split
            · next hp =>
                have hopen : b.isPunct i "(" = true := by
                  rw [isPunct, hhere]
                  exact hp
                exact .cons (Nat.lt_succ_self i) hopen haround hn
            · split
              · exact hn.tail.mono (Nat.le_succ i)
              · exact hn.mono (Nat.le_succ i)

theorem nested_of_framesBefore? {i : Nat} {frames : List Frame}
    (h : b.framesBefore? classifier i = some frames) : b.Nested classifier i frames := by
  have hat : (b.framesFrom classifier 0 [] b.tokens.toList)[i]? = some frames := h
  have hn : b.Nested classifier (0 + i) frames := by
    refine nested_of_framesFrom (fun k => ?_) (fun k => ?_) .nil hat
    · rw [Nat.zero_add, Array.getElem?_toList, token?]
    · rw [Nat.zero_add, framesBefore?]
  rwa [Nat.zero_add] at hn

/-! ## The tables lead along the lists -/

theorem enclosingFrom_eq (i : Nat) (around : List Frame) (tokens : List Token) :
    enclosingFrom i (around.map (·.openAt)) tokens =
      (b.framesFrom classifier i around tokens).map fun frames => frames.head?.map (·.openAt) := by
  induction tokens generalizing i around with
  | nil => rfl
  | cons t rest ih =>
      rw [enclosingFrom, framesFrom, List.map_cons, ← ih, List.head?_map]
      refine congrArg (_ :: enclosingFrom (i + 1) · rest) ?_
      split
      · rfl
      · split
        · exact List.map_tail.symm
        · rfl

theorem getElem?_enclosing (i : Nat) :
    b.enclosing[i]? = (b.framesBefore? classifier i).map fun frames => frames.head?.map (·.openAt) := by
  rw [enclosing, framesBefore?, ← List.getElem?_map, ← enclosingFrom_eq]
  rfl

/-- Every opening parenthesis has a frame. -/
theorem lookup_frameTable {o : Nat} (h : b.isPunct o "(" = true) :
    (b.frameTable classifier).lookup o = some (b.frameAt classifier o) := by
  refine List.lookup_graph (b.frameAt classifier) ?_
  exact List.mem_filter.2 ⟨List.mem_range.2 (lt_size_of_any h), h⟩

theorem lookUpFrom?_eq {o : Nat} {around : List Frame} (hp : b.isPunct o "(" = true)
    (hframes : b.framesBefore? classifier o = some around) (hn : b.Nested classifier o around) :
    b.lookUpFrom? classifier o = some (b.frameAt classifier o :: around) := by
  induction hn with
  | nil =>
      rw [lookUpFrom?, lookup_frameTable hp, getElem?_enclosing, hframes]
      rfl
  | @cons o parent around ho hp' hframes' _ ih =>
      have hparent : b.enclosing[o]? = some (some parent) := by
        rw [getElem?_enclosing, hframes]
        rfl
      rw [lookUpFrom?, lookup_frameTable hp, hparent]
      dsimp only
      rw [if_pos ho, ih hp' hframes']
      rfl

theorem lookUpFrames?_of_framesBefore? {i : Nat} {frames : List Frame}
    (h : b.framesBefore? classifier i = some frames) : b.lookUpFrames? classifier i = some frames := by
  rw [lookUpFrames?, getElem?_enclosing, h]
  cases nested_of_framesBefore? h with
  | nil => rfl
  | cons _ hp hframes hn => exact lookUpFrom?_eq hp hframes hn

end Brackets

/-- Every token has a list of frames. -/
theorem Brackets.length_framesFrom (b : Brackets) (classifier : Classifier) (i : Nat)
    (around : List Frame) (tokens : List Token) :
    (b.framesFrom classifier i around tokens).length = tokens.length := by
  induction tokens generalizing i around with
  | nil => rfl
  | cons t rest ih => rw [framesFrom, List.length_cons, List.length_cons, ih]

/-- The frames around every token are found in the tables. -/
theorem Scope.lookUpFrames?_eq (classifier : Classifier) {tokens : List Token} {i : Nat}
    (h : i < tokens.length) :
    (Scope.ofTokens classifier tokens).lookUpFrames? classifier i =
      some ((Scope.ofTokens classifier tokens).framesAt i) := by
  let b := Brackets.ofTokens tokens
  have hlt : i < (b.framesFrom classifier 0 [] tokens).length := by
    rwa [b.length_framesFrom]
  have hsome : b.framesBefore? classifier i = some (b.framesFrom classifier 0 [] tokens)[i] :=
    List.getElem?_eq_getElem hlt
  have hframes : (Scope.ofTokens classifier tokens).framesAt i =
      (b.framesFrom classifier 0 [] tokens)[i] := by
    rw [framesAt, ofTokens, List.getElem?_toArray, List.getElem?_eq_getElem hlt, Option.getD_some]
  rw [hframes]
  exact Brackets.lookUpFrames?_of_framesBefore? hsome

end EmbeddedSql
