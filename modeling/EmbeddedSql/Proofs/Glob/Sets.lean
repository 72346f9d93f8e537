/-
# What a bracket set holds

The text of a set is read from left to right: two code points with a hyphen between them are a range, everything else
is a member by itself (`members`).  An exclamation mark in front makes the set a complement.

A range whose ends are in the wrong order holds nothing, and it is removed before the set is read for good.  So what
comes after such ranges may stand in front:

| after ranges in the wrong order at the front | what is left of the set |
| :-- | :-- |
| an exclamation mark | a complement |
| a range that begins with an exclamation mark | a complement, with the hyphen and the other end as members |

This is all that the reading by pieces and joints amounts to (`accepts_readSet`).
-/
import EmbeddedSql.Glob.Pattern

namespace EmbeddedSql

namespace SetItem

/-- A range whose ends are in the wrong order. -/
def isEmptyRange : SetItem → Bool
  | single _ => false
  | range first last => last.val < first.val

/-- The marked text that stands for a member. -/
def marks : SetItem → List Pattern.SetMark
  | single p => [.plain p]
  | range first last => [.plain first, .joint, .plain last]

theorem not_holds_of_isEmptyRange {item : SetItem} (h : item.isEmptyRange = true) (p : CodePoint) :
    item.holds p = false := by
  cases item with
  | single q => cases h
  | range first last =>
      simp only [isEmptyRange, decide_eq_true_eq] at h
      simp only [holds, Bool.and_eq_false_iff, decide_eq_false_iff_not]
      omega

/-- The members without the empty ranges. -/
def kept (items : List SetItem) : List SetItem := items.filter fun item => !item.isEmptyRange

theorem kept_cons_of_empty {item : SetItem} (h : item.isEmptyRange = true) (items : List SetItem) :
    kept (item :: items) = kept items :=
  List.filter_cons_of_neg (by simp [h])

theorem kept_cons {item : SetItem} (h : item.isEmptyRange = false) (items : List SetItem) :
    kept (item :: items) = item :: kept items :=
  List.filter_cons_of_pos (by simp [h])

/-- Empty ranges can be left out. -/
theorem any_holds_kept (items : List SetItem) (p : CodePoint) : (kept items).any (holds p) = items.any (holds p) := by
  rw [kept, List.any_filter]
  refine congrArg (items.any ·) (funext fun item => ?_)
  cases hempty : item.isEmptyRange with
  | false => rfl
  | true => rw [item.not_holds_of_isEmptyRange hempty]; rfl

end SetItem

namespace Pattern

/-- The members that a text lists. -/
def members : Text → List SetItem
  | first :: .char '-' :: last :: rest => .range first last :: members rest
  | p :: rest => .single p :: members rest
  | [] => []

/-! ## Pieces and joints -/

theorem joinPieces_cons_cons (p : CodePoint) (piece : Text) (more : List Text) :
    joinPieces ((p :: piece) :: more) = .plain p :: joinPieces (piece :: more) := by
  cases more with
  | nil => rfl
  | cons next more => rfl

theorem joinPieces_append (before piece : Text) (more : List Text) :
    joinPieces ((before ++ piece) :: more) = before.map .plain ++ joinPieces (piece :: more) := by
  induction before with
  | nil => rfl
  | cons p before ih => rw [List.cons_append, joinPieces_cons_cons, ih, List.map_cons, List.cons_append]

/-- What has been read of a piece stays at its front. -/
theorem exists_cutAtJoints (skip : Nat) (piece body : Text) :
    ∃ front more, cutAtJoints skip piece body = (piece ++ front) :: more := by
  induction body generalizing skip piece with
  | nil => exact ⟨[], [], by rw [cutAtJoints, List.append_nil]⟩
  | cons p rest ih =>
      rw [cutAtJoints]
      split
      · exact ⟨[], _, by rw [List.append_nil]⟩
      · obtain ⟨front, more, heq⟩ := ih (skip - 1) (piece ++ [p])
        exact ⟨p :: front, more, by rw [heq, List.append_assoc]; rfl⟩

theorem mendEnd_cons {piece : Text} {pieces : List Text} (hne : pieces ≠ []) (hend : pieces ≠ [[]]) :
    mendEnd (piece :: pieces) = piece :: mendEnd pieces := by
  cases pieces with
  | nil => exact absurd rfl hne
  | cons next more =>
      cases next with
      | nil =>
          cases more with
          | nil => exact absurd rfl hend
          | cons next more => rfl
      | cons p next => rfl

/-- Where no range begins, it makes no difference whether the next code point may be a joint. -/
theorem mendEnd_cutAtJoints_zero {piece body : Text}
    (h : ∀ last rest, body = .char '-' :: last :: rest → False) :
    mendEnd (cutAtJoints 0 piece body) = mendEnd (cutAtJoints 1 piece body) := by
  cases body with
  | nil => rfl
  | cons p rest =>
      by_cases hp : p = .char '-'
      · subst hp
        cases rest with
        | nil => rfl
        | cons last rest => exact (h last rest rfl).elim
      · rw [cutAtJoints, cutAtJoints, if_neg fun hcut => hp hcut.2, if_neg fun hcut => hp hcut.2]

/-- Removing a range, or keeping it, and going on behind it. -/
theorem dropEmptyRanges_cons {before piece : Text} {first last : CodePoint} {pieces more : List Text}
    (h : dropEmptyRanges pieces = (last :: piece) :: more) :
    dropEmptyRanges ((before ++ [first]) :: pieces) =
      if last.val < first.val then (before ++ piece) :: more
      else (before ++ [first]) :: (last :: piece) :: more := by
  rw [dropEmptyRanges, h]
  simp

/-- A range is cut at its hyphen. -/
theorem cutAtJoints_range (piece : Text) (first last : CodePoint) (rest : Text) :
    cutAtJoints 1 piece (first :: .char '-' :: last :: rest) =
      (piece ++ [first]) :: cutAtJoints 1 [last] rest := by
  rw [cutAtJoints, if_neg (by simp), cutAtJoints, if_pos ⟨rfl, rfl⟩, cutAtJoints, if_neg (by simp)]
  rfl

/-- The pieces of a text stand for its members without the empty ranges; `piece` is what has been read of the first
of them before. -/
theorem exists_pieces (piece body : Text) :
    ∃ front more, dropEmptyRanges (mendEnd (cutAtJoints 1 piece body)) = (piece ++ front) :: more ∧
      joinPieces (front :: more) =
        (SetItem.kept (members body)).flatMap SetItem.marks := by
  fun_induction members body generalizing piece with
  | case1 first last rest ih =>
      obtain ⟨front, more, hpieces, hjoin⟩ := ih [last]
      obtain ⟨front', more', hcut⟩ := exists_cutAtJoints 1 [last] rest
      have hmend : mendEnd ((piece ++ [first]) :: cutAtJoints 1 [last] rest) =
          (piece ++ [first]) :: mendEnd (cutAtJoints 1 [last] rest) := by
        rw [hcut]
        exact mendEnd_cons (List.cons_ne_nil _ _) (by simp)
      rw [cutAtJoints_range, hmend, dropEmptyRanges_cons hpieces]
      by_cases hempty : last.val < first.val
      · have hitem : (SetItem.range first last).isEmptyRange = true := decide_eq_true hempty
        rw [if_pos hempty, SetItem.kept_cons_of_empty hitem]
        exact ⟨front, more, rfl, hjoin⟩
      · have hitem : (SetItem.range first last).isEmptyRange = false := decide_eq_false hempty
        rw [if_neg hempty, SetItem.kept_cons hitem]
        refine ⟨[first], (last :: front) :: more, rfl, ?_⟩
        show .plain first :: .joint :: joinPieces ((last :: front) :: more) = _
        rw [joinPieces_cons_cons, hjoin]
        rfl
  | case2 p rest hno ih =>
      obtain ⟨front, more, hpieces, hjoin⟩ := ih (piece ++ [p])
      rw [cutAtJoints, if_neg (by simp), mendEnd_cutAtJoints_zero hno, hpieces]
      refine ⟨p :: front, more, by rw [List.append_assoc]; rfl, ?_⟩
      rw [joinPieces_cons_cons, hjoin]
      rfl
  | case3 => exact ⟨[], [], by simp [cutAtJoints, mendEnd, dropEmptyRanges], rfl⟩

/-- The marked text of a set, without an exclamation mark in front. -/
theorem markSet_members {body : Text} (h : body.head? ≠ some (.char '!')) :
    markSet body = (SetItem.kept (members body)).flatMap SetItem.marks := by
  obtain ⟨front, more, hpieces, hjoin⟩ := exists_pieces [] body
  rw [markSet, if_neg h, hpieces, List.nil_append, hjoin]

/-- The marked text of a set behind an exclamation mark. -/
theorem markSet_complement (body : Text) :
    markSet (.char '!' :: body) =
      .plain (.char '!') :: (SetItem.kept (members body)).flatMap SetItem.marks := by
  obtain ⟨front, more, hpieces, hjoin⟩ := exists_pieces [.char '!'] body
  have hcut : cutAtJoints 2 [] (.char '!' :: body) = cutAtJoints 1 [.char '!'] body := by
    rw [cutAtJoints, if_neg (by simp)]
    rfl
  rw [markSet, List.head?_cons, if_pos rfl, hcut, hpieces, joinPieces_append, hjoin]
  rfl

/-! ## Members from marks -/

/-- A member by itself, before the marks of others. -/
theorem setItems_plain (p : CodePoint) (items : List SetItem) :
    setItems (.plain p :: items.flatMap SetItem.marks) = .single p :: setItems (items.flatMap SetItem.marks) := by
  cases items with
  | nil => rfl
  | cons item rest => cases item <;> rfl

theorem setItems_marks (items : List SetItem) : setItems (items.flatMap SetItem.marks) = items := by
  induction items with
  | nil => rfl
  | cons item rest ih =>
      cases item with
      | single p => exact (setItems_plain p rest).trans (congrArg _ ih)
      | range first last => exact congrArg (SetItem.range first last :: ·) ih

/-! ## Sets -/

/-- What members amount to when they are read for good: an exclamation mark in front makes a complement of the rest,
also one that begins a range, whose hyphen and other end stay. -/
def settled : List SetItem → Bool × List SetItem
  | .single (.char '!') :: items => (true, items)
  | .range (.char '!') last :: items => (true, .single (.char '-') :: .single last :: items)
  | items => (false, items)

/-- Is the set with this text a complement, and of which members? -/
def reading : Text → Bool × List SetItem
  | .char '!' :: body => (true, members body)
  | body => settled ((members body).dropWhile SetItem.isEmptyRange)

/-- Is the code point in the set with this text? -/
def SetHolds (body : Text) (p : CodePoint) : Prop :=
  match reading body with
  | (true, items) => ∀ item ∈ items, item.holds p = false
  | (false, items) => ∃ item ∈ items, item.holds p = true

theorem readSet_complement {body : Text} {marks : List SetMark} (h : markSet body = .plain (.char '!') :: marks) :
    readSet body = .oneOf true (setItems marks) := by
  rw [readSet, h]
  rfl

theorem readSet_members {body : Text} (h : (markSet body).head? ≠ some (.plain (.char '!'))) :
    readSet body = .oneOf false (setItems (markSet body)) := by
  rw [readSet]
  split
  · next marks hmarks =>
      rw [hmarks] at h
      exact absurd rfl h
  · rfl

/-- The set whose marks stand for members of which the first is no empty range. -/
theorem readSet_settled {body : Text} {items : List SetItem} (hfirst : ∀ item ∈ items.head?, item.isEmptyRange = false)
    (h : markSet body = (SetItem.kept items).flatMap SetItem.marks) :
    readSet body = .oneOf (settled items).1 (SetItem.kept (settled items).2) := by
  cases items with
  | nil =>
      rw [readSet_members (by rw [h]; exact nofun), h]
      rfl
  | cons item items =>
      have hmarks := h
      rw [SetItem.kept_cons (hfirst item rfl), List.flatMap_cons] at hmarks
      by_cases hmark : (markSet body).head? = some (.plain (.char '!'))
      · rw [hmarks] at hmark
        cases item with
        | single q =>
            obtain rfl : q = .char '!' := by simpa [SetItem.marks] using hmark
            rw [readSet_complement hmarks]
            exact congrArg (Piece.oneOf true) (setItems_marks _)
        | range q last =>
            obtain rfl : q = .char '!' := by simpa [SetItem.marks] using hmark
            rw [readSet_complement hmarks]
            -- the hyphen of the range has lost its first end
            refine congrArg (Piece.oneOf true) (congrArg (SetItem.single (.char '-') :: ·) ?_)
            exact (setItems_plain last _).trans (congrArg _ (setItems_marks _))
      · have hsettled : settled (item :: items) = (false, item :: items) := by
          rw [settled]
          · rintro rest ⟨⟩
            exact hmark (by rw [hmarks]; rfl)
          · rintro last rest ⟨⟩
            exact hmark (by rw [hmarks]; rfl)
        rw [readSet_members hmark, h, setItems_marks, hsettled]

theorem kept_dropWhile (items : List SetItem) :
    SetItem.kept (items.dropWhile SetItem.isEmptyRange) = SetItem.kept items := by
  induction items with
  | nil => rfl
  | cons item rest ih =>
      cases hempty : item.isEmptyRange with
      | true => rw [List.dropWhile_cons_of_pos hempty, ih, SetItem.kept_cons_of_empty hempty]
      | false => rw [List.dropWhile_cons_of_neg (by simp [hempty])]

/-- The reading of a set by pieces and joints is its reading by members, without the empty ranges. -/
theorem readSet_eq (body : Text) :
    readSet body = .oneOf (reading body).1 (SetItem.kept (reading body).2) := by
  by_cases hmark : body.head? = some (.char '!')
  · obtain ⟨rest, rfl⟩ : ∃ rest, body = .char '!' :: rest := List.head?_eq_some_iff.1 hmark
    rw [readSet_complement (markSet_complement rest), setItems_marks]
    rfl
  · have hreading : reading body = settled ((members body).dropWhile SetItem.isEmptyRange) := by
      rw [reading]
      rintro rest rfl
      exact hmark rfl
    rw [hreading]
    refine readSet_settled (fun item hitem => ?_) ?_
    · have hnot := List.head?_dropWhile_not SetItem.isEmptyRange (members body)
      rw [hitem] at hnot
      exact hnot
    · rw [kept_dropWhile]
      exact markSet_members hmark

theorem accepts_readSet (body : Text) (p : CodePoint) : (readSet body).accepts p = true ↔ SetHolds body p := by
  rw [readSet_eq, Piece.accepts, SetItem.any_holds_kept, SetHolds]
  obtain ⟨complement, items⟩ := reading body
  cases complement with
  | true => simp
  | false => simp

end Pattern

end EmbeddedSql
