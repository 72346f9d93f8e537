/-
# Splitting at a separator

`splitAtEach sep` cuts a list at every occurrence of `sep`, so there is one piece more than there are
separators and joining the pieces with the separator gives the list back.  No piece holds a separator,
and pieces that hold none are what comes out again when they are joined and split.
-/
namespace EmbeddedSql

variable {α : Type} [DecidableEq α]

/-- The pieces of a list between occurrences of a separator. -/
def splitAtEach (sep : α) : List α → List (List α)
  | [] => [[]]
  | x :: rest =>
    if x = sep then [] :: splitAtEach sep rest
    else
      match splitAtEach sep rest with
      | [] => [[x]]
      | piece :: pieces => (x :: piece) :: pieces

theorem splitAtEach_ne_nil (sep : α) (xs : List α) : splitAtEach sep xs ≠ [] := by
  cases xs with
  | nil => simp [splitAtEach]
  | cons x rest =>
    unfold splitAtEach
    split
    · simp
    · split <;> simp

/-- There is one piece more than there are separators. -/
theorem length_splitAtEach (sep : α) (xs : List α) :
    (splitAtEach sep xs).length = xs.count sep + 1 := by
  induction xs with
  | nil => simp [splitAtEach]
  | cons x rest ih =>
    unfold splitAtEach
    split
    · next h => simp [h, ih]
    · next h =>
      split
      · next h₀ => exact absurd h₀ (splitAtEach_ne_nil sep rest)
      · next piece pieces h₀ =>
        rw [h₀] at ih
        simp only [List.length_cons] at ih ⊢
        simp [h, ih]

/-- Joining the pieces gives the list back. -/
theorem intercalate_splitAtEach (sep : α) (xs : List α) :
    List.intercalate [sep] (splitAtEach sep xs) = xs := by
  induction xs with
  | nil => simp [splitAtEach, List.intercalate]
  | cons x rest ih =>
    unfold splitAtEach
    split
    · next h =>
      subst h
      match h₀ : splitAtEach x rest with
      | [] => exact absurd h₀ (splitAtEach_ne_nil x rest)
      | piece :: pieces =>
        rw [h₀] at ih
        simpa [List.intercalate] using ih
    · split
      · next h₀ => exact absurd h₀ (splitAtEach_ne_nil sep rest)
      · next piece pieces h₀ =>
        rw [h₀] at ih
        cases pieces with
        | nil => simpa [List.intercalate] using ih
        | cons next more =>
          rw [← ih]
          simp [List.intercalate]

theorem splitAtEach_cons_of_ne {sep x : α} (hx : x ≠ sep) {rest piece : List α}
    {pieces : List (List α)} (h : splitAtEach sep rest = piece :: pieces) :
    splitAtEach sep (x :: rest) = (x :: piece) :: pieces := by
  rw [splitAtEach, if_neg hx, h]

/-- The separator is in none of the pieces. -/
theorem not_mem_of_mem_splitAtEach {sep : α} {xs piece : List α}
    (h : piece ∈ splitAtEach sep xs) : sep ∉ piece := by
  induction xs generalizing piece with
  | nil =>
    rw [List.mem_singleton.1 h]
    exact List.not_mem_nil
  | cons x rest ih =>
    by_cases hx : x = sep
    · rw [splitAtEach, if_pos hx] at h
      rcases List.mem_cons.1 h with rfl | h
      · exact List.not_mem_nil
      · exact ih h
    · obtain ⟨first, others, hs⟩ := List.exists_cons_of_ne_nil (splitAtEach_ne_nil sep rest)
      rw [splitAtEach_cons_of_ne hx hs] at h
      rw [hs] at ih
      rcases List.mem_cons.1 h with rfl | h
      · intro hm
        rcases List.mem_cons.1 hm with rfl | hm
        · exact hx rfl
        · exact ih List.mem_cons_self hm
      · exact ih (List.mem_cons_of_mem first h)

/-- A stretch without separators is one piece. -/
theorem splitAtEach_of_not_mem {sep : α} {xs : List α} (h : sep ∉ xs) :
    splitAtEach sep xs = [xs] := by
  induction xs with
  | nil => rfl
  | cons x rest ih =>
    have hx : x ≠ sep := fun hx => h (hx ▸ List.mem_cons_self)
    exact splitAtEach_cons_of_ne hx (ih fun hm => h (List.mem_cons_of_mem x hm))

/-- A stretch without separators before a separator is the first piece. -/
theorem splitAtEach_append_cons {sep : α} {xs : List α} (h : sep ∉ xs) (ys : List α) :
    splitAtEach sep (xs ++ sep :: ys) = xs :: splitAtEach sep ys := by
  induction xs with
  | nil => rw [List.nil_append, splitAtEach, if_pos rfl]
  | cons x rest ih =>
    have hx : x ≠ sep := fun hx => h (hx ▸ List.mem_cons_self)
    exact splitAtEach_cons_of_ne hx (ih fun hm => h (List.mem_cons_of_mem x hm))

/-- Splitting undoes joining, where no piece holds the separator. -/
theorem splitAtEach_intercalate {sep : α} {pieces : List (List α)} (hne : pieces ≠ [])
    (h : ∀ piece ∈ pieces, sep ∉ piece) :
    splitAtEach sep (List.intercalate [sep] pieces) = pieces := by
  induction pieces with
  | nil => exact absurd rfl hne
  | cons first rest ih =>
    have hfirst : sep ∉ first := h first List.mem_cons_self
    cases rest with
    | nil => simpa [List.intercalate] using splitAtEach_of_not_mem hfirst
    | cons second rest =>
      have hjoin : List.intercalate [sep] (first :: second :: rest) =
          first ++ sep :: List.intercalate [sep] (second :: rest) := by
        simp [List.intercalate]
      rw [hjoin, splitAtEach_append_cons hfirst,
        ih (List.cons_ne_nil _ _) fun piece hp => h piece (List.mem_cons_of_mem first hp)]

end EmbeddedSql
