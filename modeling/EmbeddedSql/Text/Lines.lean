/-
# Lines of a source

A source is cut at its newlines, so it has one line more than newlines.  Carriage returns at the end
of a line do not belong to it.
-/
import EmbeddedSql.Text.Blank
import EmbeddedSql.Text.Split

namespace EmbeddedSql

/-- The lines of a source. -/
def sourceLines (source : String) : List (List Char) :=
  (splitAtEach '\n' source.toList).map (dropWhileEnd (· == '\r'))

/-- A source has one line more than it has newlines. -/
theorem length_sourceLines (source : String) :
    (sourceLines source).length = source.toList.count '\n' + 1 := by
  simp [sourceLines, length_splitAtEach]

theorem newline_not_mem_of_mem_sourceLines {source : String} {line : List Char}
    (h : line ∈ sourceLines source) : '\n' ∉ line := by
  obtain ⟨piece, hp, rfl⟩ := List.mem_map.1 h
  intro hm
  have hsub : (dropWhileEnd (· == '\r') piece).Sublist piece := by
    have hrev := (List.dropWhile_sublist (l := piece.reverse) (· == '\r')).reverse
    rwa [List.reverse_reverse] at hrev
  exact not_mem_of_mem_splitAtEach hp (hsub.subset hm)

/-- The lines from `first` to `last`, counted from one. -/
def excerpt (lines : List (List Char)) (first last : Int) : String :=
  String.ofList
    (List.intercalate ['\n'] ((lines.take last.toNat).drop (first - 1).toNat))

/-- Lines that are there come out again from their excerpt. -/
theorem splitAtEach_excerpt {lines : List (List Char)} (h : ∀ line ∈ lines, '\n' ∉ line)
    {first last : Int} (h1 : 1 ≤ first) (hle : first ≤ last) (hlast : last ≤ lines.length) :
    splitAtEach '\n' (excerpt lines first last).toList =
      (lines.take last.toNat).drop (first - 1).toNat := by
  rw [excerpt, String.toList_ofList]
  refine splitAtEach_intercalate ?_ fun line hm => ?_
  · rw [← List.length_pos_iff, List.length_drop, List.length_take]
    omega
  · exact h line (List.mem_of_mem_take (List.mem_of_mem_drop hm))

end EmbeddedSql
