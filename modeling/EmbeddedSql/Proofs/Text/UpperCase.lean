/-
# Trimming and upper case

What has been trimmed stays as it is when it is trimmed again, and what is in upper case stays as it is in
upper case.  The two do not get into each other's way: the upper case of a trimmed text is trimmed.

Trimming goes by the first and the last element alone.  For upper case it comes down to the tables: the
image of a character is the character itself, or is made of *capitals*, which are their own images and are
not blank (`mem_upperImage`).  The runs of the table are checked one against the other.  A run of images and
another run that lie apart need no look at their members, so that few members are looked at.
-/
import Mathlib.Data.List.DropRight
import EmbeddedSql.Text.Blank
import EmbeddedSql.Text.LetterCase

namespace EmbeddedSql

/-! ## Trimming -/

section

variable {α : Type} {p : α → Bool} {xs : List α}

/-- Neither at the front nor at the end is an element of the class. -/
def IsTrimmed (p : α → Bool) (xs : List α) : Prop :=
  (∀ x ∈ xs.head?, p x = false) ∧ ∀ x ∈ xs.getLast?, p x = false

theorem trim_eq_self (h : IsTrimmed p xs) : trim p xs = xs := by
  have hfront : xs.dropWhile p = xs := by
    cases xs with
    | nil => rfl
    | cons x rest => exact List.dropWhile_cons_of_neg (by simp [h.1 x rfl])
  have hend : xs.rdropWhile p = xs :=
    List.rdropWhile_eq_self_iff.2 fun hne => by
      simp [h.2 _ (List.getLast?_eq_some_getLast hne)]
  show (xs.dropWhile p).rdropWhile p = xs
  rw [hfront, hend]

theorem isTrimmed_trim (p : α → Bool) (xs : List α) : IsTrimmed p (trim p xs) := by
  show IsTrimmed p ((xs.dropWhile p).rdropWhile p)
  refine ⟨fun x hx => ?_, fun x hx => ?_⟩
  · -- What is dropped at the end leaves the first element in its place.
    obtain ⟨tail, htail⟩ := List.rdropWhile_prefix p (xs.dropWhile p)
    have hfirst : (xs.dropWhile p).head? = some x := by
      rw [← htail, List.head?_append, hx]
      rfl
    have hnot := List.head?_dropWhile_not p xs
    rw [hfirst] at hnot
    exact hnot
  · have hne : (xs.dropWhile p).rdropWhile p ≠ [] := by
      rintro heq
      rw [heq] at hx
      cases hx
    have hlast := List.rdropWhile_last_not p (xs.dropWhile p) hne
    rw [List.getLast?_eq_some_getLast hne] at hx
    obtain rfl := Option.some.inj hx
    exact Bool.eq_false_iff.2 hlast

theorem trim_trim (p : α → Bool) (xs : List α) : trim p (trim p xs) = trim p xs :=
  trim_eq_self (isTrimmed_trim p xs)

end

/-! ## The tables -/

/-- The blanks by their numbers. -/
def blankRanges : List (Nat × Nat) :=
  [(0x09, 0x0D), (0x1C, 0x20), (0x85, 0x85), (0xA0, 0xA0), (0x1680, 0x1680), (0x2000, 0x200A),
    (0x2028, 0x2029), (0x202F, 0x202F), (0x205F, 0x205F), (0x3000, 0x3000)]

theorem isBlank_iff {c : Char} :
    isBlank c = true ↔ ∃ r ∈ blankRanges, r.1 ≤ c.toNat ∧ c.toNat ≤ r.2 := by
  simp only [isBlank, blankRanges, Bool.or_eq_true, Bool.and_eq_true, decide_eq_true_eq, beq_iff_eq,
    List.mem_cons, List.not_mem_nil, or_false, exists_eq_or_imp, exists_eq_left]
  omega

/-- A letter that is its own upper case. -/
def IsCapital (d : Char) : Prop := upperImage d = [d] ∧ isBlank d = false

instance (d : Char) : Decidable (IsCapital d) := inferInstanceAs (Decidable (_ ∧ _))

namespace CaseRun

variable {r s : CaseRun} {n low high : Nat}

/-- Where the run moves the character numbered `n`, by number. -/
def image (r : CaseRun) (n : Nat) : Nat := ((n : Int) + r.shift).toNat

/-- The numbers of the characters that the run moves. -/
def members (r : CaseRun) : List Nat :=
  (List.range ((r.last - r.first) / r.step + 1)).map fun i => r.first + i * r.step

/-- No image of the run is in the range. -/
def misses (r : CaseRun) (low high : Nat) : Bool :=
  Nat.blt (r.image r.last) low || Nat.blt high (r.image r.first)

/-- No image of the run is found, where only numbers in the range are. -/
def spares (r : CaseRun) (low high : Nat) (found : Nat → Bool) : Bool :=
  r.misses low high || r.members.all fun n => !found (r.image n)

/-- The images of the run are characters, capitals by the tables, and not blank. -/
def isSettled (r : CaseRun) : Bool :=
  Nat.blt (r.image r.last) 0x110000 && r.misses 0xD800 0xDFFF
    && r.spares 0 0x7F (fun m => (Char.ofNat m).toUpper != Char.ofNat m)
    && upperRuns.all (fun s => r.spares s.first s.last s.covers)
    && upperExpansions.all (fun e => r.spares e.1 e.1 (· == e.1))
    && blankRanges.all (fun b => r.misses b.1 b.2)

theorem mem_members (h : r.covers n = true) : n ∈ r.members := by
  simp only [covers, Bool.and_eq_true, decide_eq_true_eq, beq_iff_eq] at h
  obtain ⟨⟨hfirst, hlast⟩, hmod⟩ := h
  refine List.mem_map.2 ⟨(n - r.first) / r.step, List.mem_range.2 ?_, ?_⟩
  · exact Nat.lt_succ_of_le (Nat.div_le_div_right (Nat.sub_le_sub_right hlast r.first))
  · rw [Nat.div_mul_cancel (Nat.dvd_of_mod_eq_zero hmod)]
    omega

theorem not_mem_range (h : r.covers n = true) (hmiss : r.misses low high = true) :
    ¬ (low ≤ r.image n ∧ r.image n ≤ high) := by
  simp only [covers, Bool.and_eq_true, decide_eq_true_eq] at h
  simp only [misses, Bool.or_eq_true, Nat.blt_eq, image] at hmiss
  unfold image
  omega

theorem not_found (h : r.covers n = true) {found : Nat → Bool}
    (hfound : ∀ m, found m = true → low ≤ m ∧ m ≤ high)
    (hspares : r.spares low high found = true) : found (r.image n) = false := by
  simp only [spares, Bool.or_eq_true, List.all_eq_true, Bool.not_eq_true'] at hspares
  rcases hspares with hmiss | hnone
  · exact Bool.eq_false_iff.2 fun hm => not_mem_range h hmiss (hfound _ hm)
  · exact hnone n (mem_members h)

end CaseRun

theorem isSettled_upperRuns : upperRuns.all CaseRun.isSettled = true := by decide +kernel

theorem isCapital_upperExpansions :
    ∀ n ∈ (upperExpansions.flatMap (·.2)).eraseDups, IsCapital (Char.ofNat n) := by decide +kernel

theorem upperExpansions_ne_nil : ∀ e ∈ upperExpansions, e.2 ≠ [] := by decide +kernel

theorem upperImage_ascii : ∀ n : Fin 0x80,
    upperImage (Char.ofNat n) = [Char.ofNat n] ∨ IsCapital (Char.ofNat n).toUpper := by
  decide +kernel

theorem toNat_ofNat {n : Nat} (h : n.isValidChar) : (Char.ofNat n).toNat = n := by
  rw [Char.ofNat, dif_pos h]
  rfl

/-- A character that no run covers and that is not expanded is its own upper case. -/
theorem upperImage_eq_self {c : Char} (hascii : c.toNat ≤ 0x7F → c.toUpper = c)
    (hruns : ∀ r ∈ upperRuns, r.covers c.toNat = false)
    (hexpansions : ∀ e ∈ upperExpansions, (c.toNat == e.1) = false) : upperImage c = [c] := by
  unfold upperImage
  split
  · next h => rw [hascii (Nat.le_of_lt_succ h)]
  · have hrun : upperRuns.find? (·.covers c.toNat) = none :=
      List.find?_eq_none.2 fun r hr => by simp [hruns r hr]
    have hexpansion : upperExpansions.find? (·.1 == c.toNat) = none :=
      List.find?_eq_none.2 fun e he => by
        rw [Bool.beq_comm, hexpansions e he]
        decide
    unfold caseImage
    rw [hrun, hexpansion]

theorem isCapital_image {r : CaseRun} (hr : r ∈ upperRuns) {n : Nat} (h : r.covers n = true) :
    IsCapital (Char.ofNat (r.image n)) := by
  have hsettled := List.all_eq_true.1 isSettled_upperRuns r hr
  simp only [CaseRun.isSettled, Bool.and_eq_true, Nat.blt_eq, List.all_eq_true] at hsettled
  obtain ⟨⟨⟨⟨⟨hbound, hhalves⟩, hascii⟩, hruns⟩, hexpansions⟩, hblanks⟩ := hsettled
  -- The image is a character, since it is neither too large nor one half of a pair.
  have hlast : r.image n ≤ r.image r.last := by
    simp only [CaseRun.covers, Bool.and_eq_true, decide_eq_true_eq] at h
    unfold CaseRun.image
    omega
  have hhalf := CaseRun.not_mem_range h hhalves
  have hvalid : (r.image n).isValidChar := by
    unfold Nat.isValidChar
    omega
  have hnumber := toNat_ofNat hvalid
  refine ⟨upperImage_eq_self (fun hsmall => ?_) (fun s hs => ?_) (fun e he => ?_), ?_⟩
  · rw [hnumber] at hsmall
    rw [CaseRun.spares, Bool.or_eq_true, List.all_eq_true] at hascii
    rcases hascii with hmiss | hkept
    · exact absurd ⟨Nat.zero_le _, hsmall⟩ (CaseRun.not_mem_range h hmiss)
    · simpa using hkept n (CaseRun.mem_members h)
  · rw [hnumber]
    refine CaseRun.not_found h (fun m hm => ?_) (hruns s hs)
    simp only [CaseRun.covers, Bool.and_eq_true, decide_eq_true_eq] at hm
    exact hm.1
  · rw [hnumber]
    refine CaseRun.not_found h (fun m hm => ?_) (hexpansions e he)
    rw [beq_iff_eq] at hm
    exact ⟨hm.ge, hm.le⟩
  · refine Bool.eq_false_iff.2 fun hblank => ?_
    obtain ⟨b, hb, hrange⟩ := isBlank_iff.1 hblank
    rw [hnumber] at hrange
    exact CaseRun.not_mem_range h (hblanks b hb) hrange

/-- The upper case of a character is the character, or is made of capitals. -/
theorem mem_upperImage {c d : Char} (h : d ∈ upperImage c) :
    (d = c ∧ upperImage c = [c]) ∨ IsCapital d := by
  by_cases hascii : c.toNat < 0x80
  · have hc := upperImage_ascii ⟨c.toNat, hascii⟩
    simp only [Char.ofNat_toNat] at hc
    rcases hc with hsame | hcapital
    · rw [hsame, List.mem_singleton] at h
      exact .inl ⟨h, hsame⟩
    · rw [upperImage, if_pos hascii, List.mem_singleton] at h
      exact .inr (h ▸ hcapital)
  · rw [upperImage, if_neg hascii] at h ⊢
    unfold caseImage at h ⊢
    split at h
    · next r hr =>
        have hfound := List.find?_some hr
        rw [List.mem_singleton.1 h]
        exact .inr (isCapital_image (List.mem_of_find?_eq_some hr) hfound)
    · split at h
      · next e image he =>
          obtain ⟨n, hn, rfl⟩ := List.mem_map.1 h
          refine .inr (isCapital_upperExpansions n (List.mem_eraseDups.2 ?_))
          exact List.mem_flatMap.2 ⟨_, List.mem_of_find?_eq_some he, hn⟩
      · exact .inl ⟨List.mem_singleton.1 h, rfl⟩

theorem upperImage_ne_nil (c : Char) : upperImage c ≠ [] := by
  unfold upperImage caseImage
  split
  · exact List.cons_ne_nil _ _
  · split
    · exact List.cons_ne_nil _ _
    · split
      · next e image he =>
          exact fun hnil => upperExpansions_ne_nil _ (List.mem_of_find?_eq_some he)
            (List.map_eq_nil_iff.1 hnil)
      · exact List.cons_ne_nil _ _

/-! ## Texts -/

namespace CodePoint

/-- The upper case of a code point. -/
def upper : CodePoint → Text
  | .surrogate offset => [.surrogate offset]
  | .char c => (upperImage c).map .char

theorem upper_ne_nil (p : CodePoint) : p.upper ≠ [] := by
  cases p with
  | surrogate offset => exact List.cons_ne_nil _ _
  | char c => exact fun hnil => upperImage_ne_nil c (List.map_eq_nil_iff.1 hnil)

theorem upper_of_mem_upper {p q : CodePoint} (h : q ∈ p.upper) : q.upper = [q] := by
  cases p with
  | surrogate offset =>
      rw [List.mem_singleton.1 h]
      rfl
  | char c =>
      obtain ⟨d, hd, rfl⟩ := List.mem_map.1 h
      have hself : upperImage d = [d] := by
        rcases mem_upperImage hd with ⟨rfl, hsame⟩ | hcapital
        · exact hsame
        · exact hcapital.1
      show (upperImage d).map CodePoint.char = _
      rw [hself]
      rfl

theorem isBlank_of_mem_upper {p q : CodePoint} (h : q ∈ p.upper) (hp : p.isBlank = false) :
    q.isBlank = false := by
  cases p with
  | surrogate offset =>
      rw [List.mem_singleton.1 h]
      rfl
  | char c =>
      obtain ⟨d, hd, rfl⟩ := List.mem_map.1 h
      rcases mem_upperImage hd with ⟨rfl, -⟩ | hcapital
      · exact hp
      · exact hcapital.2

end CodePoint

namespace Text

theorem upper_eq_flatMap (t : Text) : t.upper = t.flatMap CodePoint.upper := by
  unfold upper
  congr 1
  funext p
  cases p <;> rfl

theorem upper_upper (t : Text) : t.upper.upper = t.upper := by
  rw [upper_eq_flatMap, upper_eq_flatMap, List.flatMap_assoc]
  refine List.flatMap_congr fun p _ => ?_
  calc p.upper.flatMap CodePoint.upper
      = p.upper.flatMap (fun q => [q]) :=
        List.flatMap_congr fun q hq => CodePoint.upper_of_mem_upper hq
    _ = p.upper := List.flatMap_singleton' _

/-- The upper case of a trimmed text is trimmed. -/
theorem isTrimmed_upper {t : Text} (h : IsTrimmed CodePoint.isBlank t) :
    IsTrimmed CodePoint.isBlank t.upper := by
  rw [upper_eq_flatMap]
  refine ⟨fun q hq => ?_, fun q hq => ?_⟩
  · cases t with
    | nil => cases hq
    | cons p rest =>
        obtain ⟨first, others, hfirst⟩ := List.exists_cons_of_ne_nil p.upper_ne_nil
        rw [List.flatMap_cons, hfirst] at hq
        cases hq
        exact CodePoint.isBlank_of_mem_upper (hfirst ▸ List.mem_cons_self) (h.1 p rfl)
  · rcases List.eq_nil_or_concat t with rfl | ⟨front, p, rfl⟩
    · cases hq
    · rw [List.concat_eq_append] at h hq
      rw [List.flatMap_append, List.flatMap_singleton, List.getLast?_append,
        List.getLast?_eq_some_getLast p.upper_ne_nil] at hq
      obtain rfl := Option.some.inj hq
      refine CodePoint.isBlank_of_mem_upper (List.getLast_mem p.upper_ne_nil) (h.2 p ?_)
      rw [List.getLast?_concat]
      rfl

end Text

end EmbeddedSql
