/-
# Where fragments come from

The fragments of an expression are read from the code or taken from a variable: a literal gives its
value, a number its text, a tracked name the fragments of its variable, and everything else is an unknown
value.  So the string literals that make up its text are its own and those of the variables that it
mentions (`expression_consists`).  No fragment comes from nowhere (`expression_sourced`), and a run that
starts with no variables holds nothing that was not read from its scope.
-/
import EmbeddedSql.Proofs.Fallible
import EmbeddedSql.Proofs.Flow.Failure

namespace EmbeddedSql

/-- A fragment that is read from code with these tokens. -/
inductive Fragment.ReadFrom (tokens : Array Token) : Fragment → Prop
  | value {t : Token} {text : Text} (line : Nat) : t ∈ tokens → t.isString || t.isCharLiteral →
      t.value = .ok text → ReadFrom tokens (.literal text line)
  | number {t : Token} (line : Nat) : t ∈ tokens → ReadFrom tokens (.literal t.text line)
  | unknown (source : String) (line : Nat) : ReadFrom tokens (.unknown source line)

/-- A piece of an expression with these string literals, or one that is known already. -/
inductive Fragment.PieceOf (b : Brackets) (known : Fragment → Prop) (literals : List Nat) :
    Fragment → Prop
  | literal {k : Nat} {t : Token} {text : Text} : k ∈ literals → b.token? k = some t →
      t.isString = true → t.value = .ok text → PieceOf b known literals (.literal text t.startLine)
  | character {t : Token} {text : Text} : t ∈ b.tokens → t.isCharLiteral = true →
      t.value = .ok text → PieceOf b known literals (.literal text t.startLine)
  | number {t : Token} : t ∈ b.tokens → t.showsNumber = true →
      PieceOf b known literals (.literal t.text t.startLine)
  | held {f : Fragment} : known f → PieceOf b known literals f
  | unknown (source : String) (line : Nat) : PieceOf b known literals (.unknown source line)

/-- A fragment of a variable that is tracked. -/
def Arena.Holds (arena : Arena) (f : Fragment) : Prop :=
  ∃ v, arena.get? v.name = some v ∧ f ∈ v.fragments

/-! ## Expressions -/

namespace Brackets

/-- Fragments that are read from the code, or known already. -/
def Sourced (b : Brackets) (known : Fragment → Prop) (fragments : List Fragment) : Prop :=
  ∀ f ∈ fragments, f.ReadFrom b.tokens ∨ known f

/-- Pieces of an expression with these string literals. -/
def Consists (b : Brackets) (known : Fragment → Prop) (literals : List Nat)
    (fragments : List Fragment) : Prop :=
  ∀ f ∈ fragments, f.PieceOf b known literals

variable {b : Brackets} {known : Fragment → Prop} {fragments more : List Fragment}
  {literals rest : List Nat}

theorem sourced_nil : b.Sourced known [] := fun _ hf => nomatch hf

theorem sourced_single {f : Fragment} (h : f.ReadFrom b.tokens) : b.Sourced known [f] := by
  intro g hg
  rw [List.mem_singleton.1 hg]
  exact .inl h

theorem Sourced.subset (h : b.Sourced known fragments) (hs : more ⊆ fragments) :
    b.Sourced known more := fun f hf => h f (hs hf)

theorem Sourced.mono {known' : Fragment → Prop} (h : b.Sourced known fragments)
    (hk : ∀ f, known f → known' f) : b.Sourced known' fragments := fun f hf =>
  (h f hf).imp_right (hk f)

theorem consists_single {f : Fragment} (h : f.PieceOf b known literals) :
    b.Consists known literals [f] := by
  intro g hg
  rwa [List.mem_singleton.1 hg]

theorem Consists.mono (h : b.Consists known literals fragments) (hsub : literals ⊆ rest) :
    b.Consists known rest fragments := by
  intro f hf
  cases h f hf with
  | literal hk ht hs hv => exact .literal (hsub hk) ht hs hv
  | character ht hc hv => exact .character ht hc hv
  | number ht hn => exact .number ht hn
  | held hf => exact .held hf
  | unknown source line => exact .unknown source line

theorem Consists.append (h : b.Consists known literals fragments) (h' : b.Consists known rest more) :
    b.Consists known (literals ++ rest) (fragments ++ more) := by
  intro f hf
  rcases List.mem_append.1 hf with hf | hf
  · exact h.mono (List.subset_append_left _ _) f hf
  · exact h'.mono (List.subset_append_right _ _) f hf

/-- What is known is of account for literal pieces only. -/
theorem Consists.weaken {known' : Fragment → Prop} (h : b.Consists known literals fragments)
    (hk : ∀ f, known f → f.isLiteral = true → known' f) : b.Consists known' literals fragments := by
  intro f hf
  cases h f hf with
  | literal hk ht hs hv => exact .literal hk ht hs hv
  | character ht hc hv => exact .character ht hc hv
  | number ht hn => exact .number ht hn
  | held hf =>
      cases f with
      | literal text line => exact .held (hk _ hf rfl)
      | unknown source line => exact .unknown source line
  | unknown source line => exact .unknown source line

/-- Pieces are read from the code, or known already. -/
theorem Consists.sourced (h : b.Consists known literals fragments) : b.Sourced known fragments := by
  intro f hf
  cases h f hf with
  | literal _ ht hs hv => exact .inl (.value _ (Array.mem_of_getElem? ht) (by simp [hs]) hv)
  | character ht hc hv => exact .inl (.value _ ht (by simp [hc]) hv)
  | number ht _ => exact .inl (.number _ ht)
  | held hf => exact .inr hf
  | unknown source line => exact .inl (.unknown source line)

theorem reference_consists (arena : Arena) (i : Nat) (t : Token) :
    b.Consists arena.Holds literals (b.reference arena i t).fragments := by
  have hunknown : ∀ line (stop : Nat) (h : i < stop),
      b.Consists arena.Holds literals (b.unknown line stop h).fragments :=
    fun line stop _ => consists_single (.unknown _ line)
  rw [reference]
  split
  · next v hv =>
      split
      · have hget : arena.get? v.name = some v := by
          split at hv
          · cases hv
          · rwa [Arena.name_of_get? hv]
        exact fun f hf => .held ⟨v, hget, hf⟩
      · exact hunknown _ _ _
  · exact hunknown _ _ _

mutual
theorem expression_consists (b : Brackets) (arena : Arena) (i : Nat) {e : Expression}
    (h : b.expression arena i = .ok e) : b.Consists arena.Holds e.literals e.fragments := by
  rw [expression] at h
  obtain ⟨first, hfirst, h⟩ := ok_of_bind_eq_ok h
  cases first with
  | none =>
      cases h
      exact nofun
  | some first =>
      have hconsists := operand_consists b arena i hfirst
      have hlt := first.start_lt_stop
      dsimp only at h
      split at h
      · next hplus =>
          have hsize : first.stop < b.size := lt_size_of_any hplus
          obtain ⟨rest, hrest, h⟩ := ok_of_bind_eq_ok h
          cases h
          exact hconsists.append (expression_consists b arena (first.stop + 1) hrest)
      · cases h
        exact hconsists
termination_by (b.size - i, 2)

theorem operand_consists (b : Brackets) (arena : Arena) (i : Nat) {o : Operand i}
    (h : b.operand arena i = .ok (some o)) : b.Consists arena.Holds o.literals o.fragments := by
  rw [operand] at h
  split at h
  · next hi =>
      have ht : b.token? i = some b.tokens[i] := Array.getElem?_eq_getElem hi
      have hmem : b.tokens[i] ∈ b.tokens := Array.getElem_mem hi
      dsimp only at h
      split at h
      · next hkind =>
          obtain ⟨v, hv, ho⟩ := ok_of_map_eq_ok h
          cases ho
          have hstring : b.tokens[i].isString = true := by simp [Token.isString, hkind]
          exact consists_single (.literal (List.mem_singleton.2 rfl) ht hstring hv)
      · split at h
        · next hchar =>
            obtain ⟨v, hv, ho⟩ := ok_of_map_eq_ok h
            cases ho
            exact consists_single (.character hmem hchar hv)
        · split at h
          · next hnumber =>
              cases h
              exact consists_single (.number hmem hnumber)
          · cases h
      · split at h
        · obtain ⟨g, hg, ho⟩ := ok_of_map_eq_ok h
          cases ho
          exact group_consists b arena i hi hg
        · cases h
      · split at h
        · cases h
        · split at h
          · cases h
            exact consists_single (.unknown _ _)
          · cases h
            exact reference_consists arena i _
      · cases h
  · cases h
termination_by (b.size - i, 1)

theorem group_consists (b : Brackets) (arena : Arena) (i : Nat) (hi : i < b.size) {g : Operand i}
    (h : b.group arena i hi = .ok g) : b.Consists arena.Holds g.literals g.fragments := by
  rw [group] at h
  split at h
  · cases h
    exact consists_single (.unknown _ _)
  · next close hc =>
      have hlt : i < close := lt_of_closer? hc
      have hsize : close < b.size := closer?_lt_size hc
      obtain ⟨cast, hcast, h⟩ := ok_of_bind_eq_ok h
      cases cast with
      | some cast =>
          cases h
          split at hcast
          · exact operand_consists b arena (close + 1) hcast
          · cases hcast
      | none =>
          obtain ⟨inner, hinner, h⟩ := ok_of_bind_eq_ok h
          dsimp only at h
          split at h
          · cases h
            exact expression_consists b arena (i + 1) hinner
          · cases h
            exact consists_single (.unknown _ _)
termination_by (b.size - i, 0)
end

theorem expression_sourced (b : Brackets) (arena : Arena) (i : Nat) {e : Expression}
    (h : b.expression arena i = .ok e) : b.Sourced arena.Holds e.fragments :=
  (expression_consists b arena i h).sourced

end Brackets

/-! ## States -/

/-- A fragment of a variable that is tracked, or that came to an end. -/
def FlowState.HasHeld (s : FlowState) (f : Fragment) : Prop :=
  s.arena.Holds f ∨ ∃ v ∈ s.closed, f ∈ v.fragments

namespace FlowContext

/-- Fragments that are read from the scope, or were held by a variable. -/
abbrev Sourced (cx : FlowContext) (s : FlowState) (fragments : List Fragment) : Prop :=
  cx.scope.Sourced s.HasHeld fragments

variable {cx : FlowContext} {s s' : FlowState}

theorem sourced_commit {i : Nat} {e : Expression} (h : cx.scope.expression s.arena i = .ok e) :
    cx.Sourced (s.commit e) e.fragments :=
  (Brackets.expression_sourced _ _ i h).mono fun _ => .inl

/-- A variable that is discarded is kept. -/
theorem hasHeld_of_discard {name : String} (h : cx.discard s name = .ok s') {f : Fragment}
    (hf : s.HasHeld f) : s'.HasHeld f := by
  have hother : ∀ v, s.arena.get? v.name = some v → f ∈ v.fragments → v.name ≠ name →
      (s.arena.erase name).Holds f := fun v hv hfv hne =>
    ⟨v, (Arena.get?_erase_of_ne s.arena hne).trans hv, hfv⟩
  rw [discard] at h
  split at h
  · next w hw =>
      obtain ⟨found, -, rfl⟩ := ok_of_map_eq_ok h
      rcases hf with ⟨v, hv, hfv⟩ | ⟨v, hv, hfv⟩
      · by_cases hname : v.name = name
        · rw [hname, hw] at hv
          obtain rfl := Option.some.inj hv
          exact .inr ⟨w.markReported, List.mem_append_right _ List.mem_cons_self, hfv⟩
        · exact .inl (hother v hv hfv hname)
      · exact .inr ⟨v, List.mem_append_left _ hv, hfv⟩
  · next hw =>
      cases h
      rcases hf with ⟨v, hv, hfv⟩ | hf
      · refine .inl (hother v hv hfv ?_)
        rintro rfl
        rw [hw] at hv
        cases hv
      · exact .inr hf

/-- What a builder starts with is read from its construction. -/
theorem initialFragments_sourced {opening closing : Nat} {r : FlowState × List Fragment}
    (h : cx.initialFragments s opening closing = .ok r) : cx.Sourced r.1 r.2 := by
  rw [initialFragments.eq_def] at h
  split at h
  · cases h
    exact Brackets.sourced_nil
  · split at h
    · cases h
      exact Brackets.sourced_nil
    · obtain ⟨e, he, h⟩ := ok_of_expression_bind h
      split at h
      · cases h
        exact sourced_commit he
      · cases h
        exact Brackets.sourced_single (.unknown _ _)

end FlowContext

end EmbeddedSql
