/-
# No literal is read twice

In balanced code with plain creation expressions, a literal becomes part of one expression that is read
for good, at most.  The literals that are committed stand before the place where the run is, with one
exception: the value of a variable is read first, and its tokens are read loosely afterwards.  Its literals
are *pending* then, and the loose reading comes to them again (`Place.pending`).

| what is read | why its literals are new |
| :-- | :-- |
| a value | it begins at the place where the run is |
| a free-standing expression after the pending literals | it begins after them |
| a free-standing expression between pending literals | its first literal is in brackets that the value passes over, and it does not leave them (`not_mem_of_enclosed`) |

A free-standing expression does not leave the stretch either, so the place after the stretch is behind all
that has been read there.
-/
import Mathlib.Data.List.Nodup
import Mathlib.Data.List.Pairwise
import EmbeddedSql.Proofs.Flow.Logged
import EmbeddedSql.Proofs.Flow.Shape
import EmbeddedSql.Token.Lexer

namespace EmbeddedSql

namespace Place

/-- The token that comes next. -/
def next : Place → Nat
  | «at» i => i
  | valued start _ => start
  | scanning _ _ i _ => i

/-- The value whose tokens are still to be read loosely. -/
def value? : Place → Option Expression
  | «at» _ => none
  | valued _ e => some e
  | scanning value _ _ _ => value

/-- Its literals. -/
def pending (place : Place) : List Nat := (place.value?.map (·.literals)).getD []

/-- The value was read from where the stretch begins, and reading goes on in the stretch, which an
expression cannot leave. -/
inductive Framed (b : Brackets) : Place → Prop
  | at (i : Nat) : Framed b (.at i)
  | valued {start : Nat} {e : Expression} : b.Shape .expression start e.literals e.stop →
      Framed b (.valued start e)
  | scanning {value : Option Expression} {lower i stop : Nat} :
      (∀ e ∈ value, b.Shape .expression lower e.literals e.stop ∧ e.stop ≤ stop) →
      b.Across (fun _ => True) lower stop → b.Bars (·.continues = true) stop → lower ≤ i → i ≤ stop →
      Framed b (.scanning value lower i stop)

end Place

/-- The literals that have been read, seen from a place: they are different ones, and those that are not
pending are behind the place. -/
structure Behind (known pending : List Nat) (i : Nat) : Prop where
  nodup : known.Nodup
  subset : pending ⊆ known
  behind : ∀ k ∈ known, k < i ∨ k ∈ pending

/-- The committed literals are in order at a juncture. -/
structure Juncture.Settled (b : Brackets) (m : Juncture) : Prop where
  behind : Behind m.state.committed m.place.pending m.place.next
  framed : m.place.Framed b

/-! ## Literals that are read -/

namespace Behind

variable {b : Brackets} {known pending : List Nat} {i j : Nat} {e : Expression}

theorem mono (h : Behind known pending i) (hij : i ≤ j) : Behind known pending j :=
  ⟨h.nodup, h.subset, fun k hk => (h.behind k hk).imp_left fun hlt => Nat.lt_of_lt_of_le hlt hij⟩

/-- Nothing is pending any more. -/
theorem settle (h : Behind known pending i) (hpending : ∀ k ∈ pending, k < i) : Behind known [] i :=
  ⟨h.nodup, nofun, fun k hk => .inl ((h.behind k hk).elim id (hpending k))⟩

/-- An expression that begins at the place holds no literals but new ones, if it holds no pending ones. -/
theorem disjoint (h : Behind known pending i) (he : b.Shape .expression i e.literals e.stop)
    (hnot : ∀ k ∈ e.literals, k ∉ pending) : (known ++ e.literals).Nodup := by
  refine List.nodup_append.2 ⟨h.nodup, he.pairwise.imp Nat.ne_of_lt, fun k hk l hl => ?_⟩
  rintro rfl
  have hle := (he.bounds k hl).1
  rcases h.behind k hk with hlt | hmem
  · omega
  · exact hnot k hl hmem

/-- It is read, and the place is after it. -/
theorem read (h : Behind known pending i) (he : b.Shape .expression i e.literals e.stop)
    (hnot : ∀ k ∈ e.literals, k ∉ pending) (hj : e.stop ≤ j) (hij : i ≤ j) :
    Behind (known ++ e.literals) pending j := by
  refine ⟨h.disjoint he hnot, fun k hk => List.mem_append_left _ (h.subset hk), fun k hk => ?_⟩
  rcases List.mem_append.1 hk with hk | hk
  · exact (h.mono hij).behind k hk
  · exact .inl (Nat.lt_of_lt_of_le (he.bounds k hk).2.1 hj)

/-- It is read, and the place stays before it. -/
theorem value (h : Behind known [] i) (he : b.Shape .expression i e.literals e.stop) :
    Behind (known ++ e.literals) e.literals i := by
  refine ⟨h.disjoint he fun _ _ => nofun, fun k hk => List.mem_append_right _ hk, fun k hk => ?_⟩
  exact (List.mem_append.1 hk).imp_left fun hk => (h.behind k hk).resolve_right nofun

end Behind

namespace FlowContext

variable {cx : FlowContext} {s s' : FlowState} {log log' : List Uptake} {m m' : Juncture}

/-! ## Stretches -/

/-- A stretch is gone across, and no expression goes on from its end. -/
theorem Stretch.across (hb : cx.scope.Regular) {lower stop : Nat} (h : cx.Stretch lower stop) :
    cx.scope.Across (fun _ => True) lower stop ∧ cx.scope.Bars (·.continues = true) stop := by
  cases h with
  | group hc => exact ⟨Brackets.across_of_closer? hb.balanced hc, Brackets.bars_of_closer? hc⟩
  | unclosed hparen hnone =>
      obtain ⟨close, hc⟩ := Brackets.exists_closer?_of_paren hb.balanced hparen
      rw [hnone] at hc
      cases hc
  | statement _ hstops => exact Brackets.across_skipToStop hb.balanced hstops lower
  | @value _ _ e _ hstops he =>
      obtain ⟨hrest, hbars⟩ := Brackets.across_skipToStop hb.balanced hstops e.stop
      have hvalue := (Brackets.expression_shape hb he).across
      exact ⟨(hvalue.mono fun _ _ => trivial).trans hrest, hbars⟩

/-! ## What is read loosely is new -/

/-- An expression that begins at a literal between those of a value holds none of them. -/
theorem not_mem_of_enclosed (hb : cx.scope.Regular) {lower i stop : Nat} {e value : Expression}
    (hvalue : cx.scope.Shape .expression lower value.literals value.stop)
    (h : cx.scope.Shape .expression i e.literals stop) (hlower : lower ≤ i)
    (hstring : cx.scope.isString i = true) (hi : i ∉ value.literals) :
    ∀ k ∈ e.literals, k ∉ value.literals := by
  intro k hk hpending
  obtain ⟨hik, hkstop, -⟩ := h.bounds k hk
  have hkvalue := (hvalue.bounds k hpending).2.1
  obtain ⟨o, close, hc, hoi, hic, -, hlater⟩ := hvalue.enclosed hlower (by omega) hstring hi
  have hinside : stop ≤ close :=
    Brackets.Across.le_of_bars hb.balanced (Brackets.across_of_closer? hb.balanced hc)
      (Brackets.bars_of_closer? hc) hoi (by omega) h.across
  have hne : k ≠ i := fun heq => hi (heq ▸ hpending)
  have hafter := hlater k hpending (by omega)
  omega

/-- Whatever place the run is at, a free-standing expression that is found there is new, and stays before
the place after it. -/
theorem ReadsLoosely.behind {lower i next : Nat} {pending : List Nat} (hb : cx.scope.Regular)
    (h : cx.ReadsLoosely s log lower i s' log' next) (hs : Behind s.committed pending i)
    (hnew : ∀ e : Expression, cx.scope.isString i = true → i ∉ pending →
      cx.scope.Shape .expression i e.literals e.stop → ∀ k ∈ e.literals, k ∉ pending) :
    Behind s'.committed pending next := by
  cases h with
  | @expression e found hstring hfresh he _ =>
      have hshape := Brackets.Shape.of_leadsTo hb (Brackets.leadsTo_pullIn .literal) he
      have hnot := hnew e hstring (fun hi => hfresh (hs.subset hi)) hshape
      exact hs.read hshape hnot (Nat.le_max_left _ _) (by omega)
  | mention name h =>
      have hreport : Preserves log s s' := .reportNamed h
      rw [hreport.committed]
      exact hs.mono (Nat.le_succ i)
  | nothing => exact hs.mono (Nat.le_succ i)

/-- It stays in the stretch. -/
theorem ReadsLoosely.next_le (hb : cx.scope.Regular) {lower i stop next : Nat}
    (h : cx.ReadsLoosely s log lower i s' log' next) (hi : i < stop)
    (hacross : cx.scope.Across (fun _ => True) lower stop)
    (hbars : cx.scope.Bars (·.continues = true) stop) (hlower : lower ≤ i) : next ≤ stop := by
  cases h with
  | @expression e found hstring _ he _ =>
      have hshape := Brackets.Shape.of_leadsTo hb (Brackets.leadsTo_pullIn .literal) he
      have hle : e.stop ≤ stop :=
        Brackets.Across.le_of_bars hb.balanced hacross hbars hlower (by omega) hshape.across
      omega
  | mention => exact hi
  | nothing => exact hi

/-! ## Steps -/

theorem Passes.settled (hb : cx.scope.Regular) (h : cx.Passes m m')
    (hm : m.Settled cx.scope.toBrackets) : m'.Settled cx.scope.toBrackets := by
  obtain ⟨hbehind, hframed⟩ := hm
  cases h with
  | @forward s i j log hij => exact ⟨hbehind.mono hij, .at j⟩
  | @value s i e log he =>
      have hshape := Brackets.expression_shape hb he
      exact ⟨hbehind.value hshape, .valued hshape⟩
  | operate h =>
      have hcommitted := h.preserves.committed
      rw [← hcommitted] at hbehind
      exact ⟨hbehind, hframed⟩
  | @scan s lower stop log h =>
      obtain ⟨hacross, hbars⟩ := h.across hb
      exact ⟨hbehind, .scanning nofun hacross hbars (Nat.le_refl _) hacross.le⟩
  | @rescan s lower stop e log h hstop =>
      obtain ⟨hacross, hbars⟩ := h.across hb
      cases hframed with
      | valued hshape =>
          refine ⟨hbehind, .scanning ?_ hacross hbars (Nat.le_refl _) hacross.le⟩
          rintro _ ⟨⟩
          exact ⟨hshape, hstop⟩
  | @read s s' value lower i stop next log log' hi h =>
      cases hframed with
      | scanning hvalue hacross hbars hlower _ =>
          have hnext := h.next_le hb hi hacross hbars hlower
          have hnew : ∀ e : Expression, cx.scope.isString i = true →
              i ∉ (Place.scanning value lower i stop).pending →
              cx.scope.Shape .expression i e.literals e.stop →
              ∀ k ∈ e.literals, k ∉ (Place.scanning value lower i stop).pending := by
            intro e hstring hnot hshape
            cases value with
            | none => exact fun _ _ => nofun
            | some e' =>
                exact not_mem_of_enclosed hb (hvalue e' rfl).1 hshape hlower hstring hnot
          exact ⟨(h.behind hb hbehind hnew).mono (Nat.le_max_left _ _),
            .scanning hvalue hacross hbars (by omega) (by omega)⟩
  | @leave s value lower i stop log _ =>
      cases hframed with
      | scanning hvalue _ _ _ hstop =>
          refine ⟨(hbehind.mono hstop).settle fun k hmem => ?_, .at stop⟩
          cases value with
          | none => cases hmem
          | some e =>
              obtain ⟨hshape, hle⟩ := hvalue e rfl
              exact Nat.lt_of_lt_of_le (hshape.bounds k hmem).2.1 hle
  | @loose s s' i next log log' h =>
      exact ⟨h.behind hb hbehind fun _ _ _ _ _ _ => nofun, .at next⟩

theorem Occurs.settled (hb : cx.scope.Regular) (h : cx.Occurs m) : m.Settled cx.scope.toBrackets :=
  h.invariant ⟨⟨.nil, nofun, nofun⟩, .at 0⟩ fun _ _ hm hpass => hpass.settled hb hm

/-- The expressions that have been read for good share no literals. -/
structure ReadsOnce (cx : FlowContext) (m : Juncture) : Prop where
  logged : cx.Logged m.state m.log
  nodup : m.state.committed.Nodup
  disjoint : m.log.Pairwise fun u w => u.literals.Disjoint w.literals
  apart : ∀ start value anchor first e found, .value start value ∈ m.log →
    .loose anchor first e found ∈ m.log → value.literals.Disjoint e.literals

theorem Occurs.readsOnce (hb : cx.scope.Regular) (h : cx.Occurs m) : cx.ReadsOnce m := by
  have hnodup := (h.settled hb).behind.nodup
  have hdisjoint : m.log.Pairwise fun u w => u.literals.Disjoint w.literals := by
    rw [h.logged.committed] at hnodup
    exact (List.nodup_flatMap.1 hnodup).2
  have hsymm : Std.Symm fun u w : Uptake => u.literals.Disjoint w.literals := ⟨fun _ _ => List.disjoint_symm⟩
  exact ⟨h.logged, (h.settled hb).behind.nodup, hdisjoint, fun _ _ _ _ _ _ hvalue hloose =>
    hdisjoint.forall hvalue hloose nofun⟩

end FlowContext

/-- In balanced code with plain creation expressions, no literal is read for good twice: at every juncture
of a run, the expressions that have been read share no literals, neither values of variables nor
free-standing ones.  The run comes from juncture to juncture, up to its end. -/
theorem run_reads_once (rules : RuleSet) (classifier : Classifier) (placeholder : Template)
    {tokens : List Token} (hbalanced : Balanced tokens) (hcreations : plainCreations tokens = true) :
    let cx := FlowContext.ofTokens rules classifier placeholder tokens
    (∀ m, cx.Occurs m → cx.ReadsOnce m) ∧
      (∀ s i, cx.Comes s i → ∃ log, cx.Occurs ⟨s, .at i, log⟩) ∧
      ∀ s, cx.run = .ok s → ∃ i log, cx.Occurs ⟨s, .at i, log⟩ := by
  intro cx
  have hb : cx.scope.Regular := ⟨hbalanced, hcreations⟩
  exact ⟨fun _ h => h.readsOnce hb, fun _ _ => FlowContext.Comes.occurs,
    fun _ => FlowContext.run_occurs⟩

/-- A value with a call in it that has a literal of its own. -/
def valueAroundCall : List Token :=
  significant ((tokenize "String q = \"SELECT a\" + f(\"SELECT b\");").toOption.getD [])

/-- The outer literal is committed with the value, the inner one when the value is read loosely. -/
theorem run_reads_once_valueAroundCall :
    let cx := FlowContext.ofTokens .standard RuleSet.standard.classifier standardPlaceholder
      valueAroundCall
    ∃ s i log, cx.run = .ok s ∧ s.committed = [3, 7] ∧ cx.ReadsOnce ⟨s, .at i, log⟩ := by
  intro cx
  have hcommitted : cx.run.toOption.map (·.committed) = some [3, 7] := by decide +kernel
  have hbalanced : Balanced valueAroundCall := by decide +kernel
  have hcreations : plainCreations valueAroundCall = true := by decide +kernel
  obtain ⟨hall, -, hrun⟩ := run_reads_once .standard RuleSet.standard.classifier standardPlaceholder
    hbalanced hcreations
  cases hr : cx.run with
  | ok s =>
      rw [hr] at hcommitted
      obtain ⟨i, log, hoccurs⟩ := hrun s hr
      exact ⟨s, i, log, rfl, Option.some.inj hcommitted, hall _ hoccurs⟩
  | error e =>
      rw [hr] at hcommitted
      cases hcommitted

end EmbeddedSql
