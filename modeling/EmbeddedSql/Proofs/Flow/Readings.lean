/-
# What loose reading finds

Reading code loosely finds free-standing expressions and names under executing calls.  These *readings*
are made with the variables as they are when the reading begins (`readings`): on the way nothing happens
to a variable but that it is marked as reported, and marks are of no account to readings.  The state
afterwards is the one before with the readings recorded (`Records`).

So the variables decide what is read but not where.  Two arenas that differ in one variable give readings
at the same places and of the same extent, and the same readings wherever its name does not occur
(`readings_sameBut`).
-/
import Mathlib.Data.List.Forall2
import EmbeddedSql.Flow.Loose
import EmbeddedSql.Proofs.Flow.Agreement
import EmbeddedSql.Proofs.Flow.CallDepth

namespace EmbeddedSql

/-- The variable as it is, whether it has been reported or not. -/
def Variable.unmarked (v : Variable) : Variable := { v with reportedAt := none }

namespace Arena

/-- Both arenas hold the same under the name, up to marks. -/
def LikeAt (arena arena' : Arena) (name : String) : Prop :=
  (arena'.get? name).map Variable.unmarked = (arena.get? name).map Variable.unmarked

/-- Both arenas hold the same, up to marks. -/
def Like (arena arena' : Arena) : Prop := ∀ name, arena.LikeAt arena' name

variable {arena arena' : Arena} {name : String}

theorem LikeAt.value?_eq (h : arena.LikeAt arena' name) :
    arena'.value? name = arena.value? name := by
  have hv := congrArg (Option.map (·.fragments)) h
  rw [Option.map_map, Option.map_map] at hv
  exact hv

theorem Like.rfl : arena.Like arena := fun _ => Eq.refl _

theorem Like.trans {arena₁ arena₂ arena₃ : Arena} (h : arena₁.Like arena₂)
    (h' : arena₂.Like arena₃) : arena₁.Like arena₃ :=
  fun name => (h' name).trans (h name)

/-- A mark changes nothing else. -/
theorem like_put_markReported {v : Variable} (hv : arena.get? name = some v) :
    arena.Like (arena.put v.markReported) := by
  intro x
  unfold LikeAt
  obtain rfl := name_of_get? hv
  by_cases hx : x = v.name
  · have hget : (arena.put v.markReported).get? v.name = some v.markReported :=
      get?_put_self arena v.markReported
    rw [hx, hget, hv]
    exact Eq.refl _
  · have hne : x ≠ v.markReported.name := hx
    rw [get?_put_of_ne _ hne]

end Arena

/-- What is read outside of statements: a free-standing expression that is found by the literal at
`first` and begins at `start`, or a name under an executing call, with its variable if it is tracked. -/
inductive LooseReading where
  | expression (first start : Nat) (value : Expression)
  | mention (place : Nat) (seen : Option Variable)
deriving DecidableEq, Repr

/-- The literals that are read. -/
def LooseReading.literals : LooseReading → List Nat
  | expression _ _ e => e.literals
  | mention _ _ => []

namespace FlowContext

/-! ## Readings -/

/-- What the token at place `i` is read as, if anything, and the place to go on at. -/
def readToken (cx : FlowContext) (arena : Arena) (known : List Nat) (lower i : Nat) :
    Except FlowError (Option LooseReading × Nat) :=
  match cx.scope.token? i with
  | none => .error (.noToken i)
  | some t =>
    if t.isString && !known.contains i then
      (cx.scope.expression arena (cx.scope.pullIn lower i)).map fun e =>
        (some (.expression i (cx.scope.pullIn lower i) e), max e.stop (i + 1))
    else if t.isIdent && !cx.scope.afterDot i && cx.scope.underSink i then
      .ok (some (.mention i ((arena.get? t.text).map Variable.unmarked)), i + 1)
    else .ok (none, i + 1)

/-- The readings from place `i` up to `stop`, in a stretch that begins at `lower`. -/
def readFrom (cx : FlowContext) (arena : Arena) (known : List Nat) (lower i stop : Nat) :
    Except FlowError (List LooseReading) := do
  if _ : i < min stop cx.scope.size then
    let (found, next) ← cx.readToken arena known lower i
    let rest ← readFrom cx arena (known ++ found.toList.flatMap LooseReading.literals) lower
      (max next (i + 1)) stop
    return found.toList ++ rest
  else return []
termination_by min stop cx.scope.size - i

/-- The readings from `start` up to `stop` with these variables, when the literals `known` have been
read before. -/
def readings (cx : FlowContext) (arena : Arena) (known : List Nat) (start stop : Nat) :
    Except FlowError (List LooseReading) :=
  cx.readFrom arena known start start stop

/-- The candidates that a reading gives. -/
def candidatesOf (cx : FlowContext) : LooseReading → Except FlowError (List Candidate)
  | .expression first start e =>
    if (cx.scope.callClassAt first).isIgnored then .ok []
    else cx.looseCandidates start first (max e.stop (first + 1)) e.fragments
  | .mention _ none => .ok []
  | .mention _ (some v) => cx.reportOf v

/-- The candidates that readings give, one after the other. -/
def candidatesOfAll (cx : FlowContext) : List LooseReading → Except FlowError (List Candidate)
  | [] => .ok []
  | r :: rest => do
    let found ← cx.candidatesOf r
    let others ← cx.candidatesOfAll rest
    return found ++ others

/-- The second state is the first one with the readings recorded. -/
structure Records (cx : FlowContext) (s s' : FlowState) (rs : List LooseReading) : Prop where
  candidates : ∃ found, cx.candidatesOfAll rs = .ok found ∧ s'.candidates = s.candidates ++ found
  committed : s'.committed = s.committed ++ rs.flatMap LooseReading.literals
  arena : s.arena.Like s'.arena

variable {cx : FlowContext} {s s' : FlowState} {arena arena' : Arena} {known : List Nat}
  {lower i stop : Nat}

theorem candidatesOfAll_append {rs rs' : List LooseReading} {found found' : List Candidate}
    (h : cx.candidatesOfAll rs = .ok found) (h' : cx.candidatesOfAll rs' = .ok found') :
    cx.candidatesOfAll (rs ++ rs') = .ok (found ++ found') := by
  induction rs generalizing found with
  | nil =>
      cases h
      exact h'
  | cons r rest ih =>
      obtain ⟨first, hfirst, h⟩ := ok_of_bind_eq_ok h
      obtain ⟨others, hothers, h⟩ := ok_of_bind_eq_ok h
      cases h
      rw [List.cons_append, candidatesOfAll, hfirst]
      show (cx.candidatesOfAll (rest ++ rs') >>= _) = _
      rw [ih hothers, List.append_assoc]
      rfl

theorem Records.nil : cx.Records s s [] :=
  ⟨⟨[], rfl, (List.append_nil _).symm⟩, (List.append_nil _).symm, .rfl⟩

theorem Records.append {s₁ : FlowState} {rs rs' : List LooseReading} (h : cx.Records s s₁ rs)
    (h' : cx.Records s₁ s' rs') : cx.Records s s' (rs ++ rs') := by
  obtain ⟨found, hf, hc⟩ := h.candidates
  obtain ⟨found', hf', hc'⟩ := h'.candidates
  refine ⟨⟨found ++ found', candidatesOfAll_append hf hf', ?_⟩, ?_, h.arena.trans h'.arena⟩
  · rw [hc', hc, List.append_assoc]
  · rw [h'.committed, h.committed, List.flatMap_append, List.append_assoc]

/-! ## Marks are of no account -/

theorem expression_eq_of_like (h : arena.Like arena') (i : Nat) :
    cx.scope.expression arena' i = cx.scope.expression arena i := by
  have hread := cx.scope.toBrackets.expression_alike arena arena' i
  generalize cx.scope.expression arena i = o at hread ⊢
  generalize cx.scope.expression arena' i = o' at hread ⊢
  cases hread with
  | error e => rfl
  | @ok e e' he =>
      have hfragments : e'.fragments = e.fragments :=
        he.fragments fun j t _ _ _ _ _ => (h t.text).value?_eq
      have hext : e' = e := by
        cases e
        cases e'
        exact congr (congr (congrArg Expression.mk hfragments) he.literals) he.stop
      rw [hext]

theorem readToken_eq_of_like (h : arena.Like arena') :
    cx.readToken arena' known lower i = cx.readToken arena known lower i := by
  unfold readToken
  split
  · rfl
  · next t _ =>
      rw [expression_eq_of_like h, show _ = _ from h t.text]

theorem readFrom_eq_of_like (h : arena.Like arena') (known : List Nat) (lower i stop : Nat) :
    cx.readFrom arena' known lower i stop = cx.readFrom arena known lower i stop := by
  rw [readFrom, readFrom]
  split
  · rw [readToken_eq_of_like h]
    refine bind_congr ?_
    rintro ⟨found, next⟩
    dsimp only
    rw [readFrom_eq_of_like h _ lower (max next (i + 1)) stop]
  · rfl
termination_by min stop cx.scope.size - i

/-! ## Loose reading records readings -/

theorem looseExpression_records {r : FlowState × Nat}
    (h : cx.looseExpression s lower i = .ok r) :
    ∃ e, cx.scope.expression s.arena (cx.scope.pullIn lower i) = .ok e ∧
      r.2 = max e.stop (i + 1) ∧
      cx.Records s r.1 [.expression i (cx.scope.pullIn lower i) e] := by
  unfold looseExpression at h
  obtain ⟨e, he, h⟩ := ok_of_expression_bind h
  refine ⟨e, he, ?_⟩
  dsimp only at h
  have hrecords : ∀ found, cx.candidatesOf (.expression i (cx.scope.pullIn lower i) e) = .ok found →
      cx.Records s { s.commit e with candidates := s.candidates ++ found }
        [.expression i (cx.scope.pullIn lower i) e] := by
    intro found hfound
    refine ⟨⟨found ++ [], ?_, by rw [List.append_nil]⟩, ?_, .rfl⟩
    · rw [candidatesOfAll, hfound]
      rfl
    · rw [List.flatMap_singleton]
      rfl
  split at h
  · next hignored =>
      cases h
      have hnone := hrecords [] (if_pos hignored)
      rw [List.append_nil] at hnone
      exact ⟨rfl, hnone⟩
  · next hcounts =>
      obtain ⟨found, hfound, h⟩ := ok_of_bind_eq_ok h
      cases h
      exact ⟨rfl, hrecords found ((if_neg hcounts).trans hfound)⟩

/-- A name under an executing call is read as its variable, which is marked. -/
theorem reportNamed_records {t : Token} (place : Nat) (h : cx.reportNamed s t.text = .ok s') :
    cx.Records s s' [.mention place ((s.arena.get? t.text).map Variable.unmarked)] := by
  unfold reportNamed at h
  split at h
  · next v hv =>
      obtain ⟨found, hfound, rfl⟩ := ok_of_map_eq_ok h
      refine ⟨⟨found ++ [], ?_, by rw [List.append_nil]⟩, (List.append_nil _).symm,
        Arena.like_put_markReported hv⟩
      have hunmarked : cx.reportOf v.unmarked = .ok found := hfound
      rw [hv, Option.map_some, candidatesOfAll, candidatesOf, hunmarked]
      rfl
  · next hv =>
      cases h
      rw [hv]
      exact ⟨⟨[], rfl, (List.append_nil _).symm⟩, (List.append_nil _).symm, .rfl⟩

theorem looseToken_records {r : FlowState × Nat} (h : cx.looseToken s lower i = .ok r) :
    ∃ found, cx.readToken s.arena s.committed lower i = .ok (found, r.2) ∧
      cx.Records s r.1 found.toList := by
  unfold looseToken at h
  unfold readToken
  cases ht : cx.scope.token? i with
  | none =>
      rw [ht] at h
      cases h
  | some t =>
      rw [ht] at h
      dsimp only at h ⊢
      split at h
      · next hnew =>
          obtain ⟨e, he, hstop, hrecords⟩ := looseExpression_records h
          refine ⟨some (.expression i (cx.scope.pullIn lower i) e), ?_, hrecords⟩
          rw [if_pos hnew, he, hstop]
          rfl
      · next hnew =>
          rw [if_neg hnew]
          split at h
          · next hunder =>
              obtain ⟨s₁, hs₁, rfl⟩ := ok_of_map_eq_ok h
              exact ⟨_, if_pos hunder, reportNamed_records i hs₁⟩
          · next hunder =>
              cases h
              exact ⟨none, if_neg hunder, .nil⟩

/-- Loose reading records what is read with the variables as they were at its beginning. -/
theorem scanFrom_records {s s' : FlowState} {lower i stop : Nat}
    (h : cx.scanFrom s lower i stop = .ok s') :
    ∃ rs, cx.readFrom s.arena s.committed lower i stop = .ok rs ∧ cx.Records s s' rs := by
  rw [scanFrom] at h
  rw [readFrom]
  split at h
  · next hi =>
      obtain ⟨⟨s₁, next⟩, htoken, h⟩ := ok_of_bind_eq_ok h
      obtain ⟨found, hread, hrecords⟩ := looseToken_records htoken
      dsimp only at h hread hrecords
      obtain ⟨rest, hrest, hrecords'⟩ := scanFrom_records h
      refine ⟨found.toList ++ rest, ?_, hrecords.append hrecords'⟩
      rw [dif_pos hi, hread]
      show (cx.readFrom s.arena (s.committed ++ found.toList.flatMap LooseReading.literals) lower
        (max next (i + 1)) stop >>= _) = _
      rw [← hrecords.committed, ← readFrom_eq_of_like hrecords.arena, hrest]
      rfl
  · next hi =>
      cases h
      exact ⟨[], dif_neg hi, .nil⟩
termination_by min stop cx.scope.size - i

theorem scanLoose_records {start : Nat} (h : cx.scanLoose s start stop = .ok s') :
    ∃ rs, cx.readings s.arena s.committed start stop = .ok rs ∧ cx.Records s s' rs :=
  scanFrom_records h

/-! ## One variable -/

/-- The name stands somewhere from `start` up to `stop`, and not as a member. -/
def Names (cx : FlowContext) (name : String) (start stop : Nat) : Prop :=
  ∃ j, start ≤ j ∧ j < stop ∧ cx.scope.isWord j name = true ∧ cx.scope.afterDot j = false

/-- Readings at the same place and of the same extent, which are the same if the name does not occur. -/
inductive SameBut (cx : FlowContext) (name : String) : LooseReading → LooseReading → Prop
  | expression {first start : Nat} {e e' : Expression} : e'.stop = e.stop →
      e'.literals = e.literals → (¬ cx.Names name start e.stop → e' = e) →
      SameBut cx name (.expression first start e) (.expression first start e')
  | mention {place : Nat} {seen seen' : Option Variable} :
      (cx.scope.isWord place name = false → seen' = seen) →
      SameBut cx name (.mention place seen) (.mention place seen')

variable {name : String}

theorem SameBut.literals {r r' : LooseReading} (h : cx.SameBut name r r') :
    r'.literals = r.literals := by
  cases h with
  | expression _ hliterals _ => exact hliterals
  | mention _ => rfl

theorem expression_sameBut (h : ∀ x, x ≠ name → arena.LikeAt arena' x) (first start : Nat) :
    EndAlike (fun e e' => cx.SameBut name (.expression first start e) (.expression first start e'))
      (cx.scope.expression arena start) (cx.scope.expression arena' start) := by
  have hread := cx.scope.toBrackets.expression_alike arena arena' start
  generalize cx.scope.expression arena start = o at hread ⊢
  generalize cx.scope.expression arena' start = o' at hread ⊢
  cases hread with
  | error e => exact .error e
  | @ok e e' he =>
      refine .ok (.expression he.stop he.literals fun hnames => ?_)
      have hfragments : e'.fragments = e.fragments := by
        refine he.fragments fun j t hj hj' ht hident hdot => (h t.text ?_).value?_eq
        rintro rfl
        refine hnames ⟨j, hj, hj', ?_, hdot⟩
        rw [Brackets.isWord, ht, Option.any_some, hident, Bool.true_and]
        exact beq_self_eq_true t.text
      cases e
      cases e'
      exact congr (congr (congrArg Expression.mk hfragments) he.literals) he.stop

theorem readToken_sameBut (h : ∀ x, x ≠ name → arena.LikeAt arena' x) (known : List Nat)
    (lower i : Nat) :
    EndAlike (fun p p' => Option.Rel (cx.SameBut name) p.1 p'.1 ∧ p'.2 = p.2)
      (cx.readToken arena known lower i) (cx.readToken arena' known lower i) := by
  unfold readToken
  split
  · exact .error _
  · next t ht =>
      split
      · refine (expression_sameBut h i (cx.scope.pullIn lower i)).map fun e e' he => ⟨.some he, ?_⟩
        cases he with
        | expression hstop _ _ => rw [hstop]
      · split
        · next hunder =>
            refine .ok ⟨.some (.mention fun hword => h t.text ?_), rfl⟩
            rintro rfl
            rw [Bool.and_eq_true, Bool.and_eq_true] at hunder
            rw [Brackets.isWord, ht, Option.any_some, hunder.1.1, Bool.true_and,
              beq_self_eq_true] at hword
            cases hword
        · exact .ok ⟨.none, rfl⟩

theorem readFrom_sameBut (h : ∀ x, x ≠ name → arena.LikeAt arena' x) (known : List Nat)
    (lower i stop : Nat) :
    EndAlike (List.Forall₂ (cx.SameBut name)) (cx.readFrom arena known lower i stop)
      (cx.readFrom arena' known lower i stop) := by
  rw [readFrom, readFrom]
  split
  · refine (readToken_sameBut h known lower i).bind ?_
    rintro ⟨found, next⟩ ⟨found', next'⟩ ⟨hfound, hnext⟩
    obtain rfl : next' = next := hnext
    have hliterals : found'.toList.flatMap LooseReading.literals =
        found.toList.flatMap LooseReading.literals := by
      cases hfound with
      | none => rfl
      | some hr => exact congrArg (· ++ []) hr.literals
    dsimp only
    rw [hliterals]
    refine (readFrom_sameBut h _ lower (max next' (i + 1)) stop).bind fun rest rest' hrest => ?_
    refine .ok ?_
    cases hfound with
    | none => exact hrest
    | some hr => exact .cons hr hrest
  · exact .ok .nil
termination_by min stop cx.scope.size - i

/-- Arenas that differ in one variable give the same readings, but for those that name it. -/
theorem readings_sameBut (h : ∀ x, x ≠ name → arena.LikeAt arena' x) (known : List Nat)
    (start stop : Nat) :
    EndAlike (List.Forall₂ (cx.SameBut name)) (cx.readings arena known start stop)
      (cx.readings arena' known start stop) :=
  readFrom_sameBut h known start start stop

end FlowContext

end EmbeddedSql
