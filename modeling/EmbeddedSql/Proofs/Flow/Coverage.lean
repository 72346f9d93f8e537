/-
# Which literals are accounted for

Every step goes over a stretch of tokens, and what it does not take for the value of a variable it reads
loosely.  Either way the string literals of the stretch are committed, with two exceptions:

| | |
| :-- | :-- |
| `PassedOver` | literals inside an operand of a free-standing expression that is no literal itself |
| `InQuietCall` | arguments of `toString` and `setLength` on a builder |

The first exception is there because a free-standing expression is left at its end: an operand that is a
call, an element or a construction counts as one unknown value, and nobody goes back into it.  The values
of variables are read in the same way, but afterwards their tokens are read loosely once more.

A computation *accounts* for the literals from a place on if its result says where it stopped and every
literal in between is committed or one of the exceptions.  Stretches that follow one another add up
(`Accounts.bind`), so each handler accounts for what it goes over, and a run for the whole scope.
-/
import EmbeddedSql.Proofs.Flow.Moves
import EmbeddedSql.Proofs.Flow.Readings
import EmbeddedSql.Proofs.Scope.Balance

namespace EmbeddedSql

namespace Brackets

variable {b : Brackets} {i j : Nat}

/-! ## Tokens that are no literals -/

theorem isString_eq_false {q : Token → Bool} (h : (b.token? i).any q = true)
    (hq : ∀ t, q t = true → t.kind ≠ .stringLiteral) : b.isString i = false := by
  obtain ⟨t, ht, hqt⟩ := exists_token_of_any h
  rw [isString, ht, Option.any_some, Token.isString]
  exact beq_false_of_ne (hq t hqt)

theorem isString_of_isPunct {text : String} (h : b.isPunct i text = true) :
    b.isString i = false :=
  isString_eq_false h fun t ht hk => by simp [Token.isPunct, hk] at ht

theorem isString_of_isOp {text : String} (h : b.isOp i text = true) : b.isString i = false :=
  isString_eq_false h fun t ht hk => by simp [Token.isOp, hk] at ht

theorem isString_of_isIdent (h : b.isIdent i = true) : b.isString i = false :=
  isString_eq_false h fun t ht hk => by simp [Token.isIdent, hk] at ht

theorem isString_of_isWord {text : String} (h : b.isWord i text = true) : b.isString i = false :=
  isString_eq_false h fun t ht hk => by simp [Token.isIdent, hk] at ht

/-- A closing bracket is no literal. -/
theorem isString_of_closer? (h : b.closer? i = some j) : b.isString j = false := by
  obtain ⟨t, own, ht, hc⟩ := exists_token_of_closer? h
  rw [isString, ht, Option.any_some, Token.isString]
  refine beq_false_of_ne fun hk => ?_
  simp [Token.closes?, Token.isPunct, hk] at hc

theorem isString_of_size_le (h : b.size ≤ i) : b.isString i = false := by
  rw [isString, token?, Array.getElem?_eq_none h]
  rfl

end Brackets

namespace FlowState

variable {s s' : FlowState}

/-- A builder of this name is tracked or was tracked before. -/
def KnowsBuilder (s : FlowState) (name : String) : Prop :=
  (s.arena.get? name).any (·.kind == .builder) = true ∨
    ∃ v ∈ s.closed, v.name = name ∧ v.kind = .builder

/-- A variable that takes the place of one of its kind. -/
theorem KnowsBuilder.put {v w : Variable} {name : String} (h : s.KnowsBuilder name)
    (hv : s.arena.get? v.name = some v) (hname : w.name = v.name) (hkind : w.kind = v.kind)
    (ha : s'.arena = s.arena.put w) (hc : s'.closed = s.closed) : s'.KnowsBuilder name := by
  rcases h with h | h
  · left
    rw [ha]
    by_cases hn : name = w.name
    · rw [hn, hname, hv, Option.any_some] at h
      rw [hn, Arena.get?_put_self, Option.any_some, hkind]
      exact h
    · rwa [Arena.get?_put_of_ne _ hn]
  · exact .inr (hc.symm ▸ h)

/-- A variable that comes to an end is kept among the closed ones. -/
theorem KnowsBuilder.close {v : Variable} {name : String} (h : s.KnowsBuilder name)
    (hv : s.arena.get? v.name = some v)
    (ha : ∀ x, x ≠ v.name → s'.arena.get? x = s.arena.get? x)
    (hc : s'.closed = s.closed ++ [v.markReported]) : s'.KnowsBuilder name := by
  rcases h with h | ⟨w, hw, hn⟩
  · by_cases hn : name = v.name
    · rw [hn, hv, Option.any_some, beq_iff_eq] at h
      refine .inr ⟨v.markReported, ?_, hn.symm, h⟩
      rw [hc]
      exact List.mem_append_right _ List.mem_cons_self
    · exact .inl ((ha name hn).symm ▸ h)
  · exact .inr ⟨w, hc.symm ▸ List.mem_append_left _ hw, hn⟩

end FlowState

namespace FlowContext

variable {cx : FlowContext} {s s' : FlowState}

/-! ## What is kept by changes -/

theorem Change.committed_subset (h : cx.Change s s') : s.committed ⊆ s'.committed := by
  cases h with
  | commit _ => exact List.subset_append_left _ _
  | found _ _ => exact List.Subset.refl _
  | begin _ _ _ _ _ => exact List.Subset.refl _
  | grow _ _ _ => exact List.Subset.refl _
  | report _ _ => exact List.Subset.refl _
  | finish _ _ => exact List.Subset.refl _
  | empty _ _ _ => exact List.Subset.refl _
  | declare _ => exact List.Subset.refl _

/-- What has been committed stays so. -/
theorem Changes.committed_subset (h : cx.Changes s s') : s.committed ⊆ s'.committed := by
  induction h with
  | refl => exact List.Subset.refl _
  | tail _ hc ih => exact List.Subset.trans ih hc.committed_subset

theorem Change.knowsBuilder {name : String} (h : s.KnowsBuilder name) (hc : cx.Change s s') :
    s'.KnowsBuilder name := by
  cases hc with
  | commit _ => exact h
  | found _ _ => exact h
  | @begin new kind first last fragments hnone _ _ =>
      refine h.imp_left fun h => ?_
      have hn : name ≠ new := by
        rintro rfl
        rw [hnone] at h
        cases h
      show ((s.arena.put _).get? name).any _ = true
      rw [Arena.get?_put_of_ne _ hn]
      exact h
  | @grow v fragments line hv _ => exact h.put (w := v.regrow fragments line) hv rfl rfl rfl rfl
  | @report v _ hv _ => exact h.put (w := v.markReported) hv rfl rfl rfl rfl
  | finish hv _ => exact h.close hv (fun x hx => Arena.get?_erase_of_ne _ hx) rfl
  | empty hv _ _ => exact h.close hv (fun x hx => Arena.get?_put_of_ne _ hx) rfl
  | declare _ => exact h

/-- A builder that is known stays so. -/
theorem Changes.knowsBuilder {name : String} (h : s.KnowsBuilder name) (hc : cx.Changes s s') :
    s'.KnowsBuilder name := by
  induction hc with
  | refl => exact h
  | tail _ hc ih => exact hc.knowsBuilder ih

/-! ## Literals -/

/-- The place after what is known to be a builder: its name, its construction, or a call on it. -/
inductive AfterBuilder (cx : FlowContext) (s : FlowState) : Nat → Prop
  | name {i : Nat} {t : Token} : cx.scope.token? i = some t → t.isIdent = true →
      s.KnowsBuilder t.text → AfterBuilder cx s (i + 1)
  | construction {i close : Nat} {t : Token} : cx.scope.isWord i "new" = true →
      cx.scope.token? (i + 1) = some t → cx.rules.isBuilderType t.text = true →
      cx.scope.isPunct (i + 2) "(" = true → cx.scope.closer? (i + 2) = some close →
      AfterBuilder cx s (close + 1)
  | call {i close : Nat} : AfterBuilder cx s i → cx.scope.isPunct i "." = true →
      cx.scope.isIdent (i + 1) = true → cx.scope.isPunct (i + 2) "(" = true →
      cx.scope.closer? (i + 2) = some close → AfterBuilder cx s (close + 1)

/-- The place is inside the parentheses of a call of `toString` or `setLength` on a builder. -/
def InQuietCall (cx : FlowContext) (s : FlowState) (i : Nat) : Prop :=
  ∃ dot close, cx.AfterBuilder s dot ∧ cx.scope.isPunct dot "." = true ∧
    cx.scope.isWordIn (dot + 1) ["toString", "setLength"] = true ∧
    cx.scope.isPunct (dot + 2) "(" = true ∧ cx.scope.closer? (dot + 2) = some close ∧
    dot + 2 < i ∧ i < close

/-- On the way from one state to the other a free-standing expression was read, found by the literal at
`first`, which had not been read before; the place is inside of it and was left as it is. -/
def PassedOver (cx : FlowContext) (s s' : FlowState) (i : Nat) : Prop :=
  ∃ s₁ s₂ lower first stop, cx.Changes s s₁ ∧ cx.scope.isString first = true ∧
    first ∉ s₁.committed ∧ cx.looseExpression s₁ lower first = .ok (s₂, stop) ∧
    cx.Changes s₂ s' ∧ first < i ∧ i < stop ∧ i ∉ s₂.committed

/-- A literal is committed, or it is one of the exceptions. -/
def Accounted (cx : FlowContext) (s s' : FlowState) (i : Nat) : Prop :=
  i ∈ s'.committed ∨ cx.PassedOver s s' i ∨ cx.InQuietCall s' i

theorem AfterBuilder.mono {i : Nat} (h : cx.AfterBuilder s i) (hc : cx.Changes s s') :
    cx.AfterBuilder s' i := by
  induction h with
  | name ht hi hb => exact .name ht hi (hc.knowsBuilder hb)
  | construction hnew ht hb ho hclose => exact .construction hnew ht hb ho hclose
  | call _ hdot hname ho hclose ih => exact .call ih hdot hname ho hclose

theorem InQuietCall.mono {i : Nat} (h : cx.InQuietCall s i) (hc : cx.Changes s s') :
    cx.InQuietCall s' i := by
  obtain ⟨dot, close, hb, hrest⟩ := h
  exact ⟨dot, close, hb.mono hc, hrest⟩

/-- What is accounted for stays so, seen from an earlier state and in a later one. -/
theorem Accounted.mono {s₀ s₃ : FlowState} {i : Nat} (h : cx.Accounted s s' i)
    (hbefore : cx.Changes s₀ s) (hafter : cx.Changes s' s₃) : cx.Accounted s₀ s₃ i := by
  rcases h with h | ⟨s₁, s₂, lower, first, stop, h₁, hs, hnew, hread, h₂, hrest⟩ | h
  · exact .inl (hafter.committed_subset h)
  · exact .inr (.inl ⟨s₁, s₂, lower, first, stop, hbefore.trans h₁, hs, hnew, hread,
      h₂.trans hafter, hrest⟩)
  · exact .inr (.inr (h.mono hafter))

/-! ## Stretches -/

/-- No string literal stands from `start` up to `stop`. -/
def Free (cx : FlowContext) (start stop : Nat) : Prop :=
  ∀ i, start ≤ i → i < stop → cx.scope.isString i = false

/-- The literals from `start` up to `stop` are accounted for. -/
def Covers (cx : FlowContext) (s s' : FlowState) (start stop : Nat) : Prop :=
  ∀ i, start ≤ i → i < stop → cx.scope.isString i = true → cx.Accounted s s' i

theorem free_of_le {start stop : Nat} (h : stop ≤ start) : cx.Free start stop :=
  fun _ hi hj => absurd (Nat.lt_of_le_of_lt hi hj) (Nat.not_lt.2 h)

/-- A single token that is no literal. -/
theorem free_single {i : Nat} (h : cx.scope.isString i = false) : cx.Free i (i + 1) := by
  intro j hi hj
  obtain rfl : j = i := by omega
  exact h

theorem Free.append {start mid stop : Nat} (h : cx.Free start mid) (h' : cx.Free mid stop) :
    cx.Free start stop := by
  intro i hi hj
  rcases Nat.lt_or_ge i mid with hm | hm
  · exact h i hi hm
  · exact h' i hm hj

theorem Free.covers {start stop : Nat} (h : cx.Free start stop) : cx.Covers s s' start stop := by
  intro i hi hj hs
  rw [h i hi hj] at hs
  cases hs

theorem Covers.mono {s₀ s₃ : FlowState} {start stop : Nat} (h : cx.Covers s s' start stop)
    (hbefore : cx.Changes s₀ s) (hafter : cx.Changes s' s₃) : cx.Covers s₀ s₃ start stop :=
  fun i hi hj hs => (h i hi hj hs).mono hbefore hafter

theorem Covers.append {start mid stop : Nat} (h : cx.Covers s s' start mid)
    (h' : cx.Covers s s' mid stop) : cx.Covers s s' start stop := by
  intro i hi hj
  rcases Nat.lt_or_ge i mid with hm | hm
  · exact h i hi hm
  · exact h' i hm hj

/-- A computation accounts for the literals from `start` up to where its result says that it stopped,
on the way to the state that its result shows. -/
def Accounts {α : Type} (cx : FlowContext) (s : FlowState) (start : Nat) (view : α → FlowState)
    (stop : α → Nat) (o : Except FlowError α) : Prop :=
  ∀ a, o = .ok a → cx.Changes s (view a) ∧ cx.Covers s (view a) start (stop a)

namespace Accounts

variable {α β : Type} {view : α → FlowState} {view' : β → FlowState} {stop : α → Nat}
  {stop' : β → Nat} {start next : Nat} {o : Except FlowError α}

theorem pure {a : α} (h : view a = s) (hn : cx.Free start (stop a)) :
    cx.Accounts s start view stop (.ok a) := by
  rintro _ ⟨⟩
  rw [h]
  exact ⟨.refl, hn.covers⟩

/-- Changes of the state come first. -/
theorem head (hc : cx.Changes s s') (h : cx.Accounts s' start view stop o) :
    cx.Accounts s start view stop o := by
  intro a ha
  obtain ⟨hs, hcov⟩ := h a ha
  exact ⟨hc.trans hs, hcov.mono hc .refl⟩

/-- Tokens that are no literals come first. -/
theorem skip (hn : cx.Free start next) (h : cx.Accounts s next view stop o) :
    cx.Accounts s start view stop o := by
  intro a ha
  obtain ⟨hs, hcov⟩ := h a ha
  exact ⟨hs, hn.covers.append hcov⟩

theorem after {f : α → Except FlowError β}
    (hf : ∀ a, o = .ok a → cx.Accounts s start view' stop' (f a)) :
    cx.Accounts s start view' stop' (o >>= f) := by
  intro b hb
  obtain ⟨a, ha, hb⟩ := ok_of_bind_eq_ok hb
  exact hf a ha b hb

theorem afterExpression {arena : Arena} {i : Nat} {f : Expression → Except FlowError β}
    (hf : ∀ e, cx.scope.expression arena i = .ok e → cx.Accounts s start view' stop' (f e)) :
    cx.Accounts s start view' stop' (cx.expression arena i >>= f) :=
  after fun e he => hf e (expression_of_ok he)

/-- What only changes the state comes first. -/
theorem lead {f : α → Except FlowError β} (h : cx.Leads s view o)
    (hf : ∀ a, cx.Accounts (view a) start view' stop' (f a)) :
    cx.Accounts s start view' stop' (o >>= f) :=
  after fun a ha => head (h a ha) (hf a)

/-- One stretch after the other. -/
theorem bind {f : α → Except FlowError β} (h : cx.Accounts s start view stop o)
    (hf : ∀ a, o = .ok a → cx.Accounts (view a) (stop a) view' stop' (f a)) :
    cx.Accounts s start view' stop' (o >>= f) := by
  intro b hb
  obtain ⟨a, ha, hb⟩ := ok_of_bind_eq_ok hb
  obtain ⟨hs, hcov⟩ := h a ha
  obtain ⟨hs', hcov'⟩ := hf a ha b hb
  exact ⟨hs.trans hs', (hcov.mono .refl hs').append (hcov'.mono hs .refl)⟩

/-- What comes after the stretch holds no literals. -/
theorem map {f : α → β} (h : cx.Accounts s start view stop o)
    (hf : ∀ a, o = .ok a → view' (f a) = view a ∧ cx.Free (stop a) (stop' (f a))) :
    cx.Accounts s start view' stop' (o.map f) := by
  intro b hb
  obtain ⟨a, ha, rfl⟩ := ok_of_map_eq_ok hb
  obtain ⟨hs, hcov⟩ := h a ha
  obtain ⟨hview, hn⟩ := hf a ha
  rw [hview]
  exact ⟨hs, hcov.append hn.covers⟩

end Accounts

/-! ## Loose tokens -/

/-- A literal that is read is committed, and what stands inside of its expression is passed over. -/
theorem looseToken_accounts (cx : FlowContext) (s : FlowState) (lower i : Nat) :
    cx.Accounts s i Prod.fst (fun r => max r.2 (i + 1)) (cx.looseToken s lower i) := by
  intro r hr
  have hc : cx.Changes s r.1 := (looseToken_moves s lower i).leads r hr
  refine ⟨hc, fun j hij hj hs => ?_⟩
  dsimp only at hj
  unfold looseToken at hr
  split at hr
  · cases hr
  · next t ht =>
      split at hr
      · next hfresh =>
          rw [Bool.and_eq_true, Bool.not_eq_true'] at hfresh
          have hstring : cx.scope.isString i = true := by
            rw [Brackets.isString, ht]
            exact hfresh.1
          obtain ⟨e, he, hstop, hrecords⟩ := looseExpression_records hr
          have hi : i ∈ r.1.committed := by
            rw [hrecords.committed, List.flatMap_singleton]
            exact List.mem_append_right _ (Brackets.mem_literals_of_pullIn hstring he)
          by_cases hread : j ∈ r.1.committed
          · exact .inl hread
          · have hne : j ≠ i := fun heq => hread (heq ▸ hi)
            have hnew : i ∉ s.committed := fun hm => by simp [hm] at hfresh
            exact .inr (.inl ⟨s, r.1, lower, i, r.2, .refl, hstring, hnew, hr, .refl, by omega,
              by omega, hread⟩)
      · next hread =>
          have hstop : r.2 = i + 1 := by
            split at hr
            · obtain ⟨s₁, -, rfl⟩ := ok_of_map_eq_ok hr
              rfl
            · cases hr
              rfl
          obtain rfl : j = i := by omega
          rw [Brackets.isString, ht, Option.any_some] at hs
          rw [hs, Bool.true_and, Bool.not_eq_true', Bool.not_eq_false, List.contains_iff_mem] at hread
          exact .inl (hc.committed_subset hread)

theorem scanFrom_accounts (cx : FlowContext) (s : FlowState) (lower i stop : Nat) :
    cx.Accounts s i id (fun _ => stop) (cx.scanFrom s lower i stop) := by
  rw [scanFrom]
  split
  · exact (cx.looseToken_accounts s lower i).bind fun read _ =>
      scanFrom_accounts cx read.1 lower (max read.2 (i + 1)) stop
  · next hi =>
      refine .pure rfl fun j hj hstop => Brackets.isString_of_size_le ?_
      show cx.scope.size ≤ j
      omega
termination_by min stop cx.scope.size - i

/-- Reading loosely accounts for all that it goes over. -/
theorem scanLoose_accounts (cx : FlowContext) (s : FlowState) (start stop : Nat) :
    cx.Accounts s start id (fun _ => stop) (cx.scanLoose s start stop) :=
  cx.scanFrom_accounts s start start stop

/-- Reading loosely is the end of many handlers; what they pass over after it holds no literals. -/
theorem scanLoose_map_accounts (s : FlowState) (start : Nat) {stop next : Nat}
    (h : cx.Free stop next) :
    cx.Accounts s start Prod.fst Prod.snd ((cx.scanLoose s start stop).map (·, next)) :=
  (cx.scanLoose_accounts s start stop).map fun _ _ => ⟨rfl, h⟩

end FlowContext

end EmbeddedSql
