/-
# What connections keep that bring a database up to date at once

The invariant compares the database as it was committed last with the one in the beginning
(`Contention.Underway`).  What a single connection would still do from here, put after what has been
done, is what it would have done from the beginning.  That is kept because the connection that holds the
lock works on the next pending version: the versions before it have been passed by this connection, so
the database has them, and the number that is read under the lock says that it has not the one at hand.
A number that was read before the lock may be out of date, but the database never goes back, so it errs
only towards waiting.

There are four ways to move on: without the lock, with it, taking it and giving it back.  Every step is
one of them (`Underway.advance`).
-/
import EmbeddedSql.Proofs.Store.Contention
import Mathlib.Algebra.BigOperators.Fin
import Mathlib.Algebra.Order.BigOperators.Group.Finset
import Mathlib.Data.Fintype.BigOperators

namespace EmbeddedSql

/-- The statements that lead to a version, each with this version. -/
def Migration.statements (m : Migration) : List (Int × SchemaChange) := m.changes.map (m.version, ·)

namespace Database

/-- The versions that are later than the one of the database. -/
def pending (db : Database) (ms : List Migration) : List Migration :=
  ms.filter fun m => db.version < m.version

/-- Only these are left; the database has the versions before them. -/
def Passed (db : Database) (ms left : List Migration) : Prop :=
  ∃ past, ms = past ++ left ∧ ∀ m ∈ past, m.version ≤ db.version

variable {db db' : Database} {ms rest : List Migration} {m : Migration}

theorem passed_self (db : Database) (ms : List Migration) : db.Passed ms ms :=
  ⟨[], rfl, fun _ hm => absurd hm List.not_mem_nil⟩

theorem Passed.mono (h : db.Passed ms rest) (hle : db.version ≤ db'.version) :
    db'.Passed ms rest := by
  obtain ⟨past, hms, hpast⟩ := h
  exact ⟨past, hms, fun m hm => Int.le_trans (hpast m hm) hle⟩

/-- One more version that the database has. -/
theorem Passed.next (h : db.Passed ms (m :: rest)) (hle : m.version ≤ db.version) :
    db.Passed ms rest := by
  obtain ⟨past, hms, hpast⟩ := h
  refine ⟨past ++ [m], by rw [hms, List.append_assoc]; rfl, fun m' hm => ?_⟩
  rcases List.mem_append.1 hm with hm | hm
  · exact hpast m' hm
  · rw [List.mem_singleton.1 hm]
    exact hle

theorem Passed.le_of_nil (h : db.Passed ms []) : ∀ m ∈ ms, m.version ≤ db.version := by
  obtain ⟨past, hms, hpast⟩ := h
  rw [hms, List.append_nil]
  exact hpast

/-! ## A single connection -/

theorem eq_map_nil_append (outcome : Database × Except SchemaError (List Int)) :
    outcome = (outcome.1, outcome.2.map ([] ++ ·)) := by
  obtain ⟨db, e | versions⟩ := outcome <;> rfl

theorem version_of_advance (h : db.advance m = .ok db') : db'.version = m.version := by
  unfold advance at h
  cases hc : db.changeAll m.changes with
  | error e =>
      rw [hc] at h
      cases h
  | ok db₁ =>
      rw [hc] at h
      cases h
      rfl

theorem version_le_migrateBy (db : Database) (ms : List Migration) :
    db.version ≤ (db.migrateBy ms).1.version := by
  induction ms generalizing db with
  | nil => exact Int.le_refl _
  | cons m rest ih =>
      unfold migrateBy
      split
      · exact ih db
      · next hlt =>
          split
          · exact Int.le_refl _
          · next db' hadvance =>
              have hversion : db'.version = m.version := version_of_advance hadvance
              have hrest : db'.version ≤ (db'.migrateBy rest).1.version := ih db'
              show db.version ≤ (db'.migrateBy rest).1.version
              omega

/-- Nothing is done for versions that the database has. -/
theorem Passed.migrateBy_eq (h : db.Passed ms rest) : db.migrateBy ms = db.migrateBy rest := by
  obtain ⟨past, rfl, hpast⟩ := h
  induction past with
  | nil => rfl
  | cons m past ih =>
      rw [List.cons_append, migrateBy, if_pos (hpast m List.mem_cons_self)]
      exact ih fun m' hm => hpast m' (List.mem_cons_of_mem m hm)

/-- The next pending version is reached, and then those after it. -/
theorem Passed.migrateBy_advance (h : db.Passed ms (m :: rest)) (hlt : db.version < m.version)
    (hadvance : db.advance m = .ok db') :
    db.migrateBy ms = ((db'.migrateBy ms).1, (db'.migrateBy ms).2.map (m.version :: ·)) := by
  have hversion : db'.version = m.version := version_of_advance hadvance
  have hle : db.version ≤ db'.version := hversion ▸ Int.le_of_lt hlt
  have hrest : db'.migrateBy ms = db'.migrateBy rest :=
    ((h.mono hle).next (Int.le_of_eq hversion.symm)).migrateBy_eq
  rw [h.migrateBy_eq, hrest, migrateBy, if_neg (Int.not_le.2 hlt), hadvance]

/-- Or it is not, and that ends it. -/
theorem Passed.migrateBy_fault (h : db.Passed ms (m :: rest)) (hlt : db.version < m.version)
    {e : SchemaError} (hadvance : db.advance m = .error e) : db.migrateBy ms = (db, .error e) := by
  rw [h.migrateBy_eq, migrateBy, if_neg (Int.not_le.2 hlt), hadvance]

/-- With the next version reached, one version less is pending. -/
theorem Passed.pending_eq (h : db.Passed ms (m :: rest)) (hlt : db.version < m.version)
    (hsorted : ms.Pairwise (·.version < ·.version)) (hversion : db'.version = m.version) :
    db.pending ms = m :: db'.pending ms := by
  obtain ⟨past, rfl, hpast⟩ := h
  have hold (db₁ : Database) (hle : db.version ≤ db₁.version) :
      past.filter (fun m => db₁.version < m.version) = [] :=
    List.filter_eq_nil_iff.2 fun m' hm => by
      have := hpast m' hm
      rw [decide_eq_true_eq]
      omega
  have hlater : ∀ m' ∈ rest, m.version < m'.version :=
    (List.pairwise_cons.1 (List.pairwise_append.1 hsorted).2.1).1
  have hall (db₁ : Database) (hle : db₁.version ≤ m.version) :
      rest.filter (fun m => db₁.version < m.version) = rest :=
    List.filter_eq_self.2 fun m' hm => by
      have := hlater m' hm
      rw [decide_eq_true_eq]
      omega
  have hbefore : db.pending (past ++ m :: rest) = m :: rest := by
    simp only [pending, List.filter_append, hold db (Int.le_refl _), List.nil_append,
      List.filter_cons, hlt, decide_true, if_true, hall db (Int.le_of_lt hlt)]
  have hafter : db'.pending (past ++ m :: rest) = rest := by
    have hself : decide (db'.version < m.version) = false := decide_eq_false (by omega)
    simp only [pending, List.filter_append, hold db' (by omega), List.nil_append,
      List.filter_cons, hself, Bool.false_eq_true, if_false, hall db' (Int.le_of_eq hversion)]
  rw [hbefore, hafter]

theorem changeAll_append {changes more : List SchemaChange} (h : db.changeAll changes = .ok db') :
    db.changeAll (changes ++ more) = db'.changeAll more := by
  induction changes generalizing db with
  | nil =>
      cases h
      rfl
  | cons c changes ih =>
      rw [List.cons_append, changeAll]
      rw [changeAll] at h
      cases hc : db.change c with
      | error e =>
          rw [hc] at h
          cases h
      | ok db₁ =>
          rw [hc] at h
          exact ih h

end Database

/-! ## What stages amount to -/

namespace Stage

/-- What a connection has done that is not committed. -/
def unsaved : Stage → List (Int × SchemaChange)
  | changing m left _ _ => (m.changes.take (m.changes.length - left.length)).map (m.version, ·)
  | committing (some m) _ _ => m.statements
  | _ => []

/-- The versions that it has reached by that. -/
def unsavedVersions : Stage → List Int
  | committing (some m) _ _ => [m.version]
  | _ => []

theorem unsaved_changing {m : Migration} {before left : List SchemaChange}
    (h : m.changes = before ++ left) (rest : List Migration) (view : Database) :
    (changing m left rest view).unsaved = before.map (m.version, ·) := by
  rw [unsaved, h, List.length_append, Nat.add_sub_cancel, List.take_left]

end Stage

/-- A stage fits the database as it was committed last. -/
def Stage.Stands (ms : List Migration) (db : Database) : Stage → Prop
  | reading left => db.Passed ms left
  | waiting m rest => db.Passed ms (m :: rest)
  | checking m rest view => view = db ∧ db.Passed ms (m :: rest)
  | changing m left rest view => db.Passed ms (m :: rest) ∧ db.version < m.version ∧
      ∃ before, m.changes = before ++ left ∧ db.changeAll before = .ok view
  | committing none rest view => view = db ∧ db.Passed ms rest
  | committing (some m) rest view => db.Passed ms (m :: rest) ∧ db.version < m.version ∧
      db.advance m = .ok view
  | undoing e | failed e => db.migrateBy ms = (db, .error e)

/-- Without the lock, nothing depends on the database but that it has the versions passed, and that it
cannot be brought further after a fault. -/
theorem Stage.Stands.mono {ms : List Migration} {db db' : Database} {stage : Stage}
    (h : stage.Stands ms db) (hlocks : stage.locks = false) (hle : db.version ≤ db'.version)
    (hfault : ∀ e, db.migrateBy ms = (db, .error e) → db' = db) : stage.Stands ms db' := by
  cases stage with
  | reading left => exact Database.Passed.mono h hle
  | waiting m rest => exact Database.Passed.mono h hle
  | failed e =>
      rw [hfault e h]
      exact h
  | checking | changing | committing | undoing => cases hlocks

namespace Contention

variable {n : Nat} {ms : List Migration} {first : Database} {sys sys' : Contention n} {c : Fin n}
  {done : List Migration}

/-- The stage of the connection that holds the lock. -/
def held (sys : Contention n) : Option Stage := sys.holder.map sys.stage

/-- The versions `done` have been reached and committed since the beginning. -/
structure Underway (ms : List Migration) (first : Database) (done : List Migration)
    (sys : Contention n) : Prop where
  alone : first.migrateBy ms = ((sys.committed.migrateBy ms).1,
    (sys.committed.migrateBy ms).2.map (done.map (·.version) ++ ·))
  pending : done ++ sys.committed.pending ms = first.pending ms
  version_le : first.version ≤ sys.committed.version
  stands : ∀ c, (sys.stage c).Stands ms sys.committed
  holder : ∀ c, (sys.stage c).locks = true ↔ sys.holder = some c
  made : (first.migrateBy ms).2.isOk = true →
    sys.made = done.flatMap Migration.statements ++ sys.held.elim [] Stage.unsaved
  reached : ∑ c, (sys.reached c : Multiset Int) =
    (done.map (·.version) ++ sys.held.elim [] Stage.unsavedVersions : List Int)

/-! ## Steps -/

theorem sum_reached_moveTo (sys : Contention n) (c : Fin n) (stage : Stage) (more : List Int) :
    ∑ d, ((sys.moveTo c stage more).reached d : Multiset Int) =
      ∑ d, (sys.reached d : Multiset Int) + (more : Multiset Int) := by
  have hc : ((sys.moveTo c stage more).reached c : Multiset Int) = sys.reached c + more := by
    simp [moveTo, Contention.reached]
  have hother : ∀ d ∈ Finset.univ.erase c, ((sys.moveTo c stage more).reached d : Multiset Int) =
      sys.reached d := by
    intro d hd
    simp [moveTo, Contention.reached, Finset.ne_of_mem_erase hd]
  rw [← Finset.add_sum_erase _ _ (Finset.mem_univ c), hc, Finset.sum_congr rfl hother,
    ← Finset.add_sum_erase Finset.univ (fun d => (sys.reached d : Multiset Int)) (Finset.mem_univ c)]
  exact add_right_comm _ _ _

/-- What a step leaves true, for the connection that takes it and for the others. -/
theorem forall_stage_moveTo {P : Fin n → Stage → Prop} {stage : Stage} (more : List Int)
    (hself : P c stage) (hothers : ∀ d, d ≠ c → P d (sys.stage d)) :
    ∀ d, P d ((sys.moveTo c stage more).stage d) := by
  intro d
  by_cases hd : d = c
  · rw [hd, stage_moveTo_self]
    exact hself
  · rw [stage_moveTo_of_ne hd]
    exact hothers d hd

/-- Where a connection moves between two stages without the lock, all else stays. -/
theorem Underway.unlocked (h : sys.Underway ms first done) {stage : Stage}
    (hold : (sys.stage c).locks = false) (hnew : stage.locks = false)
    (hstands : stage.Stands ms sys.committed) :
    (sys.moveTo c stage []).Underway ms first done := by
  have hfree : sys.holder ≠ some c := by
    intro hc
    rw [(h.holder c).2 hc] at hold
    cases hold
  have hheld : (sys.moveTo c stage []).held = sys.held := by
    show sys.holder.map _ = sys.holder.map _
    cases hh : sys.holder with
    | none => rfl
    | some d =>
        have hne : d ≠ c := fun hd => hfree (hd ▸ hh)
        exact congrArg some (stage_moveTo_of_ne hne stage [])
  have hstays : ∀ d, ((sys.moveTo c stage []).stage d).Stands ms sys.committed :=
    forall_stage_moveTo [] hstands fun d _ => h.stands d
  have hlocked : ∀ d, ((sys.moveTo c stage []).stage d).locks = true ↔ sys.holder = some d :=
    forall_stage_moveTo (P := fun d stage => stage.locks = true ↔ sys.holder = some d) []
      (by simp [hnew, hfree]) fun d _ => h.holder d
  have hsum : ∑ d, ((sys.moveTo c stage []).reached d : Multiset Int) =
      (done.map (·.version) ++ sys.held.elim [] Stage.unsavedVersions : List Int) := by
    rw [sum_reached_moveTo, h.reached]
    exact add_zero _
  exact ⟨h.alone, h.pending, h.version_le, hstays, hlocked, hheld ▸ h.made, hheld ▸ hsum⟩

/-- Where the holder of the lock moves on and keeps it, only its own work counts. -/
theorem Underway.locked (h : sys.Underway ms first done) {stage : Stage}
    (added : List (Int × SchemaChange)) {more : List Int} (hold : (sys.stage c).locks = true)
    (hnew : stage.locks = true) (hstands : stage.Stands ms sys.committed)
    (hadded : (first.migrateBy ms).2.isOk = true →
      stage.unsaved = (sys.stage c).unsaved ++ added)
    (hmore : stage.unsavedVersions = (sys.stage c).unsavedVersions ++ more) :
    Underway ms first done { sys.moveTo c stage more with made := sys.made ++ added } := by
  have hholder : sys.holder = some c := (h.holder c).1 hold
  have hheld : sys.held = some (sys.stage c) := by rw [held, hholder, Option.map_some]
  have hheld' : sys.holder.map (sys.moveTo c stage more).stage = some stage := by
    rw [hholder]
    exact congrArg some (stage_moveTo_self stage more)
  have hstays : ∀ d, ((sys.moveTo c stage more).stage d).Stands ms sys.committed :=
    forall_stage_moveTo more hstands fun d _ => h.stands d
  have hlocked : ∀ d, ((sys.moveTo c stage more).stage d).locks = true ↔ sys.holder = some d :=
    forall_stage_moveTo (P := fun d stage => stage.locks = true ↔ sys.holder = some d) more
      (by simp [hnew, hholder]) fun d _ => h.holder d
  refine ⟨h.alone, h.pending, h.version_le, hstays, hlocked, ?_, ?_⟩
  · intro hok
    have hmade := h.made hok
    rw [hheld] at hmade
    show sys.made ++ added = _ ++ (sys.holder.map (sys.moveTo c stage more).stage).elim [] Stage.unsaved
    rw [hheld', hmade, List.append_assoc]
    exact congrArg _ (hadded hok).symm
  · have hreached := h.reached
    rw [hheld] at hreached
    show ∑ d, ((sys.moveTo c stage more).reached d : Multiset Int) = (_ ++
      (sys.holder.map (sys.moveTo c stage more).stage).elim [] Stage.unsavedVersions : List Int)
    rw [sum_reached_moveTo, hreached, hheld', Multiset.coe_add, List.append_assoc]
    exact congrArg _ (congrArg _ hmore.symm)

/-- The same where no statement is carried out. -/
theorem Underway.between (h : sys.Underway ms first done) {stage : Stage} {more : List Int}
    (hold : (sys.stage c).locks = true) (hnew : stage.locks = true)
    (hstands : stage.Stands ms sys.committed)
    (hunsaved : (first.migrateBy ms).2.isOk = true → stage.unsaved = (sys.stage c).unsaved)
    (hmore : stage.unsavedVersions = (sys.stage c).unsavedVersions ++ more) :
    (sys.moveTo c stage more).Underway ms first done := by
  have hlocked := h.locked [] hold hnew hstands
    (fun hok => (hunsaved hok).trans (List.append_nil _).symm) hmore
  rwa [List.append_nil] at hlocked

/-- The lock is taken. -/
theorem Underway.take (h : sys.Underway ms first done) {stage : Stage}
    (hfree : sys.holder = none) (hnew : stage.locks = true)
    (hstands : stage.Stands ms sys.committed) (hunsaved : stage.unsaved = [])
    (hversions : stage.unsavedVersions = []) :
    Underway ms first done { sys.moveTo c stage [] with holder := some c } := by
  have hheld : sys.held = none := by rw [held, hfree, Option.map_none]
  have hheld' : held { sys.moveTo c stage [] with holder := some c } = some stage :=
    congrArg some (stage_moveTo_self stage [])
  have hstays : ∀ d, ((sys.moveTo c stage []).stage d).Stands ms sys.committed :=
    forall_stage_moveTo [] hstands fun d _ => h.stands d
  have hlocked : ∀ d, ((sys.moveTo c stage []).stage d).locks = true ↔ some c = some d :=
    forall_stage_moveTo (P := fun d stage => stage.locks = true ↔ some c = some d) []
      (by simp [hnew]) fun d hd => by simp [h.holder d, hfree, Ne.symm hd]
  refine ⟨h.alone, h.pending, h.version_le, hstays, hlocked, ?_, ?_⟩
  · intro hok
    have hmade := h.made hok
    rw [hheld] at hmade
    rw [hheld']
    show sys.made = _ ++ stage.unsaved
    rw [hmade, hunsaved]
    rfl
  · have hreached := h.reached
    rw [hheld] at hreached
    rw [hheld']
    show ∑ d, ((sys.moveTo c stage []).reached d : Multiset Int) =
      ((_ ++ stage.unsavedVersions : List Int) : Multiset Int)
    rw [sum_reached_moveTo, hreached, hversions]
    exact add_zero _

/-- The lock is given back, with the versions `more` reached. -/
theorem Underway.release (h : sys.Underway ms first done) {stage : Stage} {db : Database}
    {more : List Migration} (hold : (sys.stage c).locks = true) (hnew : stage.locks = false)
    (hstands : stage.Stands ms db) (hle : sys.committed.version ≤ db.version)
    (hfault : ∀ e, sys.committed.migrateBy ms = (sys.committed, .error e) → db = sys.committed)
    (halone : sys.committed.migrateBy ms =
      ((db.migrateBy ms).1, (db.migrateBy ms).2.map (more.map (·.version) ++ ·)))
    (hpending : sys.committed.pending ms = more ++ db.pending ms)
    (hunsaved : (first.migrateBy ms).2.isOk = true →
      (sys.stage c).unsaved = more.flatMap Migration.statements)
    (hversions : (sys.stage c).unsavedVersions = more.map (·.version)) :
    Underway ms first (done ++ more)
      { sys.moveTo c stage [] with committed := db, holder := none } := by
  have hholder : sys.holder = some c := (h.holder c).1 hold
  have hheld : sys.held = some (sys.stage c) := by rw [held, hholder, Option.map_some]
  have hunlocked : ∀ d, d ≠ c → (sys.stage d).locks = false := by
    intro d hd
    rw [← Bool.not_eq_true, h.holder d, hholder]
    exact fun hc => hd (Option.some.inj hc).symm
  have hstays : ∀ d, ((sys.moveTo c stage []).stage d).Stands ms db :=
    forall_stage_moveTo [] hstands fun d hd => (h.stands d).mono (hunlocked d hd) hle hfault
  have hlocked : ∀ d, ((sys.moveTo c stage []).stage d).locks = true ↔ none = some d :=
    forall_stage_moveTo (P := fun d stage => stage.locks = true ↔ none = some d) []
      (by simp [hnew]) fun d hd => by simp [hunlocked d hd]
  refine ⟨?_, ?_, Int.le_trans h.version_le hle, hstays, hlocked, ?_, ?_⟩
  · rw [h.alone, halone]
    cases (db.migrateBy ms).2 with
    | error e => rfl
    | ok rest => simp [Except.map]
  · rw [← h.pending, hpending, List.append_assoc]
  · intro hok
    have hmade := h.made hok
    rw [hheld] at hmade
    show sys.made = _ ++ []
    rw [hmade, List.append_nil, List.flatMap_append]
    exact congrArg _ (hunsaved hok)
  · have hreached := h.reached
    rw [hheld] at hreached
    show ∑ d, ((sys.moveTo c stage []).reached d : Multiset Int) =
      ((List.map _ (done ++ more) ++ [] : List Int) : Multiset Int)
    rw [sum_reached_moveTo, hreached, List.append_nil, List.map_append, ← hversions]
    exact add_zero _

/-- Every step keeps the invariant, and the database does not go back. -/
theorem Underway.advance (h : sys.Underway ms first done)
    (hsorted : ms.Pairwise (·.version < ·.version)) (hstep : sys.Advances c sys') :
    sys.committed.version ≤ sys'.committed.version ∧ ∃ more, sys'.Underway ms first (done ++ more) := by
  have hstands : (sys.stage c).Stands ms sys.committed := h.stands c
  have hsame : ∀ {sys₁ : Contention n}, sys₁.Underway ms first done →
      ∃ more, sys₁.Underway ms first (done ++ more) :=
    fun h₁ => ⟨[], by rwa [List.append_nil]⟩
  cases hstep with
  | pass hstage hle =>
      rw [hstage] at hstands
      exact ⟨Int.le_refl _, hsame (h.unlocked (by rw [hstage]; rfl) rfl (hstands.next hle))⟩
  | queue hstage _ =>
      rw [hstage] at hstands
      exact ⟨Int.le_refl _, hsame (h.unlocked (by rw [hstage]; rfl) rfl hstands)⟩
  | lock hstage hfree =>
      rw [hstage] at hstands
      exact ⟨Int.le_refl _, hsame (h.take hfree rfl ⟨rfl, hstands⟩ rfl rfl)⟩
  | skip hstage hle =>
      rw [hstage] at hstands
      obtain ⟨rfl, hpassed⟩ := hstands
      exact ⟨Int.le_refl _, hsame (h.between (by rw [hstage]; rfl) rfl ⟨rfl, hpassed.next hle⟩
        (fun _ => by rw [hstage]; rfl) (by rw [hstage]; rfl))⟩
  | begin hstage hlt =>
      rw [hstage] at hstands
      obtain ⟨rfl, hpassed⟩ := hstands
      exact ⟨Int.le_refl _, hsame (h.between (by rw [hstage]; rfl) rfl ⟨hpassed, hlt, [], rfl, rfl⟩
        (fun _ => by rw [hstage, Stage.unsaved_changing (List.nil_append _).symm]; rfl)
        (by rw [hstage]; rfl))⟩
  | @make m change left rest view view' hstage hchange =>
      rw [hstage] at hstands
      obtain ⟨hpassed, hlt, before, hchanges, hview⟩ := hstands
      have hsplit : m.changes = (before ++ [change]) ++ left := by
        rw [hchanges, List.append_assoc]
        rfl
      have hview' : sys.committed.changeAll (before ++ [change]) = .ok view' := by
        rw [Database.changeAll_append hview, Database.changeAll, hchange]
        rfl
      have hunsaved : (Stage.changing m left rest view').unsaved =
          (sys.stage c).unsaved ++ [(m.version, change)] := by
        rw [hstage, Stage.unsaved_changing hsplit, Stage.unsaved_changing hchanges, List.map_append]
        rfl
      exact ⟨Int.le_refl _, hsame (h.locked _ (by rw [hstage]; rfl) rfl
        ⟨hpassed, hlt, before ++ [change], hsplit, hview'⟩ (fun _ => hunsaved)
        (by rw [hstage]; rfl))⟩
  | @refuse m change left rest view e hstage hchange =>
      rw [hstage] at hstands
      obtain ⟨hpassed, hlt, before, hchanges, hview⟩ := hstands
      have hfault : sys.committed.advance m = .error e := by
        rw [Database.advance, hchanges, Database.changeAll_append hview, Database.changeAll, hchange]
        rfl
      have hhere : sys.committed.migrateBy ms = (sys.committed, .error e) :=
        hpassed.migrateBy_fault hlt hfault
      have hfirst : ¬ (first.migrateBy ms).2.isOk = true := by
        rw [h.alone, hhere]
        exact nofun
      exact ⟨Int.le_refl _, hsame (h.between (by rw [hstage]; rfl) rfl hhere
        (fun hok => absurd hok hfirst) (by rw [hstage]; rfl))⟩
  | @number m rest view hstage =>
      rw [hstage] at hstands
      obtain ⟨hpassed, hlt, before, hchanges, hview⟩ := hstands
      rw [List.append_nil] at hchanges
      have hadvance : sys.committed.advance m = .ok { view with version := m.version } := by
        rw [Database.advance, hchanges, hview]
        rfl
      have hunsaved : m.statements = (sys.stage c).unsaved := by
        rw [hstage, Stage.unsaved_changing (List.append_nil _).symm]
        rfl
      exact ⟨Int.le_refl _, hsame (h.between (by rw [hstage]; rfl) rfl ⟨hpassed, hlt, hadvance⟩
        (fun _ => hunsaved) (by rw [hstage]; rfl))⟩
  | @commit reached rest view hstage =>
      rw [hstage] at hstands
      cases reached with
      | none =>
          obtain ⟨rfl, hpassed⟩ := hstands
          exact ⟨Int.le_refl _, [], h.release (by rw [hstage]; rfl) rfl hpassed (Int.le_refl _)
            (fun _ _ => rfl) (Database.eq_map_nil_append _) rfl
            (fun _ => by rw [hstage]; rfl) (by rw [hstage]; rfl)⟩
      | some m =>
          obtain ⟨hpassed, hlt, hadvance⟩ := hstands
          have hversion : view.version = m.version := Database.version_of_advance hadvance
          have hle : sys.committed.version ≤ view.version := hversion ▸ Int.le_of_lt hlt
          have hon := hpassed.migrateBy_advance hlt hadvance
          -- had somebody failed before, the database could not be brought to this version
          have hfault : ∀ e, sys.committed.migrateBy ms = (sys.committed, .error e) →
              view = sys.committed := by
            intro e he
            have hfurther := Database.version_le_migrateBy view ms
            rw [hon] at he
            rw [(Prod.mk.inj he).1] at hfurther
            omega
          exact ⟨hle, [m], h.release (by rw [hstage]; rfl) rfl
            ((hpassed.mono hle).next (Int.le_of_eq hversion.symm)) hle hfault hon
            (hpassed.pending_eq hlt hsorted hversion) (fun _ => by rw [hstage]; simp [Stage.unsaved])
            (by rw [hstage]; rfl)⟩
  | undo hstage =>
      rw [hstage] at hstands
      exact ⟨Int.le_refl _, [], h.release (by rw [hstage]; rfl) rfl hstands (Int.le_refl _)
        (fun _ _ => rfl) (Database.eq_map_nil_append _) rfl
        (fun _ => by rw [hstage]; rfl) (by rw [hstage]; rfl)⟩

theorem underway_start (n : Nat) (ms : List Migration) (db : Database) :
    (start n ms db).Underway ms db [] where
  alone := Database.eq_map_nil_append _
  pending := rfl
  version_le := Int.le_refl _
  stands _ := Database.passed_self db ms
  holder _ := ⟨nofun, nofun⟩
  made _ := rfl
  reached := by
    show ∑ _c : Fin n, (0 : Multiset Int) = 0
    exact Finset.sum_const_zero

/-- The invariant holds at all times. -/
theorem underway_of_after {db : Database} (hsorted : ms.Pairwise (·.version < ·.version))
    {schedule : List (Fin n)} (h : (start n ms db).after schedule = some sys) :
    ∃ done, sys.Underway ms db done :=
  after_induction (P := fun sys => ∃ done, sys.Underway ms db done)
    (fun _ _ _ hunder hstep => by
      obtain ⟨done, hdone⟩ := hunder
      obtain ⟨-, more, hmore⟩ := hdone.advance hsorted hstep
      exact ⟨done ++ more, hmore⟩)
    ⟨[], underway_start n ms db⟩ h

end Contention

end EmbeddedSql
