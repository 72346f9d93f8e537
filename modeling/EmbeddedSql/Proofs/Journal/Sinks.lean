/-
# Where events go

What is logged goes to the journal of the day and to the store.

| | what it holds after some work |
| :-- | :-- |
| the journal of a day | what it held before, then a line for each event of that day |
| the store | what it held before, then a row for each event that it heard of and accepts |

Each is an invariant of the steps that work consists of, and neither invariant speaks of the other place.  That
the journals do not depend on the store at all is a statement about two runs: without a store the same work
comes to the same end, with the same journals (`Work.exec_withoutStore`).

A scan collects its lines and writes them out together.  A logger that writes each line at once comes to the
same (`Logger.KeepsPace.logAll`).
-/
import EmbeddedSql.Proofs.Journal.Work

namespace EmbeddedSql

namespace Logged

/-- The line of a journal for what was logged. -/
def line (x : Logged) : List Char := Json.compact (x.event.toJson x.now)

/-- Lines in a journal, each ended by a newline. -/
def textOf (xs : List Logged) : List Char := xs.flatMap fun x => x.line ++ ['\n']

theorem textOf_append (xs ys : List Logged) : textOf (xs ++ ys) = textOf xs ++ textOf ys :=
  List.flatMap_append

/-- The row of the store for what was logged. -/
def row (x : Logged) : Event :=
  ⟨x.event.runId, x.event.eventType.getD "", x.event.data.toLine, x.event.duration⟩

/-- Does the store have a row for what was logged? -/
def isStored (x : Logged) : Bool :=
  x.heard && Store.accepts x.event.eventType x.event.data x.event.duration

end Logged

/-! ## The journals -/

variable {config : Config} {clock : Clock}

/-- The journals hold all that was logged, after what they held before. -/
structure InJournals (config : Config) (before : Disk) (l : Logger) : Prop where
  directory : config.HasJournals l.disk
  journal (day : String) : config.journalOf l.disk day =
    config.journalOf before day ++ Utf8.encode (Logged.textOf (l.logged.filter (·.day = day)))
  writable : ∀ x ∈ l.logged, x.event.IsWritable

namespace InJournals

variable {before : Disk} {l l' : Logger}

theorem fresh (h : config.HasJournals before) (connection : Option Connection) :
    InJournals config before (.fresh before connection) where
  directory := h
  journal _ := (List.append_nil _).symm
  writable := List.forall_mem_nil _

theorem log (h : InJournals config before l) {e : Occurrence} (he : e.IsWritable) :
    InJournals config before (l.log config clock e) := by
  let moment := l.logged.length
  let added : Logged := ⟨clock.now moment, clock.day moment, e, l.connection.any (·.isOpen)⟩
  have hlogged : (l.log config clock e).logged = l.logged ++ [added] := rfl
  have hdisk : (l.log config clock e).disk =
      appendJournal config added.day [(e.toJson added.now).toLine] l.disk := by
    rw [Logger.log, Journal.lines_record, List.nil_append]
  refine ⟨?_, fun day => ?_, fun x hx => ?_⟩
  · rw [hdisk]
    exact h.directory.appendJournal _ _
  · rw [hlogged, hdisk, List.filter_append]
    by_cases hday : added.day = day
    · have hline : (String.join ([(e.toJson added.now).toLine].map (· ++ "\n"))).toList =
          Logged.textOf [added] := by
        simp [String.join, Json.toLine, Logged.textOf, Logged.line, added]
      have hfilter : [added].filter (·.day = day) = [added] := List.filter_cons_of_pos (decide_eq_true hday)
      rw [hfilter, ← hday, Config.journalOf_appendJournal _ _ h.directory, h.journal, hline, hday,
        List.append_assoc, Logged.textOf_append, Utf8.encode_append]
    · have hfilter : [added].filter (·.day = day) = [] :=
        List.filter_cons_of_neg (by rwa [decide_eq_true_eq])
      rw [hfilter, List.append_nil,
        Config.journalOf_appendJournal_of_ne _ _ h.directory (Ne.symm hday), h.journal]
  · rw [hlogged, List.mem_append, List.mem_singleton] at hx
    rcases hx with hx | rfl
    · exact h.writable x hx
    · exact he

theorem step (hstep : Logger.Step config clock l l') (h : InJournals config before l) :
    InJournals config before l' := by
  cases hstep with
  | log he => exact h.log he
  | contexts contexts => exact ⟨h.directory, h.journal, h.writable⟩
  | use hop => exact ⟨h.directory, h.journal, h.writable⟩

theorem steps (hsteps : Logger.Steps config clock l l') (h : InJournals config before l) :
    InJournals config before l' := by
  induction hsteps with
  | refl => exact h
  | tail _ hstep ih => exact ih.step hstep

end InJournals

/-! ## The store -/

/-- The connection once it has been told of what was logged. -/
def Connection.hear (c : Connection) (x : Logged) : Connection :=
  if c.isOpen && Store.accepts x.event.eventType x.event.data x.event.duration then c.withEvent x.row else c

theorem Journal.connection_record {e : Occurrence} (he : e.IsWritable) (lines warnings : List String)
    (connection : Option Connection) (now day : String) (heard : Bool) :
    (Journal.record ⟨lines, connection, warnings⟩ now e).connection =
      connection.map (·.hear ⟨now, day, e, heard⟩) := by
  obtain ⟨members, hdata, -⟩ := he.data
  cases connection with
  | none => rfl
  | some c =>
      unfold record
      dsimp only
      rw [hdata, Connection.logEvent?_obj, Option.map_some, Connection.hear, hdata]
      split
      · next h =>
          split at h
          · next hheard =>
              cases h
              rw [if_pos hheard, Logged.row, hdata]
          · cases h
      · next h =>
          split at h
          · cases h
          · next hheard => rw [if_neg hheard]

/-- The store of a connection has a row for all that it heard of and accepts, after the rows from before; as
long as it is open it has heard of everything. -/
structure InStore (before : List Event) (c : Connection) (logged : List Logged) : Prop where
  idle : c.transaction = none
  rows : c.store.events = before ++ (logged.filter (·.isStored)).map (·.row)
  heard : c.isOpen = true → ∀ x ∈ logged, x.heard = true

namespace InStore

variable {before : List Event} {c : Connection} {logged : List Logged} {l l' : Logger}

theorem hear (h : InStore before c logged) {x : Logged} (hx : x.heard = c.isOpen) :
    InStore before (c.hear x) (logged ++ [x]) := by
  have hopen : (c.hear x).isOpen = c.isOpen := by
    unfold Connection.hear
    split <;> rfl
  refine ⟨?_, ?_, fun ho y hy => ?_⟩
  · unfold Connection.hear
    split <;> exact h.idle
  · rw [List.filter_append, List.map_append, ← List.append_assoc, ← h.rows]
    have hstored : x.isStored =
        (c.isOpen && Store.accepts x.event.eventType x.event.data x.event.duration) := by
      rw [Logged.isStored, hx]
    rw [Connection.hear, ← hstored]
    cases hx' : x.isStored with
    | false =>
        rw [if_neg Bool.false_ne_true, List.filter_cons_of_neg (ne_true_of_eq_false hx')]
        exact (List.append_nil _).symm
    | true =>
        rw [if_pos rfl, List.filter_cons_of_pos hx']
        rfl
  · rw [hopen] at ho
    rcases List.mem_append.1 hy with hy | hy
    · exact h.heard ho y hy
    · rw [List.mem_singleton.1 hy, hx, ho]

theorem perform (h : InStore before c logged) {op : Operation} (hop : op.storesEvent = false) :
    InStore before (c.perform op).2 logged := by
  refine ⟨Connection.transaction_perform h.idle op, ?_, fun ho => h.heard ?_⟩
  · rw [Connection.events_perform h.idle hop, h.rows]
  · by_cases hclose : op = .close
    · rw [hclose] at ho
      cases ho
    · rwa [Connection.isOpen_perform h.idle hclose] at ho

theorem step (hstep : Logger.Step config clock l l') (hc : l.connection = some c)
    (h : InStore before c l.logged) :
    ∃ c', l'.connection = some c' ∧ InStore before c' l'.logged := by
  cases hstep with
  | @log e he =>
      let moment := l.logged.length
      let added : Logged := ⟨clock.now moment, clock.day moment, e, l.connection.any (·.isOpen)⟩
      have hconnection : (l.log config clock e).connection = some (c.hear added) := by
        rw [Logger.log, Journal.connection_record he [] l.warnings l.connection _ added.day added.heard, hc]
        rfl
      have hheard : added.heard = c.isOpen := by
        show l.connection.any (·.isOpen) = c.isOpen
        rw [hc]
        rfl
      exact ⟨_, hconnection, h.hear hheard⟩
  | contexts contexts => exact ⟨c, hc, h⟩
  | @use op hop =>
      have hconnection : (l.use op).connection = some (c.perform op).2 := by
        rw [Logger.use, hc]
        rfl
      exact ⟨_, hconnection, h.perform hop⟩

theorem steps (hsteps : Logger.Steps config clock l l') (hc : l.connection = some c)
    (h : InStore before c l.logged) :
    ∃ c', l'.connection = some c' ∧ InStore before c' l'.logged := by
  induction hsteps with
  | refl => exact ⟨c, hc, h⟩
  | tail _ hstep ih =>
      obtain ⟨c', hc', h'⟩ := ih
      exact step hstep hc' h'

end InStore

/-! ## Lines that are written out together -/

/-- A logger has come as far as a journal whose lines are written out, on top of a disk, at the end. -/
structure Logger.KeepsPace (config : Config) (day : String) (disk : Disk) (j : Journal) (l : Logger) : Prop where
  disk : l.disk = appendJournal config day j.lines disk
  connection : l.connection = j.connection
  warnings : l.warnings = j.warnings

namespace Logger.KeepsPace

variable {now day : String} {disk : Disk} {j : Journal} {l : Logger}

theorem log (hnow : ∀ moment, clock.now moment = now) (hday : ∀ moment, clock.day moment = day)
    (h : l.KeepsPace config day disk j) (e : Occurrence) :
    (l.log config clock e).KeepsPace config day disk (j.record now e) := by
  -- What becomes of the store does not depend on the lines.
  have hsame : ∀ lines, (Journal.record ⟨lines, l.connection, l.warnings⟩ now e).connection =
        (j.record now e).connection ∧
      (Journal.record ⟨lines, l.connection, l.warnings⟩ now e).warnings = (j.record now e).warnings := by
    intro lines
    rw [h.connection, h.warnings]
    obtain ⟨before, connection, warnings⟩ := j
    cases connection with
    | none => exact ⟨rfl, rfl⟩
    | some c =>
        unfold Journal.record
        dsimp only
        cases c.logEvent? e.runId e.eventType e.data e.duration <;> exact ⟨rfl, rfl⟩
  unfold Logger.log
  dsimp only
  rw [hnow, hday]
  refine ⟨?_, (hsame []).1, (hsame []).2⟩
  rw [Journal.lines_record, Journal.lines_record, List.nil_append, h.disk, Config.appendJournal_append]

/-- Events that come one after the other. -/
theorem logAll (hnow : ∀ moment, clock.now moment = now) (hday : ∀ moment, clock.day moment = day)
    (h : l.KeepsPace config day disk j) (es : List Occurrence) :
    (es.foldl (Logger.log config clock) l).KeepsPace config day disk (es.foldl (·.record now ·) j) := by
  induction es generalizing l j with
  | nil => exact h
  | cons e es ih => exact ih (h.log hnow hday e)

end Logger.KeepsPace

/-! ## Work without a store -/

namespace Logger

/-- What a logger would be that never had a store. -/
def withoutStore (l : Logger) : Logger :=
  { l with
    connection := none
    warnings := []
    logged := l.logged.map fun x => { x with heard := false } }

theorem log_withoutStore (l : Logger) (e : Occurrence) :
    l.withoutStore.log config clock e = (l.log config clock e).withoutStore := by
  have hlength : l.withoutStore.logged.length = l.logged.length := List.length_map _
  unfold log
  dsimp only
  rw [hlength, Journal.lines_record]
  simp only [withoutStore, Journal.lines_record, List.map_append]
  rfl

theorem leave_withoutStore (l : Logger) (runId eventType : Option String) (ending : Ending) :
    l.withoutStore.leave config clock runId eventType ending =
      (l.leave config clock runId eventType ending).withoutStore := by
  obtain ⟨disk, connection, warnings, contexts, logged⟩ := l
  cases contexts with
  | nil => rfl
  | cons context outer =>
      have hlength : (logged.map fun x => { x with heard := false }).length = logged.length :=
        List.length_map _
      unfold leave withoutStore
      dsimp only
      rw [hlength]
      exact log_withoutStore ⟨disk, connection, warnings, outer, logged⟩ _

end Logger

/-- The store has no part in what else comes of some work. -/
theorem Work.exec_withoutStore (config : Config) (clock : Clock) (w : Work) (l : Logger) :
    w.exec config clock l.withoutStore =
      ((w.exec config clock l).1, (w.exec config clock l).2.withoutStore) := by
  induction w generalizing l with
  | log runId eventType duration data => exact congrArg (Prod.mk _) (l.log_withoutStore _)
  | logResult runId r => exact congrArg (Prod.mk _) (l.log_withoutStore _)
  | timed runId eventType body ih =>
      have hbody := ih l.enter
      have henter : l.withoutStore.enter = l.enter.withoutStore := rfl
      rw [exec, henter, hbody]
      exact congrArg (Prod.mk _) (Logger.leave_withoutStore _ runId eventType _)
  | note depth key value => rfl
  | forget depth key => rfl
  | use op hop => rfl
  | fail reason => rfl
  | breakOff => rfl
  | andThen first next ihf ihn =>
      rw [exec, ihf l]
      exact ihn _ _

end EmbeddedSql
