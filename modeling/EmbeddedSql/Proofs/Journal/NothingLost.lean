/-
# Nothing that is logged is lost

Whatever some work logs is in the journals, one line for each event, and the lines tell all of it: read as
JSON they give the event back.  A stretch that is timed adds one event, however it ends, and ends as its
body does.  The store has the same events, as far as it is open and accepts them; the journals are as they
would be without it.
-/
import EmbeddedSql.Proofs.Journal.Sinks
import EmbeddedSql.Proofs.Rules.RoundTrip

namespace EmbeddedSql

/-! ## Lines that are read back -/

/-- What was logged can be read from a line of JSON. -/
def Logged.IsReadFrom (x : Logged) (line : List Char) : Prop :=
  ∃ members, Json.read line = .ok (.obj members) ∧
    Json.member? "timestamp" members = some (.ofString x.now) ∧
    Json.member? "run_id" members = some (.ofOption .ofString x.event.runId) ∧
    Json.member? "event_type" members = some (.ofOption .ofString x.event.eventType) ∧
    Json.member? "duration_ms" members = some (.ofOption .int x.event.duration) ∧
    Json.member? "data" members = some x.event.data

namespace Occurrence.IsWritable

variable {e : Occurrence}

theorem toJson (h : e.IsWritable) (now : String) : (e.toJson now).IsWritable := by
  obtain ⟨members, hdata, hmembers⟩ := h.data
  have hduration : (Json.ofOption .int e.duration).IsWritable := by
    cases he : e.duration with
    | none => exact .null
    | some n => exact .int (h.duration n he)
  have hkeys : (["timestamp", "run_id", "event_type", "duration_ms", "data"].map Text.ofString).Nodup := by
    decide
  refine .obj hkeys (fun m hm => ?_) fun m hm => ?_
  · simp only [List.mem_cons, List.not_mem_nil, or_false] at hm
    rcases hm with rfl | rfl | rfl | rfl | rfl <;> exact ⟨_, rfl⟩
  · simp only [List.mem_cons, List.not_mem_nil, or_false] at hm
    rcases hm with rfl | rfl | rfl | rfl | rfl
    · exact Json.isWritable_ofString now
    · exact Json.isWritable_ofOption Json.isWritable_ofString e.runId
    · exact Json.isWritable_ofOption Json.isWritable_ofString e.eventType
    · exact hduration
    · exact hdata ▸ hmembers

theorem read_data (h : e.IsWritable) : Json.read e.data.toLine.toList = .ok e.data := by
  obtain ⟨members, hdata, hmembers⟩ := h.data
  rw [hdata, Json.toLine, String.toList_ofList]
  exact Json.read_compact hmembers.readsBack

end Occurrence.IsWritable

namespace Logged

theorem isReadFrom_line {x : Logged} (h : x.event.IsWritable) : x.IsReadFrom x.line :=
  ⟨_, Json.read_compact (h.toJson x.now).readsBack, rfl, rfl, rfl, rfl, rfl⟩

/-- Split at the newlines, a journal gives the lines. -/
theorem splitAtEach_textOf {xs : List Logged} (h : ∀ x ∈ xs, x.event.IsWritable) :
    splitAtEach '\n' (textOf xs) = xs.map (·.line) ++ [[]] := by
  induction xs with
  | nil => rfl
  | cons x xs ih =>
      have hline : '\n' ∉ x.line := ((h x List.mem_cons_self).toJson x.now).newline_not_mem
      rw [textOf, List.flatMap_cons, List.append_assoc, List.singleton_append,
        splitAtEach_append_cons hline]
      exact congrArg _ (ih fun y hy => h y (List.mem_cons_of_mem x hy))

theorem decode_textOf {xs : List Logged} (h : ∀ x ∈ xs, x.event.IsWritable) :
    Utf8.decode (Utf8.encode (textOf xs)) = .ok (textOf xs) := by
  refine Utf8.decode_encode_ascii fun c hc => ?_
  obtain ⟨x, hx, hc⟩ := List.mem_flatMap.1 hc
  rcases List.mem_append.1 hc with hc | hc
  · exact Nat.lt_of_le_of_lt (((h x hx).toJson x.now).isPrintable c hc).2 (by decide)
  · rw [List.mem_singleton.1 hc]
    decide

end Logged

/-! ## Stretches -/

theorem Ending.status_dataOf_failed (context : List (Text × Json)) (reason : String) :
    Json.member? "status" ((failed reason).dataOf context) = some (.ofString "error") ∧
      Json.member? "error" ((failed reason).dataOf context) = some (.ofString reason) := by
  refine ⟨?_, Json.member?_putMember _ _ _⟩
  rw [dataOf, Occurrence.finished, Json.member?_putMember_of_ne (by decide), Json.member?_putMember]

theorem Ending.status_dataOf_returned (context : List (Text × Json)) :
    Json.member? "status" (returned.dataOf context) = some (.ofString "success") :=
  Json.member?_putMember _ _ _

/-- A stretch has added one event to what its body has logged, with the context that the body left and how
it ended, and has ended like the body. -/
structure IsStretchOf (runId eventType : Option String) (context : List (Text × Json))
    (body stretch : Ending × Logger) : Prop where
  ending : stretch.1 = body.1
  contexts : body.2.contexts = context :: stretch.2.contexts
  logged : ∃ now day duration heard, stretch.2.logged = body.2.logged ++
    [⟨now, day, ⟨runId, eventType, some duration, .obj (body.1.dataOf context)⟩, heard⟩]
  error : (∃ reason, body.1 = .failed reason) ↔
    Json.member? "status" (body.1.dataOf context) = some (.ofString "error") ∧
      ∃ reason, stretch.1 = .failed reason ∧
        Json.member? "error" (body.1.dataOf context) = some (.ofString reason)
  success : body.1 = .returned →
    Json.member? "status" (body.1.dataOf context) = some (.ofString "success")

namespace Work

variable {config : Config} {clock : Clock}

/-- As many stretches are under way after some work as before. -/
theorem length_contexts_exec (config : Config) (clock : Clock) (w : Work) (l : Logger) :
    (w.exec config clock l).2.contexts.length = l.contexts.length := by
  induction w generalizing l with
  | log runId eventType duration data => rfl
  | logResult runId r => rfl
  | timed runId eventType body ih =>
      have hbody := ih l.enter
      obtain ⟨context, outer, hcontexts⟩ := List.exists_cons_of_length_eq_add_one hbody
      rw [hcontexts] at hbody
      rw [exec]
      dsimp only
      rw [Logger.leave_eq config clock runId eventType _ hcontexts]
      exact Nat.succ.inj hbody
  | note depth key value => exact List.length_modify _ _ _
  | forget depth key => exact List.length_modify _ _ _
  | use op hop => rfl
  | fail reason => rfl
  | breakOff => rfl
  | andThen first next ihf ihn => exact (ihn _ _).trans (ihf l)

theorem exec_timed (runId eventType : Option String) (body : Work) (l : Logger) :
    ∃ context, IsStretchOf runId eventType context (body.exec config clock l.enter)
      ((timed runId eventType body).exec config clock l) := by
  have hlength := body.length_contexts_exec config clock l.enter
  obtain ⟨context, outer, hcontexts⟩ := List.exists_cons_of_length_eq_add_one hlength
  refine ⟨context, ?_⟩
  rw [exec]
  dsimp only
  rw [Logger.leave_eq config clock runId eventType _ hcontexts]
  refine ⟨rfl, hcontexts, ⟨_, _, _, _, rfl⟩, ⟨?_, fun h => ?_⟩, fun h => ?_⟩
  · rintro ⟨reason, h⟩
    rw [h]
    obtain ⟨hstatus, herror⟩ := Ending.status_dataOf_failed context reason
    exact ⟨hstatus, reason, rfl, herror⟩
  · obtain ⟨-, reason, hending, -⟩ := h
    exact ⟨reason, hending⟩
  · rw [h]
    exact Ending.status_dataOf_returned context

/-- Nothing that some work logs is lost.

* The journal of a day, which is empty when the day begins, splits at its newlines into one line for each
  event of the day, in the order in which they were logged, and each event can be read from its line.
* A stretch that is timed, wherever it stands, adds one event and ends like its body.
* The store has gained the rows of what it heard of and accepts, which is everything if it is still open and
  accepts everything.
* Without a store, or with another one, the journals would be the same. -/
theorem exec_losesNothing {disk before : Disk} {connection : Option Connection} {w : Work} {ending : Ending}
    {l : Logger} (hdirectory : ensureDirectory disk config.logDir = .ok before)
    (hconnection : ∀ c ∈ connection, c.Reachable) (hw : w.IsWritable)
    (hexec : w.exec config clock (.fresh before connection) = (ending, l)) :
    (∀ day, ∃ text lines,
      config.journalOf l.disk day = config.journalOf before day ++ Utf8.encode text ∧
      Utf8.decode (Utf8.encode text) = .ok text ∧
      splitAtEach '\n' text = lines ++ [[]] ∧
      List.Forall₂ Logged.IsReadFrom (l.logged.filter (·.day = day)) lines) ∧
    (∀ runId eventType body start, ∃ context,
      IsStretchOf runId eventType context (body.exec config clock (Logger.enter start))
        ((timed runId eventType body).exec config clock start)) ∧
    (∀ c ∈ connection, ∃ c', l.connection = some c' ∧
      c'.store.events = c.store.events ++ (l.logged.filter (·.isStored)).map (·.row) ∧
      (∀ x ∈ l.logged, Json.read x.row.data.toList = .ok x.event.data) ∧
      (c'.isOpen = true →
        (∀ x ∈ l.logged, Store.accepts x.event.eventType x.event.data x.event.duration = true) →
        c'.store.events = c.store.events ++ l.logged.map (·.row))) ∧
    w.exec config clock (.fresh before none) = (ending, l.withoutStore) := by
  have hsteps : Logger.Steps config clock (.fresh before connection) l := by
    have hstart : (Logger.fresh before connection).HasWritable := List.forall_mem_nil _
    have h := (exec_steps config clock hw hstart).1
    rwa [hexec] at h
  have hjournals : InJournals config before l :=
    (InJournals.fresh (Config.hasJournals_of_ensureDirectory hdirectory) connection).steps hsteps
  refine ⟨fun day => ?_, exec_timed, fun c hc => ?_, ?_⟩
  · have hday : ∀ x ∈ l.logged.filter (·.day = day), x.event.IsWritable := fun x hx =>
      hjournals.writable x (List.mem_of_mem_filter hx)
    refine ⟨_, _, hjournals.journal day, Logged.decode_textOf hday, Logged.splitAtEach_textOf hday, ?_⟩
    rw [List.forall₂_map_right_iff, List.forall₂_same]
    exact fun x hx => Logged.isReadFrom_line (hday x hx)
  · have hstart : InStore c.store.events c [] :=
      ⟨(hconnection c hc).transaction_eq_none, (List.append_nil _).symm, fun _ => List.forall_mem_nil _⟩
    obtain ⟨c', hc', hstore⟩ := hstart.steps hsteps hc
    refine ⟨c', hc', hstore.rows, fun x hx => (hjournals.writable x hx).read_data, fun hopen haccepts => ?_⟩
    have hall : l.logged.filter (·.isStored) = l.logged :=
      List.filter_eq_self.2 fun x hx => Bool.and_eq_true_iff.2 ⟨hstore.heard hopen x hx, haccepts x hx⟩
    rw [hstore.rows, hall]
  · have h := w.exec_withoutStore config clock (.fresh before connection)
    rwa [hexec] at h

/-! ### Work that is broken off

An event with a text that takes escapes is logged in a stretch.  Then the store is closed, and a second
stretch within the first fails, after it has changed the context of the first. -/

def noon : Clock where
  now _ := "2026-01-01T12:00:00+00:00"
  day _ := "2026-01-01"
  elapsed _ := 5
  elapsed_lt _ := by decide +kernel

def failing : Work :=
  .timed (some "run") (some "outer") <|
    .andThen (.log (some "run") (some "first") none [("text", .ofString "\n\"\t\u00e9")]) fun _ =>
      .andThen (.use .close rfl) fun _ =>
        .timed none (some "inner") <|
          .andThen (.note 1 "files" (.int 2)) fun _ => .fail "lost"

def logsIn : Config := .ofBase ⟨0, [".sql-extract"]⟩

def withLogs : Disk := (Node.directory .nil).makeDirectory logsIn.logDir

theorem isWritable_failing : failing.IsWritable := by
  have hfirst := Json.isWritable_singleton "text" (Json.isWritable_ofString "\n\"\t\u00e9")
  have htwo : (Json.int 2).IsWritable := .int (by decide +kernel)
  exact ⟨⟨by rintro n ⟨⟩, hfirst⟩, fun _ => ⟨trivial, fun _ => ⟨⟨⟨_, rfl⟩, htwo⟩, fun _ => trivial⟩⟩⟩

theorem exec_losesNothing_failing :
    ∃ l c text lines,
      ensureDirectory (.directory .nil) logsIn.logDir = .ok withLogs ∧
      Connection.opened.Reachable ∧ failing.IsWritable ∧
      failing.exec logsIn noon (.fresh withLogs (some .opened)) = (.failed "lost", l) ∧
      l.logged.map (·.event.eventType) = [some "first", some "inner", some "outer"] ∧
      logsIn.journalOf l.disk "2026-01-01" = Utf8.encode text ∧
      splitAtEach '\n' text = lines ++ [[]] ∧
      List.Forall₂ Logged.IsReadFrom l.logged lines ∧
      l.connection = some c ∧ c.store.events.map (·.eventType) = ["first"] := by
  let start := Logger.fresh withLogs (some .opened)
  let finish := failing.exec logsIn noon start
  have hmade : withLogs.isDirectoryAt logsIn.logDir = true := by decide +kernel
  have hdirectory : ensureDirectory (.directory .nil) logsIn.logDir = .ok withLogs := by
    rw [ensureDirectory]
    exact if_pos hmade
  have hconnect : Connection.connect .empty = .ok .opened := by decide +kernel
  have hreachable : Connection.opened.Reachable := .connect hconnect
  have hending : finish.1 = .failed "lost" := by decide +kernel
  have hexec : failing.exec logsIn noon start = (.failed "lost", finish.2) := by
    rw [← hending]
  obtain ⟨hjournals, -, hstore, -⟩ := exec_losesNothing hdirectory
    (by rintro c ⟨⟩; exact hreachable) isWritable_failing hexec
  obtain ⟨text, lines, hjournal, -, hlines, hread⟩ := hjournals "2026-01-01"
  obtain ⟨c, hc, hrows, -⟩ := hstore _ rfl
  have hbefore : logsIn.journalOf withLogs "2026-01-01" = [] := by decide +kernel
  have hday : finish.2.logged.filter (·.day = "2026-01-01") = finish.2.logged := by
    refine List.filter_eq_self.2 fun x hx => ?_
    have hall : finish.2.logged.all (·.day = "2026-01-01") = true := by decide +kernel
    exact List.all_eq_true.1 hall x hx
  rw [hbefore, List.nil_append] at hjournal
  rw [hday] at hread
  have hevents : ((finish.2.logged.filter (·.isStored)).map (·.row)).map (·.eventType) = ["first"] := by
    decide +kernel
  refine ⟨finish.2, c, text, lines, hdirectory, hreachable, isWritable_failing, hexec, by decide +kernel,
    hjournal, hlines, hread, hc, ?_⟩
  rw [hrows]
  exact hevents

end Work

end EmbeddedSql
