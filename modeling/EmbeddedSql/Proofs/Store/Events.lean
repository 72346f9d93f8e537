/-
# The events of a store

Events come in one way only: an event that the store accepts is added at the end, as long as the connection
is open.  No other operation touches them.
-/
import EmbeddedSql.Proofs.Store.Counts

namespace EmbeddedSql

/-- Does an operation store an event? -/
def Operation.storesEvent : Operation → Bool
  | logEvent .. => true
  | _ => false

namespace Store

variable {s s' : Store}

/-- Is an event with these data accepted, when they are an object? -/
def accepts (eventType : Option String) (data : Json) (duration : Option Int) : Bool :=
  eventType.isSome && data.isStrict && duration.all isWord64

theorem logEvent?_obj (s : Store) (runId eventType : Option String) (members : List (Text × Json))
    (duration : Option Int) :
    s.logEvent? runId eventType (.obj members) duration =
      if accepts eventType (.obj members) duration then
        some { s with
          events := s.events ++ [⟨runId, eventType.getD "", (Json.obj members).toLine, duration⟩] }
      else none := by
  have hdata : (if (Json.obj members).isVoid then Json.obj [] else .obj members) = .obj members := by
    cases members <;> rfl
  unfold logEvent? accepts
  rw [hdata]
  cases eventType <;> rfl

theorem events_createRun {now id : String} {root : Option String} {run : Run}
    (h : s.createRun now id root = .ok (run, s')) : s'.events = s.events := by
  unfold createRun at h
  split at h
  · cases h
    rfl
  · cases h
  · cases h
    rfl

theorem events_finishRun {now id : String} {status : RunStatus} {run : Run}
    (h : s.finishRun now id status = .ok (run, s')) : s'.events = s.events := by
  unfold finishRun at h
  dsimp only at h
  split at h
  · cases h
    rfl
  · cases h

theorem events_save {runId : Option String} {r : ScanResult} (h : s.save runId r = .ok s') :
    s'.events = s.events := by
  unfold save at h
  split at h
  · cases h
    rfl
  · cases h
  · split at h
    · cases h
    · obtain ⟨added, -, h⟩ := ok_of_bind_eq_ok h
      cases h
      rfl

end Store

namespace Connection

variable {c : Connection}

/-- The connection once an event has been added. -/
def withEvent (c : Connection) (e : Event) : Connection :=
  { c with store := { c.store with events := c.store.events ++ [e] } }

theorem logEvent?_obj (c : Connection) (runId eventType : Option String) (members : List (Text × Json))
    (duration : Option Int) :
    c.logEvent? runId eventType (.obj members) duration =
      if c.isOpen && Store.accepts eventType (.obj members) duration then
        some (c.withEvent ⟨runId, eventType.getD "", (Json.obj members).toLine, duration⟩)
      else none := by
  unfold logEvent?
  rw [Store.logEvent?_obj]
  obtain ⟨store, isOpen, transaction⟩ := c
  cases isOpen with
  | false => rfl
  | true => cases Store.accepts eventType (.obj members) duration <;> rfl

/-- Only by storing an event do the events change. -/
theorem events_perform (hidle : c.transaction = none) {op : Operation} (hop : op.storesEvent = false) :
    (c.perform op).2.store.events = c.store.events := by
  cases op with
  | createRun now new root =>
      rcases c.tryUpdate_cases (fun run => .run (some run)) (·.createRun now new root) with
        ⟨e, h⟩ | ⟨run, store, -, hcreate, h⟩
      · rw [perform, h]
      · rw [perform, h]
        exact Store.events_createRun hcreate
  | finishRun now finished status =>
      rcases c.tryUpdate_cases (fun run => .run (some run)) (·.finishRun now finished status) with
        ⟨e, h⟩ | ⟨run, store, -, hfinish, h⟩
      · rw [perform, h]
      · rw [perform, h]
        exact Store.events_finishRun hfinish
  | save runId r =>
      rcases attemptSave_cases hidle runId r with ⟨-, h⟩ | ⟨e, h⟩ | ⟨hash, store, hhash, hfold, h⟩
      · rw [perform, h]
      · rw [perform, h]
      · obtain ⟨id, digest, result, -, -, -, -, hsaved⟩ := of_foldlM_saveStatements hhash hfold
        rw [perform, h]
        exact Store.events_save hsaved
  | logEvent runId eventType data duration => cases hop
  | migrate =>
      show (c.migrate.2).store.events = _
      unfold migrate
      split <;> rfl
  | close =>
      show c.close.store.events = _
      rw [close, hidle]
      rfl
  | _ => rfl

end Connection

end EmbeddedSql
