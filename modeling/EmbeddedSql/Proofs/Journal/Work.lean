/-
# Work that is logged

Work logs events and results, and has stretches of itself timed.  A stretch has a context, to which the work
can add what it has to say as long as the stretch lasts, also from within a stretch inside it.  However it
ends, its context becomes the data of one event.

| ending | what has happened | the context |
| :-- | :-- | :-- |
| `returned` | the work is done | gets the status `success` |
| `failed` | an exception with this text was raised | gets the status `error` and the text |
| `brokenOff` | something was raised that is no exception, such as an interrupt | stays as it is |

In between the work uses the store as it likes, and may close it.  What a clock shows is given from outside,
for each moment at which something is logged.

It is a condition of all this that a journal can be opened, so that there is no directory in its place
(`openJournal`).  Where there is one, logging raises an exception of its own, and what was to be logged is no
event; that is left out here.

Everything that work does is a sequence of three kinds of steps: something is logged, the contexts change,
or the store is used.  What each step keeps is kept by all work (`Work.exec_steps`).
-/
import Mathlib.Logic.Relation
import EmbeddedSql.Proofs.Journal.Appending
import EmbeddedSql.Proofs.Json.Lines
import EmbeddedSql.Proofs.Store.Events

namespace EmbeddedSql

/-! ## Loggers -/

/-- What a clock shows at each moment, counted by the events that were logged before it: the time, the day,
and how long the stretch has taken that ends there. -/
structure Clock where
  now : Nat → String
  day : Nat → String
  elapsed : Nat → Int
  elapsed_lt : ∀ moment, (elapsed moment).natAbs < 10 ^ Json.maxIntegerDigits

/-- What was logged at a moment, and whether an open store was there to hear of it. -/
structure Logged where
  now : String
  day : String
  event : Occurrence
  heard : Bool

/-- A logger at work, with the contexts of the stretches that are under way, innermost first, and all that
was logged so far. -/
structure Logger where
  disk : Disk
  connection : Option Connection
  warnings : List String
  contexts : List (List (Text × Json))
  logged : List Logged

namespace Logger

/-- A logger with the directory of its journals, before anything is logged. -/
def fresh (disk : Disk) (connection : Option Connection) : Logger := ⟨disk, connection, [], [], []⟩

/-- Log an event: in the journal of the day, which can be opened, and in the store. -/
def log (config : Config) (clock : Clock) (l : Logger) (e : Occurrence) : Logger :=
  let moment := l.logged.length
  let j := Journal.record ⟨[], l.connection, l.warnings⟩ (clock.now moment) e
  { l with
    disk := appendJournal config (clock.day moment) j.lines l.disk
    connection := j.connection
    warnings := j.warnings
    logged := l.logged ++ [⟨clock.now moment, clock.day moment, e, l.connection.any (·.isOpen)⟩] }

/-- Enter a stretch that is timed. -/
def enter (l : Logger) : Logger := { l with contexts := Occurrence.started :: l.contexts }

/-- Change the context of a stretch that is under way, the innermost being the first. -/
def note (l : Logger) (depth : Nat) (change : List (Text × Json) → List (Text × Json)) : Logger :=
  { l with contexts := l.contexts.modify depth change }

/-- Use the store, if there is one. -/
def use (l : Logger) (op : Operation) : Logger :=
  { l with connection := l.connection.map fun c => (c.perform op).2 }

end Logger

/-! ## Work -/

/-- How work ends. -/
inductive Ending where
  | returned
  | failed (reason : String)
  | brokenOff
deriving DecidableEq

/-- The data of a stretch that ends. -/
def Ending.dataOf (context : List (Text × Json)) : Ending → List (Text × Json)
  | returned => Occurrence.finished context none
  | failed reason => Occurrence.finished context (some reason)
  | brokenOff => context

/-- The event that ends a run is that of a stretch to whose context the run has added its counts. -/
theorem timedData_eq_dataOf (counts : List (Text × Json)) (failure : Option String) :
    Occurrence.timedData counts failure = .obj ((failure.elim .returned Ending.failed).dataOf
      (counts.foldl (fun context m => Json.putMember m.1 m.2 context) Occurrence.started)) := by
  cases failure <;> rfl

/-- Leave a stretch: what its context has become is logged. -/
def Logger.leave (config : Config) (clock : Clock) (runId eventType : Option String) (ending : Ending)
    (l : Logger) : Logger :=
  match l.contexts with
  | [] => l
  | context :: outer =>
    log config clock { l with contexts := outer }
      ⟨runId, eventType, some (clock.elapsed l.logged.length), .obj (ending.dataOf context)⟩

theorem Logger.leave_eq (config : Config) (clock : Clock) (runId eventType : Option String) (ending : Ending)
    {l : Logger} {context : List (Text × Json)} {outer : List (List (Text × Json))}
    (h : l.contexts = context :: outer) :
    l.leave config clock runId eventType ending = log config clock { l with contexts := outer }
      ⟨runId, eventType, some (clock.elapsed l.logged.length), .obj (ending.dataOf context)⟩ := by
  unfold leave
  rw [h]

/-- Work is made of what logs, and of what ends it.  What comes next after some work may depend on how that
has ended, so an exception can be passed on or handled. -/
inductive Work where
  | log (runId eventType : Option String) (duration : Option Int) (data : List (Text × Json))
  | logResult (runId : Option String) (r : ScanResult)
  | timed (runId eventType : Option String) (body : Work)
  | note (depth : Nat) (key : Text) (value : Json)
  | forget (depth : Nat) (key : Text)
  | use (op : Operation) (hop : op.storesEvent = false)
  | fail (reason : String)
  | breakOff
  | andThen (first : Work) (next : Ending → Work)

namespace Work

/-- Do work; gives how it ends, and the logger as it is then. -/
def exec (config : Config) (clock : Clock) : Work → Logger → Ending × Logger
  | log runId eventType duration data, l =>
    (.returned, l.log config clock ⟨runId, eventType, duration, .obj data⟩)
  | logResult runId r, l => (.returned, l.log config clock (.ofResult runId r))
  | timed runId eventType body, l =>
    let (ending, l) := body.exec config clock l.enter
    (ending, l.leave config clock runId eventType ending)
  | note depth key value, l => (.returned, l.note depth (Json.putMember key value))
  | forget depth key, l => (.returned, l.note depth (·.filter (·.1 ≠ key)))
  | use op _, l => (.returned, l.use op)
  | fail reason, l => (.failed reason, l)
  | breakOff, l => (.brokenOff, l)
  | andThen first next, l =>
    let (ending, l) := first.exec config clock l
    (next ending).exec config clock l

/-- Can everything be written that the work logs? -/
def IsWritable : Work → Prop
  | log _ _ duration data =>
    (∀ n ∈ duration, n.natAbs < 10 ^ Json.maxIntegerDigits) ∧ (Json.obj data).IsWritable
  | logResult runId r => (Occurrence.ofResult runId r).data.IsWritable
  | timed _ _ body => body.IsWritable
  | note _ key value => (∃ cs : List Char, key = cs.map .char) ∧ value.IsWritable
  | andThen first next => first.IsWritable ∧ ∀ ending, (next ending).IsWritable
  | _ => True

end Work

/-! ## What can be written -/

/-- An event whose data are an object that can be written. -/
structure Occurrence.IsWritable (e : Occurrence) : Prop where
  duration : ∀ n ∈ e.duration, n.natAbs < 10 ^ Json.maxIntegerDigits
  data : ∃ members, e.data = .obj members ∧ (Json.obj members).IsWritable

namespace Json

theorem isWritable_singleton (key : String) {value : Json} (h : value.IsWritable) :
    (Json.obj [(Text.ofString key, value)]).IsWritable := by
  refine .obj (List.nodup_singleton _) (fun m hm => ?_) fun m hm => ?_
  · rw [List.mem_singleton.1 hm]
    exact ⟨_, rfl⟩
  · rw [List.mem_singleton.1 hm]
    exact h

theorem keys_putMember_subset {key k : Text} {value : Json} {members : List (Text × Json)}
    (h : k ∈ (putMember key value members).map (·.1)) : k = key ∨ k ∈ members.map (·.1) := by
  induction members with
  | nil => exact .inl (List.mem_singleton.1 h)
  | cons m rest ih =>
      obtain ⟨k', v⟩ := m
      rw [putMember] at h
      split at h
      · exact .inr h
      · rw [List.map_cons, List.mem_cons] at h ⊢
        rcases h with h | h
        · exact .inr (.inl h)
        · exact (ih h).imp_right .inr

theorem nodup_putMember {key : Text} {value : Json} {members : List (Text × Json)}
    (h : (members.map (·.1)).Nodup) : ((putMember key value members).map (·.1)).Nodup := by
  induction members with
  | nil => exact List.nodup_singleton key
  | cons m rest ih =>
      obtain ⟨k, v⟩ := m
      rw [List.map_cons, List.nodup_cons] at h
      rw [putMember]
      split
      · exact List.nodup_cons.2 h
      · next hne =>
          refine List.nodup_cons.2 ⟨fun hmem => ?_, ih h.2⟩
          rcases keys_putMember_subset hmem with heq | hmem
          · exact hne heq
          · exact h.1 hmem

theorem member?_putMember_of_ne {key other : Text} (h : other ≠ key) (value : Json)
    (members : List (Text × Json)) : member? other (putMember key value members) = member? other members := by
  induction members with
  | nil => simp [putMember, member?, Ne.symm h]
  | cons m rest ih =>
      obtain ⟨k, v⟩ := m
      by_cases hk : k = key
      · simp [putMember, member?, hk, Ne.symm h]
      · rw [putMember, if_neg hk, member?, member?, List.find?_cons, List.find?_cons]
        split
        · rfl
        · exact ih

theorem mem_putMember {key : Text} {value : Json} {members : List (Text × Json)} {m : Text × Json}
    (h : m ∈ putMember key value members) : m.2 = value ∨ m ∈ members := by
  induction members with
  | nil => exact .inl (congrArg Prod.snd (List.mem_singleton.1 h))
  | cons first rest ih =>
      obtain ⟨k, v⟩ := first
      rw [putMember] at h
      split at h
      · rcases List.mem_cons.1 h with rfl | h
        · exact .inl rfl
        · exact .inr (List.mem_cons_of_mem _ h)
      · rcases List.mem_cons.1 h with rfl | h
        · exact .inr List.mem_cons_self
        · exact (ih h).imp_right (List.mem_cons_of_mem _)

theorem IsWritable.putMember {key : Text} {value : Json} {members : List (Text × Json)}
    (h : (Json.obj members).IsWritable) (hkey : ∃ cs : List Char, key = cs.map .char)
    (hvalue : value.IsWritable) : (Json.obj (putMember key value members)).IsWritable := by
  cases h with
  | obj hkeys hchars hvalues =>
      refine .obj (nodup_putMember hkeys) (fun m hm => ?_) fun m hm => ?_
      · rcases keys_putMember_subset (List.mem_map_of_mem hm) with heq | hmem
        · exact heq ▸ hkey
        · obtain ⟨other, hother, heq⟩ := List.mem_map.1 hmem
          exact heq ▸ hchars other hother
      · rcases mem_putMember hm with heq | hm
        · exact heq ▸ hvalue
        · exact hvalues m hm

theorem IsWritable.filter {members : List (Text × Json)} (h : (Json.obj members).IsWritable)
    (p : Text × Json → Bool) : (Json.obj (members.filter p)).IsWritable := by
  cases h with
  | obj hkeys hchars hvalues =>
      have hsublist := List.filter_sublist (p := p) (l := members)
      exact .obj (hkeys.sublist (hsublist.map _)) (fun m hm => hchars m (hsublist.subset hm))
        fun m hm => hvalues m (hsublist.subset hm)

end Json

theorem isWritable_started : (Json.obj Occurrence.started).IsWritable :=
  Json.isWritable_singleton "status" (Json.isWritable_ofString _)

theorem isWritable_dataOf {context : List (Text × Json)} (h : (Json.obj context).IsWritable)
    (ending : Ending) : (Json.obj (ending.dataOf context)).IsWritable := by
  cases ending with
  | returned => exact h.putMember ⟨_, rfl⟩ (Json.isWritable_ofString _)
  | failed reason =>
      exact (h.putMember ⟨_, rfl⟩ (Json.isWritable_ofString _)).putMember ⟨_, rfl⟩
        (Json.isWritable_ofString reason)
  | brokenOff => exact h

/-! ## Steps -/

namespace Logger

/-- Can all contexts be written? -/
def HasWritable (l : Logger) : Prop := ∀ context ∈ l.contexts, (Json.obj context).IsWritable

/-- One step of some work. -/
inductive Step (config : Config) (clock : Clock) : Logger → Logger → Prop
  | log {l : Logger} {e : Occurrence} (he : e.IsWritable) : Step config clock l (l.log config clock e)
  | contexts {l : Logger} (contexts : List (List (Text × Json))) :
      Step config clock l { l with contexts }
  | use {l : Logger} {op : Operation} (hop : op.storesEvent = false) : Step config clock l (l.use op)

/-- Steps one after the other. -/
abbrev Steps (config : Config) (clock : Clock) : Logger → Logger → Prop :=
  Relation.ReflTransGen (Step config clock)

theorem HasWritable.note {l : Logger} (h : l.HasWritable) (depth : Nat)
    {change : List (Text × Json) → List (Text × Json)}
    (hchange : ∀ context, (Json.obj context).IsWritable → (Json.obj (change context)).IsWritable) :
    (l.note depth change).HasWritable := by
  intro context hcontext
  obtain ⟨i, hi⟩ := List.mem_iff_getElem?.1 hcontext
  rw [Logger.note, List.getElem?_modify] at hi
  obtain ⟨old, hold, rfl⟩ := Option.map_eq_some_iff.1 hi
  have hwritable := h old (List.mem_of_getElem? hold)
  split
  · exact hchange old hwritable
  · exact hwritable

theorem leave_steps (config : Config) (clock : Clock) {l : Logger} (h : l.HasWritable)
    (runId eventType : Option String) (ending : Ending) :
    Steps config clock l (l.leave config clock runId eventType ending) ∧
      (l.leave config clock runId eventType ending).HasWritable := by
  cases hcontexts : l.contexts with
  | nil =>
      unfold leave
      rw [hcontexts]
      exact ⟨.refl, h⟩
  | cons context outer =>
      rw [leave_eq config clock runId eventType ending hcontexts]
      have hcontext := h context (hcontexts ▸ List.mem_cons_self)
      refine ⟨(Relation.ReflTransGen.single (.contexts outer)).tail (.log ⟨?_, _, rfl, ?_⟩), ?_⟩
      · rintro n ⟨⟩
        exact clock.elapsed_lt _
      · exact isWritable_dataOf hcontext ending
      · exact fun other hother => h other (hcontexts ▸ List.mem_cons_of_mem _ hother)

end Logger

open Logger in
/-- All that work does it does by steps. -/
theorem Work.exec_steps (config : Config) (clock : Clock) {w : Work} (hw : w.IsWritable) {l : Logger}
    (h : l.HasWritable) :
    Steps config clock l (w.exec config clock l).2 ∧ (w.exec config clock l).2.HasWritable := by
  induction w generalizing l with
  | log runId eventType duration data => exact ⟨.single (.log ⟨hw.1, _, rfl, hw.2⟩), h⟩
  | logResult runId r => exact ⟨.single (.log ⟨by rintro n ⟨⟩, _, rfl, hw⟩), h⟩
  | timed runId eventType body ih =>
      have henter : l.enter.HasWritable := by
        intro context hcontext
        rcases List.mem_cons.1 hcontext with rfl | hcontext
        · exact isWritable_started
        · exact h context hcontext
      obtain ⟨hsteps, hbody⟩ := ih hw henter
      obtain ⟨hleave, hleft⟩ := leave_steps config clock hbody runId eventType
        (body.exec config clock l.enter).1
      have hstart : Steps config clock l l.enter := .single (.contexts _)
      exact ⟨(hstart.trans hsteps).trans hleave, hleft⟩
  | note depth key value =>
      exact ⟨.single (.contexts _), h.note depth fun _ hc => hc.putMember hw.1 hw.2⟩
  | forget depth key => exact ⟨.single (.contexts _), h.note depth fun _ hc => hc.filter _⟩
  | use op hop => exact ⟨.single (.use hop), h⟩
  | fail reason => exact ⟨.refl, h⟩
  | breakOff => exact ⟨.refl, h⟩
  | andThen first next ihf ihn =>
      obtain ⟨hfirst, hmid⟩ := ihf hw.1 h
      obtain ⟨hnext, hend⟩ := ihn (first.exec config clock l).1 (hw.2 _) hmid
      exact ⟨hfirst.trans hnext, hend⟩

end EmbeddedSql
