/-
# The journals of the days

Lines are appended to the journal of a day.  What it held before stays in front of them, the journals of
other days stay as they are, and the directory that they lie in is still there for the next line.
-/
import EmbeddedSql.Cli.Scan
import EmbeddedSql.Proofs.Cli.StoreOnDisk
import EmbeddedSql.Proofs.Files.Settling

namespace EmbeddedSql.Config

variable {config : Config} {disk disk' : Disk}

/-- The bytes of the journal of a day. -/
def journalOf (config : Config) (disk : Disk) (day : String) : Bytes :=
  bytesOf (disk.at? (config.journalPath day).settled)

/-- Is there the directory that the journals lie in? -/
def HasJournals (config : Config) (disk : Disk) : Prop :=
  ∃ entries, disk.at? config.logDir.settled = some (.directory entries)

/-- The file name of the journal of a day. -/
def journalName (day : String) : String := "sql-extract-" ++ day ++ ".jsonl"

theorem journalName_injective : Function.Injective journalName := by
  intro day other h
  have hlist := congrArg String.toList h
  simp only [journalName, String.toList_append] at hlist
  exact String.toList_injective (List.append_cancel_left (List.append_cancel_right hlist))

theorem settled_journalPath (config : Config) (day : String) :
    (config.journalPath day).settled = config.logDir.settled ++ [journalName day] :=
  Path.settled_child (journal_ne day) config.logDir

theorem not_mem_journalPlace (config : Config) (day : String) :
    ".." ∉ config.logDir.settled ++ [journalName day] :=
  settled_journalPath config day ▸ Path.not_mem_settled _

theorem journalOf_eq {entries : Entries Store} (h : disk.at? config.logDir.settled = some (.directory entries))
    (day : String) : config.journalOf disk day = bytesOf (entries.find? (journalName day)) := by
  rw [journalOf, settled_journalPath, Node.at?_concat (not_mem_journalPlace config day) h]

/-- Once the directory of the journals has been made, it is there. -/
theorem hasJournals_of_ensureDirectory (h : ensureDirectory disk config.logDir = .ok disk') :
    config.HasJournals disk' := by
  unfold ensureDirectory at h
  dsimp only at h
  split at h
  · next hdirectory =>
      cases h
      unfold Node.isDirectoryAt at hdirectory
      split at hdirectory
      · next node hfound =>
          have hlast : config.logDir.route.getLast? ≠ some ".." := by
            rw [logDir, Path.route_child (by decide), List.getLast?_concat]
            decide
          have hplace := Node.at?_settled hlast hfound
          cases node with
          | file bytes => cases hdirectory
          | store content => cases hdirectory
          | directory entries => exact ⟨entries, hplace⟩
      · cases hdirectory
  · cases h

section Appending

variable (day : String) (lines : List String)

theorem at?_appendJournal {entries : Entries Store} (hne : lines ≠ [])
    (h : disk.at? config.logDir.settled = some (.directory entries)) :
    (appendJournal config day lines disk).at? config.logDir.settled =
      some (.directory (entries.put (journalName day)
        (.file (bytesOf (entries.find? (journalName day))
          ++ Utf8.encode (String.join (lines.map (· ++ "\n"))).toList)))) := by
  unfold appendJournal
  rw [if_neg hne, settled_journalPath, Node.at?_alter (not_mem_journalPlace config day) h]
  rfl

theorem HasJournals.appendJournal (h : config.HasJournals disk) :
    config.HasJournals (appendJournal config day lines disk) := by
  by_cases hne : lines = []
  · rw [EmbeddedSql.appendJournal, if_pos hne]
    exact h
  · obtain ⟨entries, hentries⟩ := h
    exact ⟨_, at?_appendJournal day lines hne hentries⟩

theorem journalOf_appendJournal (h : config.HasJournals disk) :
    config.journalOf (appendJournal config day lines disk) day =
      config.journalOf disk day ++ Utf8.encode (String.join (lines.map (· ++ "\n"))).toList := by
  by_cases hne : lines = []
  · rw [hne, appendJournal, if_pos rfl]
    exact (List.append_nil _).symm
  · obtain ⟨entries, hentries⟩ := h
    rw [journalOf_eq hentries, journalOf_eq (at?_appendJournal day lines hne hentries),
      Entries.find?_put_self]
    rfl

theorem journalOf_appendJournal_of_ne (h : config.HasJournals disk) {other : String} (hother : other ≠ day) :
    config.journalOf (appendJournal config day lines disk) other = config.journalOf disk other := by
  by_cases hne : lines = []
  · rw [hne, appendJournal, if_pos rfl]
  · obtain ⟨entries, hentries⟩ := h
    rw [journalOf_eq hentries, journalOf_eq (at?_appendJournal day lines hne hentries),
      Entries.find?_put_of_ne (journalName_injective.ne hother)]

end Appending

/-- Whether lines are appended together or one after the other, the disk is the same. -/
theorem appendJournal_append (config : Config) (day : String) (lines more : List String) (disk : Disk) :
    appendJournal config day (lines ++ more) disk =
      appendJournal config day more (appendJournal config day lines disk) := by
  by_cases hlines : lines = []
  · rw [hlines, List.nil_append]
    rfl
  · by_cases hmore : more = []
    · rw [hmore, List.append_nil]
      rfl
    · have hboth : lines ++ more ≠ [] := List.append_ne_nil_of_left_ne_nil hlines more
      have hjoined : (String.join ((lines ++ more).map (· ++ "\n"))).toList =
          (String.join (lines.map (· ++ "\n"))).toList ++ (String.join (more.map (· ++ "\n"))).toList := by
        rw [List.map_append, String.join_append, String.toList_append]
      rw [appendJournal, appendJournal, appendJournal, if_neg hlines, if_neg hmore, if_neg hboth]
      dsimp only
      rw [Node.alter_alter, hjoined, Utf8.encode_append]
      simp only [bytesOf, List.append_assoc]

end EmbeddedSql.Config
