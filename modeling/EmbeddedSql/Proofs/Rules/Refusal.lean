/-
# Rule files that cannot be used

Loading a rule file *settles* if it gives a rule set, then a normal one, or refuses the file with a reason.
A refusal is what the commands handle: they print the reason and end with exit code 2.  Whatever is wrong
with the kind of file, with the form of its JSON or with its fields is a reason for refusal.  Three things
are not, and the commands end with a fault:

| `Node.IsIllegible` | what is wrong                               |
|--------------------|---------------------------------------------|
| `tooLong`          | the path cannot be looked up                |
| `notText`          | the bytes of the file are no UTF-8          |
| `longNumber`       | an integer in the text has too many digits  |

That there are no others has the condition that every file may be read and every directory searched: a tree
knows no permissions.
-/
import EmbeddedSql.Cli.Run
import EmbeddedSql.Proofs.Json.Remainders
import EmbeddedSql.Proofs.Rules.RoundTrip

namespace EmbeddedSql

open Json (HasLongNumber)

variable {σ : Type}

/-- The file at a path cannot be made out, neither as a rule set nor as something to refuse. -/
inductive Node.IsIllegible (tree : Node σ) (path : Path) : Prop
  | tooLong (hlookUp : tree.lookUp path = .error .nameTooLong)
  | notText {bytes : Bytes} {failure : Utf8.Failure} (hbytes : tree.readBytes path = .ok bytes)
      (htext : Utf8.decode bytes = .error failure)
  | longNumber {bytes : Bytes} {text : List Char} {n : Nat} (hbytes : tree.readBytes path = .ok bytes)
      (htext : Utf8.decode bytes = .ok text)
      (hread : Json.read (unifyLineEnds text) = .error (.tooManyDigits n))
      (hlong : HasLongNumber n (unifyLineEnds text))

/-- What loading a rule file should come to: a normal rule set, or a refusal with a reason. -/
def Settles (loaded : Except RuleFileError RuleSet) : Prop :=
  (∃ rules, loaded = .ok rules ∧ rules.IsNormal) ∨ ∃ reason, loaded = .error (.refused reason)

theorem settles_ok {rules : RuleSet} (h : rules.IsNormal) : Settles (.ok rules) := .inl ⟨rules, rfl, h⟩

theorem settles_refused (reason : RefusedRules) : Settles (.error (.refused reason)) :=
  .inr ⟨reason, rfl⟩

/-! ## One step of loading after the other -/

/-- The text of a rule file settles unless the reader meets an integer that is too long. -/
theorem readRules_settles_iff (text : List Char) :
    Settles (readRules text) ↔ ∀ n, Json.read text ≠ .error (.tooManyDigits n) := by
  unfold readRules
  cases hread : Json.read text with
  | error failure =>
      cases failure with
      | «at» problem remaining => exact iff_of_true (settles_refused _) nofun
      | tooManyDigits n =>
          refine iff_of_false ?_ fun h => h n rfl
          rintro (⟨rules, hload, -⟩ | ⟨reason, hload⟩) <;> cases hload
  | ok v =>
      refine iff_of_true ?_ nofun
      cases v with
      | obj members =>
          dsimp only
          split
          · next rules heq => exact settles_ok (RuleSet.isNormal_of_ofMembers heq)
          · exact settles_refused _
      | _ => exact settles_refused _

theorem not_settles_error {e : RuleFileError} (h : ∀ reason, e ≠ .refused reason) :
    ¬ Settles (.error e) := by
  rintro (⟨rules, hload, -⟩ | ⟨reason, hload⟩)
  · cases hload
  · exact h reason (Except.error.inj hload)

/-- A path at which no bytes can be read settles, unless it cannot be looked up. -/
theorem loadRules_unread {tree : Node σ} {path : Path} {e : ReadError}
    (h : tree.readBytes path = .error e) :
    Settles (loadRules tree path) ↔ tree.lookUp path ≠ .error .nameTooLong := by
  unfold loadRules Node.holds Node.ask
  cases hlookUp : tree.lookUp path with
  | ok node =>
      simp only [h]
      exact iff_of_true (settles_refused _) nofun
  | error reason =>
      cases reason with
      | nameTooLong => exact iff_of_false (not_settles_error nofun) fun hne => hne rfl
      | _ => exact iff_of_true (settles_ok RuleSet.isNormal_standard) nofun

/-- Loading a rule file settles exactly if the file is not illegible. -/
theorem settles_iff (tree : Node σ) (path : Path) :
    Settles (loadRules tree path) ↔ ¬ tree.IsIllegible path := by
  cases hbytes : tree.readBytes path with
  | error e =>
      rw [loadRules_unread hbytes, not_iff_not]
      refine ⟨.tooLong, fun h => ?_⟩
      cases h with
      | tooLong hlookUp => exact hlookUp
      | notText hread => cases hbytes.symm.trans hread
      | longNumber hread => cases hbytes.symm.trans hread
  | ok bytes =>
      rw [loadRules_of_readBytes hbytes]
      cases htext : Utf8.decode bytes with
      | error failure => exact iff_of_false (not_settles_error nofun) fun h => h (.notText hbytes htext)
      | ok text =>
          dsimp only
          rw [readRules_settles_iff]
          constructor
          · intro hread h
            cases h with
            | tooLong hlookUp =>
                rw [Node.readBytes, hlookUp] at hbytes
                cases hbytes
            | notText hbytes' htext' =>
                cases hbytes.symm.trans hbytes'
                cases htext.symm.trans htext'
            | longNumber hbytes' htext' hread' =>
                cases hbytes.symm.trans hbytes'
                cases htext.symm.trans htext'
                exact hread _ hread'
          · exact fun h n hread => h (.longNumber hbytes htext hread (Json.hasLongNumber_of_read hread))

/-! ## The commands -/

/-- A command that has done nothing: nothing is written, and it is refused or has met a fault with the rule
file. -/
structure Outcome.EndsAtRules (outcome : Outcome) (disk : Disk) (path : Path) : Prop where
  unwritten : outcome.disk = disk
  unlogged : outcome.journal = []
  refused : outcome.exitCode = 2 ∧ outcome.fault = none ↔ ¬ disk.IsIllegible path
  fault : outcome.exitCode = 1 ∧ (∃ e, outcome.fault = some (.rules path e)) ↔ disk.IsIllegible path

theorem endsAtRules_of_loadRules {disk : Disk} {path : Path} {e : RuleFileError}
    (h : loadRules disk path = .error e) :
    ∃ outcome, loadRulesOr disk path = .error outcome ∧ outcome.EndsAtRules disk path := by
  have hsettles := settles_iff disk path
  rw [h] at hsettles
  unfold loadRulesOr
  rw [h]
  -- What is not refused has not settled, so the file is illegible.
  have hfault : (∀ reason, e ≠ .refused reason) →
      (Outcome.ofFault disk [] (.rules path e)).EndsAtRules disk path := by
    intro hne
    have hillegible : disk.IsIllegible path := not_not.1 fun hlegible =>
      not_settles_error hne (hsettles.2 hlegible)
    exact ⟨rfl, rfl, iff_of_false (fun hexit => nomatch hexit.1) (not_not.2 hillegible),
      iff_of_true ⟨rfl, e, rfl⟩ hillegible⟩
  cases e with
  | refused reason =>
      have hlegible := hsettles.1 (settles_refused reason)
      exact ⟨_, rfl, rfl, rfl, iff_of_true ⟨rfl, rfl⟩ hlegible,
        iff_of_false (fun hexit => nomatch hexit.1) hlegible⟩
  | notText failure => exact ⟨_, rfl, hfault nofun⟩
  | hugeNumber failure => exact ⟨_, rfl, hfault nofun⟩
  | tooLong e => exact ⟨_, rfl, hfault nofun⟩

/-- Where permissions keep nothing from being read, loading a rule file gives a normal rule set or a refusal
exactly if the file is not illegible, and where it gives no rule set, both commands that need one end without
having written anything: with exit code 2 if the file is refused, and with a fault if it is illegible. -/
theorem commands_end_at_rules (config : Config) (workerFault : Option String) (occasion : Occasion)
    (request : ScanRequest) (disk : Disk) (path : Path) :
    (Settles (loadRules disk path) ↔ ¬ disk.IsIllegible path) ∧
    (request.rulesPath.getD config.rulesPath = path → missingPaths disk request.paths = .ok [] →
      (∀ rules, loadRules disk path ≠ .ok rules) →
      ∀ command ∈ [Command.scan request, Command.rules request.rulesPath],
        (runCommand config workerFault occasion disk command).EndsAtRules disk path) := by
  refine ⟨settles_iff disk path, fun hpath hpaths hunusable => ?_⟩
  obtain ⟨e, hload⟩ : ∃ e, loadRules disk path = .error e := by
    cases hload : loadRules disk path with
    | error e => exact ⟨e, rfl⟩
    | ok rules => exact absurd hload (hunusable rules)
  obtain ⟨outcome, hor, hends⟩ := endsAtRules_of_loadRules hload
  have hscan : runCommand config workerFault occasion disk (.scan request) = outcome := by
    unfold runCommand scanCommand
    simp only [hpaths, hpath, hor]
  have hrules : runCommand config workerFault occasion disk (.rules request.rulesPath) = outcome := by
    unfold runCommand rulesCommand
    simp only [hpath, hor]
  intro command hcommand
  rw [List.mem_cons, List.mem_singleton] at hcommand
  rcases hcommand with rfl | rfl
  · rwa [hscan]
  · rwa [hrules]

/-- A source, a directory, and a file of one byte that begins no character. -/
def strayDisk : Disk :=
  .directory (.cons "A.java" (.file []) (.cons "conf" (.directory .nil)
    (.cons "stray.json" (.file [0xFF]) .nil)))

def strayRequest (rulesPath : Path) : ScanRequest where
  paths := [.parse "A.java"]
  asJson := false
  workers := none
  rulesPath := some rulesPath
  useStore := true
  showSource := false

/-- What the command does on that disk in a directory of its own. -/
def strayOutcome (command : Command) : Outcome :=
  runCommand (.ofBase (.parse "base")) none ⟨"2024-01-01 00:00:00", "2024-01-01", "id"⟩ strayDisk command

theorem commands_end_at_rules_strayByte :
    (∀ command ∈ [Command.scan (strayRequest (.parse "conf")), .rules (some (.parse "conf"))],
      (strayOutcome command).exitCode = 2) ∧
    ∀ command ∈ [Command.scan (strayRequest (.parse "stray.json")), .rules (some (.parse "stray.json"))],
      (strayOutcome command).exitCode = 1 := by
  have hconf : loadRules strayDisk (.parse "conf") = .error (.refused (.unreadable .isADirectory)) := rfl
  have hbytes : strayDisk.readBytes (.parse "stray.json") = .ok [0xFF] := rfl
  have hdecode : Utf8.decode [0xFF] = .error ⟨.startByte, 0, [0xFF]⟩ := by
    rw [Utf8.decode, Utf8.decodeAt]
    rfl
  have hstray : loadRules strayDisk (.parse "stray.json") =
      .error (.notText ⟨.startByte, 0, [0xFF]⟩) := by
    rw [loadRules_of_readBytes hbytes, hdecode]
  obtain ⟨hsettles, hcommands⟩ := commands_end_at_rules (.ofBase (.parse "base")) none
    ⟨"2024-01-01 00:00:00", "2024-01-01", "id"⟩ (strayRequest (.parse "conf")) strayDisk (.parse "conf")
  refine ⟨fun command hcommand => ?_, fun command hcommand => ?_⟩
  · have hends := hcommands rfl rfl (fun rules h => by rw [hconf] at h; cases h) command hcommand
    exact (hends.refused.2 (hsettles.1 (hconf ▸ settles_refused _))).1
  · have hends := (commands_end_at_rules (.ofBase (.parse "base")) none
      ⟨"2024-01-01 00:00:00", "2024-01-01", "id"⟩ (strayRequest (.parse "stray.json")) strayDisk
      (.parse "stray.json")).2 rfl rfl (fun rules h => by rw [hstray] at h; cases h) command hcommand
    exact (hends.fault.2 (.notText hbytes hdecode)).1

end EmbeddedSql
