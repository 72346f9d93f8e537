/-
# A transaction is one step

A result is saved by statements that are carried out one after the other, each on what the one before it
left.  Where one of them is refused, the transaction is rolled back, however many were carried out before
it.  So the statements are either carried out all, or it is as if none had been
(`Connection.atomically_eq`).

Saving a result whose texts the database can hold is then the same as saving it in one piece
(`foldlM_saveStatements`, `Connection.save_eq`), and no other result can be saved at all
(`of_foldlM_saveStatements`).
-/
import EmbeddedSql.Proofs.Fallible
import EmbeddedSql.Store.Connection

namespace EmbeddedSql

/-! ## Binding -/

@[simp]
theorem bindText_ofString (s : String) : bindText (Text.ofString s) = .ok s := by
  rw [bindText, Text.toString?_ofString]

@[simp]
theorem bindText?_map_ofString (s : Option String) : bindText? (s.map Text.ofString) = .ok s := by
  cases s with
  | none => rfl
  | some s =>
      rw [Option.map_some, bindText?, bindText_ofString]
      rfl

theorem eq_ofString_of_bindText {t : Text} {s : String} (h : bindText t = .ok s) :
    t = Text.ofString s := by
  unfold bindText at h
  split at h
  · next found hs =>
      cases h
      exact (Text.ofString_toString? hs).symm
  · cases h

theorem eq_map_of_bindText? {t : Option Text} {s : Option String} (h : bindText? t = .ok s) :
    t = s.map Text.ofString := by
  cases t with
  | none =>
      cases h
      rfl
  | some t =>
      obtain ⟨found, hs, rfl⟩ := ok_of_map_eq_ok h
      rw [eq_ofString_of_bindText hs]
      rfl

/-! ## Findings -/

variable {runId filePath hash : String} {ordinal : Nat}

/-- A candidate of which the database can hold the texts is a finding as it would be in one piece. -/
theorem finding_given (c : Candidate) :
    c.given.finding runId filePath hash ordinal =
      Store.findingOf runId filePath hash ordinal c := by
  unfold GivenCandidate.finding Store.findingOf Candidate.given bindNumber
  dsimp only
  rw [bindText_ofString, bindText]
  cases isWord64 c.startLine with
  | false => rfl
  | true =>
      cases isWord64 c.endLine with
      | false => rfl
      | true =>
          cases c.text.toString? with
          | none => rfl
          | some text => rfl

/-- What becomes a finding has texts that the database can hold. -/
theorem exists_given_of_finding {c : GivenCandidate} {f : Finding}
    (h : c.finding runId filePath hash ordinal = .ok f) : ∃ d : Candidate, c = d.given := by
  obtain ⟨startLine, -, h⟩ := ok_of_bind_eq_ok h
  obtain ⟨endLine, -, h⟩ := ok_of_bind_eq_ok h
  obtain ⟨text, -, h⟩ := ok_of_bind_eq_ok h
  obtain ⟨content, hcontent, -⟩ := ok_of_bind_eq_ok h
  obtain ⟨text', startLine', endLine', origin, disposition, statements, content', hne⟩ := c
  obtain rfl := eq_ofString_of_bindText hcontent
  exact ⟨⟨text', startLine', endLine', origin, disposition, statements, content, hne⟩, rfl⟩

variable {s s' : Store}

theorem referTo_some (h : (s.run? runId).isSome = true) : s.referTo (some runId) = .ok runId :=
  if_pos h

theorem referTo_none (h : s.run? runId = none) : s.referTo (some runId) = .error .unknownRun :=
  if_neg (by rw [h]; decide)

theorem run_addFinding (h : (s.run? runId).isSome = true) (c : Candidate) :
    Statement.run s (.addFinding (Text.ofString runId) (Text.ofString filePath)
        (Text.ofString hash) ordinal c.given) =
      (Store.findingOf runId filePath hash ordinal c).map fun f =>
        { s with findings := s.findings ++ [f] } := by
  rw [Statement.run, bindText_ofString, bindText_ofString, bindText_ofString]
  dsimp only [bind, Except.bind]
  rw [finding_given]
  cases Store.findingOf runId filePath hash ordinal c with
  | error e => rfl
  | ok f =>
      dsimp only
      rw [referTo_some h]
      rfl

theorem foldlM_addFindings (h : (s.run? runId).isSome = true) (cs : List Candidate) :
    (addFindings (Text.ofString runId) (Text.ofString filePath) (Text.ofString hash) ordinal
        (cs.map Candidate.given)).foldlM Statement.run s =
      (Store.findingsOf runId filePath hash ordinal cs).map fun added =>
        { s with findings := s.findings ++ added } := by
  induction cs generalizing s ordinal with
  | nil =>
      change Except.ok s = Except.ok { s with findings := s.findings ++ [] }
      rw [List.append_nil]
  | cons c cs ih =>
      rw [List.map_cons, addFindings, List.foldlM_cons, run_addFinding h, Store.findingsOf]
      cases Store.findingOf runId filePath hash ordinal c with
      | error e => rfl
      | ok f =>
          refine (ih (s := { s with findings := s.findings ++ [f] }) h).trans ?_
          change _ = (Store.findingsOf runId filePath hash (ordinal + 1) cs >>= fun fs =>
            .ok (f :: fs)).map _
          cases Store.findingsOf runId filePath hash (ordinal + 1) cs with
          | error e => rfl
          | ok fs =>
              change Except.ok { s with findings := s.findings ++ [f] ++ fs } =
                Except.ok { s with findings := s.findings ++ f :: fs }
              rw [List.append_assoc]
              rfl

theorem run_deleteFindings :
    Statement.run s (.deleteFindings (Text.ofString filePath) (Text.ofString hash)) =
      .ok { s with findings := s.findings.filter fun f =>
              Store.isOther filePath hash f.filePath f.contentHash } := by
  rw [Statement.run, bindText_ofString, bindText_ofString]
  rfl

theorem run_putFile (runId error : Option String) :
    Statement.run s (.putFile (Text.ofString filePath) (Text.ofString hash)
        (runId.map Text.ofString) (error.map Text.ofString)) =
      (s.referTo runId).map fun id =>
        { s with files := s.files.filter (fun f =>
                   Store.isOther filePath hash f.filePath f.contentHash)
                 ++ [⟨filePath, hash, id, error⟩] } := by
  rw [Statement.run, bindText_ofString, bindText_ofString, bindText?_map_ofString,
    bindText?_map_ofString]
  dsimp only [bind, Except.bind]
  cases s.referTo runId <;> rfl

/-- Statement by statement, or in one piece. -/
theorem foldlM_saveStatements {r : ScanResult} (hr : r.contentHash = some hash)
    (runId : Option String) :
    (saveStatements (runId.map Text.ofString) r.given (Text.ofString hash)).foldlM Statement.run s =
      s.save runId r := by
  rw [saveStatements, List.foldlM_cons, ScanResult.given, run_deleteFindings, Store.save.eq_def, hr]
  change List.foldlM Statement.run { s with findings := _ } _ = _
  rw [List.foldlM_cons, run_putFile]
  cases runId with
  | none => rfl
  | some runId =>
      change ((s.referTo (some runId)).map _ >>= _) = _
      dsimp only
      cases hrun : s.run? runId with
      | none =>
          rw [referTo_none hrun]
          rfl
      | some run =>
          have hthere : ∀ files findings,
              (Store.run? { s with files, findings } runId).isSome = true := fun _ _ =>
            Option.isSome_iff_exists.2 ⟨run, hrun⟩
          rw [referTo_some (hthere s.files s.findings)]
          refine (foldlM_addFindings (hthere _ _) r.candidates).trans ?_
          cases Store.findingsOf runId r.filePath hash 0 r.candidates with
          | error e => rfl
          | ok added => rfl

/-! ## What can be saved -/

/-- What is saved has texts that the database can hold. -/
theorem exists_given_of_addFindings {runId filePath hash : Text} {cs : List GivenCandidate}
    (h : (addFindings runId filePath hash ordinal cs).foldlM Statement.run s = .ok s') :
    ∃ ds : List Candidate, cs = ds.map Candidate.given := by
  induction cs generalizing s ordinal with
  | nil => exact ⟨[], rfl⟩
  | cons c cs ih =>
      rw [addFindings, List.foldlM_cons] at h
      obtain ⟨next, hadd, h⟩ := ok_of_bind_eq_ok h
      obtain ⟨ds, rfl⟩ := ih h
      obtain ⟨id, -, hadd⟩ := ok_of_bind_eq_ok hadd
      obtain ⟨path, -, hadd⟩ := ok_of_bind_eq_ok hadd
      obtain ⟨digest, -, hadd⟩ := ok_of_bind_eq_ok hadd
      obtain ⟨f, hf, -⟩ := ok_of_bind_eq_ok hadd
      obtain ⟨d, rfl⟩ := exists_given_of_finding hf
      exact ⟨d :: ds, rfl⟩

theorem of_foldlM_saveStatements {runId : Option Text} {r : GivenResult} {hash : Text}
    (hr : r.contentHash = some hash)
    (h : (saveStatements runId r hash).foldlM Statement.run s = .ok s') :
    ∃ (id digest : String) (result : ScanResult), runId = some (Text.ofString id) ∧
      hash = Text.ofString digest ∧ r = result.given ∧ result.contentHash = some digest ∧
      s.save (some id) result = .ok s' := by
  have hsaved := h
  rw [saveStatements, List.foldlM_cons] at h
  obtain ⟨kept, -, h⟩ := ok_of_bind_eq_ok h
  rw [List.foldlM_cons] at h
  obtain ⟨next, hput, h⟩ := ok_of_bind_eq_ok h
  obtain ⟨path, hpath, hput⟩ := ok_of_bind_eq_ok hput
  obtain ⟨digest, hdigest, hput⟩ := ok_of_bind_eq_ok hput
  obtain ⟨id?, hid, hput⟩ := ok_of_bind_eq_ok hput
  obtain ⟨error, herror, hput⟩ := ok_of_bind_eq_ok hput
  obtain ⟨id, hrefer, -⟩ := ok_of_bind_eq_ok hput
  obtain rfl := eq_map_of_bindText? hid
  obtain rfl := eq_ofString_of_bindText hdigest
  cases id? with
  | none => cases hrefer
  | some runId =>
      obtain ⟨ds, hds⟩ := exists_given_of_addFindings h
      have hgiven : r = ScanResult.given ⟨path, ds, some digest, error⟩ := by
        obtain ⟨path', cs, hash', error'⟩ := r
        dsimp only at hr hds hpath herror
        rw [hr, hds, eq_ofString_of_bindText hpath, eq_map_of_bindText? herror]
        rfl
      refine ⟨runId, digest, ⟨path, ds, some digest, error⟩, rfl, rfl, hgiven, rfl, ?_⟩
      rw [hgiven] at hsaved
      exact (foldlM_saveStatements rfl (some runId)).symm.trans hsaved

/-! ## Transactions -/

namespace Connection

variable {c c' : Connection} {statements : List Statement}

theorem update_ok {α : Type} {a : α}
    {f : Store → Except StoreError (α × Store)} (h : c.update f = .ok (a, c')) :
    f c.store = .ok (a, c'.store) := by
  unfold update at h
  split at h
  · cases h
  · split at h
    · cases h
    · next heq =>
        cases h
        exact heq

theorem execute_eq (hopen : c.isOpen = true) (statement : Statement) :
    c.execute statement = (statement.run c.store).map fun store => { c with store } := by
  rw [execute, if_neg (by rw [hopen]; decide)]

/-- Statements that are carried out one after the other, up to the first that is refused, leave some store,
and nothing else changes. -/
theorem executeAll_eq (hopen : c.isOpen = true) (statements : List Statement) :
    match statements.foldlM Statement.run c.store with
    | .error e => ∃ store, c.executeAll statements = (.error e, { c with store })
    | .ok store => c.executeAll statements = (.ok (), { c with store }) := by
  induction statements generalizing c with
  | nil => rfl
  | cons statement rest ih =>
      rw [List.foldlM_cons, executeAll, execute_eq hopen]
      cases statement.run c.store with
      | error e => exact ⟨c.store, rfl⟩
      | ok store => exact ih (c := { c with store }) hopen

/-- All statements, or none: where one of them is refused, everything is as it was. -/
theorem atomically_eq (hopen : c.isOpen = true) (hidle : c.transaction = none)
    (statements : List Statement) :
    c.atomically statements =
      match statements.foldlM Statement.run c.store with
      | .error e => (.error e, c)
      | .ok store => (.ok (), { c with store }) := by
  have hbegin : c.begin = .ok { c with transaction := some c.store } := by
    rw [begin, hopen, hidle]
    rfl
  have hrun := executeAll_eq (c := { c with transaction := some c.store }) hopen statements
  obtain ⟨store, isOpen, transaction⟩ := c
  dsimp only at hopen hidle hrun ⊢
  subst hopen hidle
  rw [atomically, hbegin]
  dsimp only
  cases hfold : statements.foldlM Statement.run store with
  | error e =>
      rw [hfold] at hrun
      obtain ⟨left, hrun⟩ := hrun
      rw [hrun]
      rfl
  | ok after =>
      rw [hfold] at hrun
      dsimp only at hrun
      rw [hrun]
      rfl

/-- A transaction that was committed was the only one. -/
theorem of_atomically_ok (h : c.atomically statements = (.ok (), c')) :
    c.isOpen = true ∧ c.transaction = none ∧
      statements.foldlM Statement.run c.store = .ok c'.store ∧ c' = { c with store := c'.store } := by
  have hbegins : ∃ d, c.begin = .ok d := by
    cases hbegin : c.begin with
    | error e =>
        rw [atomically, hbegin] at h
        cases h
    | ok d => exact ⟨d, rfl⟩
  obtain ⟨hopen, hidle⟩ : c.isOpen = true ∧ c.transaction = none := by
    obtain ⟨d, hbegin⟩ := hbegins
    unfold begin at hbegin
    split at hbegin
    · cases hbegin
    · next hopen =>
        split at hbegin
        · next hidle => exact ⟨by simpa using hopen, hidle⟩
        · cases hbegin
  refine ⟨hopen, hidle, ?_⟩
  rw [atomically_eq hopen hidle] at h
  split at h
  · cases h
  · next hfold =>
      cases h
      exact ⟨hfold, rfl⟩

theorem attemptSave_eq (hopen : c.isOpen = true) (hidle : c.transaction = none)
    {runId : Option Text} {r : GivenResult} {hash : Text} (hr : r.contentHash = some hash) :
    c.attemptSave runId r =
      match (saveStatements runId r hash).foldlM Statement.run c.store with
      | .error e => (.error e, c)
      | .ok store => (.ok (), { c with store }) := by
  rw [attemptSave, hr]
  exact atomically_eq hopen hidle _

/-- What an attempt to save can come to: there is nothing to save, it is refused and changes nothing, or all
of its statements are carried out. -/
theorem attemptSave_cases (hidle : c.transaction = none) (runId : Option Text) (r : GivenResult) :
    (r.contentHash = none ∧ c.attemptSave runId r = (.ok (), c)) ∨
      (∃ e, c.attemptSave runId r = (.error e, c)) ∨
      ∃ hash store, r.contentHash = some hash ∧
        (saveStatements runId r hash).foldlM Statement.run c.store = .ok store ∧
        c.attemptSave runId r = (.ok (), { c with store }) := by
  cases hr : r.contentHash with
  | none => exact .inl ⟨rfl, by rw [attemptSave, hr]⟩
  | some hash =>
      right
      by_cases hopen : c.isOpen = true
      · rw [attemptSave_eq hopen hidle hr]
        cases hfold : (saveStatements runId r hash).foldlM Statement.run c.store with
        | error e => exact .inl ⟨e, rfl⟩
        | ok store => exact .inr ⟨hash, store, rfl, hfold, rfl⟩
      · refine .inl ⟨.closed, ?_⟩
        rw [attemptSave, hr]
        dsimp only
        rw [atomically, begin, Bool.eq_false_iff.2 hopen]
        rfl

/-- Saving through an open connection is saving in one piece, or is refused for the same reason. -/
theorem save_eq (hopen : c.isOpen = true) (hidle : c.transaction = none) (runId : Option String)
    (r : ScanResult) :
    c.save runId r = (c.store.save runId r).map fun store => { c with store } := by
  rw [save]
  cases hr : r.contentHash with
  | none =>
      rw [attemptSave, ScanResult.given, hr, Store.save.eq_def, hr]
      rfl
  | some hash =>
      have hgiven : r.given.contentHash = some (Text.ofString hash) := by
        rw [ScanResult.given, hr]
        rfl
      rw [attemptSave_eq hopen hidle hgiven, foldlM_saveStatements hr]
      cases c.store.save runId r <;> rfl

/-- A saved result has been saved in one piece. -/
theorem store_of_save {runId : Option String} {r : ScanResult} (hr : r.contentHash = some hash)
    (h : c.save runId r = .ok c') : c.store.save runId r = .ok c'.store := by
  unfold save attemptSave at h
  rw [ScanResult.given, hr] at h
  dsimp only [Option.map_some] at h
  split at h
  · cases h
  · next hsaved =>
      cases h
      obtain ⟨-, -, hfold, -⟩ := of_atomically_ok hsaved
      rw [← foldlM_saveStatements hr, ScanResult.given, hr]
      exact hfold

end Connection

end EmbeddedSql
