/-
# Rule sets come back from their files

A rule set that has passed the check is written to a file as a page of JSON, and loading the file gives the
same rule set.  Its texts may hold any characters: control characters and those of other scripts are written
by escapes, so the file is plain ASCII and nothing on the way through bytes and line ends alters it.  What is
read back is normal already, so that checking it again changes nothing.

Lone surrogates are left out, since two halves side by side are read as one character.
-/
import EmbeddedSql.Proofs.Json.Pages
import EmbeddedSql.Proofs.Rules.Normal
import EmbeddedSql.Rules.File

namespace EmbeddedSql

/-! ## Pages in files -/

namespace Utf8

theorem encodeChar_ascii {c : Char} (h : c.toNat < 0x80) :
    String.utf8EncodeChar c = [c.val.toUInt8] :=
  String.utf8EncodeChar_eq_singleton (Char.utf8Size_eq_one_iff.2 (by
    show c.val ≤ 127
    exact UInt32.le_iff_toNat_le.2 (Nat.le_of_lt_succ h)))

theorem step_ascii {c : Char} (h : c.toNat < 0x80) (rest : Bytes) :
    step c.val.toUInt8 rest = .char c 0 := by
  have hbyte : c.val.toUInt8.toNat = c.toNat := by
    show c.val.toNat % 256 = c.toNat
    exact Nat.mod_eq_of_lt (Nat.lt_trans h (by decide))
  unfold step lead
  rw [hbyte, if_pos h]
  show Step.char (Char.ofNat c.toNat) 0 = _
  rw [Char.ofNat_toNat]

/-- ASCII comes back from its bytes. -/
theorem decode_encode_ascii {cs : List Char} (h : ∀ c ∈ cs, c.toNat < 0x80) :
    decode (encode cs) = .ok cs := by
  suffices ∀ position, decodeAt position (encode cs) = .ok cs from this 0
  induction cs with
  | nil =>
      intro position
      rw [encode, List.flatMap_nil, decodeAt]
  | cons c cs ih =>
      intro position
      have hc := h c List.mem_cons_self
      have hcs := ih fun d hd => h d (List.mem_cons_of_mem _ hd)
      rw [encode, List.flatMap_cons, encodeChar_ascii hc, List.singleton_append, decodeAt,
        step_ascii hc]
      show (decodeAt _ (encode cs)).map _ = _
      rw [hcs]
      rfl

end Utf8

theorem unifyLineEnds_eq_self {cs : List Char} (h : '\r' ∉ cs) : unifyLineEnds cs = cs := by
  induction cs with
  | nil => rfl
  | cons c cs ih =>
      rw [List.mem_cons, not_or] at h
      unfold unifyLineEnds
      split
      · next heq => cases heq
      · next heq =>
          cases heq
          exact absurd rfl h.1
      · next heq =>
          cases heq
          exact absurd rfl h.1
      · next heq =>
          cases heq
          rw [ih h.2]

namespace Json

theorem IsPageChar.toNat_lt {c : Char} (h : IsPageChar c) : c.toNat < 0x80 := by
  rcases h with rfl | ⟨-, hle⟩
  · decide
  · exact Nat.lt_of_le_of_lt hle (by decide)

/-- A page that is put into a file comes out of it as the same value. -/
theorem read_page {v : Json} (h : v.ReadsBackFromPage) :
    ∃ text, Utf8.decode (Utf8.encode v.toPage.toList) = .ok text ∧ read (unifyLineEnds text) = .ok v := by
  have hpage : v.toPage.toList = pretty 0 v := String.toList_ofList
  have hreturn : '\r' ∉ pretty 0 v := fun hmem =>
    absurd (h.written 0 _ hmem) (by decide)
  refine ⟨pretty 0 v, ?_, ?_⟩
  · rw [hpage]
    exact Utf8.decode_encode_ascii fun c hc => (h.written 0 c hc).toNat_lt
  · rw [unifyLineEnds_eq_self hreturn]
    exact read_pretty h

end Json

/-! ## Rule sets -/

namespace RuleSet

/-- All texts of a rule set. -/
def texts (rules : RuleSet) : List Text :=
  rules.sqlKeywords ++ rules.plainTypes ++ rules.builderTypes
    ++ rules.sinkRules.flatMap fun rule => [rule.receiver, rule.method]

/-- No text of the rule set holds a lone surrogate. -/
def IsPlain (rules : RuleSet) : Prop := ∀ t ∈ rules.texts, t.toString?.isSome = true

instance (rules : RuleSet) : Decidable rules.IsPlain := inferInstanceAs (Decidable (∀ _ ∈ _, _))

theorem readsBackFromPage_text {t : Text} (h : t.toString?.isSome = true) :
    Json.ReadsBackFromPage (.str t) := by
  obtain ⟨s, hs⟩ := Option.isSome_iff_exists.1 h
  exact Json.readsBackFromPage_str (Text.ofString_toString? hs).symm

theorem readsBackFromPage_texts {texts : List Text} (h : ∀ t ∈ texts, t.toString?.isSome = true) :
    Json.ReadsBackFromPage (.arr (texts.map .str)) := by
  refine Json.readsBackFromPage_arr fun v hv => ?_
  obtain ⟨t, ht, rfl⟩ := List.mem_map.1 hv
  exact readsBackFromPage_text (h t ht)

/-- A member under the name of a field. -/
theorem memberReadsBack_field (name : String) {v : Json} (h : v.ReadsBackFromPage) :
    Json.MemberReadsBack (Text.ofString name, v) := ⟨⟨_, rfl⟩, h⟩

theorem readsBackFromPage_sinkRule {rule : SinkRule} (hreceiver : rule.receiver.toString?.isSome = true)
    (hmethod : rule.method.toString?.isSome = true) :
    Json.ReadsBackFromPage (sinkRuleToJson rule) := by
  have hnames : (["receiver", "method", "disposition"].map Text.ofString).Nodup := by
    decide +kernel
  refine Json.readsBackFromPage_obj (fun m hm => ?_) hnames
  simp only [List.mem_cons, List.not_mem_nil, or_false] at hm
  rcases hm with rfl | rfl | rfl
  · exact memberReadsBack_field _ (readsBackFromPage_text hreceiver)
  · exact memberReadsBack_field _ (readsBackFromPage_text hmethod)
  · exact memberReadsBack_field _ (Json.readsBackFromPage_str rfl)

theorem readsBackFromPage_toJson {rules : RuleSet} (h : rules.IsPlain) :
    Json.ReadsBackFromPage rules.toJson := by
  have hpart : ∀ t, (t ∈ rules.sqlKeywords ∨ t ∈ rules.plainTypes ∨ t ∈ rules.builderTypes
      ∨ ∃ rule ∈ rules.sinkRules, t = rule.receiver ∨ t = rule.method) →
      t.toString?.isSome = true := by
    intro t ht
    refine h t ?_
    simpa [texts, or_assoc] using ht
  have hnames :
      (["sql_keywords", "plain_types", "builder_types", "sink_rules"].map Text.ofString).Nodup := by
    decide +kernel
  refine Json.readsBackFromPage_obj (fun m hm => ?_) hnames
  simp only [List.mem_cons, List.not_mem_nil, or_false] at hm
  rcases hm with rfl | rfl | rfl | rfl
  · exact memberReadsBack_field _ (readsBackFromPage_texts fun t ht => hpart t (.inl ht))
  · exact memberReadsBack_field _ (readsBackFromPage_texts fun t ht => hpart t (.inr (.inl ht)))
  · exact memberReadsBack_field _
      (readsBackFromPage_texts fun t ht => hpart t (.inr (.inr (.inl ht))))
  · refine memberReadsBack_field _ (Json.readsBackFromPage_arr fun v hv => ?_)
    obtain ⟨rule, hrule, rfl⟩ := List.mem_map.1 hv
    exact readsBackFromPage_sinkRule
      (hpart _ (.inr (.inr (.inr ⟨rule, hrule, .inl rfl⟩))))
      (hpart _ (.inr (.inr (.inr ⟨rule, hrule, .inr rfl⟩))))

end RuleSet

theorem readRules_of_read {text : List Char} {v : Json} {rules : RuleSet}
    (hread : Json.read text = .ok v) (hchecked : RuleSet.ofJson v = .ok rules) :
    readRules text = .ok rules := by
  cases v with
  | obj members =>
      have hmembers : RuleSet.ofMembers members = .ok rules := hchecked
      simp only [readRules, hread, hmembers]
  | _ => cases hchecked

variable {σ : Type}

theorem holds_eq_ok_of_readBytes {tree : Node σ} {path : Path} {bytes : Bytes}
    (h : tree.readBytes path = .ok bytes) : tree.holds path = .ok true := by
  unfold Node.holds Node.ask
  cases hlookUp : tree.lookUp path with
  | ok node => rfl
  | error e =>
      rw [Node.readBytes, hlookUp] at h
      cases h

/-- Loading a file whose bytes can be read. -/
theorem loadRules_of_readBytes {tree : Node σ} {path : Path} {bytes : Bytes}
    (h : tree.readBytes path = .ok bytes) :
    loadRules tree path =
      match Utf8.decode bytes with
      | .error failure => .error (.notText failure)
      | .ok text => readRules (unifyLineEnds text) := by
  cases htext : Utf8.decode bytes with
  | error failure => simp only [loadRules, holds_eq_ok_of_readBytes h, h, htext]
  | ok text => simp only [loadRules, holds_eq_ok_of_readBytes h, h, htext]

/-- A rule set that has passed the check comes back from the file it was written to. -/
theorem loadRules_dump {tree : Node σ} {path : Path} {v : Json} {rules : RuleSet}
    (hchecked : RuleSet.ofJson v = .ok rules) (hplain : rules.IsPlain)
    (hfile : tree.lookUp path = .ok (.file (Utf8.encode rules.dump.toList))) :
    loadRules tree path = .ok rules := by
  have hbytes : tree.readBytes path = .ok (Utf8.encode rules.dump.toList) := by
    rw [Node.readBytes, hfile]
  obtain ⟨text, htext, hread⟩ := Json.read_page (RuleSet.readsBackFromPage_toJson hplain)
  rw [loadRules_of_readBytes hbytes, RuleSet.dump, htext]
  exact readRules_of_read hread (RuleSet.ofJson_toJson (RuleSet.isNormal_of_ofJson hchecked))

/-- Fields of a rule set whose texts are padded, change their length in upper case, or hold control
characters and a character of a higher plane. -/
def sharpFields : List (Text × Json) :=
  [("sql_keywords", .arr [.ofString " straße\x01\t", .ofString "ﬃx𝔘"]),
    ("builder_types", .arr [.ofString "\u3000Größe", .ofString " \x1f"]),
    ("sink_rules", .arr [.obj [("method", .ofString "\x00\x7f*"),
      ("disposition", .ofString "execution_sink")]])]

/-- The rule set that the check makes of them. -/
def sharpRules : RuleSet where
  sqlKeywords := ["STRASSE\x01", "FFIX𝔘"].map Text.ofString
  plainTypes := RuleSet.defaultPlainTypes
  builderTypes := [Text.ofString "Größe"]
  sinkRules := [⟨Text.ofString "*", Text.ofString "\x00\x7f*", .executionSink⟩]

theorem loadRules_dump_sharpRules :
    loadRules ((Node.directory .nil : Node Unit).write (.parse "conf/rules.json")
      (.file (Utf8.encode sharpRules.dump.toList))) (.parse "conf/rules.json") = .ok sharpRules :=
  loadRules_dump (v := .obj sharpFields) (by decide +kernel) (by decide +kernel) (by rfl)

end EmbeddedSql
