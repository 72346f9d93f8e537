/-
# Normal rule sets

Checking a rule set brings it into a normal form: there are keywords, each trimmed and in upper case, and
each type name is trimmed and not blank.  The two halves of a round trip meet here.

* Every rule set that passes the check is normal, also where it keeps standard values
  (`isNormal_of_ofJson`).
* A normal rule set, written as JSON, passes the check and comes out unchanged (`ofJson_toJson`).
-/
import EmbeddedSql.Proofs.Fallible
import EmbeddedSql.Proofs.Text.UpperCase
import EmbeddedSql.Rules.Validation

namespace EmbeddedSql

/-! ## Checks of several parts -/

namespace Validated

variable {α β : Type}

theorem both_eq_ok {u : Validated α} {v : Validated β} {a : α} {b : β}
    (h : both u v = .ok (a, b)) : u = .ok a ∧ v = .ok b := by
  cases u with
  | error fs => cases v <;> cases h
  | ok a =>
      cases v with
      | error gs => cases h
      | ok b =>
          cases h
          exact ⟨rfl, rfl⟩

/-- If each item passes its own check, all of them pass together. -/
theorem all_mapIdx_ok {item : β → Json} {xs : List β} (read : Nat → Json → Validated β)
    (h : ∀ i, ∀ x ∈ xs, read i (item x) = .ok x) :
    all ((xs.map item).mapIdx read) = .ok xs := by
  induction xs generalizing read with
  | nil => rfl
  | cons x xs ih =>
      have hrest := ih (fun i => read (i + 1)) fun i y hy =>
        h (i + 1) y (List.mem_cons_of_mem _ hy)
      rw [List.map_cons, List.mapIdx_cons, all, hrest, h 0 x List.mem_cons_self]
      rfl

end Validated

namespace RuleSet

/-! ## The normal form -/

/-- A keyword as the check leaves it: trimmed and in upper case. -/
def IsKeyword (k : Text) : Prop := Text.upper (trim CodePoint.isBlank k) = k

/-- A type name as the check leaves it: trimmed and not blank. -/
def IsTypeName (t : Text) : Prop := trim CodePoint.isBlank t = t ∧ t ≠ []

instance (k : Text) : Decidable (IsKeyword k) := inferInstanceAs (Decidable (_ = _))

instance (t : Text) : Decidable (IsTypeName t) := inferInstanceAs (Decidable (_ ∧ _))

structure IsNormal (rules : RuleSet) : Prop where
  hasKeywords : rules.sqlKeywords ≠ []
  keyword : ∀ k ∈ rules.sqlKeywords, IsKeyword k
  plainType : ∀ t ∈ rules.plainTypes, IsTypeName t
  builderType : ∀ t ∈ rules.builderTypes, IsTypeName t

theorem isKeyword_upper_trim (k : Text) : IsKeyword (Text.upper (trim CodePoint.isBlank k)) := by
  have htrimmed := Text.isTrimmed_upper (isTrimmed_trim CodePoint.isBlank k)
  unfold IsKeyword
  rw [trim_eq_self htrimmed, Text.upper_upper]

theorem isNormal_standard : standard.IsNormal where
  hasKeywords := List.cons_ne_nil _ _
  keyword := by decide +kernel
  plainType := by decide +kernel
  builderType := by decide +kernel

/-! ## What passes the check is normal -/

theorem readField_eq_ok {α : Type} {place : List PlaceStep} {members : List (Text × Json)}
    {name : String} {read : List PlaceStep → Json → Validated α} {missing : Validated α} {a : α}
    (h : readField place members name read missing = .ok a) :
    (∃ place v, read place v = .ok a) ∨ missing = .ok a := by
  unfold readField at h
  split at h
  · exact .inl ⟨_, _, h⟩
  · exact .inr h

theorem isKeyword_of_readKeywords {place : List PlaceStep} {v : Json} {keywords : List Text}
    (h : readKeywords place v = .ok keywords) :
    keywords ≠ [] ∧ ∀ k ∈ keywords, IsKeyword k := by
  unfold readKeywords at h
  split at h
  · cases h
  · next names hne _ =>
      cases h
      refine ⟨fun hnil => hne (List.map_eq_nil_iff.1 hnil), fun k hk => ?_⟩
      obtain ⟨name, -, rfl⟩ := List.mem_map.1 hk
      exact isKeyword_upper_trim name
  · cases h

theorem isTypeName_of_readTypes {place : List PlaceStep} {v : Json} {types : List Text}
    (h : readTypes place v = .ok types) : ∀ t ∈ types, IsTypeName t := by
  obtain ⟨names, -, rfl⟩ := ok_of_map_eq_ok h
  intro t ht
  obtain ⟨hmem, hne⟩ := List.mem_filter.1 ht
  obtain ⟨name, -, rfl⟩ := List.mem_map.1 hmem
  exact ⟨trim_trim CodePoint.isBlank name, of_decide_eq_true hne⟩

theorem isNormal_of_ofMembers {members : List (Text × Json)} {rules : RuleSet}
    (h : ofMembers members = .ok rules) : rules.IsNormal := by
  obtain ⟨⟨keywords, plain, builders, sinks⟩, hall, rfl⟩ := ok_of_map_eq_ok h
  obtain ⟨hkeywords, hrest⟩ := Validated.both_eq_ok hall
  obtain ⟨hplain, hrest⟩ := Validated.both_eq_ok hrest
  obtain ⟨hbuilders, -⟩ := Validated.both_eq_ok hrest
  have hkeyword : keywords ≠ [] ∧ ∀ k ∈ keywords, IsKeyword k := by
    rcases readField_eq_ok hkeywords with ⟨_, _, hread⟩ | hstandard
    · exact isKeyword_of_readKeywords hread
    · cases hstandard
      exact ⟨isNormal_standard.hasKeywords, isNormal_standard.keyword⟩
  refine ⟨hkeyword.1, hkeyword.2, ?_, ?_⟩
  · rcases readField_eq_ok hplain with ⟨_, _, hread⟩ | hstandard
    · exact isTypeName_of_readTypes hread
    · cases hstandard
      exact isNormal_standard.plainType
  · rcases readField_eq_ok hbuilders with ⟨_, _, hread⟩ | hstandard
    · exact isTypeName_of_readTypes hread
    · cases hstandard
      exact isNormal_standard.builderType

theorem isNormal_of_ofJson {v : Json} {rules : RuleSet} (h : ofJson v = .ok rules) :
    rules.IsNormal := by
  cases v with
  | obj members => exact isNormal_of_ofMembers h
  | _ => cases h

/-! ## What is normal passes the check -/

theorem readField_of_member? {α : Type} {members : List (Text × Json)} (name : String) {v : Json}
    (hmember : Json.member? (Text.ofString name) members = some v)
    {read : List PlaceStep → Json → Validated α} {a : α} (hread : ∀ place, read place v = .ok a)
    (place : List PlaceStep) (missing : Validated α) :
    readField place members name read missing = .ok a := by
  rw [readField, hmember]
  exact hread _

theorem readArray_map {α : Type} {read : List PlaceStep → Json → Validated α} (item : α → Json)
    (xs : List α) (h : ∀ place, ∀ x ∈ xs, read place (item x) = .ok x) (place : List PlaceStep) :
    readArray read place (.arr (xs.map item)) = .ok xs :=
  Validated.all_mapIdx_ok _ fun _ x hx => h _ x hx

theorem readTexts_map_str (texts : List Text) (place : List PlaceStep) :
    readArray readText place (.arr (texts.map .str)) = .ok texts :=
  readArray_map .str texts (fun _ _ _ => rfl) place

theorem readKeywords_map_str {keywords : List Text} (hne : keywords ≠ [])
    (h : ∀ k ∈ keywords, IsKeyword k) (place : List PlaceStep) :
    readKeywords place (.arr (keywords.map .str)) = .ok keywords := by
  obtain ⟨first, others, rfl⟩ := List.exists_cons_of_ne_nil hne
  unfold readKeywords
  rw [readTexts_map_str]
  exact congrArg Except.ok ((List.map_congr_left h).trans (List.map_id' _))

theorem readTypes_map_str {types : List Text} (h : ∀ t ∈ types, IsTypeName t)
    (place : List PlaceStep) : readTypes place (.arr (types.map .str)) = .ok types := by
  have htrim : types.map (trim CodePoint.isBlank) = types :=
    (List.map_congr_left fun t ht => (h t ht).1).trans (List.map_id' _)
  unfold readTypes
  rw [readTexts_map_str]
  show Except.ok ((types.map (trim CodePoint.isBlank)).filter (· ≠ [])) = _
  rw [htrim, List.filter_eq_self.2 fun t ht => decide_eq_true (h t ht).2]

theorem readClass_name (c : CallClass) (place : List PlaceStep) :
    readClass place (.ofString c.name) = .ok c := by
  unfold readClass Json.ofString
  simp only [CallClass.ofName?_name]

theorem readSinkRule_toJson (rule : SinkRule) (place : List PlaceStep) :
    readSinkRule place (sinkRuleToJson rule) = .ok rule := by
  unfold readSinkRule sinkRuleToJson
  dsimp only
  rw [readField_of_member? "receiver" (a := rule.receiver) rfl fun _ => rfl,
    readField_of_member? "method" (a := rule.method) rfl fun _ => rfl,
    readField_of_member? "disposition" rfl (readClass_name rule.disposition)]
  rfl

/-- A normal rule set, written as JSON, passes the check and comes out as it was. -/
theorem ofJson_toJson {rules : RuleSet} (h : rules.IsNormal) : ofJson rules.toJson = .ok rules := by
  have hsinks := readArray_map sinkRuleToJson rules.sinkRules fun place rule _ =>
    readSinkRule_toJson rule place
  show ofMembers _ = _
  unfold ofMembers
  rw [readField_of_member? "sql_keywords" rfl
      (readKeywords_map_str h.hasKeywords h.keyword),
    readField_of_member? "plain_types" rfl (readTypes_map_str h.plainType),
    readField_of_member? "builder_types" rfl (readTypes_map_str h.builderType),
    readField_of_member? "sink_rules" rfl hsinks]
  rfl

end RuleSet

end EmbeddedSql
