import JoinPlan.Plan.Expansion
import JoinPlan.Proofs.Filter.Tokens

/-!
# What criteria ask, entry by entry

A filter entry is matched at one place of the type's own documents, its slot, or nowhere.
This file supplies `ofEntry_of_slot`: the slot and the tokens are all that the criteria of an
entry depend on.

> `slot?`: the path that a key is matched at, with the type that its tokens are read
> under; none for paths, for undeclared keys and for relations matched on the joined
> document.

Hence criteria hold of a document when every entry with a slot has a token that holds
there (`holds_ofFilter`).
-/

namespace JoinPlan.Condition

/-- Where a filter entry is matched on the type's own documents, and under which type. -/
def slot? (schema : Schema) (key : String) : Option (String × Option ScalarType) :=
  if key.toList.contains '/' then none
  else
    match schema.attribute? key with
    | none => none
    | some ⟨.scalar type, _⟩ => some (key, some type)
    | some ⟨.relation relation, _⟩ =>
      match relation.traversalKey with
      | none => some (key ++ "." ++ referenceKey, none)
      | some _ => none

/-- The keys with a slot: scalars, and relations without a traversal key. -/
theorem slot?_eq_some_iff {schema : Schema} {key path : String} {type : Option ScalarType} :
    slot? schema key = some (path, type) ↔ '/' ∉ key.toList ∧
      ((∃ scalar inherited, schema.attribute? key = some ⟨.scalar scalar, inherited⟩ ∧
          path = key ∧ type = some scalar) ∨
        ∃ relation inherited, schema.attribute? key = some ⟨.relation relation, inherited⟩ ∧
          relation.traversalKey = none ∧ path = key ++ "." ++ referenceKey ∧ type = none) := by
  unfold slot?
  by_cases hslash : '/' ∈ key.toList
  · rw [if_pos (List.contains_iff_mem.mpr hslash)]
    simp [hslash]
  · rw [if_neg (mt List.contains_iff_mem.mp hslash)]
    cases hattribute : schema.attribute? key with
    | none => simp
    | some a =>
      obtain ⟨kind, inherited⟩ := a
      cases kind with
      | scalar scalar => simp [hslash, eq_comm]
      | relation relation =>
        cases hkey : relation.traversalKey <;> simp [hslash, hkey, eq_comm]

/-- Without a type every token is read. -/
theorem exists_ofTokens_untyped (path : String) (tokens : List String) :
    ∃ condition, ofTokens path tokens none = .ok condition := by
  have hpredicates : ∃ predicates, tokens.mapM (Predicate.ofToken · none) = .ok predicates := by
    induction tokens with
    | nil => exact ⟨[], rfl⟩
    | cons token rest ih =>
      obtain ⟨predicates, hrest⟩ := ih
      rw [List.mapM_cons, hrest]
      exact ⟨_ :: predicates, rfl⟩
  obtain ⟨predicates, h⟩ := hpredicates
  unfold ofTokens
  rw [h]
  exact ⟨_, rfl⟩

theorem tokens?_of_isEmpty {value : FilterValue} (h : value.isEmpty = true) :
    value.tokens? = some [] := by
  unfold FilterValue.isEmpty at h
  split at h
  · rfl
  · cases h

theorem tokens?_ne_of_not_isEmpty {value : FilterValue} (h : ¬value.isEmpty = true) :
    value.tokens? ≠ some [] := by
  intro htokens
  cases value with
  | one token => cases htokens
  | many tokens =>
    obtain rfl : tokens = [] := Option.some.inj htokens
    exact h rfl
  | nested members => cases htokens

/-- An entry without a slot is passed over. -/
theorem ofEntry_of_slot_none {schema : Schema} {key : String} (h : slot? schema key = none)
    (value : FilterValue) : ofEntry schema key value = .ok none := by
  unfold ofEntry
  unfold slot? at h
  split at h
  · next hslash => rw [if_pos (by rw [hslash, Bool.true_or])]
  · by_cases hempty : (key.toList.contains '/' || value.isEmpty) = true
    · rw [if_pos hempty]
    · rw [if_neg hempty]
      cases hattribute : schema.attribute? key with
      | none => rfl
      | some a =>
        obtain ⟨kind, inherited⟩ := a
        cases kind with
        | scalar type => simp [hattribute] at h
        | relation relation =>
          cases hkey : relation.traversalKey with
          | none => simp [hattribute, hkey] at h
          | some traversal => simp [hkey]

/-- An entry with a slot is matched there: nowhere when it has no tokens, and an object is
refused where values have a type. -/
theorem ofEntry_of_slot {schema : Schema} {key path : String} {type : Option ScalarType}
    (h : slot? schema key = some (path, type)) (value : FilterValue) :
    ofEntry schema key value =
      match value.tokens?, type with
      | some [], _ | none, none => .ok none
      | none, some type => .error ⟨key, type.name, "<object>"⟩
      | some tokens, type => ((ofTokens path tokens type).mapError (·.orField key)).map some := by
  unfold ofEntry
  unfold slot? at h
  split at h
  · cases h
  · next hslash =>
    rw [Bool.not_eq_true] at hslash
    -- An empty list is passed over before the attribute is looked at.
    by_cases hempty : value.isEmpty = true
    · rw [if_pos (by rw [hempty, Bool.or_true]), tokens?_of_isEmpty hempty]
    · have hne := tokens?_ne_of_not_isEmpty hempty
      rw [if_neg (by rw [hslash, Bool.false_or]; exact hempty)]
      cases hattribute : schema.attribute? key with
      | none => simp [hattribute] at h
      | some a =>
        obtain ⟨kind, inherited⟩ := a
        cases kind with
        | scalar scalar =>
          obtain ⟨rfl, rfl⟩ : key = path ∧ some scalar = type := by simpa [hattribute] using h
          cases htokens : value.tokens? with
          | none => rfl
          | some tokens =>
            cases tokens with
            | nil => exact absurd htokens hne
            | cons token rest => rfl
        | relation relation =>
          cases hkey : relation.traversalKey with
          | some traversal => simp [hattribute, hkey] at h
          | none =>
            obtain ⟨rfl, rfl⟩ : key ++ "." ++ referenceKey = path ∧ none = type := by
              simpa [hattribute, hkey] using h
            cases htokens : value.tokens? with
            | none => simp [hkey]
            | some tokens =>
              cases tokens with
              | nil => exact absurd htokens hne
              | cons token rest =>
                obtain ⟨condition, hcondition⟩ :=
                  exists_ofTokens_untyped (key ++ "." ++ referenceKey) (token :: rest)
                simp only [hkey, hcondition]
                rfl

/-! ## When criteria hold -/

/-- Parts together hold when each of them does. -/
theorem holds_conj [PatternLimit] (document : Value) (parts : List Condition) :
    (conj parts).holds document = parts.all (·.holds document) := by
  have hparts : parts.all (·.holds document) =
      (parts.filter (!·.isAlways)).all (·.holds document) := by
    rw [List.all_filter]
    refine List.all_congr rfl fun part => ?_
    cases halways : part.isAlways with
    | true => rw [holds_of_isAlways halways]; rfl
    | false => rfl
  rw [hparts]
  unfold conj
  split
  · next hnil => rw [hnil, holds, List.all_nil]
  · next part hpart => rw [hpart, List.all_cons, List.all_nil, Bool.and_true]
  · rw [holds, allHold_eq_all]

/-- Whether a document meets what an entry asks of it. -/
def entryHolds [PatternLimit] (schema : Schema) (document : Value)
    (entry : String × FilterValue) : Bool :=
  match slot? schema entry.1, FilterValue.alternatives? (some entry.2) with
  | some (path, type), some tokens => tokens.any (tokenHolds path type document)
  | _, _ => true

/-- The criteria of an entry hold of the documents that meet it. -/
theorem holds_ofEntry [PatternLimit] {schema : Schema} {entry : String × FilterValue}
    {part : Option Condition} (h : ofEntry schema entry.1 entry.2 = .ok part) (document : Value) :
    part.all (·.holds document) = entryHolds schema document entry := by
  unfold entryHolds FilterValue.alternatives?
  cases hslot : slot? schema entry.1 with
  | none =>
    rw [ofEntry_of_slot_none hslot] at h
    obtain rfl := Except.ok.inj h
    rfl
  | some slot =>
    obtain ⟨path, type⟩ := slot
    rw [ofEntry_of_slot hslot] at h
    rw [Option.bind_some]
    cases htokens : entry.2.tokens? with
    | none =>
      rw [htokens] at h
      cases type with
      | none =>
        obtain rfl := Except.ok.inj h
        rfl
      | some type => cases h
    | some tokens =>
      rw [htokens] at h
      cases tokens with
      | nil =>
        obtain rfl := Except.ok.inj h
        rfl
      | cons token rest =>
        simp only at h
        cases hcondition : ofTokens path (token :: rest) type with
        | error failure =>
          rw [hcondition] at h
          cases h
        | ok condition =>
          rw [hcondition] at h
          obtain rfl := Except.ok.inj h
          exact holds_ofTokens hcondition document

/-- Criteria are the parts of the entries together. -/
theorem exists_parts_of_ofFilter {schema : Schema} {filter : Filter} {criteria : Condition}
    (h : ofFilter schema filter = .ok criteria) :
    ∃ parts, List.Forall₂ (fun entry part => ofEntry schema entry.1 entry.2 = .ok part)
        filter.entries parts ∧
      criteria = conj (parts.filterMap id) := by
  unfold ofFilter at h
  simp only [bind, Except.bind, pure, Except.pure] at h
  split at h
  · cases h
  · next parts hparts => exact ⟨parts, forall₂_of_mapM_ok hparts, (Except.ok.inj h).symm⟩

/-- Criteria hold of the documents that meet every entry of the filter. -/
theorem holds_ofFilter [PatternLimit] {schema : Schema} {filter : Filter} {criteria : Condition}
    (h : ofFilter schema filter = .ok criteria) (document : Value) :
    criteria.holds document = filter.entries.all (entryHolds schema document) := by
  obtain ⟨parts, hparts, rfl⟩ := exists_parts_of_ofFilter h
  rw [holds_conj]
  clear h
  generalize filter.entries = entries at hparts ⊢
  induction hparts with
  | nil => rfl
  | @cons entry part entries parts hpart _ ih =>
    rw [List.all_cons, ← ih, ← holds_ofEntry hpart]
    cases part <;> simp

end JoinPlan.Condition
