import JoinPlan.Proofs.Filter.Faults
import JoinPlan.Proofs.Plan.Layout

/-!
# Why a request is refused

Three compilers read a filter, each in its own way: the criteria, the relations joined on
their traversal keys, and the extra paths. What one of them passes over without a word
another may refuse. This file supplies which requests are refused, and for what.

> `firstFault?`: the failure that a filter is refused with, read off the schema, the
> entries and the filter.

A draft has no part in the failures of a step, so the expansion fails with the first
failure of its relations, and then of its entries (`faultOf_expand`). What a failure comes
from is told by `RefusesCriteria`, `RefusesRelation` and `RefusesPath`.
-/

namespace JoinPlan

/-- The filter value has a token with an operand that the type does not accept. -/
def FilterValue.Miscast (value : FilterValue) (type : ScalarType) : Prop :=
  ∃ tokens, value.tokens? = some tokens ∧
    ∃ token ∈ tokens, type.cast? (Condition.operandOf token) = none

/-! ## The failures of a step -/

/-- The failure of a demand, in the name of an owner. -/
def Demand.fault? (owner : String) (d : Demand) : Option CastFailure :=
  d.tokens.findSome? (Condition.castFault? owner d.type)

theorem Draft.faultOf_withFilter (d : Draft) (target : Option Schema)
    (asName field owner : String) (tokens : Option (List String)) :
    (faultOf (d.withFilter target asName field owner tokens)).map Refusal.failure =
      (Demand.ofTokens? asName field target tokens).findSome? (Demand.fault? owner) := by
  unfold Draft.withFilter
  cases tokens with
  | none => rfl
  | some tokens =>
    let type := (target.bind (·.attribute? field)).bind (·.scalarType?)
    have howned := Condition.faultOf_ofTokens_orField (asName ++ "." ++ field) owner tokens type
    show _ = [(⟨asName, field, tokens, type⟩ : Demand)].findSome? (Demand.fault? owner)
    rw [List.findSome?_singleton, Demand.fault?, ← howned]
    simp only
    split
    · next condition hcondition =>
      rw [hcondition]
      rfl
    · next failure hfailure =>
      rw [hfailure]
      rfl

namespace Context

variable (c : Context)

/-- The failure of a filter on a relation. -/
def relationFault? (entry : String × Relation) : Option CastFailure :=
  (c.relationDemands entry).findSome? (Demand.fault? entry.1)

/-- The failure of a filter on a field at the end of a route. -/
def leafFault? (entry : String) (path : ExtraPath) (route : Route) (field : LeafField) :
    Option CastFailure :=
  (c.fieldDemands entry path route field).findSome? (Demand.fault? (path.pathTo field.name))

/-- The failure of the filters on the fields of an entry. -/
def pathFault? (entry : String) : Option CastFailure := do
  let (path, route) ← c.completePath? entry
  path.fields.findSome? (c.leafFault? entry path route)

/-- The failure that a filter is refused with: the first one of its criteria, then of the
relations, then of the entries. -/
def firstFault? (entries : List String) : Option CastFailure :=
  (c.filter.entries.findSome? (Condition.entryFault? c.schema)).or
    ((c.schema.relations.findSome? c.relationFault?).or (entries.findSome? c.pathFault?))

variable {c}

theorem faultOf_addRelation (d : Draft) (entry : String × Relation) :
    (faultOf (c.addRelation d entry)).map Refusal.failure = c.relationFault? entry := by
  unfold relationFault? relationDemands
  cases hjoined : c.joinedSchema? entry.2 with
  | none =>
    rw [addRelation_of_unjoined hjoined]
    rfl
  | some target =>
    rw [addRelation_of_joined hjoined]
    cases hkey : entry.2.traversalKey with
    | none => rfl
    | some key => exact Draft.faultOf_withFilter _ _ _ _ _ _

theorem faultOf_addField (entry : String) (path : ExtraPath) (route : Route) (d : Draft)
    (field : LeafField) :
    (faultOf (c.addField entry path (pathAlias (route.hops.map (·.field)))
      (route.finalTarget?.getD "") d field)).map Refusal.failure =
      c.leafFault? entry path route field := by
  unfold leafFault? fieldDemands
  rw [← Draft.faultOf_withFilter d]
  exact congrArg (Option.map Refusal.failure) (faultOf_map _ _)

theorem faultOf_addPath (d : Draft) (entry : String) :
    (faultOf (c.addPath d entry)).map Refusal.failure = c.pathFault? entry := by
  unfold pathFault?
  cases hpath : c.completePath? entry with
  | none =>
    rw [addPath_of_incomplete hpath]
    rfl
  | some found =>
    obtain ⟨path, route⟩ := found
    rw [addPath_of_complete hpath]
    exact faultOf_foldlM (faultOf_addField entry path route) path.fields _

/-- An expansion fails with the first failure of its relations, and then of its entries. -/
theorem faultOf_expand (entries : List String) :
    (faultOf (c.expand entries)).map Refusal.failure =
      (c.schema.relations.findSome? c.relationFault?).or (entries.findSome? c.pathFault?) := by
  have hrelations := faultOf_foldlM (faultOf_addRelation (c := c)) c.schema.relations
    (Draft.start c.schema)
  unfold expand
  rw [← hrelations]
  cases hdraft : c.schema.relations.foldlM c.addRelation (Draft.start c.schema) with
  | error refusal => rfl
  | ok draft => exact faultOf_foldlM faultOf_addPath entries draft

/-! ## What a failure comes from -/

variable (c) in
/-- A key without a slash names a scalar attribute, and asks of it an object or a token
that is not of its type. -/
def RefusesCriteria : Prop :=
  ∃ key value type inherited, c.filter.get? key = some value ∧ '/' ∉ key.toList ∧
    c.schema.attribute? key = some ⟨.scalar type, inherited⟩ ∧
    ((∃ members, value = .nested members) ∨ value.Miscast type)

variable (c) in
/-- A relation that is joined and has a traversal key is asked for a token that is not of
the type which the target declares for the key. -/
def RefusesRelation : Prop :=
  ∃ name relation key target type inherited value, c.schema.relation? name = some relation ∧
    relation.traversalKey = some key ∧ c.options.excludes relation.target = false ∧
    c.registry.get? relation.target = some target ∧
    target.attribute? key = some ⟨.scalar type, inherited⟩ ∧
    c.filter.get? name = some value ∧ value.Miscast type

variable (c) in
/-- A field that an entry describes is asked, by its path or else by the entry, for a token
that is not of the type which the schema at the end of the route declares for it. -/
def RefusesPath (entry : String) : Prop :=
  ∃ path, ExtraPath.parse entry = some path ∧
    (Route.resolve c.registry c.options c.schema.name path.segments).isComplete = true ∧
    ∃ field ∈ path.fields, ∃ name target type inherited value,
      (Route.resolve c.registry c.options c.schema.name path.segments).finalTarget? = some name ∧
      c.registry.get? name = some target ∧
      target.attribute? field.name = some ⟨.scalar type, inherited⟩ ∧
      (c.filter.get? (path.pathTo field.name)).or (c.filter.get? entry) = some value ∧
      value.Miscast type

end Context

theorem Schema.scalarType?_bind_eq_some {schema : Schema} {name : String} {type : ScalarType} :
    (schema.attribute? name).bind (·.scalarType?) = some type ↔
      ∃ inherited, schema.attribute? name = some ⟨.scalar type, inherited⟩ := by
  rw [Option.bind_eq_some_iff]
  constructor
  · rintro ⟨⟨kind, inherited⟩, hattribute, htype⟩
    cases kind with
    | scalar scalar =>
      obtain rfl : scalar = type := Option.some.inj htype
      exact ⟨inherited, hattribute⟩
    | relation relation => cases htype
  · rintro ⟨inherited, hattribute⟩
    exact ⟨_, hattribute, rfl⟩

/-- A key has a typed slot exactly when it is written without a slash and names a scalar. -/
theorem Condition.slot?_eq_some_typed {schema : Schema} {key path : String} {type : ScalarType} :
    slot? schema key = some (path, some type) ↔ path = key ∧ '/' ∉ key.toList ∧
      ∃ inherited, schema.attribute? key = some ⟨.scalar type, inherited⟩ := by
  rw [slot?_eq_some_iff]
  constructor
  · rintro ⟨hslash, ⟨scalar, inherited, hdeclared, rfl, htype⟩ | ⟨_, _, _, _, _, htype⟩⟩
    · obtain rfl := Option.some.inj htype
      exact ⟨rfl, hslash, inherited, hdeclared⟩
    · cases htype
  · rintro ⟨rfl, hslash, inherited, hdeclared⟩
    exact ⟨hslash, .inl ⟨type, inherited, hdeclared, rfl, rfl⟩⟩

/-- Tokens are refused for one that is not of the type. -/
theorem Condition.isSome_findSome?_castFault?_iff {owner : String} {tokens : List String}
    {type : Option ScalarType} : (tokens.findSome? (castFault? owner type)).isSome ↔
      ∃ scalar, type = some scalar ∧ ∃ token ∈ tokens, scalar.cast? (operandOf token) = none := by
  rw [List.findSome?_isSome_iff]
  simp only [isSome_castFault?_iff]
  constructor
  · rintro ⟨token, htoken, scalar, htype, hcast⟩
    exact ⟨scalar, htype, token, htoken, hcast⟩
  · rintro ⟨scalar, htype, token, htoken, hcast⟩
    exact ⟨token, htoken, scalar, htype, hcast⟩

/-- What the alternatives of a value ask for, its tokens ask for. -/
theorem FilterValue.miscast_iff {value : FilterValue} {type : ScalarType} :
    value.Miscast type ↔ ∃ tokens, FilterValue.alternatives? (some value) = some tokens ∧
      ∃ token ∈ tokens, type.cast? (Condition.operandOf token) = none := by
  unfold Miscast alternatives?
  rw [Option.bind_some]
  constructor
  · rintro ⟨tokens, htokens, token, htoken, hcast⟩
    refine ⟨tokens, ?_, token, htoken, hcast⟩
    have hne : tokens ≠ [] := List.ne_nil_of_mem htoken
    rw [htokens]
    simpa using hne
  · rintro ⟨tokens, htokens, token, htoken, hcast⟩
    exact ⟨tokens, (Option.filter_eq_some_iff.mp htokens).1, token, htoken, hcast⟩

/-- A demand that tokens make is refused for a token that is not of the declared type. -/
theorem Demand.isSome_findSome?_fault?_iff {asName key owner : String} {target : Option Schema}
    {value : Option FilterValue} :
    ((ofTokens? asName key target (FilterValue.alternatives? value)).findSome?
      (Demand.fault? owner)).isSome ↔
      ∃ schema type inherited asked, target = some schema ∧
        schema.attribute? key = some ⟨.scalar type, inherited⟩ ∧ value = some asked ∧
        asked.Miscast type := by
  rw [List.findSome?_isSome_iff]
  constructor
  · rintro ⟨d, hd, hfault⟩
    obtain ⟨tokens, htokens, rfl⟩ := mem_ofTokens?.mp hd
    obtain ⟨type, htype, hcast⟩ := Condition.isSome_findSome?_castFault?_iff.mp hfault
    obtain ⟨a, hattribute, hscalar⟩ := Option.bind_eq_some_iff.mp htype
    obtain ⟨schema, rfl, hattribute⟩ := Option.bind_eq_some_iff.mp hattribute
    obtain ⟨inherited, hattribute⟩ := Schema.scalarType?_bind_eq_some.mp
      (Option.bind_eq_some_iff.mpr ⟨a, hattribute, hscalar⟩)
    cases value with
    | none => cases htokens
    | some asked =>
      exact ⟨schema, type, inherited, asked, rfl, hattribute, rfl,
        FilterValue.miscast_iff.mpr ⟨tokens, htokens, hcast⟩⟩
  · rintro ⟨schema, type, inherited, asked, rfl, hattribute, rfl, hmiscast⟩
    obtain ⟨tokens, htokens, hcast⟩ := FilterValue.miscast_iff.mp hmiscast
    refine ⟨_, mem_ofTokens?.mpr ⟨tokens, htokens, rfl⟩, ?_⟩
    refine Condition.isSome_findSome?_castFault?_iff.mpr ⟨type, ?_, hcast⟩
    exact Schema.scalarType?_bind_eq_some.mpr ⟨inherited, hattribute⟩

namespace Context

variable {c : Context}

theorem isSome_criteriaFault?_iff :
    (c.filter.entries.findSome? (Condition.entryFault? c.schema)).isSome ↔ c.RefusesCriteria := by
  rw [List.findSome?_isSome_iff]
  constructor
  · rintro ⟨⟨key, value⟩, hentry, hfault⟩
    obtain ⟨failure, hfailure⟩ := Option.isSome_iff_exists.mp hfault
    obtain ⟨⟨path, type⟩, hslot, hfailure⟩ := Option.bind_eq_some_iff.mp hfailure
    have hvalue : c.filter.get? key = some value := SortedMap.get?_eq_some_iff.mpr hentry
    cases htokens : value.tokens? with
    | none =>
      simp only [htokens] at hfailure
      obtain ⟨scalar, rfl, -⟩ := Option.map_eq_some_iff.mp hfailure
      obtain ⟨-, hslash, inherited, hattribute⟩ := Condition.slot?_eq_some_typed.mp hslot
      refine ⟨key, value, scalar, inherited, hvalue, hslash, hattribute, .inl ?_⟩
      cases value with
      | one token => cases htokens
      | many tokens => cases htokens
      | nested members => exact ⟨members, rfl⟩
    | some tokens =>
      simp only [htokens] at hfailure
      obtain ⟨scalar, rfl, hcast⟩ := Condition.isSome_findSome?_castFault?_iff.mp
        (Option.isSome_iff_exists.mpr ⟨failure, hfailure⟩)
      obtain ⟨-, hslash, inherited, hattribute⟩ := Condition.slot?_eq_some_typed.mp hslot
      exact ⟨key, value, scalar, inherited, hvalue, hslash, hattribute,
        .inr ⟨tokens, htokens, hcast⟩⟩
  · rintro ⟨key, value, type, inherited, hvalue, hslash, hattribute, hasked⟩
    refine ⟨(key, value), SortedMap.get?_eq_some_iff.mp hvalue, ?_⟩
    have hslot : Condition.slot? c.schema key = some (key, some type) :=
      Condition.slot?_eq_some_typed.mpr ⟨rfl, hslash, inherited, hattribute⟩
    unfold Condition.entryFault?
    simp only [hslot, Option.bind_eq_bind, Option.bind_some]
    rcases hasked with ⟨members, rfl⟩ | ⟨tokens, htokens, hcast⟩
    · rfl
    · rw [htokens]
      exact Condition.isSome_findSome?_castFault?_iff.mpr ⟨type, rfl, hcast⟩

theorem isSome_relationFault?_iff :
    (c.schema.relations.findSome? c.relationFault?).isSome ↔ c.RefusesRelation := by
  rw [List.findSome?_isSome_iff]
  constructor
  · rintro ⟨⟨name, relation⟩, hentry, hfault⟩
    unfold relationFault? relationDemands at hfault
    split at hfault
    · next target key hjoined hkey =>
      unfold joinedSchema? at hjoined
      by_cases hexcluded : c.options.excludes relation.target = true
      · rw [if_pos hexcluded] at hjoined
        cases hjoined
      · rw [if_neg hexcluded] at hjoined
        obtain ⟨schema, type, inherited, asked, hschema, hattribute, hvalue, hmiscast⟩ :=
          Demand.isSome_findSome?_fault?_iff.mp hfault
        obtain rfl := Option.some.inj hschema
        exact ⟨name, relation, key, target, type, inherited, asked,
          Schema.mem_relations_iff.mp hentry, hkey, Bool.eq_false_iff.mpr hexcluded,
          hjoined, hattribute, hvalue, hmiscast⟩
    · cases hfault
  · rintro ⟨name, relation, key, target, type, inherited, asked, hrelation, hkey, hexcluded,
      htarget, hattribute, hvalue, hmiscast⟩
    refine ⟨(name, relation), Schema.mem_relations_iff.mpr hrelation, ?_⟩
    have hjoined : c.joinedSchema? relation = some target := by
      unfold joinedSchema?
      rw [hexcluded, if_neg Bool.false_ne_true, htarget]
    unfold relationFault? relationDemands
    simp only [hjoined, hkey]
    exact Demand.isSome_findSome?_fault?_iff.mpr
      ⟨target, type, inherited, asked, rfl, hattribute, hvalue, hmiscast⟩

theorem isSome_pathFault?_iff {entry : String} :
    (c.pathFault? entry).isSome ↔ c.RefusesPath entry := by
  unfold pathFault?
  constructor
  · intro h
    obtain ⟨failure, hfailure⟩ := Option.isSome_iff_exists.mp h
    obtain ⟨⟨path, route⟩, hpath, hfailure⟩ := Option.bind_eq_some_iff.mp hfailure
    obtain ⟨hparse, rfl, hcomplete⟩ := completePath?_eq_some.mp hpath
    obtain ⟨field, hfield, hfault⟩ :=
      List.findSome?_isSome_iff.mp (Option.isSome_iff_exists.mpr ⟨failure, hfailure⟩)
    obtain ⟨target, type, inherited, asked, htarget, hattribute, hvalue, hmiscast⟩ :=
      Demand.isSome_findSome?_fault?_iff.mp hfault
    -- A complete route leads to a type, so the table is that of its last hop.
    obtain ⟨front, hop, -, hfinal⟩ := Route.exists_last_of_isComplete hcomplete
    rw [hfinal] at htarget
    exact ⟨path, hparse, hcomplete, field, hfield, hop.target, target, type, inherited, asked,
      hfinal, htarget, hattribute, hvalue, hmiscast⟩
  · rintro ⟨path, hparse, hcomplete, field, hfield, name, target, type, inherited, asked, hfinal,
      htarget, hattribute, hvalue, hmiscast⟩
    have hpath := completePath?_eq_some.mpr ⟨hparse, rfl, hcomplete⟩
    simp only [hpath, Option.bind_eq_bind, Option.bind_some]
    refine List.findSome?_isSome_iff.mpr ⟨field, hfield, ?_⟩
    refine Demand.isSome_findSome?_fault?_iff.mpr
      ⟨target, type, inherited, asked, ?_, hattribute, hvalue, hmiscast⟩
    rw [hfinal]
    exact htarget

/-- A filter is refused when one of the three compilers refuses it. -/
theorem isSome_firstFault?_iff {entries : List String} : (c.firstFault? entries).isSome ↔
    c.RefusesCriteria ∨ c.RefusesRelation ∨ ∃ entry ∈ entries, c.RefusesPath entry := by
  unfold firstFault?
  rw [Option.isSome_or, Option.isSome_or, Bool.or_eq_true, Bool.or_eq_true,
    isSome_criteriaFault?_iff, isSome_relationFault?_iff, List.findSome?_isSome_iff]
  simp only [isSome_pathFault?_iff]

/-- Nothing is refused of a filter that asks nothing. -/
theorem firstFault?_of_empty (hfilter : c.filter = .empty) (entries : List String) :
    c.firstFault? entries = none := by
  rw [← Option.not_isSome_iff_eq_none, isSome_firstFault?_iff]
  have hnone : ∀ key, c.filter.get? key = none := by
    intro key
    rw [hfilter, SortedMap.get?_empty]
  rintro (⟨key, value, type, inherited, hvalue, -⟩ |
    ⟨name, relation, key, target, type, inherited, value, -, -, -, -, -, hvalue, -⟩ |
    ⟨entry, -, path, -, -, field, -, name, target, type, inherited, value, -, -, -, hvalue, -⟩)
  · rw [hnone] at hvalue
    cases hvalue
  · rw [hnone] at hvalue
    cases hvalue
  · rw [hnone, hnone] at hvalue
    cases hvalue

end Context

/-! ## Requests -/

namespace Plan

variable {registry : Registry} {options : Options} {request : SearchRequest} {schema : Schema}

/-- A request for a registered type fails with its criteria, or else with its expansion. -/
theorem faultOf_result (hschema : registry.get? request.type = some schema) :
    faultOf (Plan.ofRequest registry options request).result =
      ((faultOf (request.criteria schema)).or
        ((faultOf ((Context.ofRequest registry options schema request).expand
          (Context.pathEntries schema request))).map Refusal.failure)).map .castFailed := by
  unfold Plan.ofRequest Context.ofRequest
  simp only [hschema]
  cases request.criteria schema with
  | error failure => rfl
  | ok criteria =>
    simp only
    generalize Context.expand _ _ = expansion
    cases expansion <;> rfl

/-- A request without an identifier is refused with the first failure of its filter. -/
theorem faultOf_result_of_filter (hschema : registry.get? request.type = some schema)
    (hid : request.id = none) :
    faultOf (Plan.ofRequest registry options request).result =
      ((Context.ofRequest registry options schema request).firstFault?
        (Context.pathEntries schema request)).map .castFailed := by
  rw [faultOf_result hschema, Context.faultOf_expand, SearchRequest.criteria_eq_ofFilter hid,
    Condition.faultOf_ofFilter]
  unfold Context.firstFault?
  rw [Context.filter_ofRequest hid]
  rfl

/-- A request for one document of a registered type is accepted. -/
theorem exists_plan_of_id (hschema : registry.get? request.type = some schema)
    (hid : request.id.isSome) :
    ∃ plan, (Plan.ofRequest registry options request).result = .ok plan := by
  have hnone : (Context.ofRequest registry options schema request).firstFault?
      (Context.pathEntries schema request) = none :=
    Context.firstFault?_of_empty (Context.filter_ofRequest_of_id hid) _
  obtain ⟨-, hexpand⟩ := Option.or_eq_none_iff.mp hnone
  rw [← faultOf_eq_none_iff, faultOf_result hschema, Context.faultOf_expand, hexpand]
  obtain ⟨id, hid⟩ := Option.isSome_iff_exists.mp hid
  unfold SearchRequest.criteria
  rw [hid]
  rfl

/-- Exactly which requests are refused, and for what. A type that is not registered is
unknown. A request for one document of a registered type is accepted. Any other is refused
for a filter value that cannot be cast when the criteria, a relation or an entry refuses
it, and the failure is the first in this order. -/
theorem result_eq_error_iff (registry : Registry) (options : Options) (request : SearchRequest) :
    ((∃ e, (Plan.ofRequest registry options request).result = .error e ∧
        e.code = "AERO_UNKNOWN_RESOURCE" ∧ e.resourceType? = some request.type) ↔
      registry.get? request.type = none) ∧
    ∀ schema, registry.get? request.type = some schema →
      (request.id.isSome → ∃ plan, (Plan.ofRequest registry options request).result = .ok plan) ∧
      (request.id = none →
        ((∃ e, (Plan.ofRequest registry options request).result = .error e ∧
            e.code = "AERO_FILTER_CAST_FAILED") ↔
          (Context.ofRequest registry options schema request).RefusesCriteria ∨
          (Context.ofRequest registry options schema request).RefusesRelation ∨
          ∃ entry, (request.noExtra = false ∧
              (entry ∈ schema.extraPaths ∨ entry ∈ request.extraPaths) ∨
              ∃ name, (name, entry) ∈ schema.inheritedPaths) ∧
            (Context.ofRequest registry options schema request).RefusesPath entry) ∧
        (∀ e, (Plan.ofRequest registry options request).result = .error e ↔
          ∃ failure, e = .castFailed failure ∧
            (Context.ofRequest registry options schema request).firstFault?
              (Context.pathEntries schema request) = some failure)) := by
  refine ⟨⟨?_, fun hnone => ?_⟩, fun schema hschema => ⟨exists_plan_of_id hschema, fun hid => ?_⟩⟩
  · rintro ⟨e, he, hcode, -⟩
    cases hschema : registry.get? request.type with
    | none => rfl
    | some schema =>
      -- A registered type is refused for a cast only, and that has another code.
      have hfault := faultOf_eq_some_iff.mpr he
      rw [faultOf_result hschema] at hfault
      obtain ⟨failure, -, rfl⟩ := Option.map_eq_some_iff.mp hfault
      simp [PlanError.code] at hcode
  · unfold Plan.ofRequest
    simp only [hnone]
    exact ⟨_, rfl, rfl, rfl⟩
  · have hexact : ∀ e, (Plan.ofRequest registry options request).result = .error e ↔
        ∃ failure, e = .castFailed failure ∧
          (Context.ofRequest registry options schema request).firstFault?
            (Context.pathEntries schema request) = some failure := by
      intro e
      rw [← faultOf_eq_some_iff, faultOf_result_of_filter hschema hid, Option.map_eq_some_iff]
      exact exists_congr fun failure => and_comm.trans (and_congr_left fun _ => eq_comm)
    refine ⟨?_, hexact⟩
    have hrefused : (∃ e, (Plan.ofRequest registry options request).result = .error e ∧
        e.code = "AERO_FILTER_CAST_FAILED") ↔
        ((Context.ofRequest registry options schema request).firstFault?
          (Context.pathEntries schema request)).isSome := by
      rw [Option.isSome_iff_exists]
      constructor
      · rintro ⟨e, he, -⟩
        obtain ⟨failure, -, hfirst⟩ := (hexact e).mp he
        exact ⟨failure, hfirst⟩
      · rintro ⟨failure, hfirst⟩
        exact ⟨.castFailed failure, (hexact _).mpr ⟨failure, rfl, hfirst⟩, rfl⟩
    rw [hrefused, Context.isSome_firstFault?_iff]
    simp only [Context.mem_pathEntries]

/-- Orders with a count, whose owners are found by their age. -/
def ages : Registry :=
  (Registry.ofSchemas [
    ((Schema.make "order" "1").withAttribute "count" (.ofScalar .int)).withAttribute "owner"
      ((Attribute.ofTarget "person").withTraversalKey "age"),
    (Schema.make "person" "1").withAttribute "age" (.ofScalar .int)]).toOption.getD .empty

/-- The request for few orders of old owners, in words. -/
def oldRequest : SearchRequest :=
  { SearchRequest.ofType "order" with
    filter := .ofList [("owner", .many [">60", ">old"]), ("count", .one "<9")] }

/-- The request for the orders of owners by their age, along a path with a title. -/
def agedRequest (token : String) : SearchRequest :=
  { SearchRequest.ofType "order" with
    filter := .ofList [("owner", .one "<90"), ("owner/age", .one token)]
    extraPaths := ["owner/age:Years"] }

/-- The age of an owner is refused, as the relation's or the path's and with the operand alone.
What is a number is asked of the joined owners. -/
theorem result_oldRequest_eq_error :
    ∃ schema plan, ages.get? "order" = some schema ∧
      oldRequest.id = none ∧ (agedRequest ">=old").id = none ∧
      (Plan.ofRequest ages .standard oldRequest).result =
        .error (.castFailed ⟨"owner", "int", "old"⟩) ∧
      (Plan.ofRequest ages .standard (agedRequest ">=old")).result =
        .error (.castFailed ⟨"owner/age", "int", "old"⟩) ∧
      (Plan.ofRequest ages .standard (agedRequest ">=60")).result = .ok plan ∧
      plan.writtenKeys = ["__person/owner", "__person/owner_index", "__owner"] ∧
      (plan.expansion.filter (·.isFilter)).length = 2 := by
  obtain ⟨schema, hschema⟩ := Option.isSome_iff_exists.mp
    (show (ages.get? "order").isSome by decide +kernel)
  have hfirst : (ages.get? "order").bind (fun schema =>
      (Context.ofRequest ages .standard schema oldRequest).firstFault?
        (Context.pathEntries schema oldRequest)) = some ⟨"owner", "int", "old"⟩ := by
    decide +kernel
  have haged : (ages.get? "order").bind (fun schema =>
      (Context.ofRequest ages .standard schema (agedRequest ">=old")).firstFault?
        (Context.pathEntries schema (agedRequest ">=old"))) =
          some ⟨"owner/age", "int", "old"⟩ := by
    decide +kernel
  rw [hschema] at hfirst haged
  obtain ⟨plan, hplan, hcheck⟩ := Plan.exists_of_check
    (Plan.ofRequest ages .standard (agedRequest ">=60")).result
    (fun plan => plan.writtenKeys = ["__person/owner", "__person/owner_index", "__owner"] ∧
      (plan.expansion.filter (·.isFilter)).length = 2) (by decide +kernel)
  refine ⟨schema, plan, hschema, rfl, rfl, ?_, ?_, hplan, of_decide_eq_true hcheck⟩
  · exact ((((result_eq_error_iff ages .standard oldRequest).2 schema hschema).2 rfl).2 _).mpr
      ⟨_, rfl, hfirst⟩
  · exact ((((result_eq_error_iff ages .standard (agedRequest ">=old")).2 schema hschema).2
      rfl).2 _).mpr ⟨_, rfl, haged⟩

end Plan

end JoinPlan
