import JoinPlan.Plan.Planning
import JoinPlan.Proofs.Filter.Tokens
import JoinPlan.Proofs.Pipeline.Block
import JoinPlan.Proofs.Pipeline.Walk
import JoinPlan.Proofs.Store.Frame

/-!
# What a request asks to join and to filter

`Context.pairs` lists the joins that a request asks for and `Context.demands` the
filters on joined documents, both read off the schema, the entries and the filter,
without a builder. `Context.fields` lists the fields that the extra paths describe.

`expand_gathers` says that a draft which the expansion ends with holds just these: the
joins at their first occurrence, every filter in a block of its alias, and the
descriptions. What one step does is said once, by `addRelation_of_joined`,
`addPath_of_complete` and their negative forms. The step lemmas `addRelation_gathers` and
`addPath_gathers` rest on them, and `expand_induction` carries these through the two loops.
-/

namespace JoinPlan

/-- A property of what is done so far that every step keeps holds at the end of a loop
that ends well. -/
theorem foldlM_ok_induction {σ α ε : Type} {step : σ → α → Except ε σ}
    {motive : List α → σ → Prop}
    (hstep : ∀ done x s s', motive done s → step s x = .ok s' → motive (done ++ [x]) s') :
    ∀ (xs done : List α) {s s' : σ}, motive done s → xs.foldlM step s = .ok s' →
      motive (done ++ xs) s' := by
  intro xs
  induction xs with
  | nil =>
    intro done s s' hs h
    obtain rfl : s = s' := Except.ok.inj h
    rwa [List.append_nil]
  | cons x xs ih =>
    intro done s s' hs h
    rw [List.foldlM_cons] at h
    cases hx : step s x with
    | error e => rw [hx] at h; cases h
    | ok middle =>
      rw [hx] at h
      have hdone := ih _ (hstep done x s middle hs hx) h
      rwa [List.append_assoc, List.singleton_append] at hdone

/-- A property of steps holds of a loop when it holds of doing nothing, and of one step behind
another. -/
theorem foldlM_of_bind {σ α ε : Type} {P : (σ → Except ε σ) → Prop} (hnothing : P .ok)
    (hbind : ∀ {first second}, P first → P second → P fun s => first s >>= second)
    {step : σ → α → Except ε σ} (hstep : ∀ x, P fun s => step s x) (xs : List α) :
    P fun s => xs.foldlM step s := by
  induction xs with
  | nil => exact hnothing
  | cons x rest ih =>
    simp only [List.foldlM_cons]
    exact hbind (hstep x) ih

/-! ## Demands on joined documents -/

/-- What a filter asks of a joined document: that one of the tokens holds, read under
the type, at a key of the document under an alias. -/
structure Demand where
  asName : String
  key : String
  tokens : List String
  type : Option ScalarType

namespace Demand

/-- Where the demand looks. -/
def path (d : Demand) : String := d.asName ++ "." ++ d.key

/-- Whether a document meets the demand. -/
def met [PatternLimit] (d : Demand) (document : Value) : Bool :=
  d.tokens.any (Condition.tokenHolds d.path d.type document)

/-- The condition of the demand, unless a token cannot be cast. -/
def compiled (d : Demand) : Except CastFailure Condition :=
  Condition.ofTokens d.path d.tokens d.type

/-- The condition of a demand that can be cast. -/
def condition (d : Demand) : Condition := d.compiled.toOption.getD .always

theorem compiled_eq {d : Demand} (h : ∃ condition, d.compiled = .ok condition) :
    d.compiled = .ok d.condition := by
  obtain ⟨condition, hcompiled⟩ := h
  have hcondition : d.condition = condition := by
    simp [Demand.condition, hcompiled, Except.toOption]
  rw [hcompiled, hcondition]

/-- The condition of a demand that can be cast says that the demand is met. -/
theorem holds_condition [PatternLimit] {d : Demand} (h : ∃ condition, d.compiled = .ok condition)
    (document : Value) : d.condition.holds document = d.met document :=
  Condition.holds_ofTokens (compiled_eq h) document

/-- The condition with the alias it belongs to. -/
def named (d : Demand) : String × Condition := (d.asName, d.condition)

/-- The demand that tokens put on a key of a joined schema, if there are tokens. -/
def ofTokens? (asName key : String) (target : Option Schema) (tokens : Option (List String)) :
    List Demand :=
  (tokens.map fun tokens =>
    ⟨asName, key, tokens, (target.bind (·.attribute? key)).bind (·.scalarType?)⟩).toList

theorem met_iff [PatternLimit] {d : Demand} {document : Value} : d.met document = true ↔
    ∃ token ∈ d.tokens, Condition.tokenHolds d.path d.type document token :=
  List.any_eq_true

theorem mem_ofTokens? {d : Demand} {asName key : String} {target : Option Schema}
    {tokens? : Option (List String)} : d ∈ ofTokens? asName key target tokens? ↔
      ∃ tokens, tokens? = some tokens ∧
        d = ⟨asName, key, tokens, (target.bind (·.attribute? key)).bind (·.scalarType?)⟩ := by
  unfold ofTokens?
  rw [Option.mem_toList, Option.map_eq_some_iff]
  exact exists_congr fun tokens => and_congr_right fun _ => eq_comm

end Demand

namespace Context

variable (c : Context)

/-- The schema that a relation is joined with: its target, if it is registered and not
excluded. -/
def joinedSchema? (relation : Relation) : Option Schema :=
  if c.options.excludes relation.target then none else c.registry.get? relation.target

/-- The path and the route of an entry that leads somewhere. -/
def completePath? (entry : String) : Option (ExtraPath × Route) := do
  let path ← ExtraPath.parse entry
  let route := Route.resolve c.registry c.options c.schema.name path.segments
  if route.isComplete then some (path, route) else none

/-- An entry leads somewhere when its route is complete. -/
theorem completePath?_eq_some {c : Context} {entry : String} {path : ExtraPath} {route : Route} :
    c.completePath? entry = some (path, route) ↔
      ExtraPath.parse entry = some path ∧
      Route.resolve c.registry c.options c.schema.name path.segments = route ∧
      route.isComplete = true := by
  unfold completePath?
  cases ExtraPath.parse entry with
  | none => simp
  | some parsed =>
    simp only [Option.bind_eq_bind, Option.bind_some, Option.some.injEq]
    constructor
    · intro h
      split at h
      · next hcomplete =>
        obtain ⟨rfl, rfl⟩ := Prod.mk.inj (Option.some.inj h)
        exact ⟨rfl, rfl, hcomplete⟩
      · cases h
    · rintro ⟨rfl, rfl, hcomplete⟩
      rw [if_pos hcomplete]

/-- The join of a relation, if it is joined. -/
def relationPairs (entry : String × Relation) : List (Join × Flatten) :=
  match c.joinedSchema? entry.2 with
  | none => []
  | some target => [relationJoin entry.1 entry.2 target]

/-- The joins of an entry that leads somewhere. -/
def pathPairs (entry : String) : List (Join × Flatten) :=
  match c.completePath? entry with
  | none => []
  | some (_, route) => route.joins

/-- What a relation leaves in the log. -/
def relationRecords (entry : String × Relation) : List Log.Record :=
  if c.options.excludes entry.2.target ∨ (c.registry.get? entry.2.target).isSome then []
  else [c.skipped entry.1 entry.2.target]

/-- What an entry leaves in the log. -/
def pathRecords (entry : String) : List Log.Record :=
  match ExtraPath.parse entry with
  | none => []
  | some path =>
    let route := Route.resolve c.registry c.options c.schema.name path.segments
    if route.isComplete then [] else [c.dropped entry route]

/-- What the filter asks of a relation's document. -/
def relationDemands (entry : String × Relation) : List Demand :=
  match c.joinedSchema? entry.2, entry.2.traversalKey with
  | some target, some key =>
    Demand.ofTokens? (relationAlias entry.2.target entry.1) key (some target)
      (FilterValue.alternatives? (c.filter.get? entry.1))
  | _, _ => []

/-- What the filter asks of a field at the end of a route, under the path of the field
or under the whole entry. -/
def fieldDemands (entry : String) (path : ExtraPath) (route : Route) (field : LeafField) :
    List Demand :=
  Demand.ofTokens? (pathAlias (route.hops.map (·.field))) field.name
    (c.registry.get? (route.finalTarget?.getD ""))
    (FilterValue.alternatives?
      ((c.filter.get? (path.pathTo field.name)).or (c.filter.get? entry)))

/-- What the filter asks of the document that an entry leads to. -/
def pathDemands (entry : String) : List Demand :=
  match c.completePath? entry with
  | none => []
  | some (path, route) => path.fields.flatMap (c.fieldDemands entry path route)

/-- The description of a field at the end of a route. -/
def describe (path : ExtraPath) (route : Route) (field : LeafField) : ExtraField :=
  ⟨pathAlias (route.hops.map (·.field)), field.name, field.title, route.finalTarget?.getD "",
    path.pathTo field.name, inheritor? c.schema (path.pathTo field.name)⟩

/-- The descriptions of the fields of an entry. -/
def pathFields (entry : String) : List ExtraField :=
  match c.completePath? entry with
  | none => []
  | some (path, route) => path.fields.map (c.describe path route)

/-- The joins that a request asks for, in order. -/
def pairs (entries : List String) : List (Join × Flatten) :=
  c.schema.relations.flatMap c.relationPairs ++ entries.flatMap c.pathPairs

/-- The filters on joined documents that a request asks for, in order. -/
def demands (entries : List String) : List Demand :=
  c.schema.relations.flatMap c.relationDemands ++ entries.flatMap c.pathDemands

/-- The fields that the entries lead to, in order. -/
def fields (entries : List String) : List ExtraField := entries.flatMap c.pathFields

/-- What is described is a field at the end of an entry that leads somewhere. -/
theorem mem_fields {c : Context} {entries : List String} {f : ExtraField} :
    f ∈ c.fields entries ↔ ∃ entry ∈ entries, ∃ path route,
      c.completePath? entry = some (path, route) ∧
        ∃ field ∈ path.fields, c.describe path route field = f := by
  unfold fields
  rw [List.mem_flatMap]
  refine exists_congr fun entry => and_congr_right fun _ => ?_
  unfold pathFields
  cases c.completePath? entry with
  | none => simp
  | some found =>
    obtain ⟨path, route⟩ := found
    simp

end Context

/-! ## Drafts -/

/-- The flattening belongs to the join and keeps documents without partners. -/
def SoundPair (pair : Join × Flatten) : Prop :=
  pair.2.asName = pair.1.asName ∧ pair.2.preserve = true

/-- The keys that a join with its flattening writes. -/
def writes (pair : Join × Flatten) : List String := pair.1.asName :: pair.2.indexField.toList

/-- The draft holds the joins, the demands and the descriptions. -/
structure Draft.Gathers (d : Draft) (pairs : List (Join × Flatten)) (demands : List Demand)
    (fields : List ExtraField) : Prop where
  sound : ∀ pair ∈ pairs, SoundPair pair
  casts : ∀ demand ∈ demands, ∃ condition, demand.compiled = .ok condition
  holds : ∃ blocks, d.builder.Holds pairs (demands.map Demand.named) blocks
  fields : d.extraFields = insertNew [] .back fields

namespace Draft

variable {d d' : Draft} {pairs : List (Join × Flatten)} {demands : List Demand}
  {fields : List ExtraField}

theorem start_gathers (schema : Schema) : (start schema).Gathers [] [] [] :=
  ⟨by simp, by simp, ⟨[], Builder.holds_empty⟩, rfl⟩

theorem Gathers.withRecords (h : d.Gathers pairs demands fields) (records : List Log.Record) :
    ({ d with records } : Draft).Gathers pairs demands fields :=
  ⟨h.sound, h.casts, h.holds, h.fields⟩

theorem Gathers.withJoins (h : d.Gathers pairs demands fields) (more : List (Join × Flatten))
    (hsound : ∀ pair ∈ more, SoundPair pair) :
    (d.withJoins more).Gathers (pairs ++ more) demands fields := by
  obtain ⟨blocks, hblocks⟩ := h.holds
  refine ⟨fun pair hpair => ?_, h.casts, Builder.holds_foldl_pushJoin more hblocks, h.fields⟩
  rcases List.mem_append.mp hpair with hold | hnew
  · exact h.sound pair hold
  · exact hsound pair hnew

/-- A filter that could be cast is one more demand, on a join that is there. -/
theorem Gathers.withFilter (h : d.Gathers pairs demands fields) {asName : String}
    (hjoined : ∃ pair ∈ pairs, pair.1.asName = asName) {target : Option Schema}
    {key owner : String} {tokens : Option (List String)}
    (hok : d.withFilter target asName key owner tokens = .ok d') :
    d'.Gathers pairs (demands ++ Demand.ofTokens? asName key target tokens) fields := by
  unfold Draft.withFilter at hok
  cases tokens with
  | none =>
    obtain rfl : d = d' := Except.ok.inj hok
    simpa [Demand.ofTokens?] using h
  | some tokens =>
    simp only at hok
    split at hok
    · next condition hcondition =>
      obtain rfl := Except.ok.inj hok
      obtain ⟨blocks, hblocks⟩ := h.holds
      let demand : Demand :=
        ⟨asName, key, tokens, (target.bind (·.attribute? key)).bind (·.scalarType?)⟩
      have hcompiled : demand.compiled = .ok condition := hcondition
      have hnamed : demand.named = (asName, condition) := by
        simp [Demand.named, Demand.condition, hcompiled, Except.toOption, demand]
      have hholds := Builder.holds_insertAfterFlatten hblocks
        (fun pair hpair => (h.sound pair hpair).1) hjoined condition
      refine ⟨h.sound, fun other hother => ?_, ?_, h.fields⟩
      · rcases List.mem_append.mp hother with hold | hnew
        · exact h.casts other hold
        · rw [List.mem_singleton.mp hnew]
          exact ⟨condition, hcompiled⟩
      · rw [List.map_append,
          show (Demand.ofTokens? asName key target (some tokens)).map Demand.named =
            [(asName, condition)] from congrArg (fun named => [named]) hnamed]
        exact hholds
    · cases hok

/-- A filter adds a stage and nothing else. -/
theorem exists_builder_of_withFilter {target : Option Schema} {asName field owner : String}
    {tokens : Option (List String)}
    (h : d.withFilter target asName field owner tokens = .ok d') :
    ∃ builder, d' = { d with builder } := by
  unfold Draft.withFilter at h
  cases tokens with
  | none => exact ⟨d.builder, (Except.ok.inj h).symm⟩
  | some tokens =>
    simp only at h
    split at h
    · exact ⟨_, (Except.ok.inj h).symm⟩
    · cases h

end Draft

namespace Context

variable {c : Context} {d d' : Draft} {pairs : List (Join × Flatten)} {demands : List Demand}
  {fields : List ExtraField}

theorem soundPair_relationJoin (name : String) (relation : Relation) (target : Schema) :
    SoundPair (relationJoin name relation target) := ⟨rfl, rfl⟩

theorem soundPair_of_mem_joinsFrom {before : List String} {hops : List Hop}
    {pair : Join × Flatten} (h : pair ∈ joinsFrom before hops) : SoundPair pair := by
  obtain ⟨front, hop, back, -, rfl⟩ := mem_joinsFrom.mp h
  exact ⟨rfl, rfl⟩

/-- A relation that is not joined leaves its log record, if it has one. -/
theorem addRelation_of_unjoined {entry : String × Relation} (h : c.joinedSchema? entry.2 = none)
    (d : Draft) :
    c.addRelation d entry = .ok { d with records := d.records ++ c.relationRecords entry } := by
  unfold addRelation relationRecords
  unfold joinedSchema? at h
  by_cases hexcluded : c.options.excludes entry.2.target = true
  · rw [if_pos (.inl hexcluded), List.append_nil]
    exact if_pos hexcluded
  · rw [if_neg hexcluded] at h
    simp only [h, if_neg hexcluded]
    rw [if_neg (by simp [hexcluded])]
    rfl

/-- A relation that is joined has its join, and its filter where it has a traversal key. -/
theorem addRelation_of_joined {entry : String × Relation} {target : Schema}
    (h : c.joinedSchema? entry.2 = some target) (d : Draft) :
    c.addRelation d entry =
      match entry.2.traversalKey with
      | none => .ok (d.withJoins [relationJoin entry.1 entry.2 target])
      | some key =>
        (d.withJoins [relationJoin entry.1 entry.2 target]).withFilter (some target)
          (relationAlias entry.2.target entry.1) key entry.1
          (FilterValue.alternatives? (c.filter.get? entry.1)) := by
  unfold addRelation
  unfold joinedSchema? at h
  by_cases hexcluded : c.options.excludes entry.2.target = true
  · rw [if_pos hexcluded] at h
    cases h
  · rw [if_neg hexcluded] at h
    refine (if_neg hexcluded).trans ?_
    cases entry.2.traversalKey with
    | none => simp only [h]
    | some key => simp only [h]

/-- An entry that leads nowhere leaves its log record, if it has one. -/
theorem addPath_of_incomplete {entry : String} (h : c.completePath? entry = none) (d : Draft) :
    c.addPath d entry = .ok { d with records := d.records ++ c.pathRecords entry } := by
  unfold addPath pathRecords
  cases hpath : ExtraPath.parse entry with
  | none =>
    simp only
    rw [List.append_nil]
  | some path =>
    have hincomplete :
        ¬(Route.resolve c.registry c.options c.schema.name path.segments).isComplete = true := by
      intro hcomplete
      rw [completePath?_eq_some.mpr ⟨hpath, rfl, hcomplete⟩] at h
      cases h
    simp only [if_neg hincomplete]
    rfl

/-- An entry that leads somewhere has its joins, and then its fields. -/
theorem addPath_of_complete {entry : String} {path : ExtraPath} {route : Route}
    (h : c.completePath? entry = some (path, route)) (d : Draft) :
    c.addPath d entry =
      path.fields.foldlM (c.addField entry path (pathAlias (route.hops.map (·.field)))
        (route.finalTarget?.getD "")) (d.withJoins route.joins) := by
  obtain ⟨hpath, rfl, hcomplete⟩ := completePath?_eq_some.mp h
  unfold addPath
  simp only [hpath]
  exact if_pos hcomplete

/-- A joined relation adds its join and at most a filter, and nothing else. -/
theorem exists_eq_of_addRelation {entry : String × Relation} {target : Schema}
    (hjoined : c.joinedSchema? entry.2 = some target) (h : c.addRelation d entry = .ok d') :
    ∃ builder, d' = { d.withJoins [relationJoin entry.1 entry.2 target] with builder } := by
  rw [addRelation_of_joined hjoined] at h
  cases hkey : entry.2.traversalKey with
  | none =>
    rw [hkey] at h
    exact ⟨_, (Except.ok.inj h).symm⟩
  | some key =>
    rw [hkey] at h
    exact Draft.exists_builder_of_withFilter h

/-- A field at the end of a route adds a stage and a description, and nothing else. -/
theorem exists_eq_of_addField {entry : String} {path : ExtraPath} {asName table : String}
    {field : LeafField} (h : c.addField entry path asName table d field = .ok d') :
    ∃ builder extraFields, d' = { d with builder, extraFields } := by
  unfold addField at h
  simp only [bind, Except.bind, pure, Except.pure] at h
  split at h
  · cases h
  · next filtered hfiltered =>
    obtain ⟨builder, rfl⟩ := Draft.exists_builder_of_withFilter hfiltered
    exact ⟨builder, _, (Except.ok.inj h).symm⟩

/-- So do all fields of an entry. -/
theorem exists_eq_of_addFields {entry : String} {path : ExtraPath} {asName table : String}
    {leaves : List LeafField} (h : leaves.foldlM (c.addField entry path asName table) d = .ok d') :
    ∃ builder extraFields, d' = { d with builder, extraFields } := by
  refine foldlM_ok_induction
    (motive := fun _ (s : Draft) => ∃ builder extraFields, s = { d with builder, extraFields })
    ?_ leaves [] ⟨d.builder, d.extraFields, rfl⟩ h
  intro _ field s s' hs hstep
  obtain ⟨_, _, rfl⟩ := hs
  obtain ⟨builder, extraFields, rfl⟩ := exists_eq_of_addField hstep
  exact ⟨builder, extraFields, rfl⟩

/-- One relation adds its join and its demand. -/
theorem addRelation_gathers (h : d.Gathers pairs demands fields) {entry : String × Relation}
    (hok : c.addRelation d entry = .ok d') :
    d'.Gathers (pairs ++ c.relationPairs entry) (demands ++ c.relationDemands entry) fields := by
  unfold relationPairs relationDemands
  cases hjoined : c.joinedSchema? entry.2 with
  | none =>
    rw [addRelation_of_unjoined hjoined] at hok
    obtain rfl := Except.ok.inj hok
    simpa using h.withRecords _
  | some target =>
    rw [addRelation_of_joined hjoined] at hok
    -- The join comes first, so that the filter finds the alias joined.
    have hjoins := h.withJoins [relationJoin entry.1 entry.2 target] (by
      intro pair hpair
      rw [List.mem_singleton.mp hpair]
      exact soundPair_relationJoin entry.1 entry.2 target)
    cases hkey : entry.2.traversalKey with
    | none =>
      rw [hkey] at hok
      obtain rfl := Except.ok.inj hok
      simpa using hjoins
    | some key =>
      rw [hkey] at hok
      refine hjoins.withFilter ⟨relationJoin entry.1 entry.2 target, ?_, rfl⟩ hok
      exact List.mem_append_right _ List.mem_cons_self

/-- One field at the end of a joined route adds its demand and its description. -/
theorem addField_gathers (h : d.Gathers pairs demands fields) {entry : String}
    {path : ExtraPath} {route : Route}
    (hjoined : ∃ pair ∈ pairs, pair.1.asName = pathAlias (route.hops.map (·.field)))
    {field : LeafField}
    (hok : c.addField entry path (pathAlias (route.hops.map (·.field)))
      (route.finalTarget?.getD "") d field = .ok d') :
    d'.Gathers pairs (demands ++ c.fieldDemands entry path route field)
      (fields ++ [c.describe path route field]) := by
  unfold addField at hok
  simp only [bind, Except.bind, pure, Except.pure] at hok
  split at hok
  · cases hok
  · next filtered hfiltered =>
    obtain rfl := Except.ok.inj hok
    have hdemands := h.withFilter hjoined hfiltered
    -- A filter changes the builder only, so the descriptions so far are the same.
    refine ⟨hdemands.sound, hdemands.casts, hdemands.holds, ?_⟩
    rw [insertNew_append, ← hdemands.fields]
    rfl

/-- The fields at the end of a joined route add their demands and descriptions. -/
theorem addFields_gathers (h : d.Gathers pairs demands fields) {entry : String}
    {path : ExtraPath} {route : Route}
    (hjoined : ∃ pair ∈ pairs, pair.1.asName = pathAlias (route.hops.map (·.field)))
    (leaves : List LeafField)
    (hok : leaves.foldlM (c.addField entry path (pathAlias (route.hops.map (·.field)))
      (route.finalTarget?.getD "")) d = .ok d') :
    d'.Gathers pairs (demands ++ leaves.flatMap (c.fieldDemands entry path route))
      (fields ++ leaves.map (c.describe path route)) :=
  foldlM_ok_induction
    (motive := fun (done : List LeafField) (s : Draft) =>
      s.Gathers pairs (demands ++ done.flatMap (c.fieldDemands entry path route))
        (fields ++ done.map (c.describe path route)))
    (fun done field s s' hs hstep => by simpa using addField_gathers hs hjoined hstep)
    leaves [] (by simpa using h) hok

/-- One entry adds its joins, its demands and its descriptions. -/
theorem addPath_gathers (h : d.Gathers pairs demands fields) {entry : String}
    (hok : c.addPath d entry = .ok d') :
    d'.Gathers (pairs ++ c.pathPairs entry) (demands ++ c.pathDemands entry)
      (fields ++ c.pathFields entry) := by
  unfold pathPairs pathDemands pathFields
  cases hpath : c.completePath? entry with
  | none =>
    rw [addPath_of_incomplete hpath] at hok
    obtain rfl := Except.ok.inj hok
    simpa using h.withRecords _
  | some found =>
    obtain ⟨path, route⟩ := found
    rw [addPath_of_complete hpath] at hok
    obtain ⟨-, rfl, hcomplete⟩ := completePath?_eq_some.mp hpath
    obtain ⟨last, hlast, halias, -⟩ := Route.exists_join_of_isComplete hcomplete
    have hjoined := h.withJoins
      (Route.resolve c.registry c.options c.schema.name path.segments).joins
      fun _ => soundPair_of_mem_joinsFrom
    exact addFields_gathers hjoined ⟨last, List.mem_append_right _ hlast, halias⟩ _ hok

/-- The entries are those declared and requested, unless the request wants none, and those
inherited. -/
theorem mem_pathEntries {schema : Schema} {request : SearchRequest} {entry : String} :
    entry ∈ pathEntries schema request ↔
      request.noExtra = false ∧ (entry ∈ schema.extraPaths ∨ entry ∈ request.extraPaths) ∨
        ∃ name, (name, entry) ∈ schema.inheritedPaths := by
  unfold pathEntries
  rw [mem_insertNew, List.mem_append]
  cases request.noExtra <;> simp

/-- A property of the relations and the entries done so far, which each of them keeps, holds
at the end of an expansion. -/
theorem expand_induction {entries : List String} {draft : Draft}
    {motive : List (String × Relation) → List String → Draft → Prop}
    (hstart : motive [] [] (.start c.schema))
    (hrelation : ∀ relations entry d d', motive relations [] d → c.addRelation d entry = .ok d' →
      motive (relations ++ [entry]) [] d')
    (hpath : ∀ relations paths entry d d', motive relations paths d → c.addPath d entry = .ok d' →
      motive relations (paths ++ [entry]) d')
    (h : c.expand entries = .ok draft) : motive c.schema.relations entries draft := by
  unfold expand at h
  simp only [bind, Except.bind] at h
  split at h
  · cases h
  · next related hrelated =>
    have hrelations := foldlM_ok_induction (motive := fun done => motive done []) hrelation
      c.schema.relations [] hstart hrelated
    exact foldlM_ok_induction (hpath c.schema.relations) entries [] hrelations h

/-- The draft that the expansion ends with holds what the request asks for. -/
theorem expand_gathers {entries : List String} {draft : Draft}
    (hok : c.expand entries = .ok draft) :
    draft.Gathers (c.pairs entries) (c.demands entries) (c.fields entries) := by
  refine expand_induction
    (motive := fun relations paths (s : Draft) => s.Gathers
      (relations.flatMap c.relationPairs ++ paths.flatMap c.pathPairs)
      (relations.flatMap c.relationDemands ++ paths.flatMap c.pathDemands)
      (paths.flatMap c.pathFields)) (Draft.start_gathers c.schema) ?_ ?_ hok
  · intro relations entry s s' hs hstep
    simpa using addRelation_gathers hs hstep
  · intro relations paths entry s s' hs hstep
    simpa using addPath_gathers hs hstep

end Context

/-! ## Accepted plans -/

/-- What a request on a schema is planned against. -/
def Context.ofRequest (registry : Registry) (options : Options) (schema : Schema)
    (request : SearchRequest) : Context :=
  ⟨registry, options, schema, request.effectiveFilter⟩

section WithoutIdentifier

variable {registry : Registry} {options : Options} {schema : Schema} {request : SearchRequest}

/-- Without an identifier, the criteria are those of the filter. -/
theorem SearchRequest.criteria_eq_ofFilter (hid : request.id = none) :
    request.criteria schema = Condition.ofFilter schema request.filter := by
  unfold criteria
  rw [hid]

/-- Without an identifier, a request is planned with its filter. -/
theorem Context.filter_ofRequest (hid : request.id = none) :
    (Context.ofRequest registry options schema request).filter = request.filter := by
  show request.effectiveFilter = request.filter
  unfold SearchRequest.effectiveFilter
  rw [hid]
  rfl

end WithoutIdentifier

/-- A request for one document is planned as if it had no filter. -/
theorem Context.filter_ofRequest_of_id {registry : Registry} {options : Options}
    {schema : Schema} {request : SearchRequest} (hid : request.id.isSome) :
    (Context.ofRequest registry options schema request).filter = .empty := by
  show request.effectiveFilter = .empty
  unfold SearchRequest.effectiveFilter
  rw [if_pos hid]

namespace Plan

/-- The keys that the expansion writes, stage by stage. -/
def writtenKeys (plan : Plan) : List String := plan.expansion.flatMap Stage.writtenKeys

/-- The joins of an expansion are those of its blocks. -/
theorem joins_eq_of_expansion {plan : Plan} {blocks : List Block}
    (h : plan.expansion = blocks.flatMap Block.stages) :
    plan.joins = blocks.map (·.join) := by
  unfold joins
  rw [h, List.filterMap_flatMap, List.map_eq_flatMap]
  congr 1
  funext block
  simp [Block.stages, List.filterMap_map]

/-- The plan is laid out as the blocks, which hold what the request asks for. -/
structure Laid (plan : Plan) (c : Context) (entries : List String) (draft : Draft)
    (blocks : List Block) : Prop where
  gathers : draft.Gathers (c.pairs entries) (c.demands entries) (c.fields entries)
  holds : draft.builder.Holds (c.pairs entries) ((c.demands entries).map Demand.named) blocks
  expansion : plan.expansion = blocks.flatMap Block.stages
  extraFields : plan.extraFields = insertNew [] .back (c.fields entries)

/-- An accepted request has a schema, criteria and a draft, and its plan is made of them. -/
theorem exists_expand_of_accepted {registry : Registry} {options : Options}
    {request : SearchRequest} {plan : Plan}
    (h : (Plan.ofRequest registry options request).result = .ok plan) :
    ∃ schema criteria draft, registry.get? request.type = some schema ∧
      request.criteria schema = .ok criteria ∧
      (Context.ofRequest registry options schema request).expand
        (Context.pathEntries schema request) = .ok draft ∧
      plan = Plan.ofDraft registry schema request criteria draft := by
  unfold Plan.ofRequest at h
  split at h
  · cases h
  · next schema hschema =>
    split at h
    · cases h
    · next criteria hcriteria =>
      simp only at h
      split at h
      · cases h
      · next draft hdraft =>
        exact ⟨schema, criteria, draft, hschema, hcriteria, hdraft, (Except.ok.inj h).symm⟩

/-- An accepted request on a schema has criteria and a draft. -/
theorem exists_expand {registry : Registry} {options : Options} {request : SearchRequest}
    {plan : Plan} {schema : Schema} (hschema : registry.get? request.type = some schema)
    (h : (Plan.ofRequest registry options request).result = .ok plan) :
    ∃ criteria draft, request.criteria schema = .ok criteria ∧
      (Context.ofRequest registry options schema request).expand
        (Context.pathEntries schema request) = .ok draft ∧
      plan = Plan.ofDraft registry schema request criteria draft := by
  obtain ⟨schema', criteria, draft, hschema', hcriteria, hdraft, hplan⟩ :=
    exists_expand_of_accepted h
  rw [hschema] at hschema'
  obtain rfl := Option.some.inj hschema'
  exact ⟨criteria, draft, hcriteria, hdraft, hplan⟩

/-- An accepted request has a schema, and its plan is laid out as blocks. -/
theorem exists_laid_of_accepted {registry : Registry} {options : Options}
    {request : SearchRequest} {plan : Plan}
    (h : (Plan.ofRequest registry options request).result = .ok plan) :
    ∃ schema criteria draft blocks, registry.get? request.type = some schema ∧
      plan = Plan.ofDraft registry schema request criteria draft ∧
      plan.Laid (.ofRequest registry options schema request) (Context.pathEntries schema request)
        draft blocks := by
  obtain ⟨schema, criteria, draft, hschema, -, hdraft, rfl⟩ := exists_expand_of_accepted h
  have hgathers := Context.expand_gathers hdraft
  obtain ⟨blocks, hblocks⟩ := hgathers.holds
  exact ⟨schema, criteria, draft, blocks, hschema, rfl, hgathers, hblocks, hblocks.stages,
    hgathers.fields⟩

/-- The plan of an accepted request on a schema is laid out as blocks. -/
theorem exists_laid {registry : Registry} {options : Options} {request : SearchRequest}
    {plan : Plan} {schema : Schema} (hschema : registry.get? request.type = some schema)
    (h : (Plan.ofRequest registry options request).result = .ok plan) :
    ∃ draft blocks, plan.Laid (.ofRequest registry options schema request)
      (Context.pathEntries schema request) draft blocks := by
  obtain ⟨schema', criteria, draft, blocks, hschema', -, hlaid⟩ := exists_laid_of_accepted h
  rw [hschema] at hschema'
  obtain rfl := Option.some.inj hschema'
  exact ⟨draft, blocks, hlaid⟩

namespace Laid

variable {plan : Plan} {c : Context} {entries : List String} {draft : Draft} {blocks : List Block}

/-- The flattening of a block belongs to its join and preserves. -/
theorem sound (h : plan.Laid c entries draft blocks) {block : Block} (hblock : block ∈ blocks) :
    SoundPair block.pair :=
  h.gathers.sound block.pair (h.holds.pair_mem hblock)

/-- The keys written are those of the blocks' joins and flattenings. -/
theorem writtenKeys_eq (h : plan.Laid c entries draft blocks) :
    plan.writtenKeys = blocks.flatMap fun block => writes block.pair := by
  unfold writtenKeys
  rw [h.expansion, List.flatMap_assoc]
  congr 1
  funext block
  simp [Block.stages, Block.pair, writes, Stage.writtenKeys, List.flatMap_map]

/-- Every stage of an expansion treats the documents one by one. -/
theorem isLocal (h : plan.Laid c entries draft blocks) :
    ∀ stage ∈ plan.expansion, stage.isLocal := by
  intro stage hstage
  rw [h.expansion] at hstage
  obtain ⟨block, -, hstage⟩ := List.mem_flatMap.mp hstage
  simp only [Block.stages, List.mem_cons, List.mem_map] at hstage
  rcases hstage with rfl | rfl | ⟨condition, -, rfl⟩ <;> rfl

/-- The filter stages of an expansion are the filters of its blocks. -/
theorem filters_eq_nil (h : plan.Laid c entries draft blocks)
    (hfilters : ∀ stage ∈ plan.expansion, ¬stage.isFilter) {block : Block}
    (hblock : block ∈ blocks) : block.filters = [] := by
  refine List.eq_nil_iff_forall_not_mem.mpr fun condition hcondition => ?_
  refine hfilters (.filter condition) ?_ rfl
  rw [h.expansion]
  refine List.mem_flatMap.mpr ⟨block, hblock, ?_⟩
  simp [Block.stages, hcondition]

/-- An expansion without filters keeps every object. -/
theorem keepsObjects (h : plan.Laid c entries draft blocks)
    (hfilters : ∀ stage ∈ plan.expansion, ¬stage.isFilter) :
    ∀ stage ∈ plan.expansion, stage.keepsObjects := by
  intro stage hstage
  rw [h.expansion] at hstage
  obtain ⟨block, hblock, hstage⟩ := List.mem_flatMap.mp hstage
  simp only [Block.stages, h.filters_eq_nil hfilters hblock, List.map_nil, List.mem_cons,
    List.not_mem_nil, or_false] at hstage
  rcases hstage with rfl | rfl
  · rfl
  · exact (h.sound hblock).2

/-- An expansion touches only the keys that it writes. -/
theorem touchedKeys_subset (h : plan.Laid c entries draft blocks) {key : String}
    (hkey : key ∈ plan.expansion.flatMap Stage.touchedKeys) : key ∈ plan.writtenKeys := by
  rw [h.writtenKeys_eq]
  rw [h.expansion, List.flatMap_assoc] at hkey
  obtain ⟨block, hblock, hkey⟩ := List.mem_flatMap.mp hkey
  refine List.mem_flatMap.mpr ⟨block, hblock, ?_⟩
  have hname : block.flatten.asName = block.join.asName := (h.sound hblock).1
  simpa [Block.stages, Block.pair, writes, Stage.touchedKeys, List.flatMap_map, hname] using hkey

end Laid

end Plan

/-! ## A small world -/

/-- Orders with an owner, who may work for a company. -/
def orders : Registry :=
  (Registry.ofSchemas [
    (Schema.make "order" "1").withAttribute "owner"
      ((Attribute.ofTarget "person").withTraversalKey "name"),
    (Schema.make "person" "1").withAttribute "company" (.ofTarget "company"),
    Schema.make "company" "1"]).toOption.getD .empty

/-- The request for orders with the companies of their owners. -/
def orderRequest : SearchRequest :=
  { SearchRequest.ofType "order" with extraPaths := ["owner/company/name"] }

/-- The request for the orders of owners by their name and by their company's. -/
def ownerRequest : SearchRequest :=
  { orderRequest with
    filter := .ofList [("owner", .one "Ann"), ("owner/company/name", .many [":soft", "Acme"])] }

/-- What a computation shows of a planning holds of its plan. -/
theorem Plan.exists_of_check (planning : Except PlanError Plan) (check : Plan → Bool)
    (h : planning.toOption.any check = true) :
    ∃ plan, planning = .ok plan ∧ check plan = true := by
  cases planning with
  | error e => cases h
  | ok plan => exact ⟨plan, rfl, h⟩

end JoinPlan
