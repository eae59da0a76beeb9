import JoinPlan.Proofs.Plan.Layout

/-!
# Plans are well scoped

A stage that reads under an alias which no earlier stage writes finds nothing, and no
run of a pipeline tells. This file supplies that accepted plans have no such stage.

> `ScopedFrom`: every join reads a reference of the requested schema, or of the schema
> of a document joined before it.

The joins of one relation and those of one entry are scoped by themselves
(`relationPairs_scopedFrom`, `joinsFrom_scopedFrom`). A join stays scoped when more is
joined before it, so the property passes to all joins of a request (`ScopedFrom.append`)
and to the joins that are left after repetitions are dropped (`scopedFrom_firstJoins`):
what a later join reads is then joined by an earlier one that reads the same collection
under the same alias.
-/

namespace JoinPlan

/-! ## Scoped joins -/

/-- The field of the schema is a relation to the type. -/
def Schema.RefersTo (schema : Schema) (field type : String) : Prop :=
  ∃ relation, schema.relation? field = some relation ∧ relation.target = type

/-- The join finds documents of a registered type by their identifier. What it looks
for is the reference in a relation to that type: one of the requested schema, or one of
the schema of a document joined before. -/
structure Join.Scoped (registry : Registry) (base : Schema) (earlier : List Join) (j : Join) :
    Prop where
  target : ∃ target, registry.get? j.source = some target ∧ j.foreignField = target.idField
  reference :
    (∃ field, base.RefersTo field j.source ∧ j.localField = field ++ "." ++ referenceKey) ∨
    (∃ a ∈ earlier, ∃ schema field, registry.get? a.source = some schema ∧
      schema.RefersTo field j.source ∧
      j.localField = a.asName ++ "." ++ field ++ "." ++ referenceKey)

/-- Every join is scoped by the ones before it. -/
inductive ScopedFrom (registry : Registry) (base : Schema) :
    List Join → List (Join × Flatten) → Prop
  | nil (earlier : List Join) : ScopedFrom registry base earlier []
  | cons {earlier : List Join} {pair : Join × Flatten} {rest : List (Join × Flatten)}
      (first : pair.1.Scoped registry base earlier)
      (others : ScopedFrom registry base (earlier ++ [pair.1]) rest) :
      ScopedFrom registry base earlier (pair :: rest)

/-- Every join on the left has one with the same key on the right. -/
def Covers (joins others : List Join) : Prop := ∀ j ∈ joins, ∃ k ∈ others, k.key = j.key

section Scoped

variable {registry : Registry} {base : Schema} {earlier others : List Join}

theorem Covers.append_singleton {join : Join} (h : Covers earlier others)
    (hjoin : ∃ k ∈ others, k.key = join.key) : Covers (earlier ++ [join]) others := by
  intro j hj
  rcases List.mem_append.mp hj with hold | hnew
  · exact h j hold
  · rw [List.mem_singleton.mp hnew]
    exact hjoin

theorem Covers.append_right (h : Covers earlier others) (join : Join) :
    Covers (earlier ++ [join]) (others ++ [join]) := by
  refine Covers.append_singleton (fun j hj => ?_) ⟨join, by simp, rfl⟩
  obtain ⟨k, hk, hkey⟩ := h j hj
  exact ⟨k, List.mem_append_left _ hk, hkey⟩

/-- A key tells the collection and the alias of a join, which is all that a later join
needs of it. -/
theorem Join.Scoped.of_covers {join : Join} (h : join.Scoped registry base earlier)
    (hcovers : Covers earlier others) : join.Scoped registry base others := by
  refine ⟨h.target, ?_⟩
  rcases h.reference with hbase | ⟨a, ha, schema, field, hschema, hrefers, hlocal⟩
  · exact .inl hbase
  · obtain ⟨k, hk, hkey⟩ := hcovers a ha
    have hsource : k.source = a.source := congrArg (·.1) hkey
    have hname : k.asName = a.asName := congrArg (·.2.2) hkey
    refine .inr ⟨k, hk, schema, field, ?_, hrefers, ?_⟩
    · rw [hsource]
      exact hschema
    · rw [hname]
      exact hlocal

/-- Dropping repetitions keeps joins scoped. -/
theorem scopedFrom_firstJoins {pairs : List (Join × Flatten)} (hcovers : Covers earlier others)
    (h : ScopedFrom registry base earlier pairs) :
    ScopedFrom registry base others (firstJoins (others.map Join.key) pairs) := by
  induction h generalizing others with
  | nil earlier => exact .nil others
  | @cons earlier pair rest hpair _ ih =>
    by_cases hseen : pair.1.key ∈ others.map Join.key
    · rw [firstJoins_cons_of_mem hseen]
      -- A repeated join is dropped, and the one kept before stands in for it.
      exact ih (hcovers.append_singleton (List.mem_map.mp hseen))
    · have htail := ih (hcovers.append_right pair.1)
      rw [List.map_append] at htail
      rw [firstJoins_cons_of_notMem hseen]
      exact .cons (hpair.of_covers hcovers) htail

theorem ScopedFrom.of_subset {pairs : List (Join × Flatten)}
    (h : ScopedFrom registry base earlier pairs) (hsub : earlier ⊆ others) :
    ScopedFrom registry base others pairs := by
  induction h generalizing others with
  | nil earlier => exact .nil others
  | cons hpair _ ih =>
    refine .cons (hpair.of_covers fun j hj => ⟨j, hsub hj, rfl⟩) (ih fun j hj => ?_)
    rcases List.mem_append.mp hj with hold | hnew
    · exact List.mem_append_left _ (hsub hold)
    · exact List.mem_append_right _ hnew

theorem ScopedFrom.append {front back : List (Join × Flatten)}
    (hfront : ScopedFrom registry base earlier front)
    (hback : ScopedFrom registry base (earlier ++ front.map Prod.fst) back) :
    ScopedFrom registry base earlier (front ++ back) := by
  induction hfront with
  | nil earlier => simpa using hback
  | @cons earlier pair rest hpair _ ih =>
    refine .cons hpair (ih ?_)
    rwa [List.append_assoc, List.singleton_append]

/-- A join among others is scoped by those before it. -/
theorem ScopedFrom.join_scoped {front back : List (Join × Flatten)} {pair : Join × Flatten}
    (h : ScopedFrom registry base earlier (front ++ pair :: back)) :
    pair.1.Scoped registry base (earlier ++ front.map Prod.fst) := by
  induction front generalizing earlier with
  | nil =>
    cases h with
    | cons hpair _ => simpa using hpair
  | cons first rest ih =>
    cases h with
    | cons _ hrest =>
      rw [List.map_cons, ← List.singleton_append, ← List.append_assoc]
      exact ih hrest

/-- Lists of joins that are scoped by themselves are scoped one after the other. -/
theorem scopedFrom_flatMap {α : Type} {f : α → List (Join × Flatten)} {xs : List α}
    (h : ∀ x ∈ xs, ScopedFrom registry base [] (f x)) :
    ScopedFrom registry base earlier (xs.flatMap f) := by
  induction xs generalizing earlier with
  | nil => exact .nil earlier
  | cons x rest ih =>
    have hx := (h x List.mem_cons_self).of_subset (List.nil_subset earlier)
    rw [List.flatMap_cons]
    exact hx.append (ih fun y hy => h y (List.mem_cons_of_mem _ hy))

end Scoped

/-! ## The joins of a request -/

section Request

variable {registry : Registry} {base : Schema}

/-- Hops from the requested schema, or from one that a join before them reads, give
scoped joins. -/
theorem joinsFrom_scopedFrom {schema : Schema} {hops : List Hop} {before : List String}
    {earlier : List Join} (h : Follows registry schema hops)
    (hbefore : before = [] ∧ schema = base ∨ before ≠ [] ∧
      ∃ a ∈ earlier, a.asName = pathAlias before ∧ registry.get? a.source = some schema) :
    ScopedFrom registry base earlier (joinsFrom before hops) := by
  induction hops generalizing schema before earlier with
  | nil => exact .nil earlier
  | cons hop rest ih =>
    obtain ⟨target, hleads, hrest⟩ := h
    have hrefers : schema.RefersTo hop.field hop.target := hleads.relation
    rw [joinsFrom_cons]
    -- The join of this hop is the one whose alias the next hop reads.
    refine .cons ⟨⟨target, hleads.target_registered, hleads.foreignField⟩, ?_⟩ (ih hrest (.inr ?_))
    · rcases hbefore with ⟨rfl, rfl⟩ | ⟨hne, a, ha, hname, hschema⟩
      · exact .inl ⟨hop.field, hrefers, rfl⟩
      · refine .inr ⟨a, ha, schema, hop.field, hschema, hrefers, ?_⟩
        cases before with
        | nil => exact absurd rfl hne
        | cons first more =>
          rw [hname]
          rfl
    · refine ⟨by simp, (hopPair before hop).1, by simp, rfl, ?_⟩
      exact hleads.target_registered

namespace Context

variable {c : Context}

theorem relationPairs_scopedFrom {entry : String × Relation} (h : entry ∈ c.schema.relations) :
    ScopedFrom c.registry c.schema [] (c.relationPairs entry) := by
  obtain ⟨name, relation⟩ := entry
  unfold relationPairs joinedSchema?
  split
  · exact .nil []
  · next target htarget =>
    split at htarget
    · cases htarget
    · refine .cons ⟨⟨target, htarget, rfl⟩, .inl ⟨name, ?_, rfl⟩⟩ (.nil _)
      exact ⟨relation, Schema.mem_relations_iff.mp h, rfl⟩

theorem pathPairs_scopedFrom (h : c.registry.get? c.schema.name = some c.schema) (entry : String) :
    ScopedFrom c.registry c.schema [] (c.pathPairs entry) := by
  unfold pathPairs
  split
  · exact .nil []
  · next path route hpath =>
    obtain ⟨-, rfl, -⟩ := completePath?_eq_some.mp hpath
    exact joinsFrom_scopedFrom (Route.resolve_hops_follows h) (.inl ⟨rfl, rfl⟩)

/-- The joins that a request asks for are scoped. -/
theorem pairs_scopedFrom (h : c.registry.get? c.schema.name = some c.schema)
    (entries : List String) : ScopedFrom c.registry c.schema [] (c.pairs entries) := by
  unfold pairs
  refine ScopedFrom.append (scopedFrom_flatMap fun entry hentry => ?_)
    (scopedFrom_flatMap fun entry _ => ?_)
  · exact relationPairs_scopedFrom hentry
  · exact pathPairs_scopedFrom h entry

/-- The last join of an entry is that of the fields described. -/
theorem exists_pair_of_mem_fields {entries : List String} {f : ExtraField}
    (h : f ∈ c.fields entries) :
    ∃ pair ∈ c.pairs entries, pair.1.asName = f.asName ∧ pair.1.source = f.table := by
  obtain ⟨entry, hentry, path, route, hpath, field, -, rfl⟩ := mem_fields.mp h
  obtain ⟨-, rfl, hcomplete⟩ := completePath?_eq_some.mp hpath
  obtain ⟨pair, hpair, hname, htarget⟩ := Route.exists_join_of_isComplete hcomplete
  refine ⟨pair, List.mem_append_right _ (List.mem_flatMap.mpr ⟨entry, hentry, ?_⟩), hname, ?_⟩
  · unfold pathPairs
    rw [hpath]
    exact hpair
  · show pair.1.source = _
    rw [describe, htarget]
    rfl

end Context

end Request

/-! ## Accepted plans -/

/-- A block among those before it: its join is scoped by theirs, the flattening belongs
to the join, and the filters read the document that the join found. -/
structure Block.Scoped (registry : Registry) (base : Schema) (earlier : List Block) (b : Block) :
    Prop where
  join : b.join.Scoped registry base (earlier.map Block.join)
  flatten : SoundPair b.pair
  filters : ∀ condition ∈ b.filters, ∀ path ∈ condition.paths,
    ∃ key, path = b.join.asName ++ "." ++ key

/-- What a sort key reads for a field: the traversal key of a relation that is joined,
else the value of an extra field, else the field itself. -/
inductive SortKey.Reads (schema : Schema) (fields : List ExtraField) (blocks : List Block)
    (field : String) : String → Prop
  | relation {r : Relation} {key : String} {b : Block} (relation : schema.relation? field = some r)
      (traversal : r.traversalKey = some key) (joined : b ∈ blocks)
      (asName : b.join.asName = relationAlias r.target field) :
      Reads schema fields blocks field (b.join.asName ++ "." ++ key)
  | extraField {f : ExtraField} {b : Block} (described : f ∈ fields) (path : f.path = field)
      (joined : b ∈ blocks) (asName : b.join.asName = f.asName) (source : b.join.source = f.table) :
      Reads schema fields blocks field (b.join.asName ++ "." ++ f.field)
  | itself (notJoined : ∀ r, schema.relation? field = some r → r.traversalKey.isSome →
        ∀ b ∈ blocks, b.join.asName ≠ relationAlias r.target field)
      (notDescribed : ∀ f ∈ fields, f.path ≠ field) :
      Reads schema fields blocks field field

/-- The plan is a sequence of scoped blocks, and what it says about fields and sorting
is about documents that the blocks join. -/
structure Plan.WellScoped (plan : Plan) (registry : Registry) (schema : Schema)
    (request : SearchRequest) (blocks : List Block) : Prop where
  expansion : plan.expansion = blocks.flatMap Block.stages
  each : ∀ earlier b later, blocks = earlier ++ b :: later → b.Scoped registry schema earlier
  extraFields : ∀ f ∈ plan.extraFields,
    ∃ b ∈ blocks, b.join.asName = f.asName ∧ b.join.source = f.table
  sort : ∀ key ∈ plan.sort, ∃ text ∈ request.sort, (SortKey.split text).1 ≠ "" ∧
    key.direction = (SortKey.split text).2 ∧
    SortKey.Reads schema plan.extraFields blocks (SortKey.split text).1 key.path

namespace Plan.Laid

variable {plan : Plan} {c : Context} {entries : List String} {draft : Draft} {blocks : List Block}

/-- The filters of a block are demands under its alias. -/
theorem exists_demand (h : plan.Laid c entries draft blocks) {block : Block}
    (hblock : block ∈ blocks) {condition : Condition} (hcondition : condition ∈ block.filters) :
    ∃ demand ∈ c.demands entries,
      demand.asName = block.join.asName ∧ demand.condition = condition := by
  have hnamed : (block.join.asName, condition) ∈ blocks.flatMap Block.named :=
    List.mem_flatMap.mpr ⟨block, hblock, List.mem_map.mpr ⟨condition, hcondition, rfl⟩⟩
  obtain ⟨demand, hdemand, heq⟩ := List.mem_map.mp (h.holds.filters.mem_iff.mp hnamed)
  obtain ⟨hname, hcond⟩ := Prod.mk.inj heq
  exact ⟨demand, hdemand, hname, hcond⟩

/-- Every block is scoped by the ones before it. -/
theorem block_scoped (h : plan.Laid c entries draft blocks)
    (hschema : c.registry.get? c.schema.name = some c.schema) {earlier later : List Block}
    {block : Block} (hsplit : blocks = earlier ++ block :: later) :
    block.Scoped c.registry c.schema earlier := by
  have hblock : block ∈ blocks := hsplit ▸ List.mem_append_right _ List.mem_cons_self
  have hjoins : ScopedFrom c.registry c.schema [] (firstJoins [] (c.pairs entries)) :=
    scopedFrom_firstJoins (by simp [Covers]) (Context.pairs_scopedFrom hschema entries)
  rw [← h.holds.pairs, hsplit, List.map_append, List.map_cons] at hjoins
  have hjoin := hjoins.join_scoped
  rw [List.nil_append, List.map_map] at hjoin
  refine ⟨hjoin, h.sound hblock, fun condition hcondition path hpath => ?_⟩
  obtain ⟨demand, hdemand, hname, rfl⟩ := h.exists_demand hblock hcondition
  have hcompiled := Demand.compiled_eq (h.gathers.casts demand hdemand)
  refine ⟨demand.key, ?_⟩
  rw [← hname]
  exact Condition.eq_of_mem_paths_ofTokens hcompiled hpath

/-- A described field stands under the alias of a block that reads its table. -/
theorem exists_block_of_mem_extraFields (h : plan.Laid c entries draft blocks) {f : ExtraField}
    (hf : f ∈ plan.extraFields) :
    ∃ b ∈ blocks, b.join.asName = f.asName ∧ b.join.source = f.table := by
  rw [h.extraFields] at hf
  rcases mem_of_mem_insertNew hf with hnil | hf
  · cases hnil
  · obtain ⟨pair, hpair, hname, htable⟩ := Context.exists_pair_of_mem_fields hf
    obtain ⟨b, hb, hkey⟩ := h.holds.exists_block hpair
    have hsource : b.join.source = pair.1.source := congrArg (·.1) hkey
    have halias : b.join.asName = pair.1.asName := congrArg (·.2.2) hkey
    exact ⟨b, hb, halias.trans hname, hsource.trans htable⟩

/-- A field is sorted by where a join puts its value, or by itself. -/
theorem reads_pathFor (h : plan.Laid c entries draft blocks)
    (hfields : draft.extraFields = plan.extraFields) (field : String) :
    SortKey.Reads c.schema plan.extraFields blocks field
      (SortKey.pathFor c.schema draft field) := by
  unfold SortKey.pathFor
  cases hrelation : SortKey.relationPath? c.schema draft.builder field with
  | some path =>
    unfold SortKey.relationPath? at hrelation
    simp only [Option.bind_eq_bind, Option.bind_eq_some_iff] at hrelation
    obtain ⟨r, hr, key, hkey, hpath⟩ := hrelation
    split at hpath
    · next hjoined =>
      obtain ⟨b, hb, hname⟩ := (h.holds.hasAlias_iff _).mp hjoined
      obtain rfl := Option.some.inj hpath
      rw [Option.some_or, Option.getD_some, ← hname]
      exact .relation hr hkey hb hname
    · cases hpath
  | none =>
    rw [Option.none_or, hfields]
    cases hfound : plan.extraFields.find? (·.path = field) with
    | some f =>
      have hf := List.mem_of_find?_eq_some hfound
      have hpath : f.path = field := by simpa using List.find?_some hfound
      obtain ⟨b, hb, hname, hsource⟩ := h.exists_block_of_mem_extraFields hf
      rw [Option.map_some, Option.getD_some, ExtraField.valuePath, ← hname]
      exact .extraField hf hpath hb hname hsource
    | none =>
      refine .itself (fun r hr hkey b hb hname => ?_) (fun f hf hpath => ?_)
      -- A relation with a joined alias would have been found before the fields.
      · obtain ⟨key, hkey⟩ := Option.isSome_iff_exists.mp hkey
        have hjoined := (h.holds.hasAlias_iff _).mpr ⟨b, hb, hname⟩
        simp [SortKey.relationPath?, hr, hkey, hjoined] at hrelation
      · have hother := List.find?_eq_none.mp hfound f hf
        simp [hpath] at hother

end Plan.Laid

/-- Every accepted plan is well scoped. -/
theorem Plan.exists_wellScoped_of_accepted (registry : Registry) (options : Options)
    (request : SearchRequest) (plan : Plan)
    (haccepted : (Plan.ofRequest registry options request).result = .ok plan) :
    ∃ schema blocks, registry.get? request.type = some schema ∧
      plan.WellScoped registry schema request blocks := by
  obtain ⟨schema, criteria, draft, blocks, hschema, hplan, hlaid⟩ :=
    Plan.exists_laid_of_accepted haccepted
  have hname := Registry.name_of_get? hschema
  refine ⟨schema, blocks, hschema, hlaid.expansion, fun earlier b later hsplit => ?_,
    fun f => hlaid.exists_block_of_mem_extraFields, fun key hkey => ?_⟩
  · refine hlaid.block_scoped ?_ hsplit
    rw [← hname] at hschema
    exact hschema
  · have hsort : plan.sort = request.sort.filterMap (SortKey.ofText? schema draft) :=
      congrArg Plan.sort hplan
    have hfields : draft.extraFields = plan.extraFields := (congrArg Plan.extraFields hplan).symm
    rw [hsort] at hkey
    obtain ⟨text, htext, hkey⟩ := List.mem_filterMap.mp hkey
    unfold SortKey.ofText? at hkey
    simp only at hkey
    split at hkey
    · cases hkey
    · next hnamed =>
      obtain rfl := Option.some.inj hkey
      refine ⟨text, htext, ?_, rfl, hlaid.reads_pathFor hfields _⟩
      simpa using hnamed

/-- The plan for orders by owner and company, sorted by both, is well scoped. -/
theorem Plan.exists_wellScoped_ownerRequest :
    ∃ plan schema blocks,
      (Plan.ofRequest orders .standard { ownerRequest with sort :=
        ["<owner", "owner/company/name"] }).result = .ok plan ∧
      plan.expansion.length = 8 ∧
      plan.sort = [⟨"__person/owner.name", .descending⟩, ⟨"__owner/company.name", .ascending⟩] ∧
      plan.WellScoped orders schema { ownerRequest with sort := ["<owner", "owner/company/name"] }
        blocks := by
  obtain ⟨plan, haccepted, hcheck⟩ := Plan.exists_of_check
    (Plan.ofRequest orders .standard { ownerRequest with sort :=
      ["<owner", "owner/company/name"] }).result
    (fun plan => plan.expansion.length == 8 && plan.sort ==
      [⟨"__person/owner.name", .descending⟩, ⟨"__owner/company.name", .ascending⟩])
    (by decide +kernel)
  obtain ⟨hlength, hsort⟩ := (Bool.and_eq_true _ _).mp hcheck
  obtain ⟨schema, blocks, -, hscoped⟩ :=
    Plan.exists_wellScoped_of_accepted orders .standard _ plan haccepted
  exact ⟨plan, schema, blocks, haccepted, beq_iff_eq.mp hlength, beq_iff_eq.mp hsort, hscoped⟩

end JoinPlan
