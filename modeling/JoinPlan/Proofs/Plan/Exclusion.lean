import JoinPlan.Proofs.Plan.Layout

/-!
# Excluded types

Options may exclude a resource type, and then relations of the requested type to it are
not joined. The paths of a request are followed all the same: a route takes no notice of
what is excluded. This file supplies how far an exclusion reaches.

> `Passes`: an entry that leads somewhere has a hop to the type.

An excluded type is joined exactly when an entry passes through it, whether the entry is
declared, asked for, or inherited (`joins_excluded_iff_passes`). For a join stands for a
relation that is not excluded or for a hop, `mem_sources_pairs_iff`, and the expansion
touches the requested type and what it joins, nothing else (`expand_touched`).
-/

namespace JoinPlan

/-! ## What an expansion touches -/

/-- The type whose documents a join finds. -/
def sourceOf (pair : Join × Flatten) : String := pair.1.source

namespace Context

variable {c : Context} {d d' : Draft}

theorem addRelation_touched {entry : String × Relation} (h : c.addRelation d entry = .ok d') :
    d'.touched = insertNew d.touched .back ((c.relationPairs entry).map sourceOf) := by
  unfold relationPairs
  cases hjoined : c.joinedSchema? entry.2 with
  | none =>
    rw [addRelation_of_unjoined hjoined] at h
    obtain rfl := Except.ok.inj h
    rfl
  | some target =>
    obtain ⟨builder, rfl⟩ := exists_eq_of_addRelation hjoined h
    rfl

theorem addPath_touched {entry : String} (h : c.addPath d entry = .ok d') :
    d'.touched = insertNew d.touched .back ((c.pathPairs entry).map sourceOf) := by
  unfold pathPairs
  cases hpath : c.completePath? entry with
  | none =>
    rw [addPath_of_incomplete hpath] at h
    obtain rfl := Except.ok.inj h
    rfl
  | some found =>
    obtain ⟨path, route⟩ := found
    rw [addPath_of_complete hpath] at h
    -- The joins are touched before the fields, which touch nothing more.
    obtain ⟨builder, extraFields, rfl⟩ := exists_eq_of_addFields h
    rfl

/-- An expansion touches the requested type and the types of its joins, in order. -/
theorem expand_touched {entries : List String} {draft : Draft}
    (h : c.expand entries = .ok draft) :
    draft.touched = insertNew [c.schema.name] .back ((c.pairs entries).map sourceOf) := by
  refine expand_induction
    (motive := fun relations paths (s : Draft) => s.touched = insertNew [c.schema.name] .back
      ((relations.flatMap c.relationPairs ++ paths.flatMap c.pathPairs).map sourceOf))
    rfl ?_ ?_ h
  · intro relations entry s s' hs hstep
    rw [addRelation_touched hstep, hs, ← insertNew_append]
    simp
  · intro relations paths entry s s' hs hstep
    rw [addPath_touched hstep, hs, ← insertNew_append]
    simp

/-! ## Types that are passed -/

/-- An entry that leads somewhere has a hop to the type. -/
def Passes (c : Context) (entries : List String) (type : String) : Prop :=
  ∃ entry ∈ entries, ∃ path route, c.completePath? entry = some (path, route) ∧
    ∃ hop ∈ route.hops, hop.target = type

/-- What a relation is joined with is not excluded. -/
theorem not_excludes_of_mem_relationPairs {entry : String × Relation} {pair : Join × Flatten}
    (h : pair ∈ c.relationPairs entry) : ¬c.options.excludes pair.1.source = true := by
  unfold relationPairs joinedSchema? at h
  by_cases hexcluded : c.options.excludes entry.2.target = true
  · rw [if_pos hexcluded] at h
    cases h
  · rw [if_neg hexcluded] at h
    split at h
    · cases h
    · rw [List.mem_singleton.mp h]
      exact hexcluded

/-- The joins of an entry find the documents of the types that its route passes. -/
theorem mem_sources_pathPairs_iff {entry type : String} :
    (∃ pair ∈ c.pathPairs entry, pair.1.source = type) ↔
      ∃ path route, c.completePath? entry = some (path, route) ∧
        ∃ hop ∈ route.hops, hop.target = type := by
  unfold pathPairs
  constructor
  · rintro ⟨pair, hpair, rfl⟩
    split at hpair
    · cases hpair
    · next path route hpath =>
      obtain ⟨front, hop, back, hhops, rfl⟩ := mem_joinsFrom.mp hpair
      refine ⟨path, route, hpath, hop, ?_, rfl⟩
      rw [hhops]
      exact List.mem_append_right _ List.mem_cons_self
  · rintro ⟨path, route, hpath, hop, hhop, rfl⟩
    obtain ⟨front, back, hhops⟩ := List.append_of_mem hhop
    simp only [hpath]
    exact ⟨_, mem_joinsFrom.mpr ⟨front, hop, back, hhops, rfl⟩, rfl⟩

/-- Documents of an excluded type are joined exactly for the entries that pass it. -/
theorem mem_sources_pairs_iff {entries : List String} {type : String}
    (hexcluded : c.options.excludes type = true) :
    (∃ pair ∈ c.pairs entries, pair.1.source = type) ↔ c.Passes entries type := by
  constructor
  · rintro ⟨pair, hpair, hsource⟩
    rcases List.mem_append.mp hpair with hrelation | hpath
    · obtain ⟨entry, -, hpair⟩ := List.mem_flatMap.mp hrelation
      have hnot := not_excludes_of_mem_relationPairs hpair
      rw [hsource] at hnot
      exact absurd hexcluded hnot
    · obtain ⟨entry, hentry, hpair⟩ := List.mem_flatMap.mp hpath
      exact ⟨entry, hentry, mem_sources_pathPairs_iff.mp ⟨pair, hpair, hsource⟩⟩
  · rintro ⟨entry, hentry, hpasses⟩
    obtain ⟨pair, hpair, hsource⟩ := mem_sources_pathPairs_iff.mpr hpasses
    refine ⟨pair, List.mem_append_right _ ?_, hsource⟩
    exact List.mem_flatMap.mpr ⟨entry, hentry, hpair⟩

end Context

/-! ## Accepted plans -/

namespace Plan

/-- A plan joins documents of the types that its request asks to join. -/
theorem Laid.mem_sources_iff {plan : Plan} {c : Context} {entries : List String} {draft : Draft}
    {blocks : List Block} (h : plan.Laid c entries draft blocks) {type : String} :
    (∃ join ∈ plan.joins, join.source = type) ↔
      ∃ pair ∈ c.pairs entries, pair.1.source = type := by
  rw [joins_eq_of_expansion h.expansion]
  constructor
  · rintro ⟨join, hjoin, rfl⟩
    obtain ⟨block, hblock, rfl⟩ := List.mem_map.mp hjoin
    exact ⟨block.pair, h.holds.pair_mem hblock, rfl⟩
  · rintro ⟨pair, hpair, rfl⟩
    obtain ⟨block, hblock, hkey⟩ := h.holds.exists_block hpair
    exact ⟨block.join, List.mem_map.mpr ⟨block, hblock, rfl⟩, congrArg (·.1) hkey⟩

/-- An accepted plan joins an excluded type exactly when an entry of the request passes
through it. It touches no other excluded type, the requested one apart. -/
theorem joins_excluded_iff_passes (registry : Registry) (options : Options)
    (request : SearchRequest) (plan : Plan) (schema : Schema) (type : String)
    (hschema : registry.get? request.type = some schema)
    (haccepted : (Plan.ofRequest registry options request).result = .ok plan)
    (hexcluded : options.excludes type = true) :
    ((∃ join ∈ plan.joins, join.source = type) ↔
      Context.Passes (.ofRequest registry options schema request)
        (Context.pathEntries schema request) type) ∧
    (type ∈ plan.touchedSchemas.map (·.name) → type ≠ request.type →
      Context.Passes (.ofRequest registry options schema request)
        (Context.pathEntries schema request) type) := by
  obtain ⟨criteria, draft, -, hdraft, rfl⟩ := exists_expand hschema haccepted
  obtain ⟨draft', blocks, hlaid⟩ := exists_laid hschema haccepted
  refine ⟨hlaid.mem_sources_iff.trans (Context.mem_sources_pairs_iff hexcluded), ?_⟩
  intro htouched hother
  obtain ⟨ref, href, rfl⟩ := List.mem_map.mp htouched
  -- A reference is that of a touched type, so the type is the base or a join's source.
  obtain ⟨name, hname, hversion⟩ := List.mem_filterMap.mp href
  obtain ⟨version, -, rfl⟩ := Option.map_eq_some_iff.mp hversion
  have hmem : name ∈ draft.touched := (List.mem_filter.mp hname).1
  rw [Context.expand_touched hdraft, mem_insertNew] at hmem
  rcases hmem with hbase | hjoined
  · have hrequested : schema.name = request.type := Registry.name_of_get? hschema
    have hname : name = schema.name := List.mem_singleton.mp hbase
    exact absurd (hname.trans hrequested) hother
  · obtain ⟨pair, hpair, hsource⟩ := List.mem_map.mp hjoined
    exact (Context.mem_sources_pairs_iff hexcluded).mp ⟨pair, hpair, hsource⟩

/-- Orders with a kind, of a type that is excluded unless options say otherwise. -/
def kinds : Registry :=
  (Registry.ofSchemas [
    (Schema.make "order" "1").withAttribute "kind" (.ofTarget "formtype"),
    (Schema.make "formtype" "1").withAttribute "label" (.ofScalar .string)]).toOption.getD .empty

/-- The request for orders with the labels of their kinds. -/
def kindRequest : SearchRequest :=
  { SearchRequest.ofType "order" with extraPaths := ["kind/label"] }

/-- The path to the label of a kind joins the excluded type and touches it. -/
theorem exists_join_excluded_kindRequest :
    ∃ plan, (Plan.ofRequest kinds .standard kindRequest).result = .ok plan ∧
      Options.standard.excludes "formtype" = true ∧
      (∃ join ∈ plan.joins, join.source = "formtype") ∧
      "formtype" ∈ plan.touchedSchemas.map (·.name) := by
  obtain ⟨plan, haccepted, hcheck⟩ := Plan.exists_of_check
    (Plan.ofRequest kinds .standard kindRequest).result
    (fun plan => (∃ join ∈ plan.joins, join.source = "formtype") ∧
      "formtype" ∈ plan.touchedSchemas.map (·.name))
    (by decide +kernel)
  obtain ⟨hjoined, htouched⟩ := of_decide_eq_true hcheck
  exact ⟨plan, haccepted, by decide, hjoined, htouched⟩

/-- The request for the labels of kinds has an entry that passes the excluded type. -/
theorem passes_kindRequest :
    ∃ plan schema, kinds.get? kindRequest.type = some schema ∧
      (Plan.ofRequest kinds .standard kindRequest).result = .ok plan ∧
      Options.standard.excludes "formtype" = true ∧ "formtype" ≠ kindRequest.type ∧
      Context.Passes (.ofRequest kinds .standard schema kindRequest)
        (Context.pathEntries schema kindRequest) "formtype" := by
  obtain ⟨plan, haccepted, hcheck⟩ := Plan.exists_of_check
    (Plan.ofRequest kinds .standard kindRequest).result
    (fun plan => "formtype" ∈ plan.touchedSchemas.map (·.name)) (by decide +kernel)
  obtain ⟨schema, -, -, hschema, -, -, -⟩ := exists_expand_of_accepted haccepted
  have hexcluded : Options.standard.excludes "formtype" = true := by decide
  have hother : "formtype" ≠ kindRequest.type := by decide
  have hpasses := (joins_excluded_iff_passes kinds .standard kindRequest plan schema "formtype"
    hschema haccepted hexcluded).2 (of_decide_eq_true hcheck) hother
  exact ⟨plan, schema, hschema, haccepted, hexcluded, hother, hpasses⟩

end Plan

end JoinPlan
