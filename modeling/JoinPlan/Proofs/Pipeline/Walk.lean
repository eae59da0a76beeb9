import JoinPlan.Pipeline.Alias

/-!
# The hops of a route and their joins

The hops of a route follow registered relations from one schema to the next:
`walk_follows`. From one schema, the fields followed determine the hops
(`Follows.eq_of_fields`), so a list of fields stands for one chain of joins. A route
goes as far as its segments can be followed (`Route.prefix_fields_iff`).

A route has one join for each hop (`mem_joinsFrom`), on the document that the hops
before it lead to. The last one finds the document at the end of a complete route
(`exists_join_of_isComplete`).
-/

namespace JoinPlan

/-- The hop is a registered relation of the schema and leads to the other one. It has the traversal
key that the relation declares, or `id`. -/
def Hop.Leads (registry : Registry) (schema : Schema) (hop : Hop) (target : Schema) : Prop :=
  ∃ relation, schema.relation? hop.field = some relation ∧
    registry.get? relation.target = some target ∧
    hop = ⟨hop.field, relation.target, relation.traversalKey.getD "id", target.idField⟩

/-- The hops follow registered relations, one after the other, from the schema. -/
def Follows (registry : Registry) : Schema → List Hop → Prop
  | _, [] => True
  | schema, hop :: rest => ∃ target, hop.Leads registry schema target ∧ Follows registry target rest

namespace Hop

variable {registry : Registry} {schema target : Schema} {hop : Hop}

theorem Leads.target_registered (h : hop.Leads registry schema target) :
    registry.get? hop.target = some target := by
  obtain ⟨relation, -, htarget, hhop⟩ := h
  rw [hhop]
  exact htarget

theorem Leads.foreignField (h : hop.Leads registry schema target) :
    hop.foreignField = target.idField := by
  obtain ⟨relation, -, -, hhop⟩ := h
  rw [hhop]

theorem Leads.relation (h : hop.Leads registry schema target) :
    ∃ relation, schema.relation? hop.field = some relation ∧ relation.target = hop.target := by
  obtain ⟨relation, hrelation, -, hhop⟩ := h
  exact ⟨relation, hrelation, by rw [hhop]⟩

/-- From one schema, the field determines the hop and where it leads. -/
theorem Leads.eq_of_field {other : Hop} {otherTarget : Schema}
    (h : hop.Leads registry schema target) (ho : other.Leads registry schema otherTarget)
    (hfield : hop.field = other.field) : hop = other ∧ target = otherTarget := by
  obtain ⟨relation, hrelation, htarget, hhop⟩ := h
  obtain ⟨relation', hrelation', htarget', hother⟩ := ho
  rw [hfield, hrelation'] at hrelation
  obtain rfl := Option.some.inj hrelation
  rw [htarget'] at htarget
  obtain rfl := Option.some.inj htarget
  exact ⟨by rw [hhop, hother, hfield], rfl⟩

end Hop

section Walk

variable {registry : Registry}

theorem follow_leads {schema target : Schema} {field : String} {hop : Hop}
    (h : Route.follow registry (some schema) field = .ok (hop, target)) :
    hop.Leads registry schema target := by
  unfold Route.follow at h
  split at h
  · cases h
  · next relation hrelation =>
    split at h
    · cases h
    · next target' htarget =>
      cases h
      exact ⟨relation, hrelation, htarget, rfl⟩

theorem follow_of_leads {schema target : Schema} {hop : Hop}
    (h : hop.Leads registry schema target) :
    Route.follow registry (some schema) hop.field = .ok (hop, target) := by
  obtain ⟨relation, hrelation, htarget, hhop⟩ := h
  unfold Route.follow
  rw [Option.bind_some, hrelation]
  simp only [htarget]
  exact congrArg (fun hop => Except.ok (hop, target)) hhop.symm

/-- A walk follows registered relations. -/
theorem walk_follows (options : Options) (schema : Schema) (segments : List String) :
    Follows registry schema (Route.walk registry options (some schema) segments).1 := by
  induction segments generalizing schema with
  | nil => trivial
  | cons segment rest ih =>
    simp only [Route.walk]
    split
    · trivial
    · next hop target hfollow => exact ⟨target, follow_leads hfollow, ih target⟩

/-- A walk without a dead end has a hop for every segment. -/
theorem length_walk {options : Options} {schema : Option Schema} {segments : List String}
    (h : (Route.walk registry options schema segments).2 = none) :
    (Route.walk registry options schema segments).1.length = segments.length := by
  induction segments generalizing schema with
  | nil => rfl
  | cons segment rest ih =>
    simp only [Route.walk] at h ⊢
    split at h
    · cases h
    · next hop target hfollow => exact congrArg (· + 1) (ih h)

/-- A walk follows the fields that its segments name, as far as it goes. -/
theorem prefix_fields_walk (options : Options) (schema : Option Schema) (segments : List String) :
    (Route.walk registry options schema segments).1.map (·.field) <+:
      segments.map options.fieldOf := by
  induction segments generalizing schema with
  | nil => exact List.nil_prefix
  | cons segment rest ih =>
    simp only [Route.walk]
    split
    · exact List.nil_prefix
    · next hop target hfollow =>
      have hfield : hop.field = options.fieldOf segment := by
        unfold Route.follow at hfollow
        split at hfollow
        · cases hfollow
        · split at hfollow
          · cases hfollow
          · cases hfollow
            rfl
      simp only [List.map_cons, hfield]
      exact (List.prefix_cons_inj _).mpr (ih (some target))

/-- A walk goes as far as hops follow the fields that its segments name. -/
theorem Follows.prefix_walk {options : Options} {schema : Schema} {hops : List Hop}
    {segments : List String} (h : Follows registry schema hops)
    (hfields : hops.map (·.field) <+: segments.map options.fieldOf) :
    hops <+: (Route.walk registry options (some schema) segments).1 := by
  induction hops generalizing schema segments with
  | nil => exact List.nil_prefix
  | cons hop rest ih =>
    obtain ⟨target, hleads, hrest⟩ := h
    cases segments with
    | nil => simp at hfields
    | cons segment segments =>
      obtain ⟨hfield, hfields⟩ := List.cons_prefix_cons.mp hfields
      simp only [Route.walk, ← hfield, follow_of_leads hleads]
      exact (List.prefix_cons_inj hop).mpr (ih hrest hfields)

theorem Follows.left {schema : Schema} {front back : List Hop}
    (h : Follows registry schema (front ++ back)) : Follows registry schema front := by
  induction front generalizing schema with
  | nil => trivial
  | cons hop rest ih =>
    obtain ⟨target, hleads, hrest⟩ := h
    exact ⟨target, hleads, ih hrest⟩

/-- From one schema, the fields determine the hops. -/
theorem Follows.eq_of_fields {schema : Schema} {hops others : List Hop}
    (h : Follows registry schema hops) (ho : Follows registry schema others)
    (hfields : hops.map (·.field) = others.map (·.field)) : hops = others := by
  induction hops generalizing schema others with
  | nil => exact (List.map_eq_nil_iff.mp hfields.symm).symm
  | cons hop rest ih =>
    cases others with
    | nil => cases hfields
    | cons other others =>
      obtain ⟨target, hleads, hrest⟩ := h
      obtain ⟨otherTarget, holeads, horest⟩ := ho
      obtain ⟨hfield, htail⟩ := List.cons.inj hfields
      obtain ⟨rfl, rfl⟩ := hleads.eq_of_field holeads hfield
      rw [ih hrest horest htail]

end Walk

/-! ## The joins of hops -/

/-- The join of a hop on the document that the fields `before` lead to. -/
def hopPair (before : List String) (hop : Hop) : Join × Flatten :=
  let asName := pathAlias (before ++ [hop.field])
  (⟨hop.target, referencePath before hop.field, hop.foreignField, asName⟩, .preserving asName)

theorem joinsFrom_cons (before : List String) (hop : Hop) (rest : List Hop) :
    joinsFrom before (hop :: rest) = hopPair before hop :: joinsFrom (before ++ [hop.field]) rest :=
  rfl

theorem joinsFrom_append (before : List String) (front back : List Hop) :
    joinsFrom before (front ++ back) =
      joinsFrom before front ++ joinsFrom (before ++ front.map (·.field)) back := by
  induction front generalizing before with
  | nil => simp [joinsFrom]
  | cons hop rest ih =>
    rw [List.cons_append, joinsFrom_cons, joinsFrom_cons, ih, List.cons_append, List.map_cons,
      List.append_assoc, List.singleton_append]

/-- Every join is that of a hop, on the document that the hops before it lead to. -/
theorem mem_joinsFrom {before : List String} {hops : List Hop} {pair : Join × Flatten} :
    pair ∈ joinsFrom before hops ↔
      ∃ front hop back, hops = front ++ hop :: back ∧
        pair = hopPair (before ++ front.map (·.field)) hop := by
  constructor
  · intro h
    induction hops generalizing before with
    | nil => cases h
    | cons hop rest ih =>
      rw [joinsFrom_cons] at h
      rcases List.mem_cons.mp h with rfl | h
      · exact ⟨[], hop, rest, rfl, by rw [List.map_nil, List.append_nil]⟩
      · obtain ⟨front, hop', back, rfl, rfl⟩ := ih h
        refine ⟨hop :: front, hop', back, rfl, ?_⟩
        rw [List.map_cons, List.append_assoc, List.singleton_append]
  · rintro ⟨front, hop, back, rfl, rfl⟩
    rw [joinsFrom_append, joinsFrom_cons]
    exact List.mem_append_right _ List.mem_cons_self

/-! ## Complete routes -/

namespace Route

variable {registry : Registry} {options : Options} {base : Schema} {segments : List String}

/-- A route that follows a hop starts at a registered type. -/
theorem exists_base_of_mem_hops {type : String} {hop : Hop}
    (h : hop ∈ (resolve registry options type segments).hops) :
    ∃ base, registry.get? type = some base := by
  cases hbase : registry.get? type with
  | some base => exact ⟨base, rfl⟩
  | none =>
    unfold resolve at h
    rw [hbase] at h
    cases segments with
    | nil => cases h
    | cons segment rest => cases h

theorem resolve_hops_follows {type : String} (h : registry.get? type = some base) :
    Follows registry base (resolve registry options type segments).hops := by
  unfold resolve
  rw [h]
  exact walk_follows options base segments

/-- A route begins with the fields that its segments begin with, as long as they can be
followed from the type. -/
theorem prefix_fields_iff {type : String} {fields : List String} (hne : fields ≠ []) :
    fields <+: (resolve registry options type segments).hops.map (·.field) ↔
      fields <+: segments.map options.fieldOf ∧ ∃ base hops, registry.get? type = some base ∧
        Follows registry base hops ∧ hops.map (·.field) = fields := by
  constructor
  · intro h
    obtain ⟨hops, hstart, rfl⟩ := List.prefix_map_iff.mp h
    obtain ⟨hop, hhop⟩ := List.exists_mem_of_ne_nil hops (mt (by rintro rfl; rfl) hne)
    obtain ⟨base, hbase⟩ := exists_base_of_mem_hops (hstart.subset hhop)
    refine ⟨h.trans (prefix_fields_walk options _ segments), base, hops, hbase, ?_, rfl⟩
    obtain ⟨rest, hrest⟩ := hstart
    have hfollows : Follows registry base (resolve registry options type segments).hops :=
      resolve_hops_follows hbase
    rw [← hrest] at hfollows
    exact hfollows.left
  · rintro ⟨hfields, base, hops, hbase, hfollows, rfl⟩
    unfold resolve
    rw [hbase]
    exact (hfollows.prefix_walk hfields).map _

/-- A complete route has a last hop, and it leads to the final target. -/
theorem exists_last_of_isComplete {type : String}
    (h : (resolve registry options type segments).isComplete) :
    ∃ front hop, (resolve registry options type segments).hops = front ++ [hop] ∧
      (resolve registry options type segments).finalTarget? = some hop.target := by
  simp only [isComplete, Bool.and_eq_true, Bool.not_eq_true', Option.isNone_iff_eq_none] at h
  obtain ⟨hsegments, hdead⟩ := h
  have hlength : (walk registry options (registry.get? type) segments).1.length = segments.length :=
    length_walk hdead
  have hne : (resolve registry options type segments).hops ≠ [] := by
    intro hnil
    rw [show (walk registry options (registry.get? type) segments).1 = [] from hnil] at hlength
    rw [List.isEmpty_eq_false_iff] at hsegments
    exact hsegments (List.length_eq_zero_iff.mp hlength.symm)
  have hsplit := List.dropLast_concat_getLast hne
  refine ⟨_, _, hsplit.symm, ?_⟩
  rw [finalTarget?, hdead, List.getLast?_eq_some_getLast hne]
  rfl

/-- The alias of a complete route is that of its last join, which reads the final
target. -/
theorem exists_join_of_isComplete {type : String}
    (h : (resolve registry options type segments).isComplete) :
    ∃ pair ∈ (resolve registry options type segments).joins,
      pair.1.asName = pathAlias ((resolve registry options type segments).hops.map (·.field)) ∧
      (resolve registry options type segments).finalTarget? = some pair.1.source := by
  obtain ⟨front, hop, hhops, htarget⟩ := exists_last_of_isComplete h
  refine ⟨hopPair (front.map (·.field)) hop, ?_, ?_, htarget⟩
  · exact mem_joinsFrom.mpr ⟨front, hop, [], hhops, by simp⟩
  · rw [hhops, List.map_append]
    rfl

end Route

end JoinPlan
