import JoinPlan.Proofs.OrderedSet
import JoinPlan.Proofs.Plan.Exclusion
import JoinPlan.Proofs.Plan.Naming

/-!
# Touched schemas and joins

A draft keeps two lists in two ways. Its builder takes a join unless the whole key of the
join was taken, and its touched types grow by every type that is new to them. This file
supplies that the two stay in step.

> `touchedSchemas_eq_joined`: the touched schemas are the collection and the sources of the
> joins at their first occurrences, without those that the client holds.

The key of a join begins with its source, so a join that the builder drops has a source that
is touched already (`insertNew_sources_firstJoins`), and inserting what is new from an empty
list is keeping first occurrences (`insertNew_nil_back`). A join is on a registered type,
hence each touched name has a version.
-/

namespace JoinPlan

/-! ## First occurrences -/

/-- A join that was seen before has a source that is there, so the joins kept insert the
same sources as all of them. -/
theorem insertNew_sources_firstJoins {set : List String} {seen : List JoinKey}
    (h : ∀ key ∈ seen, key.1 ∈ set) (pairs : List (Join × Flatten)) :
    insertNew set .back ((firstJoins seen pairs).map sourceOf) =
      insertNew set .back (pairs.map sourceOf) := by
  induction pairs generalizing set seen with
  | nil => rfl
  | cons pair rest ih =>
    show _ = insertNew (insertOne .back set (sourceOf pair)) .back (rest.map sourceOf)
    by_cases hseen : pair.1.key ∈ seen
    · have hsource : sourceOf pair ∈ set := h _ hseen
      rw [firstJoins_cons_of_mem hseen, insertOne_of_mem hsource]
      exact ih h
    · rw [firstJoins_cons_of_notMem hseen]
      refine ih fun key hkey => mem_insertOne.mpr ?_
      rcases List.mem_append.mp hkey with hold | hnew
      · exact .inl (h key hold)
      · exact .inr (congrArg Prod.fst (List.mem_singleton.mp hnew))

/-! ## Held versions -/

namespace CachedSchemas

/-- The first entry of that name carries the registered version. -/
def Holds (held : CachedSchemas) (registry : Registry) (name : String) : Prop :=
  ∃ before version after, held.entries = before ++ (name, version) :: after ∧
    (∀ entry ∈ before, entry.1 ≠ name) ∧ registry.version? name = some version

theorem holdsCurrent_iff {held : CachedSchemas} {registry : Registry} {name : String} :
    held.holdsCurrent registry name = true ↔ held.Holds registry name := by
  have hcurrent : held.holdsCurrent registry name = true ↔
      ∃ version, held.version? name = some version ∧ registry.version? name = some version := by
    unfold holdsCurrent
    cases held.version? name with
    | none => simp
    | some version =>
      cases registry.version? name with
      | none => simp
      | some current =>
        simp only [beq_iff_eq, Option.some.injEq, exists_eq_left']
        exact eq_comm
  rw [hcurrent]
  unfold version?
  constructor
  · rintro ⟨version, hheld, hregistered⟩
    obtain ⟨before, after, hentries, hbefore⟩ := List.lookup_eq_some_iff.mp hheld
    refine ⟨before, version, after, hentries, fun entry hentry => ?_, hregistered⟩
    exact (bne_iff_ne.mp (hbefore entry hentry)).symm
  · rintro ⟨before, version, after, hentries, hbefore, hregistered⟩
    refine ⟨version, List.lookup_eq_some_iff.mpr ⟨before, after, hentries, ?_⟩, hregistered⟩
    intro entry hentry
    exact bne_iff_ne.mpr (hbefore entry hentry).symm

instance (held : CachedSchemas) (registry : Registry) (name : String) :
    Decidable (held.Holds registry name) :=
  decidable_of_iff _ holdsCurrent_iff

end CachedSchemas

namespace Plan

/-- What is touched of registered types are those that the client does not hold, each with
its version. -/
theorem map_touchedSchemas? {registry : Registry} (held : CachedSchemas) {touched : List String}
    (h : ∀ name ∈ touched, (registry.get? name).isSome) :
    (touchedSchemas? registry held touched).map (fun ref => (ref.name, some ref.version)) =
      (touched.filter fun name => ¬held.Holds registry name).map fun name =>
        (name, registry.version? name) := by
  have hheld : ∀ name, (!held.holdsCurrent registry name) = decide ¬held.Holds registry name := by
    intro name
    rw [Bool.eq_iff_iff, Bool.not_eq_true', decide_eq_true_iff, ← CachedSchemas.holdsCurrent_iff,
      Bool.not_eq_true]
  unfold touchedSchemas?
  simp only [hheld, List.map_filterMap]
  rw [← List.filterMap_eq_map]
  refine List.filterMap_congr fun name hname => ?_
  obtain ⟨schema, hschema⟩ := Option.isSome_iff_exists.mp (h name (List.mem_filter.mp hname).1)
  have hversion : registry.version? name = some schema.version := by
    rw [Registry.version?, hschema, Option.map_some]
  simp [hversion]

/-- An expansion touches the collection and the sources of its joins, each once. -/
theorem Laid.touched_eq {plan : Plan} {c : Context} {entries : List String}
    {draft draft' : Draft} {blocks : List Block} (h : plan.Laid c entries draft blocks)
    (hdraft : c.expand entries = .ok draft') :
    draft'.touched = (c.schema.name :: plan.joins.map (·.source)).eraseDups := by
  have hsources : plan.joins.map (·.source) = (firstJoins [] (c.pairs entries)).map sourceOf := by
    rw [joins_eq_of_expansion h.expansion, ← h.holds.pairs, List.map_map, List.map_map]
    rfl
  rw [Context.expand_touched hdraft, hsources, ← insertNew_nil_back]
  exact (insertNew_sources_firstJoins (by simp) _).symm

/-- Every type that is touched has a version, so only what is held is left out. -/
theorem map_touchedSchemas_of_accepted {registry : Registry} {options : Options}
    {request : SearchRequest} {plan : Plan}
    (haccepted : (Plan.ofRequest registry options request).result = .ok plan) :
    plan.touchedSchemas.map (fun ref => (ref.name, some ref.version)) =
      ((plan.collection :: plan.joins.map (·.source)).eraseDups.filter
        fun name => ¬request.cachedSchemas.Holds registry name).map
          fun name => (name, registry.version? name) := by
  obtain ⟨schema, criteria, draft, hschema, -, hdraft, rfl⟩ := exists_expand_of_accepted haccepted
  obtain ⟨draft', blocks, hlaid⟩ := exists_laid hschema haccepted
  have hbase : registry.get? schema.name = some schema := by
    rwa [Registry.name_of_get? hschema]
  have htouched := hlaid.touched_eq hdraft
  show (touchedSchemas? registry request.cachedSchemas draft.touched).map _ = _
  rw [map_touchedSchemas?, htouched]
  · rfl
  · intro name hname
    rw [Context.expand_touched hdraft, mem_insertNew, List.mem_singleton] at hname
    rcases hname with rfl | hjoined
    · exact Option.isSome_of_eq_some hbase
    · obtain ⟨pair, hpair, rfl⟩ := List.mem_map.mp hjoined
      obtain ⟨target, htarget, -⟩ := Context.exists_target_of_mem_pairs hbase hpair
      exact Option.isSome_of_eq_some htarget

/-- The touched schemas mirror the joins. They are the collection and the sources of the
joins in the order of the pipeline, at their first occurrences, without those that the client
holds in the registered version, and each with that version. So none is there twice, each is
registered, and no schema that is joined and not held is left out. -/
theorem touchedSchemas_eq_joined (registry : Registry) (options : Options)
    (request : SearchRequest) (plan : Plan)
    (haccepted : (Plan.ofRequest registry options request).result = .ok plan) :
    plan.touchedSchemas.map (fun ref => (ref.name, some ref.version)) =
        ((plan.collection :: plan.joins.map (·.source)).eraseDups.filter
          fun name => ¬request.cachedSchemas.Holds registry name).map
            (fun name => (name, registry.version? name)) ∧
      (plan.touchedSchemas.map (·.name)).Nodup ∧
      (∀ ref ∈ plan.touchedSchemas, registry.version? ref.name = some ref.version) ∧
      (∀ join ∈ plan.joins, ¬request.cachedSchemas.Holds registry join.source →
        join.source ∈ plan.touchedSchemas.map (·.name)) := by
  have hrefs := map_touchedSchemas_of_accepted haccepted
  have hnames := congrArg (List.map Prod.fst) hrefs
  simp only [List.map_map, Function.comp_def, List.map_id'] at hnames
  refine ⟨hrefs, ?_, fun ref href => ?_, fun join hjoin hheld => ?_⟩
  · rw [hnames, ← insertNew_nil_back]
    exact (nodup_insertNew_back List.nodup_nil).filter _
  · have hpair : (ref.name, some ref.version) ∈
        plan.touchedSchemas.map fun ref => (ref.name, some ref.version) :=
      List.mem_map_of_mem href
    rw [hrefs] at hpair
    obtain ⟨name, -, heq⟩ := List.mem_map.mp hpair
    obtain ⟨rfl, hversion⟩ := Prod.mk.inj heq
    exact hversion
  · rw [hnames, List.mem_filter, List.mem_eraseDups]
    exact ⟨List.mem_cons_of_mem _ (List.mem_map_of_mem hjoin), decide_eq_true hheld⟩

/-- The request for orders with the companies of their owners by a client that holds the
type of the owners, and the type of the companies in another version first. -/
def heldRequest : SearchRequest :=
  { orderRequest with
    cachedSchemas := .parse "person@1, company@0, person@0, company@1" }

/-- The collection and the companies are touched, for only the owners' type is held. -/
theorem touchedSchemas_heldRequest :
    ∃ plan, (Plan.ofRequest orders .standard heldRequest).result = .ok plan ∧
      plan.joins.map (·.source) = ["person", "person", "company"] ∧
      plan.touchedSchemas = [⟨"order", "1"⟩, ⟨"company", "1"⟩] ∧
      (plan.touchedSchemas.map (·.name)).Nodup := by
  obtain ⟨plan, haccepted, hcheck⟩ := Plan.exists_of_check
    (Plan.ofRequest orders .standard heldRequest).result
    (fun plan => plan.joins.map (·.source) = ["person", "person", "company"] ∧
      plan.touchedSchemas = [⟨"order", "1"⟩, ⟨"company", "1"⟩])
    (by decide +kernel)
  obtain ⟨hsources, htouched⟩ := of_decide_eq_true hcheck
  obtain ⟨-, hnodup, -, -⟩ := touchedSchemas_eq_joined orders .standard heldRequest plan haccepted
  exact ⟨plan, haccepted, hsources, htouched, hnodup⟩

end Plan

end JoinPlan
