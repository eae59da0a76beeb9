import JoinPlan.Proofs.Filter.Predicate
import JoinPlan.Proofs.Search.Find

/-!
# Asking for one document

A request with an identifier is planned without its filter, so nothing in the filter can refuse
it, narrow it or change it (`Plan.ofRequest_withFilter_of_id`). This file says what such a
request finds, in terms of the documents alone.

> `Value.Identified`: the identifier stands at the field, as a text or inside an array at some
> depth.

The first document that is identified is found, whatever its joins give, and nothing is found
only where no document is. A store that fails is what the search fails with.
-/

namespace JoinPlan

/-- The identifier is an element of a value at the field. -/
def Value.Identified (field id : String) (document : Value) : Prop :=
  ∃ value ∈ document.lookup field, value.HasElement (.string id)

/-- To answer to an identifier is to be identified by it. -/
theorem Value.answersTo_iff [PatternLimit] {field id : String} {document : Value} :
    document.AnswersTo field id ↔ document.Identified field id :=
  exists_congr fun _ => and_congr_right fun _ => Predicate.holds_equals_string_iff

instance [PatternLimit] (field id : String) (document : Value) :
    Decidable (document.Identified field id) :=
  decidable_of_iff _ Value.answersTo_iff

/-- A request for one document is planned alike with any filter. -/
theorem Plan.ofRequest_withFilter_of_id {registry : Registry} {options : Options}
    {request : SearchRequest} (hid : request.id.isSome) (filter : Filter) :
    Plan.ofRequest registry options { request with filter } =
      Plan.ofRequest registry options request := by
  obtain ⟨id, hid⟩ := Option.isSome_iff_exists.mp hid
  have heffective : ({ request with filter } : SearchRequest).effectiveFilter =
      request.effectiveFilter := by
    unfold SearchRequest.effectiveFilter
    rw [hid]
    rfl
  have hcriteria : ({ request with filter } : SearchRequest).criteria = request.criteria := by
    funext schema
    unfold SearchRequest.criteria
    rw [hid]
  unfold Plan.ofRequest
  rw [heffective, hcriteria]
  rfl

namespace Source

variable {registry : Registry} {options : Options} {source : Source} {type id message : String}
  {plan : Plan}

/-- The store has failed: it gives no documents, or it gives them and no count. -/
def Fails (source : Source) (plan : Plan) (message : String) : Prop :=
  source.fetch plan.collection plan.pipeline = .error message ∨
    ∃ documents, source.fetch plan.collection plan.pipeline = .ok documents ∧
      source.count plan.collection plan.criteria = .error message

theorem execute_of_fails (h : source.Fails plan message) :
    source.execute plan = .error message := by
  unfold execute
  rcases h with hfetch | ⟨documents, hfetch, hcount⟩
  · rw [hfetch]
    rfl
  · rw [hfetch]
    show (do let total ← source.count plan.collection plan.criteria; .ok (documents, total)) = _
    rw [hcount]
    rfl

/-- The failure of the store is the failure of the search. -/
theorem find_of_fails
    (haccepted : (Plan.ofRequest registry options (.forOne type id)).result = .ok plan)
    (h : source.Fails plan message) (elapsed : Nat) :
    (source.find registry options type id elapsed).result = .error (.store message) := by
  have hsearch : (source.search registry options (.forOne type id) elapsed).result =
      .error (.store message) := by
    unfold search
    simp only [haccepted, execute_of_fails h]
  show ((source.search registry options (.forOne type id) elapsed).result >>= _) = _
  rw [hsearch]
  rfl

end Source

/-- What asking for one document gives. For a registered type, a request with an identifier is
accepted, whatever its filter, and its plan is the same for every filter: it asks for the
identifier and filters nothing that it joins. On a store whose documents of the type are
objects, a document is found exactly when one is identified. It is the first one, as it is but
for the keys that the plan writes; otherwise the search tells that it is not there. A store that
fails is told with its own failure. -/
theorem find_of_identified [PatternLimit] (registry : Registry) (options : Options)
    (schema : Schema) (type id : String) (hschema : registry.get? type = some schema) :
    (∀ request : SearchRequest, request.type = type → request.id = some id →
      ∃ plan, (∀ filter,
          (Plan.ofRequest registry options { request with filter }).result = .ok plan) ∧
        plan.criteria = .field schema.idField (.equals (.string id)) ∧
        ∀ stage ∈ plan.expansion, ¬stage.isFilter) ∧
    ∃ plan, (Plan.ofRequest registry options (.forOne type id)).result = .ok plan ∧
      (∀ (store : Store) (elapsed : Nat),
        (∀ d ∈ store.documents type, d.isObject ∧ d.DistinctKeys) →
        ((∃ found, (store.source.find registry options type id elapsed).result = .ok found) ↔
          ∃ d ∈ store.documents type, d.Identified schema.idField id) ∧
        (∀ base, (store.documents type).find? (fun d => d.Identified schema.idField id) =
            some base →
          ∃ found, (store.source.find registry options type id elapsed).result = .ok found ∧
            found.document.isObject ∧ found.document.AgreesOutside plan.writtenKeys base) ∧
        ((∀ d ∈ store.documents type, ¬d.Identified schema.idField id) →
          (store.source.find registry options type id elapsed).result =
            .error (.notFound type id))) ∧
      ∀ (source : Source) (message : String) (elapsed : Nat), source.Fails plan message →
        (source.find registry options type id elapsed).result = .error (.store message) := by
  have hplan : ∀ request : SearchRequest, request.type = type → request.id = some id →
      ∃ plan, (Plan.ofRequest registry options request).result = .ok plan := by
    intro request htype hid
    refine Plan.exists_plan_of_id (htype ▸ hschema) ?_
    rw [hid]
    rfl
  refine ⟨fun request htype hid => ?_, ?_⟩
  · obtain ⟨plan, haccepted⟩ := hplan request htype hid
    have hsome : request.id.isSome := Option.isSome_iff_exists.mpr ⟨id, hid⟩
    refine ⟨plan, fun filter => ?_, (Plan.criteria_of_id (htype ▸ hschema) haccepted hid).2,
      Plan.noFilters_of_id haccepted hsome⟩
    rw [Plan.ofRequest_withFilter_of_id hsome]
    exact haccepted
  · obtain ⟨plan, haccepted⟩ := hplan (.forOne type id) rfl rfl
    refine ⟨plan, haccepted, fun store elapsed hobjects => ?_,
      fun source message elapsed hfails => Source.find_of_fails haccepted hfails elapsed⟩
    have hfirst : ∀ base,
        (store.documents type).find? (fun d => d.Identified schema.idField id) = some base →
          ∃ found, (store.source.find registry options type id elapsed).result = .ok found ∧
            found.document.isObject ∧ found.document.AgreesOutside plan.writtenKeys base := by
      intro base hbase
      obtain ⟨hidentified, front, back, hdocuments, hfront⟩ :=
        List.find?_eq_some_iff_append.mp hbase
      obtain ⟨hobject, hkeys⟩ := hobjects base (hdocuments ▸ List.mem_append_cons_self)
      obtain ⟨found, hfound, hrecord, hagrees⟩ := Source.find_of_first hschema haccepted hdocuments
        (fun d hd hanswers => by simpa [Value.answersTo_iff.mp hanswers] using hfront d hd)
        (Value.answersTo_iff.mpr (of_decide_eq_true hidentified))
        (Value.isRecord_of_distinctKeys hobject hkeys) elapsed
      exact ⟨found, hfound, hrecord.isObject, hagrees⟩
    have hnone : (∀ d ∈ store.documents type, ¬d.Identified schema.idField id) →
        (store.source.find registry options type id elapsed).result =
          .error (.notFound type id) := by
      intro hnone
      exact Source.find_of_none hschema haccepted
        (fun d hd hanswers => hnone d hd (Value.answersTo_iff.mp hanswers)) elapsed
    refine ⟨⟨?_, ?_⟩, hfirst, hnone⟩
    · rintro ⟨found, hfound⟩
      by_contra hmissing
      rw [hnone fun d hd hidentified => hmissing ⟨d, hd, hidentified⟩] at hfound
      cases hfound
    · rintro ⟨d, hd, hidentified⟩
      have hsome : ((store.documents type).find?
          fun d => decide (d.Identified schema.idField id)).isSome :=
        List.find?_isSome.mpr ⟨d, hd, decide_eq_true hidentified⟩
      obtain ⟨base, hbase⟩ := Option.isSome_iff_exists.mp hsome
      obtain ⟨found, hfound, -, -⟩ := hfirst base hbase
      exact ⟨found, hfound⟩

section

attribute [local instance] PatternLimit.unbounded

/-- Of the orders the second is found, which is the first with its identifier; an order that is
not there is told to be missing, and a store that is down is told to be down. -/
theorem find_of_identified_orderStore :
    ∃ schema, orders.get? "order" = some schema ∧ schema.idField = "id" ∧
      (∀ d ∈ orderStore.documents "order", d.isObject ∧ d.DistinctKeys) ∧
      (∃ plan found, (orderStore.source.find orders .standard "order" "o2" 0).result = .ok found ∧
        (Plan.ofRequest orders .standard (.forOne "order" "o2")).result = .ok plan ∧
        found.document.AgreesOutside plan.writtenKeys (referring "o2" "owner" "p2")) ∧
      (orderStore.source.find orders .standard "order" "o9" 0).result =
        .error (.notFound "order" "o9") ∧
      ((⟨fun _ _ => .error "down", fun _ _ => .ok 0⟩ : Source).find orders .standard
        "order" "o9" 0).result = .error (.store "down") := by
  obtain ⟨schema, hschema⟩ := Option.isSome_iff_exists.mp
    (by decide +kernel : (orders.get? "order").isSome)
  have hid : schema.idField = "id" := by
    have hfield : (orders.get? "order").map (·.idField) = some "id" := by decide +kernel
    rw [hschema] at hfield
    exact Option.some.inj hfield
  refine ⟨schema, hschema, hid, distinctKeys_orderStore, ?_, ?_, ?_⟩
  · obtain ⟨-, plan, haccepted, hfinds, -⟩ :=
      find_of_identified orders .standard schema "order" "o2" hschema
    obtain ⟨-, hfirst, -⟩ := hfinds orderStore 0 distinctKeys_orderStore
    obtain ⟨found, hfound, -, hagrees⟩ := hfirst (referring "o2" "owner" "p2") <| by
      rw [hid, documents_orderStore]
      exact (List.find?_cons_of_neg (by decide +kernel)).trans
        (List.find?_cons_of_pos (by decide +kernel))
    exact ⟨plan, found, hfound, haccepted, hagrees⟩
  · obtain ⟨-, plan, -, hfinds, -⟩ :=
      find_of_identified orders .standard schema "order" "o9" hschema
    obtain ⟨-, -, hnone⟩ := hfinds orderStore 0 distinctKeys_orderStore
    exact hnone (by rw [hid]; decide +kernel)
  · obtain ⟨-, plan, -, -, hfails⟩ :=
      find_of_identified orders .standard schema "order" "o9" hschema
    exact hfails _ "down" 0 (.inl rfl)

end

end JoinPlan
