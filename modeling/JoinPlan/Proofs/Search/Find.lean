import JoinPlan.Proofs.Plan.Rejection
import JoinPlan.Proofs.Search.Fanout

/-!
# Finding one document

A request for one document is planned like any other, joins and all, and the document is the
first one of its search. This file supplies which document of the collection that is.

> `Value.AnswersTo`: the identifier stands at the field, by itself or among the items of an
> array.

The request has no filter, so its expansion has no filters either (`noFilters_of_id`) and keeps
every document that meets the criteria, outside the keys that it writes. Hence the first
document that answers to the identifier is found (`find_of_first`), and where none answers
nothing is (`find_of_none`). A document that holds the identifier as a store looks for it
answers to it (`answersTo_of_get?`), at a field with a plain name; the converse fails for
arrays.
-/

namespace JoinPlan

/-! ## Answering to an identifier -/

/-- At a plain name, an object has the value of that member and no other. -/
theorem Value.lookup_of_plain {field : String} (hplain : '.' ∉ field.toList) {document : Value}
    (hobject : document.isObject) : document.lookup field = (document.get? field).toList := by
  cases document with
  | object members =>
    unfold lookup
    rw [pathNames_of_plain hplain]
    exact List.flatMap_singleton' _
  | _ => cases hobject

/-- The document has the identifier at the field, by itself or inside an array. -/
def Value.AnswersTo [PatternLimit] (field id : String) (document : Value) : Prop :=
  ∃ value ∈ document.lookup field, (Predicate.equals (.string id)).holds value = true

instance [PatternLimit] (field id : String) (document : Value) :
    Decidable (document.AnswersTo field id) :=
  decidable_of_iff _ List.any_eq_true

theorem Condition.holds_identifier [PatternLimit] {field id : String} {document : Value} :
    (Condition.field field (.equals (.string id))).holds document = true ↔
      document.AnswersTo field id := by
  rw [holds, List.any_eq_true]
  rfl

/-- Who holds the identifier answers to it. -/
theorem Value.answersTo_of_get? [PatternLimit] {field id : String}
    (hplain : '.' ∉ field.toList) {document : Value}
    (hget : document.get? field = some (.string id)) :
    document.AnswersTo field id := by
  have hobject : document.isObject := by
    cases document with
    | object members => rfl
    | _ => cases hget
  refine ⟨.string id, ?_, beq_self_eq_true id⟩
  rw [lookup_of_plain hplain hobject, hget]
  exact List.mem_singleton.mpr rfl

/-! ## The plan for one document -/

/-- The request for one document, along no paths but the inherited ones. -/
def SearchRequest.forOne (type id : String) : SearchRequest :=
  { ofId type id with noExtra := true }

namespace Context

variable {c : Context}

/-- A filter that asks nothing asks nothing of the joined documents. -/
theorem demands_of_empty (hfilter : c.filter = .empty) (entries : List String) :
    c.demands entries = [] := by
  have hnone : ∀ key, c.filter.get? key = none := by
    intro key
    rw [hfilter, SortedMap.get?_empty]
  refine List.append_eq_nil_iff.mpr ⟨?_, ?_⟩
  · refine List.flatMap_eq_nil_iff.mpr fun entry _ => ?_
    unfold relationDemands
    split
    · rw [hnone]
      rfl
    · rfl
  · refine List.flatMap_eq_nil_iff.mpr fun entry _ => ?_
    unfold pathDemands
    split
    · rfl
    · refine List.flatMap_eq_nil_iff.mpr fun field _ => ?_
      unfold fieldDemands
      rw [hnone, hnone]
      rfl

end Context

namespace Plan

variable {registry : Registry} {options : Options} {request : SearchRequest} {plan : Plan}
  {schema : Schema} {type id : String}

/-- What a plan for one document joins is not filtered. -/
theorem noFilters_of_id (haccepted : (Plan.ofRequest registry options request).result = .ok plan)
    (hid : request.id.isSome) : ∀ stage ∈ plan.expansion, ¬stage.isFilter := by
  obtain ⟨schema, criteria, draft, blocks, -, -, hlaid⟩ := exists_laid_of_accepted haccepted
  have hnamed : blocks.flatMap Block.named = [] := by
    have hfilters := hlaid.holds.filters
    rw [Context.demands_of_empty (Context.filter_ofRequest_of_id hid)] at hfilters
    exact hfilters.eq_nil
  intro stage hstage hfilter
  rw [hlaid.expansion] at hstage
  obtain ⟨block, hblock, hstage⟩ := List.mem_flatMap.mp hstage
  have hnone : block.filters = [] :=
    List.map_eq_nil_iff.mp (List.flatMap_eq_nil_iff.mp hnamed block hblock)
  simp only [Block.stages, hnone, List.map_nil, List.mem_cons, List.not_mem_nil, or_false]
    at hstage
  rcases hstage with rfl | rfl <;> cases hfilter

/-- A plan for one document reads the type and asks for the identifier. -/
theorem criteria_of_id (hschema : registry.get? request.type = some schema)
    (haccepted : (Plan.ofRequest registry options request).result = .ok plan)
    (hid : request.id = some id) :
    plan.collection = request.type ∧
      plan.criteria = .field schema.idField (.equals (.string id)) := by
  obtain ⟨criteria, draft, hcriteria, -, rfl⟩ := exists_expand hschema haccepted
  refine ⟨Registry.name_of_get? hschema, ?_⟩
  unfold SearchRequest.criteria at hcriteria
  rw [hid] at hcriteria
  exact (Except.ok.inj hcriteria).symm

/-- Before any join, a plan for one document reads the documents that answer. -/
theorem run_forOne [PatternLimit] (hschema : registry.get? type = some schema)
    (haccepted : (Plan.ofRequest registry options (.forOne type id)).result = .ok plan)
    (store : Store) :
    store.run plan.collection plan.pipeline =
      runStages store.documents
        ((store.documents type).filter fun document => document.AnswersTo schema.idField id)
        plan.expansion := by
  obtain ⟨hcollection, hcriteria⟩ := criteria_of_id hschema haccepted rfl
  have hanswers : plan.criteria.holds = fun document =>
      decide (document.AnswersTo schema.idField id) := by
    funext document
    rw [hcriteria, Bool.eq_iff_iff, decide_eq_true_iff]
    exact Condition.holds_identifier
  rw [run_pipeline_of_unpaged haccepted rfl rfl, hcollection]
  exact congrArg (runStages store.documents · plan.expansion) (congrArg (List.filter · _) hanswers)

end Plan

/-! ## What is found -/

namespace Source

variable [PatternLimit] {registry : Registry} {options : Options} {schema : Schema}
  {type id : String} {plan : Plan} {store : Store}

/-- The first document of the search is found, if there is one. -/
theorem find_result
    (haccepted : (Plan.ofRequest registry options (.forOne type id)).result = .ok plan)
    (store : Store) (elapsed : Nat) :
    (store.source.find registry options type id elapsed).result =
      match store.run plan.collection plan.pipeline with
      | [] => .error (.notFound type id)
      | document :: _ => .ok ⟨document, plan.touchedSchemas, plan.extraFields⟩ := by
  show ((store.source.search registry options (.forOne type id) elapsed).result >>= _) = _
  rw [result_eq_answer haccepted]
  rfl

/-- The first document that answers to the identifier is found, as it is but for the keys
that the plan writes. -/
theorem find_of_first (hschema : registry.get? type = some schema)
    (haccepted : (Plan.ofRequest registry options (.forOne type id)).result = .ok plan)
    {front back : List Value} {base : Value}
    (hdocuments : store.documents type = front ++ base :: back)
    (hfront : ∀ d ∈ front, ¬d.AnswersTo schema.idField id)
    (hbase : base.AnswersTo schema.idField id) (hrecord : base.IsRecord) (elapsed : Nat) :
    ∃ found, (store.source.find registry options type id elapsed).result = .ok found ∧
      found.document.IsRecord ∧ found.document.AgreesOutside plan.writtenKeys base := by
  obtain ⟨schema', criteria, draft, blocks, -, -, hlaid⟩ := Plan.exists_laid_of_accepted haccepted
  have hnoFilters := Plan.noFilters_of_id haccepted rfl
  have hfiltered : (store.documents type).filter (fun d => d.AnswersTo schema.idField id) =
      base :: back.filter fun d => d.AnswersTo schema.idField id := by
    have hnoFront : front.filter (fun d => d.AnswersTo schema.idField id) = [] :=
      List.filter_eq_nil_iff.mpr fun d hd => by simpa using hfront d hd
    rw [hdocuments, List.filter_append, hnoFront, List.nil_append, List.filter_cons,
      if_pos (decide_eq_true hbase)]
  have hrun := Plan.run_forOne hschema haccepted store
  rw [hfiltered, runStages_eq_flatMap hlaid.isLocal, List.flatMap_cons] at hrun
  -- The documents begin with the images of the first one that answers, and it has an image.
  have hne : runStages store.documents [base] plan.expansion ≠ [] :=
    runStages_singleton_ne_nil (hlaid.keepsObjects hnoFilters) hrecord
  obtain ⟨image, images, himages⟩ := List.exists_cons_of_ne_nil hne
  rw [himages, List.cons_append] at hrun
  rw [find_result haccepted, hrun]
  refine ⟨_, rfl, ?_⟩
  have himage : image ∈ runStages store.documents [base] plan.expansion := by
    rw [himages]
    exact List.mem_cons_self
  obtain ⟨himageRecord, hagrees⟩ := frame_of_mem_runStages hlaid.isLocal hrecord himage
  exact ⟨himageRecord, fun key hkey =>
    hagrees key fun htouched => hkey (hlaid.touchedKeys_subset htouched)⟩

/-- Where no document answers to the identifier, none is found. -/
theorem find_of_none (hschema : registry.get? type = some schema)
    (haccepted : (Plan.ofRequest registry options (.forOne type id)).result = .ok plan)
    (hnone : ∀ d ∈ store.documents type, ¬d.AnswersTo schema.idField id) (elapsed : Nat) :
    (store.source.find registry options type id elapsed).result = .error (.notFound type id) := by
  obtain ⟨schema', criteria, draft, blocks, -, -, hlaid⟩ := Plan.exists_laid_of_accepted haccepted
  have hfiltered : (store.documents type).filter (fun d => d.AnswersTo schema.idField id) = [] :=
    List.filter_eq_nil_iff.mpr fun d hd => by simpa using hnone d hd
  rw [find_result haccepted, Plan.run_forOne hschema haccepted, hfiltered,
    runStages_eq_flatMap hlaid.isLocal, List.flatMap_nil]

end Source

end JoinPlan
