import JoinPlan.Proofs.Search.Narrowing

/-!
# Which parts of a request decide what is found

A plan is made from one schema, the criteria on it and one draft, and all the rest is read
off these and the request. This file supplies what the parts depend on.

> `parts_congr`: requests of the same reach have the same parts.

Requests of one reach agree on the type, the identifier, the filter and the extra paths.
They may differ in how they sort and cut, in what they include and in what they hold, and
still they find the same documents in another order: the sorting is a permutation, and it
comes behind the expansion (`run_pipeline`). Where the extra paths differ as well, the criteria
are still the same, and the total counts by these alone.
-/

namespace JoinPlan

namespace SearchRequest

/-- The requests ask for the same documents of one type. -/
structure SameSubject (a b : SearchRequest) : Prop where
  type : b.type = a.type
  id : b.id = a.id
  filter : b.filter = a.filter

/-- The requests ask for the same documents, along the same extra paths. -/
structure SameReach (a b : SearchRequest) : Prop extends SameSubject a b where
  extraPaths : b.extraPaths = a.extraPaths
  noExtra : b.noExtra = a.noExtra

/-- The request for all pages. -/
def unpaged (request : SearchRequest) : SearchRequest := { request with page := ⟨none, none⟩ }

theorem sameReach_withPage (request : SearchRequest) (page : Page) :
    request.SameReach { request with page } :=
  ⟨⟨rfl, rfl, rfl⟩, rfl, rfl⟩

variable {a b : SearchRequest}

theorem SameSubject.criteria_eq (h : a.SameSubject b) (schema : Schema) :
    b.criteria schema = a.criteria schema := by
  unfold criteria
  rw [h.id, h.filter]

theorem SameSubject.effectiveFilter_eq (h : a.SameSubject b) :
    b.effectiveFilter = a.effectiveFilter := by
  unfold effectiveFilter
  rw [h.id, h.filter]

theorem SameReach.pathEntries_eq (h : a.SameReach b) (schema : Schema) :
    Context.pathEntries schema b = Context.pathEntries schema a := by
  unfold Context.pathEntries
  rw [h.noExtra, h.extraPaths]

end SearchRequest

/-! ## The parts of a plan -/

namespace Plan

/-- What a plan is made of. -/
structure Parts where
  schema : Schema
  criteria : Condition
  draft : Draft

/-- The parts of the plan of a request. -/
def parts (registry : Registry) (options : Options) (request : SearchRequest) :
    Except PlanError Parts :=
  match registry.get? request.type with
  | none => .error (.unknownType request.type)
  | some schema =>
    match request.criteria schema with
    | .error failure => .error (.castFailed failure)
    | .ok criteria =>
      match (Context.ofRequest registry options schema request).expand
        (Context.pathEntries schema request) with
      | .error refusal => .error (.castFailed refusal.failure)
      | .ok draft => .ok ⟨schema, criteria, draft⟩

/-- The plan that a request makes of parts. -/
def Parts.plan (parts : Parts) (registry : Registry) (request : SearchRequest) : Plan :=
  ofDraft registry parts.schema request parts.criteria parts.draft

variable {registry : Registry} {options : Options} {a b request : SearchRequest}

theorem result_eq_map_parts (registry : Registry) (options : Options) (request : SearchRequest) :
    (Plan.ofRequest registry options request).result =
      (parts registry options request).map fun found => found.plan registry request := by
  unfold Plan.ofRequest parts Context.ofRequest
  cases registry.get? request.type with
  | none => rfl
  | some schema =>
    simp only
    cases request.criteria schema with
    | error failure => rfl
    | ok criteria =>
      simp only
      generalize Context.expand _ _ = expansion
      cases expansion <;> rfl

/-- Requests of the same reach have the same parts. -/
theorem parts_congr (h : a.SameReach b) : parts registry options b = parts registry options a := by
  unfold parts Context.ofRequest
  simp only [h.type, h.criteria_eq, h.effectiveFilter_eq, h.pathEntries_eq]

theorem exists_parts_of_accepted {plan : Plan}
    (h : (Plan.ofRequest registry options request).result = .ok plan) :
    ∃ found, parts registry options request = .ok found ∧ plan = found.plan registry request := by
  rw [result_eq_map_parts] at h
  cases hparts : parts registry options request with
  | error e =>
    rw [hparts] at h
    cases h
  | ok found =>
    rw [hparts] at h
    exact ⟨found, rfl, (Except.ok.inj h).symm⟩

theorem result_of_parts {found : Parts} (h : parts registry options request = .ok found) :
    (Plan.ofRequest registry options request).result = .ok (found.plan registry request) := by
  rw [result_eq_map_parts, h]
  rfl

theorem result_of_no_parts {e : PlanError} (h : parts registry options request = .error e) :
    (Plan.ofRequest registry options request).result = .error e := by
  rw [result_eq_map_parts, h]
  rfl

/-- The plans read the same documents and expand them alike. -/
structure SameReach (p q : Plan) : Prop where
  collection : q.collection = p.collection
  criteria : q.criteria = p.criteria
  expansion : q.expansion = p.expansion
  extraFields : q.extraFields = p.extraFields

theorem Parts.sameReach (found : Parts) (registry : Registry) (a b : SearchRequest) :
    (found.plan registry a).SameReach (found.plan registry b) :=
  ⟨rfl, rfl, rfl, rfl⟩

/-- Plans of the same reach find the same documents, before these are sorted and cut. -/
theorem SameReach.found_eq [PatternLimit] {p q : Plan} (h : p.SameReach q) (store : Store) :
    q.found store = p.found store := by
  unfold found
  rw [h.collection, h.criteria, h.expansion]

/-- Without a page, a plan gives what it finds in some order. -/
theorem run_pipeline_perm [PatternLimit] {plan : Plan} (hpage : plan.page = ⟨none, none⟩)
    (store : Store) : (store.run plan.collection plan.pipeline).Perm (plan.found store) := by
  rw [plan.run_pipeline, hpage]
  exact List.mergeSort_perm _ _

/-- Plans of the same reach give the same documents without a page, in some order. -/
theorem SameReach.documents_perm [PatternLimit] {p q : Plan} (h : p.SameReach q)
    (hp : p.page = ⟨none, none⟩) (hq : q.page = ⟨none, none⟩) (store : Store) :
    (q.answer store).documents.Perm (p.answer store).documents := by
  have hfound : (q.answer store).documents.Perm (p.found store) := by
    rw [← h.found_eq store]
    exact run_pipeline_perm hq store
  exact hfound.trans (run_pipeline_perm hp store).symm

/-- Plans of requests for the same documents have the same criteria on one collection. -/
theorem criteria_eq_of_sameSubject {plan plan' : Plan} (h : a.SameSubject b)
    (hplan : (Plan.ofRequest registry options a).result = .ok plan)
    (hplan' : (Plan.ofRequest registry options b).result = .ok plan') :
    plan'.collection = plan.collection ∧ plan'.criteria = plan.criteria := by
  obtain ⟨schema, criteria, draft, hschema, hcriteria, -, rfl⟩ := exists_expand_of_accepted hplan
  rw [← h.type] at hschema
  obtain ⟨criteria', draft', hcriteria', -, rfl⟩ := exists_expand hschema hplan'
  rw [h.criteria_eq, hcriteria] at hcriteria'
  exact ⟨rfl, (Except.ok.inj hcriteria').symm⟩

end Plan

/-- What is found does not depend on how it is asked to be shown. Two requests for the same
documents along the same extra paths, which may differ in their sorting, their pages, what
they include and what they hold, are both refused with the same error or both accepted. In
the second case their plans read, filter and expand alike, and on one store their totals are
equal and their documents without a page are permutations of each other. Where the extra
paths differ too, two plans still have the same criteria, and the totals are equal. -/
theorem search_independent_of_presentation [PatternLimit] (registry : Registry) (options : Options)
    (a b : SearchRequest) (store : Store) (elapsed elapsed' : Nat) (hsubject : a.SameSubject b) :
    (a.SameReach b →
      (∃ e, (Plan.ofRequest registry options a).result = .error e ∧
        (Plan.ofRequest registry options b).result = .error e) ∨
      ∃ plan plan', (Plan.ofRequest registry options a).result = .ok plan ∧
        (Plan.ofRequest registry options b).result = .ok plan' ∧ plan.SameReach plan' ∧
        ∃ result result' whole whole',
          (store.source.search registry options a elapsed).result = .ok result ∧
          (store.source.search registry options b elapsed').result = .ok result' ∧
          result'.total = result.total ∧
          (store.source.search registry options a.unpaged elapsed).result = .ok whole ∧
          (store.source.search registry options b.unpaged elapsed').result = .ok whole' ∧
          whole'.documents.Perm whole.documents) ∧
    ∀ plan plan', (Plan.ofRequest registry options a).result = .ok plan →
      (Plan.ofRequest registry options b).result = .ok plan' →
      plan'.criteria = plan.criteria ∧
      ∃ result result', (store.source.search registry options a elapsed).result = .ok result ∧
        (store.source.search registry options b elapsed').result = .ok result' ∧
        result'.total = result.total := by
  constructor
  · intro hreach
    have hparts : Plan.parts registry options b = Plan.parts registry options a :=
      Plan.parts_congr hreach
    cases hfound : Plan.parts registry options a with
    | error e =>
      left
      rw [hfound] at hparts
      exact ⟨e, Plan.result_of_no_parts hfound, Plan.result_of_no_parts hparts⟩
    | ok found =>
      right
      rw [hfound] at hparts
      -- Without their pages, too, the requests have these parts.
      have hwhole : Plan.parts registry options a.unpaged = .ok found :=
        (Plan.parts_congr (a.sameReach_withPage ⟨none, none⟩)).trans hfound
      have hwhole' : Plan.parts registry options b.unpaged = .ok found :=
        (Plan.parts_congr (b.sameReach_withPage ⟨none, none⟩)).trans hparts
      refine ⟨_, _, Plan.result_of_parts hfound, Plan.result_of_parts hparts,
        found.sameReach registry a b, _, _, _, _,
        Source.result_eq_answer (Plan.result_of_parts hfound) store elapsed,
        Source.result_eq_answer (Plan.result_of_parts hparts) store elapsed', rfl,
        Source.result_eq_answer (Plan.result_of_parts hwhole) store elapsed,
        Source.result_eq_answer (Plan.result_of_parts hwhole') store elapsed', ?_⟩
      exact (found.sameReach registry a.unpaged b.unpaged).documents_perm rfl rfl store
  · intro plan plan' hplan hplan'
    obtain ⟨hcollection, hcriteria⟩ := Plan.criteria_eq_of_sameSubject hsubject hplan hplan'
    refine ⟨hcriteria, _, _, Source.result_eq_answer hplan store elapsed,
      Source.result_eq_answer hplan' store elapsed', ?_⟩
    show store.count plan'.collection plan'.criteria = store.count plan.collection plan.criteria
    rw [hcollection, hcriteria]

/-- The request for the orders of certain owners, sorted and cut, for a client that holds the
schema of the owners. -/
def ownerPageRequest : SearchRequest :=
  { ownerRequest with
    sort := ["<owner", "owner/company/name"]
    page := ⟨some 1, some 1⟩
    «include» := ["owner"]
    cachedSchemas := .parse "person@1" }

section

attribute [local instance] PatternLimit.unbounded

/-- A page of orders is a page of the same orders, and their number is that of all orders of
the owners, whether or not the companies are joined. -/
theorem search_independent_ownerPageRequest :
    ∃ result page plain whole sorted,
      (orderStore.source.search orders .standard ownerRequest 0).result = .ok result ∧
      (orderStore.source.search orders .standard ownerPageRequest 0).result = .ok page ∧
      (orderStore.source.search orders .standard
        { ownerPageRequest with extraPaths := [] } 0).result = .ok plain ∧
      (orderStore.source.search orders .standard ownerRequest.unpaged 0).result = .ok whole ∧
      (orderStore.source.search orders .standard ownerPageRequest.unpaged 0).result =
        .ok sorted ∧
      page.total = result.total ∧ plain.total = result.total ∧
      sorted.documents.Perm whole.documents := by
  have hreach : ownerRequest.SameReach ownerPageRequest := ⟨⟨rfl, rfl, rfl⟩, rfl, rfl⟩
  have hsubject : ownerRequest.SameSubject { ownerPageRequest with extraPaths := [] } :=
    ⟨rfl, rfl, rfl⟩
  obtain ⟨planned, hplanned, -⟩ := Plan.exists_of_check
    (Plan.ofRequest orders .standard ownerRequest).result (fun _ => true) (by decide +kernel)
  obtain ⟨bare, hbare, -⟩ := Plan.exists_of_check
    (Plan.ofRequest orders .standard { ownerPageRequest with extraPaths := [] }).result
    (fun _ => true) (by decide +kernel)
  obtain ⟨-, result', plain, hresult', hplain, hplainTotal⟩ :=
    (search_independent_of_presentation orders .standard ownerRequest
      { ownerPageRequest with extraPaths := [] } orderStore 0 0 hsubject).2 planned bare hplanned
        hbare
  rcases (search_independent_of_presentation orders .standard ownerRequest ownerPageRequest
    orderStore 0 0 hreach.toSameSubject).1 hreach with ⟨e, he, -⟩ | ⟨-, -, -, -, -, result, page,
      whole, sorted, hresult, hpage, htotal, hwhole, hsorted, hperm⟩
  · rw [hplanned] at he
    cases he
  · rw [hresult] at hresult'
    obtain rfl := Except.ok.inj hresult'
    exact ⟨result, page, plain, whole, sorted, hresult, hpage, hplain, hwhole, hsorted, htotal,
      hplainTotal, hperm⟩

end

end JoinPlan
