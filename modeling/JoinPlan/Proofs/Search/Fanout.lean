import JoinPlan.Proofs.Plan.Layout
import JoinPlan.Search.Run

/-!
# What an expansion makes of a document

What a plan finds is sorted, and then cut (`run_pipeline`). So a search without sorting and
paging gives the images of the documents that meet the criteria, one document after the other
(`run_pipeline_of_unpaged`). Where the expansion has no filters, every such document has an
image, and the images agree with it outside the keys that the expansion writes. So no document
is lost, and none is invented.

The number of images is decided join by join: a join with its flattening gives one
document for each partner, and one where there is none (`length_apply_attach`). Hence
the counts agree where no join finds two partners (`length_runStages_of_joinsAtMostOne`).
-/

namespace JoinPlan

/-! ## Searches on a store -/

/-- The part of a list that a page keeps. -/
def Page.cut {α : Type} (page : Page) (items : List α) : List α :=
  let rest := items.drop (page.offset.getD 0)
  match page.limit with
  | none => rest
  | some limit => rest.take limit

namespace Plan

/-- The documents that a plan finds on a store, before they are sorted and cut. -/
def found [PatternLimit] (plan : Plan) (store : Store) : List Value :=
  runStages store.documents ((store.documents plan.collection).filter plan.criteria.holds)
    plan.expansion

/-- What a plan finds is sorted, and then cut. -/
theorem run_pipeline [PatternLimit] (plan : Plan) (store : Store) :
    store.run plan.collection plan.pipeline =
      plan.page.cut (sortDocuments plan.sort (plan.found store)) := by
  have hsorted : ∀ documents, runStages store.documents documents
      (if plan.sort.isEmpty then [] else [.sort plan.sort]) =
        sortDocuments plan.sort documents := by
    intro documents
    cases hsort : plan.sort with
    | nil => exact (List.mergeSort_of_pairwise (List.pairwise_of_forall fun _ _ => rfl)).symm
    | cons key rest => rfl
  unfold Store.run Plan.pipeline Page.cut
  rw [List.cons_append, List.cons_append, List.cons_append, runStages_cons, runStages_append,
    runStages_append, runStages_append, hsorted]
  cases plan.page.offset <;> cases plan.page.limit <;> rfl

/-- The result of a plan on a store. -/
def answer [PatternLimit] (plan : Plan) (store : Store) : SearchResult where
  documents := store.run plan.collection plan.pipeline
  total := store.count plan.collection plan.criteria
  touchedSchemas := plan.touchedSchemas
  extraFields := plan.extraFields
  «include» := plan.include

end Plan

/-- A store answers an accepted request from the plan. -/
theorem Source.result_eq_answer [PatternLimit] {registry : Registry} {options : Options}
    {request : SearchRequest} {plan : Plan}
    (h : (Plan.ofRequest registry options request).result = .ok plan) (store : Store)
    (elapsed : Nat) :
    (store.source.search registry options request elapsed).result = .ok (plan.answer store) := by
  unfold Source.search
  simp only [h]
  rfl

/-- An accepted request has a result, which a store gives from the plan. -/
theorem Source.exists_result_of_accepted [PatternLimit] {registry : Registry} {options : Options}
    {request : SearchRequest} {plan : Plan}
    (h : (Plan.ofRequest registry options request).result = .ok plan) (store : Store)
    (elapsed : Nat) :
    ∃ result, (store.source.search registry options request elapsed).result = .ok result ∧
      result.documents = store.run plan.collection plan.pipeline ∧
      result.total = store.count plan.collection plan.criteria :=
  ⟨plan.answer store, result_eq_answer h store elapsed, rfl, rfl⟩

/-- Without sorting and paging, a plan filters by its criteria and expands. -/
theorem run_pipeline_of_unpaged [PatternLimit] {registry : Registry} {options : Options}
    {request : SearchRequest} {plan : Plan}
    (h : (Plan.ofRequest registry options request).result = .ok plan)
    (hsort : request.sort = []) (hpage : request.page = ⟨none, none⟩) (store : Store) :
    store.run plan.collection plan.pipeline =
      runStages store.documents ((store.documents plan.collection).filter plan.criteria.holds)
        plan.expansion := by
  obtain ⟨schema, criteria, draft, blocks, -, rfl, -⟩ := Plan.exists_laid_of_accepted h
  simp [Store.run, Plan.pipeline, Plan.ofDraft, hsort, hpage, runStages_cons, Stage.run]

/-! ## Counting images -/

/-- Flattening drops what is no object, so what a block gives are records. -/
theorem isRecord_of_mem_bare [PatternLimit] {collection : String → List Value} {b : Block}
    {documents : List Value}
    (hdocuments : ∀ d ∈ documents, d.isObject → d.IsRecord) {image : Value}
    (h : image ∈ runStages collection documents b.bare) : image.IsRecord := by
  rw [Block.bare, runStages_cons, runStages_cons, runStages_nil] at h
  obtain ⟨joined, hjoined, himage⟩ := List.mem_flatMap.mp h
  obtain ⟨document, hdocument, rfl⟩ := List.mem_map.mp hjoined
  by_cases hobject : document.isObject = true
  -- A join leaves what is no object as it was, and the flattening drops it.
  · have hrecord := b.join.isRecord_attach (collection b.join.source)
      (hdocuments document hdocument hobject)
    exact (b.flatten.frame_of_mem_apply hrecord himage).1
  · cases document with
    | object members => exact absurd rfl hobject
    | _ => cases himage

/-- A join with its flattening gives one document for each partner, and one where there
is none. -/
theorem length_apply_attach {join : Join} {flatten : Flatten} (hsound : SoundPair (join, flatten))
    (others : List Value) {document : Value} (hdocument : document.isObject) :
    (flatten.apply (join.attach others document)).length =
      max 1 (join.partners others document).length := by
  cases document with
  | object members =>
    have hpreserve : flatten.preserve = true := hsound.2
    rw [flatten.apply_attach hsound.1]
    cases join.partners others (.object members) with
    | nil => simp [Flatten.withoutItems, hpreserve]
    | cons partner rest => simp
  | _ => cases hdocument

theorem length_flatMap_of_length_eq_one {α β : Type} {f : α → List β} {xs : List α}
    (h : ∀ x ∈ xs, (f x).length = 1) : (xs.flatMap f).length = xs.length := by
  induction xs with
  | nil => rfl
  | cons x xs ih =>
    rw [List.flatMap_cons, List.length_append, h x List.mem_cons_self,
      ih fun y hy => h y (List.mem_cons_of_mem _ hy), List.length_cons, Nat.add_comm]

theorem length_le_length_flatMap {α β : Type} {f : α → List β} {xs : List α}
    (h : ∀ x ∈ xs, f x ≠ []) : xs.length ≤ (xs.flatMap f).length := by
  induction xs with
  | nil => exact Nat.le_refl _
  | cons x xs ih =>
    have hx := List.length_pos_iff.mpr (h x List.mem_cons_self)
    have hxs := ih fun y hy => h y (List.mem_cons_of_mem _ hy)
    rw [List.flatMap_cons, List.length_append, List.length_cons]
    omega

/-- A join that finds at most one partner for each document keeps their number, once it is
flattened. -/
theorem length_runStages_bare [PatternLimit] {collection : String → List Value} {b : Block}
    (hsound : SoundPair b.pair) {documents : List Value}
    (hdocuments : ∀ d ∈ documents, d.IsRecord)
    (hone : ∀ d ∈ documents, (b.join.partners (collection b.join.source) d).length ≤ 1) :
    (runStages collection documents b.bare).length = documents.length := by
  show ((documents.map (b.join.attach (collection b.join.source))).flatMap b.flatten.apply).length =
    documents.length
  rw [List.flatMap_map]
  refine length_flatMap_of_length_eq_one fun d hd => ?_
  have hpartners := hone d hd
  rw [length_apply_attach hsound _ (hdocuments d hd).isObject]
  omega

/-- No join of the stages finds two partners for a document that it meets. -/
def JoinsAtMostOne [PatternLimit] (collection : String → List Value) (documents : List Value)
    (stages : List Stage) : Prop :=
  ∀ before join after, stages = before ++ .join join :: after →
    ∀ d ∈ runStages collection documents before,
      (join.partners (collection join.source) d).length ≤ 1

/-- Blocks without filters whose joins find at most one partner each keep the number of
documents. -/
theorem length_runStages_of_joinsAtMostOne [PatternLimit] {collection : String → List Value}
    {blocks : List Block} (hsound : ∀ block ∈ blocks, SoundPair block.pair)
    (hfilters : ∀ block ∈ blocks, block.filters = []) {documents : List Value}
    (hdocuments : ∀ d ∈ documents, d.IsRecord)
    (hone : JoinsAtMostOne collection documents (blocks.flatMap Block.stages)) :
    (runStages collection documents (blocks.flatMap Block.stages)).length = documents.length := by
  induction blocks generalizing documents with
  | nil => rfl
  | cons block rest ih =>
    have hstages : (block :: rest).flatMap Block.stages =
        block.bare ++ rest.flatMap Block.stages := by
      simp [Block.stages, Block.bare, hfilters block List.mem_cons_self]
    rw [hstages] at hone ⊢
    rw [runStages_append]
    have hlength := length_runStages_bare (hsound block List.mem_cons_self) hdocuments
      fun d hd => hone [] block.join _ rfl d hd
    have hrecords : ∀ d ∈ runStages collection documents block.bare, d.IsRecord :=
      fun d => isRecord_of_mem_bare fun d hd _ => hdocuments d hd
    rw [ih (fun b hb => hsound b (List.mem_cons_of_mem _ hb))
      (fun b hb => hfilters b (List.mem_cons_of_mem _ hb)) hrecords ?_]
    · exact hlength
    · intro before join after hsplit d hd
      refine hone (block.bare ++ before) join after ?_ d ?_
      · rw [hsplit, List.append_assoc]
      · rwa [runStages_append]

/-! ## The documents of a search -/

/-- No base document is lost or invented. Where the expansion has no filters, a search
without sorting and paging gives the images of the base documents that meet the criteria,
in the order of the collection. Every one has an image, and its images agree with it at
every key that the expansion does not write. So there are at least as many documents as
the total says, and just as many where no join finds two partners. -/
theorem search_documents_eq_images [PatternLimit] (registry : Registry) (options : Options)
    (request : SearchRequest) (plan : Plan) (store : Store) (elapsed : Nat)
    (haccepted : (Plan.ofRequest registry options request).result = .ok plan)
    (hsort : request.sort = []) (hpage : request.page = ⟨none, none⟩)
    (hfilters : ∀ stage ∈ plan.expansion, ¬stage.isFilter)
    (hobjects : ∀ d ∈ store.documents plan.collection, d.isObject ∧ d.DistinctKeys) :
    ∃ result, (store.source.search registry options request elapsed).result = .ok result ∧
      (∃ images : Value → List Value,
        result.documents =
          ((store.documents plan.collection).filter plan.criteria.holds).flatMap images ∧
        ∀ base ∈ (store.documents plan.collection).filter plan.criteria.holds,
          images base ≠ [] ∧
            ∀ d ∈ images base, d.isObject ∧ d.AgreesOutside plan.writtenKeys base) ∧
      result.total = ((store.documents plan.collection).filter plan.criteria.holds).length ∧
      result.total ≤ result.documents.length ∧
      (JoinsAtMostOne store.documents
          ((store.documents plan.collection).filter plan.criteria.holds) plan.expansion →
        result.documents.length = result.total) := by
  obtain ⟨schema, criteria, draft, blocks, -, -, hlaid⟩ := Plan.exists_laid_of_accepted haccepted
  obtain ⟨result, hresult, hdocuments, htotal⟩ :=
    Source.exists_result_of_accepted haccepted store elapsed
  rw [run_pipeline_of_unpaged haccepted hsort hpage] at hdocuments
  have hrecords : ∀ d ∈ (store.documents plan.collection).filter plan.criteria.holds,
      d.IsRecord := by
    intro d hd
    obtain ⟨hobject, hkeys⟩ := hobjects d (List.mem_filter.mp hd).1
    exact Value.isRecord_of_distinctKeys hobject hkeys
  generalize hbases : (store.documents plan.collection).filter plan.criteria.holds = bases
    at hdocuments hrecords ⊢
  have hkeeps := hlaid.keepsObjects hfilters
  have himages : runStages store.documents bases plan.expansion =
      bases.flatMap fun base => runStages store.documents [base] plan.expansion :=
    runStages_eq_flatMap hlaid.isLocal bases
  have hne : ∀ base ∈ bases, runStages store.documents [base] plan.expansion ≠ [] :=
    fun base hbase => runStages_singleton_ne_nil hkeeps (hrecords base hbase)
  have hcount : result.total = bases.length := by
    rw [htotal, ← hbases]
    exact List.countP_eq_length_filter
  refine ⟨result, hresult, ⟨_, hdocuments.trans himages, fun base hbase => ⟨hne base hbase, ?_⟩⟩,
    hcount, ?_, fun hone => ?_⟩
  · intro d hd
    obtain ⟨hrecord, hagrees⟩ := frame_of_mem_runStages hlaid.isLocal (hrecords base hbase) hd
    exact ⟨hrecord.isObject, fun key hkey =>
      hagrees key fun htouched => hkey (hlaid.touchedKeys_subset htouched)⟩
  · rw [hcount, hdocuments, himages]
    exact length_le_length_flatMap hne
  · rw [hlaid.expansion] at hdocuments hone
    rw [hdocuments, hcount]
    exact length_runStages_of_joinsAtMostOne (fun _ => hlaid.sound)
      (fun _ => hlaid.filters_eq_nil hfilters) hrecords hone

/-- A document with an identifier and a reference. -/
def referring (id field target : String) : Value :=
  .object [("id", .string id), (field, .object [("id", .string target)])]

/-- One order whose owner is there twice, and one whose owner is missing. -/
def orderStore : Store :=
  (Store.empty.withDocuments "order"
    [referring "o1" "owner" "p1", referring "o2" "owner" "p2"]).withDocuments "person"
      [referring "p1" "company" "c1", referring "p1" "company" "c2"]

theorem documents_orderStore :
    orderStore.documents "order" = [referring "o1" "owner" "p1", referring "o2" "owner" "p2"] :=
  rfl

theorem distinctKeys_referring {id field target : String} (h : field ≠ "id") :
    (referring id field target).isObject ∧ (referring id field target).DistinctKeys := by
  refine ⟨rfl, ?_⟩
  simp [referring, Value.DistinctKeys, Value.DistinctKeysMembers, Ne.symm h]

theorem distinctKeys_orderStore :
    ∀ d ∈ orderStore.documents "order", d.isObject ∧ d.DistinctKeys := by
  rw [documents_orderStore]
  intro d hd
  rcases List.mem_cons.mp hd with rfl | hd
  · exact distinctKeys_referring (by decide)
  · rw [List.mem_singleton.mp hd]
    exact distinctKeys_referring (by decide)

section

attribute [local instance] PatternLimit.unbounded

/-- The orders of the store are found with an image at least for each. -/
theorem search_documents_eq_images_orderStore :
    ∃ plan result, (Plan.ofRequest orders .standard orderRequest).result = .ok plan ∧
      orderRequest.sort = [] ∧ orderRequest.page = ⟨none, none⟩ ∧
      (∀ stage ∈ plan.expansion, ¬stage.isFilter) ∧
      (∀ d ∈ orderStore.documents plan.collection, d.isObject ∧ d.DistinctKeys) ∧
      (orderStore.source.search orders .standard orderRequest 0).result = .ok result ∧
      result.total ≤ result.documents.length := by
  obtain ⟨plan, haccepted, hcheck⟩ := Plan.exists_of_check
    (Plan.ofRequest orders .standard orderRequest).result
    (fun plan => plan.collection == "order" && plan.expansion.all (!·.isFilter))
    (by decide +kernel)
  obtain ⟨hcollection, hall⟩ := (Bool.and_eq_true _ _).mp hcheck
  have hfilters : ∀ stage ∈ plan.expansion, ¬stage.isFilter := by simpa using hall
  have hobjects : ∀ d ∈ orderStore.documents plan.collection, d.isObject ∧ d.DistinctKeys := by
    rw [beq_iff_eq.mp hcollection]
    exact distinctKeys_orderStore
  obtain ⟨result, hresult, -, -, hle, -⟩ := search_documents_eq_images orders .standard
    orderRequest plan orderStore 0 haccepted rfl rfl hfilters hobjects
  exact ⟨plan, result, haccepted, rfl, rfl, hfilters, hobjects, hresult, hle⟩

end

end JoinPlan
