import JoinPlan.Proofs.Plan.Scoping
import JoinPlan.Proofs.Search.Fanout

/-!
# Filters inside an expansion

A filter on a joined document stands right behind the flattening of its join, in the
middle of the expansion. This file supplies that it may as well stand at the end: a
search without sorting and paging gives what the bare joins give, kept where the filter
of the request is met (`Context.Meets`).

It holds because what a filter reads is the member under the alias of its block, and no
later block touches that member when all keys written differ (`notMem_touchedKeys`). So
one block's filters pass over the bare blocks behind it, `runStages_filter_comm`, and
`runStages_blocks` carries them to the end, one block after the other. The filters of
the blocks are the demands of the request in some order, which a filter does not see.

A plain alias, one without a dot, is needed for a path below it to read the one member.
-/

namespace JoinPlan

/-! ## Blocks with and without filters -/

theorem filter_stages_eq_bare (blocks : List Block) :
    (blocks.flatMap Block.stages).filter (!·.isFilter) = blocks.flatMap Block.bare := by
  induction blocks with
  | nil => rfl
  | cons b rest ih =>
    have hstages : b.stages.filter (!·.isFilter) = b.bare := by
      simp [Block.stages, Block.bare, Stage.isFilter]
    rw [List.flatMap_cons, List.filter_append, hstages, ih, List.flatMap_cons]

section Blocks

variable {collection : String → List Value}

/-- Filters one after the other keep what meets all of them. -/
theorem runStages_map_filter [PatternLimit] (conditions : List Condition) (documents : List Value) :
    runStages collection documents (conditions.map Stage.filter) =
      documents.filter fun d => conditions.all (·.holds d) := by
  induction conditions generalizing documents with
  | nil => exact (List.filter_eq_self.mpr fun _ _ => rfl).symm
  | cons condition rest ih =>
    rw [List.map_cons, runStages_cons, Stage.run, ih, List.filter_filter]
    simp only [List.all_cons, Bool.and_comm]

/-- A block joins, flattens, and keeps what meets its filters. -/
theorem runStages_stages [PatternLimit] (b : Block) (documents : List Value) :
    runStages collection documents b.stages =
      (runStages collection documents b.bare).filter fun d => b.filters.all (·.holds d) := by
  show runStages collection documents (b.bare ++ b.filters.map Stage.filter) = _
  rw [runStages_append, runStages_map_filter]

theorem isLocal_of_mem_bare {blocks : List Block} :
    ∀ stage ∈ blocks.flatMap Block.bare, stage.isLocal := by
  intro stage hstage
  obtain ⟨b, -, hb⟩ := List.mem_flatMap.mp hstage
  rcases List.mem_cons.mp hb with rfl | hb
  · rfl
  · rw [List.mem_singleton.mp hb]
    rfl

/-- Bare blocks touch what they write. -/
theorem notMem_touchedKeys {blocks : List Block} (hsound : ∀ b ∈ blocks, SoundPair b.pair)
    {key : String} (h : key ∉ blocks.flatMap fun b => writes b.pair) :
    key ∉ (blocks.flatMap Block.bare).flatMap Stage.touchedKeys := by
  intro hkey
  rw [List.flatMap_assoc] at hkey
  obtain ⟨b, hb, hkey⟩ := List.mem_flatMap.mp hkey
  refine h (List.mem_flatMap.mpr ⟨b, hb, ?_⟩)
  have hname : b.flatten.asName = b.join.asName := (hsound b hb).1
  simpa [Block.bare, Block.pair, writes, Stage.touchedKeys, hname] using hkey

theorem readsOnly_all [PatternLimit] {key : String} {conditions : List Condition}
    (h : ∀ condition ∈ conditions, ReadsOnly key condition.holds) :
    ReadsOnly key fun d => conditions.all (·.holds d) := by
  intro v w hv hw hkey
  induction conditions with
  | nil => rfl
  | cons condition rest ih =>
    have hfirst := h condition List.mem_cons_self v w hv hw hkey
    have hrest := ih fun c hc => h c (List.mem_cons_of_mem _ hc)
    simp only at hfirst hrest ⊢
    rw [List.all_cons, List.all_cons, hfirst, hrest]

/-- The filters of blocks may be applied at the end, when the blocks write different
keys and the filters of each read its own alias. -/
theorem runStages_blocks [PatternLimit] {blocks : List Block}
    (hsound : ∀ b ∈ blocks, SoundPair b.pair)
    (hnames : (blocks.flatMap fun b => writes b.pair).Nodup)
    (hreads : ∀ b ∈ blocks, ∀ condition ∈ b.filters,
      ReadsOnly b.join.asName condition.holds)
    {documents : List Value} (hdocuments : ∀ d ∈ documents, d.isObject → d.IsRecord) :
    runStages collection documents (blocks.flatMap Block.stages) =
      (runStages collection documents (blocks.flatMap Block.bare)).filter fun d =>
        (blocks.flatMap Block.named).all (·.2.holds d) := by
  induction blocks generalizing documents with
  | nil => exact (List.filter_eq_self.mpr fun _ _ => rfl).symm
  | cons b rest ih =>
    rw [List.flatMap_cons] at hnames
    obtain ⟨hhere, hthere, hdisjoint⟩ := List.nodup_append.mp hnames
    have hkey : b.join.asName ∉ (rest.flatMap Block.bare).flatMap Stage.touchedKeys := by
      refine notMem_touchedKeys (fun c hc => hsound c (List.mem_cons_of_mem _ hc)) fun hin => ?_
      exact hdisjoint _ List.mem_cons_self _ hin rfl
    have hfilters : ReadsOnly b.join.asName fun d => b.filters.all (·.holds d) :=
      readsOnly_all (hreads b List.mem_cons_self)
    have hrecords : ∀ d ∈ runStages collection documents b.bare, d.IsRecord :=
      fun d => isRecord_of_mem_bare hdocuments
    -- What is left after the filters of `b` are records still, for the blocks behind it.
    have hkept : ∀ d ∈ (runStages collection documents b.bare).filter
        (fun d => b.filters.all (·.holds d)), d.isObject → d.IsRecord :=
      fun d hd _ => hrecords d (List.mem_filter.mp hd).1
    have htail := ih (fun c hc => hsound c (List.mem_cons_of_mem _ hc)) hthere
      (fun c hc => hreads c (List.mem_cons_of_mem _ hc)) hkept
    rw [List.flatMap_cons, List.flatMap_cons, List.flatMap_cons, runStages_append,
      runStages_append, runStages_stages, htail,
      runStages_filter_comm isLocal_of_mem_bare hfilters hkey hrecords, List.filter_filter]
    congr 1
    funext d
    rw [List.all_append, Bool.and_comm, Block.named, List.all_map]
    rfl

end Blocks

/-! ## What a filter asks of joined documents -/

namespace Context

/-- Every joined relation with a traversal key for which the filter has tokens holds a
value there of which one of the tokens is true. -/
def RelationsMeet [PatternLimit] (c : Context) (d : Value) : Prop :=
  ∀ name relation target key tokens, c.schema.relation? name = some relation →
    c.joinedSchema? relation = some target → relation.traversalKey = some key →
    FilterValue.alternatives? (c.filter.get? name) = some tokens →
    ∃ token ∈ tokens, Condition.tokenHolds (relationAlias relation.target name ++ "." ++ key)
      ((target.attribute? key).bind (·.scalarType?)) d token

/-- Every field at the end of an entry that leads somewhere, for which the filter has
tokens under its path or under the entry, holds a value of which one of them is true. -/
def PathsMeet [PatternLimit] (c : Context) (entries : List String) (d : Value) : Prop :=
  ∀ entry path route field tokens, entry ∈ entries →
    c.completePath? entry = some (path, route) → field ∈ path.fields →
    FilterValue.alternatives? ((c.filter.get? (path.pathTo field.name)).or (c.filter.get? entry))
      = some tokens →
    ∃ token ∈ tokens,
      Condition.tokenHolds (pathAlias (route.hops.map (·.field)) ++ "." ++ field.name)
        (((c.registry.get? (route.finalTarget?.getD "")).bind (·.attribute? field.name)).bind
          (·.scalarType?)) d token

/-- The document meets the filter on what is joined. Tokens are read under the types of
the joined schemas' attributes. -/
def Meets [PatternLimit] (c : Context) (entries : List String) (d : Value) : Prop :=
  c.RelationsMeet d ∧ c.PathsMeet entries d

variable {c : Context} {entries : List String} {d : Value}

theorem forall_relationDemands_met_iff [PatternLimit] :
    (∀ demand ∈ c.schema.relations.flatMap c.relationDemands, demand.met d = true) ↔
      c.RelationsMeet d := by
  constructor
  · intro h name relation target key tokens hrelation htarget hkey htokens
    have hasked : (⟨relationAlias relation.target name, key, tokens,
        (target.attribute? key).bind (·.scalarType?)⟩ : Demand) ∈
          c.relationDemands (name, relation) := by
      simp only [relationDemands, htarget, hkey]
      exact Demand.mem_ofTokens?.mpr ⟨tokens, htokens, rfl⟩
    exact Demand.met_iff.mp (h _ (List.mem_flatMap.mpr
      ⟨(name, relation), Schema.mem_relations_iff.mpr hrelation, hasked⟩))
  · intro h demand hdemand
    obtain ⟨⟨name, relation⟩, hentry, hdemand⟩ := List.mem_flatMap.mp hdemand
    unfold relationDemands at hdemand
    split at hdemand
    · next target key htarget hkey =>
      obtain ⟨tokens, htokens, rfl⟩ := Demand.mem_ofTokens?.mp hdemand
      exact Demand.met_iff.mpr (h name relation target key tokens
        (Schema.mem_relations_iff.mp hentry) htarget hkey htokens)
    · cases hdemand

theorem forall_pathDemands_met_iff [PatternLimit] :
    (∀ demand ∈ entries.flatMap c.pathDemands, demand.met d = true) ↔ c.PathsMeet entries d := by
  constructor
  · intro h entry path route field tokens hentry hpath hfield htokens
    have hasked : (⟨pathAlias (route.hops.map (·.field)), field.name, tokens,
        ((c.registry.get? (route.finalTarget?.getD "")).bind (·.attribute? field.name)).bind
          (·.scalarType?)⟩ : Demand) ∈ c.pathDemands entry := by
      simp only [pathDemands, hpath]
      exact List.mem_flatMap.mpr ⟨field, hfield, Demand.mem_ofTokens?.mpr ⟨tokens, htokens, rfl⟩⟩
    exact Demand.met_iff.mp (h _ (List.mem_flatMap.mpr ⟨entry, hentry, hasked⟩))
  · intro h demand hdemand
    obtain ⟨entry, hentry, hdemand⟩ := List.mem_flatMap.mp hdemand
    unfold pathDemands at hdemand
    split at hdemand
    · cases hdemand
    · next path route hpath =>
      obtain ⟨field, hfield, hdemand⟩ := List.mem_flatMap.mp hdemand
      obtain ⟨tokens, htokens, rfl⟩ := Demand.mem_ofTokens?.mp hdemand
      exact Demand.met_iff.mpr (h entry path route field tokens hentry hpath hfield htokens)

/-- All demands are met when the filter is. -/
theorem all_demands_met_iff [PatternLimit] :
    (c.demands entries).all (·.met d) = true ↔ c.Meets entries d := by
  unfold demands
  rw [List.all_append, Bool.and_eq_true, List.all_eq_true, List.all_eq_true,
    forall_relationDemands_met_iff, forall_pathDemands_met_iff, Meets]

instance [PatternLimit] : Decidable (c.Meets entries d) := decidable_of_iff _ all_demands_met_iff

end Context

/-! ## Filters of a plan -/

/-- A demand under a plain alias looks at the member of that name. -/
theorem Demand.readsOnly [PatternLimit] {d : Demand} (hplain : '.' ∉ d.asName.toList) :
    ReadsOnly d.asName d.met := by
  intro v w hv hw hkey
  have hlookup : v.lookup d.path = w.lookup d.path :=
    Value.lookup_under_congr hplain hv.isObject hw.isObject hkey d.key
  unfold met Condition.tokenHolds
  rw [hlookup]

namespace Plan.Laid

variable [PatternLimit] {plan : Plan} {c : Context} {entries : List String} {draft : Draft}
  {blocks : List Block}

/-- The filters of a block read its own alias. -/
theorem readsOnly_of_mem_filters (h : plan.Laid c entries draft blocks)
    (hplain : ∀ key ∈ plan.writtenKeys, '.' ∉ key.toList) {b : Block} (hb : b ∈ blocks)
    {condition : Condition} (hcondition : condition ∈ b.filters) :
    ReadsOnly b.join.asName condition.holds := by
  obtain ⟨demand, hdemand, hname, rfl⟩ := h.exists_demand hb hcondition
  have hholds : demand.condition.holds = demand.met :=
    funext fun d => Demand.holds_condition (h.gathers.casts demand hdemand) d
  have hkey : b.join.asName ∈ plan.writtenKeys := by
    rw [h.writtenKeys_eq]
    exact List.mem_flatMap.mpr ⟨b, hb, List.mem_cons_self⟩
  rw [hholds, ← hname]
  refine Demand.readsOnly ?_
  rw [hname]
  exact hplain _ hkey

/-- All filters of the blocks hold when the filter of the request is met. -/
theorem all_named_eq_meets (h : plan.Laid c entries draft blocks) (d : Value) :
    (blocks.flatMap Block.named).all (·.2.holds d) = decide (c.Meets entries d) := by
  rw [h.holds.filters.all_eq, List.all_map, Bool.eq_iff_iff, decide_eq_true_iff,
    ← Context.all_demands_met_iff, List.all_eq_true, List.all_eq_true]
  refine forall₂_congr fun demand hdemand => ?_
  have hholds := Demand.holds_condition (h.gathers.casts demand hdemand) d
  rw [Function.comp_apply, Demand.named, hholds]

/-- The expansion may be run without its filters, and the result filtered at the end. -/
theorem runStages_expansion (h : plan.Laid c entries draft blocks)
    (hnames : plan.writtenKeys.Nodup) (hplain : ∀ key ∈ plan.writtenKeys, '.' ∉ key.toList)
    (collection : String → List Value) {documents : List Value}
    (hdocuments : ∀ d ∈ documents, d.isObject → d.IsRecord) :
    runStages collection documents plan.expansion =
      (runStages collection documents (plan.expansion.filter (!·.isFilter))).filter fun d =>
        c.Meets entries d := by
  rw [h.writtenKeys_eq] at hnames
  rw [h.expansion, filter_stages_eq_bare, runStages_blocks (fun b hb => h.sound hb) hnames
    (fun b hb condition hcondition => h.readsOnly_of_mem_filters hplain hb hcondition) hdocuments]
  congr 1
  exact funext h.all_named_eq_meets

end Plan.Laid

/-- Where the keys written are different and plain, a search without sorting and paging
gives what the joins alone make of the documents that meet the criteria, kept where every
filter on a joined document is met. -/
theorem search_documents_eq_filter_meets [PatternLimit] (registry : Registry) (options : Options)
    (request : SearchRequest) (plan : Plan) (schema : Schema) (store : Store) (elapsed : Nat)
    (hschema : registry.get? request.type = some schema)
    (haccepted : (Plan.ofRequest registry options request).result = .ok plan)
    (hsort : request.sort = []) (hpage : request.page = ⟨none, none⟩)
    (hkeys : ∀ d ∈ store.documents plan.collection, d.DistinctKeys)
    (hnames : plan.writtenKeys.Nodup) (hplain : ∀ key ∈ plan.writtenKeys, '.' ∉ key.toList) :
    ∃ result, (store.source.search registry options request elapsed).result = .ok result ∧
      result.documents =
        (runStages store.documents ((store.documents plan.collection).filter plan.criteria.holds)
          (plan.expansion.filter (!·.isFilter))).filter fun d =>
            (Context.ofRequest registry options schema request).Meets
              (Context.pathEntries schema request) d := by
  obtain ⟨draft, blocks, hlaid⟩ := Plan.exists_laid hschema haccepted
  obtain ⟨result, hresult, hdocuments, -⟩ :=
    Source.exists_result_of_accepted haccepted store elapsed
  rw [run_pipeline_of_unpaged haccepted hsort hpage] at hdocuments
  refine ⟨result, hresult, hdocuments.trans ?_⟩
  refine hlaid.runStages_expansion hnames hplain store.documents fun d hd hobject => ?_
  exact Value.isRecord_of_distinctKeys hobject (hkeys d (List.mem_filter.mp hd).1)

/-- Orders with owners who are found by name and work for companies with so many people. -/
def staffs : Registry :=
  (Registry.ofSchemas [
    (Schema.make "order" "1").withAttribute "owner"
      ((Attribute.ofTarget "person").withTraversalKey "name"),
    (Schema.make "person" "1").withAttribute "company" (.ofTarget "company"),
    (Schema.make "company" "1").withAttribute "staff" (.ofScalar .int)]).toOption.getD .empty

/-- The request for the orders of an owner by name, whose company has many people. -/
def staffRequest : SearchRequest :=
  { SearchRequest.ofType "order" with
    filter := .ofList [("owner", .one "Ann"), ("owner/company/staff", .one ">100")]
    extraPaths := ["owner/company/staff:Size"] }

/-- A person with a name and a company. -/
def employed (id name company : String) : Value :=
  .object [("id", .string id), ("name", .string name),
    ("company", .object [("id", .string company)])]

/-- Two companies, one with many people. -/
def staffStore : Store :=
  Store.empty.withDocuments "company"
    [.object [("id", .string "c1"), ("staff", .number (.int 250))],
      .object [("id", .string "c2"), ("staff", .number (.int 90))]]

/-- Three orders. Two owners have the name, and two work for the company with many people. -/
def ownerStore : Store :=
  (staffStore.withDocuments "person"
    [employed "p1" "Ann" "c1", employed "p2" "Ann" "c2", employed "p3" "Bob" "c1"]).withDocuments
      "order" [referring "o1" "owner" "p1", referring "o2" "owner" "p2",
        referring "o3" "owner" "p3"]

theorem distinctKeys_ownerStore : ∀ d ∈ ownerStore.documents "order", d.DistinctKeys := by
  have horders : ownerStore.documents "order" =
      [("o1", "p1"), ("o2", "p2"), ("o3", "p3")].map fun e => referring e.1 "owner" e.2 := rfl
  rw [horders]
  exact List.forall_mem_map.mpr fun _ _ => (distinctKeys_referring (by decide)).2

section

attribute [local instance] PatternLimit.unbounded

/-- Of the three orders, the one is found whose owner has the name and the company. -/
theorem search_documents_eq_filter_meets_ownerStore :
    ∃ plan schema result, staffs.get? staffRequest.type = some schema ∧
      (Plan.ofRequest staffs .standard staffRequest).result = .ok plan ∧
      staffRequest.sort = [] ∧ staffRequest.page = ⟨none, none⟩ ∧
      (∀ d ∈ ownerStore.documents plan.collection, d.DistinctKeys) ∧
      plan.writtenKeys = ["__person/owner", "__person/owner_index", "__owner", "__owner/company"] ∧
      plan.writtenKeys.Nodup ∧ (∀ key ∈ plan.writtenKeys, '.' ∉ key.toList) ∧
      (plan.expansion.filter (·.isFilter)).length = 2 ∧
      (ownerStore.source.search staffs .standard staffRequest 0).result = .ok result ∧
      result.documents.map (fun d => (d.get? "id").bind Value.text?) = [some "o1"] := by
  obtain ⟨plan, haccepted, hcheck⟩ := Plan.exists_of_check
    (Plan.ofRequest staffs .standard staffRequest).result
    (fun plan => (plan.collection = "order" ∧
      plan.writtenKeys = ["__person/owner", "__person/owner_index", "__owner", "__owner/company"] ∧
      plan.writtenKeys.Nodup ∧ (∀ key ∈ plan.writtenKeys, '.' ∉ key.toList) ∧
      (plan.expansion.filter (·.isFilter)).length = 2) ∧
      ∀ schema ∈ staffs.get? staffRequest.type,
        ((runStages ownerStore.documents
            ((ownerStore.documents plan.collection).filter plan.criteria.holds)
            (plan.expansion.filter (!·.isFilter))).filter fun d =>
              (Context.ofRequest staffs .standard schema staffRequest).Meets
                (Context.pathEntries schema staffRequest) d).map
                  (fun d => (d.get? "id").bind Value.text?) = [some "o1"])
    (by decide +kernel)
  obtain ⟨⟨hcollection, hkeys, hnames, hplain, hfilters⟩, hfound⟩ := of_decide_eq_true hcheck
  obtain ⟨schema, -, -, -, hschema, -, -⟩ := Plan.exists_laid_of_accepted haccepted
  have hdistinct : ∀ d ∈ ownerStore.documents plan.collection, d.DistinctKeys := by
    rw [hcollection]
    exact distinctKeys_ownerStore
  obtain ⟨result, hresult, hdocuments⟩ := search_documents_eq_filter_meets staffs .standard
    staffRequest plan schema ownerStore 0 hschema haccepted rfl rfl hdistinct hnames hplain
  refine ⟨plan, schema, result, hschema, haccepted, rfl, rfl, hdistinct, hkeys, hnames, hplain,
    hfilters, hresult, ?_⟩
  rw [hdocuments]
  exact hfound schema hschema

end

end JoinPlan
