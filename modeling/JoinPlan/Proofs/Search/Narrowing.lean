import JoinPlan.Proofs.Filter.Criteria
import JoinPlan.Proofs.Search.Pushdown
import JoinPlan.Proofs.Store.Sorting
import Mathlib.Data.List.Flatten
import Mathlib.Data.List.Forall2

/-!
# Filters narrow, and alternatives widen

Two searches that differ in their filters alone are laid out alike: they join the same
documents in the same blocks and sort by the same keys. This file compares what they find.

> `Filter.Finer`: wherever the one filter asks for tokens, the other asks for some of them.

The finer filter asks more of every document: its criteria imply the others
(`holds_of_finer`), and so do the filters of its blocks, one block after the other
(`forall₂_narrows`), because the filters under an alias all stand in the first block of
that alias. Hence every stage keeps a sublist a sublist (`sublist_runStages_blocks`), up to
the sorting at the end. An entry under a new key makes a filter finer (`AddsEntry.finer`), and
one more token makes it less so (`AddsToken.finer`).
-/

namespace JoinPlan

/-! ## Finer filters -/

/-- Where the wide value asks for tokens, the narrow one asks for some of them. -/
def FilterValue.Finer (narrow wide : Option FilterValue) : Prop :=
  ∀ tokens, alternatives? wide = some tokens →
    ∃ fewer, alternatives? narrow = some fewer ∧ fewer ⊆ tokens

theorem FilterValue.Finer.refl (value : Option FilterValue) : Finer value value :=
  fun tokens htokens => ⟨tokens, htokens, List.Subset.refl tokens⟩

/-- Of two lookups one after the other, the second one counts on both sides or on none. -/
theorem FilterValue.Finer.or {narrow narrow' wide wide' : Option FilterValue}
    (h : Finer narrow wide) (hsome : narrow.isSome = wide.isSome) (h' : Finer narrow' wide') :
    Finer (narrow.or narrow') (wide.or wide') := by
  cases narrow with
  | none =>
    obtain rfl : wide = none := Option.not_isSome_iff_eq_none.mp (by simp [← hsome])
    simpa using h'
  | some value =>
    obtain ⟨value', rfl⟩ := Option.isSome_iff_exists.mp hsome.symm
    simpa using h

/-- The narrow demand asks the same of the same place, with some of the tokens only. -/
structure Demand.Narrows (narrow wide : Demand) : Prop where
  asName : narrow.asName = wide.asName
  key : narrow.key = wide.key
  type : narrow.type = wide.type
  tokens : narrow.tokens ⊆ wide.tokens

namespace Demand

theorem Narrows.met [PatternLimit] {narrow wide : Demand} (h : narrow.Narrows wide)
    {document : Value} (hmet : narrow.met document = true) : wide.met document = true := by
  obtain ⟨token, htoken, hholds⟩ := met_iff.mp hmet
  have hpath : narrow.path = wide.path := by
    unfold path
    rw [h.asName, h.key]
  rw [hpath, h.type] at hholds
  exact met_iff.mpr ⟨token, h.tokens htoken, hholds⟩

/-- Finer tokens make a demand that narrows. -/
theorem exists_narrows_of_finer {asName key : String} {target : Option Schema}
    {narrow wide : Option FilterValue} (h : FilterValue.Finer narrow wide) {d : Demand}
    (hd : d ∈ ofTokens? asName key target (FilterValue.alternatives? wide)) :
    ∃ d' ∈ ofTokens? asName key target (FilterValue.alternatives? narrow), d'.Narrows d := by
  obtain ⟨tokens, htokens, rfl⟩ := mem_ofTokens?.mp hd
  obtain ⟨fewer, hfewer, hsub⟩ := h tokens htokens
  exact ⟨_, mem_ofTokens?.mpr ⟨fewer, hfewer, rfl⟩, rfl, rfl, rfl, hsub⟩

end Demand

/-- The filter is finer than that of the context, at every key, and at every field that an
entry describes. -/
structure Context.Finer (c : Context) (entries : List String) (narrow : Filter) : Prop where
  keys : ∀ key, FilterValue.Finer (narrow.get? key) (c.filter.get? key)
  paths : ∀ entry ∈ entries, ∀ path route, c.completePath? entry = some (path, route) →
    ∀ field ∈ path.fields, FilterValue.Finer
      ((narrow.get? (path.pathTo field.name)).or (narrow.get? entry))
      ((c.filter.get? (path.pathTo field.name)).or (c.filter.get? entry))

namespace Context

variable {c : Context} {entries : List String} {narrow : Filter}

section WithFilter

variable (c : Context) (narrow : Filter)

theorem completePath?_withFilter (entry : String) :
    ({ c with filter := narrow } : Context).completePath? entry = c.completePath? entry := by
  unfold completePath?
  simp only

/-- The filter has no part in the joins. -/
theorem pairs_withFilter (entries : List String) :
    ({ c with filter := narrow } : Context).pairs entries = c.pairs entries := by
  have hrelations : ({ c with filter := narrow } : Context).relationPairs = c.relationPairs := rfl
  have hpaths : ({ c with filter := narrow } : Context).pathPairs = c.pathPairs := by
    funext entry
    unfold pathPairs
    simp only [completePath?_withFilter]
  unfold pairs
  rw [hrelations, hpaths]

/-- Nor has it in the descriptions. -/
theorem fields_withFilter (entries : List String) :
    ({ c with filter := narrow } : Context).fields entries = c.fields entries := by
  have hdescribe : ({ c with filter := narrow } : Context).describe = c.describe := rfl
  have hpaths : ({ c with filter := narrow } : Context).pathFields = c.pathFields := by
    funext entry
    unfold pathFields
    simp only [completePath?_withFilter, hdescribe]
  unfold fields
  rw [hpaths]

end WithFilter

theorem pathEntries_withFilter (schema : Schema) (request : SearchRequest) (narrow : Filter) :
    pathEntries schema { request with filter := narrow } = pathEntries schema request := rfl

/-- A finer filter makes demands that narrow those of the context. -/
theorem Finer.exists_narrows (h : c.Finer entries narrow) {d : Demand}
    (hd : d ∈ c.demands entries) :
    ∃ d' ∈ ({ c with filter := narrow } : Context).demands entries, d'.Narrows d := by
  rcases List.mem_append.mp hd with hrelation | hpath
  · obtain ⟨entry, hentry, hd⟩ := List.mem_flatMap.mp hrelation
    have hnarrow : ∃ d' ∈ ({ c with filter := narrow } : Context).relationDemands entry,
        d'.Narrows d := by
      unfold relationDemands at hd ⊢
      split at hd
      · next target key htarget hkey =>
        have htarget' : ({ c with filter := narrow } : Context).joinedSchema? entry.2 =
            some target := htarget
        simp only [htarget', hkey]
        exact Demand.exists_narrows_of_finer (h.keys entry.1) hd
      · cases hd
    obtain ⟨d', hd', hnarrows⟩ := hnarrow
    exact ⟨d', List.mem_append_left _ (List.mem_flatMap.mpr ⟨entry, hentry, hd'⟩), hnarrows⟩
  · obtain ⟨entry, hentry, hd⟩ := List.mem_flatMap.mp hpath
    have hnarrow : ∃ d' ∈ ({ c with filter := narrow } : Context).pathDemands entry,
        d'.Narrows d := by
      unfold pathDemands at hd ⊢
      split at hd
      · cases hd
      · next path route hpath =>
        have hpath' := (c.completePath?_withFilter narrow entry).trans hpath
        obtain ⟨field, hfield, hd⟩ := List.mem_flatMap.mp hd
        obtain ⟨d', hd', hnarrows⟩ := Demand.exists_narrows_of_finer
          (h.paths entry hentry path route hpath field hfield) hd
        simp only [hpath']
        exact ⟨d', List.mem_flatMap.mpr ⟨field, hfield, hd'⟩, hnarrows⟩
    obtain ⟨d', hd', hnarrows⟩ := hnarrow
    exact ⟨d', List.mem_append_right _ (List.mem_flatMap.mpr ⟨entry, hentry, hd'⟩), hnarrows⟩

end Context

/-! ## What makes a filter finer -/

/-- The filter has one more entry than that of the context, under a new key. Where the key
is the path of a field, the entry that describes the field is not asked for as a whole. -/
def Context.AddsEntry (c : Context) (entries : List String) (filter : Filter) : Prop :=
  ∃ key value, c.filter.get? key = none ∧ filter = c.filter.insert key value ∧
    ∀ entry ∈ entries, ∀ path route, c.completePath? entry = some (path, route) →
      ∀ field ∈ path.fields, path.pathTo field.name = key → c.filter.get? entry = none

/-- The wide filter has one more token in a list that is not empty, or behind a single
token. -/
def Filter.AddsToken (narrow wide : Filter) : Prop :=
  ∃ key tokens token, tokens ≠ [] ∧
    (narrow.get? key = some (.many tokens) ∨
      ∃ single, tokens = [single] ∧ narrow.get? key = some (.one single)) ∧
    wide = narrow.insert key (.many (tokens ++ [token]))

theorem Context.AddsEntry.finer {c : Context} {entries : List String} {filter : Filter}
    (h : c.AddsEntry entries filter) : c.Finer entries filter := by
  obtain ⟨key, value, hnew, rfl, hraw⟩ := h
  have hkeys : ∀ other, FilterValue.Finer ((c.filter.insert key value).get? other)
      (c.filter.get? other) := by
    intro other
    by_cases hother : other = key
    · subst hother
      rw [hnew]
      intro tokens htokens
      cases htokens
    · rw [SortedMap.get?_insert_of_ne hother]
      exact .refl _
  refine ⟨hkeys, fun entry hentry path route hpath field hfield => ?_⟩
  by_cases hkey : path.pathTo field.name = key
  -- At its own path the new entry goes before the raw one, so there must be none.
  · rw [hkey, hnew, hraw entry hentry path route hpath field hfield hkey]
    intro tokens htokens
    cases htokens
  · rw [SortedMap.get?_insert_of_ne hkey]
    exact (FilterValue.Finer.refl _).or rfl (hkeys entry)

theorem Filter.AddsToken.finer {c : Context} {narrow : Filter}
    (h : Filter.AddsToken narrow c.filter) (entries : List String) : c.Finer entries narrow := by
  obtain ⟨key, tokens, token, hne, hnarrow, hwide⟩ := h
  have halternatives : FilterValue.alternatives? (narrow.get? key) = some tokens ∧
      (narrow.get? key).isSome := by
    rcases hnarrow with hmany | ⟨single, rfl, hone⟩
    · rw [hmany]
      exact ⟨by simpa [FilterValue.alternatives?, FilterValue.tokens?] using hne, rfl⟩
    · rw [hone]
      exact ⟨rfl, rfl⟩
  have hkeys : ∀ other, FilterValue.Finer (narrow.get? other) (c.filter.get? other) ∧
      (narrow.get? other).isSome = (c.filter.get? other).isSome := by
    intro other
    rw [hwide]
    by_cases hother : other = key
    · subst hother
      rw [SortedMap.get?_insert_self]
      refine ⟨fun more hmore => ⟨tokens, halternatives.1, ?_⟩, halternatives.2⟩
      obtain ⟨rfl, -⟩ : tokens ++ [token] = more ∧ more ≠ [] := by
        simpa [FilterValue.alternatives?, FilterValue.tokens?] using hmore
      exact List.subset_append_left tokens [token]
    · rw [SortedMap.get?_insert_of_ne hother]
      exact ⟨.refl _, rfl⟩
  refine ⟨fun other => (hkeys other).1, fun entry _ path _ _ field _ => ?_⟩
  obtain ⟨hfiner, hsome⟩ := hkeys (path.pathTo field.name)
  exact hfiner.or hsome (hkeys entry).1

/-! ## Criteria and joined documents -/

/-- Criteria of a finer filter imply those of the filter. -/
theorem Condition.holds_of_finer [PatternLimit] {schema : Schema} {narrow wide : Filter}
    {criteria criteria' : Condition}
    (h : ∀ key, FilterValue.Finer (narrow.get? key) (wide.get? key))
    (hwide : ofFilter schema wide = .ok criteria)
    (hnarrow : ofFilter schema narrow = .ok criteria') {document : Value}
    (hholds : criteria'.holds document = true) : criteria.holds document = true := by
  rw [holds_ofFilter hnarrow, List.all_eq_true] at hholds
  rw [holds_ofFilter hwide, List.all_eq_true]
  rintro ⟨key, value⟩ hentry
  have hvalue : wide.get? key = some value := SortedMap.get?_eq_some_iff.mpr hentry
  unfold entryHolds
  split
  · next path type tokens hslot htokens =>
    rw [← hvalue] at htokens
    obtain ⟨fewer, hfewer, hsub⟩ := h key tokens htokens
    cases hvalue' : narrow.get? key with
    | none =>
      rw [hvalue'] at hfewer
      cases hfewer
    | some value' =>
      rw [hvalue'] at hfewer
      have hmet := hholds (key, value') (SortedMap.get?_eq_some_iff.mp hvalue')
      simp only [entryHolds, hslot, hfewer] at hmet
      obtain ⟨token, htoken, hholds⟩ := List.any_eq_true.mp hmet
      exact List.any_eq_true.mpr ⟨token, hsub htoken, hholds⟩
  · rfl

/-! ## Blocks of a finer filter -/

namespace Block

/-- The blocks join alike, and the filters of the narrow one imply those of the wide one. -/
structure Narrows [PatternLimit] (narrow wide : Block) : Prop where
  pair : narrow.pair = wide.pair
  filters : ∀ document, (∀ condition ∈ narrow.filters, condition.holds document = true) →
    ∀ condition ∈ wide.filters, condition.holds document = true

theorem mem_flatMap_named {blocks : List Block} {asName : String} {condition : Condition} :
    (asName, condition) ∈ blocks.flatMap named ↔
      ∃ block ∈ blocks, block.join.asName = asName ∧ condition ∈ block.filters := by
  rw [List.mem_flatMap]
  refine exists_congr fun block => and_congr_right fun _ => ?_
  simp [named, and_comm]

theorem pair_getElem_eq {blocks others : List Block} (hpairs : blocks.map pair = others.map pair)
    {k : Nat} (hk : k < blocks.length) (hk' : k < others.length) :
    blocks[k].pair = others[k].pair := by
  have hfound : (blocks.map pair)[k]? = (others.map pair)[k]? := by rw [hpairs]
  rw [List.getElem?_map, List.getElem?_map, List.getElem?_eq_getElem hk,
    List.getElem?_eq_getElem hk'] at hfound
  exact Option.some.inj hfound

/-- Blocks that join alike have the filters of an alias at the same place. -/
theorem index_eq_of_asName_eq {blocks others : List Block}
    (hpairs : blocks.map pair = others.map pair) (hblocks : blocks.Pairwise Yields)
    (hothers : others.Pairwise Yields) {i j : Nat} (hi : i < blocks.length)
    (hj : j < others.length) (hfilters : blocks[i].filters ≠ [])
    (hfilters' : others[j].filters ≠ []) (hname : blocks[i].join.asName = others[j].join.asName) :
    i = j := by
  have hlength : blocks.length = others.length := by
    simpa using congrArg List.length hpairs
  have hsame : ∀ k (hk : k < blocks.length) (hk' : k < others.length),
      blocks[k].join.asName = others[k].join.asName := fun k hk hk' =>
    congrArg (·.1.asName) (pair_getElem_eq hpairs hk hk')
  rcases Nat.lt_trichotomy i j with hlt | heq | hgt
  · have hi' : i < others.length := Nat.lt_trans hlt hj
    have hother := List.pairwise_iff_getElem.mp hothers i j hi' hj hlt hfilters'
    exact absurd ((hsame i hi hi').symm.trans hname) hother
  · exact heq
  · have hj' : j < blocks.length := Nat.lt_trans hgt hi
    have hother := List.pairwise_iff_getElem.mp hblocks j i hj' hi hgt hfilters
    exact absurd ((hsame j hj' hj).trans hname.symm) hother

end Block

/-- Builders that were given the same joins, and demands that narrow, hold blocks that
narrow. -/
theorem Builder.Holds.forall₂_narrows [PatternLimit] {b b' : Builder}
    {pairs : List (Join × Flatten)} {demands demands' : List Demand} {blocks blocks' : List Block}
    (h : b.Holds pairs (demands.map Demand.named) blocks)
    (h' : b'.Holds pairs (demands'.map Demand.named) blocks')
    (hcasts : ∀ d ∈ demands, ∃ condition, d.compiled = .ok condition)
    (hcasts' : ∀ d ∈ demands', ∃ condition, d.compiled = .ok condition)
    (hnarrows : ∀ d ∈ demands, ∃ d' ∈ demands', d'.Narrows d) :
    List.Forall₂ Block.Narrows blocks' blocks := by
  have hpairs : blocks.map Block.pair = blocks'.map Block.pair := h.pairs.trans h'.pairs.symm
  have hlength : blocks'.length = blocks.length := by
    simpa using (congrArg List.length hpairs).symm
  refine List.forall₂_iff_get.mpr ⟨hlength, fun i hi' hi => ⟨?_, ?_⟩⟩
  · exact Block.pair_getElem_eq hpairs.symm hi' hi
  · intro document hmet condition hcondition
    -- The condition is that of a demand, which the demands of the other builder narrow.
    have hnamed : (blocks[i].join.asName, condition) ∈ demands.map Demand.named :=
      h.filters.subset (Block.mem_flatMap_named.mpr
        ⟨blocks[i], List.getElem_mem hi, rfl, hcondition⟩)
    obtain ⟨d, hd, heq⟩ := List.mem_map.mp hnamed
    obtain ⟨hname, rfl⟩ := Prod.mk.inj heq
    obtain ⟨d', hd', hnarrow⟩ := hnarrows d hd
    have hnamed' : (d'.asName, d'.condition) ∈ blocks'.flatMap Block.named :=
      h'.filters.symm.subset (List.mem_map.mpr ⟨d', hd', rfl⟩)
    obtain ⟨block, hblock, hname', hcondition'⟩ := Block.mem_flatMap_named.mp hnamed'
    -- Its condition stands in the first block of the alias, and that is this one.
    obtain ⟨j, hj, rfl⟩ := List.getElem_of_mem hblock
    have hij : i = j := by
      refine Block.index_eq_of_asName_eq hpairs h.leaders h'.leaders hi hj
        (List.ne_nil_of_mem hcondition) (List.ne_nil_of_mem hcondition') ?_
      rw [← hname, hname', hnarrow.asName]
    subst hij
    have hholds := hmet d'.condition hcondition'
    rw [Demand.holds_condition (hcasts' d' hd')] at hholds
    rw [Demand.holds_condition (hcasts d hd)]
    exact hnarrow.met hholds

/-! ## Runs -/

section Runs

variable {collection : String → List Value}

/-- Filters that imply others keep a sublist of what the others keep. -/
theorem sublist_filter {documents others : List Value} {p q : Value → Bool}
    (h : documents.Sublist others) (himp : ∀ document, p document = true → q document = true) :
    (documents.filter p).Sublist (others.filter q) :=
  (h.filter p).trans (List.monotone_filter_right others himp)

theorem sublist_runStages_bare [PatternLimit] (b : Block) {documents others : List Value}
    (h : documents.Sublist others) :
    (runStages collection documents b.bare).Sublist (runStages collection others b.bare) :=
  (h.map _).flatMap _

/-- Blocks that narrow keep a sublist of what the others keep. -/
theorem sublist_runStages_blocks [PatternLimit] {blocks blocks' : List Block}
    (hblocks : List.Forall₂ Block.Narrows blocks' blocks) {documents others : List Value}
    (h : documents.Sublist others) :
    (runStages collection documents (blocks'.flatMap Block.stages)).Sublist
      (runStages collection others (blocks.flatMap Block.stages)) := by
  -- Block after block: what one block keeps are the documents that the next one meets.
  induction hblocks generalizing documents others with
  | nil => exact h
  | @cons narrow wide narrows wides hnarrow _ ih =>
    rw [List.flatMap_cons, List.flatMap_cons, runStages_append, runStages_append]
    refine ih ?_
    have hbare : narrow.bare = wide.bare := by
      have hpair := hnarrow.pair
      simp only [Block.pair, Prod.mk.injEq] at hpair
      rw [Block.bare, Block.bare, hpair.1, hpair.2]
    rw [runStages_stages, runStages_stages, hbare]
    refine sublist_filter (sublist_runStages_bare wide h) fun document hall => ?_
    rw [List.all_eq_true] at hall ⊢
    exact hnarrow.filters document hall

end Runs

/-! ## Searches -/

/-- Without paging, a plan filters by its criteria, expands and sorts; without sort keys,
sorting leaves the documents as they are. -/
theorem Store.run_pipeline_of_whole [PatternLimit] (store : Store) {plan : Plan}
    (hpage : plan.page = ⟨none, none⟩) :
    store.run plan.collection plan.pipeline =
      sortDocuments plan.sort
        (runStages store.documents
          ((store.documents plan.collection).filter plan.criteria.holds) plan.expansion) := by
  rw [plan.run_pipeline, hpage]
  rfl

/-- Sort keys are rewritten by the joins and the descriptions of a draft alone. -/
theorem SortKey.ofText?_congr {schema : Schema} {draft draft' : Draft}
    (hjoined : ∀ asName, draft'.builder.hasAlias asName = draft.builder.hasAlias asName)
    (hfields : draft'.extraFields = draft.extraFields) :
    SortKey.ofText? schema draft' = SortKey.ofText? schema draft := by
  funext key
  unfold SortKey.ofText? pathFor relationPath?
  simp only [hjoined, hfields]

/-- Builders that were given the same joins have the same aliases. -/
theorem Builder.Holds.hasAlias_eq {b b' : Builder} {pairs : List (Join × Flatten)}
    {filters filters' : List (String × Condition)} {blocks blocks' : List Block}
    (h : b.Holds pairs filters blocks) (h' : b'.Holds pairs filters' blocks') (asName : String) :
    b'.hasAlias asName = b.hasAlias asName := by
  have hnames : blocks'.map (·.join.asName) = blocks.map (·.join.asName) := by
    have hpairs := congrArg (List.map (·.1.asName)) (h'.pairs.trans h.pairs.symm)
    rwa [List.map_map, List.map_map] at hpairs
  rw [Bool.eq_iff_iff, h'.hasAlias_iff, h.hasAlias_iff]
  simpa [List.mem_map] using Iff.of_eq (congrArg (asName ∈ ·) hnames)

section Searches

variable {registry : Registry} {options : Options} {request : SearchRequest} {schema : Schema}
  {narrow : Filter} {plan plan' : Plan}

/-- The context of a request without an identifier, with another filter. -/
theorem Context.ofRequest_withFilter (hid : request.id = none) :
    Context.ofRequest registry options schema { request with filter := narrow } =
      { Context.ofRequest registry options schema request with filter := narrow } := by
  unfold Context.ofRequest SearchRequest.effectiveFilter
  simp [hid]

/-- Criteria of a request with a finer filter imply those of the request. -/
theorem holds_criteria_of_finer [PatternLimit] (hid : request.id = none) {entries : List String}
    (hfiner : (Context.ofRequest registry options schema request).Finer entries narrow)
    {criteria criteria' : Condition} (hcriteria : request.criteria schema = .ok criteria)
    (hcriteria' : ({ request with filter := narrow } : SearchRequest).criteria schema =
      .ok criteria') {document : Value} (hholds : criteria'.holds document = true) :
    criteria.holds document = true := by
  have hkeys := hfiner.keys
  rw [Context.filter_ofRequest hid] at hkeys
  rw [SearchRequest.criteria_eq_ofFilter hid] at hcriteria
  have hid' : ({ request with filter := narrow } : SearchRequest).id = none := hid
  rw [SearchRequest.criteria_eq_ofFilter hid'] at hcriteria'
  exact Condition.holds_of_finer hkeys hcriteria hcriteria' hholds

/-- Drafts of a request and of the request with a finer filter narrow, block by block, and
rewrite sort keys alike. -/
theorem Context.Finer.exists_blocks [PatternLimit] {c : Context} {entries : List String}
    (hfiner : c.Finer entries narrow) {draft draft' : Draft}
    (hdraft : c.expand entries = .ok draft)
    (hdraft' : ({ c with filter := narrow } : Context).expand entries = .ok draft') :
    (∃ blocks blocks', draft.builder.stages = blocks.flatMap Block.stages ∧
      draft'.builder.stages = blocks'.flatMap Block.stages ∧
      List.Forall₂ Block.Narrows blocks' blocks) ∧
    SortKey.ofText? schema draft' = SortKey.ofText? schema draft := by
  have hgathers := expand_gathers hdraft
  have hgathers' := expand_gathers hdraft'
  rw [pairs_withFilter, fields_withFilter] at hgathers'
  obtain ⟨blocks, hblocks⟩ := hgathers.holds
  obtain ⟨blocks', hblocks'⟩ := hgathers'.holds
  refine ⟨⟨blocks, blocks', hblocks.stages, hblocks'.stages, ?_⟩, ?_⟩
  · exact hblocks.forall₂_narrows hblocks' hgathers.casts hgathers'.casts
      fun d hd => hfiner.exists_narrows hd
  · exact SortKey.ofText?_congr (hblocks.hasAlias_eq hblocks')
      (hgathers'.fields.trans hgathers.fields.symm)

/-- A finer filter finds a sublist of the documents, and no more of them in total. -/
theorem Plan.sublist_run_of_finer [PatternLimit]
    (hschema : registry.get? request.type = some schema)
    (hid : request.id = none) (hpage : request.page = ⟨none, none⟩)
    (haccepted : (Plan.ofRequest registry options request).result = .ok plan)
    (haccepted' : (Plan.ofRequest registry options { request with filter := narrow }).result =
      .ok plan')
    (hfiner : (Context.ofRequest registry options schema request).Finer
      (Context.pathEntries schema request) narrow) (store : Store) :
    (store.run plan'.collection plan'.pipeline).Sublist
        (store.run plan.collection plan.pipeline) ∧
      store.count plan'.collection plan'.criteria ≤ store.count plan.collection plan.criteria := by
  have hschema' : registry.get? ({ request with filter := narrow } : SearchRequest).type =
      some schema := hschema
  obtain ⟨criteria, draft, hcriteria, hdraft, rfl⟩ := exists_expand hschema haccepted
  obtain ⟨criteria', draft', hcriteria', hdraft', rfl⟩ := exists_expand hschema' haccepted'
  rw [Context.ofRequest_withFilter hid, Context.pathEntries_withFilter] at hdraft'
  obtain ⟨⟨blocks, blocks', hstages, hstages', hnarrows⟩, hkeys⟩ :=
    hfiner.exists_blocks hdraft hdraft'
  have himplies : ∀ document, criteria'.holds document = true →
      criteria.holds document = true := fun document =>
    holds_criteria_of_finer hid hfiner hcriteria hcriteria'
  have hfound : (runStages store.documents
      ((store.documents schema.name).filter criteria'.holds) draft'.builder.stages).Sublist
      (runStages store.documents
        ((store.documents schema.name).filter criteria.holds) draft.builder.stages) := by
    rw [hstages, hstages']
    exact sublist_runStages_blocks hnarrows (sublist_filter (List.Sublist.refl _) himplies)
  have hcount : store.count schema.name criteria' ≤ store.count schema.name criteria := by
    unfold Store.count
    exact List.countP_mono_left fun document _ => himplies document
  refine ⟨?_, hcount⟩
  rw [store.run_pipeline_of_whole hpage, store.run_pipeline_of_whole hpage]
  show (sortDocuments (request.sort.filterMap (SortKey.ofText? schema draft')) _).Sublist
    (sortDocuments (request.sort.filterMap (SortKey.ofText? schema draft)) _)
  rw [hkeys]
  exact sublist_sortDocuments _ hfound

end Searches

/-- A further entry of a filter narrows a search, and a further token widens it. Two
searches without identifier and page that differ in their filters alone find documents in
the same order: with one more entry under a new key a sublist of them, and with one more
token among the alternatives of a key a list of which they are a sublist. The totals follow. -/
theorem search_narrows_and_widens [PatternLimit] (registry : Registry) (options : Options)
    (request : SearchRequest) (filter : Filter) (schema : Schema) (plan plan' : Plan)
    (store : Store) (elapsed elapsed' : Nat)
    (hschema : registry.get? request.type = some schema)
    (hid : request.id = none) (hpage : request.page = ⟨none, none⟩)
    (haccepted : (Plan.ofRequest registry options request).result = .ok plan)
    (haccepted' : (Plan.ofRequest registry options { request with filter }).result = .ok plan') :
    ∃ result result',
      (store.source.search registry options request elapsed).result = .ok result ∧
      (store.source.search registry options { request with filter } elapsed').result =
        .ok result' ∧
      ((Context.ofRequest registry options schema request).AddsEntry
          (Context.pathEntries schema request) filter →
        result'.documents.Sublist result.documents ∧ result'.total ≤ result.total) ∧
      (Filter.AddsToken request.filter filter →
        result.documents.Sublist result'.documents ∧ result.total ≤ result'.total) := by
  obtain ⟨result, hresult, hdocuments, htotal⟩ :=
    Source.exists_result_of_accepted haccepted store elapsed
  obtain ⟨result', hresult', hdocuments', htotal'⟩ :=
    Source.exists_result_of_accepted haccepted' store elapsed'
  refine ⟨result, result', hresult, hresult', fun hadds => ?_, fun hadds => ?_⟩
  · rw [hdocuments, hdocuments', htotal, htotal']
    exact Plan.sublist_run_of_finer hschema hid hpage haccepted haccepted' hadds.finer store
  · rw [hdocuments, hdocuments', htotal, htotal']
    -- Seen from the wide request, the request is the one with the finer filter.
    have hwide : (Context.ofRequest registry options schema { request with filter }).filter =
        filter := by
      rw [Context.ofRequest_withFilter hid]
    have hschema' : registry.get? ({ request with filter } : SearchRequest).type = some schema :=
      hschema
    rw [← hwide] at hadds
    exact Plan.sublist_run_of_finer hschema' hid hpage haccepted' haccepted (hadds.finer _) store

/-- The request for orders of owners at one company, by its name. -/
def acmeRequest : SearchRequest :=
  { orderRequest with filter := orderRequest.filter.insert "owner/company/name" (.one "Acme") }

/-- The request for orders of owners at one of two companies. -/
def acmeOrBoltRequest : SearchRequest :=
  { acmeRequest with
    filter := acmeRequest.filter.insert "owner/company/name" (.many ["Acme", "Bolt"]) }

/-- Three orders, each of an owner at another company. -/
def companyStore : Store :=
  ((Store.empty.withDocuments "company"
    [.object [("id", .string "c1"), ("name", .string "Acme")],
      .object [("id", .string "c2"), ("name", .string "Bolt")],
      .object [("id", .string "c3"), ("name", .string "Core")]]).withDocuments "person"
    [employed "p1" "Ann" "c1", employed "p2" "Bob" "c2", employed "p3" "Cem" "c3"]).withDocuments
      "order" [referring "o1" "owner" "p1", referring "o2" "owner" "p2",
        referring "o3" "owner" "p3"]

section

attribute [local instance] PatternLimit.unbounded

/-- The identifiers of what a request finds among the orders. -/
def foundOrders (request : SearchRequest) : Option (List (Option String)) :=
  (companyStore.source.search orders .standard request 0).result.toOption.map fun result =>
    result.documents.map fun d => (d.get? "id").bind Value.text?

/-- The orders by a company are among all orders, and among those by one of two companies. -/
theorem search_narrows_and_widens_acmeRequest :
    ∃ all acme either,
      (companyStore.source.search orders .standard orderRequest 0).result = .ok all ∧
      (companyStore.source.search orders .standard acmeRequest 0).result = .ok acme ∧
      (companyStore.source.search orders .standard acmeOrBoltRequest 0).result = .ok either ∧
      foundOrders orderRequest = some [some "o1", some "o2", some "o3"] ∧
      foundOrders acmeRequest = some [some "o1"] ∧
      foundOrders acmeOrBoltRequest = some [some "o1", some "o2"] ∧
      acme.documents.Sublist all.documents ∧ acme.total ≤ all.total ∧
      acme.documents.Sublist either.documents ∧ acme.total ≤ either.total := by
  obtain ⟨planAll, hall, -⟩ := Plan.exists_of_check
    (Plan.ofRequest orders .standard orderRequest).result (fun _ => true) (by decide +kernel)
  obtain ⟨planAcme, hacme, -⟩ := Plan.exists_of_check
    (Plan.ofRequest orders .standard acmeRequest).result (fun _ => true) (by decide +kernel)
  obtain ⟨planEither, heither, -⟩ := Plan.exists_of_check
    (Plan.ofRequest orders .standard acmeOrBoltRequest).result (fun _ => true) (by decide +kernel)
  obtain ⟨schema, -, -, hschema, -, -, -⟩ := Plan.exists_expand_of_accepted hall
  have hadds : (Context.ofRequest orders .standard schema orderRequest).AddsEntry
      (Context.pathEntries schema orderRequest) acmeRequest.filter :=
    ⟨_, _, rfl, rfl, fun _ _ _ _ _ _ _ _ => rfl⟩
  have htoken : Filter.AddsToken acmeRequest.filter acmeOrBoltRequest.filter := by
    refine ⟨"owner/company/name", ["Acme"], "Bolt", by simp, .inr ⟨"Acme", rfl, ?_⟩, rfl⟩
    exact SortedMap.get?_insert_self _ _ _
  obtain ⟨all, acme, hallFound, hacmeFound, hnarrows, -⟩ := search_narrows_and_widens orders
    .standard orderRequest acmeRequest.filter schema planAll planAcme companyStore 0 0 hschema rfl
    rfl hall hacme
  obtain ⟨acme', either, hacmeFound', heitherFound, -, hwidens⟩ := search_narrows_and_widens orders
    .standard acmeRequest acmeOrBoltRequest.filter schema planAcme planEither companyStore 0 0
    hschema rfl rfl hacme heither
  have hacmeFound : (companyStore.source.search orders .standard acmeRequest 0).result =
      .ok acme := hacmeFound
  rw [hacmeFound] at hacmeFound'
  obtain rfl := Except.ok.inj hacmeFound'
  refine ⟨all, acme, either, hallFound, hacmeFound, heitherFound, ?_, ?_, ?_,
    (hnarrows hadds).1, (hnarrows hadds).2, (hwidens htoken).1, (hwidens htoken).2⟩
  · decide +kernel
  · decide +kernel
  · decide +kernel

end

end JoinPlan
