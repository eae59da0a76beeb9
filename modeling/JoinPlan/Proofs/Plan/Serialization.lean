import JoinPlan.Plan.Request
import JoinPlan.Proofs.Json.Nodes
import JoinPlan.Proofs.Text.Trimming

/-!
# Requests as JSON

A request is sent as JSON, and the schema versions in it as one text. This file supplies that the
way there and back loses nothing.

> `CachedSchemas.parse_header`: the header of versions that were read from a header is read as
> the same versions.
>
> `SearchRequest.WellFormed`: what holds of every request that was read. The bounds of its page
> have 64 bits, the objects in its filter have different names, and its versions come from a
> header.

A part of a header is trimmed before it is cut at its mark, so the part that an entry is written
as is the trimmed part, and is read as the entry again (`read_part`). A filter value is written
as a text, an array or an object, and each of these is read as what it was. So a request is read
back when it is well formed (`ofJson?_toJson`), and only then, for what is read is well formed
(`wellFormed_of_ofJson?`).
-/

namespace JoinPlan

/-! ## Headers -/

namespace CachedSchemas

/-- An entry as a part of a header. -/
def part (entry : String × String) : String := s!"{entry.1}@{entry.2}"

/-- An entry is written as the part that it was read from, trimmed. -/
theorem part_of_read {text : String} {entry : String × String}
    (h : entry? text = some entry) : part entry = Text.trim text := by
  unfold entry? at h
  obtain ⟨hcut, -⟩ := Option.filter_eq_some_iff.mp h
  rw [Text.eq_append_of_cutAtFirst hcut]
  rfl

/-- An entry that was read is read from its part. -/
theorem read_part {text : String} {entry : String × String}
    (h : entry? text = some entry) : entry? (part entry) = some entry := by
  rw [part_of_read h, entry?, Text.trim_trim]
  exact h

/-- The versions of a header are written as a header that is read as the same versions. -/
theorem parse_header (header : String) : parse (parse header).header = parse header := by
  have hparts : ∀ entry ∈ (parse header).entries,
      entry? (part entry) = some entry ∧ ',' ∉ (part entry).toList := by
    intro entry hentry
    obtain ⟨text, htext, hread⟩ := List.mem_filterMap.mp hentry
    refine ⟨read_part hread, fun hcomma => ?_⟩
    rw [part_of_read hread] at hcomma
    exact Text.not_mem_of_mem_split htext (Text.mem_of_mem_trim hcomma)
  generalize parse header = held at hparts
  obtain ⟨entries⟩ := held
  refine congrArg CachedSchemas.mk ?_
  show (Text.split ',' (",".intercalate (entries.map part))).filterMap entry? = entries
  by_cases hnone : entries = []
  · -- No entries are written as the empty text, which has one part that is no entry.
    subst hnone
    rfl
  · have hcommas : ∀ text ∈ entries.map part, ',' ∉ text.toList := by
      intro text htext
      obtain ⟨entry, hentry, rfl⟩ := List.mem_map.mp htext
      exact (hparts entry hentry).2
    have hsplit : Text.split ',' (",".intercalate (entries.map part)) = entries.map part :=
      Text.split_intercalate (List.map_eq_nil_iff.not.mpr hnone) hcommas
    rw [hsplit, List.filterMap_map]
    refine (List.filterMap_congr fun entry hentry => ?_).trans List.filterMap_some
    rw [Function.comp_apply]
    exact (hparts entry hentry).1

/-- Parts without a name or without a mark are not written again. -/
example : (parse " a@1 ,b @@ 2,@3,c").header = "a@1,b @@ 2" := by decide +kernel

end CachedSchemas

/-! ## Filters -/

namespace FilterValue

/-- A filter value is read back from its JSON. -/
theorem ofJson?_toJson (value : FilterValue) : ofJson? value.toJson = some value := by
  cases value with
  | one token => rfl
  | many tokens =>
    have hread : tokens.mapM (Value.text? ∘ Value.string) = some tokens :=
      mapM_eq_some_self fun token _ => rfl
    rw [toJson, Value.ofTexts, ofJson?, List.mapM_map, hread]
    rfl
  | nested members => rfl

/-- Texts that were read are the items that they were read from. -/
theorem map_string_of_mapM_text? {items : List Value} {tokens : List String}
    (h : items.mapM Value.text? = some tokens) : tokens.map Value.string = items := by
  have hread : ∀ item token, Value.text? item = some token ↔ item = .string token := by
    intro item token
    cases item <;> simp [Value.text?]
  exact ((mapM_eq_some_iff_map hread).mp h).symm

/-- A filter value that was read is written as it was. -/
theorem toJson_of_ofJson? {v : Value} {value : FilterValue} (h : ofJson? v = some value) :
    value.toJson = v := by
  cases v with
  | string token =>
    cases h
    rfl
  | array items =>
    obtain ⟨tokens, htokens, rfl⟩ := Option.map_eq_some_iff.mp h
    exact congrArg Value.array (map_string_of_mapM_text? htokens)
  | object members =>
    cases h
    rfl
  | _ => cases h

end FilterValue

/-! ## Requests -/

namespace SearchRequest

/-- What holds of every request that was read. -/
structure WellFormed (request : SearchRequest) : Prop where
  /-- The offset has 64 bits. -/
  offset : ∀ n, request.page.offset = some n → n < UInt64.size
  /-- The limit has 64 bits. -/
  limit : ∀ n, request.page.limit = some n → n < UInt64.size
  /-- The objects in the filter have different names. -/
  filter : ∀ name value, (name, value) ∈ request.filter.entries → value.toJson.DistinctKeys
  /-- The versions were read from a header. -/
  cachedSchemas : ∃ header, request.cachedSchemas = .parse header

theorem nullable?_boundToJson {bound : Option Nat} (h : ∀ n, bound = some n → n < UInt64.size) :
    (boundToJson bound).toNode.nullable? Node.natural? = some bound := by
  cases bound with
  | none => rfl
  | some n =>
    have hn := h n rfl
    show (Node.natural? (.number (some (.int n)))).map some = _
    rw [Node.natural?, if_pos (by omega)]
    rfl

/-- The members of a page as JSON. -/
def pageMembers (page : Page) : Members :=
  [("offset", boundToJson page.offset), ("limit", boundToJson page.limit)]

theorem page?_toNode {page : Page} (hoffset : ∀ n, page.offset = some n → n < UInt64.size)
    (hlimit : ∀ n, page.limit = some n → n < UInt64.size) :
    page? (Value.object (pageMembers page)).toNode = some page := by
  have hfields : (Value.object (pageMembers page)).toNode.typedFields? false ["offset", "limit"] =
      some (Node.fieldsOf (pageMembers page)) :=
    Node.typedFields?_toNode false (by simp [pageMembers, Members.Distinct])
  have hfirst := Node.orDefault?_eq_some "offset" none (Node.nullable? Node.natural?)
    (show (pageMembers page).get? "offset" = _ from rfl) (nullable?_boundToJson hoffset)
  have hsecond := Node.orDefault?_eq_some "limit" none (Node.nullable? Node.natural?)
    (show (pageMembers page).get? "limit" = _ from rfl) (nullable?_boundToJson hlimit)
  rw [page?, hfields]
  simp only [Option.bind_eq_bind, Option.bind_some, hfirst, hsecond]
  rfl

/-- A filter is read back in the depth to which its values nest. -/
theorem filter?_toNode {filter : Filter} {limit : Nat}
    (h : ∀ entry ∈ filter.entries,
      entry.2.toJson.depth ≤ limit ∧ entry.2.toJson.DistinctKeys) :
    filter? limit (Value.object (filter.entries.map fun (name, value) =>
      (name, value.toJson))).toNode = some filter := by
  have hread : ∀ entry ∈ filter.entries,
      filterMember? limit (some entry.1, entry.2.toJson.toNode) = some entry := by
    intro entry hentry
    obtain ⟨hdepth, hkeys⟩ := h entry hentry
    rw [filterMember?, Value.toValueWithin_toNode _ hdepth hkeys]
    show (FilterValue.ofJson? entry.2.toJson).bind _ = _
    rw [FilterValue.ofJson?_toJson]
    rfl
  rw [Value.toNode, filter?, Value.toNodeMembers_eq_map, List.mapM_map, List.mapM_map]
  refine (congrArg (Option.map SortedMap.ofList) (mapM_eq_some_self hread)).trans ?_
  rw [Option.map_some, SortedMap.ofList_entries]

/-- The members of a filter as JSON. -/
def filterMembers (filter : Filter) : Members :=
  filter.entries.map fun (name, value) => (name, value.toJson)

/-- The members of a request as JSON. -/
def members (r : SearchRequest) : Members :=
  [("type", .string r.type), ("id", .ofText? r.id), ("filter", .object (filterMembers r.filter)),
    ("sort", .ofTexts r.sort), ("page", .object (pageMembers r.page)),
    ("include", .ofTexts r.include), ("extra_paths", .ofTexts r.extraPaths),
    ("no_extra", .bool r.noExtra), ("cached_schemas", .string r.cachedSchemas.header)]

/-- A well-formed request is read back from its JSON. -/
theorem ofJson?_toJson {request : SearchRequest} (h : request.WellFormed) :
    ofJson? request.toJson = some request := by
  have hfields : (Value.object request.members).toNode.typedFields? false
      ["type", "id", "filter", "sort", "page", "include", "extra_paths", "no_extra",
        "cached_schemas"] = some (Node.fieldsOf request.members) :=
    Node.typedFields?_toNode false (by simp [members, Members.Distinct])
  have hvalues : ∀ entry ∈ request.filter.entries,
      entry.2.toJson.depth ≤ request.toJson.depth ∧ entry.2.toJson.DistinctKeys := by
    intro entry hentry
    refine ⟨?_, h.filter entry.1 entry.2 hentry⟩
    have hmember : (entry.1, entry.2.toJson) ∈ filterMembers request.filter :=
      List.mem_map_of_mem hentry
    have hfilter : ("filter", Value.object (filterMembers request.filter)) ∈ request.members := by
      simp [members]
    have hinner := Value.depth_le_of_mem hmember
    have houter := Value.depth_le_of_mem hfilter
    have hdepth : request.toJson.depth = Value.depthMembers request.members + 1 := rfl
    rw [Value.depth] at houter
    omega
  have hversions : CachedSchemas.parse request.cachedSchemas.header = request.cachedSchemas := by
    obtain ⟨header, hheader⟩ := h.cachedSchemas
    rw [hheader, CachedSchemas.parse_header]
  have htype := Node.orDefault?_eq_some "type" "" Node.text?
    (show request.members.get? "type" = _ from rfl) rfl
  have hid := Node.orDefault?_eq_some "id" none (Node.nullable? Node.text?)
    (show request.members.get? "id" = _ from rfl) (Node.nullable?_toNode request.id)
  have hfilter := Node.orDefault?_eq_some "filter" .empty (filter? request.toJson.depth)
    (show request.members.get? "filter" = _ from rfl) (filter?_toNode hvalues)
  have hsort := Node.orDefault?_eq_some "sort" [] Node.texts?
    (show request.members.get? "sort" = _ from rfl) (Node.texts?_toNode request.sort)
  have hpage := Node.orDefault?_eq_some "page" ⟨none, none⟩ page?
    (show request.members.get? "page" = _ from rfl) (page?_toNode h.offset h.limit)
  have hinclude := Node.orDefault?_eq_some "include" [] Node.texts?
    (show request.members.get? "include" = _ from rfl) (Node.texts?_toNode request.include)
  have hextraPaths := Node.orDefault?_eq_some "extra_paths" [] Node.texts?
    (show request.members.get? "extra_paths" = _ from rfl) (Node.texts?_toNode request.extraPaths)
  have hnoExtra := Node.orDefault?_eq_some "no_extra" false Node.flag?
    (show request.members.get? "no_extra" = _ from rfl) rfl
  have hcachedSchemas := Node.orDefault?_eq_some "cached_schemas" ⟨[]⟩
    (fun node => node.text?.map CachedSchemas.parse)
    (show request.members.get? "cached_schemas" = _ from rfl) (congrArg some hversions)
  show ofNodeWithin? request.toJson.depth (Value.object request.members).toNode = some request
  rw [ofNodeWithin?, hfields]
  simp only [Option.bind_eq_bind, Option.bind_some, htype, hid, hfilter, hsort, hpage, hinclude,
    hextraPaths, hnoExtra, hcachedSchemas]
  rfl

/-! ## What is read -/

theorem lt_of_nullable?_natural? {node : Node} {bound : Option Nat}
    (h : node.nullable? Node.natural? = some bound) : ∀ n, bound = some n → n < UInt64.size := by
  intro n hn
  subst hn
  unfold Node.nullable? at h
  split at h
  · cases h
  · obtain ⟨m, hnatural, hm⟩ := Option.map_eq_some_iff.mp h
    cases hm
    unfold Node.natural? at hnatural
    split at hnatural
    · split at hnatural
      · cases hnatural
        omega
      · cases hnatural
    · cases hnatural

theorem lt_of_page? {node : Node} {page : Page} (h : page? node = some page) :
    (∀ n, page.offset = some n → n < UInt64.size) ∧
      ∀ n, page.limit = some n → n < UInt64.size := by
  have hbound {fields : List (String × Node)} {name : String} {bound : Option Nat}
      (hread : Node.orDefault? fields name none (Node.nullable? Node.natural?) = some bound) :
      ∀ n, bound = some n → n < UInt64.size := by
    rcases Node.eq_or_exists_of_orDefault? hread with rfl | ⟨node, hnode⟩
    · intro n hn
      cases hn
    · exact lt_of_nullable?_natural? hnode
  obtain ⟨fields, -, h⟩ := Option.bind_eq_some_iff.mp h
  obtain ⟨offset, hoffset, h⟩ := Option.bind_eq_some_iff.mp h
  obtain ⟨limit, hlimit, h⟩ := Option.bind_eq_some_iff.mp h
  cases h
  exact ⟨hbound hoffset, hbound hlimit⟩

theorem distinctKeys_of_filter? {limit : Nat} {node : Node} {filter : Filter}
    (h : filter? limit node = some filter) {name : String} {value : FilterValue}
    (hentry : (name, value) ∈ filter.entries) : value.toJson.DistinctKeys := by
  unfold filter? at h
  split at h
  · obtain ⟨entries, hentries, rfl⟩ := Option.map_eq_some_iff.mp h
    obtain ⟨member, -, hmember⟩ := exists_of_mem_mapM hentries (SortedMap.mem_of_mem_ofList hentry)
    obtain ⟨v, hv, hmember⟩ := Option.bind_eq_some_iff.mp hmember
    obtain ⟨key, -, hmember⟩ := Option.bind_eq_some_iff.mp hmember
    obtain ⟨read, hread, hmember⟩ := Option.bind_eq_some_iff.mp hmember
    cases hmember
    rw [FilterValue.toJson_of_ofJson? hread]
    exact Node.distinctKeys_of_toValueWithin _ hv
  · cases h

/-- What is read is well formed. -/
theorem wellFormed_of_ofJson? {v : Value} {request : SearchRequest}
    (h : ofJson? v = some request) : request.WellFormed := by
  obtain ⟨fields, -, h⟩ := Option.bind_eq_some_iff.mp h
  obtain ⟨type, -, h⟩ := Option.bind_eq_some_iff.mp h
  obtain ⟨id, -, h⟩ := Option.bind_eq_some_iff.mp h
  obtain ⟨filter, hfilter, h⟩ := Option.bind_eq_some_iff.mp h
  obtain ⟨sort, -, h⟩ := Option.bind_eq_some_iff.mp h
  obtain ⟨page, hpage, h⟩ := Option.bind_eq_some_iff.mp h
  obtain ⟨included, -, h⟩ := Option.bind_eq_some_iff.mp h
  obtain ⟨extraPaths, -, h⟩ := Option.bind_eq_some_iff.mp h
  obtain ⟨noExtra, -, h⟩ := Option.bind_eq_some_iff.mp h
  obtain ⟨held, hheld, h⟩ := Option.bind_eq_some_iff.mp h
  cases h
  have hbounds : (∀ n, page.offset = some n → n < UInt64.size) ∧
      ∀ n, page.limit = some n → n < UInt64.size := by
    rcases Node.eq_or_exists_of_orDefault? hpage with rfl | ⟨node, hnode⟩
    · exact ⟨nofun, nofun⟩
    · exact lt_of_page? hnode
  refine ⟨hbounds.1, hbounds.2, ?_, ?_⟩
  · intro name value hentry
    rcases Node.eq_or_exists_of_orDefault? hfilter with rfl | ⟨node, hnode⟩
    · cases hentry
    · exact distinctKeys_of_filter? hnode hentry
  · rcases Node.eq_or_exists_of_orDefault? hheld with rfl | ⟨node, hnode⟩
    · exact ⟨"", rfl⟩
    · obtain ⟨header, -, rfl⟩ := Option.map_eq_some_iff.mp hnode
      exact ⟨header, rfl⟩

/-- A request comes back from its JSON exactly when it is well formed, as every request is that
can be read. And the schema versions of any header come back from the header that they are
written as, so what they say of a type is the same before and after. -/
theorem ofJson?_toJson_iff (request : SearchRequest) (header : String) :
    (ofJson? request.toJson = some request ↔ request.WellFormed) ∧
      CachedSchemas.parse (CachedSchemas.parse header).header = .parse header := by
  refine ⟨⟨?_, ?_⟩, CachedSchemas.parse_header header⟩
  · intro h
    exact wellFormed_of_ofJson? h
  · intro h
    exact ofJson?_toJson h

end SearchRequest

end JoinPlan
