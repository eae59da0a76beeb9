import JoinPlan.Proofs.Plan.Layout
import JoinPlan.Proofs.Text.Trimming

/-!
# The path of a described field is its key

A filter and a sort key name a field at the end of an extra path by its path. Several entries
may describe one field: with other blanks, with other fields beside it, with another title. This
file supplies that the path stands for one joined value all the same.

> `extraFields_keyed_by_path`: described fields with one path differ in their titles at most, and
> what names the path reads the value of that field.

The path of a field is the entry written plainly, with that field alone (`parse_pathTo`): segments
and names are trimmed and have none of the marks at which an entry is cut (`WellFormed`). So the
path tells the segments and the field, and the segments tell the route, hence alias and table.
-/

namespace JoinPlan

/-! ## Entries -/

namespace ExtraPath

/-- A text that stands for itself between slashes. -/
structure PlainPart (s : String) : Prop where
  trimmed : Text.trim s = s
  slash : '/' ∉ s.toList

/-- A text that stands for itself as a field without a title. -/
structure PlainField (name : String) : Prop extends PlainPart name where
  named : name ≠ ""
  comma : ',' ∉ name.toList
  colon : ':' ∉ name.toList

/-- There are segments, and segments and fields stand for themselves. -/
structure WellFormed (path : ExtraPath) : Prop where
  segments_ne_nil : path.segments ≠ []
  segment : ∀ segment ∈ path.segments, PlainPart segment
  field : ∀ field ∈ path.fields, PlainField field.name

/-- Between slashes, trimmed texts stand for themselves. -/
theorem plainPart_of_mem_split {text part : String}
    (h : part ∈ (Text.split '/' text).map Text.trim) : PlainPart part := by
  obtain ⟨piece, hpiece, rfl⟩ := List.mem_map.mp h
  exact ⟨Text.trim_trim piece,
    fun hslash => Text.not_mem_of_mem_split hpiece (Text.mem_of_mem_trim hslash)⟩

/-- The name of a field is what stands before the first colon, trimmed. -/
theorem exists_front_of_leafField? {text : String} {field : LeafField}
    (h : leafField? text = some field) : field.name ≠ "" ∧
      ∃ front, field.name = Text.trim front ∧ ':' ∉ front.toList ∧
        ∀ c ∈ front.toList, c ∈ text.toList := by
  have hnamed : ∀ {written : LeafField},
      (if written.name.isEmpty then none else some written) = some field →
        field = written ∧ field.name ≠ "" := by
    intro written hwritten
    split at hwritten
    · cases hwritten
    · next hempty =>
      obtain rfl := Option.some.inj hwritten
      exact ⟨rfl, fun hname => hempty (String.isEmpty_iff.mpr hname)⟩
  unfold leafField? at h
  cases hcut : Text.cutAtFirst ':' text with
  | none =>
    rw [hcut] at h
    obtain ⟨rfl, hne⟩ := hnamed h
    exact ⟨hne, text, rfl, Text.cutAtFirst_eq_none_iff.mp hcut, fun _ hc => hc⟩
  | some parts =>
    rw [hcut] at h
    obtain ⟨rfl, hne⟩ := hnamed h
    refine ⟨hne, parts.1, rfl, Text.notMem_of_cutAtFirst hcut, fun c hc => ?_⟩
    rw [Text.eq_append_of_cutAtFirst hcut, String.toList_append, String.toList_append]
    exact List.mem_append_left _ (List.mem_append_left _ hc)

theorem plainField_of_leafField? {text : String} {field : LeafField}
    (h : leafField? text = some field) (hslash : '/' ∉ text.toList) (hcomma : ',' ∉ text.toList) :
    PlainField field.name := by
  obtain ⟨hnamed, front, hname, hcolon, hfront⟩ := exists_front_of_leafField? h
  have hin : ∀ c, c ∈ field.name.toList → c ∈ front.toList := by
    intro c hc
    rw [hname] at hc
    exact Text.mem_of_mem_trim hc
  exact {
    trimmed := by rw [hname, Text.trim_trim]
    slash := fun hc => hslash (hfront _ (hin _ hc))
    named := hnamed
    comma := fun hc => hcomma (hfront _ (hin _ hc))
    colon := fun hc => hcolon (hin _ hc) }

/-- What is read of an entry stands for itself. -/
theorem wellFormed_of_parse {entry : String} {path : ExtraPath} (h : parse entry = some path) :
    path.WellFormed := by
  unfold parse at h
  simp only at h
  split at h
  · cases h
  · next hparts =>
    obtain rfl := Option.some.inj h
    simp only [Bool.or_eq_true, decide_eq_true_eq, not_or] at hparts
    have hplain : ∀ part ∈ (Text.split '/' (Text.trim entry)).map Text.trim, PlainPart part :=
      fun _ => plainPart_of_mem_split
    generalize (Text.split '/' (Text.trim entry)).map Text.trim = parts at hparts hplain
    refine ⟨?_, fun segment hsegment => hplain _ (List.dropLast_subset _ hsegment), ?_⟩
    · rw [← List.length_pos_iff, List.length_dropLast]
      omega
    · intro field hfield
      obtain ⟨text, htext, hread⟩ := List.mem_filterMap.mp hfield
      obtain ⟨leaf, hleaf⟩ : ∃ leaf, parts.getLast? = some leaf := by
        cases hlast : parts.getLast? with
        | none =>
          rw [List.getLast?_eq_none_iff.mp hlast] at hparts
          exact absurd (show (0 : Nat) < 2 by decide) hparts.1
        | some leaf => exact ⟨leaf, rfl⟩
      rw [hleaf, Option.getD_some] at htext
      have hslash := (hplain leaf (List.mem_of_getLast? hleaf)).slash
      exact plainField_of_leafField? hread (fun hc => hslash (Text.mem_of_mem_split htext hc))
        (Text.not_mem_of_mem_split htext)

/-- What is joined from plain segments and a plain field is read as these. -/
theorem parse_joined {segments : List String} (hne : segments ≠ [])
    (hsegments : ∀ segment ∈ segments, PlainPart segment) {name : String}
    (hname : PlainField name) :
    parse ("/".intercalate segments ++ "/" ++ name) = some ⟨segments, [⟨name, none⟩]⟩ := by
  have hslash : Text.isBlank '/' = false := by decide
  have htrim : Text.trim ("/".intercalate segments ++ "/" ++ name) =
      "/".intercalate segments ++ "/" ++ name :=
    Text.trim_joined hslash (Text.trim_intercalate hslash fun s hs => (hsegments s hs).trimmed)
      hname.trimmed
  have hsplit : Text.split '/' ("/".intercalate segments ++ "/" ++ name) = segments ++ [name] := by
    have hfront : Text.split '/' ("/".intercalate segments) = segments :=
      Text.split_intercalate hne fun s hs => (hsegments s hs).slash
    have hjoined := Text.split_joined '/' ("/".intercalate segments) name
    rw [hfront, Text.split_of_not_mem hname.slash] at hjoined
    exact hjoined
  have hparts : (segments ++ [name]).map Text.trim = segments ++ [name] := by
    rw [List.map_append, List.map_singleton, hname.trimmed,
      List.map_congr_left fun s hs => (hsegments s hs).trimmed, List.map_id']
  have hfield : leafField? name = some ⟨name, none⟩ := by
    have hempty : ¬name.isEmpty = true := mt String.isEmpty_iff.mp hname.named
    unfold leafField?
    rw [Text.cutAtFirst_eq_none_iff.mpr hname.colon]
    simp only [hname.trimmed, if_neg hempty]
  have hlength : ¬(segments ++ [name]).length < 2 := by
    have hpos := List.length_pos_iff.mpr hne
    rw [List.length_append, List.length_singleton]
    omega
  unfold parse
  simp only [htrim, hsplit, hparts, List.getLast?_concat, Option.getD_some,
    Text.split_of_not_mem hname.comma, List.filterMap_cons, hfield, List.filterMap_nil,
    List.dropLast_concat, hlength, List.isEmpty_cons, decide_false, Bool.or_self]
  rfl

/-- The path of a field is read as the segments and this field alone. -/
theorem parse_pathTo {entry : String} {path : ExtraPath} (h : parse entry = some path)
    {field : LeafField} (hfield : field ∈ path.fields) :
    parse (path.pathTo field.name) = some ⟨path.segments, [⟨field.name, none⟩]⟩ := by
  have hpath := wellFormed_of_parse h
  exact parse_joined hpath.segments_ne_nil hpath.segment (hpath.field field hfield)

end ExtraPath

/-! ## Described fields -/

namespace Context

variable {c : Context} {entries : List String} {entry entry' : String} {path path' : ExtraPath}
  {route route' : Route} {field field' : LeafField}

/-- Entries that describe fields under one path lead along one route to one field. -/
theorem eq_of_pathTo_eq (h : c.completePath? entry = some (path, route))
    (h' : c.completePath? entry' = some (path', route')) (hfield : field ∈ path.fields)
    (hfield' : field' ∈ path'.fields) (hsame : path.pathTo field.name = path'.pathTo field'.name) :
    route = route' ∧ field.name = field'.name := by
  obtain ⟨hread, rfl, -⟩ := completePath?_eq_some.mp h
  obtain ⟨hread', rfl, -⟩ := completePath?_eq_some.mp h'
  have hone := ExtraPath.parse_pathTo hread hfield
  rw [hsame, ExtraPath.parse_pathTo hread' hfield'] at hone
  obtain ⟨hsegments, hfields⟩ := (ExtraPath.mk.injEq ..).mp (Option.some.inj hone)
  obtain ⟨hname, -⟩ := (LeafField.mk.injEq ..).mp (List.singleton_inj.mp hfields)
  exact ⟨by rw [hsegments], hname.symm⟩

/-- Descriptions with one path differ in their titles at most. -/
theorem eq_withTitle_of_path_eq {f g : ExtraField} (hf : f ∈ c.fields entries)
    (hg : g ∈ c.fields entries) (hpath : f.path = g.path) : f = { g with title := f.title } := by
  obtain ⟨entry, -, path, route, hread, field, hfield, rfl⟩ := mem_fields.mp hf
  obtain ⟨entry', -, path', route', hread', field', hfield', rfl⟩ := mem_fields.mp hg
  obtain ⟨rfl, hname⟩ := eq_of_pathTo_eq hread hread' hfield hfield' hpath
  have hsame : path.pathTo field.name = path'.pathTo field'.name := hpath
  simp only [describe, hsame]
  rw [hname]

/-- What is asked of a field, for any entry, is asked of the value that a description with its
path stands for, under the type of that value. -/
theorem path_eq_of_mem_fieldDemands (hread : c.completePath? entry = some (path, route))
    (hfield : field ∈ path.fields) {demand : Demand}
    (hdemand : demand ∈ c.fieldDemands entry path route field) {f : ExtraField}
    (hf : f ∈ c.fields entries) (hpath : f.path = path.pathTo field.name) :
    demand.path = f.valuePath ∧
      demand.type =
        ((c.registry.get? f.table).bind (·.attribute? f.field)).bind (·.scalarType?) := by
  obtain ⟨entry', -, path', route', hread', field', hfield', rfl⟩ := mem_fields.mp hf
  obtain ⟨rfl, hname⟩ := eq_of_pathTo_eq hread' hread hfield' hfield hpath
  obtain ⟨tokens, -, rfl⟩ := Demand.mem_ofTokens?.mp hdemand
  simp only [Demand.path, describe, ExtraField.valuePath, hname, and_self]

/-- Tokens under the path of a description are asked of the value that it stands for. -/
theorem exists_demand_of_filter {f : ExtraField} (hf : f ∈ c.fields entries)
    {tokens : List String}
    (htokens : FilterValue.alternatives? (c.filter.get? f.path) = some tokens) :
    ∃ demand ∈ c.demands entries, demand.asName = f.asName ∧ demand.path = f.valuePath ∧
      demand.tokens = tokens := by
  obtain ⟨entry, hentry, path, route, hread, field, hfield, rfl⟩ := mem_fields.mp hf
  obtain ⟨value, hvalue⟩ : ∃ value, c.filter.get? (path.pathTo field.name) = some value := by
    cases hget : c.filter.get? (path.pathTo field.name) with
    | none =>
      rw [show (c.describe path route field).path = path.pathTo field.name from rfl,
        hget] at htokens
      cases htokens
    | some value => exact ⟨value, rfl⟩
  -- The tokens under the path count before those under the entry.
  have hasked : FilterValue.alternatives?
      ((c.filter.get? (path.pathTo field.name)).or (c.filter.get? entry)) = some tokens := by
    rw [hvalue, Option.some_or, ← hvalue]
    exact htokens
  obtain ⟨demand, hdemand, hform⟩ : ∃ demand ∈ c.fieldDemands entry path route field, demand =
      ⟨pathAlias (route.hops.map (·.field)), field.name, tokens,
        ((c.registry.get? (route.finalTarget?.getD "")).bind (·.attribute? field.name)).bind
          (·.scalarType?)⟩ :=
    ⟨_, Demand.mem_ofTokens?.mpr ⟨tokens, hasked, rfl⟩, rfl⟩
  refine ⟨demand, List.mem_append_right _ (List.mem_flatMap.mpr ⟨entry, hentry, ?_⟩), ?_⟩
  · unfold pathDemands
    rw [hread]
    exact List.mem_flatMap.mpr ⟨field, hfield, hdemand⟩
  · rw [hform]
    exact ⟨rfl, rfl, rfl⟩

end Context

/-! ## Accepted plans -/

/-- What names the path of a described field reads the value of that field. A sort key does,
unless it names a relation. Tokens under the path are asked of the value, and nothing else is
asked on account of a field with this path, whichever entry describes it. -/
structure Plan.ReadsByPath (plan : Plan) (c : Context) (entries : List String) (draft : Draft) :
    Prop where
  sorted : ∀ f ∈ plan.extraFields, SortKey.relationPath? c.schema draft.builder f.path = none →
    SortKey.pathFor c.schema draft f.path = f.valuePath
  asked : ∀ f ∈ plan.extraFields, ∀ tokens,
    FilterValue.alternatives? (c.filter.get? f.path) = some tokens →
      ∃ demand ∈ c.demands entries, demand.asName = f.asName ∧ demand.path = f.valuePath ∧
        demand.tokens = tokens
  asksNoOther : ∀ f ∈ plan.extraFields, ∀ entry path route,
    c.completePath? entry = some (path, route) → ∀ field ∈ path.fields,
      path.pathTo field.name = f.path → ∀ demand ∈ c.fieldDemands entry path route field,
        demand.path = f.valuePath ∧ demand.type =
          ((c.registry.get? f.table).bind (·.attribute? f.field)).bind (·.scalarType?)

namespace Plan.Laid

variable {plan : Plan} {c : Context} {entries : List String} {draft : Draft} {blocks : List Block}

theorem mem_extraFields (h : plan.Laid c entries draft blocks) {f : ExtraField} :
    f ∈ plan.extraFields ↔ f ∈ c.fields entries := by
  rw [h.extraFields, mem_insertNew]
  simp

theorem readsByPath (h : plan.Laid c entries draft blocks) :
    plan.ReadsByPath c entries draft where
  sorted := by
    intro f hf hrelation
    have hfields : draft.extraFields = plan.extraFields :=
      h.gathers.fields.trans h.extraFields.symm
    obtain ⟨g, hfound⟩ : ∃ g, plan.extraFields.find? (·.path = f.path) = some g := by
      refine Option.isSome_iff_exists.mp (List.find?_isSome.mpr ⟨f, hf, ?_⟩)
      exact decide_eq_true rfl
    -- The first description with the path may be another, which differs in its title at most.
    have hg := h.mem_extraFields.mp (List.mem_of_find?_eq_some hfound)
    have hpath : g.path = f.path := by simpa using List.find?_some hfound
    have hsame := Context.eq_withTitle_of_path_eq hg (h.mem_extraFields.mp hf) hpath
    rw [SortKey.pathFor, hrelation, Option.none_or, hfields, hfound, Option.map_some,
      Option.getD_some, hsame]
    rfl
  asked f hf _ htokens := Context.exists_demand_of_filter (h.mem_extraFields.mp hf) htokens
  asksNoOther f hf _ _ _ hread _ hfield hpath _ hdemand :=
    Context.path_eq_of_mem_fieldDemands hread hfield hdemand (h.mem_extraFields.mp hf) hpath.symm

end Plan.Laid

/-- The path of a described field is its key. Read as an entry, it gives the segments and this
field alone, without a title. In an accepted plan, descriptions with one path differ in their
titles at most, and what names the path reads the value that they stand for. -/
theorem Plan.extraFields_keyed_by_path (registry : Registry) (options : Options)
    (request : SearchRequest) (plan : Plan)
    (haccepted : (Plan.ofRequest registry options request).result = .ok plan) :
    (∀ entry path, ExtraPath.parse entry = some path → ∀ field ∈ path.fields,
      ExtraPath.parse (path.pathTo field.name) = some ⟨path.segments, [⟨field.name, none⟩]⟩) ∧
    (∀ f ∈ plan.extraFields, ∀ g ∈ plan.extraFields, f.path = g.path →
      f = { g with title := f.title }) ∧
    ∃ schema draft blocks, registry.get? request.type = some schema ∧
      plan.sort = request.sort.filterMap (SortKey.ofText? schema draft) ∧
      plan.Laid (.ofRequest registry options schema request) (Context.pathEntries schema request)
        draft blocks ∧
      plan.ReadsByPath (.ofRequest registry options schema request)
        (Context.pathEntries schema request) draft := by
  obtain ⟨schema, criteria, draft, blocks, hschema, hplan, hlaid⟩ :=
    Plan.exists_laid_of_accepted haccepted
  refine ⟨fun entry path hread field hfield => ExtraPath.parse_pathTo hread hfield, ?_,
    schema, draft, blocks, hschema, congrArg Plan.sort hplan, hlaid, hlaid.readsByPath⟩
  intro f hf g hg hpath
  exact Context.eq_withTitle_of_path_eq (hlaid.mem_extraFields.mp hf)
    (hlaid.mem_extraFields.mp hg) hpath

/-- The request for the companies of owners by two entries, sorted by their names. -/
def firmRequest : SearchRequest :=
  { SearchRequest.ofType "order" with
    extraPaths := ["owner/company/name:Firm", " owner / company / id, name : Works for "]
    sort := ["<owner/company/name"] }

/-- Two entries describe the name of a company with different titles, and as one value. -/
theorem Plan.extraFields_keyed_by_path_firmRequest :
    ∃ plan f g, (Plan.ofRequest orders .standard firmRequest).result = .ok plan ∧
      f ∈ plan.extraFields ∧ g ∈ plan.extraFields ∧ f.path = g.path ∧
      f.title = some "Firm" ∧ g.title = some "Works for" ∧ f = { g with title := f.title } ∧
      plan.sort = [⟨f.valuePath, .descending⟩] := by
  obtain ⟨plan, haccepted, hcheck⟩ := Plan.exists_of_check
    (Plan.ofRequest orders .standard firmRequest).result
    (fun plan => plan.extraFields ==
        [⟨"__owner/company", "name", some "Firm", "company", "owner/company/name", none⟩,
          ⟨"__owner/company", "id", none, "company", "owner/company/id", none⟩,
          ⟨"__owner/company", "name", some "Works for", "company", "owner/company/name", none⟩] &&
      plan.sort == [⟨"__owner/company.name", .descending⟩])
    (by decide +kernel)
  obtain ⟨hfields, hsort⟩ := (Bool.and_eq_true _ _).mp hcheck
  have hf : ⟨"__owner/company", "name", some "Firm", "company", "owner/company/name", none⟩ ∈
      plan.extraFields := by
    rw [beq_iff_eq.mp hfields]
    exact List.mem_cons_self
  have hg : ⟨"__owner/company", "name", some "Works for", "company", "owner/company/name", none⟩ ∈
      plan.extraFields := by
    rw [beq_iff_eq.mp hfields]
    exact List.mem_cons_of_mem _ (List.mem_cons_of_mem _ List.mem_cons_self)
  obtain ⟨-, hsame, -⟩ :=
    Plan.extraFields_keyed_by_path orders .standard firmRequest plan haccepted
  refine ⟨plan, _, _, haccepted, hf, hg, rfl, rfl, rfl, hsame _ hf _ hg rfl, ?_⟩
  rw [beq_iff_eq.mp hsort]
  decide

end JoinPlan
