import JoinPlan.Proofs.OrderedSet
import JoinPlan.Proofs.Pipeline.Resolution
import JoinPlan.Proofs.Plan.Inheritance
import JoinPlan.Proofs.Plan.PathKeys

/-!
# Paths that lead nowhere

A request may ask for paths that cannot be read, or that stop before their end. `Inheritance`
told which of them are logged. This file supplies that the log is all they change.

> `Draft.Deaf`: a step of an expansion comes to the same, whatever was logged before it.

An entry that leads nowhere only adds to the log (`addPath_of_incomplete`), and what comes behind
it is deaf, so an expansion comes to the same without the entry (`outcome_foldlM_filter`). A plan
is made of the outcome and takes no notice of the log (`result_eq_of_outcome`).

What the log says of such an entry is told once (`filter_tellsDropped`), for the entries of an
expansion are pairwise different, and it names the first segment that could not be followed
(`exists_stopsAt`).
-/

namespace JoinPlan

/-- An extra path leads somewhere from a type: it can be read, and its route is complete. -/
def ExtraPath.leadsFrom (registry : Registry) (options : Options) (type entry : String) : Bool :=
  (ExtraPath.parse entry).any fun path =>
    (Route.resolve registry options type path.segments).isComplete

/-- The entry leads somewhere from the requested type. -/
def Context.leadsOn (c : Context) (entry : String) : Bool :=
  ExtraPath.leadsFrom c.registry c.options c.schema.name entry

theorem Context.isSome_completePath? (c : Context) (entry : String) :
    (c.completePath? entry).isSome = c.leadsOn entry := by
  unfold completePath? leadsOn ExtraPath.leadsFrom
  cases ExtraPath.parse entry with
  | none => rfl
  | some path =>
    simp only [Option.bind_eq_bind, Option.bind_some, Option.any_some]
    split <;> simp_all

/-! ## Drafts without their logs -/

namespace Draft

/-- The draft without its log. -/
def silent (d : Draft) : Draft := { d with records := [] }

/-- What a step of an expansion comes to, whatever is logged. -/
def outcome : Except Refusal Draft → Except CastFailure Draft
  | .ok d => .ok d.silent
  | .error refusal => .error refusal.failure

/-- The step comes to the same, whatever was logged before it. -/
def Deaf (step : Draft → Except Refusal Draft) : Prop :=
  ∀ d e : Draft, d.silent = e.silent → outcome (step d) = outcome (step e)

theorem silent_eq_iff {d e : Draft} : d.silent = e.silent ↔ ∃ records, e = { d with records } := by
  obtain ⟨builder, touched, extraFields, records⟩ := d
  obtain ⟨builder', touched', extraFields', records'⟩ := e
  simp [silent, eq_comm]

theorem deaf_withFilter (target : Option Schema) (asName field owner : String)
    (tokens : Option (List String)) :
    Deaf fun d => d.withFilter target asName field owner tokens := by
  intro d e h
  obtain ⟨records, rfl⟩ := silent_eq_iff.mp h
  unfold withFilter
  cases tokens with
  | none => exact congrArg Except.ok h
  | some tokens =>
    simp only
    split <;> rfl

/-- Steps one after the other are deaf when each of them is. -/
theorem Deaf.bind {first second : Draft → Except Refusal Draft} (hfirst : Deaf first)
    (hsecond : Deaf second) : Deaf fun d => first d >>= second := by
  intro d e h
  have hstep := hfirst d e h
  show outcome (first d >>= second) = outcome (first e >>= second)
  cases hd : first d with
  | error refusal =>
    rw [hd] at hstep
    cases he : first e with
    | error refusal' =>
      rw [he] at hstep
      exact hstep
    | ok e' =>
      rw [he] at hstep
      cases hstep
  | ok d' =>
    rw [hd] at hstep
    cases he : first e with
    | error refusal' =>
      rw [he] at hstep
      cases hstep
    | ok e' =>
      rw [he] at hstep
      exact hsecond d' e' (Except.ok.inj hstep)

theorem deaf_foldlM {α : Type} {step : Draft → α → Except Refusal Draft}
    (hstep : ∀ x, Deaf fun d => step d x) (xs : List α) : Deaf fun d => xs.foldlM step d := by
  have hnothing : Deaf Except.ok := fun d e h => congrArg Except.ok h
  exact foldlM_of_bind hnothing (fun hfirst hsecond => hfirst.bind hsecond) hstep xs

end Draft

namespace Context

open Draft (Deaf outcome)

variable {c : Context}

theorem deaf_addField (entry : String) (path : ExtraPath) (asName table : String)
    (field : LeafField) : Deaf fun d => c.addField entry path asName table d field := by
  unfold addField
  refine (Draft.deaf_withFilter _ _ _ _ _).bind fun d e h => ?_
  obtain ⟨records, rfl⟩ := Draft.silent_eq_iff.mp h
  rfl

theorem deaf_addPath (entry : String) : Deaf fun d => c.addPath d entry := by
  intro d e h
  obtain ⟨records, rfl⟩ := Draft.silent_eq_iff.mp h
  simp only
  cases hpath : c.completePath? entry with
  | none =>
    rw [addPath_of_incomplete hpath, addPath_of_incomplete hpath]
    rfl
  | some found =>
    obtain ⟨path, route⟩ := found
    rw [addPath_of_complete hpath, addPath_of_complete hpath]
    exact Draft.deaf_foldlM (deaf_addField entry path _ _) path.fields _ _ rfl

/-- An expansion comes to the same without the entries that lead nowhere. -/
theorem outcome_foldlM_filter (entries : List String) (d : Draft) :
    outcome ((entries.filter c.leadsOn).foldlM c.addPath d) =
      outcome (entries.foldlM c.addPath d) := by
  induction entries generalizing d with
  | nil => rfl
  | cons entry rest ih =>
    rw [List.foldlM_cons, List.filter_cons]
    cases hpath : c.completePath? entry with
    | none =>
      -- The log of this entry is all that the rest could see of it.
      rw [addPath_of_incomplete hpath, if_neg (by simp [← isSome_completePath?, hpath]), ih d]
      exact Draft.deaf_foldlM deaf_addPath rest _ _ rfl
    | some found =>
      rw [if_pos (by simp [← isSome_completePath?, hpath]), List.foldlM_cons]
      cases c.addPath d entry with
      | error refusal => rfl
      | ok d' => exact ih d'

/-- Entries come to the same when those that lead somewhere are the same. -/
theorem outcome_expand_congr {entries others : List String}
    (h : entries.filter c.leadsOn = others.filter c.leadsOn) :
    outcome (c.expand entries) = outcome (c.expand others) := by
  unfold expand
  cases c.schema.relations.foldlM c.addRelation (Draft.start c.schema) with
  | error refusal => rfl
  | ok related =>
    show outcome (entries.foldlM c.addPath related) = outcome (others.foldlM c.addPath related)
    rw [← outcome_foldlM_filter entries, h, outcome_foldlM_filter]

end Context

/-! ## The log of an entry -/

instance (record : Log.Record) (path : String) : Decidable (record.TellsDropped path) :=
  inferInstanceAs (Decidable (_ ∧ _))

/-- Of different elements, one alone contributes what no other does. -/
theorem flatMap_eq_of_nodup {α β : Type} {xs : List α} (hnodup : xs.Nodup) {f : α → List β}
    {x : α} (hx : x ∈ xs) (h : ∀ y ∈ xs, y ≠ x → f y = []) : xs.flatMap f = f x := by
  obtain ⟨front, back, rfl⟩ := List.append_of_mem hx
  obtain ⟨-, hback, hapart⟩ := List.nodup_append.mp hnodup
  have hfront : front.flatMap f = [] := by
    refine List.flatMap_eq_nil_iff.mpr fun y hy => h y (List.mem_append_left _ hy) ?_
    exact hapart y hy x List.mem_cons_self
  have hrest : back.flatMap f = [] := by
    refine List.flatMap_eq_nil_iff.mpr fun y hy => ?_
    refine h y (List.mem_append_right _ (List.mem_cons_of_mem _ hy)) fun heq => ?_
    exact (List.nodup_cons.mp hback).1 (heq ▸ hy)
  rw [List.flatMap_append, List.flatMap_cons, hfront, hrest, List.nil_append, List.append_nil]

namespace Context

variable {c : Context}

theorem filter_tellsDropped_relationRecords (entry : String × Relation) (path : String) :
    (c.relationRecords entry).filter (fun record => record.TellsDropped path) = [] := by
  refine List.filter_eq_nil_iff.mpr fun record hrecord htells => ?_
  unfold relationRecords at hrecord
  split at hrecord
  · cases hrecord
  · rw [List.mem_singleton.mp hrecord] at htells
    exact not_tellsDropped_skipped _ _ path (of_decide_eq_true htells)

/-- What an entry leaves in the log tells of that entry. -/
theorem filter_tellsDropped_pathRecords (entry path : String) :
    (c.pathRecords entry).filter (fun record => record.TellsDropped path) =
      if path = entry then c.pathRecords entry else [] := by
  have htells : ∀ record ∈ c.pathRecords entry, record.TellsDropped path ↔ path = entry := by
    intro record hrecord
    unfold pathRecords at hrecord
    split at hrecord
    · cases hrecord
    · simp only at hrecord
      split at hrecord
      · cases hrecord
      · rw [List.mem_singleton.mp hrecord]
        exact tellsDropped_dropped_iff
  by_cases hpath : path = entry
  · rw [if_pos hpath, List.filter_eq_self]
    exact fun record hrecord => decide_eq_true ((htells record hrecord).mpr hpath)
  · rw [if_neg hpath, List.filter_eq_nil_iff]
    exact fun record hrecord h => hpath ((htells record hrecord).mp (of_decide_eq_true h))

/-- The log tells of an entry what that entry leaves in it. -/
theorem filter_tellsDropped {entries : List String} {draft : Draft}
    (h : c.expand entries = .ok draft) (hnodup : entries.Nodup) {entry : String}
    (hentry : entry ∈ entries) :
    draft.records.filter (fun record => record.TellsDropped entry) = c.pathRecords entry := by
  have hrelations : (c.schema.relations.flatMap c.relationRecords).filter
      (fun record => record.TellsDropped entry) = [] := by
    rw [List.filter_flatMap]
    exact List.flatMap_eq_nil_iff.mpr fun relation _ =>
      filter_tellsDropped_relationRecords relation entry
  rw [expand_records h, List.filter_append, hrelations, List.nil_append, List.filter_flatMap,
    flatMap_eq_of_nodup hnodup hentry]
  · rw [filter_tellsDropped_pathRecords, if_pos rfl]
  · intro other _ hother
    rw [filter_tellsDropped_pathRecords, if_neg hother.symm]

end Context

/-! ## Where a path stops -/

namespace Route

variable {registry : Registry} {options : Options}

/-- The segments can be followed from the type up to one of them. Where those before it lead, the
field that it stands for is a dead end. -/
def StopsAt (registry : Registry) (options : Options) (type : String) (segments : List String)
    (segment : String) (deadEnd : DeadEnd) : Prop :=
  ∃ before after hops, segments = before ++ segment :: after ∧
    Along registry options type before hops ∧ hops.length = before.length ∧
    deadEnd.At registry (destination registry (registry.get? type) hops)
      (if segment = options.uplinkMarker then options.parentField else segment)

/-- A route that is not complete has stopped at a segment. -/
theorem Explores.exists_stopsAt {type : String} {route : Route}
    (h : Explores registry options type route) (hne : route.segments ≠ [])
    (hincomplete : route.isComplete = false) :
    ∃ segment deadEnd, route.deadEnd = some deadEnd ∧
      StopsAt registry options type route.segments segment deadEnd := by
  have hstops : route.deadEnd ≠ none := by
    intro hnone
    rw [h.isComplete_iff.mpr ⟨hne, h.deadEnd_eq_none_iff.mp hnone⟩] at hincomplete
    cases hincomplete
  obtain ⟨deadEnd, hdead⟩ := Option.ne_none_iff_exists'.mp hstops
  obtain ⟨segment, hsegment, hat⟩ := h.deadEnd_at deadEnd hdead
  obtain ⟨hlt, rfl⟩ := List.getElem?_eq_some_iff.mp hsegment
  obtain ⟨hfields, hfollows⟩ := h.along
  refine ⟨_, deadEnd, hdead, route.segments.take route.hops.length,
    route.segments.drop (route.hops.length + 1), route.hops, ?_, ⟨?_, hfollows⟩, ?_, hat⟩
  · rw [← List.drop_eq_getElem_cons hlt, List.take_append_drop]
  · rw [List.prefix_iff_eq_take, List.length_map] at hfields
    exact (hfields.trans List.map_take.symm) ▸ List.prefix_rfl
  · exact (List.length_take_of_le (Nat.le_of_lt hlt)).symm

end Route

/-- The record of an entry of a type which stops at a dead end: the entry as written, the field that
could not be followed, and whether it is no relation or one to an unregistered type. -/
def DeadEnd.told (type entry : String) : DeadEnd → Log.Record
  | .invalidField field =>
    ⟨.warn, "PATH_DROPPED", some type, none, some "invalid_field",
      [("field", field), ("path", entry)]⟩
  | .invalidForm field _ =>
    ⟨.warn, "PATH_DROPPED", some type, none, some "invalid_form",
      [("field", field), ("path", entry)]⟩

theorem Context.dropped_eq_told {c : Context} {route : Route} {deadEnd : DeadEnd}
    (h : route.deadEnd = some deadEnd) (entry : String) :
    c.dropped entry route = deadEnd.told c.schema.name entry := by
  have horder : ¬"path" < "field" := by decide
  unfold dropped
  rw [h]
  cases deadEnd with
  | invalidField field =>
    exact Log.Record.make_eq ((Log.Record.mergeSort_pair _ _).trans (if_neg horder))
  | invalidForm field target =>
    exact Log.Record.make_eq ((Log.Record.mergeSort_pair _ _).trans (if_neg horder))

/-! ## Requests -/

/-- The request without the paths that lead nowhere from its type. -/
def SearchRequest.withoutDeadPaths (request : SearchRequest) (registry : Registry)
    (options : Options) : SearchRequest :=
  { request with
    extraPaths := request.extraPaths.filter (ExtraPath.leadsFrom registry options request.type) }

namespace Plan

variable {registry : Registry} {options : Options} {request : SearchRequest}

/-- A plan is made of what the expansion comes to, and so takes no notice of the log. -/
theorem result_eq_of_outcome (request : SearchRequest) {schema : Schema} {criteria : Condition}
    (hschema : registry.get? request.type = some schema)
    (hcriteria : request.criteria schema = .ok criteria) :
    (Plan.ofRequest registry options request).result =
      ((Draft.outcome ((Context.ofRequest registry options schema request).expand
        (Context.pathEntries schema request))).map
          (ofDraft registry schema request criteria)).mapError .castFailed := by
  unfold Plan.ofRequest Context.ofRequest
  simp only [hschema, hcriteria]
  generalize Context.expand _ _ = expansion
  cases expansion <;> rfl

/-- Requests are planned alike when the paths that lead somewhere are the same. -/
theorem result_eq_of_leadsFrom {others : List String}
    (h : others.filter (ExtraPath.leadsFrom registry options request.type) =
      request.extraPaths.filter (ExtraPath.leadsFrom registry options request.type)) :
    (Plan.ofRequest registry options { request with extraPaths := others }).result =
      (Plan.ofRequest registry options request).result := by
  cases hschema : registry.get? request.type with
  | none =>
    unfold Plan.ofRequest
    simp only [hschema]
  | some schema =>
    cases hcriteria : request.criteria schema with
    | error failure =>
      have hother : SearchRequest.criteria { request with extraPaths := others } schema =
        .error failure := hcriteria
      unfold Plan.ofRequest
      simp only [hschema, hcriteria, hother]
    | ok criteria =>
      have hleads : (Context.ofRequest registry options schema request).leadsOn =
          ExtraPath.leadsFrom registry options request.type := by
        funext entry
        rw [Context.leadsOn, ← Registry.name_of_get? hschema]
        rfl
      have hentries : (Context.pathEntries schema { request with extraPaths := others }).filter
            (Context.ofRequest registry options schema request).leadsOn =
          (Context.pathEntries schema request).filter
            (Context.ofRequest registry options schema request).leadsOn := by
        unfold Context.pathEntries
        rw [hleads, filter_insertNew_back, filter_insertNew_back]
        cases request.noExtra with
        | true => rfl
        | false => simp [h]
      rw [result_eq_of_outcome request hschema hcriteria,
        result_eq_of_outcome { request with extraPaths := others } hschema hcriteria]
      -- Both requests are planned against the same, and the rest of a plan is read off it.
      have hexpand := Context.outcome_expand_congr hentries
      exact congrArg (fun outcome => (outcome.map
        (ofDraft registry schema request criteria)).mapError PlanError.castFailed) hexpand

/-- A path that leads nowhere changes nothing but the log. A request and the same request without
these paths have the same plan, or are refused for the same. And an accepted request has one
record for each entry that can be read and leads nowhere, whoever asked for it. The record has the
entry as written, the field of the first segment that could not be followed, and the reason, which
is `invalid_form` for a relation to an unregistered type and `invalid_field` for all else. Entries
that lead somewhere have none. -/
theorem deadPaths_change_log_alone (registry : Registry) (options : Options)
    (request : SearchRequest) :
    (Plan.ofRequest registry options (request.withoutDeadPaths registry options)).result =
      (Plan.ofRequest registry options request).result ∧
    ∀ schema plan, registry.get? request.type = some schema →
      (Plan.ofRequest registry options request).result = .ok plan →
      ∀ entry path, ExtraPath.parse entry = some path →
        (request.noExtra = false ∧ (entry ∈ schema.extraPaths ∨ entry ∈ request.extraPaths) ∨
          ∃ name, (name, entry) ∈ schema.inheritedPaths) →
        ((Route.resolve registry options request.type path.segments).isComplete = true →
          (Plan.ofRequest registry options request).records.filter
            (fun record => record.TellsDropped entry) = []) ∧
        ((Route.resolve registry options request.type path.segments).isComplete = false →
          ∃ segment deadEnd,
            (Route.resolve registry options request.type path.segments).deadEnd = some deadEnd ∧
            Route.StopsAt registry options request.type path.segments segment deadEnd ∧
            (Plan.ofRequest registry options request).records.filter
              (fun record => record.TellsDropped entry) = [deadEnd.told request.type entry]) := by
  refine ⟨result_eq_of_leadsFrom ?_, ?_⟩
  · rw [List.filter_filter]
    simp
  · intro schema plan hschema haccepted entry path hread hconsidered
    obtain ⟨criteria, draft, hcriteria, hdraft, -⟩ := exists_expand hschema haccepted
    have hentry : entry ∈ Context.pathEntries schema request :=
      Context.mem_pathEntries.mpr hconsidered
    have htold := Context.filter_tellsDropped hdraft (nodup_insertNew_back .nil) hentry
    have hrecords : (Plan.ofRequest registry options request).records = draft.records := by
      unfold Context.ofRequest at hdraft
      unfold Plan.ofRequest
      simp only [hschema, hcriteria, hdraft]
    have hname : schema.name = request.type := Registry.name_of_get? hschema
    rw [hrecords, htold]
    unfold Context.pathRecords Context.ofRequest
    simp only [hread, hname]
    constructor
    · intro hcomplete
      exact if_pos hcomplete
    · intro hincomplete
      obtain ⟨segment, deadEnd, hdead, hstops⟩ :=
        (Route.explores_resolve registry options request.type path.segments).exists_stopsAt
          (ExtraPath.wellFormed_of_parse hread).segments_ne_nil hincomplete
      refine ⟨segment, deadEnd, hdead, hstops, ?_⟩
      rw [if_neg (by simp [hincomplete]), Context.dropped_eq_told hdead]
      simp only [hname]

/-- The request for parts with their makers' makers, a path that cannot be read, the weights of
their codes, and the codes of their parents. -/
def makersRequest : SearchRequest :=
  { SearchRequest.ofType "part" with
    extraPaths := ["~/maker/maker/name", "maker", "code/weight", "~/code:Code"]
    sort := ["~/maker/maker/name"] }

/-- Of the four paths, the last alone counts. The first is told of with the relation at which it
stops, and the third with the field that is no relation. -/
theorem deadPaths_change_log_alone_makersRequest :
    ∃ schema plan, Route.assemblies.get? makersRequest.type = some schema ∧
      (makersRequest.withoutDeadPaths Route.assemblies .standard).extraPaths = ["~/code:Code"] ∧
      (Plan.ofRequest Route.assemblies .standard
        (makersRequest.withoutDeadPaths Route.assemblies .standard)).result = .ok plan ∧
      (Plan.ofRequest Route.assemblies .standard makersRequest).result = .ok plan ∧
      (Plan.ofRequest Route.assemblies .standard makersRequest).records.filter
          (fun record => record.TellsDropped "~/maker/maker/name") =
        [⟨.warn, "PATH_DROPPED", some "part", none, some "invalid_form",
          [("field", "maker"), ("path", "~/maker/maker/name")]⟩] ∧
      (Plan.ofRequest Route.assemblies .standard makersRequest).records.filter
          (fun record => record.TellsDropped "code/weight") =
        [⟨.warn, "PATH_DROPPED", some "part", none, some "invalid_field",
          [("field", "code"), ("path", "code/weight")]⟩] ∧
      (Plan.ofRequest Route.assemblies .standard makersRequest).records.filter
          (fun record => record.TellsDropped "~/code:Code") = [] := by
  obtain ⟨plan, haccepted, -⟩ := Plan.exists_of_check
    (Plan.ofRequest Route.assemblies .standard makersRequest).result (fun _ => true)
    (by decide +kernel)
  obtain ⟨schema, -, -, hschema, -, -, -⟩ := exists_expand_of_accepted haccepted
  obtain ⟨hsame, htold⟩ := deadPaths_change_log_alone Route.assemblies .standard makersRequest
  -- What is told of a path that was asked for, by how it is read.
  have hasked : ∀ entry ∈ makersRequest.extraPaths, ∀ path, ExtraPath.parse entry = some path → _ :=
    fun entry hentry path hread =>
      htold schema plan hschema haccepted entry path hread (.inl ⟨rfl, .inr hentry⟩)
  refine ⟨schema, plan, hschema, by decide +kernel, hsame.trans haccepted, haccepted, ?_, ?_, ?_⟩
  · obtain ⟨segment, deadEnd, hdead, -, hrecords⟩ := (hasked _ List.mem_cons_self
      ⟨["~", "maker", "maker"], [⟨"name", none⟩]⟩ (by decide +kernel)).2 (by decide +kernel)
    obtain rfl : deadEnd = .invalidForm "maker" "firm" :=
      Option.some.inj (hdead.symm.trans (by decide +kernel))
    exact hrecords
  · obtain ⟨segment, deadEnd, hdead, -, hrecords⟩ := (hasked "code/weight" (by decide)
      ⟨["code"], [⟨"weight", none⟩]⟩ (by decide +kernel)).2 (by decide +kernel)
    obtain rfl : deadEnd = .invalidField "code" :=
      Option.some.inj (hdead.symm.trans (by decide +kernel))
    exact hrecords
  · exact (hasked "~/code:Code" (by decide)
      ⟨["~"], [⟨"code", some "Code"⟩]⟩ (by decide +kernel)).1 (by decide +kernel)

end Plan

end JoinPlan
