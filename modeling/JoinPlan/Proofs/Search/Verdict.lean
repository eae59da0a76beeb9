import JoinPlan.Proofs.Plan.Layout
import JoinPlan.Search.Run

/-!
# The verdict of a search

The log of a search is written by three hands: the planning notes what it leaves out, the search
names events, and its scope says that it began and how it ended. This file supplies what the log
says in the end.

> `Draft.NotesAlone`: a step of an expansion adds nothing to the log but notes, whether it ends
> well or not.
>
> `Source.search_records`: the log is the beginning, records that have other names than the scope
> gives, and the verdict.

The event of a failed store and the failure of the scope have one name and are one record, so a
failed store is told of twice, and every other search has one verdict (`search_verdicts`).
-/

namespace JoinPlan

/-! ## The log of an expansion -/

/-- The record tells of a part of the request that was left out. -/
def Log.Record.IsNote (record : Log.Record) : Prop :=
  record.event = Log.Event.relationSkipped.name ∨ record.event = Log.Event.pathDropped.name

namespace Draft

/-- The log of a step, whether it ends well or not. -/
def logged : Except Refusal Draft → List Log.Record
  | .ok d => d.records
  | .error refusal => refusal.records

/-- The step adds nothing to the log but notes. -/
def NotesAlone (step : Draft → Except Refusal Draft) : Prop :=
  ∀ d : Draft, (∀ record ∈ d.records, record.IsNote) → ∀ record ∈ logged (step d), record.IsNote

theorem logged_withFilter (d : Draft) (target : Option Schema) (asName field owner : String)
    (tokens : Option (List String)) :
    logged (d.withFilter target asName field owner tokens) = d.records := by
  unfold withFilter
  cases tokens with
  | none => rfl
  | some tokens =>
    simp only
    split <;> rfl

theorem forall_note {d : Draft} {record : Log.Record} (h : ∀ other ∈ d.records, other.IsNote)
    (hrecord : record.IsNote) : ∀ other ∈ (d.note record).records, other.IsNote := by
  intro other hother
  rcases List.mem_append.mp hother with hbefore | hlast
  · exact h other hbefore
  · rw [List.mem_singleton.mp hlast]
    exact hrecord

/-- Steps one after the other add notes alone when each of them does. -/
theorem NotesAlone.bind {first second : Draft → Except Refusal Draft} (hfirst : NotesAlone first)
    (hsecond : NotesAlone second) : NotesAlone fun d => first d >>= second := by
  intro d h
  have hstep := hfirst d h
  show ∀ record ∈ logged (first d >>= second), record.IsNote
  cases hd : first d with
  | error refusal =>
    rw [hd] at hstep
    exact hstep
  | ok d' =>
    rw [hd] at hstep
    exact hsecond d' hstep

theorem notesAlone_foldlM {α : Type} {step : Draft → α → Except Refusal Draft}
    (hstep : ∀ x, NotesAlone fun d => step d x) (xs : List α) :
    NotesAlone fun d => xs.foldlM step d := by
  have hnothing : NotesAlone Except.ok := fun d h => h
  exact foldlM_of_bind hnothing (fun hfirst hsecond => hfirst.bind hsecond) hstep xs

end Draft

namespace Context

open Draft (NotesAlone logged)

variable (c : Context)

theorem notesAlone_addRelation (entry : String × Relation) :
    NotesAlone fun d => c.addRelation d entry := by
  intro d h
  simp only [addRelation]
  split
  · exact h
  · split
    · exact Draft.forall_note h (.inl rfl)
    · split
      · exact h
      · rw [Draft.logged_withFilter]
        exact h

theorem notesAlone_addField (entry : String) (path : ExtraPath) (asName table : String)
    (field : LeafField) : NotesAlone fun d => c.addField entry path asName table d field := by
  unfold addField
  refine NotesAlone.bind (fun d h => ?_) fun d h => h
  rw [Draft.logged_withFilter]
  exact h

theorem notesAlone_addPath (entry : String) : NotesAlone fun d => c.addPath d entry := by
  intro d h
  simp only [addPath]
  split
  · exact h
  · split
    · exact Draft.notesAlone_foldlM (c.notesAlone_addField entry _ _ _) _ _ h
    · exact Draft.forall_note h (.inr rfl)

/-- An expansion logs nothing but notes, also where it is refused. -/
theorem isNote_of_mem_expand (entries : List String) :
    ∀ record ∈ logged (c.expand entries), record.IsNote := by
  have hrelations := Draft.notesAlone_foldlM (fun entry => c.notesAlone_addRelation entry)
    c.schema.relations
  have hpaths := Draft.notesAlone_foldlM (fun entry => c.notesAlone_addPath entry) entries
  exact hrelations.bind hpaths (Draft.start c.schema) fun record hrecord => nomatch hrecord

end Context

theorem Plan.isNote_of_mem_records {registry : Registry} {options : Options}
    {request : SearchRequest} :
    ∀ record ∈ (Plan.ofRequest registry options request).records, record.IsNote := by
  unfold Plan.ofRequest
  cases registry.get? request.type with
  | none =>
    intro record hrecord
    cases hrecord
  | some schema =>
    simp only
    cases request.criteria schema with
    | error failure =>
      intro record hrecord
      cases hrecord
    | ok criteria =>
      have hlogged := Context.isNote_of_mem_expand
        ⟨registry, options, schema, request.effectiveFilter⟩ (Context.pathEntries schema request)
      simp only
      cases hexpand : Context.expand ⟨registry, options, schema, request.effectiveFilter⟩
          (Context.pathEntries schema request) with
      | error refusal =>
        rw [hexpand] at hlogged
        exact hlogged
      | ok draft =>
        rw [hexpand] at hlogged
        exact hlogged

/-! ## The log of a search -/

namespace Source

/-- The names that the scope of a search gives to records. -/
def scopeNames : List String :=
  ["SEARCH_BEGIN", "SEARCH_COMPLETE", "SEARCH_FAILED", "SEARCH_INCOMPLETE"]

/-- The record says how a search ended. -/
def isVerdict (record : Log.Record) : Bool :=
  record.event = "SEARCH_COMPLETE" ∨ record.event = "SEARCH_FAILED"

/-- The name of the verdict on a result. -/
def verdictName {α : Type} : Except SearchError α → String
  | .ok _ => "SEARCH_COMPLETE"
  | .error _ => "SEARCH_FAILED"

/-- How often the log has the verdict before its end: once where the store fails. -/
def toldBefore {α : Type} (verdict : Log.Record) : Except SearchError α → List Log.Record
  | .error (.store _) => [verdict]
  | _ => []

variable {registry : Registry} {options : Options} {request : SearchRequest}

theorem notMem_scopeNames_of_isNote {record : Log.Record} (h : record.IsNote) :
    record.event ∉ scopeNames := by
  rcases h with h | h <;> rw [h] <;> decide

theorem notMem_scopeNames_of_planned (plan : Plan) :
    ∀ record ∈ plannedRecords options plan, record.event ∉ scopeNames := by
  intro record hrecord
  unfold plannedRecords at hrecord
  rcases List.mem_cons.mp hrecord with rfl | hrecord
  · exact (by decide : Log.Event.searchPlanned.name ∉ scopeNames)
  · split at hrecord
    · rw [List.mem_singleton.mp hrecord]
      exact (by decide : Log.Event.pipelineCompiled.name ∉ scopeNames)
    · cases hrecord

theorem eq_of_mem_toldBefore {α : Type} {result : Except SearchError α}
    {verdict record : Log.Record} (h : record ∈ toldBefore verdict result) : record = verdict := by
  unfold toldBefore at h
  split at h
  · exact List.mem_singleton.mp h
  · cases h

theorem isVerdict_of_verdictName {α : Type} {result : Except SearchError α} {record : Log.Record}
    (h : record.event = verdictName result) : isVerdict record = true := by
  unfold isVerdict
  rw [h]
  cases result <;> rfl

theorem isVerdict_eq_false {record : Log.Record} (h : record.event ∉ scopeNames) :
    isVerdict record = false := by
  refine decide_eq_false fun hverdict => h ?_
  rcases hverdict with hverdict | hverdict <;> simp [scopeNames, hverdict]

/-- The event of a failed store is the failure of the scope. -/
theorem failedRecord_eq (type message : String) :
    failedRecord type message = (scope type).failed message := by
  rfl

/-- The log is the beginning, records with other names, and the verdict. A failed store is told of
once more before the end. -/
theorem search_records (source : Source) (registry : Registry) (options : Options)
    (request : SearchRequest) (elapsed : Nat) :
    ∃ between verdict,
      (source.search registry options request elapsed).records =
        (scope request.type).began :: between ++
          toldBefore verdict (source.search registry options request elapsed).result ++
          [verdict] ∧
      (∀ record ∈ between, record.event ∉ scopeNames) ∧
      verdict.event = verdictName (source.search registry options request elapsed).result := by
  have hnotes : ∀ record ∈ (Plan.ofRequest registry options request).records,
      record.event ∉ scopeNames := fun record hrecord =>
    notMem_scopeNames_of_isNote (Plan.isNote_of_mem_records record hrecord)
  unfold search
  simp only
  cases hplan : (Plan.ofRequest registry options request).result with
  | error e =>
    refine ⟨(Plan.ofRequest registry options request).records ++ [refusedRecord request.type e],
      (scope request.type).failed (SearchError.refused e).message, ?_, ?_, rfl⟩
    · simp [toldBefore]
    · rw [List.forall_mem_append, List.forall_mem_singleton]
      exact ⟨hnotes, (by decide : Log.Event.searchRejected.name ∉ scopeNames)⟩
  | ok plan =>
    have hplanned : ∀ record ∈ (Plan.ofRequest registry options request).records ++
        plannedRecords options plan, record.event ∉ scopeNames :=
      List.forall_mem_append.mpr ⟨hnotes, notMem_scopeNames_of_planned plan⟩
    simp only
    cases source.execute plan with
    | error message =>
      obtain ⟨schema, criteria, draft, hschema, -, -, hlaid⟩ := Plan.exists_expand_of_accepted hplan
      have hcollection : plan.collection = request.type := by
        rw [hlaid]
        exact Registry.name_of_get? hschema
      refine ⟨(Plan.ofRequest registry options request).records ++ plannedRecords options plan,
        (scope request.type).failed message, ?_, hplanned, rfl⟩
      rw [hcollection]
      simp [toldBefore, failedRecord_eq]
    | ok found =>
      obtain ⟨documents, total⟩ := found
      refine ⟨(Plan.ofRequest registry options request).records ++ plannedRecords options plan ++
        [executedRecord plan.collection documents.length total],
        (scope request.type).completed [("returned", toString documents.length)] elapsed,
        ?_, ?_, rfl⟩
      · simp [toldBefore]
      · rw [List.forall_mem_append, List.forall_mem_singleton]
        exact ⟨hplanned, (by decide : Log.Event.searchExecuted.name ∉ scopeNames)⟩

/-- The log of a search begins with its one beginning and ends with the verdict on its result. It
has this verdict once, but twice where the store fails, and it never says that the search was left
without one. -/
theorem search_verdicts (source : Source) (registry : Registry) (options : Options)
    (request : SearchRequest) (elapsed : Nat) :
    ∃ verdict, (source.search registry options request elapsed).records.head? =
        some (scope request.type).began ∧
      (scope request.type).began.event = "SEARCH_BEGIN" ∧
      (source.search registry options request elapsed).records.getLast? = some verdict ∧
      verdict.event = verdictName (source.search registry options request elapsed).result ∧
      (source.search registry options request elapsed).records.filter isVerdict =
        toldBefore verdict (source.search registry options request elapsed).result ++ [verdict] ∧
      ∀ record ∈ (source.search registry options request elapsed).records.tail,
        record.event ≠ "SEARCH_BEGIN" ∧ record.event ≠ "SEARCH_INCOMPLETE" := by
  obtain ⟨between, verdict, hrecords, hbetween, hverdict⟩ :=
    source.search_records registry options request elapsed
  have hend : isVerdict verdict = true := isVerdict_of_verdictName hverdict
  refine ⟨verdict, ?_, rfl, ?_, hverdict, ?_, ?_⟩
  · rw [hrecords]
    rfl
  · rw [hrecords]
    exact List.getLast?_concat
  · have hbegan : isVerdict (scope request.type).began = false := rfl
    have hnone : between.filter isVerdict = [] := by
      refine List.filter_eq_nil_iff.mpr fun record hrecord => ?_
      exact Bool.eq_false_iff.mp (isVerdict_eq_false (hbetween record hrecord))
    have htold : (toldBefore verdict
        (source.search registry options request elapsed).result).filter isVerdict =
        toldBefore verdict (source.search registry options request elapsed).result := by
      refine List.filter_eq_self.mpr fun record hrecord => ?_
      rw [eq_of_mem_toldBefore hrecord]
      exact hend
    rw [hrecords, List.filter_append, List.filter_append, htold, List.filter_cons, hbegan, hnone,
      List.filter_singleton, hend]
    rfl
  · have hlast : verdict.event ≠ "SEARCH_BEGIN" ∧ verdict.event ≠ "SEARCH_INCOMPLETE" := by
      rw [hverdict]
      cases (source.search registry options request elapsed).result <;> simp [verdictName]
    rw [hrecords]
    show ∀ record ∈ between ++ toldBefore verdict _ ++ [verdict], _
    rw [List.forall_mem_append, List.forall_mem_append, List.forall_mem_singleton]
    refine ⟨⟨fun record hrecord => ?_, fun record hrecord => ?_⟩, hlast⟩
    · have hname := hbetween record hrecord
      simp only [scopeNames, List.mem_cons, not_or] at hname
      exact ⟨hname.1, hname.2.2.2.1⟩
    · rw [eq_of_mem_toldBefore hrecord]
      exact hlast

/-- A source that cannot fetch. -/
def unfetched : Source := ⟨fun _ _ => .error "boom", fun _ _ => .ok 0⟩

/-- Orders without attributes. -/
def bareOrders : Registry := (Registry.ofSchemas [Schema.make "order" "1"]).toOption.getD .empty

/-- The log of a search that cannot fetch has two verdicts. -/
theorem search_verdicts_twice_unfetched :
    ((unfetched.search bareOrders .standard (.ofType "order") 0).records.map (·.event)) =
      ["SEARCH_BEGIN", "SEARCH_PLANNED", "SEARCH_FAILED", "SEARCH_FAILED"] ∧
    ((unfetched.search bareOrders .standard (.ofType "order") 0).records.filter
      isVerdict).length ≠ 1 := by
  decide +kernel

end Source

end JoinPlan
