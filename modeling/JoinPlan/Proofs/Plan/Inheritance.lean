import JoinPlan.Proofs.Plan.Layout

/-!
# What becomes of inherited attributes

An attribute may inherit its value along a path, and every request for its type follows
the path. This file supplies which attributes a plan accounts for: by a described field
that names them, or by a record that their path was dropped.

> `Describes`: an entry that leads somewhere has a field at the end of the path.
>
> `Drops`: the path is one that can be read, and it leads nowhere.

A description looks for its attribute under the path of a field, which is put together
from the parts of an entry, whereas attributes stand under their paths as written. So an
attribute is named only where the two are the same text, and of several attributes with
one path the last alone is named (`inheritor?_eq_some_iff`). What is logged is told by
`expand_records`: a path that cannot be read leaves no record.
-/

namespace JoinPlan

/-- The last attribute by name that inherits along the path. -/
def Schema.InheritsLast (schema : Schema) (path name : String) : Prop :=
  (name, path) ∈ schema.inheritedPaths ∧
    ∀ other, (other, path) ∈ schema.inheritedPaths → other ≤ name

/-- An attribute has one path. -/
theorem Schema.eq_of_mem_inheritedPaths {schema : Schema} {name path other : String}
    (h : (name, path) ∈ schema.inheritedPaths) (ho : (name, other) ∈ schema.inheritedPaths) :
    path = other := by
  obtain ⟨a, ha, hpath⟩ := Schema.mem_inheritedPaths_iff.mp h
  obtain ⟨b, hb, hother⟩ := Schema.mem_inheritedPaths_iff.mp ho
  rw [ha] at hb
  obtain rfl := Option.some.inj hb
  exact Option.some.inj (hpath.symm.trans hother)

/-- A description names the last attribute that inherits along its path. -/
theorem Context.inheritor?_eq_some_iff {schema : Schema} {path name : String} :
    inheritor? schema path = some name ↔ schema.InheritsLast path name := by
  unfold inheritor? Schema.InheritsLast
  rw [Option.map_eq_some_iff]
  simp only [SortedMap.find?_reverse_eq_some_iff schema.sorted_inheritedPaths,
    decide_eq_true_eq]
  constructor
  · intro h
    obtain ⟨⟨name', path'⟩, ⟨hmem, hpath, hlast⟩, hname⟩ := h
    obtain rfl : path' = path := hpath
    obtain rfl : name' = name := hname
    exact ⟨hmem, fun other hother => hlast (other, path') hother rfl⟩
  · intro h
    obtain ⟨hmem, hlast⟩ := h
    refine ⟨(name, path), ⟨hmem, rfl, fun other hother hpath => ?_⟩, rfl⟩
    exact hlast other.1 (hpath ▸ hother)

/-! ## The log of an expansion -/

/-- The record says that the path was dropped. -/
def Log.Record.TellsDropped (record : Log.Record) (path : String) : Prop :=
  record.event = Log.Event.pathDropped.name ∧ ("path", path) ∈ record.fields

namespace Context

variable {c : Context} {d d' : Draft}

theorem addRelation_records {entry : String × Relation} (h : c.addRelation d entry = .ok d') :
    d'.records = d.records ++ c.relationRecords entry := by
  cases hjoined : c.joinedSchema? entry.2 with
  | none =>
    rw [addRelation_of_unjoined hjoined] at h
    rw [← Except.ok.inj h]
  | some target =>
    have hnone : c.relationRecords entry = [] := by
      unfold joinedSchema? at hjoined
      unfold relationRecords
      split at hjoined
      · next hexcluded => exact if_pos (.inl hexcluded)
      · exact if_pos (.inr (by rw [hjoined, Option.isSome_some]))
    rw [hnone, List.append_nil]
    obtain ⟨builder, rfl⟩ := exists_eq_of_addRelation hjoined h
    rfl

theorem addPath_records {entry : String} (h : c.addPath d entry = .ok d') :
    d'.records = d.records ++ c.pathRecords entry := by
  cases hpath : c.completePath? entry with
  | none =>
    rw [addPath_of_incomplete hpath] at h
    rw [← Except.ok.inj h]
  | some found =>
    obtain ⟨path, route⟩ := found
    obtain ⟨hread, hroute, hcomplete⟩ := completePath?_eq_some.mp hpath
    have hnone : c.pathRecords entry = [] := by
      unfold pathRecords
      simp only [hread, hroute]
      exact if_pos hcomplete
    rw [hnone, List.append_nil]
    rw [addPath_of_complete hpath] at h
    -- The joins leave no record, and neither does any of the fields.
    obtain ⟨builder, extraFields, rfl⟩ := exists_eq_of_addFields h
    rfl

/-- The log of an expansion is what the relations leave, and then the entries. -/
theorem expand_records {entries : List String} {draft : Draft}
    (h : c.expand entries = .ok draft) :
    draft.records =
      c.schema.relations.flatMap c.relationRecords ++ entries.flatMap c.pathRecords := by
  refine expand_induction
    (motive := fun relations paths (s : Draft) => s.records =
      relations.flatMap c.relationRecords ++ paths.flatMap c.pathRecords) rfl ?_ ?_ h
  · intro relations entry s s' hs hstep
    rw [addRelation_records hstep, hs]
    simp
  · intro relations paths entry s s' hs hstep
    rw [addPath_records hstep, hs]
    simp

/-! ## Paths that are described and paths that are dropped -/

/-- An entry that leads somewhere has a field at the end of the path. -/
def Describes (c : Context) (entries : List String) (path : String) : Prop :=
  ∃ entry ∈ entries, ∃ read route, c.completePath? entry = some (read, route) ∧
    ∃ field ∈ read.fields, read.pathTo field.name = path

/-- The path can be read, and it leads nowhere. -/
def Drops (c : Context) (path : String) : Prop :=
  ∃ read, ExtraPath.parse path = some read ∧
    (Route.resolve c.registry c.options c.schema.name read.segments).isComplete = false

theorem not_tellsDropped_skipped (name target path : String) :
    ¬(c.skipped name target).TellsDropped path := by
  intro h
  have hevent : Log.Event.relationSkipped.name = Log.Event.pathDropped.name := h.1
  exact absurd hevent (by decide)

/-- The record of a dropped path tells of that path alone. -/
theorem tellsDropped_dropped_iff {entry path : String} {route : Route} :
    (c.dropped entry route).TellsDropped path ↔ path = entry := by
  unfold Log.Record.TellsDropped dropped Log.Record.ofEvent
  rw [Log.Record.mem_fields_make]
  constructor
  · intro h
    simpa using h.2.1
  · intro h
    subst h
    exact ⟨rfl, by simp, by decide⟩

/-- The log tells of a dropped path exactly when the path is an entry that leads nowhere. -/
theorem exists_tellsDropped_iff {entries : List String} {draft : Draft}
    (h : c.expand entries = .ok draft) {path : String} :
    (∃ record ∈ draft.records, record.TellsDropped path) ↔ path ∈ entries ∧ c.Drops path := by
  rw [expand_records h]
  constructor
  · intro htold
    obtain ⟨record, hrecord, htells⟩ := htold
    rcases List.mem_append.mp hrecord with hrelation | hentry
    · obtain ⟨entry, -, hrecord⟩ := List.mem_flatMap.mp hrelation
      unfold relationRecords at hrecord
      split at hrecord
      · cases hrecord
      · rw [List.mem_singleton.mp hrecord] at htells
        exact absurd htells (not_tellsDropped_skipped _ _ path)
    · obtain ⟨entry, hentry, hrecord⟩ := List.mem_flatMap.mp hentry
      unfold pathRecords at hrecord
      split at hrecord
      · cases hrecord
      · next read hread =>
        simp only at hrecord
        split at hrecord
        · cases hrecord
        · next hincomplete =>
          rw [List.mem_singleton.mp hrecord] at htells
          obtain rfl := tellsDropped_dropped_iff.mp htells
          exact ⟨hentry, read, hread, Bool.eq_false_iff.mpr hincomplete⟩
  · intro hdropped
    obtain ⟨hentry, read, hread, hincomplete⟩ := hdropped
    refine ⟨c.dropped path (Route.resolve c.registry c.options c.schema.name read.segments),
      List.mem_append_right _ (List.mem_flatMap.mpr ⟨path, hentry, ?_⟩),
      tellsDropped_dropped_iff.mpr rfl⟩
    unfold pathRecords
    simp [hread, hincomplete]

/-- A described field names an attribute exactly when the path of the attribute is described
and no attribute behind it has the same path. -/
theorem exists_inheritedBy_iff {entries : List String} {name path : String}
    (hpath : (name, path) ∈ c.schema.inheritedPaths) :
    (∃ f ∈ c.fields entries, f.inheritedBy = some name) ↔
      c.Describes entries path ∧ c.schema.InheritsLast path name := by
  constructor
  · intro h
    obtain ⟨f, hf, hname⟩ := h
    obtain ⟨entry, hentry, read, route, hread, field, hfield, rfl⟩ := mem_fields.mp hf
    have hlast := inheritor?_eq_some_iff.mp hname
    have hsame := Schema.eq_of_mem_inheritedPaths hlast.1 hpath
    rw [hsame] at hlast
    exact ⟨⟨entry, hentry, read, route, hread, field, hfield, hsame⟩, hlast⟩
  · intro h
    obtain ⟨⟨entry, hentry, read, route, hread, field, hfield, rfl⟩, hlast⟩ := h
    exact ⟨c.describe read route field,
      mem_fields.mpr ⟨entry, hentry, read, route, hread, field, hfield, rfl⟩,
      inheritor?_eq_some_iff.mpr hlast⟩

/-- An entry that is the path of one of its own fields leads somewhere or nowhere. -/
theorem describes_or_drops {entries : List String} {path : String} (hentry : path ∈ entries)
    {read : ExtraPath} (hread : ExtraPath.parse path = some read) {field : LeafField}
    (hfield : field ∈ read.fields) (hpath : read.pathTo field.name = path) :
    c.Describes entries path ∨ c.Drops path := by
  by_cases hcomplete :
      (Route.resolve c.registry c.options c.schema.name read.segments).isComplete = true
  · have hfound : c.completePath? path =
        some (read, Route.resolve c.registry c.options c.schema.name read.segments) :=
      completePath?_eq_some.mpr ⟨hread, rfl, hcomplete⟩
    exact .inl ⟨path, hentry, read, _, hfound, field, hfield, hpath⟩
  · exact .inr ⟨read, hread, Bool.eq_false_iff.mpr hcomplete⟩

end Context

/-! ## Accepted plans -/

namespace Plan

/-- A described field of the plan names the attribute, or the log tells that its path was
dropped. -/
def AccountsFor (plan : Plan) (records : List Log.Record) (name path : String) : Prop :=
  (∃ f ∈ plan.extraFields, f.inheritedBy = some name) ∨
    ∃ record ∈ records, record.TellsDropped path

/-- Exactly which inherited attributes an accepted plan accounts for. Either the path of the
attribute is described and no attribute behind it has the same path, or the path leads
nowhere. So an attribute is accounted for when its path is written as the path of one of its
own fields, unless an attribute behind it has that path too. -/
theorem accountsFor_iff (registry : Registry) (options : Options) (request : SearchRequest)
    (plan : Plan) (schema : Schema) (name path : String)
    (hschema : registry.get? request.type = some schema)
    (haccepted : (Plan.ofRequest registry options request).result = .ok plan)
    (hinherited : (name, path) ∈ schema.inheritedPaths) :
    (plan.AccountsFor (Plan.ofRequest registry options request).records name path ↔
      Context.Describes (.ofRequest registry options schema request)
          (Context.pathEntries schema request) path ∧ schema.InheritsLast path name ∨
        Context.Drops (.ofRequest registry options schema request) path) ∧
    ((∃ read field, ExtraPath.parse path = some read ∧ field ∈ read.fields ∧
        read.pathTo field.name = path) → schema.InheritsLast path name →
      plan.AccountsFor (Plan.ofRequest registry options request).records name path) := by
  obtain ⟨criteria, draft, hcriteria, hdraft, rfl⟩ := exists_expand hschema haccepted
  have hrecords : (Plan.ofRequest registry options request).records = draft.records := by
    unfold Context.ofRequest at hdraft
    unfold Plan.ofRequest
    simp only [hschema, hcriteria, hdraft]
  have hentry : path ∈ Context.pathEntries schema request :=
    Context.mem_pathEntries.mpr (.inr ⟨name, hinherited⟩)
  have hiff : (Plan.ofDraft registry schema request criteria draft).AccountsFor
      (Plan.ofRequest registry options request).records name path ↔
      Context.Describes (.ofRequest registry options schema request)
          (Context.pathEntries schema request) path ∧ schema.InheritsLast path name ∨
        Context.Drops (.ofRequest registry options schema request) path := by
    unfold AccountsFor
    rw [hrecords, Context.exists_tellsDropped_iff hdraft]
    have hfields : ∀ f, f ∈ draft.extraFields ↔
        f ∈ (Context.ofRequest registry options schema request).fields
          (Context.pathEntries schema request) := by
      intro f
      rw [(Context.expand_gathers hdraft).fields, mem_insertNew]
      simp
    show (∃ f ∈ draft.extraFields, f.inheritedBy = some name) ∨ _ ↔ _
    simp only [hfields]
    rw [Context.exists_inheritedBy_iff hinherited]
    exact or_congr Iff.rfl (and_iff_right hentry)
  refine ⟨hiff, fun hwritten hlast => hiff.mpr ?_⟩
  obtain ⟨read, field, hread, hfield, hpath⟩ := hwritten
  rcases Context.describes_or_drops hentry hread hfield hpath with hdescribed | hdropped
  · exact .inl ⟨hdescribed, hlast⟩
  · exact .inr hdropped

/-- Orders with an owner, whose contact is inherited along a path. -/
def contacts (path : String) : Registry :=
  (Registry.ofSchemas [
    ((Schema.make "order" "1").withAttribute "owner" (.ofTarget "person")).withAttribute "contact"
      ((Attribute.ofScalar .string).inheritedFrom path),
    (Schema.make "person" "1").withAttribute "name" (.ofScalar .string)]).toOption.getD .empty

/-- A contact is lost when its path has a title: the name of the owner is described, but not
as the contact, and no path is dropped. -/
theorem exists_unaccounted_titled :
    ∃ plan schema, (contacts "owner/name:Contact").get? "order" = some schema ∧
      ("contact", "owner/name:Contact") ∈ schema.inheritedPaths ∧
      (Plan.ofRequest (contacts "owner/name:Contact") .standard (.ofType "order")).result =
        .ok plan ∧
      plan.extraFields =
        [⟨"__owner", "name", some "Contact", "person", "owner/name", none⟩] ∧
      ¬plan.AccountsFor
        (Plan.ofRequest (contacts "owner/name:Contact") .standard (.ofType "order")).records
        "contact" "owner/name:Contact" := by
  obtain ⟨schema, hschema⟩ := Option.isSome_iff_exists.mp
    (show ((contacts "owner/name:Contact").get? "order").isSome by decide +kernel)
  have hpaths : ((contacts "owner/name:Contact").get? "order").map (·.inheritedPaths) =
      some [("contact", "owner/name:Contact")] := by decide +kernel
  obtain ⟨plan, haccepted, hcheck⟩ := Plan.exists_of_check
    (Plan.ofRequest (contacts "owner/name:Contact") .standard (.ofType "order")).result
    (fun plan => plan.extraFields =
      [⟨"__owner", "name", some "Contact", "person", "owner/name", none⟩])
    (by decide +kernel)
  have hfields := of_decide_eq_true hcheck
  have hrecords :
      (Plan.ofRequest (contacts "owner/name:Contact") .standard (.ofType "order")).records =
        [] := by
    decide +kernel
  rw [hschema] at hpaths
  have hall : schema.inheritedPaths = [("contact", "owner/name:Contact")] := Option.some.inj hpaths
  refine ⟨plan, schema, hschema, ?_, haccepted, hfields, ?_⟩
  · rw [hall]
    exact List.mem_cons_self
  · unfold AccountsFor
    rw [hfields, hrecords]
    simp

/-- A contact with a plain path is accounted for. -/
theorem accountsFor_contact :
    ∃ plan schema, (contacts "owner/name").get? "order" = some schema ∧
      (Plan.ofRequest (contacts "owner/name") .standard (.ofType "order")).result = .ok plan ∧
      ("contact", "owner/name") ∈ schema.inheritedPaths ∧
      schema.InheritsLast "owner/name" "contact" ∧
      plan.AccountsFor (Plan.ofRequest (contacts "owner/name") .standard (.ofType "order")).records
        "contact" "owner/name" := by
  obtain ⟨schema, hschema⟩ := Option.isSome_iff_exists.mp
    (show ((contacts "owner/name").get? "order").isSome by decide +kernel)
  have hpaths : ((contacts "owner/name").get? "order").map (·.inheritedPaths) =
      some [("contact", "owner/name")] := by decide +kernel
  obtain ⟨plan, haccepted, -⟩ := Plan.exists_of_check
    (Plan.ofRequest (contacts "owner/name") .standard (.ofType "order")).result
    (fun _ => true) (by decide +kernel)
  rw [hschema] at hpaths
  have hall : schema.inheritedPaths = [("contact", "owner/name")] := Option.some.inj hpaths
  have hinherited : ("contact", "owner/name") ∈ schema.inheritedPaths := by
    rw [hall]
    exact List.mem_cons_self
  have hlast : schema.InheritsLast "owner/name" "contact" := by
    refine ⟨hinherited, fun other hother => ?_⟩
    rw [hall] at hother
    obtain ⟨rfl, -⟩ := Prod.mk.inj (List.mem_singleton.mp hother)
    exact String.le_refl _
  refine ⟨plan, schema, hschema, haccepted, hinherited, hlast, ?_⟩
  exact (accountsFor_iff (contacts "owner/name") .standard (.ofType "order") plan schema "contact"
    "owner/name" hschema haccepted hinherited).2
      ⟨⟨["owner"], [⟨"name", none⟩]⟩, ⟨"name", none⟩, by decide +kernel, by decide,
        by decide +kernel⟩
      hlast

end Plan

end JoinPlan
