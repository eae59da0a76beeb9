import JoinPlan.Proofs.Pipeline.Walk

/-!
# How far a route goes

`Walk` showed that the hops of a route follow registered relations, and as far as they can be
followed. This file supplies where a route stops and how routes are put together.

> `Route.Explores`: the hops are the longest that follow the fields of the segments from the type;
> when segments are left there is a dead end, which says what is wrong with the next one on the
> schema that the hops lead to.

A dead end is that of the first segment that could not be followed (`exists_segment_of_deadEnd`).
A walk along a front and a back is that along the front and, if it ends well, that along the back
from where the front leads (`walk_append`). So a route can be cut at any segment behind the first
(`resolve_append_of_isComplete`, `resolve_append_of_not_isComplete`).
-/

namespace JoinPlan

/-- Why a field of a schema, which may be missing, could not be followed: it is a relation to an
unregistered type, or it is no relation. -/
inductive DeadEnd.At (registry : Registry) (schema : Option Schema) (field : String) :
    DeadEnd → Prop
  | invalidForm {relation : Relation} (hrelation : schema.bind (·.relation? field) = some relation)
      (htarget : registry.get? relation.target = none) :
      At registry schema field (.invalidForm field relation.target)
  | invalidField (hnone : schema.bind (·.relation? field) = none) :
      At registry schema field (.invalidField field)

namespace Route

variable {registry : Registry} {options : Options}

/-- The schema that hops lead to from a first one: that of the last target. -/
def destination (registry : Registry) (start : Option Schema) (hops : List Hop) : Option Schema :=
  match hops.getLast? with
  | some hop => registry.get? hop.target
  | none => start

/-- Hops go on from where the first of them leads. -/
theorem destination_cons {start : Option Schema} (hop : Hop) (rest : List Hop) :
    destination registry start (hop :: rest) =
      destination registry (registry.get? hop.target) rest := by
  cases rest with
  | nil => rfl
  | cons next rest =>
    unfold destination
    rw [List.getLast?_cons_cons, List.getLast?_eq_some_getLast (List.cons_ne_nil next rest)]

theorem follow_target {start : Option Schema} {field : String} {hop : Hop} {target : Schema}
    (h : follow registry start field = .ok (hop, target)) :
    registry.get? hop.target = some target := by
  cases start with
  | none => cases h
  | some schema => exact (follow_leads h).target_registered

/-- What is not followed is a dead end at its field. -/
theorem at_of_follow {start : Option Schema} {field : String} {deadEnd : DeadEnd}
    (h : follow registry start field = .error deadEnd) : deadEnd.At registry start field := by
  unfold follow at h
  split at h
  · next hnone =>
    obtain rfl := Except.error.inj h
    exact .invalidField hnone
  · next relation hrelation =>
    split at h
    · next htarget =>
      obtain rfl := Except.error.inj h
      exact .invalidForm hrelation htarget
    · cases h

/-! ## Where a walk stops -/

/-- A walk stops at the segment behind its hops, which leads nowhere from where they lead. -/
theorem exists_segment_of_deadEnd {start : Option Schema} {segments : List String}
    {deadEnd : DeadEnd} (h : (walk registry options start segments).2 = some deadEnd) :
    ∃ segment, segments[(walk registry options start segments).1.length]? = some segment ∧
      deadEnd.At registry (destination registry start (walk registry options start segments).1)
        (options.fieldOf segment) := by
  induction segments generalizing start with
  | nil => cases h
  | cons segment rest ih =>
    cases hfollow : follow registry start (options.fieldOf segment) with
    | error stop =>
      simp only [walk, hfollow] at h ⊢
      obtain rfl := Option.some.inj h
      exact ⟨segment, rfl, at_of_follow hfollow⟩
    | ok step =>
      obtain ⟨hop, target⟩ := step
      simp only [walk, hfollow] at h ⊢
      obtain ⟨segment', hsegment, hat⟩ := ih h
      rw [destination_cons, follow_target hfollow]
      exact ⟨segment', hsegment, hat⟩

/-- A walk has no dead end when it has a hop for every segment. -/
theorem deadEnd_walk_eq_none_iff {start : Option Schema} {segments : List String} :
    (walk registry options start segments).2 = none ↔
      (walk registry options start segments).1.length = segments.length := by
  refine ⟨length_walk, fun hlength => ?_⟩
  cases hdead : (walk registry options start segments).2 with
  | none => rfl
  | some deadEnd =>
    obtain ⟨segment, hsegment, -⟩ := exists_segment_of_deadEnd hdead
    rw [hlength, List.getElem?_eq_none (Nat.le_refl _)] at hsegment
    cases hsegment

/-! ## Walks put together -/

/-- A walk along a front that ends well goes on along the back from where the front leads. -/
theorem walk_append {start : Option Schema} {front : List String}
    (h : (walk registry options start front).2 = none) (back : List String) :
    walk registry options start (front ++ back) =
      ((walk registry options start front).1 ++
          (walk registry options
            (destination registry start (walk registry options start front).1) back).1,
        (walk registry options
          (destination registry start (walk registry options start front).1) back).2) := by
  induction front generalizing start with
  | nil => rfl
  | cons segment rest ih =>
    cases hfollow : follow registry start (options.fieldOf segment) with
    | error stop =>
      simp only [walk, hfollow] at h
      cases h
    | ok step =>
      obtain ⟨hop, target⟩ := step
      simp only [walk, hfollow] at h
      simp only [List.cons_append, walk, hfollow, ih h, destination_cons, follow_target hfollow]

/-- A walk along a front that ends badly goes no further. -/
theorem walk_append_of_deadEnd {start : Option Schema} {front : List String} {deadEnd : DeadEnd}
    (h : (walk registry options start front).2 = some deadEnd) (back : List String) :
    walk registry options start (front ++ back) = walk registry options start front := by
  induction front generalizing start with
  | nil => cases h
  | cons segment rest ih =>
    cases hfollow : follow registry start (options.fieldOf segment) with
    | error stop => simp only [List.cons_append, walk, hfollow]
    | ok step =>
      obtain ⟨hop, target⟩ := step
      simp only [walk, hfollow] at h
      simp only [List.cons_append, walk, hfollow, ih h]

/-! ## Routes -/

/-- Hops that follow registered relations from a type, along the fields that the segments begin
with, where the marker stands for the parent. -/
def Along (registry : Registry) (options : Options) (type : String) (segments : List String)
    (hops : List Hop) : Prop :=
  (hops.map (·.field) <+: segments.map fun segment =>
      if segment = options.uplinkMarker then options.parentField else segment) ∧
    (hops = [] ∨ ∃ base, registry.get? type = some base ∧ Follows registry base hops)

/-- A route goes as far as its segments can be followed from the type, and stops for the reason
that it gives. -/
structure Explores (registry : Registry) (options : Options) (type : String) (route : Route) :
    Prop where
  along : Along registry options type route.segments route.hops
  longest : ∀ hops, Along registry options type route.segments hops → hops <+: route.hops
  deadEnd_eq_none_iff : route.deadEnd = none ↔ route.hops.length = route.segments.length
  deadEnd_at : ∀ deadEnd, route.deadEnd = some deadEnd →
    ∃ segment, route.segments[route.hops.length]? = some segment ∧
      deadEnd.At registry (destination registry (registry.get? type) route.hops)
        (if segment = options.uplinkMarker then options.parentField else segment)
  isComplete_iff : route.isComplete = true ↔
    route.segments ≠ [] ∧ route.hops.length = route.segments.length

theorem explores_resolve (registry : Registry) (options : Options) (type : String)
    (segments : List String) :
    Explores registry options type (resolve registry options type segments) where
  along := by
    refine ⟨prefix_fields_walk options _ segments, ?_⟩
    cases hhops : (resolve registry options type segments).hops with
    | nil => exact .inl rfl
    | cons hop rest =>
      obtain ⟨base, hbase⟩ := exists_base_of_mem_hops (hhops ▸ List.mem_cons_self)
      exact .inr ⟨base, hbase, hhops ▸ resolve_hops_follows hbase⟩
  longest := by
    rintro hops ⟨hfields, rfl | ⟨base, hbase, hfollows⟩⟩
    · exact List.nil_prefix
    · unfold resolve
      rw [hbase]
      exact hfollows.prefix_walk hfields
  deadEnd_eq_none_iff := deadEnd_walk_eq_none_iff
  deadEnd_at := fun _ hdead => exists_segment_of_deadEnd hdead
  isComplete_iff := by
    rw [isComplete, Bool.and_eq_true, Bool.not_eq_true', List.isEmpty_eq_false_iff,
      Option.isNone_iff_eq_none]
    exact and_congr_right fun _ => deadEnd_walk_eq_none_iff

/-- A complete route goes on as the route from its final target. -/
theorem resolve_append_of_isComplete {type : String} {front : List String}
    (h : (resolve registry options type front).isComplete = true) (back : List String) :
    ∃ target, (resolve registry options type front).finalTarget? = some target ∧
      resolve registry options type (front ++ back) =
        ⟨front ++ back,
          (resolve registry options type front).hops ++
            (resolve registry options target back).hops,
          (resolve registry options target back).deadEnd⟩ := by
  obtain ⟨before, last, hhops, htarget⟩ := exists_last_of_isComplete h
  have hlength := ((explores_resolve registry options type front).isComplete_iff.mp h).2
  have hdead : (walk registry options (registry.get? type) front).2 = none :=
    deadEnd_walk_eq_none_iff.mpr hlength
  have hdestination : destination registry (registry.get? type)
      (walk registry options (registry.get? type) front).1 = registry.get? last.target := by
    rw [show (walk registry options (registry.get? type) front).1 = before ++ [last] from hhops,
      destination, List.getLast?_concat]
  refine ⟨last.target, htarget, ?_⟩
  unfold resolve
  rw [walk_append hdead, hdestination]

/-- A route that is not complete goes no further, if it had a segment at all. -/
theorem resolve_append_of_not_isComplete {type : String} {front : List String} (hne : front ≠ [])
    (h : (resolve registry options type front).isComplete = false) (back : List String) :
    resolve registry options type (front ++ back) =
      { resolve registry options type front with segments := front ++ back } := by
  cases hdead : (walk registry options (registry.get? type) front).2 with
  | none =>
    have hlength := deadEnd_walk_eq_none_iff.mp hdead
    have hcomplete := (explores_resolve registry options type front).isComplete_iff.mpr
      ⟨hne, hlength⟩
    rw [h] at hcomplete
    cases hcomplete
  | some deadEnd =>
    unfold resolve
    rw [walk_append_of_deadEnd hdead]

/-- Resolving a path is walking the schemas, and it composes. A route has the segments it was
given, goes as far as they can be followed, and stops for the reason that it gives. Behind a front
with segments the route goes on as that from the front's final target if the front is complete,
and no further otherwise. -/
theorem resolve_explores_and_appends (registry : Registry) (options : Options) (type : String) :
    (∀ segments,
      (resolve registry options type segments).segments = segments ∧
        Explores registry options type (resolve registry options type segments)) ∧
    ∀ front, front ≠ [] → ∀ back,
      ((resolve registry options type front).isComplete = true →
        ∃ target, (resolve registry options type front).finalTarget? = some target ∧
          resolve registry options type (front ++ back) =
            ⟨front ++ back,
              (resolve registry options type front).hops ++
                (resolve registry options target back).hops,
              (resolve registry options target back).deadEnd⟩) ∧
      ((resolve registry options type front).isComplete = false →
        resolve registry options type (front ++ back) =
          ⟨front ++ back, (resolve registry options type front).hops,
            (resolve registry options type front).deadEnd⟩) :=
  ⟨fun segments => ⟨rfl, explores_resolve registry options type segments⟩,
    fun _ hne back => ⟨fun h => resolve_append_of_isComplete h back,
      fun h => resolve_append_of_not_isComplete hne h back⟩⟩

/-- Parts inside parts, which are found by their codes, with an owner whose number identifies it,
and made by firms that are not registered. -/
def assemblies : Registry :=
  (Registry.ofSchemas [
    (((Schema.make "part" "1").withAttribute "parentID"
      ((Attribute.ofTarget "part").withTraversalKey "code")).withAttribute "owner"
        (.ofTarget "company")).withAttribute "maker" (.ofTarget "firm"),
    { Schema.make "company" "1" with idField := "number" }]).toOption.getD .empty

/-- From the parent of a part the route goes on to its parent, and stops at the maker there. To the
owner it goes without a declared key, and stops where the owner has no such relation. -/
theorem resolve_explores_and_appends_assemblies :
    ["~"] ≠ [] ∧
      (resolve assemblies .standard "part" ["~", "parentID", "maker", "name"]).hops =
        [⟨"parentID", "part", "code", "id"⟩, ⟨"parentID", "part", "code", "id"⟩] ∧
      (resolve assemblies .standard "part" ["~", "parentID", "maker", "name"]).deadEnd =
        some (.invalidForm "maker" "firm") ∧
      (resolve assemblies .standard "part" ["~", "owner", "name"]).hops =
        [⟨"parentID", "part", "code", "id"⟩, ⟨"owner", "company", "id", "number"⟩] ∧
      (resolve assemblies .standard "part" ["~", "owner", "name"]).deadEnd =
        some (.invalidField "name") := by
  obtain ⟨-, happend⟩ := resolve_explores_and_appends assemblies .standard "part"
  have hne : ["~"] ≠ [] := List.cons_ne_nil _ _
  have hpart : (resolve assemblies .standard "part" ["~"]).finalTarget? = some "part" := by
    decide +kernel
  -- Behind the marker every route is that from the part which it leads to.
  have hbehind : ∀ back, resolve assemblies .standard "part" (["~"] ++ back) =
      ⟨["~"] ++ back,
        (resolve assemblies .standard "part" ["~"]).hops ++
          (resolve assemblies .standard "part" back).hops,
        (resolve assemblies .standard "part" back).deadEnd⟩ := by
    intro back
    obtain ⟨target, htarget, hroute⟩ := (happend ["~"] hne back).1 (by decide +kernel)
    obtain rfl : target = "part" := Option.some.inj (htarget.symm.trans hpart)
    exact hroute
  rw [show ["~", "parentID", "maker", "name"] = ["~"] ++ ["parentID", "maker", "name"] from rfl,
    show ["~", "owner", "name"] = ["~"] ++ ["owner", "name"] from rfl, hbehind, hbehind]
  refine ⟨hne, ?_, ?_, ?_, ?_⟩ <;> decide +kernel

end Route

end JoinPlan
