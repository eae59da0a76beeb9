import Mathlib.Data.List.Nodup
import Mathlib.Data.List.Perm.Basic
import JoinPlan.Schema.Registry

/-!
# Filling a registry

A registry is made of a list of schemas, which ends at the first one that is refused, or it is
filled by calls, which go on behind a refusal. This file supplies that the two agree, and that
neither depends on the order in which the schemas come.

> `Registry.add_eq_ok_iff`, `Registry.add_eq_error_iff`: a schema is added when it has no fault
> and its name is free, and otherwise refused for a reason of its own.

Both ways are read off this one step. A list is accepted exactly when its schemas have no faults
and different names, and then the registry answers to a name with the schema of that name
(`addAll_eq_ok_iff`). A call that is refused changes nothing, so calls leave for each name the
first schema without a fault (`get?_registerAll`). Registries that answer alike are equal, which
is why the order cannot be seen.
-/

namespace JoinPlan

/-- A loop that fails has gone well up to an element, and fails there. -/
theorem foldlM_eq_error_iff {σ α ε : Type} {step : σ → α → Except ε σ} {xs : List α} {s : σ}
    {e : ε} : xs.foldlM step s = .error e ↔
      ∃ before x after middle, xs = before ++ x :: after ∧
        before.foldlM step s = .ok middle ∧ step middle x = .error e := by
  constructor
  · intro h
    induction xs generalizing s with
    | nil => cases h
    | cons x rest ih =>
      rw [List.foldlM_cons] at h
      cases hx : step s x with
      | error e' =>
        rw [hx] at h
        cases h
        exact ⟨[], x, rest, s, rfl, rfl, hx⟩
      | ok s' =>
        rw [hx] at h
        obtain ⟨before, y, after, middle, rfl, hbefore, hy⟩ := ih h
        refine ⟨x :: before, y, after, middle, rfl, ?_, hy⟩
        rw [List.foldlM_cons, hx]
        exact hbefore
  · rintro ⟨before, x, after, middle, rfl, hbefore, hx⟩
    rw [List.foldlM_append, hbefore]
    show (x :: after).foldlM step middle = .error e
    rw [List.foldlM_cons, hx]
    rfl

namespace Registry

variable {r r' middle : Registry} {schema : Schema} {schemas : List Schema} {origin : String}

/-- Registries that answer alike are equal. -/
theorem ext_get? (h : ∀ type, r.get? type = r'.get? type) : r = r' := by
  have hschemas : r.schemas = r'.schemas := SortedMap.ext_get? h
  cases r
  cases r'
  cases hschemas
  rfl

theorem contains_eq_false_iff {type : String} :
    r.contains type = false ↔ r.get? type = none := by
  show (r.get? type).isSome = false ↔ _
  rw [Option.isSome_eq_false_iff, Option.isNone_iff_eq_none]

/-! ## One schema -/

/-- A registry takes a schema: it has no fault, and its name is free. -/
structure Takes (r : Registry) (schema : Schema) : Prop where
  sound : schema.fault? = none
  free : r.get? schema.name = none

/-- A registry refuses a schema: it has a fault, or else its name is taken. -/
inductive Refuses (r : Registry) (origin : String) (schema : Schema) : SchemaError → Prop
  | faulty {fault : SchemaFault} : schema.fault? = some fault →
      Refuses r origin schema (.malformed origin fault.message)
  | taken {held : Schema} : schema.fault? = none → r.get? schema.name = some held →
      Refuses r origin schema (.alreadyRegistered schema.name)

/-- A registry has one more schema. -/
def Gains (r : Registry) (schema : Schema) (r' : Registry) : Prop :=
  ∀ type, r'.get? type = if type = schema.name then some schema else r.get? type

theorem add_of_takes (h : r.Takes schema) (origin : String) :
    ∃ r', r.add origin schema = .ok r' ∧ r.Gains schema r' := by
  have hfree : r.contains schema.name = false := contains_eq_false_iff.mpr h.free
  unfold add
  split
  · next fault hfault =>
    rw [h.sound] at hfault
    cases hfault
  · rw [hfree]
    refine ⟨_, rfl, fun type => ?_⟩
    by_cases htype : type = schema.name
    · rw [if_pos htype, htype]
      exact SortedMap.get?_insert_self _ _ _
    · rw [if_neg htype]
      exact SortedMap.get?_insert_of_ne htype _ _

theorem add_of_refuses {e : SchemaError} (h : r.Refuses origin schema e) :
    r.add origin schema = .error e := by
  unfold add
  cases h with
  | faulty hfault =>
    split
    · next fault hfound =>
      rw [hfault] at hfound
      cases hfound
      rfl
    · next hnone =>
      rw [hfault] at hnone
      cases hnone
  | taken hsound hheld =>
    have htaken : r.contains schema.name = true := by
      show (r.get? schema.name).isSome = true
      rw [hheld]
      rfl
    split
    · next fault hfault =>
      rw [hsound] at hfault
      cases hfault
    · exact if_pos htaken

theorem takes_or_refuses (r : Registry) (origin : String) (schema : Schema) :
    r.Takes schema ∨ ∃ e, r.Refuses origin schema e := by
  cases hfault : schema.fault? with
  | some fault => exact .inr ⟨_, .faulty hfault⟩
  | none =>
    cases hheld : r.get? schema.name with
    | some held => exact .inr ⟨_, .taken hfault hheld⟩
    | none => exact .inl ⟨hfault, hheld⟩

/-- A schema is added when it has no fault and its name is free. -/
theorem add_eq_ok_iff :
    r.add origin schema = .ok r' ↔ r.Takes schema ∧ r.Gains schema r' := by
  constructor
  · intro h
    rcases takes_or_refuses r origin schema with htakes | ⟨e, hrefuses⟩
    · obtain ⟨found, hadd, hgains⟩ := add_of_takes htakes origin
      rw [hadd] at h
      cases h
      exact ⟨htakes, hgains⟩
    · rw [add_of_refuses hrefuses] at h
      cases h
  · rintro ⟨htakes, hgains⟩
    obtain ⟨found, hadd, hfound⟩ := add_of_takes htakes origin
    rw [hadd, ext_get? fun type => (hfound type).trans (hgains type).symm]

/-- A schema is refused for its fault, or else because its name is taken. -/
theorem add_eq_error_iff {e : SchemaError} :
    r.add origin schema = .error e ↔ r.Refuses origin schema e := by
  refine ⟨fun h => ?_, add_of_refuses⟩
  rcases takes_or_refuses r origin schema with htakes | ⟨other, hrefuses⟩
  · obtain ⟨found, hadd, -⟩ := add_of_takes htakes origin
    rw [hadd] at h
    cases h
  · rw [add_of_refuses hrefuses] at h
    cases h
    exact hrefuses

/-- Wherever a schema comes from, it is refused with the same code. -/
theorem Refuses.exists_code_eq {e : SchemaError} (h : r.Refuses origin schema e)
    (origin' : String) : ∃ e', r.Refuses origin' schema e' ∧ e'.code = e.code := by
  cases h with
  | faulty hfault => exact ⟨_, .faulty hfault, rfl⟩
  | taken hsound hheld => exact ⟨_, .taken hsound hheld, rfl⟩

/-! ## A list of schemas -/

/-- The registry with every schema of a list, each from an origin, up to the first that is
refused. -/
def addAll (origin : Schema → String) (r : Registry) (schemas : List Schema) :
    Except SchemaError Registry :=
  schemas.foldlM (fun r schema => r.add (origin schema) schema) r

/-- A registry takes every schema of a list: they have no faults, and their names are free and
different. -/
structure TakesAll (r : Registry) (schemas : List Schema) : Prop where
  sound : ∀ schema ∈ schemas, schema.fault? = none
  free : ∀ schema ∈ schemas, r.get? schema.name = none
  distinct : (schemas.map (·.name)).Nodup

theorem addAll_cons_of_ok (origin : Schema → String)
    (h : r.add (origin schema) schema = .ok middle) :
    r.addAll origin (schema :: schemas) = middle.addAll origin schemas := by
  rw [addAll, List.foldlM_cons, h]
  rfl

theorem addAll_cons_of_error (origin : Schema → String) {e : SchemaError}
    (h : r.add (origin schema) schema = .error e) :
    r.addAll origin (schema :: schemas) = .error e := by
  rw [addAll, List.foldlM_cons, h]
  rfl

theorem takesAll_cons_iff (hgains : r.Gains schema middle) :
    r.TakesAll (schema :: schemas) ↔ r.Takes schema ∧ middle.TakesAll schemas := by
  constructor
  · rintro ⟨hsound, hfree, hdistinct⟩
    obtain ⟨hsound, hsounds⟩ := List.forall_mem_cons.mp hsound
    obtain ⟨hfree, hfrees⟩ := List.forall_mem_cons.mp hfree
    obtain ⟨hnew, hdistinct⟩ := List.nodup_cons.mp hdistinct
    refine ⟨⟨hsound, hfree⟩, hsounds, fun other hother => ?_, hdistinct⟩
    have hne : other.name ≠ schema.name := by
      intro heq
      exact hnew (List.mem_map.mpr ⟨other, hother, heq⟩)
    rw [hgains, if_neg hne]
    exact hfrees other hother
  · rintro ⟨⟨hsound, hfree⟩, hsounds, hfrees, hdistinct⟩
    have hne : ∀ other ∈ schemas, other.name ≠ schema.name := by
      intro other hother heq
      have hheld := hfrees other hother
      rw [hgains, if_pos heq] at hheld
      cases hheld
    refine ⟨List.forall_mem_cons.mpr ⟨hsound, hsounds⟩,
      List.forall_mem_cons.mpr ⟨hfree, fun other hother => ?_⟩,
      List.nodup_cons.mpr ⟨fun hmem => ?_, hdistinct⟩⟩
    · have hheld := hfrees other hother
      rwa [hgains, if_neg (hne other hother)] at hheld
    · obtain ⟨other, hother, heq⟩ := List.mem_map.mp hmem
      exact hne other hother heq

/-- A list of schemas is added when they have no faults and different names that are free, and
then a name that was free is answered with the schema of that name. -/
theorem addAll_eq_ok_iff {origin : Schema → String} :
    r.addAll origin schemas = .ok r' ↔ r.TakesAll schemas ∧
      ∀ type, r'.get? type = (r.get? type).or (schemas.find? (·.name = type)) := by
  induction schemas generalizing r with
  | nil =>
    constructor
    · intro h
      cases h
      exact ⟨⟨nofun, nofun, .nil⟩, fun type => (Option.or_none).symm⟩
    · rintro ⟨-, hget⟩
      rw [ext_get? fun type => (hget type).trans Option.or_none]
      rfl
  | cons schema rest ih =>
    rcases takes_or_refuses r (origin schema) schema with htakes | ⟨e, hrefuses⟩
    · obtain ⟨middle, hadd, hgains⟩ := add_of_takes htakes (origin schema)
      rw [addAll_cons_of_ok origin hadd, ih, takesAll_cons_iff hgains]
      refine and_congr ⟨fun h => ⟨htakes, h⟩, And.right⟩ (forall_congr' fun type => ?_)
      rw [hgains, List.find?_cons]
      by_cases htype : type = schema.name
      · rw [if_pos htype, htype, htakes.free, decide_eq_true rfl]
        rfl
      · rw [if_neg htype, decide_eq_false (Ne.symm htype)]
    · constructor
      · intro h
        rw [addAll_cons_of_error origin (add_of_refuses hrefuses)] at h
        cases h
      · rintro ⟨⟨hsound, hfree, -⟩, -⟩
        cases hrefuses with
        | faulty hfault =>
          rw [hsound schema List.mem_cons_self] at hfault
          cases hfault
        | taken _ hheld =>
          rw [hfree schema List.mem_cons_self] at hheld
          cases hheld

/-- Among different names, a schema is found by its own. -/
theorem find?_name_eq_some_iff (h : (schemas.map (·.name)).Nodup) {type : String} :
    schemas.find? (·.name = type) = some schema ↔ schema ∈ schemas ∧ schema.name = type := by
  constructor
  · intro hfound
    exact ⟨List.mem_of_find?_eq_some hfound, by simpa using List.find?_some hfound⟩
  · rintro ⟨hmem, hname⟩
    cases hfound : schemas.find? (·.name = type) with
    | none =>
      have hnot := List.find?_eq_none.mp hfound schema hmem
      exact absurd (decide_eq_true hname) hnot
    | some other =>
      have hother : other.name = type := by simpa using List.find?_some hfound
      rw [List.inj_on_of_nodup_map h (List.mem_of_find?_eq_some hfound) hmem
        (hother.trans hname.symm)]

/-- The order of the schemas does not matter to what is added. -/
theorem addAll_of_perm {origin : Schema → String} {others : List Schema}
    (hperm : others.Perm schemas) (h : r.addAll origin schemas = .ok r') :
    r.addAll origin others = .ok r' := by
  obtain ⟨htakes, hget⟩ := addAll_eq_ok_iff.mp h
  have hdistinct : (others.map (·.name)).Nodup := (hperm.map _).nodup_iff.mpr htakes.distinct
  refine addAll_eq_ok_iff.mpr ⟨⟨?_, ?_, hdistinct⟩, fun type => ?_⟩
  · intro schema hschema
    exact htakes.sound schema (hperm.mem_iff.mp hschema)
  · intro schema hschema
    exact htakes.free schema (hperm.mem_iff.mp hschema)
  · have hfind : others.find? (·.name = type) = schemas.find? (·.name = type) := by
      refine Option.ext fun schema => ?_
      rw [find?_name_eq_some_iff hdistinct, find?_name_eq_some_iff htakes.distinct, hperm.mem_iff]
    rw [hfind]
    exact hget type

/-- Where the schemas come from does not matter to what is added. -/
theorem addAll_eq_ok_congr {origin origin' : Schema → String} :
    r.addAll origin schemas = .ok r' ↔ r.addAll origin' schemas = .ok r' :=
  addAll_eq_ok_iff.trans addAll_eq_ok_iff.symm

theorem exists_addAll_iff (origin : Schema → String) :
    (∃ r', r.addAll origin schemas = .ok r') ↔ r.TakesAll schemas := by
  constructor
  · rintro ⟨r', h⟩
    exact (addAll_eq_ok_iff.mp h).1
  · intro h
    induction schemas generalizing r with
    | nil => exact ⟨r, rfl⟩
    | cons schema rest ih =>
      have htakes : r.Takes schema :=
        ⟨h.sound schema List.mem_cons_self, h.free schema List.mem_cons_self⟩
      obtain ⟨middle, hadd, hgains⟩ := add_of_takes htakes (origin schema)
      obtain ⟨r', hrest⟩ := ih ((takesAll_cons_iff hgains).mp h).2
      exact ⟨r', (addAll_cons_of_ok origin hadd).trans hrest⟩

/-! ## Calls -/

/-- The answers of calls that register schemas one after the other, and the registry after the
last one. -/
def registerAll (schemas : List Schema) (r : Registry) :
    List (Except SchemaError Unit) × Registry :=
  (schemas.mapM fun schema => (register schema).run).run r

/-- A call adds the schema, or it answers with the error and leaves the registry as it was. -/
theorem run_register (r : Registry) (schema : Schema) :
    (register schema).run.run r =
      match r.add inMemory schema with
      | .ok r' => (.ok (), r')
      | .error e => (.error e, r) := by
  show (ExceptT.bindCont (fun r' => set r') (r.add inMemory schema) :
    StateM Registry (Except SchemaError Unit)).run r = _
  cases r.add inMemory schema <;> rfl

theorem registerAll_nil (r : Registry) : registerAll [] r = ([], r) := rfl

theorem registerAll_cons (schema : Schema) (schemas : List Schema) (r : Registry) :
    registerAll (schema :: schemas) r =
      let call := (register schema).run.run r
      let rest := registerAll schemas call.2
      (call.1 :: rest.1, rest.2) := by
  rw [registerAll, List.mapM_cons]
  rfl

theorem registerAll_cons_of_ok (h : r.add inMemory schema = .ok r') :
    registerAll (schema :: schemas) r =
      (.ok () :: (registerAll schemas r').1, (registerAll schemas r').2) := by
  rw [registerAll_cons, run_register, h]

theorem registerAll_cons_of_error {e : SchemaError} (h : r.add inMemory schema = .error e) :
    registerAll (schema :: schemas) r =
      (.error e :: (registerAll schemas r).1, (registerAll schemas r).2) := by
  rw [registerAll_cons, run_register, h]

/-- Calls answer as a list is added, as long as it is: they all go well, and the registry is the
one of the list. -/
theorem registerAll_append_of_addAll {before : List Schema}
    (h : r.addAll (fun _ => inMemory) before = .ok r') (after : List Schema) :
    registerAll (before ++ after) r =
      (before.map (fun _ => .ok ()) ++ (registerAll after r').1, (registerAll after r').2) := by
  induction before generalizing r with
  | nil =>
    cases h
    rfl
  | cons schema rest ih =>
    cases hadd : r.add inMemory schema with
    | ok middle =>
      have hrest := (addAll_cons_of_ok (fun _ => inMemory) hadd).symm.trans h
      rw [List.cons_append, registerAll_cons_of_ok hadd, ih hrest]
      rfl
    | error e =>
      rw [addAll_cons_of_error (fun _ => inMemory) hadd] at h
      cases h

/-- Every call goes well exactly when the registry takes the whole list. -/
theorem forall_answer_ok_iff :
    (∀ answer ∈ (registerAll schemas r).1, answer = .ok ()) ↔ r.TakesAll schemas := by
  rw [← exists_addAll_iff fun _ => inMemory]
  constructor
  · intro hanswers
    cases hadd : r.addAll (fun _ => inMemory) schemas with
    | ok r' => exact ⟨r', rfl⟩
    | error e =>
      obtain ⟨before, refused, after, middle, rfl, hbefore, hrefused⟩ :=
        foldlM_eq_error_iff.mp hadd
      rw [registerAll_append_of_addAll hbefore, registerAll_cons_of_error hrefused] at hanswers
      cases hanswers (.error e) (by simp)
  · intro h
    obtain ⟨r', hadd⟩ := h
    have hrun := registerAll_append_of_addAll hadd []
    rw [List.append_nil] at hrun
    rw [hrun]
    intro answer hanswer
    obtain ⟨schema, -, rfl⟩ := List.mem_map.mp (List.append_nil _ ▸ hanswer)
    rfl

/-- Calls leave what the registry held, and for every other name the first schema of that name
that has no fault. -/
theorem get?_registerAll (schemas : List Schema) (r : Registry) (type : String) :
    (registerAll schemas r).2.get? type =
      (r.get? type).or (schemas.find? fun schema => schema.fault? = none ∧ schema.name = type) := by
  induction schemas generalizing r with
  | nil => exact Option.or_none.symm
  | cons schema rest ih =>
    rw [List.find?_cons]
    rcases takes_or_refuses r inMemory schema with htakes | ⟨e, hrefuses⟩
    · obtain ⟨middle, hadd, hgains⟩ := add_of_takes htakes inMemory
      rw [registerAll_cons_of_ok hadd, ih, hgains]
      by_cases htype : type = schema.name
      · subst htype
        rw [if_pos rfl, htakes.free, decide_eq_true ⟨htakes.sound, rfl⟩]
        rfl
      · rw [if_neg htype, decide_eq_false fun h => htype h.2.symm]
    · rw [registerAll_cons_of_error (add_of_refuses hrefuses), ih]
      cases hrefuses with
      | faulty hfault =>
        have hnot : ¬(schema.fault? = none ∧ schema.name = type) := by
          intro h
          rw [hfault] at h
          cases h.1
        rw [decide_eq_false hnot]
      | taken hsound hheld =>
        by_cases htype : schema.name = type
        · rw [← htype, hheld]
          rfl
        · rw [decide_eq_false fun h => htype h.2]

end Registry

/-! ## Relations that lead nowhere -/

/-- One relation stands before another, by type and then by attribute. -/
def DanglingRelation.Before (d d' : DanglingRelation) : Prop :=
  d.type < d'.type ∨ d.type = d'.type ∧ d.relation < d'.relation

namespace Registry

variable {r : Registry}

/-- A relation of a registered type leads to a type that is not registered. -/
def Dangles (r : Registry) (d : DanglingRelation) : Prop :=
  ∃ schema relation, r.get? d.type = some schema ∧ schema.relation? d.relation = some relation ∧
    relation.target = d.target ∧ r.get? d.target = none

theorem mem_danglingRelations_iff {d : DanglingRelation} :
    d ∈ r.danglingRelations ↔ r.Dangles d := by
  unfold danglingRelations Dangles
  rw [List.mem_flatMap]
  constructor
  · rintro ⟨⟨type, schema⟩, hentry, hd⟩
    obtain ⟨⟨name, relation⟩, hrelation, rfl⟩ := List.mem_map.mp hd
    obtain ⟨hmem, hout⟩ := List.mem_filter.mp hrelation
    have hfree : r.contains relation.target = false := by simpa using hout
    exact ⟨schema, relation, SortedMap.get?_eq_some_iff.mpr hentry,
      Schema.mem_relations_iff.mp hmem, rfl, contains_eq_false_iff.mp hfree⟩
  · rintro ⟨schema, relation, hschema, hrelation, htarget, hout⟩
    refine ⟨(d.type, schema), SortedMap.get?_eq_some_iff.mp hschema, ?_⟩
    refine List.mem_map.mpr ⟨(d.relation, relation), List.mem_filter.mpr ⟨?_, ?_⟩, ?_⟩
    · exact Schema.mem_relations_iff.mpr hrelation
    · show (!r.contains relation.target) = true
      rw [htarget, contains_eq_false_iff.mpr hout]
      rfl
    · show (⟨d.type, d.relation, relation.target⟩ : DanglingRelation) = d
      rw [htarget]

theorem pairwise_danglingRelations (r : Registry) :
    r.danglingRelations.Pairwise DanglingRelation.Before := by
  unfold danglingRelations
  rw [List.pairwise_flatMap]
  constructor
  · intro entry _
    -- Of one type, in the order of the attributes.
    rw [List.pairwise_map]
    exact (entry.2.sorted_relations.filter _).imp fun h => .inr ⟨rfl, h⟩
  · refine r.schemas.sorted.imp fun hlt d hd d' hd' => ?_
    obtain ⟨relation, -, rfl⟩ := List.mem_map.mp hd
    obtain ⟨relation', -, rfl⟩ := List.mem_map.mp hd'
    exact .inl hlt

theorem nodup_danglingRelations (r : Registry) : r.danglingRelations.Nodup := by
  refine (pairwise_danglingRelations r).imp fun hbefore heq => ?_
  subst heq
  rcases hbefore with hlt | ⟨-, hlt⟩
  · exact String.lt_irrefl _ hlt
  · exact String.lt_irrefl _ hlt

/-! ## Both ways agree -/

/-- A list of schemas, made a registry at once or registered by calls. -/
structure BuildsAlike (schemas : List Schema) : Prop where
  /-- The list is accepted when every call goes well, -/
  accepted_iff_answers : (∃ r, ofSchemas schemas = .ok r) ↔
    ∀ answer ∈ (registerAll schemas empty).1, answer = .ok ()
  /-- which is when the schemas have no faults and different names. -/
  accepted_iff_sound : (∃ r, ofSchemas schemas = .ok r) ↔
    (∀ schema ∈ schemas, schema.fault? = none) ∧ (schemas.map (·.name)).Nodup
  /-- In any order, the list and the calls then give one registry. -/
  same : ∀ r, ofSchemas schemas = .ok r → ∀ others, others.Perm schemas →
    ofSchemas others = .ok r ∧ registerAll others empty = (others.map fun _ => .ok (), r)
  /-- Otherwise the list ends with the error of a schema behind accepted ones, and the calls
  go well up to this schema, which they refuse with the same code. -/
  refused : ∀ e, ofSchemas schemas = .error e → ∃ before schema after e',
    schemas = before ++ schema :: after ∧ (∃ r, ofSchemas before = .ok r) ∧
    ofSchemas (before ++ [schema]) = .error e ∧ e'.code = e.code ∧
    ∃ answers, (registerAll schemas empty).1 =
      before.map (fun _ => .ok ()) ++ .error e' :: answers
  /-- A call that is refused leaves the registry as it was, -/
  unchanged : ∀ r schema e r', (register schema).run.run r = (.error e, r') → r' = r
  /-- so the calls leave for each name the first schema without a fault. -/
  first : ∀ type, (registerAll schemas empty).2.get? type =
    schemas.find? fun schema => schema.fault? = none ∧ schema.name = type
  /-- The relations of the registry that lead nowhere are listed once and in order. -/
  dangling : ∀ d, d ∈ (registerAll schemas empty).2.danglingRelations ↔
    (registerAll schemas empty).2.Dangles d
  dangling_once : (registerAll schemas empty).2.danglingRelations.Nodup
  dangling_sorted :
    (registerAll schemas empty).2.danglingRelations.Pairwise DanglingRelation.Before

/-- Making a registry of a list of schemas, at once or by calls. Both accept the same lists, those
without faults and without a name that repeats, and give one registry in whatever order the
schemas come; otherwise both refuse the same schema first, with the same code. Calls that go on
keep the first sound schema of each name, and the registry lists each of its relations that lead
nowhere once, by type and attribute. -/
theorem buildsAlike (schemas : List Schema) : BuildsAlike schemas := by
  have htakes : (empty.TakesAll schemas) ↔
      (∀ schema ∈ schemas, schema.fault? = none) ∧ (schemas.map (·.name)).Nodup :=
    ⟨fun h => ⟨h.sound, h.distinct⟩, fun h => ⟨h.1, fun _ _ => rfl, h.2⟩⟩
  have haccepted : (∃ r, ofSchemas schemas = .ok r) ↔ empty.TakesAll schemas :=
    exists_addAll_iff _
  refine ⟨?_, ?_, ?_, ?_, ?_, ?_, ?_, ?_, ?_⟩
  · rw [haccepted, forall_answer_ok_iff]
  · rw [haccepted, htakes]
  · intro r h others hperm
    have hothers : ofSchemas others = .ok r := addAll_of_perm hperm h
    have hrun := registerAll_append_of_addAll (addAll_eq_ok_congr.mp hothers) []
    rw [List.append_nil, registerAll_nil, List.append_nil] at hrun
    exact ⟨hothers, hrun⟩
  · intro e h
    obtain ⟨before, schema, after, middle, rfl, hbefore, hrefused⟩ := foldlM_eq_error_iff.mp h
    obtain ⟨e', hrefuses, hcode⟩ := (add_eq_error_iff.mp hrefused).exists_code_eq inMemory
    refine ⟨before, schema, after, e', rfl, ⟨middle, hbefore⟩, ?_, hcode, ?_⟩
    · exact foldlM_eq_error_iff.mpr ⟨before, schema, [], middle, rfl, hbefore, hrefused⟩
    · rw [registerAll_append_of_addAll (addAll_eq_ok_congr.mp hbefore),
        registerAll_cons_of_error (add_of_refuses hrefuses)]
      exact ⟨_, rfl⟩
  · intro r schema e r' h
    rw [run_register] at h
    cases hadd : r.add inMemory schema with
    | ok middle =>
      rw [hadd] at h
      cases h
    | error e' =>
      rw [hadd] at h
      cases h
      rfl
  · intro type
    exact get?_registerAll schemas empty type
  · exact fun d => mem_danglingRelations_iff
  · exact nodup_danglingRelations _
  · exact pairwise_danglingRelations _

end Registry

end JoinPlan
