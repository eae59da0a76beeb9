import Mathlib.Data.List.Nodup
import Mathlib.Data.Set.List
import JoinPlan.Proofs.Json.Nodes

/-!
# Fields that are read strictly

Typed data is read from an object or from an array, and a strict reader refuses fields that it
does not know. This file supplies what such a reader accepts, and how a node can fail it, as two
judgments of their own.

> `Node.WritesFields`: the node is an object of different known fields, or an array of at most
> as many values as there are fields.
>
> `Node.Misfit`: a field is unknown, repeated, missing or of another type, or the node is
> nothing that has fields.

The reader gives what the first one says (`typedFields?_eq_some_iff`), and a node is a misfit
exactly when it does not write fields of the types that are asked for (`misfit_iff`).
-/

namespace JoinPlan

/-- Under different names, an entry is found by its name. -/
theorem lookup_eq_some_iff_mem {α β : Type} [BEq α] [LawfulBEq α] {entries : List (α × β)}
    (h : (entries.map Prod.fst).Nodup) {name : α} {value : β} :
    entries.lookup name = some value ↔ (name, value) ∈ entries := by
  rw [List.lookup_eq_some_iff]
  constructor
  · rintro ⟨before, after, rfl, -⟩
    exact List.mem_append_right _ List.mem_cons_self
  · intro hmem
    obtain ⟨before, after, rfl⟩ := List.append_of_mem hmem
    refine ⟨before, after, rfl, fun entry hentry => ?_⟩
    rw [List.map_append, List.nodup_append] at h
    rw [bne_iff_ne]
    exact Ne.symm (h.2.2 _ (List.mem_map_of_mem hentry) _ List.mem_cons_self)

/-- Under different names, a name has one value. -/
theorem value_unique {α β : Type} {entries : List (α × β)} (h : (entries.map Prod.fst).Nodup)
    {name : α} {value other : β} (hvalue : (name, value) ∈ entries)
    (hother : (name, other) ∈ entries) : value = other :=
  congrArg Prod.snd (List.inj_on_of_nodup_map h hvalue hother rfl)

namespace Node

variable {α : Type} {names required : List String} {typed : String → Node → Prop} {node : Node}
  {fields : List (String × Node)} {name : String}

/-! ## What is read -/

/-- A node writes fields: as an object of different known names, or as an array of values for
the first names. -/
inductive WritesFields (names : List String) : Node → List (String × Node) → Prop
  | object {fields : List (String × Node)} : (∀ field ∈ fields, field.1 ∈ names) →
      (fields.map Prod.fst).Nodup →
      WritesFields names (.object (fields.map fun field => (some field.1, field.2))) fields
  | array {items : List Node} : items.length ≤ names.length →
      WritesFields names (.array items) (names.zip items)

/-- Every name of an object is a text where its members are read. -/
theorem mapM_named_eq_some_iff {members : List (Option String × Node)} :
    members.mapM (fun (key, value) => key.map fun name => (name, value)) = some fields ↔
      members = fields.map fun field => (some field.1, field.2) := by
  refine mapM_eq_some_iff_map ?_
  rintro ⟨key, value⟩ ⟨name, value'⟩
  simp only [Option.map_eq_some_iff, Prod.mk.injEq]
  constructor
  · rintro ⟨_, rfl, rfl, rfl⟩
    exact ⟨rfl, rfl⟩
  · rintro ⟨rfl, rfl⟩
    exact ⟨name, rfl, rfl, rfl⟩

/-- The strict reader gives the fields that a node writes. -/
theorem typedFields?_eq_some_iff :
    node.typedFields? true names = some fields ↔ WritesFields names node fields := by
  constructor
  · intro h
    cases node with
    | object members =>
      obtain ⟨named, hnamed, hchecked⟩ := Option.bind_eq_some_iff.mp h
      obtain rfl := mapM_named_eq_some_iff.mp hnamed
      obtain ⟨hlength, hchecked⟩ := Option.ite_none_left_eq_some.mp hchecked
      have hknown : ∀ field ∈ named, names.contains field.1 = true := by
        rw [← List.length_filter_eq_length_iff]
        simpa using hlength
      rw [List.filter_eq_self.mpr hknown] at hchecked
      obtain ⟨hnodup, hsame⟩ := Option.ite_none_right_eq_some.mp hchecked
      cases hsame
      exact .object (fun field hfield => List.contains_iff_mem.mp (hknown field hfield)) hnodup
    | array items =>
      obtain ⟨hlength, h⟩ := Option.ite_none_right_eq_some.mp h
      cases h
      exact .array hlength
    | null => cases h
    | bool b => cases h
    | number n => cases h
    | string s => cases h
  · rintro (⟨hknown, hnodup⟩ | hlength)
    · have hall : fields.filter (names.contains ·.1) = fields :=
        List.filter_eq_self.mpr fun field hfield => List.contains_iff_mem.mpr (hknown field hfield)
      rw [typedFields?, mapM_named_eq_some_iff.mpr rfl, Option.bind_eq_bind, Option.bind_some]
      simp only [hall, ne_eq, not_true_eq_false, decide_false, Bool.and_false,
        Bool.false_eq_true, if_false]
      exact if_pos hnodup
    · exact if_pos hlength

/-- The names of an object that has these fields. -/
theorem names_members (fields : List (String × Node)) :
    (fields.map fun field => (some field.1, field.2)).map Prod.fst =
      (fields.map Prod.fst).map some := by
  rw [List.map_map, List.map_map]
  rfl

/-- Members that all have names are those of fields. -/
theorem exists_fields_of_named {members : List (Option String × Node)}
    (h : ∀ value, (none, value) ∉ members) :
    ∃ fields : List (String × Node),
      (fields.map fun field => (some field.1, field.2)) = members := by
  show members ∈ Set.range (List.map fun field : String × Node => (some field.1, field.2))
  rw [Set.range_list_map]
  intro member hmember
  obtain ⟨key, value⟩ := member
  cases key with
  | none => exact absurd hmember (h value)
  | some name => exact ⟨(name, value), rfl⟩

theorem map_fst_zip_eq_take (names : List String) (items : List Node) :
    (names.zip items).map Prod.fst = names.take items.length := by
  induction names generalizing items with
  | nil => simp
  | cons name rest ih =>
    cases items with
    | nil => rfl
    | cons item items =>
      rw [List.zip_cons_cons, List.map_cons, ih, List.length_cons, List.take_succ_cons]

/-- The fields that are written have different names. -/
theorem WritesFields.nodup (h : WritesFields names node fields) (hnames : names.Nodup) :
    (fields.map Prod.fst).Nodup := by
  cases h with
  | object _ hnodup => exact hnodup
  | array =>
    rw [map_fst_zip_eq_take]
    exact hnames.sublist (List.take_sublist _ _)

/-- The fields that are written are known. -/
theorem WritesFields.mem (h : WritesFields names node fields) {field : String × Node}
    (hfield : field ∈ fields) : field.1 ∈ names := by
  cases h with
  | object hknown _ => exact hknown field hfield
  | array => exact (List.of_mem_zip hfield).1

/-! ## What is refused -/

/-- A node does not fit fields that have types, of which some are required. -/
inductive Misfit (names required : List String) (typed : String → Node → Prop) : Node → Prop
  | scalar {node : Node} : (∀ members, node ≠ .object members) → (∀ items, node ≠ .array items) →
      Misfit names required typed node
  /-- Half a surrogate pair stands in a name. -/
  | unnamed {members : List (Option String × Node)} {value : Node} : (none, value) ∈ members →
      Misfit names required typed (.object members)
  | unknown {members : List (Option String × Node)} {name : String} :
      some name ∈ members.map Prod.fst → name ∉ names →
      Misfit names required typed (.object members)
  | repeated {members : List (Option String × Node)} {name : String} :
      [some name, some name].Sublist (members.map Prod.fst) →
      Misfit names required typed (.object members)
  | missing {members : List (Option String × Node)} {name : String} :
      name ∈ required → some name ∉ members.map Prod.fst →
      Misfit names required typed (.object members)
  | mistyped {members : List (Option String × Node)} {name : String} {value : Node} :
      (some name, value) ∈ members → ¬typed name value →
      Misfit names required typed (.object members)
  | tooLong {items : List Node} : names.length < items.length →
      Misfit names required typed (.array items)
  | tooShort {items : List Node} {name : String} : name ∈ required →
      name ∉ names.take items.length → Misfit names required typed (.array items)
  | mistypedItem {items : List Node} {name : String} {value : Node} :
      (name, value) ∈ names.zip items → ¬typed name value →
      Misfit names required typed (.array items)

/-- A node writes fields of their types, and the required ones are among them. -/
structure Fits (names required : List String) (typed : String → Node → Prop) (node : Node)
    (fields : List (String × Node)) : Prop where
  writes : WritesFields names node fields
  typed : ∀ name value, (name, value) ∈ fields → typed name value
  required : ∀ name ∈ required, name ∈ fields.map Prod.fst

theorem Fits.not_misfit (h : Fits names required typed node fields) :
    ¬Misfit names required typed node := by
  obtain ⟨hwrites, htyped, hrequired⟩ := h
  intro hmisfit
  cases hwrites with
  | object hknown hnodup =>
    cases hmisfit with
    | scalar hobject _ => exact hobject _ rfl
    | unnamed hmem => simp at hmem
    | unknown hmem hunknown =>
      rw [names_members, List.mem_map_of_injective (Option.some_injective _), List.mem_map] at hmem
      obtain ⟨field, hfield, rfl⟩ := hmem
      exact hunknown (hknown field hfield)
    | repeated htwice =>
      rw [names_members] at htwice
      exact List.nodup_iff_sublist.mp (hnodup.map (Option.some_injective _)) _ htwice
    | missing hmem hmissing =>
      rw [names_members, List.mem_map_of_injective (Option.some_injective _)] at hmissing
      exact hmissing (hrequired _ hmem)
    | mistyped hmem hmistyped =>
      obtain ⟨field, hfield, hsame⟩ := List.mem_map.mp hmem
      cases hsame
      exact hmistyped (htyped _ _ hfield)
  | array hlength =>
    cases hmisfit with
    | scalar _ harray => exact harray _ rfl
    | tooLong hlong => exact Nat.not_le_of_lt hlong hlength
    | tooShort hmem hshort =>
      rw [← map_fst_zip_eq_take] at hshort
      exact hshort (hrequired _ hmem)
    | mistypedItem hmem hmistyped => exact hmistyped (htyped _ _ hmem)

/-- A node is a misfit exactly when it does not write what is asked for. -/
theorem misfit_iff :
    Misfit names required typed node ↔ ¬∃ fields, Fits names required typed node fields := by
  constructor
  · rintro hmisfit ⟨fields, hfits⟩
    exact hfits.not_misfit hmisfit
  · intro hnone
    by_contra hfit
    cases node with
    | null => exact hfit (.scalar nofun nofun)
    | bool b => exact hfit (.scalar nofun nofun)
    | number n => exact hfit (.scalar nofun nofun)
    | string s => exact hfit (.scalar nofun nofun)
    | array items =>
      refine hnone ⟨names.zip items, .array ?_, ?_, ?_⟩
      · by_contra hlong
        exact hfit (.tooLong (Nat.lt_of_not_le hlong))
      · intro name value hfield
        by_contra hmistyped
        exact hfit (.mistypedItem hfield hmistyped)
      · intro name hname
        by_contra hshort
        rw [map_fst_zip_eq_take] at hshort
        exact hfit (.tooShort hname hshort)
    | object members =>
      obtain ⟨fields, rfl⟩ := exists_fields_of_named fun value hmem => hfit (.unnamed hmem)
      refine hnone ⟨fields, .object ?_ ?_, ?_, ?_⟩
      · intro field hfield
        by_contra hunknown
        refine hfit (.unknown ?_ hunknown)
        rw [names_members]
        exact List.mem_map_of_mem (List.mem_map_of_mem hfield)
      · refine List.nodup_iff_sublist.mpr fun name htwice => ?_
        have hrepeated := htwice.map some
        rw [← names_members] at hrepeated
        exact hfit (.repeated hrepeated)
      · intro name value hfield
        by_contra hmistyped
        exact hfit (.mistyped (List.mem_map_of_mem hfield) hmistyped)
      · intro name hname
        by_contra hmissing
        refine hfit (.missing hname ?_)
        rwa [names_members, List.mem_map_of_injective (Option.some_injective _)]

/-! ## Values of fields -/

/-- A field has a value: it is written, or it is not and this is its default. -/
def Holds (fields : List (String × Node)) (name : String) (default : α) (encode : α → Value)
    (value : α) : Prop :=
  (name, (encode value).toNode) ∈ fields ∨ name ∉ fields.map Prod.fst ∧ value = default

/-- What is written for a field is its value. -/
theorem Holds.eq_of_mem {default value : α} {encode : α → Value}
    (h : Holds fields name default encode value) (hnodup : (fields.map Prod.fst).Nodup)
    (hmem : (name, node) ∈ fields) : node = (encode value).toNode := by
  rcases h with hwritten | ⟨hname, -⟩
  · exact value_unique hnodup hmem hwritten
  · exact absurd (List.mem_map_of_mem hmem) hname

/-- A field of its type has a value. -/
theorem exists_holds {encode : α → Value} (default : α)
    (h : ∀ node, (name, node) ∈ fields → ∃ value, node = (encode value).toNode) :
    ∃ value, Holds fields name default encode value := by
  by_cases hname : name ∈ fields.map Prod.fst
  · obtain ⟨⟨_, node⟩, hmem, rfl⟩ := List.mem_map.mp hname
    obtain ⟨value, rfl⟩ := h node hmem
    exact ⟨value, .inl hmem⟩
  · exact ⟨default, .inr ⟨hname, rfl⟩⟩

/-- A decoder reads what an encoder writes, and nothing else. -/
def Reads (decode : Node → Option α) (encode : α → Value) : Prop :=
  ∀ node value, decode node = some value ↔ node = (encode value).toNode

/-- A field without a default has the value that is written. -/
theorem Reads.required?_eq_some_iff {decode : Node → Option α} {encode : α → Value}
    (h : Reads decode encode) (hnodup : (fields.map Prod.fst).Nodup) {value : α} :
    required? fields name decode = some value ↔ (name, (encode value).toNode) ∈ fields := by
  rw [required?, Option.bind_eq_some_iff]
  simp only [h _ _, exists_eq_right, lookup_eq_some_iff_mem hnodup]

/-- A field with a default is read as the value it has. -/
theorem Reads.orDefault?_eq_some_iff {decode : Node → Option α} {encode : α → Value}
    (h : Reads decode encode) (hnodup : (fields.map Prod.fst).Nodup) {default value : α} :
    orDefault? fields name default decode = some value ↔
      Holds fields name default encode value := by
  unfold orDefault? Holds
  cases hlookup : fields.lookup name with
  | some node =>
    have hmem := (lookup_eq_some_iff_mem hnodup).mp hlookup
    have hname : name ∈ fields.map Prod.fst := List.mem_map_of_mem hmem
    simp only [h _ _, hname, not_true_eq_false, false_and, or_false]
    rw [← lookup_eq_some_iff_mem hnodup, hlookup, Option.some.injEq]
  | none =>
    have hname : name ∉ fields.map Prod.fst := by
      intro hmem
      obtain ⟨field, hfield, rfl⟩ := List.mem_map.mp hmem
      simpa using List.lookup_eq_none_iff.mp hlookup field hfield
    have hmem : (name, (encode value).toNode) ∉ fields := mt List.mem_map_of_mem hname
    simp only [hmem, hname, not_false_eq_true, true_and, false_or, Option.some.injEq]
    exact eq_comm

theorem reads_text? : Reads text? .string := by
  intro node text
  cases node with
  | string s => cases s <;> simp [text?, Value.toNode]
  | _ => simp [text?, Value.toNode]

theorem reads_flag? : Reads flag? .bool := by
  intro node flag
  cases node <;> simp [flag?, Value.toNode]

theorem reads_texts? : Reads texts? .ofTexts := by
  intro node texts
  have hmap : (Value.ofTexts texts).toNode =
      .array (texts.map fun text => (Value.string text).toNode) := by
    rw [Value.ofTexts, Value.toNode, Value.toNodes_eq_map, List.map_map]
    rfl
  rw [hmap]
  cases node with
  | array items => rw [texts?, mapM_eq_some_iff_map reads_text?, Node.array.injEq]
  | _ => simp [texts?]

end Node

end JoinPlan
