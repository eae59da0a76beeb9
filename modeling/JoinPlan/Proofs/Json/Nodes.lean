import JoinPlan.Json.Typed
import JoinPlan.Proofs.Json.Record

/-!
# Values as nodes

A value is read from a node, and every value is a node itself. This file supplies that the way to
the node and back loses nothing.

> `Value.toValueWithin_toNode`: a value is read back from its node, in the depth to which it
> nests, if its names are different.
>
> `Node.distinctKeys_of_toValueWithin`: what is read has different names.

Both are inductions on the value or the node, with its items and its members. Of typed data, a
member of an object is what its field is read from (`Node.orDefault?_eq_some`).
-/

namespace JoinPlan

/-- Where each element is read, the list is. -/
theorem mapM_eq_some_map {α β : Type} {f : α → Option β} {g : α → β} {xs : List α}
    (h : ∀ x ∈ xs, f x = some (g x)) : xs.mapM f = some (xs.map g) := by
  induction xs with
  | nil => rfl
  | cons x rest ih =>
    obtain ⟨hx, hrest⟩ := List.forall_mem_cons.mp h
    rw [List.mapM_cons, hx, ih hrest]
    rfl

theorem mapM_eq_some_self {α : Type} {f : α → Option α} {xs : List α}
    (h : ∀ x ∈ xs, f x = some x) : xs.mapM f = some xs := by
  have hmap := mapM_eq_some_map (g := id) h
  rwa [List.map_id] at hmap

/-- A reader of what a writer wrote, and of nothing else, reads lists of it. -/
theorem mapM_eq_some_iff_map {α β : Type} {read : α → Option β} {write : β → α}
    (h : ∀ x y, read x = some y ↔ x = write y) {xs : List α} {ys : List β} :
    xs.mapM read = some ys ↔ xs = ys.map write := by
  constructor
  · intro hread
    induction xs generalizing ys with
    | nil =>
      cases hread
      rfl
    | cons x rest ih =>
      rw [List.mapM_cons] at hread
      obtain ⟨y, hy, hread⟩ := Option.bind_eq_some_iff.mp hread
      obtain ⟨others, hothers, hread⟩ := Option.bind_eq_some_iff.mp hread
      cases hread
      rw [List.map_cons, ih hothers, (h x y).mp hy]
  · rintro rfl
    rw [List.mapM_map]
    exact mapM_eq_some_self fun y _ => (h (write y) y).mpr rfl

/-- Lists are read element by element. -/
theorem forall₂_of_mapM_eq_some {α β : Type} {f : α → Option β} {xs : List α} {ys : List β}
    (h : xs.mapM f = some ys) : List.Forall₂ (fun x y => f x = some y) xs ys := by
  induction xs generalizing ys with
  | nil =>
    cases h
    exact .nil
  | cons x rest ih =>
    rw [List.mapM_cons] at h
    obtain ⟨y, hy, h⟩ := Option.bind_eq_some_iff.mp h
    obtain ⟨others, hothers, h⟩ := Option.bind_eq_some_iff.mp h
    cases h
    exact .cons hy (ih hothers)

/-- What is read from a list is read from one of its elements. -/
theorem exists_of_mem_mapM {α β : Type} {f : α → Option β} {xs : List α} {ys : List β}
    (h : xs.mapM f = some ys) {y : β} (hy : y ∈ ys) : ∃ x ∈ xs, f x = some y := by
  induction xs generalizing ys with
  | nil =>
    cases h
    cases hy
  | cons x rest ih =>
    rw [List.mapM_cons] at h
    obtain ⟨first, hfirst, h⟩ := Option.bind_eq_some_iff.mp h
    obtain ⟨others, hothers, h⟩ := Option.bind_eq_some_iff.mp h
    cases h
    rcases List.mem_cons.mp hy with rfl | hy
    · exact ⟨x, List.mem_cons_self, hfirst⟩
    · obtain ⟨x', hx', hread⟩ := ih hothers hy
      exact ⟨x', List.mem_cons_of_mem _ hx', hread⟩

namespace Members

/-- A member with a new name comes last. -/
theorem insert_of_notMem {members : Members} {key : String} (h : key ∉ members.map Prod.fst)
    (value : Value) : members.insert key value = members ++ [(key, value)] := by
  induction members with
  | nil => rfl
  | cons entry rest ih =>
    obtain ⟨name, old⟩ := entry
    rw [List.map_cons, List.mem_cons, not_or] at h
    rw [insert, if_neg (Ne.symm h.1), ih h.2, List.cons_append]

/-- Members with different names are the entries that they are made of. -/
theorem ofList_of_distinct {members : Members} (h : members.Distinct) :
    ofList members = members := by
  induction members using List.reverseRecOn with
  | nil => rfl
  | append_singleton front last ih =>
    unfold Distinct at h
    rw [List.map_append, List.nodup_append] at h
    obtain ⟨hfront, -, hapart⟩ := h
    rw [ofList_append_singleton, ih hfront, insert_of_notMem]
    intro hmem
    exact hapart _ hmem _ List.mem_cons_self rfl

end Members

mutual

/-- A value is read back from its node, in the depth to which it nests. -/
theorem Value.toValueWithin_toNode (v : Value) {limit : Nat} (hdepth : v.depth ≤ limit)
    (hkeys : v.DistinctKeys) : v.toNode.toValueWithin limit = some v := by
  cases v with
  | null => rfl
  | bool b => rfl
  | number n => rfl
  | string s => rfl
  | array items =>
    rw [Value.depth] at hdepth
    obtain ⟨limit, rfl⟩ := Nat.exists_eq_add_one_of_ne_zero (n := limit) (by omega)
    rw [Value.toNode, Node.toValueWithin,
      Value.toItemsWithin_toNodes items (Nat.le_of_succ_le_succ hdepth) hkeys]
    rfl
  | object members =>
    rw [Value.depth] at hdepth
    obtain ⟨limit, rfl⟩ := Nat.exists_eq_add_one_of_ne_zero (n := limit) (by omega)
    obtain ⟨hnames, hvalues⟩ := hkeys
    rw [Value.toNode, Node.toValueWithin,
      Value.toMembersWithin_toNodeMembers members (Nat.le_of_succ_le_succ hdepth) hvalues,
      Option.map_some, Members.ofList_of_distinct hnames]

theorem Value.toItemsWithin_toNodes (items : List Value) {limit : Nat}
    (hdepth : Value.depthItems items ≤ limit) (hkeys : Value.DistinctKeysItems items) :
    Node.toItemsWithin limit (Value.toNodes items) = some items := by
  cases items with
  | nil => rfl
  | cons item rest =>
    obtain ⟨hitem, hrest⟩ := Nat.max_le.mp hdepth
    rw [Value.toNodes, Node.toItemsWithin, Value.toValueWithin_toNode item hitem hkeys.1,
      Value.toItemsWithin_toNodes rest hrest hkeys.2]
    rfl

theorem Value.toMembersWithin_toNodeMembers (members : Members) {limit : Nat}
    (hdepth : Value.depthMembers members ≤ limit) (hkeys : Value.DistinctKeysMembers members) :
    Node.toMembersWithin limit (Value.toNodeMembers members) = some members := by
  match members with
  | [] => rfl
  | (name, value) :: rest =>
    obtain ⟨hvalue, hrest⟩ := Nat.max_le.mp hdepth
    rw [Value.toNodeMembers, Node.toMembersWithin, Value.toValueWithin_toNode value hvalue hkeys.1,
      Value.toMembersWithin_toNodeMembers rest hrest hkeys.2]
    rfl

end

theorem Value.distinctKeysMembers_iff {members : Members} :
    Value.DistinctKeysMembers members ↔ ∀ member ∈ members, member.2.DistinctKeys := by
  induction members with
  | nil => simp [Value.DistinctKeysMembers]
  | cons member rest ih => rw [Value.DistinctKeysMembers, ih, List.forall_mem_cons]

mutual

/-- What is read has different names. -/
theorem Node.distinctKeys_of_toValueWithin (node : Node) {limit : Nat} {v : Value}
    (h : node.toValueWithin limit = some v) : v.DistinctKeys := by
  cases node with
  | null =>
    cases h
    trivial
  | bool b =>
    cases h
    trivial
  | number n =>
    obtain ⟨number, -, rfl⟩ := Option.map_eq_some_iff.mp h
    trivial
  | string s =>
    obtain ⟨text, -, rfl⟩ := Option.map_eq_some_iff.mp h
    trivial
  | array items =>
    cases limit with
    | zero => cases h
    | succ limit =>
      obtain ⟨values, hvalues, rfl⟩ := Option.map_eq_some_iff.mp h
      exact Node.distinctKeysItems_of_toItemsWithin items hvalues
  | object members =>
    cases limit with
    | zero => cases h
    | succ limit =>
      obtain ⟨entries, hentries, rfl⟩ := Option.map_eq_some_iff.mp h
      -- Of a repeated name one entry is kept, and all entries have different names inside.
      have hvalues := Node.distinctKeysMembers_of_toMembersWithin members hentries
      rw [Value.distinctKeysMembers_iff] at hvalues
      refine ⟨Members.distinct_ofList entries, Value.distinctKeysMembers_iff.mpr ?_⟩
      intro member hmember
      exact hvalues member (Members.mem_of_mem_ofList hmember)

theorem Node.distinctKeysItems_of_toItemsWithin (items : List Node) {limit : Nat}
    {values : List Value} (h : Node.toItemsWithin limit items = some values) :
    Value.DistinctKeysItems values := by
  cases items with
  | nil =>
    cases h
    trivial
  | cons item rest =>
    rw [Node.toItemsWithin] at h
    obtain ⟨value, hvalue, h⟩ := Option.bind_eq_some_iff.mp h
    obtain ⟨values, hvalues, h⟩ := Option.bind_eq_some_iff.mp h
    cases h
    exact ⟨Node.distinctKeys_of_toValueWithin item hvalue,
      Node.distinctKeysItems_of_toItemsWithin rest hvalues⟩

theorem Node.distinctKeysMembers_of_toMembersWithin (members : List (Option String × Node))
    {limit : Nat} {entries : Members} (h : Node.toMembersWithin limit members = some entries) :
    Value.DistinctKeysMembers entries := by
  match members with
  | [] =>
    cases h
    trivial
  | (name, node) :: rest =>
    rw [Node.toMembersWithin] at h
    obtain ⟨name, -, h⟩ := Option.bind_eq_some_iff.mp h
    obtain ⟨value, hvalue, h⟩ := Option.bind_eq_some_iff.mp h
    obtain ⟨entries, hentries, h⟩ := Option.bind_eq_some_iff.mp h
    cases h
    exact ⟨Node.distinctKeys_of_toValueWithin node hvalue,
      Node.distinctKeysMembers_of_toMembersWithin rest hentries⟩

end

/-! ## Typed data -/

namespace Value

theorem toNodes_eq_map (items : List Value) : toNodes items = items.map toNode := by
  induction items with
  | nil => rfl
  | cons item rest ih => rw [toNodes, ih, List.map_cons]

theorem toNodeMembers_eq_map (members : Members) :
    toNodeMembers members = members.map fun member => (some member.1, member.2.toNode) := by
  induction members with
  | nil => rfl
  | cons member rest ih => rw [toNodeMembers, ih, List.map_cons]

theorem depth_le_of_mem {members : Members} {name : String} {value : Value}
    (h : (name, value) ∈ members) : value.depth ≤ depthMembers members := by
  induction members with
  | nil => cases h
  | cons first rest ih =>
    rw [depthMembers]
    rcases List.mem_cons.mp h with rfl | hrest
    · exact Nat.le_max_left _ _
    · exact Nat.le_trans (ih hrest) (Nat.le_max_right _ _)

end Value

namespace Node

/-- The fields of an object, by name. -/
def fieldsOf (members : Members) : List (String × Node) :=
  members.map fun member => (member.1, member.2.toNode)

/-- An object with exactly the declared fields is read as these. -/
theorem typedFields?_toNode (strict : Bool) {members : Members} (h : members.Distinct) :
    (Value.object members).toNode.typedFields? strict (members.map Prod.fst) =
      some (fieldsOf members) := by
  have hnames : (fieldsOf members).map Prod.fst = members.map Prod.fst := by
    unfold fieldsOf
    rw [List.map_map]
    rfl
  have hknown : (fieldsOf members).filter
      (fun field => (members.map Prod.fst).contains field.1) = fieldsOf members := by
    refine List.filter_eq_self.mpr fun field hfield => ?_
    rw [List.contains_iff_mem, ← hnames]
    exact List.mem_map_of_mem hfield
  rw [Value.toNode, Value.toNodeMembers_eq_map, typedFields?, List.mapM_map,
    mapM_eq_some_map (g := fun member : String × Value => (member.1, member.2.toNode))]
  · rw [← fieldsOf, Option.bind_eq_bind, Option.bind_some]
    simp only [hknown, ne_eq, not_true_eq_false, decide_false, Bool.and_false,
      Bool.false_eq_true, if_false, hnames]
    exact if_pos h
  · intro member _
    rfl

/-- A field is read from the member of its name. -/
theorem orDefault?_eq_some {α : Type} {members : Members} (name : String) (default : α)
    (decode : Node → Option α) {value : Value} {part : α} (h : members.get? name = some value)
    (hpart : decode value.toNode = some part) :
    orDefault? (fieldsOf members) name default decode = some part := by
  have hlookup : (fieldsOf members).lookup name = some value.toNode := by
    induction members with
    | nil => cases h
    | cons member rest ih =>
      obtain ⟨first, old⟩ := member
      rw [Members.get?] at h
      rw [fieldsOf, List.map_cons, List.lookup_cons]
      by_cases hname : first = name
      · rw [if_pos hname] at h
        cases h
        rw [hname, beq_self_eq_true]
      · rw [if_neg hname] at h
        rw [beq_false_of_ne (Ne.symm hname)]
        exact ih h
  rw [orDefault?, hlookup]
  exact hpart

/-- What a field gives is its default or was read from a node. -/
theorem eq_or_exists_of_orDefault? {α : Type} {fields : List (String × Node)} {name : String}
    {default part : α} {decode : Node → Option α}
    (h : orDefault? fields name default decode = some part) :
    part = default ∨ ∃ node, decode node = some part := by
  unfold orDefault? at h
  split at h
  · exact .inr ⟨_, h⟩
  · cases h
    exact .inl rfl

/-- Texts are read back. -/
theorem texts?_toNode (texts : List String) : (Value.ofTexts texts).toNode.texts? = some texts := by
  rw [Value.ofTexts, Value.toNode, Value.toNodes_eq_map, List.map_map, texts?, List.mapM_map]
  exact mapM_eq_some_self fun text _ => rfl

/-- A text that may be missing is read back. -/
theorem nullable?_toNode (text : Option String) :
    (Value.ofText? text).toNode.nullable? text? = some text := by
  cases text <;> rfl

end Node

end JoinPlan
