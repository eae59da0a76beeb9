import Mathlib.Data.List.Basic
import Mathlib.Logic.Relation
import JoinPlan.Json.Lookup

/-!
# What a dotted path finds

A filter, a sort key and a join each name a value by a dotted path, and the values of joined
documents are named by the path of the alias with the path inside the document behind it. This
file supplies that a path may be read in two goes.

> `lookup_composes`: what a path finds behind another path is what it finds in each of the values
> of the other, one after the other, and all of it stands inside the document.

`Value.walk` follows the names into one value after the other. The same values in the same order
come from a frontier that takes one name at a time (`foldl_advance`), so every name opens one
level of arrays and no more. Where a document is an array, it answers for its objects, in their
order (`walk_array`).
-/

namespace JoinPlan.Value

/-! ## Parts -/

/-- What stands directly in a value: the items of an array, the values of the members of an
object. -/
def parts : Value → List Value
  | .array items => items
  | .object members => members.map Prod.snd
  | _ => []

/-- The second value stands inside the first, at any depth. -/
def HasPart : Value → Value → Prop :=
  Relation.TransGen fun whole part => part ∈ whole.parts

theorem mem_parts_of_get? {members : Members} {name : String} {value : Value}
    (h : members.get? name = some value) : value ∈ (Value.object members).parts := by
  induction members with
  | nil => cases h
  | cons member rest ih =>
    obtain ⟨other, found⟩ := member
    rw [Members.get?] at h
    split at h
    · obtain rfl := Option.some.inj h
      exact List.mem_cons_self
    · exact List.mem_cons_of_mem _ (ih h)

/-- One name leads to a part. -/
theorem hasPart_of_mem_step {v found : Value} {name : String} (h : found ∈ v.step name) :
    v.HasPart found := by
  cases v with
  | object members => exact .single (mem_parts_of_get? (Option.mem_toList.mp h))
  | array items =>
    obtain ⟨item, hitem, hfound⟩ := List.mem_filterMap.mp h
    obtain ⟨members, hmembers, hfound⟩ := Option.bind_eq_some_iff.mp hfound
    have hin : found ∈ item.parts := by
      cases item with
      | object _ =>
        obtain rfl := Option.some.inj hmembers
        exact mem_parts_of_get? hfound
      | _ => cases hmembers
    exact .head (show item ∈ (Value.array items).parts from hitem) (.single hin)
  | _ => cases h

/-- Names lead to a part, if there are names. -/
theorem hasPart_of_mem_walk {v found : Value} {names : List String} (hnames : names ≠ [])
    (h : found ∈ v.walk names) : v.HasPart found := by
  induction names generalizing v with
  | nil => exact absurd rfl hnames
  | cons name rest ih =>
    obtain ⟨next, hnext, hfound⟩ := List.mem_flatMap.mp h
    have hstep := hasPart_of_mem_step hnext
    cases rest with
    | nil => exact List.mem_singleton.mp hfound ▸ hstep
    | cons second rest => exact hstep.trans (ih (List.cons_ne_nil second rest) hfound)

/-! ## One name at a time -/

/-- The frontier behind one more name. -/
def advance (frontier : List Value) (name : String) : List Value :=
  frontier.flatMap (·.step name)

/-- Taking the names one at a time for all values finds what taking them in turn finds in each. -/
theorem foldl_advance (names : List String) (frontier : List Value) :
    names.foldl advance frontier = frontier.flatMap (·.walk names) := by
  induction names generalizing frontier with
  | nil =>
    show frontier = frontier.flatMap fun v => [v]
    rw [List.flatMap_singleton']
  | cons name rest ih =>
    rw [List.foldl_cons, ih, advance, List.flatMap_assoc]
    rfl

theorem get?_of_not_isObject {item : Value} {name : String} (h : item.isObject = false) :
    item.get? name = none := by
  rw [get?, Option.bind_eq_none_iff]
  intro members hmembers
  rw [isObject, hmembers] at h
  cases h

/-- An array answers for those of its items that are objects, in their order. -/
theorem walk_array (items : List Value) (name : String) (rest : List String) :
    (Value.array items).walk (name :: rest) =
      (items.filter (·.isObject)).flatMap (·.walk (name :: rest)) := by
  induction items with
  | nil => rfl
  | cons item items ih =>
    have hcons : (Value.array (item :: items)).walk (name :: rest) =
        (item.get? name).toList.flatMap (·.walk rest) ++
          (Value.array items).walk (name :: rest) := by
      simp only [walk, step, List.filterMap_cons]
      cases item.get? name <;> simp
    rw [hcons, ih]
    cases hobject : item.isObject with
    | true =>
      obtain ⟨members, rfl⟩ : ∃ members, item = .object members := by
        cases item with
        | object members => exact ⟨members, rfl⟩
        | _ => cases hobject
      rw [List.filter_cons_of_pos hobject, List.flatMap_cons]
      rfl
    | false =>
      rw [List.filter_cons_of_neg (Bool.eq_false_iff.mp hobject),
        get?_of_not_isObject hobject]
      rfl

/-! ## Paths -/

theorem pathNames_ne_nil (path : String) : pathNames path ≠ [] := Text.split_ne_nil '.' path

/-- A path can be read in two goes. Behind another path it finds what it finds in each of the
values of that path, in their order. All that a path finds stands inside the document, is found
by taking its names one at a time for all values reached, and is found in an array by way of the
objects among its items. -/
theorem lookup_composes (d : Value) (path rest : String) :
    d.lookup (path ++ "." ++ rest) = (d.lookup path).flatMap (·.lookup rest) ∧
      (∀ found ∈ d.lookup path, d.HasPart found) ∧
      d.lookup path = (pathNames path).foldl advance [d] ∧
      ∀ items, (Value.array items).lookup path =
        (items.filter (·.isObject)).flatMap (·.lookup path) := by
  refine ⟨lookup_joined d path rest, fun found hfound => ?_, ?_, fun items => ?_⟩
  · exact hasPart_of_mem_walk (pathNames_ne_nil path) hfound
  · rw [foldl_advance, List.flatMap_singleton]
    rfl
  · obtain ⟨name, names, hnames⟩ := List.exists_cons_of_ne_nil (pathNames_ne_nil path)
    unfold lookup
    rw [hnames, walk_array]

/-- Tags with names, among items that have none. -/
def tagged : Value :=
  .object [("tags", .array [.object [("name", .string "red")], .array [.object [("name", .null)]],
    .string "name", .object [("size", .ofInt 1), ("name", .string "blue")]])]

/-- The names of the tags are found in their order, in the value of `tags` as in the document. -/
theorem lookup_composes_tagged :
    tagged.lookup "tags.name" = [.string "red", .string "blue"] ∧
      (tagged.lookup "tags").flatMap (·.lookup "name") = [.string "red", .string "blue"] ∧
      tagged.HasPart (.string "blue") := by
  have hfound : tagged.lookup "tags.name" = [.string "red", .string "blue"] := rfl
  have hcomposes := (lookup_composes tagged "tags" "name").1
  refine ⟨hfound, hcomposes.symm.trans hfound, ?_⟩
  refine (lookup_composes tagged "tags.name" "name").2.1 (.string "blue") ?_
  rw [hfound]
  exact List.mem_cons_of_mem _ List.mem_cons_self

end JoinPlan.Value
