import Mathlib.Data.List.Forall2
import Mathlib.Data.List.Perm.Subperm
import JoinPlan.Proofs.Json.Nodes
import JoinPlan.Proofs.Json.Paths

/-!
# Equality of documents

Joins, filters and ordered sets compare documents with `Value.same`, which passes over the order
of the members and the sign of a zero. So it is not equality of values, and this file supplies
that it has the laws of one.

> `Value.Keyed`: on the values whose objects repeat no name, `==` is an equivalence.

What stands in two documents that are the same is told one level at a time (`Agrees`,
`same_iff`): arrays are as long and the same at every place, objects have as many members and each
of the one has its equal under its name in the other. So the laws go from the parts of a value to
the value (`induction_on_parts`). Symmetry needs different names on both sides: as many names as
the others have, all of them among the others, are all of the others (`Members.names_subset`). A
repeated name would be compared with its first value only, and an object with two values for it
would not even be the same as itself.
-/

namespace JoinPlan

namespace Number

/-- The kind of a number and its value. -/
def kindAndValue : Number → Int ⊕ Int
  | .int n => .inl n
  | .float x => .inr x.rank

theorem same_iff {a b : Number} : a.same b = true ↔ a.kindAndValue = b.kindAndValue := by
  cases a <;> cases b <;> simp [same, kindAndValue]

end Number

/-- As many different names as the others, all of them among the others, are all of the others. -/
theorem Members.names_subset {members others : Members} (h : members.Distinct)
    (hlength : members.length = others.length)
    (hsubset : members.map Prod.fst ⊆ others.map Prod.fst) :
    others.map Prod.fst ⊆ members.map Prod.fst := by
  have hperm : (members.map Prod.fst).Perm (others.map Prod.fst) :=
    (List.subperm_of_subset h hsubset).perm_of_length_le (by simp [hlength])
  exact hperm.symm.subset

namespace Value

/-! ## Values and their parts -/

mutual

/-- What goes from the parts of a value to the value holds of all values. -/
theorem induction_on_parts {P : Value → Prop} (h : ∀ v, (∀ part ∈ v.parts, P part) → P v)
    (v : Value) : P v := by
  refine h v ?_
  cases v with
  | array items => exact forall_items_of_parts h items
  | object members => exact forall_values_of_parts h members
  | _ => exact fun part hpart => absurd hpart List.not_mem_nil

theorem forall_items_of_parts {P : Value → Prop} (h : ∀ v, (∀ part ∈ v.parts, P part) → P v)
    (items : List Value) : ∀ item ∈ items, P item := by
  cases items with
  | nil => exact fun item hitem => absurd hitem List.not_mem_nil
  | cons item rest =>
    exact List.forall_mem_cons.mpr ⟨induction_on_parts h item, forall_items_of_parts h rest⟩

theorem forall_values_of_parts {P : Value → Prop} (h : ∀ v, (∀ part ∈ v.parts, P part) → P v)
    (members : List (String × Value)) : ∀ value ∈ members.map Prod.snd, P value := by
  match members with
  | [] => exact fun value hvalue => absurd hvalue List.not_mem_nil
  | (_, value) :: rest =>
    exact List.forall_mem_cons.mpr ⟨induction_on_parts h value, forall_values_of_parts h rest⟩

end

theorem distinctKeysItems_iff {items : List Value} :
    DistinctKeysItems items ↔ ∀ item ∈ items, item.DistinctKeys := by
  induction items with
  | nil => simp [DistinctKeysItems]
  | cons item rest ih => rw [DistinctKeysItems, ih, List.forall_mem_cons]

theorem DistinctKeys.of_mem_parts {v part : Value} (h : v.DistinctKeys) (hpart : part ∈ v.parts) :
    part.DistinctKeys := by
  cases v with
  | array items => exact distinctKeysItems_iff.mp h part hpart
  | object members =>
    obtain ⟨member, hmember, rfl⟩ := List.mem_map.mp hpart
    exact distinctKeysMembers_iff.mp h.2 member hmember
  | _ => exact absurd hpart List.not_mem_nil

/-! ## One level -/

theorem sameItems_iff {items others : List Value} :
    sameItems items others = true ↔ items.length = others.length ∧
      ∀ i (h : i < items.length) (h' : i < others.length), items[i].same others[i] = true := by
  have hforall : sameItems items others = true ↔
      List.Forall₂ (fun a b => a.same b = true) items others := by
    induction items generalizing others with
    | nil => cases others <;> simp [sameItems]
    | cons item rest ih => cases others <;> simp [sameItems, ih]
  rw [hforall, List.forall₂_iff_get]
  rfl

theorem sameMembers_iff {members others : Members} :
    sameMembers members others = true ↔ ∀ name value, (name, value) ∈ members →
      ∃ other, others.get? name = some other ∧ value.same other = true := by
  induction members with
  | nil => simp [sameMembers]
  | cons member rest ih =>
    obtain ⟨key, found⟩ := member
    rw [sameMembers, Bool.and_eq_true, ih]
    cases hother : others.get? key <;> simp [hother, or_imp, forall_and]

/-- Two documents agree in their kind, and what stands in the one is the same as what stands in
the other. -/
inductive Agrees : Value → Value → Prop
  | null : Agrees .null .null
  | bool (b : Bool) : Agrees (.bool b) (.bool b)
  | number {a b : Number} : a.kindAndValue = b.kindAndValue → Agrees (.number a) (.number b)
  | string (s : String) : Agrees (.string s) (.string s)
  | array {items others : List Value} : items.length = others.length →
      (∀ i (h : i < items.length) (h' : i < others.length), items[i].same others[i] = true) →
      Agrees (.array items) (.array others)
  | object {members others : Members} : members.length = others.length →
      (∀ name value, (name, value) ∈ members →
        ∃ other, others.get? name = some other ∧ value.same other = true) →
      Agrees (.object members) (.object others)

theorem same_iff {a b : Value} : a.same b = true ↔ a.Agrees b := by
  constructor
  · intro h
    cases a <;> cases b <;> try exact absurd h Bool.false_ne_true
    case mp.null.null => exact .null
    case mp.bool.bool => exact beq_iff_eq.mp h ▸ .bool _
    case mp.number.number => exact .number (Number.same_iff.mp h)
    case mp.string.string => exact beq_iff_eq.mp h ▸ .string _
    case mp.array.array =>
      obtain ⟨hlength, hsame⟩ := sameItems_iff.mp h
      exact .array hlength hsame
    case mp.object.object =>
      obtain ⟨hlength, hsame⟩ := Bool.and_eq_true_iff.mp h
      exact .object (beq_iff_eq.mp hlength) (sameMembers_iff.mp hsame)
  · intro h
    cases h with
    | null => rfl
    | bool b => exact beq_self_eq_true b
    | number heq => exact Number.same_iff.mpr heq
    | string s => exact beq_self_eq_true s
    | array hlength hsame => exact sameItems_iff.mpr ⟨hlength, hsame⟩
    | object hlength hsame =>
      exact Bool.and_eq_true_iff.mpr ⟨beq_iff_eq.mpr hlength, sameMembers_iff.mpr hsame⟩

/-! ## The laws -/

theorem same_refl {v : Value} (hv : v.DistinctKeys) : v.same v = true := by
  induction v using induction_on_parts with
  | h v ih =>
    replace ih : ∀ part ∈ v.parts, part.same part = true :=
      fun part hpart => ih part hpart (hv.of_mem_parts hpart)
    refine same_iff.mpr ?_
    cases v with
    | null => exact .null
    | bool b => exact .bool b
    | number n => exact .number rfl
    | string s => exact .string s
    | array items => exact .array rfl fun i h _ => ih _ (List.getElem_mem h)
    | object members =>
      refine .object rfl fun name value hmem => ⟨value, ?_, ?_⟩
      · exact (Members.get?_eq_some_iff hv.1).mpr hmem
      · exact ih value (List.mem_map_of_mem hmem)

theorem same_symm {a b : Value} (ha : a.DistinctKeys) (hb : b.DistinctKeys)
    (h : a.same b = true) : b.same a = true := by
  induction a using induction_on_parts generalizing b with
  | h a ih =>
    replace ih : ∀ part ∈ a.parts, ∀ other ∈ b.parts, part.same other = true →
        other.same part = true := fun part hpart other hother =>
      ih part hpart (ha.of_mem_parts hpart) (hb.of_mem_parts hother)
    refine same_iff.mpr ?_
    cases same_iff.mp h with
    | null => exact .null
    | bool b => exact .bool b
    | number heq => exact .number heq.symm
    | string s => exact .string s
    | array hlength hsame =>
      refine .array hlength.symm fun i hi hi' => ?_
      exact ih _ (List.getElem_mem hi') _ (List.getElem_mem hi) (hsame i hi' hi)
    | @object members others hlength hsame =>
      have hnames : members.map Prod.fst ⊆ others.map Prod.fst := by
        intro name hname
        obtain ⟨⟨name, value⟩, hmem, rfl⟩ := List.mem_map.mp hname
        obtain ⟨other, hother, -⟩ := hsame name value hmem
        have hin := (Members.get?_eq_some_iff hb.1).mp hother
        exact List.mem_map.mpr ⟨(name, other), hin, rfl⟩
      refine .object hlength.symm fun name other hother => ?_
      have hname := Members.names_subset ha.1 hlength hnames (List.mem_map_of_mem hother)
      obtain ⟨⟨name, value⟩, hvalue, rfl⟩ := List.mem_map.mp hname
      refine ⟨value, (Members.get?_eq_some_iff ha.1).mpr hvalue, ?_⟩
      -- The name stands for one value among the others.
      obtain ⟨found, hfound, hequal⟩ := hsame name value hvalue
      have hunique := hfound.symm.trans ((Members.get?_eq_some_iff hb.1).mpr hother)
      obtain rfl : found = other := Option.some.inj hunique
      exact ih value (List.mem_map_of_mem hvalue) found (List.mem_map_of_mem hother) hequal

theorem same_trans {a b c : Value} (hb : b.DistinctKeys) (hab : a.same b = true)
    (hbc : b.same c = true) : a.same c = true := by
  induction a using induction_on_parts generalizing b c with
  | h a ih =>
    replace ih : ∀ part ∈ a.parts, ∀ other ∈ b.parts, ∀ third, part.same other = true →
        other.same third = true → part.same third = true := fun part hpart other hother _ =>
      ih part hpart (hb.of_mem_parts hother)
    refine same_iff.mpr ?_
    cases same_iff.mp hab with
    | null => exact same_iff.mp hbc
    | bool b => exact same_iff.mp hbc
    | number heq =>
      cases same_iff.mp hbc with
      | number heq' => exact .number (heq.trans heq')
    | string s => exact same_iff.mp hbc
    | array hlength hsame =>
      cases same_iff.mp hbc with
      | array hlength' hsame' =>
        refine .array (hlength.trans hlength') fun i hi hi' => ?_
        have hmiddle : i < _ := hlength ▸ hi
        exact ih _ (List.getElem_mem hi) _ (List.getElem_mem hmiddle) _ (hsame i hi hmiddle)
          (hsame' i hmiddle hi')
    | object hlength hsame =>
      cases same_iff.mp hbc with
      | object hlength' hsame' =>
        refine .object (hlength.trans hlength') fun name value hvalue => ?_
        obtain ⟨other, hother, hequal⟩ := hsame name value hvalue
        have hin := (Members.get?_eq_some_iff hb.1).mp hother
        obtain ⟨third, hthird, hequal'⟩ := hsame' name other hin
        exact ⟨third, hthird, ih value (List.mem_map_of_mem hvalue) other
          (List.mem_map_of_mem hin) third hequal hequal'⟩

/-- A value in which no object repeats a name. -/
abbrev Keyed : Type := { v : Value // v.DistinctKeys }

/-- Documents whose names are different are compared by an equality. -/
instance : EquivBEq Keyed where
  rfl {v} := same_refl v.2
  symm {v w} h := same_symm v.2 w.2 h
  trans {_ w _} h h' := same_trans w.2 h h'

end Value

end JoinPlan
