import Mathlib.Data.List.Induction
import JoinPlan.Json.Lookup

/-!
# Objects with different names

An object whose names differ answers as a map does. Taking a member out moves the
last one into its place, and still every other name keeps its value:
`get?_remove_of_ne`. So the members may be compared as a set, which is what
`get?_eq_some_iff` says. Members made of entries keep of a repeated name the first place
(`names_ofList`) and the last value (`get?_ofList`).

`lookup_under` is the frame of a dotted path: a path that begins with a plain name
reads that member of an object and no other.
-/

namespace JoinPlan

namespace Members

/-- The names are pairwise different. -/
def Distinct (members : Members) : Prop := (members.map Prod.fst).Nodup

/-- A member is found by its name exactly when it is one of the members. -/
theorem get?_eq_some_iff {members : Members} (h : members.Distinct) {key : String}
    {value : Value} : members.get? key = some value ↔ (key, value) ∈ members := by
  induction members with
  | nil => simp [get?]
  | cons entry rest ih =>
    obtain ⟨name, old⟩ := entry
    obtain ⟨hfresh, hrest⟩ := List.nodup_cons.mp h
    by_cases hname : name = key
    · subst hname
      have hout : (name, value) ∉ rest := fun hmem =>
        hfresh (List.mem_map.mpr ⟨_, hmem, rfl⟩)
      simp [get?, hout, eq_comm]
    · simp [get?, hname, Ne.symm hname, ih hrest]

/-- Members in another order answer alike. -/
theorem get?_congr_perm {members others : Members} (h : members.Distinct)
    (hperm : members.Perm others) (key : String) : members.get? key = others.get? key := by
  have hothers : others.Distinct := (hperm.map Prod.fst).nodup_iff.mp h
  refine Option.ext fun value => ?_
  rw [get?_eq_some_iff h, get?_eq_some_iff hothers]
  exact hperm.mem_iff

theorem get?_reverse {members : Members} (h : members.Distinct) (key : String) :
    get? members.reverse key = members.get? key :=
  (get?_congr_perm h (List.reverse_perm members).symm key).symm

/-- Up to order, `remove` drops the members of that name. -/
theorem remove_perm {members : Members} (h : members.Distinct) (key : String) :
    (members.remove key).Perm (members.filter fun entry => !(entry.1 == key)) := by
  induction members with
  | nil => exact .nil
  | cons entry rest ih =>
    obtain ⟨name, value⟩ := entry
    obtain ⟨hfresh, hrest⟩ := List.nodup_cons.mp h
    by_cases hname : name = key
    · subst hname
      have hkeep : (rest.filter fun entry => !(entry.1 == name)) = rest := by
        refine List.filter_eq_self.mpr fun entry hentry => ?_
        have hne : entry.1 ≠ name := fun e => hfresh (e ▸ List.mem_map.mpr ⟨_, hentry, rfl⟩)
        simp [hne]
      -- The last member moves into the gap, unless the gap is at the end.
      simp only [remove, if_true, beq_self_eq_true, Bool.not_true, Bool.false_eq_true,
        not_false_eq_true, List.filter_cons_of_neg, hkeep]
      cases hlast : rest.getLast? with
      | none => rw [List.getLast?_eq_none_iff.mp hlast]
      | some last =>
        have hne : rest ≠ [] := fun e => by simp [e] at hlast
        have hend : rest.getLast hne = last := by
          rw [List.getLast?_eq_some_getLast hne] at hlast
          exact Option.some.inj hlast
        have hsplit := List.dropLast_concat_getLast hne
        rw [hend] at hsplit
        have hmove : (last :: rest.dropLast).Perm (rest.dropLast ++ [last]) :=
          (List.perm_append_singleton last rest.dropLast).symm
        rwa [hsplit] at hmove
    · have hbeq : (name == key) = false := beq_eq_false_iff_ne.mpr hname
      simp only [remove, if_neg hname, hbeq, Bool.not_false, List.filter_cons_of_pos]
      exact (ih hrest).cons _

/-- Every other name keeps its value. -/
theorem get?_remove_of_ne {members : Members} (h : members.Distinct) {key other : String}
    (hne : other ≠ key) : (members.remove key).get? other = members.get? other := by
  have hkept : Distinct (members.filter fun entry => !(entry.1 == key)) :=
    h.sublist (List.filter_sublist.map _)
  rw [← get?_congr_perm hkept (remove_perm h key).symm]
  refine Option.ext fun value => ?_
  rw [get?_eq_some_iff hkept, get?_eq_some_iff h]
  simp [hne]

theorem distinct_remove {members : Members} (h : members.Distinct) (key : String) :
    (members.remove key).Distinct :=
  ((remove_perm h key).map Prod.fst).nodup_iff.mpr (h.sublist (List.filter_sublist.map _))

/-- The name that is taken out has no value. -/
theorem get?_remove_self {members : Members} (h : members.Distinct) (key : String) :
    (members.remove key).get? key = none := by
  refine Option.eq_none_iff_forall_ne_some.mpr fun value hvalue => ?_
  have hmem := (get?_eq_some_iff (distinct_remove h key)).mp hvalue
  have hkept := (remove_perm h key).mem_iff.mp hmem
  simp at hkept

/-- A value under a name is that of a member. -/
theorem mem_of_get?_eq_some {members : Members} {key : String} {value : Value}
    (h : members.get? key = some value) : (key, value) ∈ members := by
  induction members with
  | nil => cases h
  | cons entry rest ih =>
    obtain ⟨name, old⟩ := entry
    rw [get?] at h
    by_cases hname : name = key
    · rw [if_pos hname] at h
      obtain rfl := Option.some.inj h
      exact hname ▸ List.mem_cons_self
    · rw [if_neg hname] at h
      exact List.mem_cons_of_mem _ (ih h)

/-- A name without a value is the name of no member. -/
theorem notMem_of_get?_eq_none {members : Members} {key : String} (h : members.get? key = none)
    (value : Value) : (key, value) ∉ members := by
  induction members with
  | nil => exact List.not_mem_nil
  | cons entry rest ih =>
    obtain ⟨name, old⟩ := entry
    rw [get?] at h
    by_cases hname : name = key
    · rw [if_pos hname] at h
      cases h
    · rw [if_neg hname] at h
      intro hmem
      rcases List.mem_cons.mp hmem with heq | hrest
      · exact hname (congrArg Prod.fst heq).symm
      · exact ih h hrest

theorem get?_insert (members : Members) (key other : String) (value : Value) :
    (members.insert key value).get? other =
      if other = key then some value else members.get? other := by
  by_cases hother : other = key
  · rw [if_pos hother, hother, get?_insert_self]
  · rw [if_neg hother, get?_insert_of_ne hother]

/-- Of members put one behind the other, the first of a name counts. -/
theorem get?_append (members others : Members) (key : String) :
    get? (members ++ others) key = (members.get? key).or (others.get? key) := by
  induction members with
  | nil => rfl
  | cons entry rest ih =>
    obtain ⟨name, value⟩ := entry
    rw [List.cons_append, get?, get?]
    by_cases hname : name = key
    · rw [if_pos hname, if_pos hname]
      rfl
    · rw [if_neg hname, if_neg hname]
      exact ih

/-- After changes, the last of them under a name counts, before what was there. -/
theorem get?_insertAll_reverse (members changes : Members) (key : String) :
    (members.insertAll changes).get? key =
      (get? changes.reverse key).or (members.get? key) := by
  induction changes generalizing members with
  | nil => rfl
  | cons change rest ih =>
    obtain ⟨name, new⟩ := change
    have hinsert : (members.insert name new).get? key =
        (get? [(name, new)] key).or (members.get? key) := by
      by_cases hname : name = key
      · subst hname
        rw [get?_insert_self, get?, if_pos rfl]
        rfl
      · rw [get?_insert_of_ne (Ne.symm hname), get?, if_neg hname]
        rfl
    refine (ih (members.insert name new)).trans ?_
    rw [hinsert, List.reverse_cons, get?_append, Option.or_assoc]

/-- After changes, a value is one of theirs or was there before. -/
theorem mem_or_get?_of_get?_insertAll {members changes : Members} {key : String} {value : Value}
    (h : (members.insertAll changes).get? key = some value) :
    (key, value) ∈ changes ∨ members.get? key = some value := by
  rw [get?_insertAll_reverse] at h
  rcases Option.or_eq_some_iff.mp h with hchange | ⟨-, hbefore⟩
  · exact .inl (List.mem_reverse.mp (mem_of_get?_eq_some hchange))
  · exact .inr hbefore

/-- Changes keep the value of a name that they do not mention. -/
theorem get?_insertAll_of_notMem {changes : Members} {key : String}
    (h : ∀ value, (key, value) ∉ changes) (members : Members) :
    (members.insertAll changes).get? key = members.get? key := by
  have hnone : get? changes.reverse key = none :=
    Option.eq_none_iff_forall_ne_some.mpr fun value hvalue =>
      h value (List.mem_reverse.mp (mem_of_get?_eq_some hvalue))
  rw [get?_insertAll_reverse, hnone, Option.none_or]

/-- Setting a member adds its name at the end, if it is new. -/
theorem names_insert (members : Members) (key : String) (value : Value) :
    (members.insert key value).map Prod.fst =
      if key ∈ members.map Prod.fst then members.map Prod.fst
      else members.map Prod.fst ++ [key] := by
  induction members with
  | nil => simp [insert]
  | cons entry rest ih =>
    obtain ⟨name, old⟩ := entry
    by_cases hname : name = key
    · simp [insert, hname]
    · have hne : ¬key = name := fun e => hname e.symm
      simp only [insert, if_neg hname, List.map_cons, ih, List.mem_cons, hne, false_or]
      split <;> rfl

theorem distinct_insert {members : Members} (h : members.Distinct) (key : String)
    (value : Value) : (members.insert key value).Distinct := by
  unfold Distinct
  rw [names_insert]
  split
  · exact h
  · next hnew =>
    refine List.nodup_append.mpr ⟨h, List.nodup_cons.mpr ⟨by simp, .nil⟩, ?_⟩
    intro name hname other hother e
    rw [e, List.mem_singleton.mp hother] at hname
    exact hnew hname

theorem distinct_insertAll {members : Members} (h : members.Distinct) (changes : Members) :
    (members.insertAll changes).Distinct := by
  induction changes generalizing members with
  | nil => exact h
  | cons change rest ih => exact ih (distinct_insert h change.1 change.2)

/-! ## Members from entries -/

theorem ofList_append_singleton (entries : List (String × Value)) (entry : String × Value) :
    ofList (entries ++ [entry]) = (ofList entries).insert entry.1 entry.2 := by
  unfold ofList insertAll
  rw [List.foldl_append]
  rfl

theorem distinct_ofList (entries : List (String × Value)) : (ofList entries).Distinct :=
  distinct_insertAll (show Distinct [] from List.nodup_nil) entries

/-- A name keeps its first place. -/
theorem names_ofList (entries : List (String × Value)) :
    (ofList entries).map Prod.fst = (entries.map Prod.fst).eraseDups := by
  induction entries using List.reverseRecOn with
  | nil => rfl
  | append_singleton front last ih =>
    rw [ofList_append_singleton, names_insert, ih, List.map_append, List.eraseDups_append]
    by_cases hlast : last.1 ∈ front.map Prod.fst
    · rw [if_pos (List.mem_eraseDups.mpr hlast)]
      simp [List.removeAll, hlast]
    · rw [if_neg (mt List.mem_eraseDups.mp hlast)]
      simp [List.removeAll, hlast, List.eraseDups_cons]

/-- A name takes its last value. -/
theorem get?_ofList (entries : List (String × Value)) (key : String) :
    (ofList entries).get? key = Members.get? entries.reverse key := by
  induction entries using List.reverseRecOn with
  | nil => rfl
  | append_singleton front last ih =>
    rw [ofList_append_singleton, List.reverse_append, List.reverse_singleton,
      List.singleton_append, get?]
    by_cases hlast : last.1 = key
    · rw [if_pos hlast, ← hlast, get?_insert_self]
    · rw [if_neg hlast, get?_insert_of_ne (Ne.symm hlast), ih]

theorem mem_of_mem_ofList {entries : List (String × Value)} {entry : String × Value}
    (h : entry ∈ ofList entries) : entry ∈ entries := by
  have hget := (get?_eq_some_iff (distinct_ofList entries)).mpr h
  rcases mem_or_get?_of_get?_insertAll hget with hmem | hnil
  · exact hmem
  · cases hnil

end Members

namespace Value

/-- An object whose names differ; nothing is asked of the values inside. -/
def IsRecord : Value → Prop
  | .object members => Members.Distinct members
  | _ => False

theorem isRecord_of_distinctKeys {v : Value} (hobject : v.isObject) (hkeys : v.DistinctKeys) :
    v.IsRecord := by
  cases v with
  | object members =>
    rw [DistinctKeys] at hkeys
    exact hkeys.1
  | _ => cases hobject

theorem IsRecord.isObject {v : Value} (h : v.IsRecord) : v.isObject := by
  cases v with
  | object members => rfl
  | _ => exact h.elim

/-- A plain name is the whole of its path. -/
theorem pathNames_of_plain {key : String} (h : '.' ∉ key.toList) : pathNames key = [key] :=
  Text.split_of_not_mem h

/-- Below a plain name, an object is read at the member of that name. -/
theorem lookup_under {key : String} (h : '.' ∉ key.toList) (members : Members) (rest : String) :
    (Value.object members).lookup (key ++ "." ++ rest) =
      (members.get? key).toList.flatMap (·.lookup rest) := by
  rw [lookup_joined]
  simp only [lookup, pathNames_of_plain h, walk, step, List.flatMap_singleton']

/-- Objects that agree at a plain name agree at every path below it. -/
theorem lookup_under_congr {key : String} (h : '.' ∉ key.toList) {v w : Value}
    (hv : v.isObject) (hw : w.isObject) (hkey : v.get? key = w.get? key) (rest : String) :
    v.lookup (key ++ "." ++ rest) = w.lookup (key ++ "." ++ rest) := by
  cases v with
  | object members =>
    cases w with
    | object others =>
      rw [lookup_under h, lookup_under h]
      exact congrArg (fun found => found.toList.flatMap (·.lookup rest)) hkey
    | _ => cases hw
  | _ => cases hv

end Value

end JoinPlan
