import Mathlib.Data.List.Forall2
import JoinPlan.Filter.Criteria

/-!
# What the condition of tokens asks

The condition that tokens put on a path is an alternative of predicates at that path.
It reads nothing but the path (`eq_of_mem_paths_ofTokens`), and it holds when one of the
tokens does (`holds_ofTokens`), however few alternatives there are: `disj` drops the
alternative around a single part and around one that always holds, and `holds_disj` says
that neither shows.
-/

namespace JoinPlan

/-- A loop over a list that ends well has a result for each element. -/
theorem forall₂_of_mapM_ok {ε α β : Type} {f : α → Except ε β} {xs : List α} {ys : List β}
    (h : xs.mapM f = .ok ys) : List.Forall₂ (fun x y => f x = .ok y) xs ys := by
  induction xs generalizing ys with
  | nil =>
    obtain rfl := Except.ok.inj h
    exact .nil
  | cons x rest ih =>
    rw [List.mapM_cons] at h
    simp only [bind, Except.bind, pure, Except.pure] at h
    split at h
    · cases h
    · next y hy =>
      split at h
      · cases h
      · next others hothers =>
        obtain rfl := Except.ok.inj h
        exact .cons hy (ih hothers)

namespace Condition

mutual

/-- The paths that a condition reads. -/
def paths : Condition → List String
  | .always => []
  | .field path _ => [path]
  | .allOf parts => partsPaths parts
  | .anyOf parts => partsPaths parts

/-- The paths that the parts read. -/
def partsPaths : List Condition → List String
  | [] => []
  | part :: rest => part.paths ++ partsPaths rest

end

theorem partsPaths_eq_flatMap (parts : List Condition) :
    partsPaths parts = parts.flatMap paths := by
  induction parts with
  | nil => rfl
  | cons part rest ih => rw [partsPaths, ih, List.flatMap_cons]

/-- Alternatives read what one of them reads. -/
theorem exists_of_mem_paths_disj {parts : List Condition} {path : String}
    (h : path ∈ (disj parts).paths) : ∃ part ∈ parts, path ∈ part.paths := by
  unfold disj at h
  split at h
  · simp [paths] at h
  · split at h
    · next part _ => exact ⟨part, List.mem_cons_self, h⟩
    · rw [paths, partsPaths_eq_flatMap] at h
      exact List.mem_flatMap.mp h

theorem holds_of_isAlways [PatternLimit] {part : Condition} (h : part.isAlways) (document : Value) :
    part.holds document = true := by
  cases part with
  | always => rw [holds]
  | _ => cases h

/-- Alternatives hold when one of them does. -/
theorem holds_disj [PatternLimit] (document : Value) (parts : List Condition) :
    (disj parts).holds document = parts.any (·.holds document) := by
  unfold disj
  split
  · next halways =>
    obtain ⟨part, hpart, hall⟩ := List.any_eq_true.mp halways
    rw [holds]
    exact (List.any_eq_true.mpr ⟨part, hpart, holds_of_isAlways hall document⟩).symm
  · split
    · next part _ => simp
    · rw [holds, someHolds_eq_any]

/-- The condition of tokens is an alternative of predicates at the path. -/
theorem exists_predicates_of_ofTokens {path : String} {tokens : List String}
    {type : Option ScalarType} {condition : Condition}
    (h : ofTokens path tokens type = .ok condition) :
    ∃ predicates, tokens.mapM (Predicate.ofToken · type) = .ok predicates ∧
      condition = disj (predicates.map (.field path)) := by
  unfold ofTokens at h
  simp only [bind, Except.bind, pure, Except.pure] at h
  split at h
  · cases h
  · next predicates hpredicates => exact ⟨predicates, hpredicates, (Except.ok.inj h).symm⟩

/-- The condition of tokens reads nothing but the path. -/
theorem eq_of_mem_paths_ofTokens {path : String} {tokens : List String}
    {type : Option ScalarType} {condition : Condition}
    (h : ofTokens path tokens type = .ok condition) {read : String}
    (hread : read ∈ condition.paths) :
    read = path := by
  obtain ⟨predicates, -, rfl⟩ := exists_predicates_of_ofTokens h
  obtain ⟨part, hpart, hread⟩ := exists_of_mem_paths_disj hread
  obtain ⟨predicate, -, rfl⟩ := List.mem_map.mp hpart
  exact List.mem_singleton.mp hread

/-- Whether a token says something true of a value at the path. -/
def tokenHolds [PatternLimit] (path : String) (type : Option ScalarType) (document : Value)
    (token : String) : Bool :=
  match Predicate.ofToken token type with
  | .ok predicate => (document.lookup path).any predicate.holds
  | .error _ => false

/-- The condition of tokens holds when one of the tokens does. -/
theorem holds_ofTokens [PatternLimit] {path : String} {tokens : List String}
    {type : Option ScalarType}
    {condition : Condition} (h : ofTokens path tokens type = .ok condition) (document : Value) :
    condition.holds document = tokens.any (tokenHolds path type document) := by
  obtain ⟨predicates, hpredicates, rfl⟩ := exists_predicates_of_ofTokens h
  rw [holds_disj, List.any_map]
  -- The predicates come from the tokens one by one.
  have hread := forall₂_of_mapM_ok hpredicates
  clear h hpredicates
  induction hread with
  | nil => rfl
  | cons hpredicate _ ih =>
    rw [List.any_cons, List.any_cons, ih]
    simp only [tokenHolds, hpredicate, Function.comp_apply, holds]

end Condition

end JoinPlan
