import JoinPlan.Proofs.Filter.Criteria

/-!
# The first fault of a filter

Reading a filter fails at the first operand that its type does not accept. This file
supplies which one that is, apart from what is compiled on the way.

> `castFault?`: the failure that a token would be refused with, if it is.

A loop whose steps fail for reasons of their own fails with the first of these
(`faultOf_mapM`, `faultOf_foldlM`), so the fault of tokens is the first among the tokens'
(`faultOf_ofTokens`) and the fault of criteria the first among the entries'
(`faultOf_ofFilter`).
-/

namespace JoinPlan

/-! ## Loops that fail -/

/-- What a computation fails with, if it fails. -/
def faultOf {ε α : Type} : Except ε α → Option ε
  | .ok _ => none
  | .error e => some e

section FaultOf

variable {ε α β : Type}

theorem faultOf_eq_some_iff {x : Except ε α} {e : ε} : faultOf x = some e ↔ x = .error e := by
  cases x <;> simp [faultOf]

theorem faultOf_eq_none_iff {x : Except ε α} : faultOf x = none ↔ ∃ a, x = .ok a := by
  cases x <;> simp [faultOf]

theorem faultOf_map (f : α → β) (x : Except ε α) : faultOf (x.map f) = faultOf x := by
  cases x <;> rfl

theorem faultOf_mapError {φ : Type} (f : ε → φ) (x : Except ε α) :
    faultOf (x.mapError f) = (faultOf x).map f := by
  cases x <;> rfl

/-- A loop over a list fails with the first failure. -/
theorem faultOf_mapM (f : α → Except ε β) (xs : List α) :
    faultOf (xs.mapM f) = xs.findSome? fun x => faultOf (f x) := by
  induction xs with
  | nil => rfl
  | cons x rest ih =>
    rw [List.mapM_cons, List.findSome?_cons]
    cases hx : f x with
    | error e => rfl
    | ok y =>
      rw [← ih]
      cases rest.mapM f <;> rfl

/-- A loop with a state fails with the first failure, when the state has no part in it. -/
theorem faultOf_foldlM {σ φ : Type} {step : σ → α → Except ε σ} {cause : ε → φ}
    {fault? : α → Option φ} (hstep : ∀ s x, (faultOf (step s x)).map cause = fault? x)
    (xs : List α) (s : σ) :
    (faultOf (xs.foldlM step s)).map cause = xs.findSome? fault? := by
  -- For any state, since a step that ends well hands over another one.
  induction xs generalizing s with
  | nil => rfl
  | cons x rest ih =>
    rw [List.foldlM_cons, List.findSome?_cons, ← hstep s x]
    cases hx : step s x with
    | error e => rfl
    | ok s' => exact ih s'

end FaultOf

namespace Condition

/-! ## Tokens -/

/-- What follows the operator of a token. -/
def operandOf (token : String) : String := String.ofList (Operator.ofChars token.toList).2

/-- The failure of a token under a type, in the name of an owner. -/
def castFault? (owner : String) (type : Option ScalarType) (token : String) :
    Option CastFailure :=
  type.bind fun type =>
    if type.cast? (operandOf token) = none then some ⟨owner, type.name, operandOf token⟩ else none

/-- A token is refused for an operand that its type does not accept. -/
theorem isSome_castFault?_iff {owner : String} {type : Option ScalarType} {token : String} :
    (castFault? owner type token).isSome ↔
      ∃ scalar, type = some scalar ∧ scalar.cast? (operandOf token) = none := by
  cases type with
  | none => simp [castFault?]
  | some scalar =>
    by_cases hcast : scalar.cast? (operandOf token) = none <;> simp [castFault?, hcast]

theorem faultOf_ofToken (token : String) (type : Option ScalarType) :
    faultOf (Predicate.ofToken token type) = castFault? "" type token := by
  show faultOf ((castOr type (operandOf token)).map _) = _
  rw [faultOf_map]
  cases type with
  | none => rfl
  | some scalar =>
    unfold castOr castFault?
    cases hcast : scalar.cast? (operandOf token) <;> simp [faultOf, hcast]

/-- Tokens are refused for the first one that is. -/
theorem faultOf_ofTokens (path : String) (tokens : List String) (type : Option ScalarType) :
    faultOf (ofTokens path tokens type) = tokens.findSome? (castFault? "" type) := by
  have hpredicates : faultOf (tokens.mapM (Predicate.ofToken · type)) =
      tokens.findSome? (castFault? "" type) := by
    rw [faultOf_mapM]
    simp only [faultOf_ofToken]
  rw [← hpredicates]
  exact faultOf_map (fun predicates => disj (predicates.map (.field path)))
    (tokens.mapM (Predicate.ofToken · type))

/-- The refusal is in the name of the owner, since a cast knows of none. -/
theorem faultOf_ofTokens_orField (path owner : String) (tokens : List String)
    (type : Option ScalarType) :
    faultOf ((ofTokens path tokens type).mapError (·.orField owner)) =
      tokens.findSome? (castFault? owner type) := by
  rw [faultOf_mapError, faultOf_ofTokens, List.map_findSome?]
  congr 1
  funext token
  unfold castFault?
  cases type with
  | none => rfl
  | some scalar =>
    simp only [Function.comp_apply, Option.bind_some]
    split <;> rfl

/-! ## Criteria -/

/-- The failure of a filter entry on the type's own documents. -/
def entryFault? (schema : Schema) (entry : String × FilterValue) : Option CastFailure := do
  let (_, type) ← slot? schema entry.1
  match entry.2.tokens? with
  | some tokens => tokens.findSome? (castFault? entry.1 type)
  | none => type.map fun type => ⟨entry.1, type.name, "<object>"⟩

theorem faultOf_ofEntry (schema : Schema) (entry : String × FilterValue) :
    faultOf (ofEntry schema entry.1 entry.2) = entryFault? schema entry := by
  unfold entryFault?
  cases hslot : slot? schema entry.1 with
  | none =>
    rw [ofEntry_of_slot_none hslot]
    rfl
  | some slot =>
    obtain ⟨path, type⟩ := slot
    rw [ofEntry_of_slot hslot]
    simp only [Option.bind_eq_bind, Option.bind_some]
    cases htokens : entry.2.tokens? with
    | none => cases type <;> rfl
    | some tokens =>
      cases tokens with
      | nil => rfl
      | cons token rest =>
        simp only
        rw [faultOf_map, faultOf_ofTokens_orField]

/-- Criteria are refused for the first entry that is, in the order of the keys. -/
theorem faultOf_ofFilter (schema : Schema) (filter : Filter) :
    faultOf (ofFilter schema filter) = filter.entries.findSome? (entryFault? schema) := by
  -- Over whole entries, as `faultOf_ofEntry` is stated.
  have hofFilter : ofFilter schema filter =
      (filter.entries.mapM fun entry => ofEntry schema entry.1 entry.2).map fun conditions =>
        conj (conditions.filterMap id) := rfl
  rw [hofFilter, faultOf_map, faultOf_mapM]
  simp only [faultOf_ofEntry]

end Condition

end JoinPlan
