import JoinPlan.Binary64.Round

/-!
# JSON values

A number is an integer or a double, and the two stay apart: `1` and `1.0` are
different numbers with the same value. An object is the list of its members in
the order of insertion. Texts and all operations of the library make objects
with pairwise different keys only (`Value.DistinctKeys`); reading takes the
first member of a name.

`Value.same` is equality of documents: the order of the members does not
count, an integer never equals a double, and doubles are equal when their values
are. `Number.rank` is the other comparison, by value: an integer stands for the
double nearest to it.
-/

namespace JoinPlan

/-- A JSON number. The integers met in texts have at most 64 bits. -/
inductive Number where
  | int (n : Int)
  | float (x : Binary64)
deriving DecidableEq

namespace Number

/-- The key that orders numbers by value, integers rounded to a double first. -/
def rank : Number → Int
  | .int n =>
    let bits : Int := Binary64.nearest n.natAbs 1
    if n < 0 then -bits else bits
  | .float x => x.rank

/-- Whether two numbers are the same document: the same kind and value. -/
def same : Number → Number → Bool
  | .int a, .int b => a == b
  | .float x, .float y => x.rank == y.rank
  | _, _ => false

end Number

/-- A JSON value. -/
inductive Value where
  | null
  | bool (b : Bool)
  | number (n : Number)
  | string (s : String)
  | array (items : List Value)
  | object (members : List (String × Value))

instance : Inhabited Value := ⟨.null⟩

/-- The members of an object, in the order of insertion. -/
abbrev Members := List (String × Value)

namespace Members

/-- The value of the first member with this name. -/
def get? : Members → String → Option Value
  | [], _ => none
  | (name, value) :: rest, key => if name = key then some value else get? rest key

/-- Whether a member has this name. -/
def has (members : Members) (key : String) : Bool :=
  (members.get? key).isSome

/-- Sets a member: in place when the name is there, at the end when it is new. -/
def insert : Members → String → Value → Members
  | [], key, value => [(key, value)]
  | (name, old) :: rest, key, value =>
    if name = key then (key, value) :: rest else (name, old) :: insert rest key value

/-- Sets every member of `changes` in turn. -/
def insertAll (members changes : Members) : Members :=
  changes.foldl (fun acc (key, value) => acc.insert key value) members

/-- Takes a member out; the last member moves into its place. -/
def remove : Members → String → Members
  | [], _ => []
  | (name, value) :: rest, key =>
    if name = key then
      match rest.getLast? with
      | none => []
      | some last => last :: rest.dropLast
    else (name, value) :: remove rest key

/-- Members in order, where a repeated name keeps its first place and takes its
last value. -/
def ofList (entries : List (String × Value)) : Members :=
  insertAll [] entries

end Members

mutual

/-- Equality of documents, whatever the order of the members. -/
def Value.same : Value → Value → Bool
  | .null, .null => true
  | .bool a, .bool b => a == b
  | .number a, .number b => a.same b
  | .string a, .string b => a == b
  | .array as, .array bs => Value.sameItems as bs
  | .object as, .object bs => as.length == bs.length && Value.sameMembers as bs
  | _, _ => false

/-- Equality of arrays, item by item. -/
def Value.sameItems : List Value → List Value → Bool
  | [], [] => true
  | a :: as, b :: bs => Value.same a b && Value.sameItems as bs
  | _, _ => false

/-- Whether every one of the members has its equal among the others. -/
def Value.sameMembers : List (String × Value) → Members → Bool
  | [], _ => true
  | (key, a) :: rest, others =>
    (match others.get? key with
      | some b => Value.same a b
      | none => false) && Value.sameMembers rest others

end

instance : BEq Value := ⟨Value.same⟩

namespace Value

/-- The members of an object. -/
def members? : Value → Option Members
  | .object members => some members
  | _ => none

/-- The text of a string. -/
def text? : Value → Option String
  | .string s => some s
  | _ => none

/-- The value of a member, when the value is an object that has it. -/
def get? (v : Value) (key : String) : Option Value :=
  v.members?.bind (·.get? key)

/-- Whether the value is an object. -/
def isObject (v : Value) : Bool := v.members?.isSome

/-- An integer as a value. -/
def ofInt (n : Int) : Value := .number (.int n)

/-- A text, or null where there is none. -/
def ofText? : Option String → Value
  | some s => .string s
  | none => .null

/-- A list of texts as an array. -/
def ofTexts (texts : List String) : Value := .array (texts.map .string)

end Value

mutual

/-- In every object inside the value the names are pairwise different. -/
def Value.DistinctKeys : Value → Prop
  | .array items => Value.DistinctKeysItems items
  | .object members => (members.map Prod.fst).Nodup ∧ Value.DistinctKeysMembers members
  | _ => True

/-- `Value.DistinctKeys` of every item. -/
def Value.DistinctKeysItems : List Value → Prop
  | [] => True
  | item :: rest => item.DistinctKeys ∧ Value.DistinctKeysItems rest

/-- `Value.DistinctKeys` of every member's value. -/
def Value.DistinctKeysMembers : List (String × Value) → Prop
  | [] => True
  | (_, value) :: rest => value.DistinctKeys ∧ Value.DistinctKeysMembers rest

end

namespace Members

theorem get?_insert_self (members : Members) (key : String) (value : Value) :
    (members.insert key value).get? key = some value := by
  induction members with
  | nil => simp [insert, get?]
  | cons entry rest ih =>
    obtain ⟨name, old⟩ := entry
    by_cases h : name = key <;> simp [insert, get?, h, ih]

theorem get?_insert_of_ne {key other : String} (h : other ≠ key) (members : Members)
    (value : Value) : (members.insert key value).get? other = members.get? other := by
  induction members with
  | nil => simp [insert, get?, Ne.symm h]
  | cons entry rest ih =>
    obtain ⟨name, old⟩ := entry
    by_cases hk : name = key
    · subst hk
      simp [insert, get?, Ne.symm h]
    · by_cases ho : name = other
      · subst ho
        simp [insert, get?, hk]
      · simp [insert, get?, hk, ho, ih]

end Members

end JoinPlan
