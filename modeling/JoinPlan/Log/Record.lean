import JoinPlan.Log.Event

/-!
# Log records

One call makes one record. The fields `type`, `code` and `reason` have a place of
their own, where the last of a name counts; the others are kept in the order of
their keys, and fields of one key in the order given.
-/

namespace JoinPlan.Log

/-- The fields of a record as given: keys and values. -/
abbrev Fields := List (String × String)

/-- A log record. -/
structure Record where
  level : Level
  event : String
  resourceType : Option String
  code : Option String
  reason : Option String
  fields : Fields
deriving DecidableEq, Repr

namespace Record

/-- The last value under a key. -/
def lastOf (key : String) (fields : Fields) : Option String :=
  (fields.reverse.find? (·.1 = key)).map Prod.snd

/-- Whether a key has no place of its own. -/
def isPlain (key : String) : Bool := key ≠ "type" && key ≠ "code" && key ≠ "reason"

/-- The record of a call. -/
def make (level : Level) (event : String) (fields : Fields) : Record where
  level := level
  event := event
  resourceType := lastOf "type" fields
  code := lastOf "code" fields
  reason := lastOf "reason" fields
  fields := (fields.filter (isPlain ·.1)).mergeSort fun a b => !decide (b.1 < a.1)

/-- The record of an event at its own level. -/
def ofEvent (event : Event) (fields : Fields) : Record :=
  make event.level event.name fields

/-- A record keeps the plain fields that it was given. -/
theorem mem_fields_make {level : Level} {event key value : String} {fields : Fields} :
    (key, value) ∈ (make level event fields).fields ↔
      (key, value) ∈ fields ∧ isPlain key = true := by
  unfold make
  rw [List.mem_mergeSort, List.mem_filter]

/-- A record, by its plain fields in the order of their keys. -/
theorem make_eq {level : Level} {event : String} {fields plain : Fields}
    (h : ((fields.filter (isPlain ·.1)).mergeSort fun a b => !decide (b.1 < a.1)) = plain) :
    make level event fields =
      ⟨level, event, lastOf "type" fields, lastOf "code" fields, lastOf "reason" fields, plain⟩ := by
  rw [← h]
  rfl

/-- Two fields stand in the order of their keys. -/
theorem mergeSort_pair (first second : String × String) :
    ([first, second].mergeSort fun a b => !decide (b.1 < a.1)) =
      if second.1 < first.1 then [second, first] else [first, second] := by
  generalize hle : (fun a b : String × String => !decide (b.1 < a.1)) = le
  have hfirst : le first second = !decide (second.1 < first.1) := by rw [← hle]
  by_cases hswap : second.1 < first.1
  · rw [decide_eq_true hswap] at hfirst
    rw [if_pos hswap]
    simp [List.mergeSort, List.MergeSort.Internal.splitInTwo, hfirst]
  · rw [decide_eq_false hswap] at hfirst
    rw [if_neg hswap]
    simp [List.mergeSort, List.MergeSort.Internal.splitInTwo, hfirst]

/-- The plain fields as text. -/
def fieldText (record : Record) : String :=
  " ".intercalate (record.fields.map fun (key, value) => s!"{key}={value}")

end Record

end JoinPlan.Log
