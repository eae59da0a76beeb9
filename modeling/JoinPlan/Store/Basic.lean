import JoinPlan.SortedMap
import JoinPlan.Store.Stages

/-!
# The document store

A store holds collections of documents by name, each in the order of insertion. A
collection that was never written is empty. A document is found by a field of its
own, whose value must equal the identifier as a document; where several match, the
first is meant.
-/

namespace JoinPlan

/-- Collections of documents. -/
structure Store where
  collections : SortedMap (List Value)

namespace Store

/-- The store without documents. -/
def empty : Store := ⟨.empty⟩

instance : Inhabited Store := ⟨empty⟩

/-- The documents of a collection. -/
def documents (store : Store) (collection : String) : List Value :=
  (store.collections.get? collection).getD []

/-- The store with other documents in a collection. -/
def withDocuments (store : Store) (collection : String) (documents : List Value) : Store :=
  ⟨store.collections.insert collection documents⟩

/-- The number of documents in a collection. -/
def size (store : Store) (collection : String) : Nat := (store.documents collection).length

/-! ## Writing -/

/-- The store with a document at the end of a collection. -/
def insert (store : Store) (collection : String) (document : Value) : Store :=
  store.withDocuments collection (store.documents collection ++ [document])

/-- Whether a document holds the identifier in a field. -/
def identifies (field : String) (id document : Value) : Bool :=
  (document.get? field).any (· == id)

/-- A document with members set, if it is an object. -/
def merged (changes : Members) : Value → Value
  | .object members => .object (Members.insertAll members changes)
  | other => other

/-- The first element of a property, between those before and those behind it. -/
def splitFirst? (p : Value → Bool) : List Value → Option (List Value × Value × List Value)
  | [] => none
  | document :: rest =>
    if p document then some ([], document, rest)
    else (splitFirst? p rest).map fun (front, found, back) => (document :: front, found, back)

/-- Sets members of the first document with the identifier. Gives the new document
and the store, or nothing where no document has it. -/
def patch (store : Store) (collection field : String) (id : Value) (changes : Members) :
    Option (Value × Store) :=
  (splitFirst? (identifies field id) (store.documents collection)).map
    fun (front, found, back) =>
      (merged changes found, store.withDocuments collection (front ++ merged changes found :: back))

/-- Takes out the first document with the identifier. Gives the document and the
store, or nothing where no document has it. -/
def remove (store : Store) (collection field : String) (id : Value) : Option (Value × Store) :=
  (splitFirst? (identifies field id) (store.documents collection)).map
    fun (front, found, back) => (found, store.withDocuments collection (front ++ back))

/-! ## Reading -/

/-- What a pipeline gives on a collection. -/
def run [PatternLimit] (store : Store) (collection : String) (pipeline : List Stage) : List Value :=
  runStages store.documents (store.documents collection) pipeline

/-- How many documents of a collection a condition holds of. -/
def count [PatternLimit] (store : Store) (collection : String) (condition : Condition) : Nat :=
  (store.documents collection).countP condition.holds

theorem documents_withDocuments_self (store : Store) (collection : String)
    (documents : List Value) :
    (store.withDocuments collection documents).documents collection = documents := by
  simp [withDocuments, Store.documents]

theorem documents_withDocuments_of_ne {collection other : String} (h : other ≠ collection)
    (store : Store) (documents : List Value) :
    (store.withDocuments collection documents).documents other = store.documents other := by
  simp [withDocuments, Store.documents, SortedMap.get?_insert_of_ne h]

end Store

end JoinPlan
