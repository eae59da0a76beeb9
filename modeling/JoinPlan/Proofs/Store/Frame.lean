import JoinPlan.Proofs.Json.Record
import JoinPlan.Store.Basic

/-!
# What stages leave alone

Filters, joins and flattenings treat every document by itself, so a pipeline of
them gives the images of the first document, then those of the second, and so on:
`runStages_eq_flatMap`.

The frame of a pipeline is the list of keys that its stages touch. Every image of a
record is a record that agrees with it outside the frame (`frame_of_mem_runStages`).
Two things follow: a filter on a member outside the frame may as well be applied at
the end (`runStages_filter_comm`), and where all flattenings preserve, no document
is lost (`runStages_singleton_ne_nil`).
-/

namespace JoinPlan

namespace Stage

/-- The keys that a stage writes: the alias of a join, the position field of a
flattening. -/
def writtenKeys : Stage → List String
  | .join j => [j.asName]
  | .flatten f => f.indexField.toList
  | _ => []

/-- The keys at which a stage may change a document. -/
def touchedKeys : Stage → List String
  | .join j => [j.asName]
  | .flatten f => f.asName :: f.indexField.toList
  | _ => []

/-- Whether a stage treats every document by itself. -/
def isLocal : Stage → Bool
  | .filter _ | .join _ | .flatten _ => true
  | _ => false

/-- Whether a stage gives at least one document for every object. -/
def keepsObjects : Stage → Bool
  | .join _ => true
  | .flatten f => f.preserve
  | _ => false

end Stage

/-- Values that have the same members, those named in `keys` apart. -/
def Value.AgreesOutside (keys : List String) (v w : Value) : Prop :=
  ∀ key ∉ keys, v.get? key = w.get? key

/-! ## The frame of one stage -/

namespace Join

variable (join : Join) (others : List Value)

theorem get?_attach_of_ne {key : String} (h : key ≠ join.asName) (document : Value) :
    (join.attach others document).get? key = document.get? key := by
  cases document with
  | object members => exact Members.get?_insert_of_ne h members _
  | _ => rfl

theorem isRecord_attach {document : Value} (h : document.IsRecord) :
    (join.attach others document).IsRecord := by
  cases document with
  | object members => exact Members.distinct_insert h _ _
  | _ => exact h.elim

end Join

namespace Flatten

variable (f : Flatten)

theorem get?_withPosition_of_notMem {key : String} (h : key ∉ f.indexField.toList)
    (position : Value) (members : Members) :
    (f.withPosition position members).get? key = members.get? key := by
  unfold withPosition
  split
  · next field hfield =>
    rw [hfield] at h
    exact Members.get?_insert_of_ne (List.ne_of_not_mem_cons h) members position
  · rfl

theorem distinct_withPosition (position : Value) {members : Members} (h : members.Distinct) :
    (f.withPosition position members).Distinct := by
  unfold withPosition
  split
  · exact Members.distinct_insert h _ _
  · exact h

/-- What a flattening makes of an object: the alias is taken out, one item is put
back unless there is none, and the position is recorded. -/
theorem mem_apply_object {members : Members} {image : Value}
    (h : image ∈ f.apply (.object members)) :
    ∃ position, image = .object (f.withPosition position (members.remove f.asName)) ∨
      ∃ item, image = f.itemDocument (members.remove f.asName) item position := by
  have hwithout : ∀ {w}, w ∈ f.withoutItems (members.remove f.asName) →
      w = .object (f.withPosition .null (members.remove f.asName)) := by
    intro w hw
    unfold withoutItems at hw
    split at hw
    · exact List.mem_singleton.mp hw
    · cases hw
  simp only [apply] at h
  split at h
  · exact ⟨.null, .inl (hwithout h)⟩
  · exact ⟨.null, .inl (hwithout h)⟩
  · exact ⟨.null, .inl (hwithout h)⟩
  · obtain ⟨⟨item, position⟩, -, rfl⟩ := List.mem_map.mp h
    exact ⟨.ofInt position, .inr ⟨item, rfl⟩⟩
  · next single _ _ _ _ =>
    exact ⟨.null, .inr ⟨single, List.mem_singleton.mp h⟩⟩

/-- The flattening takes apart what the join put under its alias. -/
theorem apply_attach {join : Join} (hname : f.asName = join.asName) (others : List Value)
    (members : Members) :
    f.apply (join.attach others (.object members)) =
      let partners := join.partners others (.object members)
      let rest := (members.insert join.asName (.array partners)).remove join.asName
      if partners = [] then f.withoutItems rest
      else partners.zipIdx.map fun (item, position) =>
        f.itemDocument rest item (.ofInt position) := by
  simp only [Join.attach, apply, hname, Members.get?_insert_self]
  cases join.partners others (.object members) with
  | nil => rfl
  | cons partner rest => rfl

/-- An image of a record is a record that agrees with it but for the alias and the
position. -/
theorem frame_of_mem_apply {document image : Value} (hdocument : document.IsRecord)
    (h : image ∈ f.apply document) :
    image.IsRecord ∧ image.AgreesOutside (f.asName :: f.indexField.toList) document := by
  cases document with
  | object members =>
    have hrest := Members.distinct_remove hdocument f.asName
    obtain ⟨position, rfl | ⟨item, rfl⟩⟩ := mem_apply_object f h
    · refine ⟨f.distinct_withPosition position hrest, fun key hkey => ?_⟩
      have halias := List.ne_of_not_mem_cons hkey
      have hindex := List.not_mem_of_not_mem_cons hkey
      exact (f.get?_withPosition_of_notMem hindex position _).trans
        (Members.get?_remove_of_ne hdocument halias)
    · refine ⟨f.distinct_withPosition position (Members.distinct_insert hrest _ _),
        fun key hkey => ?_⟩
      have halias := List.ne_of_not_mem_cons hkey
      have hindex := List.not_mem_of_not_mem_cons hkey
      exact ((f.get?_withPosition_of_notMem hindex position _).trans
        (Members.get?_insert_of_ne halias _ item)).trans
          (Members.get?_remove_of_ne hdocument halias)
  | _ => exact hdocument.elim

/-- A flattening that preserves gives some image of every object. -/
theorem apply_ne_nil {document : Value} (hobject : document.isObject)
    (hpreserve : f.preserve = true) : f.apply document ≠ [] := by
  cases document with
  | object members =>
    simp only [apply]
    split
    · simp [withoutItems, hpreserve]
    · simp [withoutItems, hpreserve]
    · simp [withoutItems, hpreserve]
    · next items hnonempty _ =>
      cases items with
      | nil => exact absurd rfl hnonempty
      | cons item rest => simp
    · simp
  | _ => cases hobject

end Flatten

namespace Stage

variable {collection : String → List Value} {stage : Stage}

/-- A stage that treats every document by itself gives the images of each in turn. -/
theorem run_eq_flatMap [PatternLimit] (hlocal : stage.isLocal) (documents : List Value) :
    stage.run collection documents =
      documents.flatMap fun document => stage.run collection [document] := by
  induction documents with
  | nil => cases stage <;> simp_all [run, isLocal]
  | cons document rest ih =>
    rw [List.flatMap_cons, ← ih]
    cases stage with
    | filter condition => exact List.filter_append (p := condition.holds) [document] rest
    | join j => rfl
    | flatten f => simp [run]
    | _ => cases hlocal

/-- An image of a record is a record that agrees with it outside what the stage
touches. -/
theorem frame_of_mem_run [PatternLimit] (hlocal : stage.isLocal) {document image : Value}
    (hdocument : document.IsRecord) (h : image ∈ stage.run collection [document]) :
    image.IsRecord ∧ image.AgreesOutside stage.touchedKeys document := by
  cases stage with
  | filter condition =>
    obtain rfl := List.mem_singleton.mp (List.mem_filter.mp h).1
    exact ⟨hdocument, fun _ _ => rfl⟩
  | join j =>
    obtain rfl := List.mem_singleton.mp h
    exact ⟨j.isRecord_attach _ hdocument, fun key hkey =>
      j.get?_attach_of_ne _ (List.ne_of_not_mem_cons hkey) document⟩
  | flatten f =>
    have happly : image ∈ f.apply document := by simpa [run] using h
    exact f.frame_of_mem_apply hdocument happly
  | _ => cases hlocal

theorem run_singleton_ne_nil [PatternLimit] (hkeeps : stage.keepsObjects) {document : Value}
    (hdocument : document.isObject) : stage.run collection [document] ≠ [] := by
  cases stage with
  | join j => simp [run]
  | flatten f => simpa [run] using f.apply_ne_nil hdocument hkeeps
  | _ => cases hkeeps

theorem isLocal_of_keepsObjects (h : stage.keepsObjects) : stage.isLocal := by
  cases stage with
  | join j => rfl
  | flatten f => rfl
  | _ => cases h

end Stage

/-! ## The frame of a pipeline -/

section Pipeline

variable [PatternLimit] {collection : String → List Value} {stages : List Stage}

theorem runStages_nil (documents : List Value) : runStages collection documents [] = documents :=
  rfl

theorem runStages_cons (documents : List Value) (stage : Stage) :
    runStages collection documents (stage :: stages) =
      runStages collection (stage.run collection documents) stages :=
  rfl

/-- The images of a document under a pipeline are those of its images under the
first stage. -/
theorem runStages_eq_flatMap (hlocal : ∀ stage ∈ stages, stage.isLocal)
    (documents : List Value) :
    runStages collection documents stages =
      documents.flatMap fun document => runStages collection [document] stages := by
  induction stages generalizing documents with
  | nil => simp [runStages_nil]
  | cons stage rest ih =>
    have hrest : ∀ s ∈ rest, s.isLocal := fun s hs => hlocal s (List.mem_cons_of_mem _ hs)
    simp only [runStages_cons]
    rw [ih hrest, Stage.run_eq_flatMap (hlocal stage List.mem_cons_self), List.flatMap_assoc]
    congr 1
    funext document
    exact (ih hrest _).symm

/-- Every image of a record is a record that agrees with it outside the frame. -/
theorem frame_of_mem_runStages (hlocal : ∀ stage ∈ stages, stage.isLocal)
    {document image : Value} (hdocument : document.IsRecord)
    (h : image ∈ runStages collection [document] stages) :
    image.IsRecord ∧ image.AgreesOutside (stages.flatMap Stage.touchedKeys) document := by
  induction stages generalizing document with
  | nil =>
    obtain rfl := List.mem_singleton.mp h
    exact ⟨hdocument, fun _ _ => rfl⟩
  | cons stage rest ih =>
    have hrest : ∀ s ∈ rest, s.isLocal := fun s hs => hlocal s (List.mem_cons_of_mem _ hs)
    rw [runStages_cons, runStages_eq_flatMap hrest] at h
    obtain ⟨middle, hmiddle, himage⟩ := List.mem_flatMap.mp h
    obtain ⟨hrecord, hfirst⟩ :=
      Stage.frame_of_mem_run (hlocal stage List.mem_cons_self) hdocument hmiddle
    obtain ⟨himageRecord, hsecond⟩ := ih hrest hrecord himage
    refine ⟨himageRecord, fun key hkey => ?_⟩
    rw [List.flatMap_cons, List.mem_append, not_or] at hkey
    exact (hsecond key hkey.2).trans (hfirst key hkey.1)

/-- Where every stage keeps objects, a record has an image. -/
theorem runStages_singleton_ne_nil (hkeeps : ∀ stage ∈ stages, stage.keepsObjects)
    {document : Value} (hdocument : document.IsRecord) :
    runStages collection [document] stages ≠ [] := by
  induction stages generalizing document with
  | nil => simp [runStages_nil]
  | cons stage rest ih =>
    have hstage := hkeeps stage List.mem_cons_self
    have hrest : ∀ s ∈ rest, s.keepsObjects := fun s hs => hkeeps s (List.mem_cons_of_mem _ hs)
    have hlocal : ∀ s ∈ rest, s.isLocal := fun s hs => Stage.isLocal_of_keepsObjects (hrest s hs)
    rw [runStages_cons, runStages_eq_flatMap hlocal]
    have hne : stage.run collection [document] ≠ [] :=
      Stage.run_singleton_ne_nil hstage hdocument.isObject
    obtain ⟨middle, hmiddle⟩ := List.exists_mem_of_ne_nil _ hne
    have hrecord :=
      (Stage.frame_of_mem_run (Stage.isLocal_of_keepsObjects hstage) hdocument hmiddle).1
    intro hnil
    exact ih hrest hrecord (List.flatMap_eq_nil_iff.mp hnil middle hmiddle)

end Pipeline

/-! ## Filters on one member -/

/-- The property looks at one member of a record and at nothing else. -/
def ReadsOnly (key : String) (p : Value → Bool) : Prop :=
  ∀ v w : Value, v.IsRecord → w.IsRecord → v.get? key = w.get? key → p v = p w

/-- Filtering before an expansion that keeps the property of a document is filtering
after it. -/
theorem flatMap_filter_of_forall_mem {α β : Type} {p : α → Bool} {q : β → Bool} {f : α → List β}
    {xs : List α} (h : ∀ x ∈ xs, ∀ y ∈ f x, q y = p x) :
    (xs.filter p).flatMap f = (xs.flatMap f).filter q := by
  induction xs with
  | nil => rfl
  | cons x xs ih =>
    have hx := h x List.mem_cons_self
    rw [List.flatMap_cons, List.filter_append, ← ih fun y hy => h y (List.mem_cons_of_mem _ hy)]
    by_cases hp : p x = true
    · have hall : (f x).filter q = f x :=
        List.filter_eq_self.mpr fun y hy => (hx y hy).trans hp
      rw [List.filter_cons_of_pos hp, List.flatMap_cons, hall]
    · have hnone : (f x).filter q = [] :=
        List.filter_eq_nil_iff.mpr fun y hy hq => hp ((hx y hy).symm.trans hq)
      rw [List.filter_cons_of_neg hp, hnone, List.nil_append]

/-- A filter on a member outside the frame of a pipeline commutes with it. -/
theorem runStages_filter_comm [PatternLimit] {collection : String → List Value}
    {stages : List Stage}
    (hlocal : ∀ stage ∈ stages, stage.isLocal) {key : String} {p : Value → Bool}
    (hp : ReadsOnly key p) (hkey : key ∉ stages.flatMap Stage.touchedKeys)
    {documents : List Value} (hdocuments : ∀ d ∈ documents, d.IsRecord) :
    runStages collection (documents.filter p) stages =
      (runStages collection documents stages).filter p := by
  rw [runStages_eq_flatMap hlocal, runStages_eq_flatMap hlocal documents]
  refine flatMap_filter_of_forall_mem fun document hdocument image himage => ?_
  have hrecord := hdocuments document hdocument
  obtain ⟨himageRecord, hagrees⟩ := frame_of_mem_runStages hlocal hrecord himage
  exact hp image document himageRecord hrecord (hagrees key hkey)

end JoinPlan
