import JoinPlan.Proofs.Search.Find
import JoinPlan.Proofs.Write.Protocol

/-!
# Reading back what was written

A writer finds a document by a member that equals the identifier, a search by a condition on a
dotted path, behind which all joins are made. This file supplies that the two mean the same
document, and so that a search for one document sees the writes before it.

> `find_reads_writes`: what was created or updated is found, and what was deleted is not.

A document that a writer finds answers to the identifier (`answersTo_of_get?`). So where
no document before it answers, it is the first one for the writer (`finds_of_first`) and for the
search (`find_of_first`), and this is still so behind the write: a created document stands at the
end, an updated one where it was, and it keeps the member it is found by. Of a write with a
result only its effect on the collection matters (`effect_of_runs`), whatever its interceptors
and its counters did.
-/

namespace JoinPlan

/-! ## The document that a writer means -/

namespace Store

variable {store : Store} {type field id : String} {front back : List Value} {base : Value}

/-- Where no document before it answers, a document with the identifier is the first one. -/
theorem finds_of_first [PatternLimit] (hplain : '.' ∉ field.toList)
    (hdocuments : store.documents type = front ++ base :: back)
    (hfront : ∀ d ∈ front, ¬d.AnswersTo field id) (hbase : base.get? field = some (.string id)) :
    store.Finds type field id front base back := by
  refine ⟨hdocuments, ?_, hbase⟩
  intro d hd h
  exact hfront d hd (Value.answersTo_of_get? hplain h)

/-- Where one document at most answers, none answers without the one that is found. -/
theorem Finds.not_answersTo [PatternLimit] (hplain : '.' ∉ field.toList)
    (hdocuments : store.documents type = front ++ base :: back)
    (hothers : ∀ d ∈ front ++ back, ¬d.AnswersTo field id) {front' back' : List Value}
    {found : Value} (hfinds : store.Finds type field id front' found back') :
    ∀ d ∈ front' ++ back', ¬d.AnswersTo field id := by
  have hfound : found.AnswersTo field id := Value.answersTo_of_get? hplain hfinds.here
  -- By counting, for the document that is found need not be `base` a priori.
  have hnone : (front ++ back).countP (fun d => d.AnswersTo field id) = 0 :=
    List.countP_eq_zero.mpr fun d hd => by simpa using hothers d hd
  have hcount := congrArg (List.countP fun d => d.AnswersTo field id)
    (hdocuments.symm.trans hfinds.documents)
  rw [List.countP_append, List.countP_append, List.countP_cons, List.countP_cons,
    if_pos (decide_eq_true hfound)] at hcount
  rw [List.countP_append] at hnone
  have hzero : (front' ++ back').countP (fun d => d.AnswersTo field id) = 0 := by
    rw [List.countP_append]
    split at hcount <;> omega
  intro d hd
  simpa using List.countP_eq_zero.mp hzero d hd

end Store

/-! ## What a search finds behind a write -/

section Writes

variable [PatternLimit] {registry : Registry} {options : Options} {schema : Schema}
  {type id : String} {plan : Plan} {w : Writer} {storage after : Storage} {document : Value}

/-- A created document is found, where none before it answers to its identifier. -/
theorem find_of_created (hschema : registry.get? type = some schema)
    (haccepted : (Plan.ofRequest registry options (.forOne type id)).result = .ok plan)
    (hplain : '.' ∉ schema.idField.toList) (hnumber : schema.idField ≠ numberField)
    {payload : Value} (hpayload : payload.IsRecord)
    (hid : payload.get? schema.idField = some (.string id))
    (hnone : ∀ d ∈ storage.store.documents type, ¬d.AnswersTo schema.idField id)
    (heffect : (Write.create type payload).Effect w storage document after) (elapsed : Nat) :
    ∃ found, (after.store.source.find registry options type id elapsed).result = .ok found ∧
      found.document.IsRecord ∧ found.document.AgreesOutside plan.writtenKeys document := by
  obtain ⟨members, stored, rfl, rfl, hstored, hdistinct, hbecomes, -⟩ := heffect
  have hkept : (Value.object stored).get? schema.idField = some (.string id) :=
    (hstored schema.idField).trans ((if_neg hnumber).trans hid)
  refine Source.find_of_first hschema haccepted hbecomes.1 hnone ?_ ?_ elapsed
  · exact Value.answersTo_of_get? hplain hkept
  · exact hdistinct hpayload

/-- An updated document is found with the members that were set, where none before it answers
to its identifier and the identifier is not set. -/
theorem find_of_updated (hschema : registry.get? type = some schema)
    (haccepted : (Plan.ofRequest registry options (.forOne type id)).result = .ok plan)
    (hplain : '.' ∉ schema.idField.toList) (hwriter : w.idField = schema.idField)
    {patch : Value} (hpatch : patch.IsRecord) (hkeeps : patch.get? schema.idField = none)
    {front back : List Value} {base : Value}
    (hdocuments : storage.store.documents type = front ++ base :: back)
    (hfront : ∀ d ∈ front, ¬d.AnswersTo schema.idField id)
    (hbase : base.get? schema.idField = some (.string id)) (hrecord : base.IsRecord)
    (heffect : (Write.update type id patch).Effect w storage document after) (elapsed : Nat) :
    ∃ found, (after.store.source.find registry options type id elapsed).result = .ok found ∧
      found.document.IsRecord ∧ ∀ key ∉ plan.writtenKeys,
        found.document.get? key = (patch.get? key).or (base.get? key) := by
  obtain ⟨changes, old, new, front', back', rfl, rfl, hfinds, hnew, hdistinct, hbecomes, -⟩ :=
    heffect
  rw [hwriter] at hfinds
  obtain ⟨rfl, rfl, rfl⟩ := (Store.finds_of_first hplain hdocuments hfront hbase).unique hfinds
  have hmerged : ∀ key, (Value.object new).get? key =
      ((Value.object changes).get? key).or ((Value.object old).get? key) := by
    intro key
    have hread := hnew key
    rwa [Members.get?_reverse hpatch] at hread
  have hkept : (Value.object new).get? schema.idField = some (.string id) := by
    rw [hmerged, hkeeps, hbase]
    rfl
  obtain ⟨found, hfound, hfoundRecord, hagrees⟩ :=
    Source.find_of_first hschema haccepted hbecomes.1 hfront
      (Value.answersTo_of_get? hplain hkept)
      (hdistinct hrecord) elapsed
  refine ⟨found, hfound, hfoundRecord, ?_⟩
  intro key hkey
  rw [hagrees key hkey, hmerged]

/-- A deleted document is not found, where no other answers to its identifier. -/
theorem find_of_deleted (hschema : registry.get? type = some schema)
    (haccepted : (Plan.ofRequest registry options (.forOne type id)).result = .ok plan)
    (hplain : '.' ∉ schema.idField.toList) (hwriter : w.idField = schema.idField)
    {front back : List Value} {base : Value}
    (hdocuments : storage.store.documents type = front ++ base :: back)
    (hothers : ∀ d ∈ front ++ back, ¬d.AnswersTo schema.idField id)
    (heffect : (Write.delete type id).Effect w storage document after) (elapsed : Nat) :
    (after.store.source.find registry options type id elapsed).result =
      .error (.notFound type id) := by
  obtain ⟨front', back', hfinds, hbecomes, -⟩ := heffect
  rw [hwriter] at hfinds
  refine Source.find_of_none hschema haccepted ?_ elapsed
  rw [hbecomes.1]
  exact hfinds.not_answersTo hplain hdocuments hothers

end Writes

/-- Reads see writes. Suppose that the identifiers of a registered type stand at a field with a
plain name, which is not the one for numbers, and that a writer finds documents by this field.
Whatever interceptors are asked and told, a search for one document then sees what a write with
a result did, but for the keys that its own plan writes. A created document is found, where no
document there answers to its identifier. So is an updated one, with just the members of the
patch replaced, where none before it answers and the patch leaves the identifier alone. And
where no other document answers, a deleted one is not found. -/
theorem find_reads_writes [PatternLimit] (registry : Registry) (options : Options) (schema : Schema)
    (type id : String) (w : Writer) (faults : Faults) (storage : Storage) (elapsed elapsed' : Nat)
    (hschema : registry.get? type = some schema) (hplain : '.' ∉ schema.idField.toList)
    (hnumber : schema.idField ≠ numberField) (hwriter : w.idField = schema.idField)
    (hrecords : ∀ d ∈ storage.store.documents type, d.IsRecord) :
    ∃ plan, (Plan.ofRequest registry options (.forOne type id)).result = .ok plan ∧
      (∀ payload actions after document, payload.IsRecord →
        payload.get? schema.idField = some (.string id) →
        (∀ d ∈ storage.store.documents type, ¬d.AnswersTo schema.idField id) →
        (w.create type payload elapsed).Runs faults storage actions after (.ok document) →
        ∃ found, (after.store.source.find registry options type id elapsed').result = .ok found ∧
          found.document.IsRecord ∧ found.document.AgreesOutside plan.writtenKeys document) ∧
      (∀ patch front base back actions after document, patch.IsRecord →
        patch.get? schema.idField = none →
        storage.store.documents type = front ++ base :: back →
        (∀ d ∈ front, ¬d.AnswersTo schema.idField id) →
        base.get? schema.idField = some (.string id) →
        (w.update type id patch elapsed).Runs faults storage actions after (.ok document) →
        ∃ found, (after.store.source.find registry options type id elapsed').result = .ok found ∧
          found.document.IsRecord ∧ ∀ key ∉ plan.writtenKeys,
            found.document.get? key = (patch.get? key).or (base.get? key)) ∧
      ∀ front base back actions after document,
        storage.store.documents type = front ++ base :: back →
        (∀ d ∈ front ++ back, ¬d.AnswersTo schema.idField id) →
        (w.delete type id elapsed).Runs faults storage actions after (.ok document) →
        (after.store.source.find registry options type id elapsed').result =
          .error (.notFound type id) := by
  have hone : ∃ plan, (Plan.ofRequest registry options (.forOne type id)).result = .ok plan :=
    Plan.exists_plan_of_id hschema rfl
  obtain ⟨plan, haccepted⟩ := hone
  refine ⟨plan, haccepted, ?_, ?_, ?_⟩
  · intro payload actions after document hpayload hid hnone hruns
    have heffect : (Write.create type payload).Effect w storage document after :=
      Writer.effect_of_runs hruns
    exact find_of_created hschema haccepted hplain hnumber hpayload hid hnone heffect elapsed'
  · intro patch front base back actions after document hpatch hkeeps hdocuments hfront hbase hruns
    have hrecord : base.IsRecord := hrecords base (by simp [hdocuments])
    have heffect : (Write.update type id patch).Effect w storage document after :=
      Writer.effect_of_runs hruns
    exact find_of_updated hschema haccepted hplain hwriter hpatch hkeeps hdocuments hfront hbase
      hrecord heffect elapsed'
  · intro front base back actions after document hdocuments hothers hruns
    have heffect : (Write.delete type id).Effect w storage document after :=
      Writer.effect_of_runs hruns
    exact find_of_deleted hschema haccepted hplain hwriter hdocuments hothers heffect elapsed'

/-- A third order, by its owner. -/
def newOrder : Value := referring "o3" "owner" "p1"

/-- What is set of an order when its owner changes. -/
def newOwner : Value := .object [("owner", .object [("id", .string "p2")])]

section

attribute [local instance] PatternLimit.unbounded

/-- An order is created and found; another one changes its owner and is found so, but for what
is joined; a third one is deleted and not found. -/
theorem find_reads_writes_orderStore :
    ∃ schema planNew planOld, orders.get? "order" = some schema ∧
      '.' ∉ schema.idField.toList ∧ schema.idField ≠ numberField ∧
      (Writer.make []).idField = schema.idField ∧
      (∀ d ∈ orderStore.documents "order", d.IsRecord) ∧
      (Plan.ofRequest orders .standard (.forOne "order" "o3")).result = .ok planNew ∧
      (Plan.ofRequest orders .standard (.forOne "order" "o1")).result = .ok planOld ∧
      (∃ actions after document found,
        ((Writer.make []).create "order" newOrder 0).Runs .none ⟨orderStore, .empty⟩ actions after
          (.ok document) ∧
        (after.store.source.find orders .standard "order" "o3" 0).result = .ok found ∧
        found.document.AgreesOutside planNew.writtenKeys document) ∧
      (∃ actions after document found,
        ((Writer.make []).update "order" "o1" newOwner 0).Runs .none ⟨orderStore, .empty⟩ actions
          after (.ok document) ∧
        (after.store.source.find orders .standard "order" "o1" 0).result = .ok found ∧
        ∀ key ∉ planOld.writtenKeys, found.document.get? key =
          (newOwner.get? key).or ((referring "o1" "owner" "p1").get? key)) ∧
      ∃ actions after document,
        ((Writer.make []).delete "order" "o1" 0).Runs .none ⟨orderStore, .empty⟩ actions after
          (.ok document) ∧
        (after.store.source.find orders .standard "order" "o1" 0).result =
          .error (.notFound "order" "o1") := by
  obtain ⟨schema, hschema⟩ := Option.isSome_iff_exists.mp
    (show (orders.get? "order").isSome by decide +kernel)
  have hfield : schema.idField = "id" := by
    have hname : (orders.get? "order").map (·.idField) = some "id" := by decide +kernel
    rw [hschema] at hname
    exact Option.some.inj hname
  have hplain : '.' ∉ schema.idField.toList := by
    rw [hfield]
    decide
  have hnumber : schema.idField ≠ numberField := by
    rw [hfield]
    decide
  have hwriter : (Writer.make []).idField = schema.idField := hfield.symm
  have hrecords : ∀ d ∈ orderStore.documents "order", d.IsRecord := by
    intro d hd
    obtain ⟨hobject, hkeys⟩ := distinctKeys_orderStore d hd
    exact Value.isRecord_of_distinctKeys hobject hkeys
  have hnew : ∀ d ∈ orderStore.documents "order", ¬d.AnswersTo schema.idField "o3" := by
    rw [hfield]
    decide +kernel
  have hother : ∀ d ∈ [referring "o2" "owner" "p2"], ¬d.AnswersTo schema.idField "o1" := by
    rw [hfield]
    decide +kernel
  have hcreate : ∃ actions after document, ((Writer.make []).create "order" newOrder 0).Runs
      .none ⟨orderStore, .empty⟩ actions after (.ok document) := ⟨_, _, _, rfl⟩
  have hupdate : ∃ actions after document, ((Writer.make []).update "order" "o1" newOwner 0).Runs
      .none ⟨orderStore, .empty⟩ actions after (.ok document) := ⟨_, _, _, rfl⟩
  have hdelete : ∃ actions after document, ((Writer.make []).delete "order" "o1" 0).Runs
      .none ⟨orderStore, .empty⟩ actions after (.ok document) := ⟨_, _, _, rfl⟩
  obtain ⟨created, afterCreate, new, hcreate⟩ := hcreate
  obtain ⟨updated, afterUpdate, changed, hupdate⟩ := hupdate
  obtain ⟨deleted, afterDelete, gone, hdelete⟩ := hdelete
  obtain ⟨planNew, hplanNew, hcreates, -, -⟩ := find_reads_writes orders .standard schema "order"
    "o3" (.make []) .none ⟨orderStore, .empty⟩ 0 0 hschema hplain hnumber hwriter hrecords
  obtain ⟨planOld, hplanOld, -, hupdates, hdeletes⟩ := find_reads_writes orders .standard schema
    "order" "o1" (.make []) .none ⟨orderStore, .empty⟩ 0 0 hschema hplain hnumber hwriter hrecords
  have hnewOrder : newOrder.IsRecord := by
    have hkeys : newOrder.isObject ∧ newOrder.DistinctKeys := distinctKeys_referring (by decide)
    exact Value.isRecord_of_distinctKeys hkeys.1 hkeys.2
  have hnewOwner : newOwner.IsRecord := List.pairwise_singleton _ _
  have hnewId : newOrder.get? schema.idField = some (.string "o3") := by
    rw [hfield]
    rfl
  have hkeeps : newOwner.get? schema.idField = none := by
    rw [hfield]
    rfl
  have hold : (referring "o1" "owner" "p1").get? schema.idField = some (.string "o1") := by
    rw [hfield]
    rfl
  obtain ⟨foundNew, hfoundNew, -, hagrees⟩ :=
    hcreates newOrder created afterCreate new hnewOrder hnewId hnew hcreate
  obtain ⟨foundOld, hfoundOld, -, hreplaced⟩ :=
    hupdates newOwner [] _ _ updated afterUpdate changed hnewOwner hkeeps documents_orderStore
      (by simp) hold hupdate
  have hmissing := hdeletes [] _ _ deleted afterDelete gone documents_orderStore hother hdelete
  exact ⟨schema, planNew, planOld, hschema, hplain, hnumber, hwriter, hrecords, hplanNew,
    hplanOld, ⟨created, afterCreate, new, foundNew, hcreate, hfoundNew, hagrees⟩,
    ⟨updated, afterUpdate, changed, foundOld, hupdate, hfoundOld, hreplaced⟩,
    deleted, afterDelete, gone, hdelete, hmissing⟩

end

end JoinPlan
