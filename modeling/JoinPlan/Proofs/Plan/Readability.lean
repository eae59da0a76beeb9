import Mathlib.Data.List.Induction
import JoinPlan.Proofs.Json.Nested
import JoinPlan.Proofs.Plan.Naming
import JoinPlan.Proofs.Search.Fanout

/-!
# Reading under an alias

A join puts its partners under the alias as one member, while filters, sort keys, later
joins and described fields read below the alias along a dotted path, which is cut at every
dot. This file supplies when the two agree.

> `Block.Readable`: what an output of the block carries under the alias is a partner, and
> every path below the alias finds in the output what it finds in the partner.

It comes down to the alias having no dot (`Block.readable_iff`). A plain alias is the name
of one member, so a path below it goes through that member. A dotted alias is no name along
any path: a path below it starts at some other member, which the join left as it was, so on
a document made for the join (`Value.nested`) it finds an object or an array where the
partner has a text. An alias is made of the names of types and attributes, and is plain
when they are (`NamesPlain`).
-/

namespace JoinPlan

/-! ## Values along one path -/

namespace Value

/-- Objects that agree at the first name agree at the end of the names. -/
theorem walk_cons_congr {v w : Value} (hv : v.isObject) (hw : w.isObject) {name : String}
    (h : v.get? name = w.get? name) (rest : List String) :
    v.walk (name :: rest) = w.walk (name :: rest) := by
  cases v with
  | object members =>
    cases w with
    | object others => exact congrArg (fun found => found.toList.flatMap (·.walk rest)) h
    | _ => cases hw
  | _ => cases hv

end Value

/-! ## What a block puts under its alias -/

namespace Block

/-- What an output of the block carries under the alias is a partner, and is read below the
alias. -/
def Readable [PatternLimit] (b : Block) : Prop :=
  ∀ (collection : String → List Value) (document : Value), document.isObject →
    document.DistinctKeys → ∀ image ∈ runStages collection [document] b.bare,
      ∀ partner, image.get? b.join.asName = some partner →
        partner ∈ b.join.partners (collection b.join.source) document ∧
          ∀ path, image.lookup (b.join.asName ++ "." ++ path) = partner.lookup path

/-- The flattening belongs to the join, and records positions beside the alias. -/
structure Fits (b : Block) : Prop where
  sound : SoundPair b.pair
  index : ∀ field ∈ b.flatten.indexField, field = indexName b.join.asName

variable {b : Block} {collection : String → List Value} {document image : Value}

theorem mem_bare [PatternLimit] : image ∈ runStages collection [document] b.bare ↔
    image ∈ b.flatten.apply (b.join.attach (collection b.join.source) document) := by
  simp [bare, runStages_cons, runStages_nil, Stage.run]

/-- An output agrees with the document outside what the block writes. -/
theorem get?_of_mem_bare [PatternLimit] (hfits : b.Fits) (hdocument : document.IsRecord)
    (himage : image ∈ runStages collection [document] b.bare) {key : String}
    (halias : key ≠ b.join.asName) (hindex : key ≠ indexName b.join.asName) :
    image.get? key = document.get? key := by
  have hattached := b.join.isRecord_attach (collection b.join.source) hdocument
  have hframe := (b.flatten.frame_of_mem_apply hattached (mem_bare.mp himage)).2
  rw [hframe key, b.join.get?_attach_of_ne _ halias]
  intro hkey
  rcases List.mem_cons.mp hkey with hname | hfield
  · exact halias (hname.trans hfits.sound.1)
  · exact hindex (hfits.index key (by simpa using hfield))

/-- Positions do not stand in the place of the alias. -/
theorem Fits.get?_withPosition (hfits : b.Fits) (position : Value) (members : Members) :
    (b.flatten.withPosition position members).get? b.join.asName =
      members.get? b.join.asName := by
  refine b.flatten.get?_withPosition_of_notMem (fun hfield => ?_) position members
  exact ne_indexName _ (hfits.index _ (by simpa using hfield))

theorem Fits.get?_itemDocument (hfits : b.Fits) (rest : Members) (item position : Value) :
    (b.flatten.itemDocument rest item position).get? b.join.asName = some item := by
  rw [Flatten.itemDocument, show b.flatten.asName = b.join.asName from hfits.sound.1]
  exact (hfits.get?_withPosition _ _).trans (Members.get?_insert_self rest _ item)

theorem mem_partners_of_mem_bare [PatternLimit] (hfits : b.Fits) (hdocument : document.IsRecord)
    (himage : image ∈ runStages collection [document] b.bare) {partner : Value}
    (hpartner : image.get? b.join.asName = some partner) :
    partner ∈ b.join.partners (collection b.join.source) document := by
  have happly := mem_bare.mp himage
  cases document with
  | object members =>
    have hname : b.flatten.asName = b.join.asName := hfits.sound.1
    rw [b.flatten.apply_attach hname] at happly
    generalize b.join.partners (collection b.join.source) (.object members) = partners at happly ⊢
    have hrest : (Members.remove (Members.insert members b.join.asName (.array partners))
        b.join.asName).get? b.join.asName = none :=
      Members.get?_remove_self (Members.distinct_insert hdocument _ _) _
    cases partners with
    | nil =>
      have hnone : image.get? b.join.asName = none := by
        have hwithout : image ∈ b.flatten.withoutItems _ := happly
        unfold Flatten.withoutItems at hwithout
        split at hwithout
        · rw [List.mem_singleton.mp hwithout]
          exact (hfits.get?_withPosition _ _).trans hrest
        · cases hwithout
      rw [hnone] at hpartner
      cases hpartner
    | cons first rest =>
      obtain ⟨⟨item, position⟩, hitem, rfl⟩ := List.mem_map.mp happly
      rw [hfits.get?_itemDocument] at hpartner
      obtain rfl := Option.some.inj hpartner
      exact List.fst_mem_of_mem_zipIdx hitem
  | _ => exact hdocument.elim

/-- Every partner is carried by some output. -/
theorem exists_mem_bare [PatternLimit] (hfits : b.Fits) (collection : String → List Value)
    (hdocument : document.isObject) {partner : Value}
    (hpartner : partner ∈ b.join.partners (collection b.join.source) document) :
    ∃ image ∈ runStages collection [document] b.bare,
      image.get? b.join.asName = some partner := by
  cases document with
  | object members =>
    have hname : b.flatten.asName = b.join.asName := hfits.sound.1
    simp only [mem_bare, b.flatten.apply_attach hname]
    generalize b.join.partners (collection b.join.source) (.object members) = partners
      at hpartner ⊢
    obtain ⟨position, hposition⟩ := List.mem_iff_getElem?.mp hpartner
    have hplaced := List.mk_mem_zipIdx_iff_getElem?.mpr hposition
    cases partners with
    | nil => cases hpartner
    | cons first rest =>
      exact ⟨_, List.mem_map_of_mem hplaced, hfits.get?_itemDocument _ _ _⟩
  | _ => cases hdocument

/-- Below a plain alias, an output is read as the partner is. -/
theorem readable_of_plain [PatternLimit] (hfits : b.Fits) (hplain : '.' ∉ b.join.asName.toList) :
    b.Readable := by
  intro collection document hobject hkeys image himage partner hpartner
  have hdocument := Value.isRecord_of_distinctKeys hobject hkeys
  refine ⟨mem_partners_of_mem_bare hfits hdocument himage hpartner, fun path => ?_⟩
  cases image with
  | object members =>
    have hmember : Members.get? members b.join.asName = some partner := hpartner
    rw [Value.lookup_under hplain, hmember, Option.toList_some, List.flatMap_singleton]
  | _ => cases hpartner

/-! ## Dotted aliases -/

/-- Where the alias is dotted, a path below it is read as in the document. -/
theorem lookup_of_dotted [PatternLimit] (hfits : b.Fits) (hdotted : '.' ∈ b.join.asName.toList)
    (hdocument : document.IsRecord) (himage : image ∈ runStages collection [document] b.bare)
    (path : String) :
    image.lookup (b.join.asName ++ "." ++ path) =
      document.lookup (b.join.asName ++ "." ++ path) := by
  have hsplit : Value.pathNames (b.join.asName ++ "." ++ path) =
      Value.pathNames b.join.asName ++ Value.pathNames path := Text.split_joined '.' _ _
  obtain ⟨first, rest, hfirst⟩ :=
    List.exists_cons_of_ne_nil (Text.split_ne_nil '.' b.join.asName)
  -- The first piece has no dot, so it is neither the alias nor the name of the positions.
  have hpiece : '.' ∉ first.toList := Text.not_mem_of_mem_split (s := b.join.asName) (by
    rw [hfirst]
    exact List.mem_cons_self)
  have halias : first ≠ b.join.asName := by
    intro hname
    rw [hname] at hpiece
    exact hpiece hdotted
  have hindex : first ≠ indexName b.join.asName := by
    intro hname
    rw [hname, indexName, String.toList_append] at hpiece
    exact hpiece (List.mem_append_left _ hdotted)
  have hrecord : image.IsRecord := by
    refine isRecord_of_mem_bare (fun d hd _ => ?_) himage
    rwa [List.mem_singleton.mp hd]
  unfold Value.lookup
  rw [hsplit, show Value.pathNames b.join.asName = first :: rest from hfirst, List.cons_append]
  exact Value.walk_cons_congr hrecord.isObject hdocument.isObject
    (get?_of_mem_bare hfits hdocument himage halias hindex) _

/-- A document made for a dotted join has a partner that is not read below the alias: where
the partner has a text, the document has objects and an array. -/
theorem not_readable_of_dotted [PatternLimit] (hfits : b.Fits)
    (hdotted : '.' ∈ b.join.asName.toList) :
    ¬b.Readable := by
  intro hreadable
  let partner := Value.nested (Value.pathNames b.join.foreignField) (.string "x")
  let document := Value.nested (Value.pathNames b.join.localField) (.array [.string "x"])
  have hforeign : partner.lookup b.join.foreignField = [.string "x"] := Value.walk_nested _ _
  have hlocal : document.lookup b.join.localField = [.array [.string "x"]] :=
    Value.walk_nested _ _
  have hobject : document.isObject := Value.isObject_nested (Text.split_ne_nil '.' _) _
  have hkeys : document.DistinctKeys := Value.distinctKeys_nested _ ⟨trivial, trivial⟩
  have haccepted : partner ∈ b.join.partners [partner] document := by
    refine List.mem_filter.mpr ⟨List.mem_cons_self, ?_⟩
    rw [Join.accepts, Join.localValues, hforeign, hlocal]
    rfl
  obtain ⟨image, himage, hcarried⟩ :=
    exists_mem_bare hfits (fun _ => [partner]) hobject haccepted
  obtain ⟨-, hread⟩ := hreadable _ document hobject hkeys image himage partner hcarried
  have hdocument := Value.isRecord_of_distinctKeys hobject hkeys
  have hfound : Value.string "x" ∈
      document.lookup (b.join.asName ++ "." ++ b.join.foreignField) := by
    rw [← lookup_of_dotted hfits hdotted hdocument himage, hread, hforeign]
    exact List.mem_cons_self
  rcases Value.eq_or_isObject_of_mem_walk_nested (fun _ => rfl) hfound with hleaf | hinner
  · cases hleaf
  · cases hinner

/-- A block is read below its alias exactly when the alias is plain. -/
theorem readable_iff [PatternLimit] (hfits : b.Fits) : b.Readable ↔ '.' ∉ b.join.asName.toList := by
  constructor
  · intro hreadable hdotted
    exact not_readable_of_dotted hfits hdotted hreadable
  · intro hplain
    exact readable_of_plain hfits hplain

end Block

/-! ## Plain names -/

theorem dot_notMem_relationAlias {target field : String} :
    '.' ∉ (relationAlias target field).toList ↔ '.' ∉ target.toList ∧ '.' ∉ field.toList := by
  show '.' ∉ ("__" ++ target ++ "/" ++ field).toList ↔ _
  simp

theorem dot_notMem_pathAlias {fields : List String} :
    '.' ∉ (pathAlias fields).toList ↔ ∀ field ∈ fields, '.' ∉ field.toList := by
  induction fields using List.reverseRecOn with
  | nil =>
    refine iff_of_true (by decide) fun field hfield => ?_
    cases hfield
  | append_singleton before field ih =>
    by_cases hbefore : before = []
    · subst hbefore
      rw [List.nil_append, pathAlias_singleton]
      simp
    · rw [pathAlias_append_singleton hbefore]
      simp only [String.toList_append, List.mem_append, not_or, ih]
      simp [or_imp, forall_and]

/-- The alias of a hop is plain when all fields up to it are. -/
theorem dot_notMem_hopPair {front : List Hop} {hop : Hop} :
    '.' ∉ (hopPair (front.map (·.field)) hop).1.asName.toList ↔
      ∀ other ∈ front ++ [hop], '.' ∉ other.field.toList := by
  show '.' ∉ (pathAlias (front.map (·.field) ++ [hop.field])).toList ↔ _
  rw [← List.map_singleton, ← List.map_append, dot_notMem_pathAlias, List.forall_mem_map]

/-- The types and attributes that aliases are made of have no dot in their names. -/
structure Context.NamesPlain (c : Context) (entries : List String) : Prop where
  relations : ∀ {name relation}, c.Joins name relation →
    '.' ∉ relation.target.toList ∧ '.' ∉ name.toList
  paths : ∀ {hops}, c.Reaches entries hops → ∀ hop ∈ hops, '.' ∉ hop.field.toList

namespace Context

variable {c : Context} {entries : List String}

/-- Positions stand beside the alias, if they are recorded. -/
theorem eq_indexName_of_mem_pairs {pair : Join × Flatten} (h : pair ∈ c.pairs entries) :
    ∀ field ∈ pair.2.indexField, field = indexName pair.1.asName := by
  intro field hfield
  rcases List.mem_append.mp h with hrelation | hpath
  · obtain ⟨name, relation, target, -, -, rfl⟩ := mem_flatMap_relationPairs.mp hrelation
    exact (Option.some.inj hfield).symm
  · obtain ⟨front, hop, -, rfl⟩ := mem_flatMap_pathPairs.mp hpath
    cases hfield

/-- Aliases are plain exactly when the names that they are made of are. -/
theorem namesPlain_iff : c.NamesPlain entries ↔
    ∀ pair ∈ c.pairs entries, '.' ∉ pair.1.asName.toList := by
  constructor
  · intro hnames pair hpair
    rcases List.mem_append.mp hpair with hrelation | hpath
    · obtain ⟨name, relation, target, hr, ht, rfl⟩ := mem_flatMap_relationPairs.mp hrelation
      exact dot_notMem_relationAlias.mpr (hnames.relations ⟨hr, target, ht⟩)
    · obtain ⟨front, hop, hreaches, rfl⟩ := mem_flatMap_pathPairs.mp hpath
      exact dot_notMem_hopPair.mpr (hnames.paths hreaches)
  · intro hplain
    refine ⟨fun hjoins => ?_, fun hreaches => ?_⟩
    · obtain ⟨target, hpair⟩ := hjoins.exists_pair entries
      exact dot_notMem_relationAlias.mp (hplain _ hpair)
    · obtain ⟨front, hop, rfl⟩ := hreaches.exists_last
      exact dot_notMem_hopPair.mp (hplain _ hreaches.pair_mem)

end Context

/-! ## Accepted plans -/

namespace Plan

theorem Laid.fits {plan : Plan} {c : Context} {entries : List String} {draft : Draft}
    {blocks : List Block} (h : plan.Laid c entries draft blocks) {b : Block} (hb : b ∈ blocks) :
    b.Fits :=
  ⟨h.sound hb, Context.eq_indexName_of_mem_pairs (h.holds.pair_mem hb)⟩

/-- Where joined documents are read below their aliases. An accepted plan expands by blocks,
and each of them is readable exactly when its alias has no dot. So all are readable exactly
when no joined relation, its target or a field followed has a dot in its name. -/
theorem readable_iff_namesPlain [PatternLimit] (registry : Registry) (options : Options)
    (request : SearchRequest) (plan : Plan) (schema : Schema)
    (hschema : registry.get? request.type = some schema)
    (haccepted : (Plan.ofRequest registry options request).result = .ok plan) :
    ∃ blocks : List Block, plan.expansion = blocks.flatMap Block.stages ∧
      (∀ b ∈ blocks, b.Readable ↔ '.' ∉ b.join.asName.toList) ∧
      ((∀ b ∈ blocks, b.Readable) ↔
        Context.NamesPlain (.ofRequest registry options schema request)
          (Context.pathEntries schema request)) := by
  obtain ⟨draft, blocks, hlaid⟩ := Plan.exists_laid hschema haccepted
  have heach : ∀ b ∈ blocks, b.Readable ↔ '.' ∉ b.join.asName.toList := by
    intro b hb
    exact Block.readable_iff (hlaid.fits hb)
  refine ⟨blocks, hlaid.expansion, heach, ?_⟩
  rw [Context.namesPlain_iff]
  constructor
  · intro hreadable pair hpair
    obtain ⟨b, hb, hkey⟩ := hlaid.holds.exists_block hpair
    have hname : b.join.asName = pair.1.asName := congrArg (·.2.2) hkey
    rw [← hname]
    exact (heach b hb).mp (hreadable b hb)
  · intro hplain b hb
    exact (heach b hb).mpr (hplain _ (hlaid.holds.pair_mem hb))

section

attribute [local instance] PatternLimit.unbounded

/-- The joins for orders by owner and company are read below their aliases. -/
theorem readable_ownerRequest :
    ∃ (plan : Plan) (schema : Schema) (blocks : List Block),
      (Plan.ofRequest orders .standard ownerRequest).result = .ok plan ∧
      orders.get? ownerRequest.type = some schema ∧
      plan.expansion = blocks.flatMap Block.stages ∧
      blocks.map (·.join.asName) = ["__person/owner", "__owner", "__owner/company"] ∧
      ∀ b ∈ blocks, b.Readable := by
  obtain ⟨plan, haccepted, hcheck⟩ := Plan.exists_of_check
    (Plan.ofRequest orders .standard ownerRequest).result
    (fun plan => plan.joins.map (·.asName) = ["__person/owner", "__owner", "__owner/company"])
    (by decide +kernel)
  obtain ⟨schema, criteria, draft, -, hschema, -, -⟩ := Plan.exists_laid_of_accepted haccepted
  obtain ⟨blocks, hexpansion, heach, -⟩ :=
    readable_iff_namesPlain orders .standard ownerRequest plan schema hschema haccepted
  have hnames : blocks.map (·.join.asName) = ["__person/owner", "__owner", "__owner/company"] := by
    rw [← of_decide_eq_true hcheck, joins_eq_of_expansion hexpansion, List.map_map]
    rfl
  refine ⟨plan, schema, blocks, haccepted, hschema, hexpansion, hnames, fun b hb => ?_⟩
  have hname : b.join.asName ∈ ["__person/owner", "__owner", "__owner/company"] :=
    hnames ▸ List.mem_map_of_mem hb
  have hplain : ∀ name ∈ ["__person/owner", "__owner", "__owner/company"], '.' ∉ name.toList := by
    decide
  exact (heach b hb).mpr (hplain _ hname)

end

/-- Orders whose owner is a person of a type with a dot in its name. -/
def dotted : Registry :=
  (Registry.ofSchemas [
    (Schema.make "order" "1").withAttribute "owner"
      ((Attribute.ofTarget "crm.person").withTraversalKey "name"),
    (Schema.make "crm.person" "1").withAttribute "name" (.ofScalar .string)]).toOption.getD .empty

section

attribute [local instance] PatternLimit.unbounded

/-- The owner of an order is joined under an alias that is cut at its dot. -/
theorem not_readable_dotted :
    ∃ (plan : Plan) (b : Block),
      (Plan.ofRequest dotted .standard (.ofType "order")).result = .ok plan ∧
      plan.expansion = b.stages ∧ b.join.asName = "__crm.person/owner" ∧ ¬b.Readable := by
  obtain ⟨plan, haccepted, hcheck⟩ := Plan.exists_of_check
    (Plan.ofRequest dotted .standard (.ofType "order")).result
    (fun plan => plan.joins.map (·.asName) = ["__crm.person/owner"]) (by decide +kernel)
  obtain ⟨schema, criteria, draft, blocks, -, -, hlaid⟩ := Plan.exists_laid_of_accepted haccepted
  have hnames := of_decide_eq_true hcheck
  rw [joins_eq_of_expansion hlaid.expansion, List.map_map] at hnames
  obtain ⟨b, rfl, hname⟩ := List.map_eq_singleton_iff.mp hnames
  refine ⟨plan, b, haccepted, ?_, hname, ?_⟩
  · rw [hlaid.expansion, List.flatMap_singleton]
  · refine Block.not_readable_of_dotted (hlaid.fits List.mem_cons_self) ?_
    rw [show b.join.asName = "__crm.person/owner" from hname]
    decide

end

end Plan

end JoinPlan
