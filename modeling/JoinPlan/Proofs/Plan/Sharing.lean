import JoinPlan.Text.Split
import JoinPlan.Proofs.OrderedSet
import JoinPlan.Proofs.Plan.Layout
import Mathlib.Data.List.Forall2
import Mathlib.Data.List.Infix

/-!
# Paths share the joins of their common beginnings

Routes from one type that begin alike ask for the same joins. This file supplies that a
builder which is given the joins of all routes keeps one join for each list of fields that
begins a route, where the list occurs first.

> `StandsFor`: a join and its flattening are those of a list of fields, each field a
> relation to a registered type.

It rests on two facts. Names without a slash can be read back from an alias, so two lists
of fields never have one alias (`pathAlias_inj`). And a list of fields determines the hops
that follow it, hence the join, so joins with one alias are the same join
(`StandsFor.unique`): the builder drops just what `insertNew` drops
(`firstJoins_eq_insertNew`).
-/

namespace JoinPlan

/-! ## Lists where every element rests on earlier ones -/

/-- Every element has the property with respect to those before it. -/
def EachAfter {α : Type} (P : List α → α → Prop) (xs : List α) : Prop :=
  ∀ front x back, xs = front ++ x :: back → P front x

section EachAfter

variable {α : Type} {P : List α → α → Prop} {xs ys : List α}

theorem eachAfter_nil : EachAfter P [] := by
  intro front x back h
  simp at h

theorem eachAfter_concat {x : α} : EachAfter P (xs ++ [x]) ↔ EachAfter P xs ∧ P xs x := by
  constructor
  · intro h
    refine ⟨fun front y back hxs => h front y (back ++ [x]) ?_, h xs x [] rfl⟩
    rw [hxs, List.append_assoc, List.cons_append]
  · rintro ⟨hxs, hx⟩ front y back h
    rcases List.eq_nil_or_concat back with rfl | ⟨back', z, rfl⟩
    · obtain ⟨rfl, hy⟩ := List.append_inj' h rfl
      obtain rfl := List.singleton_inj.mp hy
      exact hx
    · rw [List.concat_eq_append, ← List.cons_append, ← List.append_assoc] at h
      exact hxs front y back' (List.append_inj' h rfl).1

theorem EachAfter.append (hmono : ∀ {zs zs' : List α} {x : α}, zs ⊆ zs' → P zs x → P zs' x)
    (hxs : EachAfter P xs) (hys : EachAfter P ys) : EachAfter P (xs ++ ys) := by
  induction ys using List.reverseRecOn with
  | nil => rwa [List.append_nil]
  | append_singleton ys y ih =>
    obtain ⟨hys, hy⟩ := eachAfter_concat.mp hys
    rw [← List.append_assoc]
    exact eachAfter_concat.mpr ⟨ih hys, hmono (List.subset_append_right xs ys) hy⟩

theorem EachAfter.flatMap {β : Type} {f : β → List α} {items : List β}
    (hmono : ∀ {zs zs' : List α} {x : α}, zs ⊆ zs' → P zs x → P zs' x)
    (h : ∀ item, EachAfter P (f item)) : EachAfter P (items.flatMap f) := by
  induction items with
  | nil => exact eachAfter_nil
  | cons item rest ih =>
    rw [List.flatMap_cons]
    exact (h item).append hmono ih

/-- Dropping repetitions keeps such a list. -/
theorem EachAfter.insertNew [BEq α] [LawfulBEq α]
    (hmono : ∀ {zs zs' : List α} {x : α}, zs ⊆ zs' → P zs x → P zs' x)
    (h : EachAfter P xs) : EachAfter P (insertNew [] .back xs) := by
  induction xs using List.reverseRecOn with
  | nil => exact eachAfter_nil
  | append_singleton xs x ih =>
    obtain ⟨hxs, hx⟩ := eachAfter_concat.mp h
    rw [insertNew_append]
    show EachAfter P (insertOne .back (JoinPlan.insertNew [] .back xs) x)
    by_cases hin : x ∈ JoinPlan.insertNew [] .back xs
    · rw [insertOne_of_mem hin]
      exact ih hxs
    · rw [insertOne_back_of_notMem hin]
      exact eachAfter_concat.mpr ⟨ih hxs, hmono (fun y hy => mem_insertNew.mpr (.inr hy)) hx⟩

end EachAfter

/-! ## Beginnings of a list of fields -/

/-- The lists that begin a list, the shortest first and the empty one apart. -/
def beginnings (fields : List String) : List (List String) := fields.inits.tail

/-- The list without its last field is empty or among the earlier ones. -/
def Extends (earlier : List (List String)) (fields : List String) : Prop :=
  fields.dropLast = [] ∨ fields.dropLast ∈ earlier

theorem beginnings_cons (field : String) (rest : List String) :
    beginnings (field :: rest) = [field] :: (beginnings rest).map (field :: ·) := by
  cases rest <;> simp [beginnings]

theorem beginnings_concat (fields : List String) (last : String) :
    beginnings (fields ++ [last]) = beginnings fields ++ [fields ++ [last]] := by
  unfold beginnings
  rw [List.inits_append, List.tail_append_of_ne_nil (by cases fields <;> simp)]
  rfl

theorem mem_beginnings {fields start : List String} :
    start ∈ beginnings fields ↔ start ≠ [] ∧ start <+: fields := by
  induction fields using List.reverseRecOn with
  | nil => simp [beginnings]
  | append_singleton fields last ih =>
    rw [beginnings_concat, List.mem_append, ih, List.mem_singleton, List.prefix_concat_iff]
    constructor
    · rintro (⟨hne, hstart⟩ | rfl)
      · exact ⟨hne, .inr hstart⟩
      · exact ⟨by simp, .inl rfl⟩
    · rintro ⟨hne, rfl | hstart⟩
      · exact .inr rfl
      · exact .inl ⟨hne, hstart⟩

theorem Extends.mono {earlier others : List (List String)} {fields : List String}
    (hsub : earlier ⊆ others) (h : Extends earlier fields) : Extends others fields :=
  h.imp_right fun hmem => hsub hmem

theorem eachAfter_beginnings (fields : List String) : EachAfter Extends (beginnings fields) := by
  induction fields using List.reverseRecOn with
  | nil => exact eachAfter_nil
  | append_singleton fields last ih =>
    rw [beginnings_concat]
    refine eachAfter_concat.mpr ⟨ih, ?_⟩
    unfold Extends
    rw [List.dropLast_concat, mem_beginnings]
    by_cases hfields : fields = []
    · exact .inl hfields
    · exact .inr ⟨hfields, List.prefix_rfl⟩

/-! ## Aliases tell fields apart -/

/-- Names without a slash can be read back from an alias. -/
theorem pathAlias_inj {fields others : List String} (hfields : fields ≠ [])
    (hothers : others ≠ []) (hslash : ∀ field ∈ fields, '/' ∉ field.toList)
    (hslash' : ∀ field ∈ others, '/' ∉ field.toList)
    (h : pathAlias fields = pathAlias others) : fields = others := by
  have hjoined : "/".intercalate fields = "/".intercalate others :=
    (String.append_right_inj "__").mp h
  rw [← Text.split_intercalate hfields hslash, ← Text.split_intercalate hothers hslash']
  exact congrArg (Text.split '/') hjoined

/-- Where the key tells the joins apart, keeping first joins is dropping repetitions. -/
theorem firstJoins_eq_insertNew {set pairs : List (Join × Flatten)}
    (h : ∀ p ∈ set ++ pairs, ∀ q ∈ set ++ pairs, p.1.key = q.1.key → p = q) :
    set ++ firstJoins (set.map (·.1.key)) pairs = insertNew set .back pairs := by
  -- On both sides `set` grows with what is kept, on the one as joins, on the other as keys.
  induction pairs generalizing set with
  | nil => simp [firstJoins, insertNew]
  | cons pair rest ih =>
    show _ = insertNew (insertOne .back set pair) .back rest
    by_cases hin : pair ∈ set
    · have hkey : pair.1.key ∈ set.map (·.1.key) := List.mem_map.mpr ⟨pair, hin, rfl⟩
      rw [firstJoins_cons_of_mem hkey, insertOne_of_mem hin]
      exact ih fun p hp q hq => h p (mem_append_cons pair hp) q (mem_append_cons pair hq)
    · have hnew : pair.1.key ∉ set.map (·.1.key) := by
        intro hmem
        obtain ⟨p, hp, hkey⟩ := List.mem_map.mp hmem
        have hsame : p = pair := h p (List.mem_append_left _ hp) pair (by simp) hkey
        exact hin (hsame ▸ hp)
      rw [← List.singleton_append, ← List.append_assoc] at h
      have htail := ih h
      rw [firstJoins_cons_of_notMem hnew, insertOne_back_of_notMem hin, ← htail, List.map_append,
        List.append_assoc]
      rfl

namespace Builder

/-- A builder that was given joins only. -/
def ofPairs (pairs : List (Join × Flatten)) : Builder :=
  pairs.foldl (fun b (join, flatten) => b.pushJoin join flatten) .empty

/-- The stages of a join with its flattening. -/
def pairStages (pair : Join × Flatten) : List Stage := [.join pair.1, .flatten pair.2]

theorem exists_holds_ofPairs (pairs : List (Join × Flatten)) :
    ∃ blocks, (ofPairs pairs).Holds pairs [] blocks := by
  obtain ⟨blocks, h⟩ := holds_foldl_pushJoin pairs holds_empty
  exact ⟨blocks, h⟩

/-- A builder that was given joins only holds the first ones, each with its flattening. -/
theorem stages_ofPairs (pairs : List (Join × Flatten)) :
    (ofPairs pairs).stages = (firstJoins [] pairs).flatMap pairStages := by
  obtain ⟨blocks, h⟩ := exists_holds_ofPairs pairs
  have hfilters : ∀ block ∈ blocks, block.filters = [] := by
    intro block hblock
    have hnamed := List.flatMap_eq_nil_iff.mp (List.perm_nil.mp h.filters) block hblock
    exact List.map_eq_nil_iff.mp hnamed
  rw [h.stages, ← h.pairs, List.flatMap_map]
  refine List.flatMap_congr fun block hblock => ?_
  rw [Block.stages, hfilters block hblock]
  rfl

/-- A join that is refused has the key of one that was given. -/
theorem exists_mem_of_refused {pairs : List (Join × Flatten)} {join : Join}
    (h : (ofPairs pairs).accepts join = false) :
    ∃ kept ∈ firstJoins [] pairs, kept.1.key = join.key := by
  obtain ⟨blocks, hblocks⟩ := exists_holds_ofPairs pairs
  have htaken : join.key ∈ (ofPairs pairs).taken := by
    simpa [accepts] using h
  rw [hblocks.taken] at htaken
  obtain ⟨block, hblock, hkey⟩ := List.mem_map.mp htaken
  rw [← hblocks.pairs]
  exact ⟨block.pair, List.mem_map_of_mem hblock, hkey⟩

end Builder

/-! ## The join of a list of fields -/

/-- The join and its flattening are those of a list of fields from the type. -/
structure StandsFor (registry : Registry) (type : String) (fields : List String)
    (pair : Join × Flatten) : Prop where
  asName : pair.1.asName = "__" ++ "/".intercalate fields
  flatten : pair.2 = .preserving pair.1.asName
  /-- The reference that is followed stands on the document itself, or under the alias of
  the fields before the last one. -/
  reads : ∃ before last, fields = before ++ [last] ∧
    (before = [] ∧ pair.1.localField = last ++ "." ++ referenceKey ∨
      before ≠ [] ∧ pair.1.localField =
        "__" ++ "/".intercalate before ++ "." ++ last ++ "." ++ referenceKey)
  /-- What is found are documents of the type that the fields lead to. -/
  finds : ∃ base hops hop, registry.get? type = some base ∧
    Follows registry base (hops ++ [hop]) ∧ fields = (hops ++ [hop]).map (·.field) ∧
    pair.1.source = hop.target ∧ pair.1.foreignField = hop.foreignField

section StandsFor

variable {registry : Registry} {type : String} {fields : List String} {pair other : Join × Flatten}

theorem standsFor_hopPair {base : Schema} {hops : List Hop} {hop : Hop}
    (hbase : registry.get? type = some base) (hfollows : Follows registry base (hops ++ [hop])) :
    StandsFor registry type ((hops ++ [hop]).map (·.field)) (hopPair (hops.map (·.field)) hop) := by
  rw [List.map_append, List.map_singleton]
  refine ⟨rfl, rfl, ⟨hops.map (·.field), hop.field, rfl, ?_⟩,
    ⟨base, hops, hop, hbase, hfollows, by rw [List.map_append, List.map_singleton], rfl, rfl⟩⟩
  cases hops with
  | nil => exact .inl ⟨rfl, rfl⟩
  | cons first rest => exact .inr ⟨by simp, rfl⟩

theorem StandsFor.ne_nil (h : StandsFor registry type fields pair) : fields ≠ [] := by
  obtain ⟨before, last, rfl, -⟩ := h.reads
  simp

/-- A list of fields has one join. -/
theorem StandsFor.unique (h : StandsFor registry type fields pair)
    (ho : StandsFor registry type fields other) : pair = other := by
  obtain ⟨base, hops, hop, hbase, hfollows, hfields, hsource, hforeign⟩ := h.finds
  obtain ⟨base', hops', hop', hbase', hfollows', hfields', hsource', hforeign'⟩ := ho.finds
  rw [hbase] at hbase'
  obtain rfl := Option.some.inj hbase'
  have hall := hfollows.eq_of_fields hfollows' (hfields.symm.trans hfields')
  obtain ⟨-, hhop⟩ := List.append_inj' hall rfl
  obtain rfl := List.singleton_inj.mp hhop
  have hlocal : pair.1.localField = other.1.localField := by
    obtain ⟨before, last, hsplit, hreads⟩ := h.reads
    obtain ⟨before', last', hsplit', hreads'⟩ := ho.reads
    obtain ⟨rfl, hlast⟩ := List.append_inj' (hsplit.symm.trans hsplit') rfl
    obtain rfl := List.singleton_inj.mp hlast
    rcases hreads with ⟨hnil, hlocal⟩ | ⟨hne, hlocal⟩ <;>
      rcases hreads' with ⟨hnil', hlocal'⟩ | ⟨hne', hlocal'⟩
    · exact hlocal.trans hlocal'.symm
    · exact absurd hnil hne'
    · exact absurd hnil' hne
    · exact hlocal.trans hlocal'.symm
  have hname : pair.1.asName = other.1.asName := h.asName.trans ho.asName.symm
  have hjoin : pair.1 = other.1 := by
    cases hp : pair.1
    cases hq : other.1
    simp_all
  exact Prod.ext hjoin (by rw [h.flatten, ho.flatten, hname])

end StandsFor

/-! ## Routes with their fields -/

/-- The joins of hops, each under the fields that lead to it. -/
def labelledFrom (before : List String) : List Hop → List (List String × (Join × Flatten))
  | [] => []
  | hop :: rest =>
    (before ++ [hop.field], hopPair before hop) :: labelledFrom (before ++ [hop.field]) rest

theorem map_snd_labelledFrom (before : List String) (hops : List Hop) :
    (labelledFrom before hops).map Prod.snd = joinsFrom before hops := by
  induction hops generalizing before with
  | nil => rfl
  | cons hop rest ih => rw [labelledFrom, List.map_cons, ih, joinsFrom_cons]

theorem map_fst_labelledFrom (before : List String) (hops : List Hop) :
    (labelledFrom before hops).map Prod.fst =
      (beginnings (hops.map (·.field))).map (before ++ ·) := by
  induction hops generalizing before with
  | nil => rfl
  | cons hop rest ih =>
    rw [labelledFrom, List.map_cons, ih, List.map_cons, beginnings_cons, List.map_cons,
      List.map_map]
    refine congrArg _ (List.map_congr_left fun fields _ => ?_)
    rw [List.append_assoc]
    rfl

theorem exists_of_mem_labelledFrom {before : List String} {hops : List Hop}
    {entry : List String × (Join × Flatten)} (h : entry ∈ labelledFrom before hops) :
    ∃ front hop back, hops = front ++ hop :: back ∧
      entry = (before ++ (front ++ [hop]).map (·.field),
        hopPair (before ++ front.map (·.field)) hop) := by
  induction hops generalizing before with
  | nil => cases h
  | cons hop rest ih =>
    rcases List.mem_cons.mp h with rfl | h
    · exact ⟨[], hop, rest, rfl, by simp⟩
    · obtain ⟨front, hop', back, rfl, rfl⟩ := ih h
      exact ⟨hop :: front, hop', back, rfl, by simp⟩

namespace Route

variable {registry : Registry} {options : Options} {type : String} {paths : List (List String)}

/-- The fields that a route follows. -/
def fields (route : Route) : List String := route.hops.map (·.field)

/-- The joins of a route, each under the fields that lead to it. -/
def labelled (route : Route) : List (List String × (Join × Flatten)) := labelledFrom [] route.hops

theorem map_fst_labelled (route : Route) :
    route.labelled.map Prod.fst = beginnings route.fields := by
  unfold labelled fields
  rw [map_fst_labelledFrom]
  simp

theorem map_snd_labelled (route : Route) : route.labelled.map Prod.snd = route.joins :=
  map_snd_labelledFrom [] route.hops

/-- Each join of a route stands for the fields that lead to it. -/
theorem standsFor_of_mem_labelled {segments : List String}
    {entry : List String × (Join × Flatten)}
    (h : entry ∈ (resolve registry options type segments).labelled) :
    StandsFor registry type entry.1 entry.2 := by
  obtain ⟨front, hop, back, hhops, rfl⟩ := exists_of_mem_labelledFrom h
  have hhop : hop ∈ (resolve registry options type segments).hops := by
    rw [hhops]
    exact List.mem_append_right _ List.mem_cons_self
  obtain ⟨base, hbase⟩ := exists_base_of_mem_hops hhop
  have hfollows : Follows registry base (resolve registry options type segments).hops :=
    resolve_hops_follows hbase
  rw [hhops, ← List.singleton_append, ← List.append_assoc] at hfollows
  exact standsFor_hopPair hbase hfollows.left

/-- A route that is asked for in names without a slash follows fields without one. -/
theorem slash_notMem_fields {segments : List String} (hparent : '/' ∉ options.parentField.toList)
    (hsegments : ∀ segment ∈ segments, '/' ∉ segment.toList) :
    ∀ field ∈ (resolve registry options type segments).fields, '/' ∉ field.toList := by
  intro field hfield
  have hstart : (resolve registry options type segments).fields <+:
      segments.map options.fieldOf := prefix_fields_walk options _ segments
  obtain ⟨segment, hsegment, rfl⟩ := List.mem_map.mp (hstart.subset hfield)
  unfold Options.fieldOf
  split
  · exact hparent
  · exact hsegments segment hsegment

end Route

/-! ## Sharing -/

/-- The lists of fields that begin a route, each where it occurs first. -/
def sharedFields (routes : List Route) : List (List String) :=
  insertNew [] .back (routes.flatMap fun route => beginnings route.fields)

/-- The fields before the last one begin a route too, which occurs before. -/
theorem eachAfter_sharedFields (routes : List Route) : EachAfter Extends (sharedFields routes) :=
  EachAfter.insertNew Extends.mono (EachAfter.flatMap Extends.mono fun route =>
    eachAfter_beginnings route.fields)

section Sharing

variable {registry : Registry} {options : Options} {type : String} {paths : List (List String)}

/-- The routes of paths from the type. -/
def routesOf (registry : Registry) (options : Options) (type : String)
    (paths : List (List String)) : List Route :=
  paths.map (Route.resolve registry options type)

/-- The lists that begin a route are what the paths begin with, as far as it can be
followed. -/
theorem mem_sharedFields_routesOf {fields : List String} :
    fields ∈ sharedFields (routesOf registry options type paths) ↔
      fields ≠ [] ∧ (∃ path ∈ paths, fields <+: path.map options.fieldOf) ∧
        ∃ base hops, registry.get? type = some base ∧ Follows registry base hops ∧
          hops.map (·.field) = fields := by
  have hroutes : fields ∈ sharedFields (routesOf registry options type paths) ↔
      ∃ path ∈ paths, fields ≠ [] ∧
        fields <+: (Route.resolve registry options type path).hops.map (·.field) := by
    unfold sharedFields routesOf
    rw [mem_insertNew, List.flatMap_map, List.mem_flatMap]
    simp only [List.not_mem_nil, false_or, mem_beginnings, Route.fields]
  rw [hroutes]
  constructor
  · rintro ⟨path, hpath, hne, hstart⟩
    obtain ⟨hfields, hfollowed⟩ := (Route.prefix_fields_iff hne).mp hstart
    exact ⟨hne, ⟨path, hpath, hfields⟩, hfollowed⟩
  · rintro ⟨hne, ⟨path, hpath, hfields⟩, hfollowed⟩
    exact ⟨path, hpath, hne, (Route.prefix_fields_iff hne).mpr ⟨hfields, hfollowed⟩⟩

/-- The joins of paths, each under the fields that lead to it. -/
def labelledJoins (registry : Registry) (options : Options) (type : String)
    (paths : List (List String)) : List (List String × (Join × Flatten)) :=
  (routesOf registry options type paths).flatMap Route.labelled

theorem map_fst_labelledJoins : (labelledJoins registry options type paths).map Prod.fst =
    (routesOf registry options type paths).flatMap fun route => beginnings route.fields := by
  unfold labelledJoins
  rw [List.map_flatMap]
  exact List.flatMap_congr fun route _ => route.map_fst_labelled

theorem map_snd_labelledJoins : (labelledJoins registry options type paths).map Prod.snd =
    (routesOf registry options type paths).flatMap Route.joins := by
  unfold labelledJoins
  rw [List.map_flatMap]
  exact List.flatMap_congr fun route _ => route.map_snd_labelled

theorem standsFor_of_mem_labelledJoins {entry : List String × (Join × Flatten)}
    (h : entry ∈ labelledJoins registry options type paths) :
    StandsFor registry type entry.1 entry.2 := by
  obtain ⟨route, hroute, hentry⟩ := List.mem_flatMap.mp h
  obtain ⟨path, -, rfl⟩ := List.mem_map.mp hroute
  exact Route.standsFor_of_mem_labelled hentry

/-- The lists that begin a route are those of the first joins. -/
theorem sharedFields_eq : sharedFields (routesOf registry options type paths) =
    (insertNew [] .back (labelledJoins registry options type paths)).map Prod.fst := by
  have hunique : ∀ entry ∈ [] ++ labelledJoins registry options type paths,
      ∀ other ∈ [] ++ labelledJoins registry options type paths,
        entry.1 = other.1 → entry = other := by
    intro entry hentry other hother hfields
    have hother := standsFor_of_mem_labelledJoins hother
    rw [← hfields] at hother
    exact Prod.ext hfields ((standsFor_of_mem_labelledJoins hentry).unique hother)
  unfold sharedFields
  rw [map_insertNew_back hunique, map_fst_labelledJoins]
  rfl

section Slashless

variable (hparent : '/' ∉ options.parentField.toList)
  (hpaths : ∀ path ∈ paths, ∀ segment ∈ path, '/' ∉ segment.toList)

include hparent hpaths

/-- Joins of paths with one alias are one join, under one list of fields. -/
theorem eq_of_asName_eq {entry other : List String × (Join × Flatten)}
    (h : entry ∈ labelledJoins registry options type paths)
    (ho : other ∈ labelledJoins registry options type paths)
    (hname : entry.2.1.asName = other.2.1.asName) : entry = other := by
  have hslash : ∀ e ∈ labelledJoins registry options type paths,
      ∀ field ∈ e.1, '/' ∉ field.toList := by
    intro e he field hfield
    obtain ⟨route, hroute, he⟩ := List.mem_flatMap.mp he
    obtain ⟨path, hpath, rfl⟩ := List.mem_map.mp hroute
    have hstart : e.1 ∈ beginnings (Route.resolve registry options type path).fields := by
      rw [← Route.map_fst_labelled]
      exact List.mem_map_of_mem he
    exact Route.slash_notMem_fields hparent (hpaths path hpath) field
      ((mem_beginnings.mp hstart).2.subset hfield)
  -- The alias gives the fields back, and a list of fields has one join.
  have hstands := standsFor_of_mem_labelledJoins h
  have hostands := standsFor_of_mem_labelledJoins ho
  have hfields : entry.1 = other.1 := by
    refine pathAlias_inj hstands.ne_nil hostands.ne_nil (hslash entry h) (hslash other ho) ?_
    exact hstands.asName.symm.trans (hname.trans hostands.asName)
  rw [← hfields] at hostands
  exact Prod.ext hfields (hstands.unique hostands)

theorem eq_of_key_eq {pair other : Join × Flatten}
    (h : pair ∈ (routesOf registry options type paths).flatMap Route.joins)
    (ho : other ∈ (routesOf registry options type paths).flatMap Route.joins)
    (hkey : pair.1.key = other.1.key) : pair = other := by
  rw [← map_snd_labelledJoins] at h ho
  obtain ⟨entry, hentry, rfl⟩ := List.mem_map.mp h
  obtain ⟨entry', hentry', rfl⟩ := List.mem_map.mp ho
  rw [eq_of_asName_eq hparent hpaths hentry hentry' (congrArg (·.2.2) hkey)]

/-- The first joins of paths are those of the lists that begin a route. -/
theorem firstJoins_joins_eq :
    firstJoins [] ((routesOf registry options type paths).flatMap Route.joins) =
      (insertNew [] .back (labelledJoins registry options type paths)).map Prod.snd := by
  have hunique : ∀ entry ∈ [] ++ labelledJoins registry options type paths,
      ∀ other ∈ [] ++ labelledJoins registry options type paths,
        entry.2 = other.2 → entry = other := fun entry hentry other hother hpair =>
    eq_of_asName_eq hparent hpaths hentry hother (congrArg (·.1.asName) hpair)
  have hkeys : ∀ p ∈ [] ++ (routesOf registry options type paths).flatMap Route.joins,
      ∀ q ∈ [] ++ (routesOf registry options type paths).flatMap Route.joins,
        p.1.key = q.1.key → p = q := fun p hp q hq => eq_of_key_eq hparent hpaths hp hq
  rw [map_insertNew_back hunique, map_snd_labelledJoins]
  exact firstJoins_eq_insertNew hkeys

/-- A join of a path that is refused is there, in all its fields. -/
theorem join_mem_of_refused {front back : List (Join × Flatten)} {pair : Join × Flatten}
    (hsplit : (routesOf registry options type paths).flatMap Route.joins = front ++ pair :: back)
    (hrefused : (Builder.ofPairs front).accepts pair.1 = false) :
    Stage.join pair.1 ∈ (Builder.ofPairs front).stages := by
  -- Refusal compares three fields only; the fourth follows, since the key tells the join.
  obtain ⟨kept, hkept, hkey⟩ := Builder.exists_mem_of_refused hrefused
  have hmem : kept ∈ (routesOf registry options type paths).flatMap Route.joins := by
    rw [hsplit]
    exact List.mem_append_left _ (mem_of_mem_firstJoins hkept).1
  have hpair : pair ∈ (routesOf registry options type paths).flatMap Route.joins := by
    rw [hsplit]
    exact List.mem_append_right _ List.mem_cons_self
  obtain rfl := eq_of_key_eq hparent hpaths hmem hpair hkey
  rw [Builder.stages_ofPairs]
  exact List.mem_flatMap.mpr ⟨kept, hkept, List.mem_cons_self⟩

end Slashless

end Sharing

/-- Paths share the joins of their common beginnings, and of those alone. A builder that
is given the joins of paths, one route after the other, holds one join for each list of
fields that begins a route, in the order in which the lists first occur. What it refuses,
it holds. -/
theorem Builder.ofPairs_shares (registry : Registry) (options : Options) (type : String)
    (paths : List (List String)) (hparent : '/' ∉ options.parentField.toList)
    (hpaths : ∀ path ∈ paths, ∀ segment ∈ path, '/' ∉ segment.toList) :
    (∃ kept,
      (ofPairs ((routesOf registry options type paths).flatMap Route.joins)).stages =
        kept.flatMap pairStages ∧
      List.Forall₂ (StandsFor registry type)
        (sharedFields (routesOf registry options type paths)) kept) ∧
    (sharedFields (routesOf registry options type paths)).Nodup ∧
    EachAfter Extends (sharedFields (routesOf registry options type paths)) ∧
    (∀ fields, fields ∈ sharedFields (routesOf registry options type paths) ↔
      fields ≠ [] ∧ (∃ path ∈ paths, fields <+: path.map options.fieldOf) ∧
        ∃ base hops, registry.get? type = some base ∧ Follows registry base hops ∧
          hops.map (·.field) = fields) ∧
    (∀ front pair back,
      (routesOf registry options type paths).flatMap Route.joins = front ++ pair :: back →
      (ofPairs front).accepts pair.1 = false → Stage.join pair.1 ∈ (ofPairs front).stages) := by
  refine ⟨⟨(insertNew [] .back (labelledJoins registry options type paths)).map Prod.snd, ?_, ?_⟩,
    nodup_insertNew_back List.nodup_nil, eachAfter_sharedFields _,
    fun fields => mem_sharedFields_routesOf, fun front pair back hsplit hrefused =>
      join_mem_of_refused hparent hpaths hsplit hrefused⟩
  · rw [stages_ofPairs, firstJoins_joins_eq hparent hpaths]
  · rw [sharedFields_eq, List.forall₂_map_left_iff, List.forall₂_map_right_iff, List.forall₂_same]
    intro entry hentry
    have hmem := (mem_insertNew.mp hentry).resolve_left List.not_mem_nil
    exact standsFor_of_mem_labelledJoins hmem

/-- Orders inside other orders, with the companies of their owners. -/
def nestedOrders : Registry :=
  (Registry.ofSchemas [
    ((Schema.make "order" "1").withAttribute "owner" (.ofTarget "person")).withAttribute "parentID"
      (.ofTarget "order"),
    (Schema.make "person" "1").withAttribute "company" (.ofTarget "company"),
    Schema.make "company" "1"]).toOption.getD .empty

/-- Paths to the owner of the order around an order, by the marker and by the field that it
stands for, and a path to nowhere. -/
def ownerPaths : List (List String) :=
  [["~", "owner", "company"], ["parentID", "owner"], ["owner", "missing"]]

/-- Paths through the order around an order share its join, however they name it. -/
theorem Builder.exists_shared_ownerPaths :
    '/' ∉ Options.standard.parentField.toList ∧
    (∀ path ∈ ownerPaths, ∀ segment ∈ path, '/' ∉ segment.toList) ∧
    ∃ kept, (ofPairs
        ((routesOf nestedOrders .standard "order" ownerPaths).flatMap Route.joins)).stages =
        kept.flatMap pairStages ∧
      List.Forall₂ (StandsFor nestedOrders "order")
        [["parentID"], ["parentID", "owner"], ["parentID", "owner", "company"], ["owner"]]
        kept := by
  have hparent : '/' ∉ Options.standard.parentField.toList := by decide +kernel
  have hpaths : ∀ path ∈ ownerPaths, ∀ segment ∈ path, '/' ∉ segment.toList := by decide +kernel
  have hshared : sharedFields (routesOf nestedOrders .standard "order" ownerPaths) =
      [["parentID"], ["parentID", "owner"], ["parentID", "owner", "company"], ["owner"]] := by
    decide +kernel
  obtain ⟨⟨kept, hstages, hkept⟩, -⟩ :=
    ofPairs_shares nestedOrders .standard "order" ownerPaths hparent hpaths
  rw [hshared] at hkept
  exact ⟨hparent, hpaths, kept, hstages, hkept⟩

end JoinPlan
