import Mathlib.Data.List.Nodup
import Mathlib.Data.List.Pairwise
import JoinPlan.Proofs.Plan.Scoping

/-!
# When the names of an expansion differ

Joins on relations and joins of extra paths take their aliases from two schemes that
share one space of names, with the positions beside them. This file supplies the exact
condition under which no two stages of an expansion write the same key.

> `NamesApart`: no two of the names that the schema graph gives to joined relations,
> to their positions and to the field lists followed are the same text.

A builder drops a join only when its whole key was taken, so two joins of one alias can
stand side by side. `Context.eq_of_key` says that the key determines a join of a request
with its flattening: each one asked for is there, once. `Laid.nodup_writtenKeys_iff` turns
the question into one about pairs of joins, which `NamesApart` answers name by name.
The reading of a path's alias is not unique, but where two different field lists share an
alias and a key, so do the lists before their last fields (`hopPair_key_eq`).
-/

namespace JoinPlan

/-! ## Aliases as texts -/

/-- Texts that agree with two different marks at one place agree before and behind it. -/
theorem eq_of_append_cons_eq {α : Type} {x y : α} (hxy : x ≠ y) {a b f g : List α}
    (hx : a ++ x :: f = b ++ x :: g) (hy : a ++ y :: f = b ++ y :: g) : a = b ∧ f = g := by
  induction a generalizing b with
  | nil =>
    cases b with
    | nil => exact ⟨rfl, (List.cons.inj hx).2⟩
    | cons c b => exact absurd ((List.cons.inj hx).1.trans (List.cons.inj hy).1.symm) hxy
  | cons c a ih =>
    cases b with
    | nil => exact absurd ((List.cons.inj hx).1.symm.trans (List.cons.inj hy).1) hxy
    | cons d b =>
      obtain ⟨rfl, hxtail⟩ := List.cons.inj hx
      obtain ⟨-, hytail⟩ := List.cons.inj hy
      obtain ⟨rfl, hfg⟩ := ih hxtail hytail
      exact ⟨rfl, hfg⟩

theorem eq_of_dotted_of_slashed {a b f g : String} (hdot : a ++ "." ++ f = b ++ "." ++ g)
    (hslash : a ++ "/" ++ f = b ++ "/" ++ g) : a = b ∧ f = g := by
  have hmarks : '.' ≠ '/' := by decide
  have hlists := eq_of_append_cons_eq hmarks (a := a.toList) (b := b.toList) (f := f.toList)
    (g := g.toList) (by simpa using congrArg String.toList hdot)
    (by simpa using congrArg String.toList hslash)
  exact ⟨String.toList_inj.mp hlists.1, String.toList_inj.mp hlists.2⟩

/-- The name of the positions beside an alias. -/
def indexName (asName : String) : String := asName ++ "_index"

theorem ne_indexName (asName : String) : asName ≠ indexName asName := by
  intro h
  have hlength := congrArg String.length h
  simp [indexName] at hlength

theorem indexName_inj {a b : String} : indexName a = indexName b ↔ a = b :=
  String.append_left_inj "_index"

/-- The alias of a longer list of fields. -/
theorem pathAlias_append_singleton {before : List String} (h : before ≠ []) (field : String) :
    pathAlias (before ++ [field]) = pathAlias before ++ "/" ++ field := by
  unfold pathAlias
  rw [String.intercalate_append_of_ne_nil h (by simp), String.intercalate_singleton]
  simp only [String.append_assoc]

theorem pathAlias_singleton (field : String) : pathAlias [field] = "__" ++ field := by
  rw [pathAlias, String.intercalate_singleton]

theorem referencePath_of_ne_nil {before : List String} (h : before ≠ []) (field : String) :
    referencePath before field = pathAlias before ++ "." ++ field ++ "." ++ referenceKey := by
  cases before with
  | nil => exact absurd rfl h
  | cons first rest => rfl

section Length

variable {before : List String}

theorem length_relationAlias (target field : String) :
    (relationAlias target field).length = target.length + field.length + 3 := by
  show ("__" ++ target ++ "/" ++ field).length = _
  have hmarks : "__".length = 2 ∧ "/".length = 1 := ⟨rfl, rfl⟩
  simp only [String.length_append, hmarks]
  omega

theorem length_pathAlias_singleton (field : String) :
    (pathAlias [field]).length = field.length + 2 := by
  have hmark : "__".length = 2 := rfl
  rw [pathAlias_singleton, String.length_append, hmark, Nat.add_comm]

theorem length_pathAlias_append_singleton (h : before ≠ []) (field : String) :
    (pathAlias (before ++ [field])).length = (pathAlias before).length + field.length + 1 := by
  have hmark : "/".length = 1 := rfl
  rw [pathAlias_append_singleton h, String.length_append, String.length_append, hmark]
  omega

theorem length_referencePath_nil (field : String) :
    (referencePath [] field).length = field.length + referenceKey.length + 1 := by
  show (field ++ "." ++ referenceKey).length = _
  have hmark : ".".length = 1 := rfl
  rw [String.length_append, String.length_append, hmark]
  omega

theorem length_referencePath_of_ne_nil (h : before ≠ []) (field : String) :
    (referencePath before field).length =
      (pathAlias before).length + field.length + referenceKey.length + 2 := by
  have hmark : ".".length = 1 := rfl
  rw [referencePath_of_ne_nil h]
  simp only [String.length_append, hmark]
  omega

end Length

/-- A relation is never joined like a hop: of two joins that read the same reference, the
one on a relation has the longer alias. -/
theorem relationJoin_key_ne_hopPair_key (name : String) (relation : Relation) (target : Schema)
    (before : List String) (hop : Hop) :
    (Context.relationJoin name relation target).1.key ≠ (hopPair before hop).1.key := by
  intro h
  have hlocal : (referencePath [] name).length = (referencePath before hop.field).length :=
    congrArg (·.2.1.length) h
  have halias : (relationAlias relation.target name).length =
      (pathAlias (before ++ [hop.field])).length := congrArg (·.2.2.length) h
  rw [length_relationAlias] at halias
  by_cases hbefore : before = []
  · subst hbefore
    rw [List.nil_append, length_pathAlias_singleton] at halias
    rw [length_referencePath_nil, length_referencePath_nil] at hlocal
    omega
  · rw [length_pathAlias_append_singleton hbefore] at halias
    rw [length_referencePath_nil, length_referencePath_of_ne_nil hbefore] at hlocal
    omega

/-- The join of a first hop has not the key of a join of a later one. -/
theorem hopPair_nil_key_ne {others : List String} (hothers : others ≠ []) (hop other : Hop) :
    (hopPair [] hop).1.key ≠ (hopPair others other).1.key := by
  intro h
  have hlocal : (referencePath [] hop.field).length = (referencePath others other.field).length :=
    congrArg (·.2.1.length) h
  have halias : (pathAlias [hop.field]).length = (pathAlias (others ++ [other.field])).length :=
    congrArg (·.2.2.length) h
  rw [length_referencePath_nil, length_referencePath_of_ne_nil hothers] at hlocal
  rw [length_pathAlias_singleton, length_pathAlias_append_singleton hothers] at halias
  omega

/-- Joins of hops with one key have the same last field, on documents with one alias. -/
theorem hopPair_key_eq {before others : List String} {hop other : Hop}
    (h : (hopPair before hop).1.key = (hopPair others other).1.key) :
    hop.field = other.field ∧
      (before = [] ∧ others = [] ∨
        before ≠ [] ∧ others ≠ [] ∧ pathAlias before = pathAlias others) := by
  have hlocal : referencePath before hop.field = referencePath others other.field :=
    congrArg (·.2.1) h
  have halias : pathAlias (before ++ [hop.field]) = pathAlias (others ++ [other.field]) :=
    congrArg (·.2.2) h
  by_cases hbefore : before = [] <;> by_cases hothers : others = []
  · subst hbefore hothers
    exact ⟨by simpa [referencePath] using hlocal, .inl ⟨rfl, rfl⟩⟩
  · subst hbefore
    exact absurd h (hopPair_nil_key_ne hothers hop other)
  · subst hothers
    exact absurd h.symm (hopPair_nil_key_ne hbefore other hop)
  · rw [referencePath_of_ne_nil hbefore, referencePath_of_ne_nil hothers,
      String.append_left_inj, String.append_left_inj] at hlocal
    rw [pathAlias_append_singleton hbefore, pathAlias_append_singleton hothers] at halias
    obtain ⟨hnames, hfields⟩ := eq_of_dotted_of_slashed hlocal halias
    exact ⟨hfields, .inr ⟨hbefore, hothers, hnames⟩⟩

/-! ## The joins of a request by name -/

namespace Context

/-- The schema has the relation under the name, and it is joined. -/
def Joins (c : Context) (name : String) (relation : Relation) : Prop :=
  c.schema.relation? name = some relation ∧ ∃ target, c.joinedSchema? relation = some target

/-- The hops begin the route of an entry that leads somewhere. -/
def Reaches (c : Context) (entries : List String) (hops : List Hop) : Prop :=
  hops ≠ [] ∧ ∃ entry ∈ entries, ∃ path route,
    c.completePath? entry = some (path, route) ∧ hops <+: route.hops

section Membership

variable {c : Context} {entries : List String} {pair : Join × Flatten}

theorem Reaches.of_append {front : List Hop} {hop : Hop}
    (h : c.Reaches entries (front ++ [hop])) (hne : front ≠ []) : c.Reaches entries front := by
  obtain ⟨-, entry, hentry, path, route, hpath, hroute⟩ := h
  exact ⟨hne, entry, hentry, path, route, hpath, (List.prefix_append front [hop]).trans hroute⟩

theorem Reaches.follows {hops : List Hop} (h : c.Reaches entries hops)
    (hbase : c.registry.get? c.schema.name = some c.schema) : Follows c.registry c.schema hops := by
  obtain ⟨-, entry, -, path, route, hpath, rest, hroute⟩ := h
  obtain ⟨-, rfl, -⟩ := completePath?_eq_some.mp hpath
  have hfollows : Follows c.registry c.schema
      (Route.resolve c.registry c.options c.schema.name path.segments).hops :=
    Route.resolve_hops_follows hbase
  rw [← hroute] at hfollows
  exact hfollows.left

theorem mem_flatMap_relationPairs : pair ∈ c.schema.relations.flatMap c.relationPairs ↔
    ∃ name relation target, c.schema.relation? name = some relation ∧
      c.joinedSchema? relation = some target ∧ pair = relationJoin name relation target := by
  rw [List.mem_flatMap]
  constructor
  · rintro ⟨⟨name, relation⟩, hentry, hpair⟩
    unfold relationPairs at hpair
    split at hpair
    · cases hpair
    · next target htarget =>
      exact ⟨name, relation, target, Schema.mem_relations_iff.mp hentry, htarget,
        List.mem_singleton.mp hpair⟩
  · rintro ⟨name, relation, target, hrelation, htarget, rfl⟩
    refine ⟨(name, relation), Schema.mem_relations_iff.mpr hrelation, ?_⟩
    simp only [relationPairs, htarget, List.mem_singleton]

theorem mem_flatMap_pathPairs : pair ∈ entries.flatMap c.pathPairs ↔
    ∃ front hop, c.Reaches entries (front ++ [hop]) ∧ pair = hopPair (front.map (·.field)) hop := by
  rw [List.mem_flatMap]
  constructor
  · rintro ⟨entry, hentry, hpair⟩
    unfold pathPairs at hpair
    split at hpair
    · cases hpair
    · next path route hpath =>
      obtain ⟨front, hop, back, hhops, rfl⟩ := mem_joinsFrom.mp hpair
      refine ⟨front, hop, ⟨by simp, entry, hentry, path, route, hpath, back, ?_⟩, rfl⟩
      rw [hhops, List.append_assoc, List.singleton_append]
  · rintro ⟨front, hop, ⟨-, entry, hentry, path, route, hpath, back, hroute⟩, rfl⟩
    refine ⟨entry, hentry, ?_⟩
    rw [List.append_assoc, List.singleton_append] at hroute
    simp only [pathPairs, hpath]
    exact mem_joinsFrom.mpr ⟨front, hop, back, hroute.symm, rfl⟩

/-- What a join finds documents by is told by the collection that it reads. -/
theorem exists_target_of_mem_pairs (hbase : c.registry.get? c.schema.name = some c.schema)
    (h : pair ∈ c.pairs entries) :
    ∃ target, c.registry.get? pair.1.source = some target ∧
      pair.1.foreignField = target.idField := by
  obtain ⟨earlier, later, hsplit⟩ := List.append_of_mem h
  have hscoped := pairs_scopedFrom hbase entries
  rw [hsplit] at hscoped
  exact hscoped.join_scoped.target

/-- Joins of one key are flattened alike. -/
theorem flatten_eq_of_key {other : Join × Flatten} (hpair : pair ∈ c.pairs entries)
    (hother : other ∈ c.pairs entries) (hkey : pair.1.key = other.1.key) : pair.2 = other.2 := by
  have hname : pair.1.asName = other.1.asName := congrArg (·.2.2) hkey
  -- Only relations record positions, so the flattening follows from the alias once both
  -- joins are of one kind.
  rcases List.mem_append.mp hpair with hrel | hpath <;>
    rcases List.mem_append.mp hother with hrel' | hpath'
  · obtain ⟨m, r, t, -, -, rfl⟩ := mem_flatMap_relationPairs.mp hrel
    obtain ⟨n, s, u, -, -, rfl⟩ := mem_flatMap_relationPairs.mp hrel'
    have hname : relationAlias r.target m = relationAlias s.target n := hname
    simp only [relationJoin, hname]
  · obtain ⟨m, r, t, -, -, rfl⟩ := mem_flatMap_relationPairs.mp hrel
    obtain ⟨front, hop, -, rfl⟩ := mem_flatMap_pathPairs.mp hpath'
    exact absurd hkey (relationJoin_key_ne_hopPair_key m r t _ hop)
  · obtain ⟨front, hop, -, rfl⟩ := mem_flatMap_pathPairs.mp hpath
    obtain ⟨n, s, u, -, -, rfl⟩ := mem_flatMap_relationPairs.mp hrel'
    exact absurd hkey.symm (relationJoin_key_ne_hopPair_key n s u _ hop)
  · obtain ⟨front, hop, -, rfl⟩ := mem_flatMap_pathPairs.mp hpath
    obtain ⟨front', hop', -, rfl⟩ := mem_flatMap_pathPairs.mp hpath'
    have hname : pathAlias (front.map (·.field) ++ [hop.field]) =
        pathAlias (front'.map (·.field) ++ [hop'.field]) := hname
    simp only [hopPair, hname]

/-- The key of a join that a request asks for determines it with its flattening. -/
theorem eq_of_key (hbase : c.registry.get? c.schema.name = some c.schema)
    {other : Join × Flatten} (hpair : pair ∈ c.pairs entries) (hother : other ∈ c.pairs entries)
    (hkey : pair.1.key = other.1.key) : pair = other := by
  obtain ⟨hsource, hrest⟩ := Prod.mk.inj hkey
  obtain ⟨hlocal, hname⟩ := Prod.mk.inj hrest
  have hforeign : pair.1.foreignField = other.1.foreignField := by
    obtain ⟨t, ht, hforeign⟩ := exists_target_of_mem_pairs hbase hpair
    obtain ⟨u, hu, hforeign'⟩ := exists_target_of_mem_pairs hbase hother
    rw [hsource, hu] at ht
    rw [hforeign, hforeign', Option.some.inj ht]
  have hjoin : pair.1 = other.1 := by
    cases hp : pair.1
    cases ho : other.1
    simp_all
  exact Prod.ext hjoin (flatten_eq_of_key hpair hother hkey)

end Membership

end Context

/-! ## Names apart -/

theorem mem_writes_relationJoin {name : String} {relation : Relation} {target : Schema}
    {x : String} : x ∈ writes (Context.relationJoin name relation target) ↔
      x = relationAlias relation.target name ∨
      x = indexName (relationAlias relation.target name) := by
  show x ∈ [_, _] ↔ _
  rw [List.mem_cons, List.mem_singleton]
  rfl

theorem mem_writes_hopPair {before : List String} {hop : Hop} {x : String} :
    x ∈ writes (hopPair before hop) ↔ x = pathAlias (before ++ [hop.field]) :=
  List.mem_singleton

/-- Different joins of the request write different keys. -/
def Context.WritesApart (c : Context) (entries : List String) : Prop :=
  ∀ p ∈ c.pairs entries, ∀ q ∈ c.pairs entries, p ≠ q → ∀ x ∈ writes p, x ∉ writes q

/-- The names given to joined relations, to their positions and to the field lists
followed are different texts. -/
structure Context.NamesApart (c : Context) (entries : List String) : Prop where
  relations : ∀ {m n r s}, c.Joins m r → c.Joins n s →
    relationAlias r.target m = relationAlias s.target n → m = n
  indexes : ∀ {m n r s}, c.Joins m r → c.Joins n s →
    relationAlias r.target m ≠ indexName (relationAlias s.target n)
  paths : ∀ {hops others}, c.Reaches entries hops → c.Reaches entries others →
    pathAlias (hops.map (·.field)) = pathAlias (others.map (·.field)) →
    hops.map (·.field) = others.map (·.field)
  mixed : ∀ {m r hops}, c.Joins m r → c.Reaches entries hops →
    pathAlias (hops.map (·.field)) ≠ relationAlias r.target m ∧
    pathAlias (hops.map (·.field)) ≠ indexName (relationAlias r.target m)

namespace Context

variable {c : Context} {entries : List String}

/-- A joined relation has a join among those asked for. -/
theorem Joins.exists_pair {name : String} {relation : Relation} (h : c.Joins name relation)
    (entries : List String) :
    ∃ target, relationJoin name relation target ∈ c.pairs entries := by
  obtain ⟨hrelation, target, htarget⟩ := h
  refine ⟨target, List.mem_append_left _ ?_⟩
  exact mem_flatMap_relationPairs.mpr ⟨name, relation, target, hrelation, htarget, rfl⟩

/-- Hops that begin a route have the join of the last one among those asked for. -/
theorem Reaches.pair_mem {front : List Hop} {hop : Hop}
    (h : c.Reaches entries (front ++ [hop])) :
    hopPair (front.map (·.field)) hop ∈ c.pairs entries :=
  List.mem_append_right _ (mem_flatMap_pathPairs.mpr ⟨front, hop, h, rfl⟩)

theorem Reaches.exists_last {hops : List Hop} (h : c.Reaches entries hops) :
    ∃ front hop, hops = front ++ [hop] :=
  ⟨_, _, (List.dropLast_concat_getLast h.1).symm⟩

/-- Where names are apart, so are the keys that joins write. -/
theorem NamesApart.writesApart (hbase : c.registry.get? c.schema.name = some c.schema)
    (h : c.NamesApart entries) : c.WritesApart entries := by
  have hmixed : ∀ {m r t front hop}, c.Joins m r → c.Reaches entries (front ++ [hop]) →
      ∀ x ∈ writes (relationJoin m r t), x ≠ pathAlias (front.map (·.field) ++ [hop.field]) := by
    intro m r t front hop hjoins hreaches x hx heq
    have hnames := h.mixed hjoins hreaches
    rw [List.map_append, List.map_singleton, ← heq] at hnames
    exact (mem_writes_relationJoin.mp hx).elim hnames.1 hnames.2
  intro p hp q hq hpq x hxp hxq
  rcases List.mem_append.mp hp with hrel | hpath <;>
    rcases List.mem_append.mp hq with hrel' | hpath'
  · obtain ⟨m, r, t, hr, ht, rfl⟩ := mem_flatMap_relationPairs.mp hrel
    obtain ⟨n, s, u, hs, hu, rfl⟩ := mem_flatMap_relationPairs.mp hrel'
    have hjoins : c.Joins m r := ⟨hr, t, ht⟩
    have hjoins' : c.Joins n s := ⟨hs, u, hu⟩
    have hdifferent : relationAlias r.target m ≠ relationAlias s.target n := by
      intro hname
      obtain rfl := h.relations hjoins hjoins' hname
      rw [hr] at hs
      obtain rfl := Option.some.inj hs
      rw [ht] at hu
      obtain rfl := Option.some.inj hu
      exact hpq rfl
    rw [mem_writes_relationJoin] at hxp hxq
    rcases hxp with rfl | rfl <;> rcases hxq with hname | hname
    · exact hdifferent hname
    · exact h.indexes hjoins hjoins' hname
    · exact h.indexes hjoins' hjoins hname.symm
    · exact hdifferent (indexName_inj.mp hname)
  · obtain ⟨m, r, t, hr, ht, rfl⟩ := mem_flatMap_relationPairs.mp hrel
    obtain ⟨front, hop, hreaches, rfl⟩ := mem_flatMap_pathPairs.mp hpath'
    rw [mem_writes_hopPair] at hxq
    exact hmixed ⟨hr, t, ht⟩ hreaches x hxp hxq
  · obtain ⟨front, hop, hreaches, rfl⟩ := mem_flatMap_pathPairs.mp hpath
    obtain ⟨n, s, u, hs, hu, rfl⟩ := mem_flatMap_relationPairs.mp hrel'
    rw [mem_writes_hopPair] at hxp
    exact hmixed ⟨hs, u, hu⟩ hreaches x hxq hxp
  · obtain ⟨front, hop, hreaches, rfl⟩ := mem_flatMap_pathPairs.mp hpath
    obtain ⟨front', hop', hreaches', rfl⟩ := mem_flatMap_pathPairs.mp hpath'
    rw [mem_writes_hopPair] at hxp hxq
    have hfields := h.paths hreaches hreaches' (by simpa using hxp.symm.trans hxq)
    have hhops := (hreaches.follows hbase).eq_of_fields (hreaches'.follows hbase) hfields
    obtain ⟨rfl, hlast⟩ := List.append_inj' hhops rfl
    obtain rfl := List.singleton_inj.mp hlast
    exact hpq rfl

/-- Where joins write apart, field lists of one alias are the same: else their joins are
one, and the lists before the last fields have one alias as well. -/
theorem WritesApart.eq_of_pathAlias_eq (h : c.WritesApart entries) {hops others : List Hop}
    (hhops : c.Reaches entries hops) (hothers : c.Reaches entries others)
    (hname : pathAlias (hops.map (·.field)) = pathAlias (others.map (·.field))) :
    hops.map (·.field) = others.map (·.field) := by
  generalize hlength : hops.length = length
  induction length generalizing hops others with
  | zero => exact absurd (List.length_eq_zero_iff.mp hlength) hhops.1
  | succ length ih =>
    obtain ⟨front, hop, rfl⟩ := hhops.exists_last
    obtain ⟨front', hop', rfl⟩ := hothers.exists_last
    simp only [List.map_append, List.map_singleton] at hname ⊢
    -- Two joins would write the alias twice, so there is only one.
    have hsame : hopPair (front.map (·.field)) hop = hopPair (front'.map (·.field)) hop' := by
      by_contra hdifferent
      refine h _ hhops.pair_mem _ hothers.pair_mem hdifferent _ List.mem_cons_self ?_
      exact mem_writes_hopPair.mpr hname
    obtain ⟨hfield, hbefore⟩ := hopPair_key_eq (congrArg (·.1.key) hsame)
    rcases hbefore with ⟨hnil, hnil'⟩ | ⟨hne, hne', halias⟩
    · rw [hnil, hnil', hfield]
    · have hfront := hhops.of_append fun hnil => hne (List.map_eq_nil_iff.mpr hnil)
      have hfront' := hothers.of_append fun hnil => hne' (List.map_eq_nil_iff.mpr hnil)
      have hshorter : front.length = length := by
        rw [List.length_append, List.length_singleton] at hlength
        omega
      rw [ih hfront hfront' halias hshorter, hfield]

/-- Where the keys that joins write are apart, so are the names. -/
theorem WritesApart.namesApart (h : c.WritesApart entries) : c.NamesApart entries := by
  refine ⟨?_, ?_, h.eq_of_pathAlias_eq, ?_⟩
  · intro m n r s hm hn hname
    obtain ⟨t, hp⟩ := hm.exists_pair entries
    obtain ⟨u, hq⟩ := hn.exists_pair entries
    have hsame : relationJoin m r t = relationJoin n s u := by
      by_contra hdifferent
      refine h _ hp _ hq hdifferent _ List.mem_cons_self ?_
      exact mem_writes_relationJoin.mpr (.inl hname)
    have hlocal : m ++ "." ++ referenceKey = n ++ "." ++ referenceKey :=
      congrArg (·.1.localField) hsame
    rwa [String.append_left_inj, String.append_left_inj] at hlocal
  · intro m n r s hm hn hname
    obtain ⟨t, hp⟩ := hm.exists_pair entries
    obtain ⟨u, hq⟩ := hn.exists_pair entries
    by_cases hsame : relationJoin m r t = relationJoin n s u
    · have halias : relationAlias r.target m = relationAlias s.target n :=
        congrArg (·.1.asName) hsame
      rw [halias] at hname
      exact ne_indexName _ hname
    · refine h _ hp _ hq hsame _ List.mem_cons_self ?_
      exact mem_writes_relationJoin.mpr (.inr hname)
  · intro m r hops hm hreaches
    obtain ⟨t, hp⟩ := hm.exists_pair entries
    obtain ⟨front, hop, rfl⟩ := hreaches.exists_last
    -- The one records positions and the other does not.
    have hdifferent : hopPair (front.map (·.field)) hop ≠ relationJoin m r t := by
      intro hsame
      have hindex := congrArg (·.2.indexField) hsame
      cases hindex
    have hapart := h _ hreaches.pair_mem _ hp hdifferent _ List.mem_cons_self
    rw [mem_writes_relationJoin, not_or] at hapart
    rw [List.map_append, List.map_singleton]
    exact hapart

end Context

/-! ## Accepted plans -/

/-- The keys written are different when different joins of the request write different
keys, for each of them is there once. -/
theorem Plan.Laid.nodup_writtenKeys_iff {plan : Plan} {c : Context} {entries : List String}
    {draft : Draft} {blocks : List Block} (h : plan.Laid c entries draft blocks)
    (hbase : c.registry.get? c.schema.name = some c.schema) :
    plan.writtenKeys.Nodup ↔ c.WritesApart entries := by
  have hkeys : plan.writtenKeys = (firstJoins [] (c.pairs entries)).flatMap writes := by
    rw [h.writtenKeys_eq, ← h.holds.pairs, List.flatMap_map]
  have hmem : ∀ p, p ∈ firstJoins [] (c.pairs entries) ↔ p ∈ c.pairs entries := by
    intro p
    refine ⟨fun hp => (mem_of_mem_firstJoins hp).1, fun hp => ?_⟩
    rcases exists_mem_firstJoins [] hp with hseen | ⟨kept, hkept, hkey⟩
    · cases hseen
    · rwa [← Context.eq_of_key hbase (mem_of_mem_firstJoins hkept).1 hp hkey]
  -- An alias never is the name of its own positions.
  have heach : ∀ p ∈ firstJoins [] (c.pairs entries), (writes p).Nodup := by
    intro p hp
    rcases List.mem_append.mp ((hmem p).mp hp) with hrel | hpath
    · obtain ⟨m, r, t, -, -, rfl⟩ := Context.mem_flatMap_relationPairs.mp hrel
      exact List.nodup_cons.mpr ⟨mt List.mem_singleton.mp (ne_indexName _), List.nodup_singleton _⟩
    · obtain ⟨front, hop, -, rfl⟩ := Context.mem_flatMap_pathPairs.mp hpath
      exact List.nodup_singleton _
  have honce : (firstJoins [] (c.pairs entries)).Nodup := List.Nodup.of_map _ nodup_firstJoins
  rw [hkeys, List.Nodup, List.pairwise_flatMap]
  constructor
  · rintro ⟨-, hpairwise⟩ p hp q hq hpq x hxp hxq
    have hsymm : Std.Symm fun p q : Join × Flatten => ∀ x ∈ writes p, ∀ y ∈ writes q, x ≠ y :=
      ⟨fun _ _ hne x hx y hy => (hne y hy x hx).symm⟩
    exact hpairwise.forall ((hmem p).mpr hp) ((hmem q).mpr hq) hpq x hxp x hxq rfl
  · intro hapart
    refine ⟨heach, honce.imp_of_mem fun hp hq hpq x hxp y hyq hxy => ?_⟩
    subst hxy
    exact hapart _ ((hmem _).mp hp) _ ((hmem _).mp hq) hpq x hxp hyq

/-- The keys that an accepted plan writes are different exactly when the names that the
schemas give to what it joins are. -/
theorem Plan.nodup_writtenKeys_iff_namesApart (registry : Registry) (options : Options)
    (request : SearchRequest) (plan : Plan) (schema : Schema)
    (hschema : registry.get? request.type = some schema)
    (haccepted : (Plan.ofRequest registry options request).result = .ok plan) :
    plan.writtenKeys.Nodup ↔
      Context.NamesApart (.ofRequest registry options schema request)
        (Context.pathEntries schema request) := by
  obtain ⟨draft, blocks, hlaid⟩ := Plan.exists_laid hschema haccepted
  have hbase : registry.get? schema.name = some schema := by
    rwa [Registry.name_of_get? hschema]
  rw [hlaid.nodup_writtenKeys_iff hbase]
  constructor
  · intro hwrites
    exact hwrites.namesApart
  · intro hnames
    exact hnames.writesApart hbase

/-- The names behind the plan for orders by owner and company are apart. -/
theorem Plan.namesApart_ownerRequest :
    ∃ schema plan, orders.get? ownerRequest.type = some schema ∧
      (Plan.ofRequest orders .standard ownerRequest).result = .ok plan ∧
      Context.NamesApart (.ofRequest orders .standard schema ownerRequest)
        (Context.pathEntries schema ownerRequest) := by
  obtain ⟨plan, haccepted, hcheck⟩ := Plan.exists_of_check
    (Plan.ofRequest orders .standard ownerRequest).result (fun plan => plan.writtenKeys.Nodup)
    (by decide +kernel)
  obtain ⟨schema, criteria, draft, blocks, hschema, -, -⟩ := Plan.exists_laid_of_accepted haccepted
  have hnodup : plan.writtenKeys.Nodup := of_decide_eq_true hcheck
  exact ⟨schema, plan, hschema, haccepted, (Plan.nodup_writtenKeys_iff_namesApart orders .standard
    ownerRequest plan schema hschema haccepted).mp hnodup⟩

/-- Orders with a relation of their own to what another relation leads to by the same
name. -/
def crossing : Registry :=
  (Registry.ofSchemas [
    ((Schema.make "order" "1").withAttribute "a" (.ofTarget "t")).withAttribute "b" (.ofTarget "a"),
    (Schema.make "t" "1").withAttribute "b" (.ofTarget "u"),
    Schema.make "u" "1",
    Schema.make "a" "1"]).toOption.getD .empty

/-- The relation to `a` and the path along `a` and `b` are joined under one alias. -/
theorem Plan.not_nodup_writtenKeys_crossing :
    ∃ plan, (Plan.ofRequest crossing .standard
        { SearchRequest.ofType "order" with extraPaths := ["a/b/name"] }).result = .ok plan ∧
      plan.joins.map (·.asName) = ["__t/a", "__a/b", "__a", "__a/b"] ∧
      ¬plan.writtenKeys.Nodup := by
  obtain ⟨plan, haccepted, hcheck⟩ := Plan.exists_of_check
    (Plan.ofRequest crossing .standard
      { SearchRequest.ofType "order" with extraPaths := ["a/b/name"] }).result
    (fun plan => plan.joins.map (·.asName) = ["__t/a", "__a/b", "__a", "__a/b"] ∧
      ¬plan.writtenKeys.Nodup)
    (by decide +kernel)
  obtain ⟨hnames, hclash⟩ := of_decide_eq_true hcheck
  exact ⟨plan, haccepted, hnames, hclash⟩

end JoinPlan
