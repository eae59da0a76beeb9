import JoinPlan.Pipeline.Builder

/-!
# A pipeline as blocks

A builder that is only given joins and filters under their aliases holds a list of
blocks: a join, its flattening, and the filters behind it. `Builder.Holds` says which
blocks those are, in terms of what the builder was given:

* the joins of the blocks are the joins given, each at its first occurrence
  (`firstJoins`), in the order in which they were given;
* the filters of the blocks are the filters given, each in a block of its alias, and in
  the first one of that alias (`Block.Yields`).

`holds_pushJoin` and `holds_insertAfterFlatten` are the two steps. The second rests
on `insertAfter_flatMap_stages`: placing a stage behind the filters of an alias is
adding a filter to the first block of that alias.
-/

namespace JoinPlan

/-- A join, its flattening, and the filters behind it. -/
structure Block where
  join : Join
  flatten : Flatten
  filters : List Condition

namespace Block

/-- The stages of a block. -/
def stages (b : Block) : List Stage :=
  .join b.join :: .flatten b.flatten :: b.filters.map Stage.filter

/-- The stages of a block but for its filters. -/
def bare (b : Block) : List Stage := [.join b.join, .flatten b.flatten]

/-- The join of a block with its flattening. -/
def pair (b : Block) : Join × Flatten := (b.join, b.flatten)

/-- The filters of a block under its alias. -/
def named (b : Block) : List (String × Condition) := b.filters.map fun c => (b.join.asName, c)

/-- The block of a join without filters. -/
def ofPair (pair : Join × Flatten) : Block := ⟨pair.1, pair.2, []⟩

/-- Blocks with a filter added to the first one of an alias. -/
def addFilter (asName : String) (condition : Condition) : List Block → List Block
  | [] => []
  | b :: rest =>
    if b.join.asName = asName then { b with filters := b.filters ++ [condition] } :: rest
    else b :: addFilter asName condition rest

/-- The later block has filters only when the earlier one has another alias. -/
def Yields (earlier later : Block) : Prop :=
  later.filters ≠ [] → earlier.join.asName ≠ later.join.asName

theorem mem_addFilter {asName : String} {condition : Condition} {blocks : List Block} {b : Block}
    (h : b ∈ addFilter asName condition blocks) : b ∈ blocks ∨ b.join.asName = asName := by
  induction blocks with
  | nil => cases h
  | cons first rest ih =>
    unfold addFilter at h
    split at h
    · next halias =>
      rcases List.mem_cons.mp h with rfl | h
      · exact .inr halias
      · exact .inl (List.mem_cons_of_mem _ h)
    · rcases List.mem_cons.mp h with rfl | h
      · exact .inl List.mem_cons_self
      · exact (ih h).imp_left (List.mem_cons_of_mem _)

/-- The first block of an alias is where filters are added, so the others stay without. -/
theorem pairwise_yields_addFilter {asName : String} {condition : Condition} {blocks : List Block}
    (h : blocks.Pairwise Yields) : (addFilter asName condition blocks).Pairwise Yields := by
  induction blocks with
  | nil => exact .nil
  | cons first rest ih =>
    obtain ⟨hfirst, hrest⟩ := List.pairwise_cons.mp h
    unfold addFilter
    split
    · exact List.pairwise_cons.mpr ⟨hfirst, hrest⟩
    · next hother =>
      refine List.pairwise_cons.mpr ⟨fun b hb hne => ?_, ih hrest⟩
      rcases mem_addFilter hb with hold | halias
      · exact hfirst b hold hne
      · rw [halias]
        exact hother

theorem map_pair_addFilter (asName : String) (condition : Condition) (blocks : List Block) :
    (addFilter asName condition blocks).map pair = blocks.map pair := by
  induction blocks with
  | nil => rfl
  | cons b rest ih =>
    unfold addFilter
    split
    · rfl
    · rw [List.map_cons, ih, List.map_cons]

/-- Adding a filter adds just that filter, under its alias. -/
theorem named_addFilter {asName : String} {blocks : List Block}
    (h : ∃ b ∈ blocks, b.join.asName = asName) (condition : Condition) :
    ((addFilter asName condition blocks).flatMap named).Perm
      (blocks.flatMap named ++ [(asName, condition)]) := by
  induction blocks with
  | nil =>
    obtain ⟨b, hb, -⟩ := h
    cases hb
  | cons b rest ih =>
    unfold addFilter
    split
    · next halias =>
      have hnew : named { b with filters := b.filters ++ [condition] } =
          b.named ++ [(asName, condition)] := by
        simp [named, halias]
      rw [List.flatMap_cons, hnew, List.flatMap_cons, List.append_assoc, List.append_assoc]
      exact List.perm_append_comm.append_left _
    · next hother =>
      have hrest : ∃ c ∈ rest, c.join.asName = asName := by simpa [hother] using h
      rw [List.flatMap_cons, List.flatMap_cons, List.append_assoc]
      exact (ih hrest).append_left _

end Block

/-! ## Inserting behind the filters of an alias -/

namespace Builder

/-- Insertion behind filters passes over a run of them. -/
theorem insertAfterFilters_map_filter (stage : Stage) (filters : List Condition)
    (rest : List Stage) :
    insertAfterFilters stage (filters.map Stage.filter ++ rest) =
      filters.map Stage.filter ++ insertAfterFilters stage rest := by
  induction filters with
  | nil => rfl
  | cons condition filters ih =>
    simp only [List.map_cons, List.cons_append, insertAfterFilters, Stage.isFilter, if_true]
    rw [ih]

/-- No filter stands at the start of blocks. -/
theorem insertAfterFilters_flatMap_stages (stage : Stage) (blocks : List Block) :
    insertAfterFilters stage (blocks.flatMap Block.stages) =
      stage :: blocks.flatMap Block.stages := by
  cases blocks with
  | nil => rfl
  | cons b rest => rfl

/-- A run of filters flattens nothing, so insertion passes over it. -/
theorem insertAfter_map_filter (asName : String) (stage : Stage) (filters : List Condition)
    (rest : List Stage) :
    insertAfter asName stage (filters.map Stage.filter ++ rest) =
      filters.map Stage.filter ++ insertAfter asName stage rest := by
  induction filters with
  | nil => rfl
  | cons condition filters ih =>
    simp only [List.map_cons, List.cons_append, insertAfter, Stage.flattens,
      Bool.false_eq_true, if_false]
    rw [ih]

/-- Inserting a filter behind the flattening of an alias adds it to the first block of
the alias. -/
theorem insertAfter_flatMap_stages {asName : String} (condition : Condition)
    {blocks : List Block} (hnames : ∀ b ∈ blocks, b.flatten.asName = b.join.asName)
    (h : ∃ b ∈ blocks, b.join.asName = asName) :
    insertAfter asName (.filter condition) (blocks.flatMap Block.stages) =
      (Block.addFilter asName condition blocks).flatMap Block.stages := by
  induction blocks with
  | nil =>
    obtain ⟨b, hb, -⟩ := h
    cases hb
  | cons b rest ih =>
    have hflatten := hnames b List.mem_cons_self
    rw [List.flatMap_cons, Block.addFilter]
    by_cases halias : b.join.asName = asName
    · have hhere : (b.flatten.asName == asName) = true := beq_iff_eq.mpr (hflatten.trans halias)
      simp only [Block.stages, List.cons_append, insertAfter, Stage.flattens, Bool.false_eq_true,
        if_false, hhere, if_true, if_pos halias, List.flatMap_cons, List.map_append,
        List.map_cons, List.map_nil, List.append_assoc, List.nil_append]
      rw [insertAfterFilters_map_filter, insertAfterFilters_flatMap_stages]
    · have hrest : ∃ c ∈ rest, c.join.asName = asName := by simpa [halias] using h
      have hthere : (b.flatten.asName == asName) = false :=
        beq_eq_false_iff_ne.mpr fun e => halias (hflatten.symm.trans e)
      have htail := ih (fun c hc => hnames c (List.mem_cons_of_mem _ hc)) hrest
      rw [if_neg halias, List.flatMap_cons, ← htail]
      simp only [Block.stages, List.cons_append, insertAfter, Stage.flattens, Bool.false_eq_true,
        if_false, hthere]
      rw [insertAfter_map_filter]

end Builder

/-! ## Every join at its first occurrence -/

/-- The joins that were not seen yet, each at its first occurrence. -/
def firstJoins (seen : List JoinKey) : List (Join × Flatten) → List (Join × Flatten)
  | [] => []
  | pair :: rest =>
    if seen.contains pair.1.key then firstJoins seen rest
    else pair :: firstJoins (seen ++ [pair.1.key]) rest

section FirstJoins

variable {seen : List JoinKey} {pairs : List (Join × Flatten)}

theorem firstJoins_cons_of_mem {pair : Join × Flatten} (h : pair.1.key ∈ seen) :
    firstJoins seen (pair :: pairs) = firstJoins seen pairs := by
  rw [firstJoins, if_pos (List.contains_iff_mem.mpr h)]

theorem firstJoins_cons_of_notMem {pair : Join × Flatten} (h : pair.1.key ∉ seen) :
    firstJoins seen (pair :: pairs) = pair :: firstJoins (seen ++ [pair.1.key]) pairs := by
  rw [firstJoins, if_neg (mt List.contains_iff_mem.mp h)]

/-- What is kept is one of the joins and was not seen. -/
theorem mem_of_mem_firstJoins {pair : Join × Flatten} (h : pair ∈ firstJoins seen pairs) :
    pair ∈ pairs ∧ pair.1.key ∉ seen := by
  induction pairs generalizing seen with
  | nil => cases h
  | cons first rest ih =>
    by_cases hseen : first.1.key ∈ seen
    · rw [firstJoins_cons_of_mem hseen] at h
      obtain ⟨hmem, hnew⟩ := ih h
      exact ⟨List.mem_cons_of_mem _ hmem, hnew⟩
    · rw [firstJoins_cons_of_notMem hseen] at h
      rcases List.mem_cons.mp h with rfl | h
      · exact ⟨List.mem_cons_self, hseen⟩
      · obtain ⟨hmem, hnew⟩ := ih h
        exact ⟨List.mem_cons_of_mem _ hmem, fun hin => hnew (List.mem_append_left _ hin)⟩

/-- Every join was seen before or is kept, perhaps in the form of an equal one. -/
theorem exists_mem_firstJoins (seen : List JoinKey) {pair : Join × Flatten} (h : pair ∈ pairs) :
    pair.1.key ∈ seen ∨ ∃ kept ∈ firstJoins seen pairs, kept.1.key = pair.1.key := by
  induction pairs generalizing seen with
  | nil => cases h
  | cons first rest ih =>
    by_cases hseen : first.1.key ∈ seen
    · rw [firstJoins_cons_of_mem hseen]
      rcases List.mem_cons.mp h with rfl | h
      · exact .inl hseen
      · exact ih _ h
    · rw [firstJoins_cons_of_notMem hseen]
      rcases List.mem_cons.mp h with rfl | h
      · exact .inr ⟨_, List.mem_cons_self, rfl⟩
      · have htail : pair.1.key ∈ seen ++ [first.1.key] ∨
            ∃ kept ∈ firstJoins (seen ++ [first.1.key]) rest, kept.1.key = pair.1.key := ih _ h
        rcases htail with hold | ⟨kept, hkept, hkey⟩
        · rcases List.mem_append.mp hold with hold | hnew
          · exact .inl hold
          · exact .inr ⟨first, List.mem_cons_self, (List.mem_singleton.mp hnew).symm⟩
        · exact .inr ⟨kept, List.mem_cons_of_mem _ hkept, hkey⟩

/-- No two of the joins kept are the same. -/
theorem nodup_firstJoins : ((firstJoins seen pairs).map (·.1.key)).Nodup := by
  induction pairs generalizing seen with
  | nil => exact .nil
  | cons first rest ih =>
    by_cases hseen : first.1.key ∈ seen
    · rw [firstJoins_cons_of_mem hseen]
      exact ih
    · rw [firstJoins_cons_of_notMem hseen]
      refine List.nodup_cons.mpr ⟨fun hmem => ?_, ih⟩
      obtain ⟨kept, hkept, hkey⟩ := List.mem_map.mp hmem
      refine (mem_of_mem_firstJoins hkept).2 (List.mem_append_right _ ?_)
      exact List.mem_singleton.mpr hkey

/-- A join at the end is kept unless it was seen or stands before. -/
theorem firstJoins_append_singleton (seen : List JoinKey) (pairs : List (Join × Flatten))
    (pair : Join × Flatten) :
    firstJoins seen (pairs ++ [pair]) =
      if pair.1.key ∈ seen ++ (firstJoins seen pairs).map (·.1.key) then firstJoins seen pairs
      else firstJoins seen pairs ++ [pair] := by
  induction pairs generalizing seen with
  | nil =>
    by_cases hseen : pair.1.key ∈ seen
    · simp [firstJoins_cons_of_mem hseen, firstJoins, hseen]
    · simp [firstJoins_cons_of_notMem hseen, firstJoins, hseen]
  | cons first rest ih =>
    rw [List.cons_append]
    by_cases hseen : first.1.key ∈ seen
    · rw [firstJoins_cons_of_mem hseen, firstJoins_cons_of_mem hseen, ih]
    · rw [firstJoins_cons_of_notMem hseen, firstJoins_cons_of_notMem hseen, ih, List.map_cons,
        List.append_assoc, List.singleton_append]
      split <;> rfl

end FirstJoins

/-! ## What a builder holds -/

/-- A builder that was given joins and filters holds the blocks. -/
structure Builder.Holds (b : Builder) (pairs : List (Join × Flatten))
    (filters : List (String × Condition)) (blocks : List Block) : Prop where
  stages : b.stages = blocks.flatMap Block.stages
  taken : b.taken = blocks.map (·.join.key)
  pairs : blocks.map Block.pair = firstJoins [] pairs
  filters : (blocks.flatMap Block.named).Perm filters
  leaders : blocks.Pairwise Block.Yields

namespace Builder

variable {b : Builder} {pairs : List (Join × Flatten)} {filters : List (String × Condition)}
  {blocks : List Block}

theorem holds_empty : Builder.empty.Holds [] [] [] := ⟨rfl, rfl, rfl, .nil, .nil⟩

/-- The blocks after one more join. -/
theorem holds_pushJoin (h : b.Holds pairs filters blocks) (join : Join) (flatten : Flatten) :
    ∃ blocks', (b.pushJoin join flatten).Holds (pairs ++ [(join, flatten)]) filters blocks' := by
  -- The keys taken are those of the joins kept, so the builder drops what `firstJoins` drops.
  have hkeys : (firstJoins [] pairs).map (·.1.key) = b.taken := by
    rw [← h.pairs, List.map_map, h.taken]
    rfl
  have hpairs := firstJoins_append_singleton [] pairs (join, flatten)
  rw [List.nil_append, hkeys] at hpairs
  unfold pushJoin
  by_cases htaken : join.key ∈ b.taken
  · rw [if_pos (List.contains_iff_mem.mpr htaken)]
    rw [if_pos htaken] at hpairs
    exact ⟨blocks, h.stages, h.taken, h.pairs.trans hpairs.symm, h.filters, h.leaders⟩
  · rw [if_neg (mt List.contains_iff_mem.mp htaken)]
    rw [if_neg htaken] at hpairs
    refine ⟨blocks ++ [.ofPair (join, flatten)], ?_, ?_, ?_, ?_, ?_⟩
    · simp [h.stages, Block.ofPair, Block.stages]
    · simp [h.taken, Block.ofPair]
    · rw [hpairs, ← h.pairs, List.map_append]
      rfl
    · simpa [Block.ofPair, Block.named] using h.filters
    · refine List.pairwise_append.mpr ⟨h.leaders, List.pairwise_singleton _ _, ?_⟩
      intro earlier _ later hlater hne
      rw [List.mem_singleton.mp hlater] at hne
      exact absurd rfl hne

/-- The blocks after more joins. -/
theorem holds_foldl_pushJoin (more : List (Join × Flatten)) (h : b.Holds pairs filters blocks) :
    ∃ blocks', (more.foldl (fun b (join, flatten) => b.pushJoin join flatten) b).Holds
      (pairs ++ more) filters blocks' := by
  induction more generalizing b pairs blocks with
  | nil => exact ⟨blocks, by simpa using h⟩
  | cons pair more ih =>
    obtain ⟨blocks', h'⟩ := holds_pushJoin h pair.1 pair.2
    obtain ⟨blocks'', h''⟩ := ih h'
    exact ⟨blocks'', by simpa using h''⟩

/-- A block for every join that was given. -/
theorem Holds.exists_block (h : b.Holds pairs filters blocks) {pair : Join × Flatten}
    (hpair : pair ∈ pairs) : ∃ block ∈ blocks, block.join.key = pair.1.key := by
  rcases exists_mem_firstJoins [] hpair with hseen | ⟨kept, hkept, hkey⟩
  · cases hseen
  · rw [← h.pairs] at hkept
    obtain ⟨block, hblock, rfl⟩ := List.mem_map.mp hkept
    exact ⟨block, hblock, hkey⟩

/-- The join and flattening of a block were given. -/
theorem Holds.pair_mem (h : b.Holds pairs filters blocks) {block : Block}
    (hblock : block ∈ blocks) : block.pair ∈ pairs := by
  have hkept : block.pair ∈ firstJoins [] pairs := h.pairs ▸ List.mem_map_of_mem hblock
  exact (mem_of_mem_firstJoins hkept).1

/-- The blocks after a filter under an alias that was joined. -/
theorem holds_insertAfterFlatten (h : b.Holds pairs filters blocks)
    (hnames : ∀ pair ∈ pairs, pair.2.asName = pair.1.asName) {asName : String}
    (hjoined : ∃ pair ∈ pairs, pair.1.asName = asName) (condition : Condition) :
    ∃ blocks', (b.insertAfterFlatten asName (.filter condition)).Holds pairs
      (filters ++ [(asName, condition)]) blocks' := by
  have hblocks : ∀ block ∈ blocks, block.flatten.asName = block.join.asName :=
    fun block hblock => hnames block.pair (h.pair_mem hblock)
  have hthere : ∃ block ∈ blocks, block.join.asName = asName := by
    obtain ⟨pair, hpair, rfl⟩ := hjoined
    obtain ⟨block, hblock, hkey⟩ := h.exists_block hpair
    exact ⟨block, hblock, congrArg (·.2.2) hkey⟩
  have hpairs := Block.map_pair_addFilter asName condition blocks
  refine ⟨Block.addFilter asName condition blocks, ?_, ?_, ?_, ?_,
    Block.pairwise_yields_addFilter h.leaders⟩
  · show insertAfter asName (.filter condition) b.stages = _
    rw [h.stages, insertAfter_flatMap_stages condition hblocks hthere]
  · have hkeys := congrArg (List.map fun pair : Join × Flatten => pair.1.key) hpairs
    rw [List.map_map, List.map_map] at hkeys
    exact h.taken.trans hkeys.symm
  · rw [hpairs, h.pairs]
  · exact (Block.named_addFilter hthere condition).trans (h.filters.append_right _)

/-- Whether an alias was joined shows in the blocks. -/
theorem Holds.hasAlias_iff (h : b.Holds pairs filters blocks) (asName : String) :
    b.hasAlias asName = true ↔ ∃ block ∈ blocks, block.join.asName = asName := by
  unfold hasAlias
  rw [h.stages, List.any_flatMap, List.any_eq_true]
  refine exists_congr fun block => and_congr_right fun _ => ?_
  simp [Block.stages, Stage.joinsAs, List.any_map, Function.comp_def]

end Builder

end JoinPlan
