import Mathlib.Data.List.Induction
import JoinPlan.Proofs.Pipeline.Block

/-!
# Building in any order

`Block` followed a builder that is given filters under joined aliases only. This file takes joins
and filters in any order, with aliases that are repeated or that nothing joins, and says from the
steps alone what is built.

> `Join.Same`: two joins are the same when source, local field and alias agree. Of joins that are
> the same the first is kept.
>
> `place`: a filter goes behind the first join of its alias that is there when it comes, and to
> the end where there is none.

Between joins stand runs of filters: run `0` before all of them, and run `i + 1` behind the `i`-th
with its flattening (`laidOut`). The joins are those given, each at its first occurrence, and a run
has the filters placed there, in the order in which they came. One step carries this: inserting a
filter adds it to the run that `place` names (`insertAfter_laidOut`), and a new join starts a run
that is empty (`laidOut_concat`), since no filter was placed behind the end (`place_le_length`).

That nothing moves and nothing is lost needs no runs: insertion puts a stage between a front and a
back of the stages there (`exists_insertAfter_eq`).
-/

namespace JoinPlan

/-- The condition of a filter. -/
def Stage.condition? : Stage → Option Condition
  | .filter condition => some condition
  | _ => none

/-- Two joins are the same to a builder, whatever fields of their sources they look at. -/
def Join.Same (a b : Join) : Prop :=
  a.source = b.source ∧ a.localField = b.localField ∧ a.asName = b.asName

instance (a b : Join) : Decidable (a.Same b) := inferInstanceAs (Decidable (_ ∧ _))

theorem Join.same_iff {a b : Join} : a.Same b ↔ a.key = b.key := by
  simp [Join.Same, Join.key]

namespace Builder

/-- A step of building: a join with a flattening of its alias, or a filter under an alias. -/
inductive Step where
  | push (join : Join) (preserve : Bool) (indexField : Option String)
  | insert (asName : String) (condition : Condition)

namespace Step

/-- The builder after a step. -/
def apply (b : Builder) : Step → Builder
  | .push join preserve indexField => b.pushJoin join ⟨join.asName, preserve, indexField⟩
  | .insert asName condition => b.insertAfterFlatten asName (.filter condition)

/-- The join that a step gives, with its flattening. -/
def pair? : Step → Option (Join × Flatten)
  | .push join preserve indexField => some (join, ⟨join.asName, preserve, indexField⟩)
  | .insert .. => none

/-- The condition that a step gives. -/
def condition? : Step → Option Condition
  | .push .. => none
  | .insert _ condition => some condition

end Step

/-- The builder after steps from the empty one. -/
def ofSteps (steps : List Step) : Builder := steps.foldl Step.apply empty

/-- The joins that steps give. -/
def given (steps : List Step) : List (Join × Flatten) := steps.filterMap Step.pair?

/-- The joins of a list that are the same as none before them. -/
def firstOfSame (before : List (Join × Flatten)) : List (Join × Flatten) → List (Join × Flatten)
  | [] => []
  | pair :: rest =>
    if ∃ other ∈ before, other.1.Same pair.1 then firstOfSame (before ++ [pair]) rest
    else pair :: firstOfSame (before ++ [pair]) rest

/-- The joins that steps give, each at its first occurrence. -/
def kept (steps : List Step) : List (Join × Flatten) := firstOfSame [] (given steps)

/-- The run that a filter under an alias goes to: behind the first join of the alias, and the last
run where there is none. -/
def place (joins : List (Join × Flatten)) (asName : String) : Nat :=
  match joins.findIdx? (·.1.asName == asName) with
  | some i => i + 1
  | none => joins.length

/-- The filters that steps give, each with its place among the joins before it. -/
def insertions (before : List Step) : List Step → List (Nat × Condition)
  | [] => []
  | .push join preserve indexField :: rest =>
    insertions (before ++ [.push join preserve indexField]) rest
  | .insert asName condition :: rest =>
    (place (kept before) asName, condition) ::
      insertions (before ++ [.insert asName condition]) rest

/-- The filters of a run, in the order in which they came. -/
def run (steps : List Step) (i : Nat) : List Condition :=
  ((insertions [] steps).filter (·.1 == i)).map Prod.snd

/-- The blocks of joins with the runs behind them. -/
def blocksOf (runs : Nat → List Condition) (joins : List (Join × Flatten)) : List Block :=
  joins.mapIdx fun i pair => ⟨pair.1, pair.2, runs (i + 1)⟩

/-- The stages of joins with the runs around them. -/
def laidOut (runs : Nat → List Condition) (joins : List (Join × Flatten)) : List Stage :=
  (runs 0).map Stage.filter ++ (blocksOf runs joins).flatMap Block.stages

/-! ## Runs between joins -/

section Runs

variable (runs : Nat → List Condition) (joins : List (Join × Flatten))

theorem laidOut_nil : laidOut runs [] = (runs 0).map Stage.filter := List.append_nil _

/-- Behind the first join the layout starts again, from the next run. -/
theorem laidOut_cons (pair : Join × Flatten) :
    laidOut runs (pair :: joins) =
      (runs 0).map Stage.filter ++
        .join pair.1 :: .flatten pair.2 :: laidOut (fun i => runs (i + 1)) joins := by
  simp [laidOut, blocksOf, List.mapIdx_cons, Block.stages]

theorem map_pair_blocksOf : (blocksOf runs joins).map Block.pair = joins := by
  induction joins generalizing runs with
  | nil => rfl
  | cons pair rest ih =>
    rw [blocksOf, List.mapIdx_cons, List.map_cons]
    exact congrArg _ (ih fun i => runs (i + 1))

/-- A join behind the others starts a run without filters. -/
theorem laidOut_concat (pair : Join × Flatten) (hnone : runs (joins.length + 1) = []) :
    laidOut runs (joins ++ [pair]) = laidOut runs joins ++ [.join pair.1, .flatten pair.2] := by
  simp [laidOut, blocksOf, Block.stages, hnone]

/-- Runs with a condition at the end of one of them. -/
def addTo (i : Nat) (condition : Condition) : Nat → List Condition :=
  fun j => runs j ++ if j = i then [condition] else []

theorem addTo_succ (i : Nat) (condition : Condition) :
    (fun j => addTo runs (i + 1) condition (j + 1)) =
      addTo (fun j => runs (j + 1)) i condition := by
  funext j
  simp [addTo]

end Runs

section Place

variable {joins : List (Join × Flatten)} {asName : String}

theorem place_cons (pair : Join × Flatten) :
    place (pair :: joins) asName =
      if pair.1.asName = asName then 1 else place joins asName + 1 := by
  unfold place
  rw [List.findIdx?_cons]
  by_cases halias : pair.1.asName = asName
  · rw [if_pos (beq_iff_eq.mpr halias), if_pos halias]
  · rw [if_neg (mt beq_iff_eq.mp halias), if_neg halias]
    cases joins.findIdx? (·.1.asName == asName) <;> rfl

theorem place_le_length : place joins asName ≤ joins.length := by
  induction joins with
  | nil => exact Nat.le_refl 0
  | cons pair rest ih =>
    rw [place_cons, List.length_cons]
    split
    · exact Nat.le_add_left 1 _
    · exact Nat.succ_le_succ ih

/-- Filters at the front take one more behind them. -/
theorem insertAfterFilters_laidOut (runs : Nat → List Condition) (condition : Condition) :
    insertAfterFilters (.filter condition) (laidOut runs joins) =
      laidOut (addTo runs 0 condition) joins := by
  cases joins with
  | nil =>
    rw [laidOut_nil, laidOut_nil, ← List.append_nil (List.map _ (runs 0)),
      insertAfterFilters_map_filter]
    simp [addTo, insertAfterFilters]
  | cons pair rest =>
    rw [laidOut_cons, laidOut_cons, insertAfterFilters_map_filter]
    simp [addTo, insertAfterFilters, Stage.isFilter]

/-- Inserting a filter under an alias adds it to the run at its place. -/
theorem insertAfter_laidOut (hnames : ∀ pair ∈ joins, pair.2.asName = pair.1.asName)
    (runs : Nat → List Condition) (condition : Condition) :
    insertAfter asName (.filter condition) (laidOut runs joins) =
      laidOut (addTo runs (place joins asName) condition) joins := by
  induction joins generalizing runs with
  | nil =>
    rw [laidOut_nil, laidOut_nil, ← List.append_nil (List.map _ (runs 0)), insertAfter_map_filter]
    simp [addTo, place, insertAfter]
  | cons pair rest ih =>
    have hflatten := hnames pair List.mem_cons_self
    have hrest := ih fun other hother => hnames other (List.mem_cons_of_mem _ hother)
    rw [laidOut_cons, laidOut_cons, insertAfter_map_filter, place_cons]
    by_cases halias : pair.1.asName = asName
    · have hhere : (pair.2.asName == asName) = true := beq_iff_eq.mpr (hflatten.trans halias)
      simp only [insertAfter, Stage.flattens, Bool.false_eq_true, if_false, hhere, if_true,
        if_pos halias, insertAfterFilters_laidOut, ← addTo_succ]
      simp [addTo]
    · have hthere : (pair.2.asName == asName) = false :=
        beq_eq_false_iff_ne.mpr fun e => halias (hflatten.symm.trans e)
      simp only [insertAfter, Stage.flattens, Bool.false_eq_true, if_false, hthere,
        if_neg halias, hrest, ← addTo_succ]
      simp [addTo]

end Place

/-! ## Joins kept -/

/-- The joins that are the same as none before are those whose keys were not seen. -/
theorem firstOfSame_eq_firstJoins {before pairs : List (Join × Flatten)} {seen : List JoinKey}
    (h : ∀ key, key ∈ seen ↔ ∃ other ∈ before, other.1.key = key) :
    firstOfSame before pairs = firstJoins seen pairs := by
  induction pairs generalizing before seen with
  | nil => rfl
  | cons pair rest ih =>
    have hseen : pair.1.key ∈ seen ↔ ∃ other ∈ before, other.1.Same pair.1 := by
      simp only [Join.same_iff, h]
    have hnext : ∀ key, (∃ other ∈ before ++ [pair], other.1.key = key) ↔
        key ∈ seen ∨ key = pair.1.key := by
      intro key
      simp [h, or_and_right, exists_or, eq_comm]
    by_cases hin : pair.1.key ∈ seen
    · rw [firstJoins_cons_of_mem hin, firstOfSame, if_pos (hseen.mp hin)]
      refine ih fun key => ?_
      rw [hnext]
      exact (or_iff_left_of_imp fun hkey => hkey ▸ hin).symm
    · rw [firstJoins_cons_of_notMem hin, firstOfSame, if_neg (mt hseen.mpr hin)]
      refine congrArg (pair :: ·) (ih fun key => ?_)
      rw [hnext, List.mem_append, List.mem_singleton]

theorem kept_eq_firstJoins (steps : List Step) : kept steps = firstJoins [] (given steps) :=
  firstOfSame_eq_firstJoins fun _ => by simp

/-! ## One step more -/

section Steps

variable {steps : List Step}

theorem ofSteps_concat (step : Step) : ofSteps (steps ++ [step]) = step.apply (ofSteps steps) :=
  by
  rw [ofSteps, List.foldl_append]
  rfl

theorem given_concat_insert (asName : String) (condition : Condition) :
    given (steps ++ [.insert asName condition]) = given steps := by
  simp [given, Step.pair?]

theorem given_concat_push (join : Join) (preserve : Bool) (indexField : Option String) :
    given (steps ++ [.push join preserve indexField]) =
      given steps ++ [(join, ⟨join.asName, preserve, indexField⟩)] := by
  simp [given, Step.pair?]

/-- A join is kept unless its key was given before. -/
theorem kept_concat_push (join : Join) (preserve : Bool) (indexField : Option String) :
    kept (steps ++ [.push join preserve indexField]) =
      if join.key ∈ (kept steps).map (·.1.key) then kept steps
      else kept steps ++ [(join, ⟨join.asName, preserve, indexField⟩)] := by
  simp only [kept_eq_firstJoins, given_concat_push, firstJoins_append_singleton, List.nil_append]

theorem kept_concat_insert (asName : String) (condition : Condition) :
    kept (steps ++ [.insert asName condition]) = kept steps :=
  congrArg (firstOfSame []) (given_concat_insert asName condition)

/-- The joins kept stay where they are. -/
theorem kept_prefix_concat (steps : List Step) (step : Step) :
    kept steps <+: kept (steps ++ [step]) := by
  cases step with
  | push join preserve indexField =>
    rw [kept_concat_push]
    split
    · exact List.prefix_rfl
    · exact List.prefix_append _ _
  | insert asName condition =>
    exact (kept_concat_insert asName condition).symm ▸ List.prefix_rfl

/-- The joins kept come with a flattening of their own alias. -/
theorem asName_of_mem_kept {pair : Join × Flatten} (h : pair ∈ kept steps) :
    pair.2.asName = pair.1.asName := by
  rw [kept_eq_firstJoins] at h
  obtain ⟨step, -, hstep⟩ := List.mem_filterMap.mp (mem_of_mem_firstJoins h).1
  cases step with
  | push join preserve indexField =>
    obtain rfl := Option.some.inj hstep
    rfl
  | insert asName condition => cases hstep

theorem insertions_append (before front back : List Step) :
    insertions before (front ++ back) =
      insertions before front ++ insertions (before ++ front) back := by
  induction front generalizing before with
  | nil => rw [List.append_nil]; rfl
  | cons step rest ih =>
    cases step <;> simp [insertions, ih]

theorem run_concat_push (join : Join) (preserve : Bool) (indexField : Option String) :
    run (steps ++ [.push join preserve indexField]) = run steps := by
  funext i
  simp [run, insertions_append, insertions]

theorem run_concat_insert (asName : String) (condition : Condition) :
    run (steps ++ [.insert asName condition]) =
      addTo (run steps) (place (kept steps) asName) condition := by
  funext i
  by_cases hi : i = place (kept steps) asName
  · simp [run, insertions_append, insertions, addTo, hi]
  · simp [run, insertions_append, insertions, addTo, hi, Ne.symm hi]

/-- Every filter has a place among the runs that there are. -/
theorem place_le_of_mem_insertions {insertion : Nat × Condition}
    (h : insertion ∈ insertions [] steps) : insertion.1 ≤ (kept steps).length := by
  induction steps using List.reverseRecOn with
  | nil => cases h
  | append_singleton steps step ih =>
    have hgrows := (kept_prefix_concat steps step).length_le
    rw [insertions_append, List.mem_append] at h
    rcases h with hold | hnew
    · exact Nat.le_trans (ih hold) hgrows
    · cases step with
      | push join preserve indexField => cases hnew
      | insert asName condition =>
        obtain rfl := List.mem_singleton.mp hnew
        exact Nat.le_trans place_le_length hgrows

/-- Every filter is placed once, in the order in which they came. -/
theorem map_snd_insertions (before steps : List Step) :
    (insertions before steps).map Prod.snd = steps.filterMap Step.condition? := by
  induction steps generalizing before with
  | nil => rfl
  | cons step rest ih =>
    cases step with
    | push => exact ih _
    | insert asName condition => exact congrArg (condition :: ·) (ih _)

/-- What a builder has taken are the keys of the joins kept, and its stages are these joins with
the runs around them. -/
theorem taken_and_stages_ofSteps (steps : List Step) :
    (ofSteps steps).taken = (kept steps).map (·.1.key) ∧
      (ofSteps steps).stages = laidOut (run steps) (kept steps) := by
  induction steps using List.reverseRecOn with
  | nil => exact ⟨rfl, rfl⟩
  | append_singleton steps step ih =>
    obtain ⟨htaken, hstages⟩ := ih
    rw [ofSteps_concat]
    cases step with
    | push join preserve indexField =>
      rw [kept_concat_push, run_concat_push, Step.apply, pushJoin, htaken]
      by_cases hseen : join.key ∈ (kept steps).map (·.1.key)
      · rw [if_pos (List.contains_iff_mem.mpr hseen), if_pos hseen]
        exact ⟨htaken, hstages⟩
      · rw [if_neg (mt List.contains_iff_mem.mp hseen), if_neg hseen]
        have hnone : run steps ((kept steps).length + 1) = [] := by
          rw [run, List.map_eq_nil_iff, List.filter_eq_nil_iff]
          intro insertion hinsertion hplace
          have hle := place_le_of_mem_insertions hinsertion
          rw [beq_iff_eq.mp hplace] at hle
          exact Nat.not_succ_le_self _ hle
        refine ⟨?_, ?_⟩
        · rw [List.map_append]
          rfl
        · rw [laidOut_concat _ _ _ hnone, hstages]
    | insert asName condition =>
      rw [run_concat_insert, kept_concat_insert]
      refine ⟨htaken, ?_⟩
      show insertAfter asName (.filter condition) (ofSteps steps).stages = _
      rw [hstages]
      exact insertAfter_laidOut (fun pair hpair => asName_of_mem_kept hpair) _ _

end Steps

/-! ## Earlier stages -/

/-- Insertion behind filters puts a stage somewhere between the others. -/
theorem exists_insertAfterFilters_eq (stage : Stage) (stages : List Stage) :
    ∃ front back, stages = front ++ back ∧
      insertAfterFilters stage stages = front ++ stage :: back := by
  induction stages with
  | nil => exact ⟨[], [], rfl, rfl⟩
  | cons s rest ih =>
    unfold insertAfterFilters
    split
    · obtain ⟨front, back, rfl, hinserted⟩ := ih
      exact ⟨s :: front, back, rfl, congrArg (s :: ·) hinserted⟩
    · exact ⟨[], s :: rest, rfl, rfl⟩

/-- Insertion under an alias puts a stage somewhere between the others. -/
theorem exists_insertAfter_eq (asName : String) (stage : Stage) (stages : List Stage) :
    ∃ front back, stages = front ++ back ∧
      insertAfter asName stage stages = front ++ stage :: back := by
  induction stages with
  | nil => exact ⟨[], [], rfl, rfl⟩
  | cons s rest ih =>
    unfold insertAfter
    split
    · obtain ⟨front, back, rfl, hinserted⟩ := exists_insertAfterFilters_eq stage rest
      exact ⟨s :: front, back, rfl, congrArg (s :: ·) hinserted⟩
    · obtain ⟨front, back, rfl, hinserted⟩ := ih
      exact ⟨s :: front, back, rfl, congrArg (s :: ·) hinserted⟩

/-- A step leaves the stages there in their order. -/
theorem sublist_stages_apply (b : Builder) (step : Step) :
    b.stages.Sublist (step.apply b).stages := by
  cases step with
  | push join preserve indexField =>
    rw [Step.apply, pushJoin]
    split
    · exact List.Sublist.refl _
    · exact List.sublist_append_left _ _
  | insert asName condition =>
    obtain ⟨front, back, hstages, hinserted⟩ :=
      exists_insertAfter_eq asName (.filter condition) b.stages
    show b.stages.Sublist (insertAfter asName (.filter condition) b.stages)
    rw [hinserted, hstages]
    exact (List.sublist_cons_self _ back).append_left front

/-- A step adds the condition that it gives, once. -/
theorem perm_conditions_apply (b : Builder) (step : Step) :
    ((step.apply b).stages.filterMap Stage.condition?).Perm
      (b.stages.filterMap Stage.condition? ++ step.condition?.toList) := by
  cases step with
  | push join preserve indexField =>
    rw [Step.apply, pushJoin]
    split
    · exact .of_eq (List.append_nil _).symm
    · exact .of_eq (List.filterMap_append ..)
  | insert asName condition =>
    obtain ⟨front, back, hstages, hinserted⟩ :=
      exists_insertAfter_eq asName (.filter condition) b.stages
    show ((insertAfter asName (.filter condition) b.stages).filterMap Stage.condition?).Perm _
    rw [hinserted, hstages]
    have hmoved : (front ++ .filter condition :: back).Perm
        (front ++ back ++ [.filter condition]) :=
      List.perm_middle.trans (List.perm_append_singleton _ _).symm
    show List.Perm _
      ((front ++ back).filterMap _ ++ [Stage.filter condition].filterMap Stage.condition?)
    rw [← List.filterMap_append]
    exact hmoved.filterMap Stage.condition?

theorem perm_conditions_ofSteps (steps : List Step) :
    ((ofSteps steps).stages.filterMap Stage.condition?).Perm
      (steps.filterMap Step.condition?) := by
  induction steps using List.reverseRecOn with
  | nil => exact .refl _
  | append_singleton steps step ih =>
    have hstep := (perm_conditions_apply (ofSteps steps) step).trans (ih.append_right _)
    rw [ofSteps_concat, List.filterMap_append]
    cases step <;> exact hstep

/-! ## What steps build -/

/-- The builder that steps build, told by the steps. -/
structure Assembles (steps : List Step) (b : Builder) : Prop where
  stages : b.stages =
    (run steps 0).map Stage.filter ++ (blocksOf (run steps) (kept steps)).flatMap Block.stages
  pairs : (blocksOf (run steps) (kept steps)).map Block.pair = kept steps
  conditions : (insertions [] steps).map Prod.snd = steps.filterMap Step.condition?
  once : (b.stages.filterMap Stage.condition?).Perm (steps.filterMap Step.condition?)
  places : ∀ insertion ∈ insertions [] steps, insertion.1 ≤ (kept steps).length
  accepts_iff : ∀ join, b.accepts join = true ↔ ∀ pair ∈ given steps, ¬pair.1.Same join
  hasAlias_iff : ∀ asName, b.hasAlias asName = true ↔
    ∃ block ∈ blocksOf (run steps) (kept steps), block.join.asName = asName

theorem assembles_ofSteps (steps : List Step) : Assembles steps (ofSteps steps) where
  stages := (taken_and_stages_ofSteps steps).2
  pairs := map_pair_blocksOf _ _
  conditions := map_snd_insertions [] steps
  once := perm_conditions_ofSteps steps
  places := fun _ h => place_le_of_mem_insertions h
  accepts_iff := by
    intro join
    -- A key was given exactly when it is that of a join kept.
    have hkeys : join.key ∈ (kept steps).map (·.1.key) ↔
        ∃ pair ∈ given steps, pair.1.Same join := by
      simp only [List.mem_map, Join.same_iff, kept_eq_firstJoins]
      constructor
      · rintro ⟨pair, hpair, hkey⟩
        exact ⟨pair, (mem_of_mem_firstJoins hpair).1, hkey⟩
      · rintro ⟨pair, hpair, hkey⟩
        obtain ⟨other, hother, hsame⟩ := (exists_mem_firstJoins [] hpair).resolve_left (by simp)
        exact ⟨other, hother, hsame.trans hkey⟩
    rw [accepts, (taken_and_stages_ofSteps steps).1, Bool.not_eq_true', ← Bool.not_eq_true,
      List.contains_iff_mem, hkeys]
    simp only [not_exists, not_and]
  hasAlias_iff := by
    intro asName
    rw [hasAlias, (taken_and_stages_ofSteps steps).2, laidOut, List.any_append, List.any_flatMap,
      Bool.or_eq_true, List.any_eq_true, List.any_eq_true]
    simp [Block.stages, Stage.joinsAs, List.any_map, Function.comp_def]

/-- Whatever steps a builder is given, it holds a run of filters, and then for each join that is the
same as none given before, in source, local field and alias, the join, its flattening and a run of
filters. A run has the filters whose place it was when they came, in their order, and each filter
has one place. A join is accepted when none the same was given, and refused without a trace. The
joins kept and the stages there stay in their order. -/
theorem ofSteps_assembles (steps : List Step) :
    Assembles steps (ofSteps steps) ∧
      (∀ join preserve indexField, (ofSteps steps).accepts join = false →
        ofSteps (steps ++ [.push join preserve indexField]) = ofSteps steps) ∧
      ∀ step, kept steps <+: kept (steps ++ [step]) ∧
        (ofSteps steps).stages.Sublist (ofSteps (steps ++ [step])).stages := by
  refine ⟨assembles_ofSteps steps, fun join preserve indexField hrefused => ?_, fun step => ?_⟩
  · rw [accepts, Bool.not_eq_false'] at hrefused
    rw [ofSteps_concat, Step.apply, pushJoin, if_pos hrefused]
  · rw [ofSteps_concat]
    exact ⟨kept_prefix_concat steps step, sublist_stages_apply _ step⟩

/-- A join by the owner of a document, then others that differ from it in the alias, the source and
the local field, with filters between them: one under an alias that two joins have, and one under
an alias that none has. -/
def ownerSteps : List Step := [
  .insert "__owner" (.field "id" (.equals (.string "d1"))),
  .push ⟨"person", "owner.id", "id", "__owner"⟩ true none,
  .push ⟨"person", "owner.id", "id", "__boss"⟩ true none,
  .insert "__boss" (.field "__boss.name" (.equals (.string "Ann"))),
  .push ⟨"company", "owner.id", "id", "__owner"⟩ true none,
  .insert "__owner" (.field "__owner.name" (.equals (.string "Bob"))),
  .push ⟨"person", "maker.id", "id", "__owner"⟩ true none,
  .insert "__site" (.field "__site.name" (.equals (.string "Oslo")))]

/-- All four joins are kept. The first join once more, with another field to look at and another
flattening, is refused without a trace. -/
theorem ofSteps_assembles_ownerSteps :
    (ofSteps ownerSteps).stages = [
      .filter (.field "id" (.equals (.string "d1"))),
      .join ⟨"person", "owner.id", "id", "__owner"⟩, .flatten ⟨"__owner", true, none⟩,
      .filter (.field "__owner.name" (.equals (.string "Bob"))),
      .join ⟨"person", "owner.id", "id", "__boss"⟩, .flatten ⟨"__boss", true, none⟩,
      .filter (.field "__boss.name" (.equals (.string "Ann"))),
      .join ⟨"company", "owner.id", "id", "__owner"⟩, .flatten ⟨"__owner", true, none⟩,
      .join ⟨"person", "maker.id", "id", "__owner"⟩, .flatten ⟨"__owner", true, none⟩,
      .filter (.field "__site.name" (.equals (.string "Oslo")))] ∧
    (ofSteps ownerSteps).accepts ⟨"person", "maker.id", "id", "__boss"⟩ = true ∧
    (ofSteps ownerSteps).accepts ⟨"person", "owner.id", "code", "__owner"⟩ = false ∧
    ofSteps (ownerSteps ++
        [.push ⟨"person", "owner.id", "code", "__owner"⟩ false (some "position")]) =
      ofSteps ownerSteps := by
  obtain ⟨hassembles, hrefused, -⟩ := ofSteps_assembles ownerSteps
  have hagain : (ofSteps ownerSteps).accepts ⟨"person", "owner.id", "code", "__owner"⟩ = false := by
    rw [← Bool.not_eq_true, hassembles.accepts_iff]
    decide
  refine ⟨hassembles.stages.trans ?_, (hassembles.accepts_iff _).mpr ?_, hagain,
    hrefused _ _ _ hagain⟩
  · rfl
  · decide

end Builder

end JoinPlan
