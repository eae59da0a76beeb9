import JoinPlan.Proofs.Write.Interleaving

/-!
# The numbers of documents

Writes are done one after the other, on storage that is empty before the first. Each has a writer
of its own, so interceptors may change their minds between two writes. This file supplies which
numbers the documents get, and how they stand in the store.

> `Job.firstNumbers_append_created?`: a create that succeeds returns its document under the next
> number of its type, and no other write moves the sequence.
>
> `Rising`: documents have some of the numbers that were given out, in their order.

The first is a law of whole writes, and follows from their effects. The second has to hold within
a write too. There a create has taken its number and not yet inserted its document, so what rises
are the stored documents and the one that is held (`Task.Move.rising`); that it holds at every
moment of a write is one induction for all laws of a move (`Task.Sound.of_mem_moments`).
-/

namespace JoinPlan

/-! ## Documents that rise -/

/-- The documents have some of the first numbers, in their order. -/
def Rising (documents : List Value) (last : Nat) : Prop :=
  (documents.map numberOf).Sublist (firstNumbers last)

namespace Rising

variable {documents others : List Value} {last : Nat}

theorem nil (last : Nat) : Rising [] last := List.nil_sublist _

theorem congr (h : Rising documents last) (hothers : others.map numberOf = documents.map numberOf) :
    Rising others last := by
  unfold Rising
  rw [hothers]
  exact h

theorem sublist (h : Rising documents last) (hothers : others.Sublist documents) :
    Rising others last := (hothers.map numberOf).trans h

/-- The document under the next number comes last. -/
theorem concat (h : Rising documents last) {document : Value}
    (hnumber : numberOf document = some (.ofInt (last + 1 : Nat))) :
    Rising (documents ++ [document]) (last + 1) := by
  unfold Rising
  rw [List.map_append, firstNumbers_succ, List.map_singleton, hnumber]
  exact h.append (.refl _)

/-- Numbers that rise are strictly increasing, and the last number is the greatest. -/
theorem exists_numbers (h : Rising documents last) :
    ∃ numbers : List Nat, documents.map numberOf = numbers.map (fun n => some (.ofInt n)) ∧
      numbers.Pairwise (· < ·) ∧ ∀ n ∈ numbers, n ≤ last := by
  obtain ⟨numbers, hnumbers, hmap⟩ := List.sublist_map_iff.mp h
  refine ⟨numbers, hmap, (List.pairwise_lt_range' 1).sublist hnumbers, ?_⟩
  intro n hn
  obtain ⟨-, hlt⟩ := List.mem_range'_1.mp (hnumbers.subset hn)
  omega

end Rising

/-! ## Every moment of a write -/

namespace Script

/-- The storage before each action of a script, and at its end. -/
def moments (faults : Faults) (storage : Storage) : Script → List Storage
  | .done _ => [storage]
  | .log _ next => storage :: next.moments faults storage
  | .hook _ next => storage :: next.moments faults storage
  | .call c next =>
    let (answer, after) := storage.answer faults c
    storage :: (next answer).moments faults after

/-- The first moment is before the first action. -/
theorem moments_of_step {faults : Faults} {storage storage' : Storage} {script rest : Script}
    {action : Action} (h : script.step faults storage = some (action, storage', rest)) :
    script.moments faults storage = storage :: rest.moments faults storage' := by
  cases script with
  | done result => cases h
  | log record next =>
    cases h
    rfl
  | hook call next =>
    cases h
    rfl
  | call c next =>
    cases h
    rfl

/-- The last moment is the end of the run. -/
theorem run_mem_moments (faults : Faults) (storage : Storage) (script : Script) :
    (script.run faults storage).1 ∈ script.moments faults storage := by
  induction script generalizing storage with
  | done result => exact List.mem_cons_self
  | log record next ih => exact List.mem_cons_of_mem _ (ih storage)
  | hook h next ih => exact List.mem_cons_of_mem _ (ih storage)
  | call c next ih => exact List.mem_cons_of_mem _ (ih _ _)

end Script

namespace Task

variable {task : Task} {storage storage' : Storage} {action : Action} {rest : Script}

/-- What every move keeps holds at every moment of a write. -/
theorem Sound.of_mem_moments {w : Writer} {write : Write} {script : Script}
    {P : Storage → Script → Prop} (hsound : Sound ⟨w, write, script⟩)
    (hmove : ∀ storage storage' action script rest,
      Move storage ⟨w, write, script⟩ action storage' rest → P storage script → P storage' rest)
    (h : P storage script) :
    ∀ moment ∈ script.moments .none storage, ∃ rest, P moment rest := by
  -- The moments behind a step are those of the rest of the script.
  have hbehind {script rest : Script} {storage storage' : Storage} {action : Action}
      (hsound : Sound ⟨w, write, script⟩) (h : P storage script)
      (hstep : script.step .none storage = some (action, storage', rest))
      (ih : Sound ⟨w, write, rest⟩ → P storage' rest →
        ∀ moment ∈ rest.moments .none storage', ∃ rest, P moment rest) :
      ∀ moment ∈ script.moments .none storage, ∃ rest, P moment rest := by
    obtain ⟨hmoved, hrest⟩ := hsound.step hstep
    rw [Script.moments_of_step hstep]
    exact List.forall_mem_cons.mpr ⟨⟨script, h⟩, ih hrest (hmove _ _ _ _ _ hmoved h)⟩
  induction script generalizing storage with
  | done result => exact List.forall_mem_singleton.mpr ⟨_, h⟩
  | log record next ih => exact hbehind hsound h rfl fun hsound h => ih hsound h
  | hook call next ih => exact hbehind hsound h rfl fun hsound h => ih hsound h
  | call c next ih => exact hbehind hsound h rfl fun hsound h => ih _ hsound h

/-- The stored documents of a type, and then the one that is about to be inserted, rise. -/
def Rises (type : String) (storage : Storage) (script : Script) : Prop :=
  Rising (storage.store.documents type ++ (script.held? type).toList)
    (storage.counters.current (sequenceName type))

theorem Move.rising (h : task.Move storage action storage' rest)
    (hkeeps : task.write.KeepsNumber) {type : String} (hrises : Rises type storage task.rest) :
    Rises type storage' rest := by
  unfold Rises Script.held? at hrises ⊢
  cases h with
  | quiet hcall hskip =>
    rw [hskip]
    exact hrises
  | @numbered numbered payload document rest next after hwrite hskip hrest hnumber =>
    simp only [hskip, hrest, Option.toList_none, List.append_nil] at hrises ⊢
    by_cases htype : numbered = type
    · subst htype
      rw [if_pos rfl, Counters.current_advance_self]
      exact hrises.concat hnumber
    · have hother : sequenceName type ≠ sequenceName numbered :=
        fun heq => htype (sequenceName_inj.mp heq).symm
      rw [if_neg htype, Counters.current_advance_of_ne hother, Option.toList_none,
        List.append_nil]
      exact hrises
  | @inserted inserted payload document rest next result hwrite hskip hrest =>
    simp only [hskip, hrest, Option.toList_none, List.append_nil, Store.insert] at hrises ⊢
    -- The document that was held is now the last one stored.
    by_cases htype : inserted = type
    · subst htype
      rw [if_pos rfl] at hrises
      rw [Store.documents_withDocuments_self]
      exact hrises
    · rw [if_neg htype, Option.toList_none, List.append_nil] at hrises
      rw [Store.documents_withDocuments_of_ne (Ne.symm htype)]
      exact hrises
  | @patched patched id changes front back found rest next result hwrite hskip hfinds hrest =>
    simp only [hskip, hrest, Option.toList_none, List.append_nil] at hrises ⊢
    rw [hwrite] at hkeeps
    by_cases htype : patched = type
    · subst htype
      rw [hfinds.documents] at hrises
      rw [Store.documents_withDocuments_self]
      refine hrises.congr ?_
      simp only [List.map_append, List.map_cons, numberOf_merged hkeeps]
    · rw [Store.documents_withDocuments_of_ne (Ne.symm htype)]
      exact hrises
  | unpatched hwrite hskip hrest =>
    simp only [hskip, hrest] at hrises ⊢
    exact hrises
  | @removed removed id front back found rest next hwrite hskip hfinds hrest =>
    simp only [hskip, hrest, Option.toList_none, List.append_nil] at hrises ⊢
    by_cases htype : removed = type
    · subst htype
      rw [hfinds.documents] at hrises
      rw [Store.documents_withDocuments_self]
      exact hrises.sublist ((List.sublist_cons_self found back).append_left front)
    · rw [Store.documents_withDocuments_of_ne (Ne.symm htype)]
      exact hrises
  | unremoved hwrite hskip hrest =>
    simp only [hskip, hrest] at hrises ⊢
    exact hrises

end Task

/-! ## Writes in a row -/

/-- A write by a writer, which takes a number of milliseconds. -/
structure Job where
  writer : Writer
  write : Write
  elapsed : Nat

namespace Job

/-- What a job does. -/
def script (job : Job) : Script := job.write.script job.writer job.elapsed

/-- The job before its first action. -/
def task (job : Job) : Task := ⟨job.writer, job.write, job.script⟩

/-- The storage behind a job that is not disturbed, and its outcome. -/
def run (job : Job) (storage : Storage) : Storage × WriteOutcome := job.script.run .none storage

/-- The document that a job returns, if it is a create of the type and succeeds. -/
def created? (type : String) (storage : Storage) (job : Job) : Option Value :=
  if job.write.creates type then (job.run storage).2.result.toOption else none

theorem fresh_task (job : Job) : job.task.Fresh := ⟨job.elapsed, rfl⟩

end Job

namespace Storage

/-- The storage at every moment of jobs that are done one after the other. -/
def moments (storage : Storage) : List Job → List Storage
  | [] => [storage]
  | job :: rest => job.script.moments .none storage ++ (job.run storage).1.moments rest

/-- The documents that successful creates of a type return, one after the other. -/
def created (type : String) (storage : Storage) : List Job → List Value
  | [] => []
  | job :: rest => (job.created? type storage).toList ++ (job.run storage).1.created type rest

end Storage

/-- Without faults, a write that fails leaves the storage as it was. -/
theorem Writer.storage_of_failure {w : Writer} {storage after : Storage} {elapsed : Nat}
    {write : Write} {actions : List Action} {error : WriteError}
    (h : (write.script w elapsed).Runs .none storage actions after (.error error)) :
    after = storage := by
  rcases w.end_cases .none storage write with hevent | ⟨event, hevent,
    ⟨front, refuser, back, reason, hchain, hfront, hrefuser⟩ |
    ⟨hagree, ⟨fault, hfault⟩ | ⟨hfault, ⟨id, hid, hlacks⟩ | hthere⟩⟩⟩
  · have hruns := runs_of_event?_eq_none w .none storage elapsed hevent
    exact (hruns.unique h).1
  · have hruns := runs_of_refusal elapsed hevent hchain hfront hrefuser .none storage
    exact (hruns.unique h).1
  · cases write <;> cases hfault
  · obtain ⟨call, hruns, -⟩ := runs_of_lacks elapsed hevent hagree hfault hid hlacks
    exact (hruns.unique h).1
  · obtain ⟨calls, document, after', hruns, -, -⟩ :=
      runs_of_sound elapsed hevent hagree hfault hthere
    cases (hruns.unique h).2

namespace Job

variable {job : Job} {storage : Storage}

/-- A job has had its effect, or it has changed nothing. -/
theorem run_cases (job : Job) (storage : Storage) :
    (∃ document, (job.run storage).2.result = .ok document ∧
      job.write.Effect job.writer storage document (job.run storage).1) ∨
    ∃ error, (job.run storage).2.result = .error error ∧ (job.run storage).1 = storage := by
  have hruns : job.script.Runs .none storage (job.run storage).2.actions (job.run storage).1
      (job.run storage).2.result := rfl
  cases hresult : (job.run storage).2.result with
  | ok document =>
    rw [hresult] at hruns
    exact .inl ⟨document, rfl, Writer.effect_of_runs hruns⟩
  | error error =>
    rw [hresult] at hruns
    exact .inr ⟨error, rfl, Writer.storage_of_failure hruns⟩

/-- A create that succeeds returns its document under the next number of its type, and no other
job moves the sequence. -/
theorem firstNumbers_append_created? (job : Job) (storage : Storage) (type : String) :
    firstNumbers (storage.counters.current (sequenceName type)) ++
        (job.created? type storage).toList.map numberOf =
      firstNumbers ((job.run storage).1.counters.current (sequenceName type)) := by
  unfold created?
  rcases job.run_cases storage with ⟨document, hresult, heffect⟩ | ⟨error, hresult, hstorage⟩
  · rw [hresult]
    cases hwrite : job.write with
    | create created payload =>
      rw [hwrite] at heffect
      obtain ⟨members, stored, -, rfl, hstored, -, -, hnext, hothers⟩ := heffect
      rw [← sequenceName_eq] at hstored hnext hothers
      rw [Write.creates]
      by_cases htype : created = type
      · subst htype
        have hnumber : numberOf (.object stored) =
            some (.ofInt (storage.counters.current (sequenceName created) + 1 : Nat)) :=
          (hstored numberField).trans (if_pos rfl)
        rw [if_pos (decide_eq_true rfl), hnext, firstNumbers_succ, ← hnumber]
        rfl
      · have hother : sequenceName type ≠ sequenceName created :=
          fun heq => htype (sequenceName_inj.mp heq).symm
        rw [if_neg (by simpa using htype), hothers _ hother]
        exact List.append_nil _
    | update changed id payload =>
      rw [hwrite] at heffect
      obtain ⟨_, _, _, _, _, -, -, -, -, -, -, hcounters⟩ := heffect
      rw [hcounters]
      exact List.append_nil _
    | delete removed id =>
      rw [hwrite] at heffect
      obtain ⟨_, _, -, -, hcounters⟩ := heffect
      rw [hcounters]
      exact List.append_nil _
  · rw [hresult, hstorage, Except.toOption, ite_self]
    exact List.append_nil _

theorem mem_moments_of_run (job : Job) (storage : Storage) :
    (job.run storage).1 ∈ job.script.moments .none storage :=
  job.script.run_mem_moments .none storage

/-- Within a job, the documents of a type rise at every moment. -/
theorem rising_of_mem_moments (hkeeps : job.write.KeepsNumber) {type : String}
    (h : Rising (storage.store.documents type) (storage.counters.current (sequenceName type))) :
    ∀ moment ∈ job.script.moments .none storage,
      Rising (moment.store.documents type) (moment.counters.current (sequenceName type)) := by
  intro moment hmoment
  have hstart : Task.Rises type storage job.script := by
    have hheld : job.script.held? type = none := job.fresh_task.held?_eq_none type
    unfold Task.Rises
    rw [hheld, Option.toList_none, List.append_nil]
    exact h
  obtain ⟨rest, hrises⟩ := Task.Sound.of_mem_moments job.fresh_task.sound
    (fun _ _ _ _ _ hmove hrises => hmove.rising hkeeps hrises) hstart moment hmoment
  exact Rising.sublist hrises (List.sublist_append_left _ _)

/-- Within a job, a sequence takes at most one step, and that for a create of its type. -/
theorem current_le_of_mem_moments (job : Job) (storage : Storage) (type : String) :
    ∀ moment ∈ job.script.moments .none storage,
      moment.counters.current (sequenceName type) ≤
        storage.counters.current (sequenceName type) + (job.write.creates type).toNat := by
  intro moment hmoment
  obtain ⟨rest, hawaiting⟩ := Task.Sound.of_mem_moments job.fresh_task.sound
    (P := fun moment rest => moment.counters.current (sequenceName type) +
      (rest.awaitsNumber type).toNat = storage.counters.current (sequenceName type) +
        (job.script.awaitsNumber type).toNat)
    (fun _ _ _ _ _ hmove hsame => (hmove.awaiting type).trans hsame) rfl moment hmoment
  have hcreates : (job.script.awaitsNumber type).toNat ≤ (job.write.creates type).toNat :=
    Bool.toNat_le_toNat (Bool.le_iff_imp.mpr job.fresh_task.sound.creates)
  omega

end Job

namespace Storage

/-- The documents that are created take the numbers of their type in order, and all of them. -/
theorem exists_firstNumbers_append_created (storage : Storage) (jobs : List Job) (type : String) :
    ∃ last, firstNumbers (storage.counters.current (sequenceName type)) ++
      (storage.created type jobs).map numberOf = firstNumbers last := by
  induction jobs generalizing storage with
  | nil => exact ⟨_, List.append_nil _⟩
  | cons job rest ih =>
    obtain ⟨last, hlast⟩ := ih (job.run storage).1
    refine ⟨last, ?_⟩
    rw [created, List.map_append, ← List.append_assoc, job.firstNumbers_append_created?, hlast]

theorem rising_of_mem_moments {storage : Storage} {jobs : List Job}
    (hkeeps : ∀ job ∈ jobs, job.write.KeepsNumber) {type : String}
    (h : Rising (storage.store.documents type) (storage.counters.current (sequenceName type))) :
    ∀ moment ∈ storage.moments jobs,
      Rising (moment.store.documents type) (moment.counters.current (sequenceName type)) := by
  induction jobs generalizing storage with
  | nil =>
    intro moment hmoment
    obtain rfl := List.mem_singleton.mp hmoment
    exact h
  | cons job rest ih =>
    obtain ⟨hjob, hrest⟩ := List.forall_mem_cons.mp hkeeps
    have hwithin := Job.rising_of_mem_moments hjob h
    intro moment hmoment
    rcases List.mem_append.mp hmoment with hmoment | hmoment
    · exact hwithin moment hmoment
    · exact ih hrest (hwithin _ (job.mem_moments_of_run storage)) moment hmoment

theorem current_le_of_mem_moments (storage : Storage) (jobs : List Job) (type : String) :
    ∀ moment ∈ storage.moments jobs, moment.counters.current (sequenceName type) ≤
      storage.counters.current (sequenceName type) + jobs.countP (·.write.creates type) := by
  induction jobs generalizing storage with
  | nil =>
    intro moment hmoment
    obtain rfl := List.mem_singleton.mp hmoment
    exact Nat.le_add_right _ _
  | cons job rest ih =>
    have hwithin := job.current_le_of_mem_moments storage type
    have hcount : (job :: rest).countP (·.write.creates type) =
        rest.countP (·.write.creates type) + (job.write.creates type).toNat := by
      rw [List.countP_cons]
      cases job.write.creates type <;> rfl
    intro moment hmoment
    rcases List.mem_append.mp hmoment with hmoment | hmoment
    · have hmoment := hwithin moment hmoment
      omega
    · have hmoment := ih (job.run storage).1 moment hmoment
      have hbehind := hwithin _ (job.mem_moments_of_run storage)
      omega

end Storage

/-- Documents are numbered in the order of their creation. The documents that successful creates
of a type return have the first numbers, in order, whatever number they came with, and whatever
was refused, invalid, changed, deleted or created in other types in between. No sequence goes
beyond the creates of its type, so fewer than `2 ^ 63` creates stay within 64 bits. And where no
patch sets a number, the numbers in a collection are strictly increasing at every moment, in the
order of the store, and none is beyond the last number of the type. -/
theorem numbered_in_order (jobs : List Job) (type : String) :
    (Storage.empty.created type jobs).map numberOf =
      firstNumbers (Storage.empty.created type jobs).length ∧
    (∀ moment ∈ Storage.empty.moments jobs,
      moment.counters.current (sequenceName type) ≤ jobs.countP (·.write.creates type)) ∧
    ((∀ job ∈ jobs, job.write.KeepsNumber) → ∀ moment ∈ Storage.empty.moments jobs,
      ∃ numbers : List Nat,
        (moment.store.documents type).map numberOf = numbers.map (fun n => some (.ofInt n)) ∧
        numbers.Pairwise (· < ·) ∧
        ∀ n ∈ numbers, n ≤ moment.counters.current (sequenceName type)) := by
  have hcurrent : Storage.empty.counters.current (sequenceName type) = 0 := rfl
  refine ⟨?_, ?_, ?_⟩
  · obtain ⟨last, hlast⟩ := Storage.empty.exists_firstNumbers_append_created jobs type
    rw [hcurrent] at hlast
    have hcreated : (Storage.empty.created type jobs).map numberOf = firstNumbers last := hlast
    have hlength : (Storage.empty.created type jobs).length = last := by
      rw [← List.length_map (f := numberOf), hcreated, firstNumbers, List.length_map,
        List.length_range']
    rw [hlength, hcreated]
  · intro moment hmoment
    have hle := Storage.empty.current_le_of_mem_moments jobs type moment hmoment
    omega
  · intro hkeeps moment hmoment
    have hstart : Rising (Storage.empty.store.documents type)
        (Storage.empty.counters.current (sequenceName type)) := .nil _
    exact (Storage.rising_of_mem_moments hkeeps hstart moment hmoment).exists_numbers

/-- An interceptor that refuses to create parts. -/
def partless : Interceptor :=
  ⟨"partless", fun event => if event.type = "part" then some "no parts" else none⟩

/-- Two owners, of whom the first comes with a number of its own and is changed and deleted in
the end, and between them a part that is refused and an owner that is no object. -/
def ownerJobs : List Job :=
  [Write.create "owner" (.object [("id", .string "o1"), (numberField, .ofInt 7)]),
    .create "part" (.object [("id", .string "p1")]), .create "owner" (.string "o2"),
    .create "owner" (.object [("id", .string "o3")]),
    .update "owner" "o1" (.object [("id", .string "o4")]), .delete "owner" "o4"].map
      fun write => ⟨.make [partless], write, 1⟩

/-- The owners get the numbers one and two, and there is a moment in which both are stored. -/
theorem numbered_in_order_ownerJobs :
    (∀ job ∈ ownerJobs, job.write.KeepsNumber) ∧
    (Storage.empty.created "owner" ownerJobs).map numberOf = firstNumbers 2 ∧
    ∃ moment ∈ Storage.empty.moments ownerJobs, (moment.store.documents "owner").length = 2 ∧
      ∃ numbers : List Nat,
        (moment.store.documents "owner").map numberOf = numbers.map (fun n => some (.ofInt n)) ∧
        numbers.Pairwise (· < ·) ∧
        ∀ n ∈ numbers, n ≤ moment.counters.current (sequenceName "owner") := by
  have hkeeps : ∀ job ∈ ownerJobs, job.write.KeepsNumber := by
    simp [ownerJobs, Write.KeepsNumber, Members.get?, numberField]
  obtain ⟨hnumbers, -, hrising⟩ := numbered_in_order ownerJobs "owner"
  have hlength : (Storage.empty.created "owner" ownerJobs).length = 2 := by decide +kernel
  have hboth : ∃ moment ∈ Storage.empty.moments ownerJobs,
      (moment.store.documents "owner").length = 2 := by
    simpa using (by decide +kernel : (Storage.empty.moments ownerJobs).any
      (fun moment => (moment.store.documents "owner").length == 2) = true)
  obtain ⟨moment, hmoment, htwo⟩ := hboth
  rw [hlength] at hnumbers
  exact ⟨hkeeps, hnumbers, moment, hmoment, htwo, hrising hkeeps moment hmoment⟩

end JoinPlan
