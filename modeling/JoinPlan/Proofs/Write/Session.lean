import JoinPlan.Proofs.Write.Protocol

/-!
# Writes in progress

Several writes share one storage, and each action of each of them is one step. This file
supplies what a step can be, and where a write can stand between two of its steps.

> `Session.Step`: one of the writes in progress takes its next action.
>
> `Write.Phase`: what is left of a write but for its log and its interceptors. A create first
> takes a number and then inserts a document under it; an update and a delete make one call.

`Script.skip` passes over the actions that do not touch the storage. By `Script.step_cases` a
step is such an action, which changes neither the storage nor what is left, or it is the call
that stands next. So a write goes from the phase in which it starts (`Phase.start`) to its
end, and `Task.Sound.step` says once what each step between can do: later files take a step
apart by the cases of `Task.Move` and open no script.

An order of the steps is a schedule, by whose turn it is: `run_iff_exists_follow`.
-/

namespace JoinPlan

/-! ## What is left of a script -/

namespace Script

/-- A script from its next call on, or its end. -/
def skip : Script → Script
  | .log _ next => next.skip
  | .hook _ next => next.skip
  | script => script

/-- A step leaves the storage and the next call as they are, or it is the next call. -/
theorem step_cases {faults : Faults} {storage storage' : Storage} {script rest : Script}
    {action : Action} (h : script.step faults storage = some (action, storage', rest)) :
    (storage' = storage ∧ action.isCall = false ∧ rest.skip = script.skip) ∨
    ∃ c next, script.skip = .call c next ∧
      action = .call c (storage.answer faults c).1 ∧
      storage' = (storage.answer faults c).2 ∧ rest = next (storage.answer faults c).1 := by
  cases script with
  | done result => cases h
  | log record next =>
    cases h
    exact .inl ⟨rfl, rfl, rfl⟩
  | hook call next =>
    cases h
    exact .inl ⟨rfl, rfl, rfl⟩
  | call c next =>
    cases h
    exact .inr ⟨c, next, rfl, rfl, rfl, rfl⟩

end Script

namespace Writer

/-- Where all agree, asking leads to what comes next. -/
theorem skip_ask_of_agree {event : WriteEvent} {chain : Chain}
    (h : ∀ i ∈ chain, i.refusal event = none) (next : Script) (position : Nat) :
    (ask event next position chain).skip = next.skip := by
  induction chain generalizing position with
  | nil => rfl
  | cons interceptor rest ih =>
    obtain ⟨hagrees, hrest⟩ := List.forall_mem_cons.mp h
    rw [ask, hagrees]
    exact ih hrest (position + 1)

/-- Where someone refuses, asking leads to the end. -/
theorem skip_ask_of_refusal {event : WriteEvent} {chain : Chain}
    (h : ¬∀ i ∈ chain, i.refusal event = none) (next : Script) (position : Nat) :
    ∃ result, (ask event next position chain).skip = .done result := by
  induction chain generalizing position with
  | nil => exact absurd (fun i hi => nomatch hi) h
  | cons interceptor rest ih =>
    rw [ask]
    cases hrefusal : interceptor.refusal event with
    | some reason => exact ⟨_, rfl⟩
    | none =>
      refine ih (fun hrest => h ?_) (position + 1)
      exact List.forall_mem_cons.mpr ⟨hrefusal, hrest⟩

theorem skip_tell (document : Value) (next : Script) (position : Nat) (chain : Chain) :
    (tell document next position chain).skip = next.skip := by
  induction chain generalizing position with
  | nil => rfl
  | cons interceptor rest ih => exact ih (position + 1)

theorem skip_commit (w : Writer) (event : WriteEvent) (id : String) (document : Value)
    (elapsed : Nat) : (w.commit event id document elapsed).skip = .done (.ok document) :=
  skip_tell document _ 0 w.chain

/-- A guarded write goes on to its calls, or it was refused and ends. -/
theorem skip_guarded (w : Writer) (event : WriteEvent) (calls : Script) :
    w.Agrees event ∧ (w.guarded event calls).skip = calls.skip ∨
      ¬w.Agrees event ∧ ∃ result, (w.guarded event calls).skip = .done result := by
  by_cases hagree : w.Agrees event
  · exact .inl ⟨hagree, skip_ask_of_agree hagree calls 0⟩
  · exact .inr ⟨hagree, skip_ask_of_refusal hagree calls 0⟩

end Writer

/-! ## Phases of a write -/

/-- The number that a document was created under. -/
def numberOf (document : Value) : Option Value := document.get? numberField

/-- What may come of a write without faults. A delete that its interceptors agree to gives
the removed document or has found none. -/
def Write.Reports (w : Writer) (result : Except WriteError Value) : Write → Prop
  | .delete type id => w.Agrees ⟨.delete, type, some id, none⟩ →
      (∃ document, result = .ok document) ∨ result = .error (.notFound type id)
  | _ => True

/-- The write does not set the number of a document. -/
def Write.KeepsNumber : Write → Prop
  | .update _ _ (.object changes) => Members.get? changes numberField = none
  | _ => True

/-- Where a write can stand, by what is left of it. -/
inductive Write.Phase (w : Writer) : Write → Script → Prop
  | numbering {type : String} {payload : Value} {next : Except String Nat → Script}
      (h : ∀ n : Nat, ∃ document after result,
        (next (.ok n)).skip = .call (.insert type document) after ∧
        numberOf document = some (.ofInt n) ∧ (after (.ok ())).skip = .done result) :
      Write.Phase w (.create type payload) (.call (.advance (sequenceName type)) next)
  | inserting {type : String} {payload document : Value} {next : Except String Unit → Script}
      (h : ∃ result, (next (.ok ())).skip = .done result) :
      Write.Phase w (.create type payload) (.call (.insert type document) next)
  | patching {type id : String} {changes : Members} {next : Except String (Option Value) → Script}
      (h : ∀ found, ∃ result, (next (.ok found)).skip = .done result) :
      Write.Phase w (.update type id (.object changes))
        (.call (.patch type w.idField id changes) next)
  | removing {type id : String} {next : Except String (Option Value) → Script}
      (hnone : (next (.ok none)).skip = .done (.error (.notFound type id)))
      (hsome : ∀ document, (next (.ok (some document))).skip = .done (.ok document)) :
      Write.Phase w (.delete type id) (.call (.remove type w.idField id) next)
  | ended {write : Write} {result : Except WriteError Value} (h : write.Reports w result) :
      Write.Phase w write (.done result)

namespace Write

open Writer

/-- A guarded write is in the phase of its calls, unless it was refused. -/
theorem Phase.guarded {w : Writer} {write : Write} {event : WriteEvent} {calls : Script}
    (hcalls : write.Phase w calls.skip)
    (hrefused : ¬w.Agrees event → ∀ result, write.Reports w result) :
    write.Phase w (w.guarded event calls).skip := by
  rcases w.skip_guarded event calls with ⟨-, hskip⟩ | ⟨hrefuses, result, hskip⟩
  · rwa [hskip]
  · rw [hskip]
    exact .ended (hrefused hrefuses result)

/-- The phase in which a write starts. -/
theorem Phase.start (w : Writer) (elapsed : Nat) (write : Write) :
    write.Phase w (write.script w elapsed).skip := by
  cases write with
  | create type payload =>
    cases payload with
    | object members =>
      refine Phase.guarded (.numbering fun n => ?_) fun _ _ => trivial
      refine ⟨.object (Members.insert members numberField (.ofInt n)), _, _, rfl, ?_,
        w.skip_commit _ _ _ elapsed⟩
      exact Members.get?_insert_self members numberField _
    | _ => exact .ended trivial
  | update type id payload =>
    cases payload with
    | object changes =>
      refine Phase.guarded (.patching fun found => ?_) fun _ _ => trivial
      cases found with
      | none => exact ⟨_, rfl⟩
      | some document => exact ⟨_, w.skip_commit _ _ document elapsed⟩
    | _ => exact .ended trivial
  | delete type id =>
    refine Phase.guarded (.removing rfl fun document => w.skip_commit _ _ document elapsed) ?_
    intro hrefuses result hagree
    exact absurd hagree hrefuses

end Write

/-! ## Sessions -/

/-- A write in progress: who writes what, and what is left to do. -/
structure Task where
  writer : Writer
  write : Write
  rest : Script

/-- Writes in progress, and the storage that they share. -/
structure Session where
  storage : Storage
  tasks : List Task

/-- The task stands before its first action. -/
def Task.Fresh (task : Task) : Prop :=
  ∃ elapsed, task.rest = task.write.script task.writer elapsed

/-- The task stands where its write can stand. -/
def Task.Sound (task : Task) : Prop := task.write.Phase task.writer task.rest.skip

theorem Task.Fresh.sound {task : Task} (h : task.Fresh) : task.Sound := by
  obtain ⟨elapsed, hrest⟩ := h
  unfold Sound
  rw [hrest]
  exact Write.Phase.start task.writer elapsed task.write

/-- What the next action of a task can be, with the storage and the script behind it. -/
inductive Task.Move (storage : Storage) (task : Task) : Action → Storage → Script → Prop
  | quiet {action : Action} {rest : Script} (hcall : action.isCall = false)
      (hskip : rest.skip = task.rest.skip) : Task.Move storage task action storage rest
  | numbered {type : String} {payload document : Value} {rest : Script}
      {next : Except String Nat → Script} {after : Except String Unit → Script}
      (hwrite : task.write = .create type payload)
      (hskip : task.rest.skip = .call (.advance (sequenceName type)) next)
      (hrest : rest.skip = .call (.insert type document) after)
      (hnumber : numberOf document =
        some (.ofInt (storage.counters.current (sequenceName type) + 1 : Nat))) :
      Task.Move storage task
        (.call (.advance (sequenceName type))
          (.ok (storage.counters.current (sequenceName type) + 1)))
        { storage with counters := (storage.counters.advance (sequenceName type)).2 } rest
  | inserted {type : String} {payload document : Value} {rest : Script}
      {next : Except String Unit → Script} {result : Except WriteError Value}
      (hwrite : task.write = .create type payload)
      (hskip : task.rest.skip = .call (.insert type document) next)
      (hrest : rest.skip = .done result) :
      Task.Move storage task (.call (.insert type document) (.ok ()))
        { storage with store := storage.store.insert type document } rest
  | patched {type id : String} {changes : Members} {front back : List Value} {found : Value}
      {rest : Script} {next : Except String (Option Value) → Script}
      {result : Except WriteError Value}
      (hwrite : task.write = .update type id (.object changes))
      (hskip : task.rest.skip = .call (.patch type task.writer.idField id changes) next)
      (hfinds : storage.store.Finds type task.writer.idField id front found back)
      (hrest : rest.skip = .done result) :
      Task.Move storage task
        (.call (.patch type task.writer.idField id changes)
          (.ok (some (Store.merged changes found))))
        { storage with
          store := storage.store.withDocuments type (front ++ Store.merged changes found :: back) }
        rest
  | unpatched {type id : String} {changes : Members} {rest : Script}
      {next : Except String (Option Value) → Script} {result : Except WriteError Value}
      (hwrite : task.write = .update type id (.object changes))
      (hskip : task.rest.skip = .call (.patch type task.writer.idField id changes) next)
      (hrest : rest.skip = .done result) :
      Task.Move storage task
        (.call (.patch type task.writer.idField id changes) (.ok none)) storage rest
  | removed {type id : String} {front back : List Value} {found : Value} {rest : Script}
      {next : Except String (Option Value) → Script}
      (hwrite : task.write = .delete type id)
      (hskip : task.rest.skip = .call (.remove type task.writer.idField id) next)
      (hfinds : storage.store.Finds type task.writer.idField id front found back)
      (hrest : rest.skip = .done (.ok found)) :
      Task.Move storage task (.call (.remove type task.writer.idField id) (.ok (some found)))
        { storage with store := storage.store.withDocuments type (front ++ back) } rest
  | unremoved {type id : String} {rest : Script} {next : Except String (Option Value) → Script}
      (hwrite : task.write = .delete type id)
      (hskip : task.rest.skip = .call (.remove type task.writer.idField id) next)
      (hrest : rest.skip = .done (.error (.notFound type id))) :
      Task.Move storage task (.call (.remove type task.writer.idField id) (.ok none)) storage rest

namespace Task

variable {task : Task} {storage storage' : Storage} {action : Action} {rest : Script}

/-- A step of a sound task is one of the moves, and leaves the task sound. -/
theorem Sound.step (hsound : task.Sound)
    (h : task.rest.step .none storage = some (action, storage', rest)) :
    task.Move storage action storage' rest ∧ Task.Sound { task with rest } := by
  obtain ⟨w, write, script⟩ := task
  unfold Sound at hsound ⊢
  -- A step that is no call stays in its phase. A call is the one that the phase expects, and
  -- the phase says where each of its answers leads.
  rcases Script.step_cases h with ⟨rfl, hcall, hskip⟩ | ⟨c, next, hskip, rfl, rfl, rfl⟩
  · exact ⟨.quiet hcall hskip, hskip ▸ hsound⟩
  · simp only at hsound hskip ⊢
    rw [hskip] at hsound
    cases hsound with
    | @numbering type payload next hnext =>
      obtain ⟨document, after, result, hrest, hnumber, hafter⟩ :=
        hnext (storage.counters.current (sequenceName type) + 1)
      refine ⟨.numbered rfl hskip hrest hnumber, ?_⟩
      rw [Storage.answer_of_sound rfl]
      exact hrest ▸ .inserting ⟨result, hafter⟩
    | inserting hnext =>
      obtain ⟨result, hrest⟩ := hnext
      exact ⟨.inserted rfl hskip hrest, hrest ▸ .ended trivial⟩
    | @patching type id changes next hnext =>
      rcases storage.store.finds_or_lacks type w.idField id with hfinds | hlacks
      · obtain ⟨front, found, back, hfinds⟩ := hfinds
        obtain ⟨result, hrest⟩ := hnext (some (Store.merged changes found))
        rw [Storage.answer_patch_of_finds rfl hfinds]
        exact ⟨.patched rfl hskip hfinds hrest, hrest ▸ .ended trivial⟩
      · obtain ⟨result, hrest⟩ := hnext none
        rw [Storage.answer_patch_of_lacks rfl hlacks]
        exact ⟨.unpatched rfl hskip hrest, hrest ▸ .ended trivial⟩
    | @removing type id next hnone hsome =>
      rcases storage.store.finds_or_lacks type w.idField id with hfinds | hlacks
      · obtain ⟨front, found, back, hfinds⟩ := hfinds
        rw [Storage.answer_remove_of_finds rfl hfinds]
        exact ⟨.removed rfl hskip hfinds (hsome found),
          hsome found ▸ .ended fun _ => .inl ⟨found, rfl⟩⟩
      · rw [Storage.answer_remove_of_lacks rfl hlacks]
        exact ⟨.unremoved rfl hskip hnone, hnone ▸ .ended fun _ => .inr rfl⟩

end Task

namespace Session

/-- One of the writes in progress takes its next action. -/
inductive Step : Session → Action → Session → Prop
  | act {storage storage' : Storage} {front back : List Task} {task : Task} {rest : Script}
      {action : Action} (h : task.rest.step .none storage = some (action, storage', rest)) :
      Step ⟨storage, front ++ task :: back⟩ action ⟨storage', front ++ { task with rest } :: back⟩

/-- The actions lead from one session to another. -/
inductive Run (s : Session) : List Action → Session → Prop
  | nil : Run s [] s
  | snoc {t u : Session} {actions : List Action} {action : Action} (hrun : Run s actions t)
      (hstep : Step t action u) : Run s (actions ++ [action]) u

/-- All tasks are sound. -/
def Sound (s : Session) : Prop := ∀ task ∈ s.tasks, task.Sound

/-- All tasks ask for writes of the property. -/
def Asks (s : Session) (p : Write → Prop) : Prop := ∀ task ∈ s.tasks, p task.write

variable {s t u : Session} {action : Action} {actions more : List Action} {p : Write → Prop}

/-- What a step of sound tasks is: one of them moves, and the others stay. -/
theorem Step.move (h : Step s action t) (hsound : s.Sound) :
    ∃ front task rest back, s.tasks = front ++ task :: back ∧
      t.tasks = front ++ { task with rest } :: back ∧
      task.Move s.storage action t.storage rest ∧ Task.Sound { task with rest } := by
  obtain ⟨hstep⟩ := h
  obtain ⟨hmove, hrest⟩ := (hsound _ (List.mem_append_right _ List.mem_cons_self)).step hstep
  exact ⟨_, _, _, _, rfl, rfl, hmove, hrest⟩

theorem Step.sound (h : Step s action t) (hsound : s.Sound) : t.Sound := by
  obtain ⟨front, task, rest, back, hs, ht, -, hrest⟩ := h.move hsound
  unfold Sound at hsound ⊢
  rw [hs, List.forall_mem_append, List.forall_mem_cons] at hsound
  rw [ht, List.forall_mem_append, List.forall_mem_cons]
  exact ⟨hsound.1, hrest, hsound.2.2⟩

/-- Tasks ask for the same as they go on. -/
theorem Step.asks (h : Step s action t) (hasks : s.Asks p) : t.Asks p := by
  obtain ⟨hstep⟩ := h
  unfold Asks at hasks ⊢
  rw [List.forall_mem_append, List.forall_mem_cons] at hasks ⊢
  exact hasks

theorem Run.sound (h : Run s actions t) (hsound : s.Sound) : t.Sound := by
  induction h with
  | nil => exact hsound
  | snoc hrun hstep ih => exact hstep.sound ih

theorem Run.asks (h : Run s actions t) (hasks : s.Asks p) : t.Asks p := by
  induction h with
  | nil => exact hasks
  | snoc hrun hstep ih => exact hstep.asks ih

theorem Run.cons (hstep : Step s action t) (h : Run t actions u) : Run s (action :: actions) u := by
  induction h with
  | nil => exact Run.nil.snoc hstep
  | snoc hrun hlast ih => exact ih.snoc hlast

/-! ## Schedules -/

/-- The next action of the task at a position, and the session after it. -/
def act? (s : Session) (position : Nat) : Option (Action × Session) :=
  s.tasks[position]?.bind fun task =>
    (task.rest.step .none s.storage).map fun (action, storage, rest) =>
      (action, ⟨storage, s.tasks.set position { task with rest }⟩)

/-- The actions of tasks that take turns by their positions, and the session after them.
Whose turn it is when nothing is left to do passes. -/
def follow (s : Session) : List Nat → List Action × Session
  | [] => ([], s)
  | position :: schedule =>
    match s.act? position with
    | none => s.follow schedule
    | some (action, t) =>
      let (actions, u) := t.follow schedule
      (action :: actions, u)

theorem step_iff_act? : Step s action t ↔ ∃ position, s.act? position = some (action, t) := by
  constructor
  · intro h
    obtain @⟨storage, storage', front, back, task, rest, _, hstep⟩ := h
    refine ⟨front.length, ?_⟩
    have hset : (front ++ task :: back).set front.length { task with rest } =
        front ++ { task with rest } :: back := by
      rw [List.set_append_right _ _ (Nat.le_refl _), Nat.sub_self, List.set_cons_zero]
    unfold act?
    rw [List.getElem?_append_right (Nat.le_refl _), Nat.sub_self, List.getElem?_cons_zero,
      Option.bind_some, hstep, ← hset]
    rfl
  · intro h
    obtain ⟨position, hact⟩ := h
    obtain ⟨task, htask, hmap⟩ := Option.bind_eq_some_iff.mp hact
    obtain ⟨⟨_, storage', rest⟩, hstep, heq⟩ := Option.map_eq_some_iff.mp hmap
    obtain ⟨rfl, rfl⟩ := Prod.mk.inj heq
    obtain ⟨hposition, rfl⟩ := List.getElem?_eq_some_iff.mp htask
    -- `Step` wants the tasks around the one that moves.
    have htasks : s.tasks =
        s.tasks.take position ++ s.tasks[position] :: s.tasks.drop (position + 1) := by
      rw [List.getElem_cons_drop, List.take_append_drop]
    rw [List.set_eq_take_append_cons_drop, if_pos hposition]
    have hmove : Step ⟨s.storage, s.tasks.take position ++
        s.tasks[position] :: s.tasks.drop (position + 1)⟩ _ _ := .act hstep
    rwa [← htasks] at hmove

/-- Taking turns is a run. -/
theorem run_follow (s : Session) (schedule : List Nat) :
    Run s (s.follow schedule).1 (s.follow schedule).2 := by
  induction schedule generalizing s with
  | nil => exact .nil
  | cons position schedule ih =>
    rw [follow]
    cases hact : s.act? position with
    | none => exact ih s
    | some moved =>
      obtain ⟨action, t⟩ := moved
      exact (ih t).cons (step_iff_act?.mpr ⟨position, hact⟩)

/-- One more turn is one more action. -/
theorem follow_concat {schedule : List Nat} {position : Nat}
    (h : s.follow schedule = (actions, t)) (hact : t.act? position = some (action, u)) :
    s.follow (schedule ++ [position]) = (actions ++ [action], u) := by
  induction schedule generalizing s actions with
  | nil =>
    cases h
    rw [List.nil_append, follow, hact]
    rfl
  | cons first schedule ih =>
    rw [follow] at h
    rw [List.cons_append, follow]
    cases hfirst : s.act? first with
    | none =>
      rw [hfirst] at h
      exact ih h
    | some moved =>
      obtain ⟨action', middle⟩ := moved
      rw [hfirst] at h
      cases h
      simp only [ih rfl, List.cons_append]

/-- The runs are what taking turns gives, so an order of the actions is a schedule. -/
theorem run_iff_exists_follow : Run s actions t ↔ ∃ schedule, s.follow schedule = (actions, t) := by
  constructor
  · intro h
    induction h with
    | nil => exact ⟨[], rfl⟩
    | snoc hrun hstep ih =>
      obtain ⟨schedule, hfollow⟩ := ih
      obtain ⟨position, hact⟩ := step_iff_act?.mp hstep
      exact ⟨schedule ++ [position], follow_concat hfollow hact⟩
  · intro h
    obtain ⟨schedule, hfollow⟩ := h
    have hrun := s.run_follow schedule
    rwa [hfollow] at hrun

end Session

end JoinPlan
