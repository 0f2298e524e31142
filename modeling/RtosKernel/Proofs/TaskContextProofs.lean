import RtosKernel.Proofs.TaskRunProofs

/-!
# Runs of the task scheduler: the ring and the saved contexts

Two properties of every state of a run from `init_tasking`:

* the links from the current task visit every created task once and come back, the tasks are counted
  and numbered (`RingIntact`),
* a `schedule` call returns the stack pointer that the chosen task was interrupted with, or the one
  that `create_task` built for it (`ResumesOwn`).

Both rest on what `schedule` leaves alone, whatever the links are (`schedule_frame`).
-/

namespace RtosKernel

open Lib

/-! ## What `schedule` leaves alone -/

/-- `s'` is `s` up to links, states, sleep counters, processor times and the current task. -/
structure SameContexts (s s' : Tasking) : Prop where
  nextPid : s'.nextPid = s.nextPid
  totalTasks : s'.totalTasks = s.totalTasks
  poolAddr : s'.poolAddr = s.poolAddr
  id : ∀ t, (s'.tasks t).id = (s.tasks t).id
  esp : ∀ t, (s'.tasks t).esp = (s.tasks t).esp

section Frame

variable {s s' k : Tasking} {l : List TaskRef} {fuel : ℕ} {esp r : UInt32}

theorem SameContexts.refl (s : Tasking) : SameContexts s s :=
  ⟨rfl, rfl, rfl, fun _ => rfl, fun _ => rfl⟩

theorem SameContexts.setTask (h : SameContexts s s') (t : TaskRef) {v : Task}
    (hid : v.id = (s'.tasks t).id) (hesp : v.esp = (s'.tasks t).esp) : SameContexts s (s'.setTask t v) := by
  refine ⟨h.nextPid, h.totalTasks, h.poolAddr, fun u => ?_, fun u => ?_⟩
  · rw [← h.id u]
    by_cases hu : u = t
    · subst hu
      simpa using hid
    · simp [hu]
  · rw [← h.esp u]
    by_cases hu : u = t
    · subst hu
      simpa using hesp
    · simp [hu]

theorem wakeTask_context (t : Task) : (wakeTask t).id = t.id ∧ (wakeTask t).esp = t.esp := by
  obtain ⟨state, ticks, ht, -⟩ := wakeTask_fields t
  rw [ht]
  exact ⟨rfl, rfl⟩

theorem wakePass_same (h : wakePass fuel s = .ok s') : SameContexts s s' ∧ s'.current = s.current := by
  refine traverse_inv (I := fun k => SameContexts s k ∧ k.current = s.current) ?_ ⟨.refl s, rfl⟩ h
  rintro t k ⟨hk, hc⟩
  obtain ⟨hid, hesp⟩ := wakeTask_context (k.tasks t)
  exact ⟨hk.setTask t hid hesp, hc⟩

/-- A `schedule` call saves `esp` in the task that was current, returns what is saved in the task it
makes current, and changes no other saved stack pointer. -/
theorem schedule_frame (h : schedule fuel esp s = .ok (r, s')) :
    s'.nextPid = s.nextPid ∧ s'.totalTasks = s.totalTasks ∧ s'.poolAddr = s.poolAddr ∧
      (∀ t, (s'.tasks t).id = (s.tasks t).id) ∧
      (∀ t, (s'.tasks t).esp = if t = s.current then esp else (s.tasks t).esp) ∧
      r = (s'.tasks s'.current).esp := by
  obtain ⟨s1, hwake, h⟩ := bind_eq_ok.mp h
  obtain ⟨⟨best, prio⟩, -, h⟩ := bind_eq_ok.mp h
  obtain ⟨hr, hs'⟩ := Prod.mk.inj (Except.ok.inj h)
  obtain ⟨hsame, -⟩ := wakePass_same hwake
  set cur := best.getD s1.current with hcur
  have hlast : SameContexts s1 s' := by
    have hset := (SameContexts.refl s1).setTask cur
      (v := { s1.tasks cur with cpuTicks := (s1.tasks cur).cpuTicks + 1 }) rfl rfl
    rw [← hs']
    exact ⟨hset.nextPid, hset.totalTasks, hset.poolAddr, hset.id, hset.esp⟩
  have hsave : ∀ t, (s1.tasks t).id = (s.tasks t).id ∧
      (s1.tasks t).esp = if t = s.current then esp else (s.tasks t).esp := by
    intro t
    rw [hsame.id t, hsame.esp t]
    by_cases ht : t = s.current
    · subst ht
      simp
    · simp [ht]
  refine ⟨hlast.nextPid.trans hsame.nextPid, hlast.totalTasks.trans hsame.totalTasks,
    hlast.poolAddr.trans hsame.poolAddr, fun t => ?_, fun t => ?_, ?_⟩
  · rw [hlast.id, (hsave t).1]
  · rw [hlast.esp, (hsave t).2]
  · rw [hlast.esp, ← hr, ← hs']

theorem markSleeping_same (ticks : UInt32) (s : Tasking) : SameContexts s (markSleeping ticks s) :=
  (SameContexts.refl s).setTask s.current rfl rfl

/-- The numbers that `create_task` gives out, and the stack pointer of the new task. -/
theorem createTask_numbers (entry priority : UInt32) (hp : s.poolIndex < taskPoolSize)
    (hx : s.current ≠ .pool ⟨s.poolIndex, hp⟩) :
    (createTask entry priority s).nextPid = s.nextPid + 1 ∧
    (createTask entry priority s).totalTasks = s.totalTasks + 1 ∧
    (createTask entry priority s).poolAddr = s.poolAddr ∧
    ((createTask entry priority s).tasks (.pool ⟨s.poolIndex, hp⟩)).id = s.nextPid ∧
    ((createTask entry priority s).tasks (.pool ⟨s.poolIndex, hp⟩)).esp =
      initialEsp s.poolAddr ⟨s.poolIndex, hp⟩ := by
  refine ⟨by simp [createTask, hp], by simp [createTask, hp], by simp [createTask, hp, Tasking.setTask], ?_, ?_⟩
  · simp [createTask, hp, hx.symm, newTask]
  · simp only [createTask, hp, dif_pos, Tasking.setTask_tasks, Tasking.setTask_current,
      Function.update_of_ne hx.symm, Function.update_self]
    rfl

end Frame

/-! ## The ring -/

/-- The links from the current task lead through every created task once and back to it; `task_count`
is their number, their ids differ, and both loops of `schedule` come to their end. -/
structure RingIntact (s : TaskSys) : Prop where
  ring : ∃ l, IsRing s.tasking.next s.tasking.current l ∧ l.Nodup ∧ (∀ t, t ∈ l ↔ Created s.tasking t) ∧
    (taskCount s.tasking).toNat = l.length
  ids : ∀ t u, Created s.tasking t → Created s.tasking u →
    (s.tasking.tasks t).id = (s.tasking.tasks u).id → t = u
  loops : ∀ esp, ∃ passes r, schedule passes esp s.tasking = .ok r

/-- The number that a task gets: `main_task` is 0, `task_pool[i]` is `i + 1`. -/
def taskNumber : TaskRef → ℕ
  | .mainTask => 0
  | .pool i => i + 1

/-- The tasks are numbered in the order of the pool, and counted. -/
structure NumberInv (s : Tasking) : Prop where
  bound : s.poolIndex ≤ taskPoolSize
  nextPid : s.nextPid.toNat = s.poolIndex + 1
  total : s.totalTasks.toNat = s.poolIndex + 1
  ids : ∀ t, Created s t → (s.tasks t).id.toNat = taskNumber t

section Numbers

variable {s k : Tasking} {l : List TaskRef} {fuel : ℕ}

theorem taskNumber_injective : Function.Injective taskNumber := by
  intro t u h
  cases t with
  | mainTask =>
    cases u with
    | mainTask => rfl
    | pool j => simp [taskNumber] at h
  | pool i =>
    cases u with
    | mainTask => simp [taskNumber] at h
    | pool j =>
      simp only [taskNumber, Nat.add_right_cancel_iff] at h
      rw [Fin.ext h]

theorem initTasking_numbers (poolAddr : UInt32) : NumberInv (initTasking (bootTasking poolAddr)) := by
  refine ⟨Nat.zero_le _, rfl, rfl, fun t ht => ?_⟩
  cases t with
  | mainTask => rfl
  | pool i => exact absurd ht (Nat.not_lt_zero _)

theorem NumberInv.create (h : NumberInv s) (hl : TaskRing s l) (entry priority : UInt32) :
    NumberInv (createTask entry priority s) := by
  by_cases hp : s.poolIndex < taskPoolSize
  · have hx := hl.current_ne_new hp
    obtain ⟨-, -, hidx, -, hold⟩ := createTask_spec entry priority hp hx
    obtain ⟨hpid, htot, -, hid, -⟩ := createTask_numbers entry priority hp hx
    have hone : (1 : UInt32).toNat = 1 := rfl
    have hpool : taskPoolSize = 8 := rfl
    have h1 := h.nextPid
    have h2 := h.total
    refine ⟨by rw [hidx]; exact hp, ?_, ?_, fun t ht => ?_⟩
    · rw [hpid, hidx, UInt32.toNat_add]
      omega
    · rw [htot, hidx, UInt32.toNat_add]
      omega
    · rcases (created_createTask entry priority hp hx t).mp ht with rfl | ht'
      · rw [hid, h1]
        rfl
      · have hne : t ≠ .pool ⟨s.poolIndex, hp⟩ := by
          rintro rfl
          exact Nat.lt_irrefl _ ht'
        obtain ⟨n, hn⟩ := hold t hne
        rw [hn]
        exact h.ids t ht'
  · rw [createTask_full entry priority hp]
    exact h

theorem NumberInv.schedule {esp r : UInt32} (h : NumberInv s) (hs : schedule fuel esp s = .ok (r, k))
    (hidx : k.poolIndex = s.poolIndex) : NumberInv k := by
  obtain ⟨hpid, htot, -, hid, -⟩ := schedule_frame hs
  refine ⟨by rw [hidx]; exact h.bound, by rw [hpid, hidx]; exact h.nextPid, by rw [htot, hidx]; exact h.total,
    fun t ht => ?_⟩
  rw [hid]
  refine h.ids t ?_
  cases t with
  | mainTask => trivial
  | pool i => rwa [Created, hidx] at ht

theorem NumberInv.markSleeping (h : NumberInv s) (ticks : UInt32) : NumberInv (markSleeping ticks s) := by
  have hsame := markSleeping_same ticks s
  refine ⟨h.bound, h.nextPid, h.total, fun t ht => ?_⟩
  rw [hsame.id]
  refine h.ids t ?_
  cases t with
  | mainTask => trivial
  | pool i => exact ht

/-- The ring has one task more than the pool has given out. -/
theorem TaskRing.length_eq (hl : TaskRing s l) (hb : s.poolIndex ≤ taskPoolSize) :
    l.length = s.poolIndex + 1 := by
  have hnd : (l.map taskNumber).Nodup := hl.ring.nodup.map taskNumber_injective
  have hset : (l.map taskNumber).toFinset = Finset.range (s.poolIndex + 1) := by
    ext n
    simp only [List.mem_toFinset, List.mem_map, Finset.mem_range]
    constructor
    · rintro ⟨t, ht, rfl⟩
      have hc := (hl.mem t).mp ht
      cases t with
      | mainTask => exact Nat.succ_pos _
      | pool i => exact Nat.succ_lt_succ hc
    · intro hn
      cases n with
      | zero => exact ⟨.mainTask, (hl.mem _).mpr trivial, rfl⟩
      | succ n =>
        have hn' : n < s.poolIndex := by omega
        exact ⟨.pool ⟨n, by omega⟩, (hl.mem _).mpr hn', rfl⟩
  rw [← List.length_map taskNumber, ← List.toFinset_card_of_nodup hnd, hset, Finset.card_range]

theorem ringIntact_of {s : TaskSys} (hl : TaskRing s.tasking l) (h : NumberInv s.tasking) :
    RingIntact s := by
  refine ⟨?_, fun t u ht hu he => taskNumber_injective ?_, fun esp => ?_⟩
  · obtain ⟨l', hr, hp⟩ := hl.ring.of_mem hl.current
    refine ⟨l', hr, hr.nodup, fun t => hp.mem_iff.trans (hl.mem t), ?_⟩
    rw [taskCount, h.total, hp.length_eq, hl.length_eq h.bound]
  · rw [← h.ids t ht, ← h.ids u hu, he]
  · obtain ⟨r, k, hs, -⟩ := hl.schedule le_rfl esp
    exact ⟨9, (r, k), hs⟩

/-- Every operation returns and keeps the ring and the numbers. -/
theorem taskStep_numbers {s : TaskSys} (hf : 9 ≤ fuel) (op : TaskOp)
    (h : (∃ l, TaskRing s.tasking l) ∧ NumberInv s.tasking) :
    ∃ s', taskStep fuel s op = .ok s' ∧ (∃ l, TaskRing s'.tasking l) ∧ NumberInv s'.tasking := by
  obtain ⟨⟨l, hl⟩, hn⟩ := h
  obtain ⟨s', he, heff⟩ := hl.step hf op
  refine ⟨s', he, heff.ring hl, ?_⟩
  cases heff with
  | create entry priority => exact hn.create hl entry priority
  | noSleep esp => exact hn
  | @sleep ticks _ _ _ _ hsch hs => exact (hn.markSleeping ticks).schedule hsch hs.poolIndex
  | schedule hsch hs => exact hn.schedule hsch hs.poolIndex

end Numbers

/-- **Task ring integrity: in every state of a run from `init_tasking` the links from the current task
visit `main_task` and the pool tasks created so far once each and come back to it; `task_count` is the
length of this ring, the ids on it differ, and `schedule` returns.** -/
theorem task_ring_intact {fuel : ℕ} (hf : 9 ≤ fuel) (poolAddr : UInt32) (ops : List TaskOp) :
    Along (taskStep fuel) (bootTasks (bootTasking poolAddr)) RingIntact ops := by
  refine along_of_total (I := fun s => (∃ l, TaskRing s.tasking l) ∧ NumberInv s.tasking) ?_ ?_ ?_ ops
  · exact ⟨⟨_, initTasking_ring _⟩, initTasking_numbers poolAddr⟩
  · rintro s ⟨⟨l, hl⟩, hn⟩
    exact ringIntact_of hl hn
  · exact fun s op h => taskStep_numbers hf op h

theorem task_ring_intact_two_tasks :
    9 ≤ 9 ∧ Along (taskStep 9) (bootTasks (bootTasking 0x200000)) RingIntact
      [.create 0x1000 3, .schedule 0x9000, .create 0x2000 2, .sleep 5 0x8000] :=
  ⟨le_rfl, task_ring_intact le_rfl _ _⟩

/-! ## Saved contexts -/

/-- A `schedule` call in `k`, when the earlier calls were those of `saves` and `ran` are the tasks that
have been current: it returns, and what it returns is the stack pointer passed to the latest call (this
one included) made while the chosen task was current, or, if that task has never been current, the one
that `create_task` built for it. -/
def OwnContext (fuel : ℕ) (k : Tasking) (saves : List (TaskRef × UInt32)) (ran : List TaskRef) : Prop :=
  ∀ esp, ∃ r k', schedule fuel esp k = .ok (r, k') ∧
    (lastSave ((k.current, esp) :: saves) k'.current = some r ∨
      k'.current ∉ ran ∧ ∃ i, k'.current = .pool i ∧ r = initialEsp k.poolAddr i)

/-- Every `schedule` call that can be made now, by the timer or by `task_sleep`, resumes the chosen task
with its own context. -/
def ResumesOwn (fuel : ℕ) (s : ContextSys) : Prop :=
  OwnContext fuel s.tasking s.saves s.ran ∧
    ∀ ticks, OwnContext fuel (markSleeping ticks s.tasking) s.saves s.ran

/-- The saved stack pointers are those of the record, and a task that has been current and is not any
more has been saved. -/
structure SavedInv (k : Tasking) (saves : List (TaskRef × UInt32)) (ran : List TaskRef) : Prop where
  saved : ∀ t e, lastSave saves t = some e → (k.tasks t).esp = e ∧ t ∈ ran
  fresh : ∀ i, Created k (.pool i) → TaskRef.pool i ∉ ran → (k.tasks (.pool i)).esp = initialEsp k.poolAddr i
  left : ∀ t ∈ ran, t ≠ k.current → ∃ e, lastSave saves t = some e
  created : ∀ t ∈ ran, Created k t
  main : .mainTask ∈ ran
  current : k.current ∈ ran

section Contexts

variable {k k' : Tasking} {saves : List (TaskRef × UInt32)} {ran l : List TaskRef} {fuel : ℕ}

theorem lastSave_self (t : TaskRef) (esp : UInt32) : lastSave ((t, esp) :: saves) t = some esp := by
  simp [lastSave]

theorem lastSave_of_ne {t u : TaskRef} (h : t ≠ u) (esp : UInt32) :
    lastSave ((t, esp) :: saves) u = lastSave saves u := by
  simp [lastSave, h]

theorem bootContexts_saved (s : Tasking) : SavedInv (initTasking s) [] [.mainTask] := by
  refine ⟨fun t e h => ?_, fun i hc => ?_, fun t ht hne => ?_, fun t ht => ?_, by simp, ?_⟩
  · simp [lastSave] at h
  · exact absurd hc (Nat.not_lt_zero _)
  · exact absurd (List.mem_singleton.mp ht) hne
  · obtain rfl := List.mem_singleton.mp ht
    trivial
  · show TaskRef.mainTask ∈ [TaskRef.mainTask]
    simp

theorem SavedInv.create (h : SavedInv k saves ran) (hl : TaskRing k l) (entry priority : UInt32) :
    SavedInv (createTask entry priority k) saves ran := by
  by_cases hp : k.poolIndex < taskPoolSize
  · have hx := hl.current_ne_new hp
    have hnew : ¬ Created k (.pool ⟨k.poolIndex, hp⟩) := Nat.lt_irrefl _
    obtain ⟨-, hcur, -, -, hold⟩ := createTask_spec entry priority hp hx
    obtain ⟨-, -, haddr, -, hesp⟩ := createTask_numbers entry priority hp hx
    have hcreated := created_createTask entry priority hp hx
    have hkeep : ∀ t, Created k t → ((createTask entry priority k).tasks t).esp = (k.tasks t).esp := by
      intro t ht
      obtain ⟨n, hn⟩ := hold t fun e => hnew (e ▸ ht)
      rw [hn]
    refine ⟨fun t e he => ?_, fun i hc hr => ?_, fun t ht hne => ?_, fun t ht => ?_, h.main, ?_⟩
    · obtain ⟨h1, h2⟩ := h.saved t e he
      exact ⟨(hkeep t (h.created t h2)).trans h1, h2⟩
    · rw [haddr]
      rcases (hcreated _).mp hc with hi | hc'
      · obtain rfl := TaskRef.pool.inj hi
        exact hesp
      · rw [hkeep _ hc']
        exact h.fresh i hc' hr
    · rw [hcur] at hne
      exact h.left t ht hne
    · exact (hcreated t).mpr (.inr (h.created t ht))
    · rw [hcur]
      exact h.current
  · rw [createTask_full entry priority hp]
    exact h

theorem SavedInv.markSleeping (h : SavedInv k saves ran) (ticks : UInt32) :
    SavedInv (markSleeping ticks k) saves ran := by
  have hsame := markSleeping_same ticks k
  have hc : ∀ t, Created (RtosKernel.markSleeping ticks k) t ↔ Created k t := by
    intro t
    cases t with
    | mainTask => exact Iff.rfl
    | pool i => exact Iff.rfl
  refine ⟨fun t e he => ?_, fun i hi hr => ?_, h.left, fun t ht => (hc t).mpr (h.created t ht), h.main, h.current⟩
  · rw [hsame.esp]
    exact h.saved t e he
  · rw [hsame.esp]
    exact h.fresh i ((hc _).mp hi) hr

/-- With a `schedule` call every task that has been current is saved. -/
theorem SavedInv.saved_now (h : SavedInv k saves ran) (esp : UInt32) {t : TaskRef} (ht : t ∈ ran) :
    ∃ e, lastSave ((k.current, esp) :: saves) t = some e := by
  by_cases hc : t = k.current
  · exact ⟨esp, hc ▸ lastSave_self _ _⟩
  · rw [lastSave_of_ne (Ne.symm hc)]
    exact h.left t ht hc

/-- A `schedule` call returns the context of the chosen task, and the record stays right. -/
theorem SavedInv.schedule (h : SavedInv k saves ran) (hl : TaskRing k l) (hf : 9 ≤ fuel) (esp : UInt32) :
    ∃ r k', schedule fuel esp k = .ok (r, k') ∧ TaskRing k' l ∧
      SavedInv k' ((k.current, esp) :: saves) (k'.current :: ran) ∧
      (lastSave ((k.current, esp) :: saves) k'.current = some r ∨
        k'.current ∉ ran ∧ ∃ i, k'.current = .pool i ∧ r = initialEsp k.poolAddr i) := by
  obtain ⟨r, k', hs, hsch⟩ := hl.schedule hf esp
  obtain ⟨-, -, haddr, -, hesp, hr⟩ := schedule_frame hs
  have hl' := hsch.ring hl
  have hcreated : ∀ t, Created k' t ↔ Created k t := fun t => (hl'.mem t).symm.trans (hl.mem t)
  have hcur : Created k k'.current := (hl.mem _).mp hsch.chosen.1
  have hsaved : ∀ t e, lastSave ((k.current, esp) :: saves) t = some e → (k'.tasks t).esp = e ∧ t ∈ ran := by
    intro t e he
    rw [hesp]
    by_cases ht : t = k.current
    · subst ht
      rw [lastSave_self] at he
      rw [if_pos rfl]
      exact ⟨Option.some.inj he, h.current⟩
    · rw [lastSave_of_ne (Ne.symm ht)] at he
      rw [if_neg ht]
      exact h.saved t e he
  have hfresh : ∀ i, Created k (.pool i) → TaskRef.pool i ∉ ran →
      (k'.tasks (.pool i)).esp = initialEsp k.poolAddr i := by
    intro i hi hnr
    have hne : TaskRef.pool i ≠ k.current := fun e => hnr (e ▸ h.current)
    rw [hesp, if_neg hne]
    exact h.fresh i hi hnr
  refine ⟨r, k', hs, hl', ⟨fun t e he => ?_, fun i hi hnr => ?_, fun t ht hne => ?_, fun t ht => ?_, ?_, ?_⟩, ?_⟩
  · exact ⟨(hsaved t e he).1, List.mem_cons_of_mem _ (hsaved t e he).2⟩
  · rw [haddr]
    exact hfresh i ((hcreated _).mp hi) fun hm => hnr (List.mem_cons_of_mem _ hm)
  · rcases List.mem_cons.mp ht with e | ht
    · exact absurd e hne
    · exact h.saved_now esp ht
  · rw [hcreated]
    rcases List.mem_cons.mp ht with e | ht
    · rw [e]
      exact hcur
    · exact h.created t ht
  · exact List.mem_cons_of_mem _ h.main
  · exact List.mem_cons_self ..
  · -- the chosen task has been current before, and then it was saved, or it is fresh
    by_cases hran : k'.current ∈ ran
    · obtain ⟨e, he⟩ := h.saved_now esp hran
      exact .inl (by rw [he, hr, (hsaved _ e he).1])
    · refine .inr ⟨hran, ?_⟩
      cases hc : k'.current with
      | mainTask => exact absurd (hc ▸ h.main) hran
      | pool i =>
        rw [hc] at hcur hran hr
        exact ⟨i, rfl, hr.trans (hfresh i hcur hran)⟩

theorem resumesOwn_of {s : ContextSys} (hl : TaskRing s.tasking l) (h : SavedInv s.tasking s.saves s.ran)
    (hf : 9 ≤ fuel) : ResumesOwn fuel s := by
  refine ⟨fun esp => ?_, fun ticks esp => ?_⟩
  · obtain ⟨r, k, hs, -, -, hown⟩ := h.schedule hl hf esp
    exact ⟨r, k, hs, hown⟩
  · obtain ⟨r, k, hs, -, -, hown⟩ := (h.markSleeping ticks).schedule (markSleeping_ring hl ticks) hf esp
    exact ⟨r, k, hs, hown⟩

/-- Every operation returns and keeps the ring and the record. -/
theorem contextStep_saved {s : ContextSys} (hf : 9 ≤ fuel) (op : TaskOp)
    (h : (∃ l, TaskRing s.tasking l) ∧ SavedInv s.tasking s.saves s.ran) :
    ∃ s', contextStep fuel s op = .ok s' ∧ (∃ l, TaskRing s'.tasking l) ∧
      SavedInv s'.tasking s'.saves s'.ran := by
  obtain ⟨⟨l, hl⟩, hI⟩ := h
  cases op with
  | create entry priority => exact ⟨_, rfl, hl.create entry priority, hI.create hl entry priority⟩
  | sleep ticks esp =>
    by_cases h0 : ticks = 0
    · refine ⟨s, ?_, ⟨l, hl⟩, hI⟩
      simp only [contextStep, taskSleep, h0, if_true, pure_eq_ok, ok_bind]
    · obtain ⟨r, k, hs, hl', hI', -⟩ := (hI.markSleeping ticks).schedule (markSleeping_ring hl ticks) hf esp
      refine ⟨s.record esp k, ?_, ⟨l, hl'⟩, hI'⟩
      simp only [contextStep, taskSleep, h0, if_false, hs, pure_eq_ok, ok_bind]
  | schedule esp =>
    obtain ⟨r, k, hs, hl', hI', -⟩ := hI.schedule hl hf esp
    refine ⟨s.record esp k, ?_, ⟨l, hl'⟩, hI'⟩
    simp only [contextStep, hs, pure_eq_ok, ok_bind]

end Contexts

/-- **Saved contexts are never mixed up: in every state of a run from `init_tasking` every `schedule`
call returns the stack pointer that was passed to the latest call made while the chosen task was
current, or the one that `create_task` built for it if it has never been current.** -/
theorem saved_contexts_kept {fuel : ℕ} (hf : 9 ≤ fuel) (s₀ : Tasking) (ops : List TaskOp) :
    Along (contextStep fuel) (bootContexts s₀) (ResumesOwn fuel) ops := by
  refine along_of_total (I := fun s => (∃ l, TaskRing s.tasking l) ∧ SavedInv s.tasking s.saves s.ran)
    ?_ ?_ ?_ ops
  · exact ⟨⟨_, initTasking_ring s₀⟩, bootContexts_saved s₀⟩
  · rintro s ⟨⟨l, hl⟩, h⟩
    exact resumesOwn_of hl h hf
  · exact fun s op h => contextStep_saved hf op h

theorem saved_contexts_kept_two_tasks :
    9 ≤ 9 ∧ Along (contextStep 9) (bootContexts (bootTasking 0x200000)) (ResumesOwn 9)
      [.create 0x1000 3, .schedule 0x9000, .create 0x2000 2, .sleep 5 0x8000] :=
  ⟨le_rfl, saved_contexts_kept le_rfl _ _⟩

end RtosKernel
