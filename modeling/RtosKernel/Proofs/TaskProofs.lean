import RtosKernel.Lib.Scan
import RtosKernel.Task

/-!
# The task list: what the calls do to it

The tasks form one ring through `main_task` and the pool tasks created so far (`TaskRing`).
`create_task` splices the new task in behind the current one; `schedule` walks the ring twice, once to
wake sleepers and once to choose the next task.
-/

namespace RtosKernel

open Lib

/-- The task exists: it is `main_task`, or a pool task below `pool_index`. -/
def Created (s : Tasking) : TaskRef → Prop
  | .mainTask => True
  | .pool i => i.val < s.poolIndex

/-- The ring of the tasks: `l` holds the created tasks, the current one among them. -/
structure TaskRing (s : Tasking) (l : List TaskRef) : Prop where
  ring : IsRing s.next .mainTask l
  mem : ∀ t, t ∈ l ↔ Created s t
  current : s.current ∈ l

/-- The wake-up pass of `schedule` leaves the task ready. -/
def WakesReady (t : Task) : Prop := t.state = .ready ∨ (t.state = .sleeping ∧ t.sleepTicks ≤ 1)

instance (t : Task) : Decidable (WakesReady t) :=
  inferInstanceAs (Decidable (t.state = .ready ∨ (t.state = .sleeping ∧ t.sleepTicks ≤ 1)))

section Calls

variable {s : Tasking} {l : List TaskRef} {fuel : ℕ}

@[simp] theorem Tasking.setTask_tasks (s : Tasking) (t : TaskRef) (v : Task) :
    (s.setTask t v).tasks = Function.update s.tasks t v := rfl

@[simp] theorem Tasking.setTask_current (s : Tasking) (t : TaskRef) (v : Task) :
    (s.setTask t v).current = s.current := rfl

@[simp] theorem Tasking.setTask_poolIndex (s : Tasking) (t : TaskRef) (v : Task) :
    (s.setTask t v).poolIndex = s.poolIndex := rfl

@[simp] theorem Tasking.setTask_next (s : Tasking) (t : TaskRef) (v : Task) :
    (s.setTask t v).next = Function.update s.next t v.next := by
  funext u
  by_cases h : u = t
  · subst h
    simp [Tasking.next, Tasking.setTask]
  · simp [Tasking.next, Tasking.setTask, h]

/-- Writing a task without its link keeps all links. -/
theorem Tasking.setTask_keeps_next (s : Tasking) (t : TaskRef) (v : Task) (h : v.next = s.next t) :
    (s.setTask t v).next = s.next := by
  rw [Tasking.setTask_next, h, Function.update_eq_self]

/-- There are nine tasks. -/
theorem TaskRing.length_le (h : TaskRing s l) : l.length ≤ 9 := by
  have hnd : (l.map fun t => match t with
      | .mainTask => (none : Option (Fin taskPoolSize))
      | .pool i => some i).Nodup := by
    refine h.ring.nodup.map fun t u htu => ?_
    cases t with
    | mainTask =>
      cases u with
      | mainTask => rfl
      | pool j => simp at htu
    | pool i =>
      cases u with
      | mainTask => simp at htu
      | pool j => simpa using htu
  simpa using hnd.length_le_card

/-! ## `init_tasking` and `create_task` -/

theorem initTasking_ring (s : Tasking) : TaskRing (initTasking s) [.mainTask] := by
  have hnext : (initTasking s).next .mainTask = some .mainTask := by
    simp [initTasking, Tasking.next, Tasking.setTask]
  refine ⟨⟨⟨rfl, .mainTask, hnext, rfl⟩, [], rfl, by simp⟩, fun t => ?_, by simp [initTasking]⟩
  cases t with
  | mainTask => simp [Created]
  | pool i => simp [Created, initTasking]

/-- `create_task` with a free slot of the pool: the links, and the tasks up to their links. -/
theorem createTask_spec (entry priority : UInt32) (hp : s.poolIndex < taskPoolSize)
    (hx : s.current ≠ .pool ⟨s.poolIndex, hp⟩) :
    (createTask entry priority s).next =
      Function.update (Function.update s.next (.pool ⟨s.poolIndex, hp⟩) (s.next s.current)) s.current
        (some (.pool ⟨s.poolIndex, hp⟩)) ∧
    (createTask entry priority s).current = s.current ∧
    (createTask entry priority s).poolIndex = s.poolIndex + 1 ∧
    ((createTask entry priority s).tasks (.pool ⟨s.poolIndex, hp⟩)).state = .ready ∧
    ∀ t, t ≠ .pool ⟨s.poolIndex, hp⟩ →
      ∃ n, (createTask entry priority s).tasks t = { s.tasks t with next := n } := by
  set x := TaskRef.pool ⟨s.poolIndex, hp⟩ with hxdef
  refine ⟨?_, by simp [createTask, hp], by simp [createTask, hp], ?_, fun t ht => ?_⟩
  · funext u
    by_cases hc : u = s.current
    · subst hc
      simp [createTask, hp, Tasking.next, ← hxdef]
    · by_cases hu : u = x
      · subst hu
        simp [createTask, hp, Tasking.next, ← hxdef, hc, hx]
      · simp [createTask, hp, Tasking.next, ← hxdef, hc, hu]
  · simp [createTask, hp, ← hxdef, hx.symm, newTask]
  · by_cases hc : t = s.current
    · subst hc
      exact ⟨some x, by simp [createTask, hp, ← hxdef, hx]⟩
    · exact ⟨(s.tasks t).next, by simp [createTask, hp, ← hxdef, ht, hc]⟩

theorem createTask_full (entry priority : UInt32) (hp : ¬ s.poolIndex < taskPoolSize) :
    createTask entry priority s = s := by
  rw [createTask, dif_neg hp]

/-- The task of the next slot is not on the ring yet. -/
theorem TaskRing.current_ne_new (h : TaskRing s l) (hp : s.poolIndex < taskPoolSize) :
    s.current ≠ .pool ⟨s.poolIndex, hp⟩ := by
  intro e
  have hc := (h.mem _).mp h.current
  rw [e] at hc
  exact Nat.lt_irrefl _ hc

/-- `create_task` creates the task of the next slot, and no other. -/
theorem created_createTask (entry priority : UInt32) (hp : s.poolIndex < taskPoolSize)
    (hx : s.current ≠ .pool ⟨s.poolIndex, hp⟩) (t : TaskRef) :
    Created (createTask entry priority s) t ↔ t = .pool ⟨s.poolIndex, hp⟩ ∨ Created s t := by
  obtain ⟨-, -, hidx, -, -⟩ := createTask_spec entry priority hp hx
  cases t with
  | mainTask => simp [Created]
  | pool i =>
    have hi : TaskRef.pool i = .pool ⟨s.poolIndex, hp⟩ ↔ i.val = s.poolIndex := by simp [Fin.ext_iff]
    rw [hi, Created, Created, hidx]
    omega

/-- `create_task` keeps the ring, with the new task behind the current one. -/
theorem TaskRing.create (h : TaskRing s l) (entry priority : UInt32) :
    ∃ l', TaskRing (createTask entry priority s) l' := by
  by_cases hp : s.poolIndex < taskPoolSize
  · have hnot : TaskRef.pool ⟨s.poolIndex, hp⟩ ∉ l := by
      rw [h.mem]
      simp [Created]
    have hx : s.current ≠ .pool ⟨s.poolIndex, hp⟩ := fun e => hnot (e ▸ h.current)
    obtain ⟨hnext, hcur, -, -, -⟩ := createTask_spec entry priority hp hx
    obtain ⟨p, q, rfl⟩ := List.append_of_mem h.current
    refine ⟨p ++ s.current :: TaskRef.pool ⟨s.poolIndex, hp⟩ :: q, ?_, fun t => ?_, by simp [hcur]⟩
    · rw [hnext]
      exact h.ring.insertAfter hnot
    · have hmem := h.mem t
      rw [created_createTask entry priority hp hx, ← hmem]
      simp only [List.mem_append, List.mem_cons]
      tauto
  · rw [createTask_full entry priority hp]
    exact ⟨l, h⟩

/-! ## `schedule` -/

/-- The wake-up pass changes state and counter of a task, and only if it sleeps. -/
theorem wakeTask_fields (t : Task) :
    ∃ state ticks, wakeTask t = { t with state := state, sleepTicks := ticks } ∧
      (state = t.state ∧ ticks = t.sleepTicks ∨ t.state = .sleeping) := by
  by_cases h : t.state = .sleeping
  · refine ⟨(wakeTask t).state, (wakeTask t).sleepTicks, ?_, .inr h⟩
    simp only [wakeTask, h, if_true]
    split <;> split <;> rfl
  · rw [wakeTask, if_neg h]
    exact ⟨t.state, t.sleepTicks, rfl, .inl ⟨rfl, rfl⟩⟩

theorem wakeTask_next (t : Task) : (wakeTask t).next = t.next := by
  obtain ⟨state, ticks, ht, -⟩ := wakeTask_fields t
  rw [ht]

theorem wakeTask_priority (t : Task) : (wakeTask t).priority = t.priority := by
  obtain ⟨state, ticks, ht, -⟩ := wakeTask_fields t
  rw [ht]

theorem wakeTask_awake {t : Task} (h : t.state ≠ .sleeping) : wakeTask t = t := by
  rw [wakeTask, if_neg h]

/-- A sleeper's counter goes down by one, and it wakes when nothing is left of it. -/
theorem wakeTask_sleeping {t : Task} (h : t.state = .sleeping) :
    (wakeTask t).sleepTicks.toNat = t.sleepTicks.toNat - 1 ∧
      (wakeTask t).state = if t.sleepTicks.toNat ≤ 1 then .ready else .sleeping := by
  have h0 : (0 : UInt32).toNat = 0 := rfl
  have h1 : (1 : UInt32).toNat = 1 := rfl
  by_cases hpos : 0 < t.sleepTicks
  · have hle : (1 : UInt32) ≤ t.sleepTicks := by
      rw [UInt32.lt_iff_toNat_lt] at hpos
      rw [UInt32.le_iff_toNat_le]
      omega
    have hsub : (t.sleepTicks - 1).toNat = t.sleepTicks.toNat - 1 := UInt32.toNat_sub_of_le _ _ hle
    have hiff : t.sleepTicks - 1 = 0 ↔ t.sleepTicks.toNat ≤ 1 := by
      rw [← UInt32.toNat_inj, hsub, h0]
      omega
    by_cases hz : t.sleepTicks.toNat ≤ 1
    · simp only [wakeTask, h, hpos, hiff, hz, if_true]
      exact ⟨hsub, trivial⟩
    · simp only [wakeTask, h, hpos, hiff, hz, if_true, if_false]
      exact ⟨hsub, trivial⟩
  · have hz : t.sleepTicks = 0 := by
      rw [UInt32.lt_iff_toNat_lt] at hpos
      rw [← UInt32.toNat_inj]
      omega
    simp [wakeTask, h, hz]

theorem wakeTask_ready (t : Task) : (wakeTask t).state = .ready ↔ WakesReady t := by
  have hle : t.sleepTicks ≤ 1 ↔ t.sleepTicks.toNat ≤ 1 := UInt32.le_iff_toNat_le
  by_cases h : t.state = .sleeping
  · rw [(wakeTask_sleeping h).2, WakesReady, h, hle]
    split
    · simp [*]
    · simp [*]
  · rw [wakeTask_awake h, WakesReady]
    simp [h]

theorem wakeTask_esp (t : Task) (e : UInt32) :
    wakeTask { t with esp := e } = { wakeTask t with esp := e } := by
  simp only [wakeTask]
  split
  · split <;> split <;> rfl
  · rfl

/-- A task that the second loop of `schedule` may choose, after the first loop. -/
def Choosable (s : Tasking) (t : TaskRef) : Prop := WakesReady (s.tasks t) ∧ 0 < (s.tasks t).priority

/-- A task with the stack pointer of the interrupted one saved. -/
def savedTask (s : Tasking) (esp : UInt32) (t : TaskRef) : Task :=
  if t = s.current then { s.tasks t with esp := esp } else s.tasks t

/-- A task after the first loop of `schedule`, called with `esp` in `s` with the ring `o`. -/
def wokenTask (s : Tasking) (o : List TaskRef) (esp : UInt32) : TaskRef → Task :=
  rewriteOn o wakeTask (savedTask s esp)

/-- The state after the call if it gives the CPU to `b`. -/
def switchTo (s : Tasking) (o : List TaskRef) (esp : UInt32) (b : TaskRef) : Tasking :=
  { s with
    tasks := Function.update (wokenTask s o esp) b
      { wokenTask s o esp b with cpuTicks := (wokenTask s o esp b).cpuTicks + 1 }
    current := b }

/-- The priority of a task as a number. -/
def prio (s : Tasking) (t : TaskRef) : ℕ := (s.tasks t).priority.toNat

/-- What `schedule` leaves of the tasks `l` of the ring. -/
structure Scheduled (s s' : Tasking) (l : List TaskRef) : Prop where
  next : s'.next = s.next
  poolIndex : s'.poolIndex = s.poolIndex
  woken : ∀ t ∈ l, ∃ e c, s'.tasks t = { wakeTask (s.tasks t) with esp := e, cpuTicks := c }
  /-- The new current task is ready, or it is the old one and there was none to choose. -/
  chosen : s'.current ∈ l ∧
    ((WakesReady (s.tasks s'.current) ∧ 0 < (s.tasks s'.current).priority) ∨
      (s'.current = s.current ∧ ∀ t ∈ l, ¬ (WakesReady (s.tasks t) ∧ 0 < (s.tasks t).priority)))

variable {o : List TaskRef} {esp : UInt32}

theorem wokenTask_of_mem {t : TaskRef} (ht : t ∈ o) :
    wokenTask s o esp t = { wakeTask (s.tasks t) with esp := (savedTask s esp t).esp } := by
  rw [wokenTask, rewriteOn_of_mem ht, savedTask]
  split
  · exact wakeTask_esp _ _
  · have hesp : (wakeTask (s.tasks t)).esp = (s.tasks t).esp := by
      obtain ⟨state, ticks, ht, -⟩ := wakeTask_fields (s.tasks t)
      rw [ht]
    rw [← hesp]

theorem wokenTask_next (t : TaskRef) : (wokenTask s o esp t).next = s.next t := by
  have hsaved : (savedTask s esp t).next = s.next t := by
    rw [savedTask]
    split <;> rfl
  rw [wokenTask, rewriteOn]
  split
  · rw [wakeTask_next, hsaved]
  · exact hsaved

/-- The first loop of `schedule`, behind the saved stack pointer. -/
theorem wakePass_eq (ho : RingAfter s.next s.current o) (hf : o.length ≤ fuel) (esp : UInt32) :
    wakePass fuel (s.setTask s.current { s.tasks s.current with esp := esp }) =
      .ok { s with tasks := wokenTask s o esp } := by
  obtain ⟨l, hring, hperm⟩ := ho.ring ho.mem
  have hv : ∀ (t : TaskRef) (s : Tasking), (s.setTask t (wakeTask (s.tasks t))).next = s.next :=
    fun t s => s.setTask_keeps_next t _ (wakeTask_next _)
  have hsaved : s.setTask s.current { s.tasks s.current with esp := esp } =
      { s with tasks := savedTask s esp } := by
    refine congrArg (fun f => { s with tasks := f }) (funext fun t => ?_)
    rw [savedTask]
    by_cases ht : t = s.current
    · rw [if_pos ht, ht, Function.update_self]
    · rw [if_neg ht, Function.update_of_ne ht]
  have hring0 : IsRing (Tasking.next { s with tasks := savedTask s esp }) s.current l := by
    rw [← hsaved, s.setTask_keeps_next s.current { s.tasks s.current with esp := esp } rfl]
    exact hring
  rw [hsaved, wokenTask, ← rewriteOn_perm hperm]
  exact traverse_each (fun f => { s with tasks := f }) wakeTask (fun _ _ => rfl) hv hring0
    (hperm.length_eq.trans_le hf)

/-- The second loop of `schedule` is a scan for the largest priority. -/
theorem selectPass_eq (ho : RingAfter s.next s.current o) (hf : o.length ≤ fuel) :
    selectPass fuel { s with tasks := wokenTask s o esp } =
      .ok (o.foldl (keepFirst (fun t => WakesReady (s.tasks t)) (fun t => (s.tasks t).priority) UInt32.toNat)
        (none, 0)) := by
  obtain ⟨start, hstart, hring⟩ := ho.start
  set s1 : Tasking := { s with tasks := wokenTask s o esp } with hs1
  have hnext : s1.next = s.next := funext fun t => wokenTask_next t
  have hring1 : IsRing s1.next start o := by
    rw [hnext]
    exact hring
  have hcn : s1.next s1.current = some start := by
    rw [hnext]
    exact hstart
  have hscan : ∀ b, ∀ t ∈ o, pickTask s1 t b =
      keepFirst (fun t => WakesReady (s.tasks t)) (fun t => (s.tasks t).priority) UInt32.toNat b t := by
    intro b t ht
    have htask : s1.tasks t = { wakeTask (s.tasks t) with esp := (savedTask s esp t).esp } := wokenTask_of_mem ht
    simp only [pickTask, keepFirst, htask, wakeTask_ready, wakeTask_priority, UInt32.lt_iff_toNat_lt]
  simp only [selectPass, hcn]
  rw [← List.foldl_ext _ _ _ hscan]
  apply traverse_ring
  · exact fun _ _ => rfl
  · exact hring1
  · exact hf

/-- **`schedule` gives the CPU to the first task of the largest priority that it meets behind the current one,
or leaves it where it is if there is no task to choose.** -/
theorem schedule_cases (ho : RingAfter s.next s.current o) (hf : o.length ≤ fuel) (esp : UInt32) :
    (∃ b, FirstMax (Choosable s) (prio s) o b ∧
      schedule fuel esp s = .ok ((wokenTask s o esp b).esp, switchTo s o esp b)) ∨
    ((∀ t ∈ o, ¬ Choosable s t) ∧
      schedule fuel esp s = .ok ((wokenTask s o esp s.current).esp, switchTo s o esp s.current)) := by
  rcases foldl_keepFirst (fun t => WakesReady (s.tasks t)) (fun t => (s.tasks t).priority) UInt32.toNat 0 o
    with ⟨b, hb, hmax⟩ | ⟨hnone, hno⟩
  · refine .inl ⟨b, hmax, ?_⟩
    rw [schedule, wakePass_eq ho hf esp, ok_bind, selectPass_eq ho hf, hb, ok_bind]
    rfl
  · refine .inr ⟨hno, ?_⟩
    rw [schedule, wakePass_eq ho hf esp, ok_bind, selectPass_eq ho hf, hnone, ok_bind]
    rfl

theorem switchTo_next (b : TaskRef) : (switchTo s o esp b).next = s.next := by
  funext t
  show (Function.update (wokenTask s o esp) b _ t).next = _
  by_cases ht : t = b
  · subst ht
    rw [Function.update_self]
    exact wokenTask_next t
  · rw [Function.update_of_ne ht]
    exact wokenTask_next t

/-- `schedule` on the ring returns. -/
theorem TaskRing.schedule (h : TaskRing s l) (hf : 9 ≤ fuel) (esp : UInt32) :
    ∃ r s', schedule fuel esp s = .ok (r, s') ∧ Scheduled s s' l := by
  obtain ⟨o, ho, hperm⟩ := h.ring.after h.current
  have hlen : o.length ≤ fuel := hperm.length_eq.trans_le (h.length_le.trans hf)
  have hwoken : ∀ b, ∀ t ∈ l, ∃ e c, (switchTo s o esp b).tasks t =
      { wakeTask (s.tasks t) with esp := e, cpuTicks := c } := by
    intro b t ht
    have htask := @wokenTask_of_mem s o esp t (hperm.mem_iff.mpr ht)
    show ∃ e c, Function.update (wokenTask s o esp) b _ t = _
    by_cases hb : t = b
    · subst hb
      rw [Function.update_self, htask]
      exact ⟨_, _, rfl⟩
    · rw [Function.update_of_ne hb, htask]
      exact ⟨_, _, rfl⟩
  rcases schedule_cases ho hlen esp with ⟨b, hb, hs⟩ | ⟨hno, hs⟩
  · exact ⟨_, _, hs, switchTo_next b, rfl, hwoken b, hperm.mem_iff.mp hb.mem, .inl hb.counts⟩
  · refine ⟨_, _, hs, switchTo_next _, rfl, hwoken _, h.current, .inr ⟨rfl, fun t ht => ?_⟩⟩
    exact hno t (hperm.mem_iff.mpr ht)

end Calls

end RtosKernel
