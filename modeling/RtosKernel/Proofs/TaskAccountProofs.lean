import RtosKernel.Proofs.ClockProofs
import RtosKernel.Proofs.TaskScheduleProofs

/-!
# Proofs: CPU accounting

An interrupt on vector 32 adds one to `timer_ticks`, and `schedule` adds one to the `cpu_ticks` of the task that gets
the CPU. No other call changes either of them (`kernelCall_tasks`), so that the counts of all tasks together are
always the count of the clock, modulo `2 ^ 32` (`cpu_ticks_accounted`). `create_task` numbers the tasks.
-/

namespace RtosKernel

open Lib

/-! ## What a step does to the tasks -/

/-- What a step of the kernel does to the tasks and to the clock. -/
inductive TasksEffect (k k' : Kernel) : Prop
  /-- An interrupt on vector 32, also the one of a `task_sleep`. -/
  | switches (s : Tasking) (hs : s = k.tasking ∨ ∃ ticks, s = markSleeping ticks k.tasking) (o : List TaskRef)
      (esp r : UInt32) (b : TaskRef) (hb : Created s b) (hsw : Switches s k'.tasking o esp r b)
      (ht : k'.timer.timerTicks = k.timer.timerTicks + 1)
  | creates (entry priority : UInt32) (hs : k'.tasking = createTask entry priority k.tasking)
      (ht : k'.timer.timerTicks = k.timer.timerTicks)
  | keeps (hs : k'.tasking = k.tasking) (ht : k'.timer.timerTicks = k.timer.timerTicks)

section Effect

variable {s : Tasking} {l : List TaskRef} {body : Callbacks} {fuel : ℕ} {k k' : Kernel}

theorem schedule_switches (h : TaskRing s l) (hf : 9 ≤ fuel) (esp : UInt32) :
    ∃ o r s' b, schedule fuel esp s = .ok (r, s') ∧ Created s b ∧ Switches s s' o esp r b := by
  obtain ⟨o, ho, hperm⟩ := h.ring.after h.current
  have hlen : o.length ≤ fuel := hperm.length_eq.trans_le (h.length_le.trans hf)
  obtain ⟨b, hb, hs⟩ | ⟨-, hs⟩ := schedule_cases ho hlen esp
  · exact ⟨o, _, _, b, hs, (h.mem b).mp (hperm.mem_iff.mp hb.mem), switchTo_switches⟩
  · exact ⟨o, _, _, s.current, hs, (h.mem _).mp h.current, switchTo_switches⟩

/-- An interrupt on vector 32, with the tasks as they are when it comes. -/
theorem irqHandler_tasks (h : k.timerHandler = true) (hl : TaskRing s l) (hf : 9 ≤ fuel) {esp : UInt32}
    (he : irqHandler body fuel esp { k with tasking := s } = .ok k') :
    ∃ o r b, Created s b ∧ Switches s k'.tasking o esp r b ∧ k'.timer.timerTicks = k.timer.timerTicks + 1 := by
  obtain ⟨o, r, s', b, hs, hb, hsw⟩ := schedule_switches hl hf esp
  simp only [irqHandler, h, if_true, hs, ok_bind, pure_eq_ok] at he
  rw [← Except.ok.inj he]
  exact ⟨o, r, b, hb, hsw, timerIrqCallback_ticks k.timer⟩

theorem irqHandler_effect_tasks (h : KernelInv k) (hf : 9 ≤ fuel) {esp : UInt32}
    (he : irqHandler body fuel esp k = .ok k') : TasksEffect k k' := by
  obtain ⟨l, hl⟩ := h.ring
  obtain ⟨o, r, b, hb, hsw, ht⟩ := irqHandler_tasks h.handler hl hf he
  exact .switches k.tasking (.inl rfl) o esp r b hb hsw ht

theorem sleepTask_effect_tasks (h : KernelInv k) (hf : 9 ≤ fuel) {ticks esp : UInt32}
    (he : sleepTask body fuel ticks esp k = .ok k') : TasksEffect k k' := by
  obtain ⟨l, hl⟩ := h.ring
  rw [sleepTask] at he
  split at he
  · obtain rfl := Except.ok.inj he
    exact .keeps rfl rfl
  · obtain ⟨o, r, b, hb, hsw, ht⟩ := irqHandler_tasks h.handler (markSleeping_ring hl ticks) hf he
    exact .switches (markSleeping ticks k.tasking) (.inr ⟨ticks, rfl⟩) o esp r b hb hsw ht

theorem sleepProcess_effect_tasks (h : KernelInv k) (hf : 9 ≤ fuel) {ticks esp : UInt32}
    (he : sleepProcess body fuel ticks esp k = .ok k') : TasksEffect k k' := by
  obtain ⟨p, -, he⟩ := bind_eq_ok.mp he
  split at he
  · obtain rfl := Except.ok.inj he
    exact .keeps rfl rfl
  · obtain ⟨l, hl⟩ := h.ring
    obtain ⟨o, r, b, hb, hsw, ht⟩ := irqHandler_tasks (k := { k with procs := p }) h.handler hl hf he
    exact .switches k.tasking (.inl rfl) o esp r b hb hsw ht

theorem kernelCall_tasks (h : KernelInv k) (hf : 9 ≤ fuel) {op : KernelOp}
    (he : kernelCall body fuel k op = .ok k') : TasksEffect k k' := by
  cases op with
  | irq0 esp => exact irqHandler_effect_tasks h hf he
  | taskYield esp => exact irqHandler_effect_tasks h hf he
  | taskSleep ticks esp => exact sleepTask_effect_tasks h hf he
  | processSleep ticks esp => exact sleepProcess_effect_tasks h hf he
  | mutexLock m esp =>
    simp only [kernelCall] at he
    split at he
    · obtain rfl := Except.ok.inj he
      exact .keeps rfl rfl
    · exact sleepTask_effect_tasks h hf he
  | mutexUnlock m =>
    obtain rfl := Except.ok.inj he
    exact .keeps rfl rfl
  | semWait i esp =>
    simp only [kernelCall] at he
    split at he
    · obtain rfl := Except.ok.inj he
      exact .keeps rfl rfl
    · exact sleepTask_effect_tasks h hf he
  | semPost i =>
    obtain rfl := Except.ok.inj he
    exact .keeps rfl rfl
  | createTask entry priority =>
    obtain rfl := Except.ok.inj he
    exact .creates entry priority rfl rfl
  | timer call =>
    obtain rfl := Except.ok.inj he
    exact .keeps rfl (timerCall_keeps k.timer call).1

end Effect

/-! ## The tasks, numbered and counted -/

/-- The tasks that are there after `n` calls of `create_task`. -/
def firstTasks (n : ℕ) : List TaskRef := .mainTask :: ((List.finRange taskPoolSize).take n).map .pool

/-- The `cpu_ticks` of all tasks together. -/
def cpuTotal (s : Tasking) : ℕ := ((firstTasks taskPoolSize).map fun t => (s.tasks t).cpuTicks.toNat).sum

/-- `main_task` has the number 0, the slots of the pool are numbered from 1 on, and a slot that is not in use has no
ticks. -/
structure TasksCounted (s : Tasking) : Prop where
  index_le : s.poolIndex ≤ taskPoolSize
  total : s.totalTasks = UInt32.ofNat (s.poolIndex + 1)
  nextPid : s.nextPid = UInt32.ofNat (s.poolIndex + 1)
  mainId : (s.tasks .mainTask).id = 0
  poolId : ∀ i : Fin taskPoolSize, i.val < s.poolIndex → (s.tasks (.pool i)).id = UInt32.ofNat (i.val + 1)
  unused : ∀ t, ¬ Created s t → (s.tasks t).cpuTicks = 0

/-- The clock shows the ticks of all tasks together. -/
def CpuAccounted (k : Kernel) : Prop := (getTicks k.timer).toNat = cpuTotal k.tasking % 2 ^ 32

section Counts

variable {s s' : Tasking} {l : List TaskRef} {body : Callbacks} {fuel : ℕ} {k k' : Kernel}

theorem mem_firstTasks {n : ℕ} {t : TaskRef} :
    t ∈ firstTasks n ↔ t = .mainTask ∨ ∃ i : Fin taskPoolSize, i.val < n ∧ t = .pool i := by
  simp only [firstTasks, List.mem_cons, List.mem_map, List.mem_take_iff_getElem]
  refine or_congr Iff.rfl ⟨?_, ?_⟩
  · rintro ⟨_, ⟨j, hj, rfl⟩, rfl⟩
    exact ⟨_, by simp; omega, rfl⟩
  · rintro ⟨i, hi, rfl⟩
    exact ⟨i, ⟨i.val, by simp; omega, by simp⟩, rfl⟩

theorem firstTasks_nodup (n : ℕ) : (firstTasks n).Nodup := by
  refine List.nodup_cons.mpr ⟨fun hmem => ?_, ?_⟩
  · obtain ⟨i, -, hi⟩ := List.mem_map.mp hmem
    cases hi
  · exact ((List.nodup_finRange _).sublist (List.take_sublist _ _)).map fun _ _ h => TaskRef.pool.inj h

theorem TaskRing.perm (h : TaskRing s l) : l.Perm (firstTasks s.poolIndex) := by
  refine (List.perm_ext_iff_of_nodup h.ring.nodup (firstTasks_nodup _)).mpr fun t => ?_
  rw [h.mem, mem_firstTasks]
  cases t with
  | mainTask => simp [Created]
  | pool i => simp [Created]

/-- Of a list without repetitions one entry grows by one. -/
theorem sum_map_succ {l : List TaskRef} (hnd : l.Nodup) {b : TaskRef} (hb : b ∈ l) {f g : TaskRef → ℕ} {N : ℕ}
    (hone : g b ≡ f b + 1 [MOD N]) (hrest : ∀ t, t ≠ b → g t = f t) : (l.map g).sum ≡ (l.map f).sum + 1 [MOD N] := by
  obtain ⟨p, q, rfl⟩ := List.append_of_mem hb
  have hnot : b ∉ p ++ q := (List.nodup_cons.mp (List.nodup_middle.mp hnd)).1
  have hp : p.map g = p.map f := List.map_congr_left fun t ht => hrest t fun e => hnot (by simp [← e, ht])
  have hq : q.map g = q.map f := List.map_congr_left fun t ht => hrest t fun e => hnot (by simp [← e, ht])
  simp only [List.map_append, List.map_cons, List.sum_append, List.sum_cons, hp, hq]
  have hsum := (hone.add_right (q.map f).sum).add_left (p.map f).sum
  rwa [show (p.map f).sum + (f b + 1 + (q.map f).sum) = (p.map f).sum + (f b + (q.map f).sum) + 1 by omega] at hsum

theorem cpuTotal_congr (h : ∀ t, (s'.tasks t).cpuTicks = (s.tasks t).cpuTicks) : cpuTotal s' = cpuTotal s := by
  simp only [cpuTotal, h]

/-- A change of the tasks that leaves their numbers and counts. -/
theorem TasksCounted.of_same (h : TasksCounted s) (hidx : s'.poolIndex = s.poolIndex)
    (htotal : s'.totalTasks = s.totalTasks) (hpid : s'.nextPid = s.nextPid)
    (hid : ∀ t, (s'.tasks t).id = (s.tasks t).id)
    (hcpu : ∀ t, ¬ Created s t → (s'.tasks t).cpuTicks = (s.tasks t).cpuTicks) : TasksCounted s' := by
  have hcreated : ∀ t, Created s' t ↔ Created s t := by
    intro t
    cases t with
    | mainTask => exact Iff.rfl
    | pool i => rw [Created, Created, hidx]
  refine ⟨hidx ▸ h.index_le, ?_, ?_, ?_, fun i hi => ?_, fun t ht => ?_⟩
  · rw [htotal, hidx]
    exact h.total
  · rw [hpid, hidx]
    exact h.nextPid
  · rw [hid]
    exact h.mainId
  · rw [hid]
    exact h.poolId i (hidx ▸ hi)
  · have ht' := (not_congr (hcreated t)).mp ht
    rw [hcpu t ht']
    exact h.unused t ht'

/-- The two assignments of `task_sleep`. -/
theorem markSleeping_fields (ticks : UInt32) (t : TaskRef) :
    ((markSleeping ticks s).tasks t).id = (s.tasks t).id ∧
      ((markSleeping ticks s).tasks t).cpuTicks = (s.tasks t).cpuTicks := by
  by_cases ht : t = s.current
  · simp [markSleeping, ht]
  · simp [markSleeping, ht]

/-- `schedule` charges one tick to the task that gets the CPU. -/
theorem Switches.charges {o : List TaskRef} {esp r : UInt32} {b : TaskRef} (h : Switches s s' o esp r b) :
    cpuTotal s' ≡ cpuTotal s + 1 [MOD 2 ^ 32] := by
  have hcpu : ∀ t, (s'.tasks t).cpuTicks = if t = b then (s.tasks t).cpuTicks + 1 else (s.tasks t).cpuTicks := by
    intro t
    obtain ⟨state, ticks, he, -⟩ := h.tasks t
    rw [he]
  refine sum_map_succ (firstTasks_nodup _) (b := b) ?_ ?_ fun t ht => ?_
  · rw [mem_firstTasks]
    cases b with
    | mainTask => exact .inl rfl
    | pool i => exact .inr ⟨i, i.isLt, rfl⟩
  · rw [hcpu, if_pos rfl, UInt32.toNat_add]
    exact Nat.mod_modEq _ _
  · rw [hcpu, if_neg ht]

theorem Switches.counted {o : List TaskRef} {esp r : UInt32} {b : TaskRef} (h : Switches s s' o esp r b)
    (hb : Created s b) (hs : TasksCounted s) : TasksCounted s' := by
  have hrest := h.rest
  refine hs.of_same ?_ ?_ ?_ (fun t => ?_) fun t ht => ?_
  · rw [hrest]
  · rw [hrest]
  · rw [hrest]
  · obtain ⟨state, ticks, he, -⟩ := h.tasks t
    rw [he]
  · obtain ⟨state, ticks, he, -⟩ := h.tasks t
    rw [he]
    have hne : t ≠ b := fun e => ht (e ▸ hb)
    exact if_neg hne

/-- `create_task` gives the next number to the next slot of the pool, and no ticks. -/
theorem createTask_fields (entry priority : UInt32) (hp : s.poolIndex < taskPoolSize)
    (hx : s.current ≠ .pool ⟨s.poolIndex, hp⟩) :
    (createTask entry priority s).totalTasks = s.totalTasks + 1 ∧
    (createTask entry priority s).nextPid = s.nextPid + 1 ∧
    ((createTask entry priority s).tasks (.pool ⟨s.poolIndex, hp⟩)).id = s.nextPid ∧
    ((createTask entry priority s).tasks (.pool ⟨s.poolIndex, hp⟩)).cpuTicks = 0 := by
  refine ⟨by simp [createTask, hp], by simp [createTask, hp], ?_, ?_⟩
  · simp [createTask, hp, hx.symm, newTask]
  · simp [createTask, hp, hx.symm, newTask]

theorem TasksCounted.create (h : TasksCounted s) (hl : TaskRing s l) (entry priority : UInt32) :
    TasksCounted (createTask entry priority s) ∧ cpuTotal (createTask entry priority s) = cpuTotal s := by
  by_cases hp : s.poolIndex < taskPoolSize
  · have hx := hl.current_ne_new hp
    obtain ⟨-, -, hidx, -, hold⟩ := createTask_spec entry priority hp hx
    obtain ⟨htotal, hpid, hnewid, hnewcpu⟩ := createTask_fields entry priority hp hx
    have hsame : ∀ t, t ≠ .pool ⟨s.poolIndex, hp⟩ →
        ((createTask entry priority s).tasks t).id = (s.tasks t).id ∧
          ((createTask entry priority s).tasks t).cpuTicks = (s.tasks t).cpuTicks := by
      intro t ht
      obtain ⟨n, hn⟩ := hold t ht
      rw [hn]
      exact ⟨rfl, rfl⟩
    refine ⟨⟨hidx ▸ hp, ?_, ?_, ?_, fun i hi => ?_, fun t ht => ?_⟩, cpuTotal_congr fun t => ?_⟩
    · rw [htotal, hidx, h.total]
      exact (UInt32.ofNat_add _ 1).symm
    · rw [hpid, hidx, h.nextPid]
      exact (UInt32.ofNat_add _ 1).symm
    · rw [(hsame .mainTask (by simp)).1]
      exact h.mainId
    · by_cases hi' : i.val = s.poolIndex
      · obtain rfl : i = ⟨s.poolIndex, hp⟩ := Fin.ext hi'
        rw [hnewid, h.nextPid]
      · rw [(hsame (.pool i) (by simp [Fin.ext_iff, hi'])).1]
        exact h.poolId i (by omega)
    · rw [created_createTask entry priority hp hx, not_or] at ht
      rw [(hsame t ht.1).2]
      exact h.unused t ht.2
    · by_cases ht : t = .pool ⟨s.poolIndex, hp⟩
      · rw [ht, hnewcpu]
        exact (h.unused _ (Nat.lt_irrefl _)).symm
      · exact (hsame t ht).2
  · rw [createTask_full entry priority hp]
    exact ⟨h, rfl⟩

/-- A step of the kernel keeps the numbers, and counts its tick for one task if it is an interrupt on vector 32. -/
theorem TasksEffect.counted (h : TasksEffect k k') (hk : KernelInv k) (hs : TasksCounted k.tasking) :
    TasksCounted k'.tasking ∧ (CpuAccounted k → CpuAccounted k') := by
  cases h with
  | switches s hmark o esp r b hb hsw ht =>
    have hcounted : TasksCounted s ∧ cpuTotal s = cpuTotal k.tasking := by
      obtain rfl | ⟨ticks, rfl⟩ := hmark
      · exact ⟨hs, rfl⟩
      · exact ⟨hs.of_same rfl rfl rfl (fun t => (markSleeping_fields ticks t).1)
          fun t _ => (markSleeping_fields ticks t).2, cpuTotal_congr fun t => (markSleeping_fields ticks t).2⟩
    refine ⟨hsw.counted hb hcounted.1, fun hacc => ?_⟩
    have hone : (1 : UInt32).toNat = 1 := rfl
    have hclock : k.timer.timerTicks.toNat = cpuTotal k.tasking % 2 ^ 32 := hacc
    have hsum : cpuTotal k'.tasking % 2 ^ 32 = (cpuTotal s + 1) % 2 ^ 32 := hsw.charges
    show k'.timer.timerTicks.toNat = _
    rw [ht, UInt32.toNat_add, hone, hclock, hsum, hcounted.2]
    omega
  | creates entry priority hcreate ht =>
    obtain ⟨l, hl⟩ := hk.ring
    obtain ⟨hcounted, hsum⟩ := hs.create hl entry priority
    rw [hcreate]
    refine ⟨hcounted, fun hacc => ?_⟩
    show k'.timer.timerTicks.toNat = cpuTotal k'.tasking % 2 ^ 32
    rw [ht, hcreate, hsum]
    exact hacc
  | keeps htask ht =>
    refine ⟨htask ▸ hs, fun hacc => ?_⟩
    show k'.timer.timerTicks.toNat = cpuTotal k'.tasking % 2 ^ 32
    rw [ht, htask]
    exact hacc

end Counts

/-! ## Every run -/

/-- The tasks are on one ring: they are numbered from 0 on, `task_count` is their number, and their ticks together
are those of the clock. -/
structure TasksAccounted (k : Kernel) (l : List TaskRef) : Prop where
  ring : TaskRing k.tasking l
  numbers : (l.map fun t => (k.tasking.tasks t).id).Perm ((List.range l.length).map UInt32.ofNat)
  count : taskCount k.tasking = UInt32.ofNat l.length
  clock : (getTicks k.timer).toNat = (l.map fun t => (k.tasking.tasks t).cpuTicks.toNat).sum % 2 ^ 32

section Runs

variable {l : List TaskRef} {body : Callbacks} {fuel : ℕ} {k k' : Kernel}

theorem firstTasks_length {n : ℕ} (hn : n ≤ taskPoolSize) : (firstTasks n).length = n + 1 := by
  simpa [firstTasks] using hn

/-- The slots that are not in use add nothing. -/
theorem TasksCounted.cpuTotal_eq {s : Tasking} (h : TasksCounted s) :
    cpuTotal s = ((firstTasks s.poolIndex).map fun t => (s.tasks t).cpuTicks.toNat).sum := by
  have hsplit : firstTasks taskPoolSize =
      firstTasks s.poolIndex ++ ((List.finRange taskPoolSize).drop s.poolIndex).map .pool := by
    rw [firstTasks, firstTasks, List.cons_append, ← List.map_append, List.take_append_drop]
    rfl
  have hzero : ∀ t ∈ ((List.finRange taskPoolSize).drop s.poolIndex).map .pool, (s.tasks t).cpuTicks.toNat = 0 := by
    intro t ht
    obtain ⟨i, hi, rfl⟩ := List.mem_map.mp ht
    obtain ⟨j, hj, rfl⟩ := List.mem_drop_iff_getElem.mp hi
    rw [h.unused _ (by simp [Created])]
    rfl
  rw [cpuTotal, hsplit, List.map_append, List.sum_append, Nat.add_eq_left]
  refine List.sum_eq_zero fun x hx => ?_
  obtain ⟨t, ht, rfl⟩ := List.mem_map.mp hx
  exact hzero t ht

theorem TasksCounted.ids_eq {s : Tasking} (h : TasksCounted s) :
    (firstTasks s.poolIndex).map (fun t => (s.tasks t).id) = (List.range (s.poolIndex + 1)).map UInt32.ofNat := by
  have hlen := firstTasks_length h.index_le
  refine List.ext_getElem (by simp [hlen]) fun i hi _ => ?_
  rw [List.length_map, hlen] at hi
  simp only [List.getElem_map, List.getElem_range]
  cases i with
  | zero => exact h.mainId
  | succ i =>
    have hbound := h.index_le
    have hlt : i + 1 < (firstTasks s.poolIndex).length := hlen ▸ hi
    have hget : (firstTasks s.poolIndex)[i + 1] = .pool ⟨i, by omega⟩ := by
      simp [firstTasks]
    rw [hget]
    exact h.poolId _ (Nat.lt_of_succ_lt_succ hi)

theorem TasksCounted.accounted (h : TasksCounted k.tasking) (hl : TaskRing k.tasking l) (hacc : CpuAccounted k) :
    TasksAccounted k l := by
  have hperm := hl.perm
  have hlen : l.length = k.tasking.poolIndex + 1 := hperm.length_eq.trans (firstTasks_length h.index_le)
  refine ⟨hl, ?_, ?_, ?_⟩
  · rw [hlen, ← h.ids_eq]
    exact hperm.map _
  · rw [hlen]
    exact h.total
  · have hclock : (getTicks k.timer).toNat = cpuTotal k.tasking % 2 ^ 32 := hacc
    rw [hclock, h.cpuTotal_eq, (hperm.map _).sum_eq]

/-- The tasks after `init_tasking` at boot. -/
theorem bootTasking_counted (poolAddr : UInt32) : TasksCounted (initTasking (bootTasking poolAddr)) := by
  refine ⟨Nat.zero_le _, rfl, rfl, ?_, fun i hi => absurd hi (Nat.not_lt_zero i), fun t ht => ?_⟩
  · simp [initTasking]
  · cases t with
    | mainTask => exact absurd trivial ht
    | pool i => simp [initTasking, bootTasking]

theorem bootTasking_accounted {poolAddr : UInt32} (ht : k.timer.timerTicks = 0)
    (hs : k.tasking = initTasking (bootTasking poolAddr)) : CpuAccounted k := by
  have hzero : cpuTotal k.tasking = 0 := by
    rw [(hs ▸ bootTasking_counted poolAddr : TasksCounted k.tasking).cpuTotal_eq, hs]
    simp [firstTasks, initTasking]
  rw [CpuAccounted, hzero, getTicks, ht]
  rfl

/-- **In every state of every run of the kernel the ticks of the clock are those of the tasks on the ring together,
modulo `2 ^ 32`: each interrupt on vector 32 is charged to one task. The tasks are numbered from 0 on, and `task_count`
is their number.** -/
theorem cpu_ticks_accounted (hf : 9 ≤ fuel) (body : Callbacks) (frequency poolAddr : UInt32) (p₀ : Procs)
    (sems : ℕ → Semaphore) (ops : List KernelOp) :
    ∃ s, run (kernelStep body fuel) (bootKernel frequency (bootTasking poolAddr) p₀ sems) ops = .ok s ∧
      ∃ l, TasksAccounted s.kernel l := by
  have hboot := (bootKernel_inv frequency (bootTasking poolAddr) p₀ sems).kernel
  have hrun : ∃ s, run (kernelStep body fuel) (bootKernel frequency (bootTasking poolAddr) p₀ sems) ops = .ok s ∧
      KernelInv s.kernel ∧ TasksCounted s.kernel.tasking ∧ CpuAccounted s.kernel := by
    refine run_total ⟨hboot, bootTasking_counted poolAddr, bootTasking_accounted rfl rfl⟩ ?_ ops
    rintro s op ⟨hk, hcounted, hacc⟩
    obtain ⟨s', he, hk', -⟩ := kernelStep_spec hk hf op
    obtain ⟨k', hcall, hst⟩ := bind_eq_ok.mp he
    obtain ⟨hcounted', hacc'⟩ := (kernelCall_tasks hk hf hcall).counted hk hcounted
    obtain rfl : s'.kernel = k' := by rw [← Except.ok.inj hst]
    exact ⟨s', he, hk', hcounted', hacc' hacc⟩
  obtain ⟨s, hs, hk, hcounted, hacc⟩ := hrun
  obtain ⟨l, hl⟩ := hk.ring
  exact ⟨s, hs, l, hcounted.accounted hl hacc⟩

end Runs

/-- Two tasks besides `main_task`, and two interrupts. -/
theorem cpu_ticks_accounted_two_tasks :
    9 ≤ 9 ∧ ∃ s, run (kernelStep (fun _ => []) 9)
      (bootKernel 100 (bootTasking 0) (bootProcs 0) fun _ => semInit 1 1)
      [.createTask 4096 3, .createTask 8192 2, .irq0 0, .taskSleep 5 0] = .ok s ∧ ∃ l, TasksAccounted s.kernel l :=
  ⟨le_rfl, cpu_ticks_accounted le_rfl _ _ _ _ _ _⟩

end RtosKernel
