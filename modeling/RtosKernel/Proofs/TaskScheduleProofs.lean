import RtosKernel.Proofs.TaskProofs

/-!
# Proofs: which task `schedule` chooses

The second loop of `schedule` starts behind the current task and compares with `>`, so among the ready tasks
of the largest priority the first one behind the current task is chosen (`schedule_picks_first_best`). The
next scan starts behind that one, so that tasks of equal priority take turns (`tasks_take_turns`).
-/

namespace RtosKernel

open Lib

/-! ## One call -/

/-- From `s`, with the ring `o`, a call of `schedule` with `esp` gives the CPU to `b` and returns `r`. -/
structure Switches (s s' : Tasking) (o : List TaskRef) (esp r : UInt32) (b : TaskRef) : Prop where
  current : s'.current = b
  /-- The returned stack pointer is the saved one of the chosen task. -/
  returned : r = if b = s.current then esp else (s.tasks b).esp
  saved : (s'.tasks s.current).esp = esp
  /-- Of the tasks only the saved stack pointer of the current one, the tick count of the chosen one, and
  state and counter of the sleeping ones change. -/
  tasks : ∀ t, ∃ state ticks, s'.tasks t = { s.tasks t with
      esp := if t = s.current then esp else (s.tasks t).esp
      cpuTicks := if t = b then (s.tasks t).cpuTicks + 1 else (s.tasks t).cpuTicks
      state := state
      sleepTicks := ticks } ∧
    (state = (s.tasks t).state ∧ ticks = (s.tasks t).sleepTicks ∨ t ∈ o ∧ (s.tasks t).state = .sleeping)
  rest : s' = { s with tasks := s'.tasks, current := s'.current }

section Choice

variable {s : Tasking} {o : List TaskRef} {fuel : ℕ} {esp : UInt32} {b t : TaskRef}

theorem savedTask_eq (t : TaskRef) :
    savedTask s esp t = { s.tasks t with esp := if t = s.current then esp else (s.tasks t).esp } := by
  rw [savedTask]
  split
  · rfl
  · rfl

theorem wokenTask_esp (t : TaskRef) :
    (wokenTask s o esp t).esp = if t = s.current then esp else (s.tasks t).esp := by
  obtain ⟨state, ticks, hw, -⟩ := wakeTask_fields (savedTask s esp t)
  rw [wokenTask, rewriteOn]
  split
  · rw [hw, savedTask_eq]
  · rw [savedTask_eq]

theorem switchTo_switches : Switches s (switchTo s o esp b) o esp (wokenTask s o esp b).esp b := by
  refine ⟨rfl, wokenTask_esp b, ?_, fun t => ?_, rfl⟩
  · show (Function.update (wokenTask s o esp) b _ s.current).esp = esp
    have hsaved : (wokenTask s o esp s.current).esp = esp := by
      rw [wokenTask_esp, if_pos rfl]
    by_cases hb : s.current = b
    · rw [← hb, Function.update_self]
      exact hsaved
    · rw [Function.update_of_ne hb]
      exact hsaved
  · -- the task before the last assignment of the call
    have hwoken : ∃ state ticks, wokenTask s o esp t = { s.tasks t with
        esp := if t = s.current then esp else (s.tasks t).esp, state := state, sleepTicks := ticks } ∧
        (state = (s.tasks t).state ∧ ticks = (s.tasks t).sleepTicks ∨
          t ∈ o ∧ (s.tasks t).state = .sleeping) := by
      by_cases ht : t ∈ o
      · obtain ⟨state, ticks, hw, hcase⟩ := wakeTask_fields (savedTask s esp t)
        refine ⟨state, ticks, ?_, ?_⟩
        · rw [wokenTask, rewriteOn_of_mem ht, hw, savedTask_eq]
        · rw [savedTask_eq] at hcase
          rcases hcase with hsame | hsleep
          · exact .inl hsame
          · exact .inr ⟨ht, hsleep⟩
      · refine ⟨(s.tasks t).state, (s.tasks t).sleepTicks, ?_, .inl ⟨rfl, rfl⟩⟩
        rw [wokenTask, rewriteOn_of_notMem ht, savedTask_eq]
    obtain ⟨state, ticks, hw, hcase⟩ := hwoken
    refine ⟨state, ticks, ?_, hcase⟩
    show Function.update (wokenTask s o esp) b _ t = _
    by_cases hb : t = b
    · subst hb
      rw [Function.update_self, hw, if_pos rfl]
    · rw [Function.update_of_ne hb, hw, if_neg hb]

/-- The largest priority of a ready task is positive if that of some ready task is. -/
theorem firstMax_ready (h : FirstMax (Choosable s) (prio s) o b) :
    FirstMax (fun t => (wakeTask (s.tasks t)).state = .ready) (prio s) o b := by
  have hpos : 0 < prio s b := h.counts.2
  obtain ⟨before, after, ho, hfirst⟩ := h.first
  refine ⟨(wakeTask_ready _).mpr h.counts.1, fun x hx hr => ?_, before, after, ho, fun x hx hr => ?_⟩
  · by_cases hx0 : 0 < (s.tasks x).priority
    · exact h.max x hx ⟨(wakeTask_ready _).mp hr, hx0⟩
    · have hzero : prio s x = 0 := Nat.le_zero.mp (Nat.not_lt.mp hx0)
      omega
  · by_cases hx0 : 0 < (s.tasks x).priority
    · exact hfirst x hx ⟨(wakeTask_ready _).mp hr, hx0⟩
    · have hzero : prio s x = 0 := Nat.le_zero.mp (Nat.not_lt.mp hx0)
      omega

end Choice

/-- **If the wake-up pass leaves a ready task of priority at least 1, `schedule` makes the first task current,
in ring order from behind the current one, among the ready tasks of the largest priority; and it does nothing
else but to save and return the stack pointers, to count the tick and to wake.** -/
theorem schedule_picks_first_best {s : Tasking} {o : List TaskRef} {fuel : ℕ}
    (ho : RingAfter s.next s.current o) (hf : o.length ≤ fuel)
    (hready : ∃ t ∈ o, (wakeTask (s.tasks t)).state = .ready ∧ 1 ≤ (s.tasks t).priority) (esp : UInt32) :
    ∃ b r s', schedule fuel esp s = .ok (r, s') ∧
      FirstMax (fun t => (wakeTask (s.tasks t)).state = .ready) (prio s) o b ∧ Switches s s' o esp r b := by
  rcases schedule_cases ho hf esp with ⟨b, hb, hs⟩ | ⟨hno, -⟩
  · exact ⟨b, _, _, hs, firstMax_ready hb, switchTo_switches⟩
  · obtain ⟨t, ht, hr, hpos⟩ := hready
    have hpos' : 0 < (s.tasks t).priority := hpos
    exact absurd ⟨(wakeTask_ready _).mp hr, hpos'⟩ (hno t ht)

/-- The main task is current, with a task of priority 3 next to it. -/
def twoTasks : Tasking := createTask 4096 3 (initTasking (bootTasking 0))

theorem twoTasks_ring : RingAfter twoTasks.next twoTasks.current [.pool 0, .mainTask] :=
  ⟨[.pool 0], rfl, isRing_pair (by decide) (by decide) (by decide)⟩

theorem schedule_picks_first_best_two_tasks :
    ∃ b r s', schedule 2 77 twoTasks = .ok (r, s') ∧
      FirstMax (fun t => (wakeTask (twoTasks.tasks t)).state = .ready) (prio twoTasks) [.pool 0, .mainTask] b ∧
      Switches twoTasks s' [.pool 0, .mainTask] 77 r b :=
  schedule_picks_first_best twoTasks_ring le_rfl ⟨.pool 0, by simp, by decide, by decide⟩ 77

/-! ## Taking turns -/

/-- The task is ready, and no ready task of the ring has a larger priority. -/
def Leading (s : Tasking) (o : List TaskRef) (t : TaskRef) : Prop :=
  (s.tasks t).state = .ready ∧ ∀ u ∈ o, (s.tasks u).state = .ready → prio s u ≤ prio s t

instance (s : Tasking) (o : List TaskRef) : DecidablePred (Leading s o) := fun t =>
  inferInstanceAs (Decidable ((s.tasks t).state = .ready ∧
    ∀ u ∈ o, (s.tasks u).state = .ready → prio s u ≤ prio s t))

/-- The links and the states and priorities of the tasks are the same. -/
structure SameStates (s s' : Tasking) : Prop where
  next : s'.next = s.next
  state : ∀ t, (s'.tasks t).state = (s.tasks t).state
  priority : ∀ t, (s'.tasks t).priority = (s.tasks t).priority

section Turns

variable {s s' : Tasking} {o o' : List TaskRef} {fuel : ℕ} {esp : UInt32} {t : TaskRef}

theorem SameStates.trans {s'' : Tasking} (h : SameStates s s') (h' : SameStates s' s'') : SameStates s s'' :=
  ⟨h'.next.trans h.next, fun t => (h'.state t).trans (h.state t), fun t => (h'.priority t).trans (h.priority t)⟩

/-- Who leads depends on the states and the priorities only, and not on where the ring is entered. -/
theorem SameStates.leading (h : SameStates s s') (hperm : o'.Perm o) : Leading s' o' t ↔ Leading s o t := by
  simp only [Leading, prio, h.state, h.priority, hperm.mem_iff]

theorem SameStates.awake (h : SameStates s s') (hperm : o'.Perm o)
    (hawake : ∀ t ∈ o, (s.tasks t).state ≠ .sleeping) : ∀ t ∈ o', (s'.tasks t).state ≠ .sleeping := by
  intro t ht
  rw [h.state]
  exact hawake t (hperm.mem_iff.mp ht)

theorem SameStates.exists_leader (h : SameStates s s') (hperm : o'.Perm o)
    (hlead : ∃ t ∈ o, Leading s o t ∧ 1 ≤ (s.tasks t).priority) :
    ∃ t ∈ o', Leading s' o' t ∧ 1 ≤ (s'.tasks t).priority := by
  obtain ⟨t, ht, hl, hpos⟩ := hlead
  refine ⟨t, hperm.mem_iff.mpr ht, (h.leading hperm).mpr hl, ?_⟩
  rw [h.priority]
  exact hpos

/-- Without a sleeping task, `schedule` changes no state. -/
theorem switchTo_sameStates (hawake : ∀ t ∈ o, (s.tasks t).state ≠ .sleeping) (b : TaskRef) :
    SameStates s (switchTo s o esp b) := by
  have hsw : Switches s (switchTo s o esp b) o esp (wokenTask s o esp b).esp b := switchTo_switches
  refine ⟨switchTo_next b, fun t => ?_, fun t => ?_⟩
  · obtain ⟨state, ticks, ht, hcase⟩ := hsw.tasks t
    rw [ht]
    rcases hcase with ⟨hstate, -⟩ | ⟨hmem, hsleep⟩
    · exact hstate
    · exact absurd hsleep (hawake t hmem)
  · obtain ⟨state, ticks, ht, -⟩ := hsw.tasks t
    rw [ht]

/-- The next leading task behind the current one gets the CPU. -/
theorem schedule_next_leader (ho : RingAfter s.next s.current o) (hf : o.length ≤ fuel)
    (hawake : ∀ t ∈ o, (s.tasks t).state ≠ .sleeping)
    (hlead : ∃ t ∈ o, Leading s o t ∧ 1 ≤ (s.tasks t).priority) (esp : UInt32) :
    ∃ b r s' before after, schedule fuel esp s = .ok (r, s') ∧ s'.current = b ∧ SameStates s s' ∧
      o = before ++ b :: after ∧ Leading s o b ∧ ∀ t ∈ before, ¬ Leading s o t := by
  obtain ⟨t, ht, hl, hpos⟩ := hlead
  have hready : ∀ u ∈ o, (wakeTask (s.tasks u)).state = (s.tasks u).state := by
    intro u hu
    rw [wakeTask_awake (hawake u hu)]
  rcases schedule_cases ho hf esp with ⟨b, hb, hs⟩ | ⟨hno, -⟩
  · have hmax := firstMax_ready hb
    obtain ⟨before, after, hsplit, hfirst⟩ := hmax.first
    have hbr : (s.tasks b).state = .ready := (hready b hb.mem).symm.trans hmax.counts
    refine ⟨b, _, _, before, after, hs, rfl, switchTo_sameStates hawake b, hsplit, ⟨hbr, fun u hu hur => ?_⟩,
      fun u hu hlu => ?_⟩
    · exact hmax.max u hu ((hready u hu).trans hur)
    · have huo : u ∈ o := by
        rw [hsplit]
        exact List.mem_append_left _ hu
      have hlt := hfirst u hu ((hready u huo).trans hlu.1)
      have hle := hlu.2 b hb.mem hbr
      omega
  · exact absurd ⟨.inl hl.1, hpos⟩ (hno t ht)

/-- Along the calls, the leading tasks in the order of the first scan are made current. -/
theorem currents_eq {calls : List ((Tasking → Tasking) × UInt32)} (ho : RingAfter s.next s.current o)
    (hf : o.length ≤ fuel) (hawake : ∀ t ∈ o, (s.tasks t).state ≠ .sleeping)
    (hlead : ∃ t ∈ o, Leading s o t ∧ 1 ≤ (s.tasks t).priority)
    (hcalls : ∀ x ∈ calls, ∀ s, SameStates s (x.1 s) ∧ (x.1 s).current = s.current) {p q : List TaskRef}
    (hfilter : o.filter (fun t => Leading s o t) = p ++ q) (hlen : calls.length = p.length) :
    currents fuel calls s = .ok p := by
  induction calls generalizing s o p q with
  | nil =>
    obtain rfl : p = [] := List.length_eq_zero_iff.mp hlen.symm
    rfl
  | cons x calls ih =>
    obtain ⟨before, esp⟩ := x
    obtain ⟨hsame, hcur⟩ := hcalls (before, esp) (by simp) s
    set s1 := before s with hs1
    have ho1 : RingAfter s1.next s1.current o := by
      rw [hsame.next, hcur]
      exact ho
    obtain ⟨b, r, s', pre, post, hs, hb, hsame', hsplit, hlb, hpre⟩ :=
      schedule_next_leader ho1 hf (hsame.awake (.refl o) hawake) (hsame.exists_leader (.refl o) hlead) esp
    have hall := hsame.trans hsame'
    -- the next scan starts behind `b`, which comes last in it
    have hperm : (post ++ pre ++ [b]).Perm o := by
      rw [hsplit]
      exact rotate_perm pre post b
    have ho' : RingAfter s'.next s'.current (post ++ pre ++ [b]) := by
      rw [hsame'.next, hb]
      rw [hsplit] at ho1
      exact ho1.rotate
    have hpre' : ∀ t ∈ pre, ¬ Leading s o t := fun t ht hl => hpre t ht ((hsame.leading (.refl o)).mpr hl)
    obtain ⟨hnow, hthen⟩ := filter_rotate post hpre' ((hsame.leading (.refl o)).mp hlb)
    rw [← hsplit, hfilter] at hnow
    cases p with
    | nil => exact absurd hlen (by simp)
    | cons b' p =>
      rw [List.cons_append] at hnow
      obtain ⟨rfl, hpost⟩ := List.cons.inj hnow
      have hfilter' : (post ++ pre ++ [b']).filter (fun t => Leading s' (post ++ pre ++ [b']) t) =
          p ++ (q ++ [b']) := by
        simp only [hall.leading hperm]
        rw [hthen, ← hpost, List.append_assoc]
      have hrest : currents fuel calls s' = .ok p :=
        ih ho' (hperm.length_eq.trans_le hf) (hall.awake hperm hawake) (hall.exists_leader hperm hlead)
          (fun y hy => hcalls y (List.mem_cons_of_mem _ hy)) hfilter' (by simpa using hlen)
      simp only [currents, ← hs1, hs, ok_bind, hrest, hb, pure_eq_ok]

end Turns

/-- **If no task of the ring sleeps and the largest priority of a ready task is at least 1, as many calls of
`schedule` as there are ready tasks of this priority make each of them current once, in ring order from behind
the task that was current before**, whatever happens between the calls that changes no state or priority. -/
theorem tasks_take_turns {s : Tasking} {o : List TaskRef} {fuel : ℕ} (ho : RingAfter s.next s.current o)
    (hf : o.length ≤ fuel) (hawake : ∀ t ∈ o, (s.tasks t).state ≠ .sleeping)
    (hlead : ∃ t ∈ o, Leading s o t ∧ 1 ≤ (s.tasks t).priority)
    {calls : List ((Tasking → Tasking) × UInt32)}
    (hcalls : ∀ x ∈ calls, ∀ s, SameStates s (x.1 s) ∧ (x.1 s).current = s.current)
    (hlen : calls.length = (o.filter (fun t => Leading s o t)).length) :
    ∃ ts, currents fuel calls s = .ok ts ∧ ts = o.filter (fun t => Leading s o t) ∧
      ∀ t, Leading s o t → t ∈ o → ts.count t = 1 := by
  have heq := currents_eq ho hf hawake hlead hcalls (List.append_nil _).symm hlen
  refine ⟨_, heq, rfl, fun t hl ht => ?_⟩
  apply List.count_eq_one_of_mem
  · exact ho.nodup.filter _
  · exact List.mem_filter.mpr ⟨ht, decide_eq_true hl⟩

/-- The main task and a second task of its priority. -/
def equalTasks : Tasking := createTask 4096 1 (initTasking (bootTasking 0))

theorem tasks_take_turns_equal :
    currents 2 [(id, 10), (id, 20)] equalTasks = .ok [.pool 0, .mainTask] := by
  have ho : RingAfter equalTasks.next equalTasks.current [.pool 0, .mainTask] :=
    ⟨[.pool 0], rfl, isRing_pair (by decide) (by decide) (by decide)⟩
  have hcalls : ∀ x ∈ [((id : Tasking → Tasking), (10 : UInt32)), (id, 20)],
      ∀ s, SameStates s (x.1 s) ∧ (x.1 s).current = s.current := by
    intro x hx s
    obtain rfl | rfl : x = (id, 10) ∨ x = (id, 20) := by simpa using hx
    · exact ⟨⟨rfl, fun _ => rfl, fun _ => rfl⟩, rfl⟩
    · exact ⟨⟨rfl, fun _ => rfl, fun _ => rfl⟩, rfl⟩
  obtain ⟨ts, hts, rfl, -⟩ := tasks_take_turns ho (le_refl 2) (by decide)
    ⟨.pool 0, by decide, by decide, by decide⟩ hcalls (by decide)
  rw [hts]
  decide

end RtosKernel
