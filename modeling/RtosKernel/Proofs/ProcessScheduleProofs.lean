import RtosKernel.Proofs.ProcessProofs

/-!
# Proofs: which process `process_schedule` chooses

`process_schedule` demotes the current process, wakes sleepers, reaps zombies and then scans the list from
behind the current process, which it meets last. `process_schedule_selects` says what a call leaves behind on
any list that is one cycle. The scan compares with `>=`, unlike the one of `schedule`: of several processes of
the largest priority the last one met is chosen, and that is the current one if it is among them. So equal
processes do not take turns: whichever gets the CPU keeps it (`equal_processes_never_take_turns`).
-/

namespace RtosKernel

open Lib

/-- The list is one cycle through `proc_list_head` and the current process `c`, in the order `o` from behind
`c`. -/
structure ProcRing (s : Procs) (c : Slot) (o : List Slot) : Prop where
  current : s.current = some c
  ring : RingAfter s.next c o
  head : ∃ h ∈ o, s.head = some h

/-- The list is such a cycle, and no process but `c` is running. -/
structure ProcCycle (s : Procs) (c : Slot) (o : List Slot) : Prop extends ProcRing s c o where
  running : ∀ i, s.state i = .running → i = c

/-- The process is ready when a call of `process_schedule` at the tick `now`, with `c` current, comes to choose:
it was ready, or it is the current process and was running, or it slept and its time has come. -/
def ReadyAt (s : Procs) (c : Slot) (now : UInt32) (i : Slot) : Prop :=
  s.state i = .ready ∨ (s.state i = .running ∧ i = c) ∨ (s.state i = .sleeping ∧ (s.pool i).wakeTick ≤ now)

/-- What the call of `process_schedule` with `esp` at the tick `now` leaves of the list `o` if it gives the CPU to
`b` and returns `r`. -/
structure Selects (s s' : Procs) (c : Slot) (o : List Slot) (esp now r : UInt32) (b : Slot) : Prop where
  current : processCurrent s' = some b
  running : ∀ i, s'.state i = .running ↔ i = b
  reaped : ∀ i ∈ o, s.state i = .zombie →
    s'.state i = .unused ∨ (i = 0 ∧ b = 0 ∧ ∀ j ∈ o, ¬ ReadyAt s c now j)
  highest : ∀ i ∈ o, s'.state i = .ready → (s'.pool i).priority ≤ (s'.pool b).priority
  /-- The new current process was ready, or it is slot 0 and there was none. -/
  chosen : (b ∈ o ∧ ReadyAt s c now b) ∨ (b = 0 ∧ ∀ i ∈ o, ¬ ReadyAt s c now i)
  saved : (s'.pool c).esp = esp
  returned : r = (s'.pool b).esp

section Selection

variable {s : Procs} {c b i : Slot} {o : List Slot} {fuel : ℕ} {esp now : UInt32}

theorem savedProc_state (i : Slot) :
    (savedProc s c esp i).state = if i = c ∧ s.state i = .running then .ready else s.state i := by
  rw [savedProc]
  by_cases hi : i = c
  · simp [hi, saveCurrent, Procs.state]
  · simp [hi, Procs.state]

theorem ageProc_state (now : UInt32) (q : Process) : (ageProc now q).state =
    if q.state = .sleeping ∧ q.wakeTick ≤ now then .ready else if q.state = .zombie then .unused else q.state := by
  simp only [ageProc]
  split
  · simp
  · split
    · rfl
    · rfl

theorem savedProc_wakeTick (i : Slot) : (savedProc s c esp i).wakeTick = (s.pool i).wakeTick := by
  rw [savedProc_fields]

/-- The processes that are ready after the first loop. -/
theorem agedProc_ready (hi : i ∈ o) : (agedProc s c o esp now i).state = .ready ↔ ReadyAt s c now i := by
  rw [agedProc, rewriteOn_of_mem hi, ageProc_state, savedProc_wakeTick, savedProc_state, ReadyAt]
  cases hstate : s.state i with
  | running => by_cases hc : i = c <;> simp [hc]
  | sleeping => by_cases hw : (s.pool i).wakeTick ≤ now <;> simp [hw]
  | unused => simp
  | ready => simp
  | blocked => simp
  | zombie => simp

/-- After the first loop no process is running. -/
theorem agedProc_not_running (h : s.state i = .running → i = c) : (agedProc s c o esp now i).state ≠ .running := by
  have hsaved : (savedProc s c esp i).state ≠ .running := by
    rw [savedProc_state]
    split
    · simp
    · next hne => exact fun hr => hne ⟨h hr, hr⟩
  rw [agedProc, rewriteOn]
  split
  · rw [ageProc_state]
    split
    · simp
    · split
      · simp
      · exact hsaved
  · exact hsaved

theorem agedProc_zombie (hi : i ∈ o) (hz : s.state i = .zombie) : (agedProc s c o esp now i).state = .unused := by
  rw [agedProc, rewriteOn_of_mem hi, ageProc_state, savedProc_state, hz]
  simp

theorem runProc_state_self : (runProc s c o esp now b).state b = .running := by
  rw [Procs.state, runProc_pool_self]

theorem runProc_state_of_ne (hb : i ≠ b) :
    (runProc s c o esp now b).state i = (agedProc s c o esp now i).state := by
  rw [Procs.state, runProc_pool_of_ne hb]

theorem runProc_priority (i : Slot) : ((runProc s c o esp now b).pool i).priority = (s.pool i).priority := by
  rw [runProc_fields]

/-- A process that can run or runs goes on to do so. -/
theorem runProc_stays (hi : i ∈ o) (h : s.state i = .ready ∨ s.state i = .running) :
    (runProc s c o esp now b).state i = .ready ∨ (runProc s c o esp now b).state i = .running := by
  by_cases hib : i = b
  · subst hib
    exact .inr runProc_state_self
  · rw [runProc_state_of_ne hib, agedProc, rewriteOn_of_mem hi, ageProc_state, savedProc_state]
    rcases h with h | h
    · simp [h]
    · by_cases hc : i = c
      · subst hc
        simp [h]
      · simp [h, hc]

/-- The call on a cycle: the state that it leaves, and the process that it chooses. -/
theorem ProcRing.schedule (h : ProcRing s c o) (hf : o.length ≤ fuel) (esp now : UInt32) :
    ∃ b, processSchedule fuel esp now s = .ok ((agedProc s c o esp now b).esp, runProc s c o esp now b) ∧
      (LastMax (ReadyAt s c now) (fun i => (s.pool i).priority.toNat) o b ∨
        (b = 0 ∧ ∀ i ∈ o, ¬ ReadyAt s c now i)) := by
  obtain ⟨n, hcn, ho⟩ := h.ring.start
  obtain ⟨hd, hmem, hhead⟩ := h.head
  obtain ⟨b, hs, hcase⟩ := processSchedule_eq hhead h.current hcn ho hmem hf esp now
  refine ⟨b, hs, ?_⟩
  rcases hcase with hmax | ⟨rfl, hno⟩
  · obtain ⟨before, after, hsplit, hlast⟩ := hmax.last
    refine .inl ⟨(agedProc_ready hmax.mem).mp hmax.counts, fun x hx hr => ?_, before, after, hsplit,
      fun x hx hr => ?_⟩
    · exact hmax.max x hx ((agedProc_ready hx).mpr hr)
    · have hxo : x ∈ o := by
        rw [hsplit]
        simp [hx]
      exact hlast x hx ((agedProc_ready hxo).mpr hr)
  · exact .inr ⟨rfl, fun i hi hr => hno i hi ((agedProc_ready hi).mpr hr)⟩

end Selection

/-- **On every process list that is one cycle through its head and the current process, `process_schedule` returns;
it reaps the zombies, leaves one process running, which is the current one, and no ready process of a larger
priority; it falls back on slot 0 only if no process was ready; and it saves and returns the stack pointers.** -/
theorem process_schedule_selects {s : Procs} {c : Slot} {o : List Slot} {fuel : ℕ} (h : ProcCycle s c o)
    (hf : o.length ≤ fuel) (esp now : UInt32) :
    ∃ b r s', processSchedule fuel esp now s = .ok (r, s') ∧ Selects s s' c o esp now r b := by
  obtain ⟨b, hs, hcase⟩ := h.schedule hf esp now
  refine ⟨b, _, _, hs, rfl, fun i => ?_, fun i hi hz => ?_, fun i hi hr => ?_, ?_, ?_, ?_⟩
  · constructor
    · intro hr
      by_contra hib
      rw [runProc_state_of_ne hib] at hr
      exact agedProc_not_running (h.running i) hr
    · rintro rfl
      exact runProc_state_self
  · by_cases hib : i = b
    · -- a zombie is not ready, so it is the fallback
      subst hib
      rcases hcase with hmax | ⟨h0, hno⟩
      · exact absurd hmax.counts (by simp [ReadyAt, hz])
      · exact .inr ⟨h0, h0, hno⟩
    · rw [runProc_state_of_ne hib]
      exact .inl (agedProc_zombie hi hz)
  · have hib : i ≠ b := by
      rintro rfl
      rw [runProc_state_self] at hr
      cases hr
    rw [runProc_state_of_ne hib, agedProc_ready hi] at hr
    rw [runProc_priority, runProc_priority, UInt32.le_iff_toNat_le]
    rcases hcase with hmax | ⟨-, hno⟩
    · exact hmax.max i hi hr
    · exact absurd hr (hno i hi)
  · rcases hcase with hmax | hnone
    · exact .inl ⟨hmax.mem, hmax.counts⟩
    · exact .inr hnone
  · rw [runProc_fields, if_pos rfl]
  · rw [runProc_fields, agedProc_fields]

/-- The table after `process_init` and two calls of `process_create` with the priority 5. -/
def equalProcs : Procs :=
  match run (procStep 16) (processInit (bootProcs 0)) [.create [97] 4096 5 0, .create [98] 8192 5 0] with
  | .ok s => s
  | .error _ => bootProcs 0

theorem equalProcs_cycle : ProcCycle equalProcs 0 [1, 2, 0] := by
  have h01 : equalProcs.next 0 = some 1 := by decide +kernel
  have h12 : equalProcs.next 1 = some 2 := by decide +kernel
  have h20 : equalProcs.next 2 = some 0 := by decide +kernel
  have hring : IsRing equalProcs.next 0 [0, 1, 2] :=
    ⟨⟨rfl, 1, h01, rfl, 2, h12, rfl, 0, h20, rfl⟩, [1, 2], rfl, by decide⟩
  refine ⟨⟨?_, ⟨[1, 2], rfl, hring⟩, ⟨0, by simp, ?_⟩⟩, ?_⟩
  · decide +kernel
  · decide +kernel
  · decide +kernel

theorem process_schedule_selects_equal :
    ∃ b r s', processSchedule 3 77 0 equalProcs = .ok (r, s') ∧ Selects equalProcs s' 0 [1, 2, 0] 77 0 r b :=
  process_schedule_selects equalProcs_cycle le_rfl 77 0

/-! ## Equal priorities -/

/-- The process is ready or running, and no such process of the list has a larger priority. -/
def LeadingProc (s : Procs) (o : List Slot) (i : Slot) : Prop :=
  (s.state i = .ready ∨ s.state i = .running) ∧
    ∀ j ∈ o, s.state j = .ready ∨ s.state j = .running → (s.pool j).priority.toNat ≤ (s.pool i).priority.toNat

instance (s : Procs) (o : List Slot) : DecidablePred (LeadingProc s o) := fun i =>
  inferInstanceAs (Decidable ((s.state i = .ready ∨ s.state i = .running) ∧
    ∀ j ∈ o, s.state j = .ready ∨ s.state j = .running → (s.pool j).priority.toNat ≤ (s.pool i).priority.toNat))

/-- No process of the list sleeps or waits to be reaped. -/
def AllAwake (s : Procs) (o : List Slot) : Prop := ∀ i ∈ o, s.state i ≠ .sleeping ∧ s.state i ≠ .zombie

instance (s : Procs) (o : List Slot) : Decidable (AllAwake s o) :=
  inferInstanceAs (Decidable (∀ i ∈ o, s.state i ≠ .sleeping ∧ s.state i ≠ .zombie))

/-- The list, the current process and the states and priorities of the processes are the same. -/
structure SameProcs (s s' : Procs) : Prop where
  next : s'.next = s.next
  head : s'.head = s.head
  current : s'.current = s.current
  state : s'.state = s.state
  priority : ∀ i, (s'.pool i).priority = (s.pool i).priority

section Equals

variable {s s' : Procs} {c b i : Slot} {o o' : List Slot} {fuel : ℕ} {esp now : UInt32}

theorem SameProcs.cycle (hsame : SameProcs s s') (h : ProcCycle s c o) : ProcCycle s' c o := by
  refine ⟨⟨hsame.current.trans h.current, ?_, ?_⟩, fun i hi => h.running i ?_⟩
  · rw [hsame.next]
    exact h.ring
  · rw [hsame.head]
    exact h.head
  · rw [← hsame.state]
    exact hi

theorem SameProcs.awake (hsame : SameProcs s s') (h : AllAwake s o) : AllAwake s' o := by
  intro i hi
  rw [hsame.state]
  exact h i hi

theorem SameProcs.leading (hsame : SameProcs s s') : LeadingProc s' o i ↔ LeadingProc s o i := by
  simp only [LeadingProc, hsame.state, hsame.priority]

/-- If no process sleeps, those that are ready or running are ready when the call comes to choose. -/
theorem readyAt_iff_runnable (h : ProcCycle s c o) (hawake : AllAwake s o) (now : UInt32) (hi : i ∈ o) :
    ReadyAt s c now i ↔ s.state i = .ready ∨ s.state i = .running := by
  constructor
  · rintro (hr | ⟨hr, -⟩ | ⟨hs, -⟩)
    · exact .inl hr
    · exact .inr hr
    · exact absurd hs (hawake i hi).1
  · rintro (hr | hr)
    · exact .inl hr
    · exact .inr (.inl ⟨hr, h.running i hr⟩)

/-- The call makes no process able to run and keeps none from it. -/
theorem runProc_runnable (h : ProcCycle s c o) (hawake : AllAwake s o) (hb : ReadyAt s c now b) (hi : i ∈ o) :
    ((runProc s c o esp now b).state i = .ready ∨ (runProc s c o esp now b).state i = .running) ↔
      (s.state i = .ready ∨ s.state i = .running) := by
  constructor
  · intro hr
    rw [← readyAt_iff_runnable h hawake now hi]
    by_cases hib : i = b
    · rw [hib]
      exact hb
    · rw [runProc_state_of_ne hib] at hr
      rcases hr with hr | hr
      · exact (agedProc_ready hi).mp hr
      · exact absurd hr (agedProc_not_running (h.running i))
  · exact runProc_stays hi

theorem runProc_awake (hawake : AllAwake s o) : AllAwake (runProc s c o esp now b) o := by
  intro i hi
  by_cases hib : i = b
  · subst hib
    rw [runProc_state_self]
    simp
  · obtain ⟨hs, hz⟩ := hawake i hi
    rw [runProc_state_of_ne hib, agedProc, rewriteOn_of_mem hi, ageProc_state, savedProc_state]
    split
    · simp
    · simp [hs, hz]

/-- The processes of the largest priority stay the same. -/
theorem runProc_leading (h : ProcCycle s c o) (hawake : AllAwake s o) (hb : ReadyAt s c now b) (hperm : o'.Perm o)
    (hi : i ∈ o) : LeadingProc (runProc s c o esp now b) o' i ↔ LeadingProc s o i := by
  have hrun : ∀ j ∈ o, ((runProc s c o esp now b).state j = .ready ∨
      (runProc s c o esp now b).state j = .running) ↔ (s.state j = .ready ∨ s.state j = .running) :=
    fun j hj => runProc_runnable h hawake hb hj
  simp only [LeadingProc, runProc_priority, hrun i hi, hperm.mem_iff]
  refine and_congr_right fun _ => forall_congr' fun j => ?_
  constructor
  · exact fun hle hj hr => hle hj ((hrun j hj).mpr hr)
  · exact fun hle hj hr => hle hj ((hrun j hj).mp hr)

/-- The list is still a cycle, to be scanned from behind the process that got the CPU. -/
theorem ProcCycle.rotated {before after : List Slot} (h : ProcCycle s c o) (hsplit : o = before ++ b :: after) :
    ProcCycle (runProc s c o esp now b) b (after ++ before ++ [b]) ∧ (after ++ before ++ [b]).Perm o := by
  have hperm : (after ++ before ++ [b]).Perm o := by
    rw [hsplit]
    exact rotate_perm before after b
  refine ⟨⟨⟨rfl, ?_, ?_⟩, fun j hj => ?_⟩, hperm⟩
  · rw [runProc_next]
    have ho := h.ring
    rw [hsplit] at ho
    exact ho.rotate
  · obtain ⟨hd, hmem, hhead⟩ := h.head
    exact ⟨hd, hperm.mem_iff.mpr hmem, hhead⟩
  · by_contra hjb
    rw [runProc_state_of_ne hjb] at hj
    exact agedProc_not_running (h.running j) hj

/-- One call: the process that gets the CPU is one of the largest priority, and the current one if that is such
a process. The list and the leading processes stay the same. -/
theorem ProcCycle.schedule_leading (h : ProcCycle s c o) (hf : o.length ≤ fuel) (hawake : AllAwake s o)
    (hlead : ∃ i ∈ o, LeadingProc s o i) (esp now : UInt32) :
    ∃ b r s' o', processSchedule fuel esp now s = .ok (r, s') ∧ b ∈ o ∧ LeadingProc s o b ∧
      (LeadingProc s o c → b = c) ∧ o'.Perm o ∧ ProcCycle s' b o' ∧ AllAwake s' o' ∧
      ∀ i ∈ o, LeadingProc s' o' i ↔ LeadingProc s o i := by
  obtain ⟨b, hs, hcase⟩ := h.schedule hf esp now
  obtain ⟨i, hi, hli⟩ := hlead
  have hready : ∀ j ∈ o, ReadyAt s c now j ↔ s.state j = .ready ∨ s.state j = .running :=
    fun j hj => readyAt_iff_runnable h hawake now hj
  rcases hcase with hmax | ⟨-, hno⟩
  · have hbr : s.state b = .ready ∨ s.state b = .running := (hready b hmax.mem).mp hmax.counts
    obtain ⟨before, after, hsplit, -⟩ := hmax.last
    obtain ⟨hcycle, hperm⟩ := h.rotated hsplit
    refine ⟨b, _, _, _, hs, hmax.mem, ⟨hbr, fun j hj hr => hmax.max j hj ((hready j hj).mpr hr)⟩, fun hlc => ?_,
      hperm, hcycle, fun j hj => runProc_awake hawake j (hperm.mem_iff.mp hj), fun j hj => ?_⟩
    · -- the current process comes last in the scan
      obtain ⟨q, rfl, -⟩ := h.ring
      exact hmax.eq_last ((hready c (by simp)).mpr hlc.1) (hlc.2 b hmax.mem hbr)
    · exact runProc_leading h hawake hmax.counts hperm hj
  · exact absurd ((hready i hi).mpr hli.1) (hno i hi)

/-- All calls give the CPU to the same process: to the current one if it is one of the largest priority. -/
theorem procCurrents_replicate {calls : List ((Procs → Procs) × UInt32 × UInt32)} (h : ProcCycle s c o)
    (hf : o.length ≤ fuel) (hawake : AllAwake s o) (hlead : ∃ i ∈ o, LeadingProc s o i)
    (hcalls : ∀ x ∈ calls, ∀ s, SameProcs s (x.1 s)) :
    ∃ b ∈ o, LeadingProc s o b ∧ (LeadingProc s o c → b = c) ∧
      procCurrents fuel calls s = .ok (List.replicate calls.length (some b)) := by
  induction calls generalizing s c o with
  | nil =>
    by_cases hlc : LeadingProc s o c
    · exact ⟨c, h.ring.mem, hlc, fun _ => rfl, rfl⟩
    · obtain ⟨i, hi, hl⟩ := hlead
      exact ⟨i, hi, hl, fun hc => absurd hc hlc, rfl⟩
  | cons x calls ih =>
    obtain ⟨before, esp, now⟩ := x
    have hsame := hcalls (before, esp, now) (by simp) s
    have hlead1 : ∃ i ∈ o, LeadingProc (before s) o i := by
      obtain ⟨i, hi, hl⟩ := hlead
      exact ⟨i, hi, hsame.leading.mpr hl⟩
    obtain ⟨b, r, s', o', hs, hbo, hlb, hbc, hperm, hcycle, hawake', hlead'⟩ :=
      (hsame.cycle h).schedule_leading hf (hsame.awake hawake) hlead1 esp now
    have hlb' : LeadingProc s' o' b := (hlead' b hbo).mpr hlb
    -- from now on the chosen process is the current one
    obtain ⟨b', -, -, hstay, hrest⟩ := ih hcycle (hperm.length_eq.trans_le hf) hawake'
      ⟨b, hperm.mem_iff.mpr hbo, hlb'⟩ fun y hy => hcalls y (List.mem_cons_of_mem _ hy)
    obtain rfl := hstay hlb'
    refine ⟨b', hbo, hsame.leading.mp hlb, fun hlc => hbc (hsame.leading.mpr hlc), ?_⟩
    have hcur : processCurrent s' = some b' := hcycle.current
    simp only [procCurrents, hs, ok_bind, hrest, hcur, pure_eq_ok]
    rfl

end Equals

/-- **If no process of the list sleeps or is a zombie, and at least two are ready or running with the largest
priority, then as many calls of `process_schedule` as there are of them all give the CPU to one and the same:
never does each of them get it once**, whatever happens between the calls that changes no state or priority. -/
theorem equal_processes_never_take_turns {s : Procs} {c : Slot} {o : List Slot} {fuel : ℕ} (h : ProcCycle s c o)
    (hf : o.length ≤ fuel) (hawake : AllAwake s o) (htwo : 2 ≤ (o.filter (fun i => LeadingProc s o i)).length)
    {calls : List ((Procs → Procs) × UInt32 × UInt32)} (hcalls : ∀ x ∈ calls, ∀ s, SameProcs s (x.1 s))
    (hlen : calls.length = (o.filter (fun i => LeadingProc s o i)).length) :
    ∃ b bs, procCurrents fuel calls s = .ok bs ∧ bs = List.replicate calls.length (some b) ∧
      ¬ ∀ i ∈ o, LeadingProc s o i → bs.count (some i) = 1 := by
  have hlead : ∃ i ∈ o, LeadingProc s o i := by
    obtain ⟨i, hi⟩ := List.exists_mem_of_length_pos (by omega : 0 < (o.filter (fun i => LeadingProc s o i)).length)
    obtain ⟨hio, hl⟩ := List.mem_filter.mp hi
    exact ⟨i, hio, of_decide_eq_true hl⟩
  obtain ⟨b, hbo, hlb, -, hbs⟩ := procCurrents_replicate h hf hawake hlead hcalls
  refine ⟨b, _, hbs, rfl, fun hall => ?_⟩
  have hcount := hall b hbo hlb
  rw [List.count_replicate_self] at hcount
  omega

theorem equal_processes_never_take_turns_two :
    ∃ b bs, procCurrents 3 [(id, 10, 0), (id, 20, 1)] equalProcs = .ok bs ∧ bs = List.replicate 2 (some b) ∧
      ¬ ∀ i ∈ [1, 2, 0], LeadingProc equalProcs [1, 2, 0] i → bs.count (some i) = 1 := by
  have hcalls : ∀ x ∈ [((id : Procs → Procs), (10 : UInt32), (0 : UInt32)), (id, 20, 1)],
      ∀ s, SameProcs s (x.1 s) := by
    intro x hx s
    obtain rfl | rfl : x = (id, 10, 0) ∨ x = (id, 20, 1) := by simpa using hx
    · exact ⟨rfl, rfl, rfl, rfl, fun _ => rfl⟩
    · exact ⟨rfl, rfl, rfl, rfl, fun _ => rfl⟩
  exact equal_processes_never_take_turns equalProcs_cycle (le_refl 3) (by decide +kernel) (by decide +kernel) hcalls
    (by decide +kernel)

/-- Of the two processes of priority 5 the second one gets the CPU in both calls, and the first one in none. -/
theorem equal_processes_one_starves :
    ProcCycle equalProcs 0 [1, 2, 0] ∧ AllAwake equalProcs [1, 2, 0] ∧
      [1, 2, 0].filter (fun i => LeadingProc equalProcs [1, 2, 0] i) = [1, 2] ∧
      procCurrents 3 [(id, 10, 0), (id, 20, 1)] equalProcs = .ok [some 2, some 2] := by
  refine ⟨equalProcs_cycle, ?_, ?_, ?_⟩
  · decide +kernel
  · decide +kernel
  · decide +kernel

end RtosKernel
