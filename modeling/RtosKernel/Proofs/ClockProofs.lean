import RtosKernel.Kernel
import RtosKernel.Proofs.ProcessProofs
import RtosKernel.Proofs.TaskRunProofs

/-!
# The clock

Every interrupt on vector 32 adds one to `timer_ticks`, and no other step of the kernel changes it
(`kernelCall_spec`). Hardware timer interrupts come on that vector, and so does the `int $32` of every
step by which a task gives up the CPU (`GivesUp`). So the tick count is the number of hardware
interrupts exactly as long as no task gives up the CPU.
-/

namespace RtosKernel

open Lib

/-! ## The timer -/

section Timer

variable {body : Callbacks}

theorem timerCall_keeps (t : Timer) (c : TimerCall) :
    (timerCall t c).timerTicks = t.timerTicks ∧ (timerCall t c).timerFreqHz = t.timerFreqHz := by
  cases c with
  | register cb =>
    simp only [timerCall, timerRegisterCallback]
    split <;> exact ⟨rfl, rfl⟩
  | unregister cb =>
    simp only [timerCall, timerUnregisterCallback]
    split <;> exact ⟨rfl, rfl⟩

theorem foldl_timerCall_keeps (cs : List TimerCall) (t : Timer) :
    (cs.foldl timerCall t).timerTicks = t.timerTicks ∧ (cs.foldl timerCall t).timerFreqHz = t.timerFreqHz := by
  induction cs generalizing t with
  | nil => exact ⟨rfl, rfl⟩
  | cons c cs ih =>
    obtain ⟨h1, h2⟩ := timerCall_keeps t c
    obtain ⟨h3, h4⟩ := ih (timerCall t c)
    exact ⟨h3.trans h1, h4.trans h2⟩

/-- The callbacks of a tick do not change the tick count. -/
theorem serveCallbacks_keeps (n i : ℕ) (t : Timer) :
    (serveCallbacks body n i t).1.timerTicks = t.timerTicks ∧
      (serveCallbacks body n i t).1.timerFreqHz = t.timerFreqHz := by
  induction n generalizing i t with
  | zero => exact ⟨rfl, rfl⟩
  | succ n ih =>
    rw [serveCallbacks]
    split
    · split
      · exact ih (i + 1) t
      · next cb _ =>
        obtain ⟨h1, h2⟩ := foldl_timerCall_keeps (body cb) t
        obtain ⟨h3, h4⟩ := ih (i + 1) ((body cb).foldl timerCall t)
        exact ⟨h3.trans h1, h4.trans h2⟩
    · exact ⟨rfl, rfl⟩

/-- A tick adds one to the count. -/
theorem timerIrqCallback_ticks (t : Timer) :
    (timerIrqCallback body t).1.timerTicks = t.timerTicks + 1 :=
  (serveCallbacks_keeps timerMaxCallbacks 0 _).1

end Timer

/-! ## One step of the kernel -/

/-- The running task gives up the CPU in this step. -/
def GivesUp (k : Kernel) : KernelOp → Prop
  | .taskYield _ => True
  | .taskSleep ticks _ => ticks ≠ 0
  | .processSleep ticks _ => ticks ≠ 0
  | .mutexLock m _ => (k.mutexes m).locked ≠ 0
  | .semWait i _ => ¬ 0 < (k.sems i).count
  | _ => False

/-- The step is a hardware timer interrupt. -/
def IsIrq0 : KernelOp → Prop
  | .irq0 _ => True
  | _ => False

/-- What keeps the steps of the kernel returning. -/
structure KernelInv (k : Kernel) : Prop where
  ring : ∃ l, TaskRing k.tasking l
  current : ∃ c, k.procs.current = some c
  handler : k.timerHandler = true

section Steps

variable (body : Callbacks) {fuel : ℕ} {k : Kernel}

/-- An interrupt on vector 32 returns and counts one tick. -/
theorem irqHandler_spec (h : KernelInv k) (hf : 9 ≤ fuel) (esp : UInt32) :
    ∃ k', irqHandler body fuel esp k = .ok k' ∧ KernelInv k' ∧
      k'.timer.timerTicks = k.timer.timerTicks + 1 := by
  obtain ⟨l, hl⟩ := h.ring
  obtain ⟨r, s, he, hs⟩ := hl.schedule hf esp
  refine ⟨{ k with timer := (timerIrqCallback body k.timer).1, tasking := s }, ?_,
    ⟨⟨l, hs.ring hl⟩, h.current, h.handler⟩, timerIrqCallback_ticks k.timer⟩
  simp only [irqHandler, h.handler, if_true, he, ok_bind, pure_eq_ok]

theorem sleepTask_spec (h : KernelInv k) (hf : 9 ≤ fuel) {ticks : UInt32} (h0 : ticks ≠ 0) (esp : UInt32) :
    ∃ k', sleepTask body fuel ticks esp k = .ok k' ∧ KernelInv k' ∧
      k'.timer.timerTicks = k.timer.timerTicks + 1 := by
  obtain ⟨l, hl⟩ := h.ring
  have hm : KernelInv { k with tasking := markSleeping ticks k.tasking } :=
    ⟨⟨l, markSleeping_ring hl ticks⟩, h.current, h.handler⟩
  rw [sleepTask, if_neg h0]
  exact irqHandler_spec body hm hf esp

theorem sleepProcess_spec (h : KernelInv k) (hf : 9 ≤ fuel) {ticks : UInt32} (h0 : ticks ≠ 0) (esp : UInt32) :
    ∃ k', sleepProcess body fuel ticks esp k = .ok k' ∧ KernelInv k' ∧
      k'.timer.timerTicks = k.timer.timerTicks + 1 := by
  obtain ⟨c, hc⟩ := h.current
  set p := k.procs.setProc c { k.procs.pool c with
    sleepTicks := ticks, wakeTick := getTicks k.timer + ticks, state := .sleeping } with hp
  have hsleep : processSleep ticks (getTicks k.timer) k.procs = .ok p := by
    simp only [processSleep, h0, if_false, hc, pure_eq_ok, hp]
  have hm : KernelInv { k with procs := p } := ⟨h.ring, ⟨c, hc⟩, h.handler⟩
  rw [sleepProcess, hsleep, ok_bind, if_neg h0]
  exact irqHandler_spec body hm hf esp

/-- **A step of the kernel returns; it counts one tick if it is a hardware timer interrupt or gives up
the CPU, and none otherwise.** -/
theorem kernelCall_spec (h : KernelInv k) (hf : 9 ≤ fuel) (op : KernelOp) :
    ∃ k', kernelCall body fuel k op = .ok k' ∧ KernelInv k' ∧
      ((IsIrq0 op ∨ GivesUp k op) ∧ k'.timer.timerTicks = k.timer.timerTicks + 1 ∨
        ¬ (IsIrq0 op ∨ GivesUp k op) ∧ k'.timer.timerTicks = k.timer.timerTicks) := by
  cases op with
  | irq0 esp =>
    obtain ⟨k', he, hi, ht⟩ := irqHandler_spec body h hf esp
    exact ⟨k', he, hi, .inl ⟨.inl trivial, ht⟩⟩
  | taskYield esp =>
    obtain ⟨k', he, hi, ht⟩ := irqHandler_spec body h hf esp
    exact ⟨k', he, hi, .inl ⟨.inr trivial, ht⟩⟩
  | taskSleep ticks esp =>
    by_cases h0 : ticks = 0
    · exact ⟨k, by simp [kernelCall, sleepTask, h0], h, .inr ⟨by simp [IsIrq0, GivesUp, h0], rfl⟩⟩
    · obtain ⟨k', he, hi, ht⟩ := sleepTask_spec body h hf h0 esp
      exact ⟨k', he, hi, .inl ⟨.inr h0, ht⟩⟩
  | processSleep ticks esp =>
    by_cases h0 : ticks = 0
    · exact ⟨k, by simp [kernelCall, sleepProcess, processSleep, h0], h,
        .inr ⟨by simp [IsIrq0, GivesUp, h0], rfl⟩⟩
    · obtain ⟨k', he, hi, ht⟩ := sleepProcess_spec body h hf h0 esp
      exact ⟨k', he, hi, .inl ⟨.inr h0, ht⟩⟩
  | mutexLock m esp =>
    by_cases h0 : (k.mutexes m).locked = 0
    · refine ⟨{ k with mutexes := Function.update k.mutexes m ⟨1, some k.tasking.current⟩ }, ?_,
        ⟨h.ring, h.current, h.handler⟩, .inr ⟨by simp [IsIrq0, GivesUp, h0], rfl⟩⟩
      simp [kernelCall, mutexTryLock, h0]
    · obtain ⟨k', he, hi, ht⟩ := sleepTask_spec body h hf (by decide : (1 : UInt32) ≠ 0) esp
      exact ⟨k', by simpa [kernelCall, mutexTryLock, h0] using he, hi, .inl ⟨.inr h0, ht⟩⟩
  | semWait i esp =>
    by_cases h0 : 0 < (k.sems i).count
    · refine ⟨{ k with sems := Function.update k.sems i { k.sems i with count := (k.sems i).count - 1 } }, ?_,
        ⟨h.ring, h.current, h.handler⟩, .inr ⟨by simp [IsIrq0, GivesUp, h0], rfl⟩⟩
      simp [kernelCall, semTake, h0]
    · obtain ⟨k', he, hi, ht⟩ := sleepTask_spec body h hf (by decide : (1 : UInt32) ≠ 0) esp
      refine ⟨k', ?_, hi, .inl ⟨.inr h0, ht⟩⟩
      simp only [kernelCall, semTake, h0, if_false]
      exact he
  | mutexUnlock m => exact ⟨_, rfl, ⟨h.ring, h.current, h.handler⟩, .inr ⟨by simp [IsIrq0, GivesUp], rfl⟩⟩
  | semPost i => exact ⟨_, rfl, ⟨h.ring, h.current, h.handler⟩, .inr ⟨by simp [IsIrq0, GivesUp], rfl⟩⟩
  | createTask entry priority =>
    obtain ⟨l, hl⟩ := h.ring
    exact ⟨_, rfl, ⟨hl.create entry priority, h.current, h.handler⟩, .inr ⟨by simp [IsIrq0, GivesUp], rfl⟩⟩
  | timer call =>
    exact ⟨_, rfl, ⟨h.ring, h.current, h.handler⟩,
      .inr ⟨by simp [IsIrq0, GivesUp], (timerCall_keeps k.timer call).1⟩⟩

end Steps

/-! ## Every run -/

/-- The clock shows the hardware timer interrupts since boot: `get_ticks` their number modulo `2^32`,
and `get_uptime_sec` that number by the frequency. -/
structure ClockExact (s : KernelSys) : Prop where
  ticks : (getTicks s.kernel.timer).toNat = s.irqs % 2 ^ 32
  uptime : (getUptimeSec s.kernel.timer).toNat = s.irqs % 2 ^ 32 / s.kernel.timer.timerFreqHz.toNat

section Runs

variable {body : Callbacks} {fuel : ℕ} {s s' : KernelSys}

theorem clockExact_iff : ClockExact s ↔ (getTicks s.kernel.timer).toNat = s.irqs % 2 ^ 32 := by
  refine ⟨fun h => h.ticks, fun h => ⟨h, ?_⟩⟩
  rw [getUptimeSec, UInt32.toNat_div]
  rw [getTicks] at h
  rw [h]

/-- The state after a step, and how ticks and interrupts have changed. -/
theorem kernelStep_spec (h : KernelInv s.kernel) (hf : 9 ≤ fuel) (op : KernelOp) :
    ∃ s', kernelStep body fuel s op = .ok s' ∧ KernelInv s'.kernel ∧
      ((getTicks s.kernel.timer).toNat = s.irqs % 2 ^ 32 →
        ((getTicks s'.kernel.timer).toNat = s'.irqs % 2 ^ 32 ↔ ¬ GivesUp s.kernel op)) := by
  obtain ⟨k', he, hi, ht⟩ := kernelCall_spec body h hf op
  have hadd : ∀ x : UInt32, (x + 1).toNat = (x.toNat + 1) % 2 ^ 32 := fun x => UInt32.toNat_add x 1
  have hlt := (getTicks s.kernel.timer).toNat_lt
  by_cases hirq : IsIrq0 op
  · refine ⟨{ kernel := k', irqs := s.irqs + 1 }, ?_, hi, fun hs => ?_⟩
    · cases op with
      | irq0 esp => simp only [kernelStep, he, ok_bind, pure_eq_ok]
      | _ => exact absurd hirq id
    · have hkeep : ¬ GivesUp s.kernel op := by
        cases op with
        | irq0 esp => exact id
        | _ => exact absurd hirq id
      rcases ht with ⟨-, ht⟩ | ⟨hn, -⟩
      · refine iff_of_true ?_ hkeep
        show k'.timer.timerTicks.toNat = (s.irqs + 1) % 2 ^ 32
        rw [ht, hadd]
        have hs' : s.kernel.timer.timerTicks.toNat = s.irqs % 2 ^ 32 := hs
        omega
      · exact absurd (.inl hirq) hn
  · refine ⟨{ kernel := k', irqs := s.irqs }, ?_, hi, fun hs => ?_⟩
    · cases op with
      | irq0 esp => exact absurd trivial hirq
      | _ => simp only [kernelStep, he, ok_bind, pure_eq_ok]
    · show k'.timer.timerTicks.toNat = s.irqs % 2 ^ 32 ↔ _
      have hs' : s.kernel.timer.timerTicks.toNat = s.irqs % 2 ^ 32 := hs
      rcases ht with ⟨hg, ht⟩ | ⟨hn, ht⟩
      · refine iff_of_false ?_ (fun hkeep => hkeep (hg.resolve_left hirq))
        rw [ht, hadd]
        omega
      · refine iff_of_true ?_ fun hg => hn (.inr hg)
        rw [ht, hs']

/-- What holds in the runs in which no task gives up the CPU. -/
structure ClockInv (s : KernelSys) : Prop where
  kernel : KernelInv s.kernel
  exact : ClockExact s

theorem bootKernel_inv (frequency : UInt32) (s₀ : Tasking) (p₀ : Procs) (sems : ℕ → Semaphore) :
    ClockInv (bootKernel frequency s₀ p₀ sems) :=
  ⟨⟨⟨_, initTasking_ring s₀⟩, ⟨0, rfl⟩, rfl⟩, clockExact_iff.mpr rfl⟩

end Runs

/-- **The clock counts the hardware timer interrupts in every state of a run of the kernel, exactly when
no step of the run gives up the CPU.** -/
theorem clock_exact_iff {fuel : ℕ} (hf : 9 ≤ fuel) (body : Callbacks) (frequency : UInt32) (s₀ : Tasking)
    (p₀ : Procs) (sems : ℕ → Semaphore) (ops : List KernelOp) :
    Along (kernelStep body fuel) (bootKernel frequency s₀ p₀ sems) ClockExact ops ↔
      AllSteps (kernelStep body fuel) (bootKernel frequency s₀ p₀ sems)
        (fun s op => ¬ GivesUp s.kernel op) ops := by
  refine along_iff_of_spec (bootKernel_inv frequency s₀ p₀ sems) (fun s h => h.exact) ?_ ops
  intro s op h
  obtain ⟨s', he, hi, hiff⟩ := kernelStep_spec h.kernel hf op
  refine ⟨s', he, fun hC => ⟨hi, clockExact_iff.mpr ((hiff h.exact.ticks).mpr hC)⟩, ?_⟩
  intro hP
  exact (hiff h.exact.ticks).mp hP.ticks

theorem clock_exact_two_interrupts :
    9 ≤ 9 ∧ Along (kernelStep (fun _ => []) 9)
      (bootKernel 100 (bootTasking 0) (bootProcs 0) fun _ => semInit 1 1) ClockExact
      [.mutexLock 0 0, .irq0 0, .createTask 4096 3, .irq0 0] := by
  refine ⟨le_rfl, (clock_exact_iff le_rfl _ _ _ _ _ _).mpr ?_⟩
  refine allSteps_cons.mpr ⟨fun h => h rfl, fun s _ => allSteps_cons.mpr ⟨id, fun s _ => ?_⟩⟩
  exact allSteps_cons.mpr ⟨id, fun s _ => allSteps_cons.mpr ⟨id, fun s _ => allSteps_nil⟩⟩

/-- One `task_yield` and no hardware interrupt: the clock shows one tick. -/
theorem yield_counts_as_tick :
    ¬ Along (kernelStep (fun _ => []) 9)
      (bootKernel 100 (bootTasking 0) (bootProcs 0) fun _ => semInit 1 1) ClockExact [.taskYield 0] := by
  apply not_along_of_returns (Q := fun s => getTicks s.kernel.timer = 1 ∧ s.irqs = 0)
  · decide +kernel
  · rintro s ⟨h1, h2⟩ hP
    have hticks := hP.ticks
    rw [h1, h2] at hticks
    exact absurd hticks (by decide)

end RtosKernel
