import RtosKernel.Proofs.ClockProofs
import RtosKernel.Proofs.ExclusionProofs
import RtosKernel.Proofs.PidProofs

/-!
# Proofs: a sleeping process

`process_sleep` puts the current process to sleep and interrupts on vector 32. `irq_handler` calls
`schedule` there, the scheduler of the tasks. The loop that wakes processes stands in `process_schedule`,
which nothing calls. So a process that sleeps does so for ever, however far the clock goes.
-/

namespace RtosKernel

open Lib

/-- The process can run. -/
def Awake (k : Kernel) (i : Slot) : Prop := k.procs.state i = .ready ∨ k.procs.state i = .running

/-- The process sleeps or has ended. -/
def Dormant (s : Procs) (i : Slot) : Prop := s.state i = .sleeping ∨ s.state i = .zombie

section Steps

variable {s s' : Procs} {i : Slot} {body : Callbacks} {fuel : ℕ} {k k' : Kernel}

theorem Dormant.used (h : Dormant s i) : s.state i ≠ .unused := by
  rcases h with h | h
  · rw [h]
    exact ProcState.noConfusion
  · rw [h]
    exact ProcState.noConfusion

/-- The state of a process is changed. -/
theorem Dormant.update {j : Slot} {q : Process} (h : Dormant s i)
    (hq : q.state = .sleeping ∨ q.state = .zombie) :
    Dormant (s.setProc j q) i := by
  unfold Dormant
  rw [Procs.setProc_state]
  by_cases hij : i = j
  · subst hij
    rw [Function.update_self]
    exact hq
  · rw [Function.update_of_ne hij]
    exact h

theorem Dormant.sleep (h : Dormant s i) {ticks now : UInt32} (hs : processSleep ticks now s = .ok s') :
    Dormant s' i := by
  rw [processSleep] at hs
  split at hs
  · rwa [← Except.ok.inj hs]
  · split at hs
    · cases hs
    · rw [← Except.ok.inj hs]
      exact h.update (.inl rfl)

theorem Dormant.exit (h : Dormant s i) (pid : UInt32) : Dormant (processExit pid s) i := by
  rw [processExit]
  split
  · exact h
  · exact h.update (.inr rfl)

/-- `process_create` takes a slot that is not in use. -/
theorem Dormant.create (h : Dormant s i) {name : List UInt8} {entry priority ppid : UInt32} {r : Int32}
    (hs : processCreate fuel name entry priority ppid s = .ok (r, s')) : Dormant s' i := by
  rcases processCreate_cases hs with ⟨-, -, rfl⟩ | ⟨j, hj, -, -, -, hstate, -, -⟩
  · exact h
  · have hne : i ≠ j := fun e => h.used (e ▸ (freeSlot_some hj).2)
    unfold Dormant
    rw [hstate, Function.update_of_ne hne]
    exact h

/-- A step of the kernel leaves the process table alone, or is a `process_sleep`. -/
theorem kernelCall_procs {op : KernelOp} (h : kernelCall body fuel k op = .ok k') :
    k'.procs = k.procs ∨ ∃ ticks now, processSleep ticks now k.procs = .ok k'.procs := by
  cases kernelCall_effect h with
  | keeps hm hs hp => exact hp
  | lock m mx hmx he => exact .inl (by rw [he])
  | unlock m he => exact .inl (by rw [he])
  | take i sem hsem he => exact .inl (by rw [he])
  | post i he => exact .inl (by rw [he])

/-- No step wakes a process. -/
theorem kernelProcStep_dormant {op : KernelProcOp} (h : Dormant k.procs i)
    (hs : kernelProcStep body fuel k op = .ok k') : Dormant k'.procs i := by
  cases op with
  | kernel op =>
    rcases kernelCall_procs hs with he | ⟨ticks, now, he⟩
    · rwa [he]
    · exact h.sleep he
  | processCreate name entry priority ppid =>
    obtain ⟨⟨r, p⟩, hc, hst⟩ := bind_eq_ok.mp hs
    rw [← Except.ok.inj hst]
    exact h.create hc
  | processExit pid =>
    rw [← Except.ok.inj hs]
    exact h.exit pid

/-- What keeps the steps of the kernel returning is kept also by the calls of the process API. -/
theorem kernelProcStep_inv (hf : 9 ≤ fuel) {op : KernelProcOp} (h : KernelInv k)
    (hs : kernelProcStep body fuel k op = .ok k') : KernelInv k' := by
  obtain ⟨c, hc⟩ := h.current
  cases op with
  | kernel op =>
    obtain ⟨k'', he, hi, -⟩ := kernelCall_spec body h hf op
    have hs' : kernelCall body fuel k op = .ok k' := hs
    rw [hs'] at he
    rwa [Except.ok.inj he]
  | processCreate name entry priority ppid =>
    obtain ⟨⟨r, p⟩, hcr, hst⟩ := bind_eq_ok.mp hs
    rw [← Except.ok.inj hst]
    rcases processCreate_cases hcr with ⟨-, -, rfl⟩ | ⟨j, -, -, -, hcur, -, -, -⟩
    · exact ⟨h.ring, ⟨c, hc⟩, h.handler⟩
    · exact ⟨h.ring, ⟨c, hcur.trans hc⟩, h.handler⟩
  | processExit pid =>
    rw [← Except.ok.inj hs]
    exact ⟨h.ring, ⟨c, (processExit_spec pid k.procs).2.2.1.trans hc⟩, h.handler⟩

/-- `m` timer interrupts move the clock by `m`. -/
theorem irqs_advance (body : Callbacks) (hf : 9 ≤ fuel) (h : KernelInv k) (esp : UInt32) (m : ℕ) :
    ∃ k', run (kernelProcStep body fuel) k (List.replicate m (.kernel (.irq0 esp))) = .ok k' ∧
      getTicks k'.timer = getTicks k.timer + UInt32.ofNat m := by
  induction m generalizing k with
  | zero => exact ⟨k, rfl, by simp⟩
  | succ m ih =>
    obtain ⟨k1, he, hi, ht⟩ := irqHandler_spec body h hf esp
    obtain ⟨k2, hr, ht2⟩ := ih hi
    have hstep : kernelProcStep body fuel k (.kernel (.irq0 esp)) = .ok k1 := he
    refine ⟨k2, by rw [List.replicate_succ, run, hstep]; exact hr, ?_⟩
    have ht1 : getTicks k1.timer = getTicks k.timer + 1 := ht
    rw [ht2, ht1, UInt32.ofNat_add, UInt32.add_assoc, UInt32.add_comm 1]
    rfl

end Steps

/-- **A process that sleeps never wakes up. In every run of the kernel a `process_sleep(n)` with `n > 0`
returns, the process is ready or running in no state after it, and all the same `n - 1` more timer
interrupts bring the clock to the tick at which it should wake.** -/
theorem sleeping_process_never_wakes {fuel : ℕ} (hf : 9 ≤ fuel) {body : Callbacks} {frequency : UInt32}
    {s₀ : Tasking} {p₀ : Procs} {sems : ℕ → Semaphore} {ops : List KernelProcOp} {k : Kernel}
    (hr : run (kernelProcStep body fuel) (bootKernel frequency s₀ p₀ sems).kernel ops = .ok k) {i : Slot}
    (hi : k.procs.current = some i) {n : UInt32} (hn : n ≠ 0) (esp : UInt32) :
    ∃ k1, kernelProcStep body fuel k (.kernel (.processSleep n esp)) = .ok k1 ∧
      (∀ later k2, run (kernelProcStep body fuel) k1 later = .ok k2 → ¬ Awake k2 i) ∧
      ∃ k2, run (kernelProcStep body fuel) k1 (List.replicate (n.toNat - 1) (.kernel (.irq0 esp))) = .ok k2 ∧
        getTicks k2.timer = getTicks k.timer + n := by
  have hboot : KernelInv (bootKernel frequency s₀ p₀ sems).kernel :=
    (bootKernel_inv frequency s₀ p₀ sems).kernel
  have hI : KernelInv k := run_inv (I := KernelInv) (fun _ _ _ h => kernelProcStep_inv hf h) hboot hr
  obtain ⟨k1, he, hi1, ht1⟩ := sleepProcess_spec body hI hf hn esp
  have hpos : 0 < n.toNat := by
    rw [Nat.pos_iff_ne_zero]
    exact fun h0 => hn (UInt32.toNat_inj.mp h0)
  refine ⟨k1, he, fun later k2 hlater => ?_, ?_⟩
  · have hp := (sleepProcess_keeps he).2
    have hasleep : Dormant k1.procs i := by
      rw [processSleep, if_neg hn, hi] at hp
      rw [← Except.ok.inj hp]
      refine .inl ?_
      rw [Procs.setProc_state, Function.update_self]
    have hend : Dormant k2.procs i :=
      run_inv (I := fun k => Dormant k.procs i) (fun _ _ _ => kernelProcStep_dormant) hasleep hlater
    rcases hend with hs | hs
    · simp [Awake, hs]
    · simp [Awake, hs]
  · obtain ⟨k2, hr2, ht2⟩ := irqs_advance body hf hi1 esp (n.toNat - 1)
    refine ⟨k2, hr2, ?_⟩
    have ht1' : getTicks k1.timer = getTicks k.timer + 1 := ht1
    have hsum : (1 : UInt32) + UInt32.ofNat (n.toNat - 1) = n := by
      rw [← UInt32.toNat_inj, UInt32.toNat_add, UInt32.toNat_ofNat']
      have h1 : (1 : UInt32).toNat = 1 := rfl
      have hlt := n.toNat_lt
      omega
    rw [ht2, ht1', UInt32.add_assoc, hsum]

/-- The kernel after boot. -/
def bootedKernel : Kernel := (bootKernel 100 (bootTasking 0) (bootProcs 0) fun _ => semInit 1 1).kernel

theorem sleeping_process_never_wakes_after_boot :
    ∃ k1, kernelProcStep (fun _ => []) 9 bootedKernel (.kernel (.processSleep 3 0)) = .ok k1 ∧
      (∀ later k2, run (kernelProcStep (fun _ => []) 9) k1 later = .ok k2 → ¬ Awake k2 0) ∧
      ∃ k2, run (kernelProcStep (fun _ => []) 9) k1 (List.replicate 2 (.kernel (.irq0 0))) = .ok k2 ∧
        getTicks k2.timer = getTicks bootedKernel.timer + 3 := by
  have hr : run (kernelProcStep (fun _ => []) 9) bootedKernel [] = .ok bootedKernel := rfl
  exact sleeping_process_never_wakes le_rfl hr rfl (by decide) 0

/-- `process_sleep(1)` right after boot: its own `int $32` moves the clock by one tick, and the process
sleeps on. -/
theorem process_sleeps_past_wake_tick :
    ¬ ∀ k1, kernelProcStep (fun _ => []) 9 bootedKernel (.kernel (.processSleep 1 0)) = .ok k1 →
      getTicks bootedKernel.timer + 1 ≤ getTicks k1.timer → Awake k1 0 := by
  intro h
  have hend : Returns (kernelProcStep (fun _ => []) 9 bootedKernel (.kernel (.processSleep 1 0))) fun k1 =>
      getTicks bootedKernel.timer + 1 ≤ getTicks k1.timer ∧ k1.procs.state 0 = .sleeping := by
    decide +kernel
  obtain ⟨k1, hk, ht, hs⟩ := hend
  rcases h k1 hk ht with ha | ha
  · rw [hs] at ha
    cases ha
  · rw [hs] at ha
    cases ha

end RtosKernel
