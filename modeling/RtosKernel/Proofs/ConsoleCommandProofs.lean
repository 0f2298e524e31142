import RtosKernel.Proofs.ConsoleProcessProofs
import RtosKernel.Proofs.HeapRunProofs
import RtosKernel.Proofs.PagingProofs
import RtosKernel.Proofs.ShellCommandProofs
import RtosKernel.Proofs.ShellProofs
import RtosKernel.Proofs.TaskAccountProofs
import RtosKernel.Proofs.VfsRunProofs

/-!
# Proofs: the commands of the console

A command returns and leaves the kernel as it should be (`KernelGood`), but for `reboot`, `shutdown` and the one
quotient of `calc` that does not fit (`consoleCommand_returns`). The arguments are texts that end in their rows.
-/

namespace RtosKernel

open Lib

/-- What the commands and the steps of the kernel keep. `test_alloc_ptr` is the only block that is held. -/
structure KernelGood (k : ConsoleKernel) : Prop where
  kernel : KernelInv k.kernel
  tasks : TasksCounted k.kernel.tasking
  clock : CpuAccounted k.kernel
  frequency : k.kernel.timer.timerFreqHz ≠ 0
  procs : ∃ n, ProcsUpTo n k.kernel.procs
  heap : ∃ bs live, HeapInv ⟨k.heap, live⟩ bs ∧
    live.map Prod.fst = if k.testAllocPtr = 0 then [] else [k.testAllocPtr]
  signals : k.signalLock = mutexInit
  paging : k.paging.lock = mutexInit
  files : VfsInv k.files

/-- The arguments are these texts, each with its NUL, and there is a first one. -/
structure HoldsArgs (argc : ℕ) (args : Args) (texts : List (List UInt8)) : Prop where
  count : argc = texts.length
  pos : 0 < argc
  row : ∀ i < argc, ∃ str : CString, str.chars = texts.getD i [] ∧ HoldsString (args i) str.chars ∧
    str.chars.length ≤ 31

/-- The command prints, and leaves the kernel as it should be. -/
def PrintsGood (r : Except CommandStop (List UInt8 × ConsoleKernel)) : Prop :=
  ∃ text k', r = .ok (text, k') ∧ KernelGood k'

/-- The command prints. -/
def PrintsText (r : Except CommandStop (List UInt8)) : Prop := ∃ text, r = .ok text

section Arguments

variable {argc : ℕ} {args : Args} {texts : List (List UInt8)}

theorem HoldsArgs.string (h : HoldsArgs argc args texts) {i : ℕ} (hi : i < argc) :
    ∃ str : CString, argString args i = .ok str ∧ str.chars = texts.getD i [] := by
  obtain ⟨str, hchars, hholds, hlen⟩ := h.row i hi
  exact ⟨str, argString_ok hholds hlen, hchars⟩

end Arguments

section Texts

variable {argc : ℕ} {args : Args} {texts : List (List UInt8)} {sh : Shell} {e : ConsoleEnv} {k : ConsoleKernel}

theorem cmdHistory_prints (h : ShellInv sh) : PrintsText (cmdHistory sh) := by
  unfold cmdHistory
  split
  · exact ⟨_, rfl⟩
  · have hrows := mapM_ok (ε := CommandStop) (l := List.range sh.historyCount) (f := fun i => do
        let dec ← printDec (UInt32.ofNat (i + 1))
        let row ← (historyRow i sh).mapError .shell
        let cmd ← (cString maxBuffer row).mapError .shell
        pure (say "  " ++ dec ++ say ": " ++ cmd.chars ++ say "\n"))
      (g := fun i => say "  " ++ decimal (UInt32.ofNat (i + 1)).toNat ++ say ": " ++
        readString maxBuffer (sh.commandHistory i) ++ say "\n") fun i hi => by
      have hi' := List.mem_range.mp hi
      have hrow := historyRow_ok (hi'.trans_le h.count_le) sh
      simp only [printDec_eq, ok_bind, hrow, cString_ok (h.entries i hi').ended, Except.mapError, pure_eq_ok]
    rw [hrows]
    exact ⟨_, rfl⟩

theorem cmdUptime_prints {t : Timer} (hf : t.timerFreqHz ≠ 0) : PrintsText (cmdUptime t) := by
  simp only [cmdUptime, uptimeSec, if_neg hf, printDec_eq, ok_bind, pure_eq_ok]
  exact ⟨_, rfl⟩

theorem cmdTicks_prints (t : Timer) : PrintsText (cmdTicks t) := by
  simp only [cmdTicks, printDec_eq, ok_bind, pure_eq_ok]
  exact ⟨_, rfl⟩

theorem cmdRing_prints (e : ConsoleEnv) : PrintsText (cmdRing e) := by
  simp only [cmdRing, printDec_eq, ok_bind, pure_eq_ok]
  exact ⟨_, rfl⟩

theorem cmdSys_prints (k : ConsoleKernel) : PrintsText (cmdSys k) := by
  simp only [cmdSys, printDec_eq, ok_bind, pure_eq_ok]
  exact ⟨_, rfl⟩

theorem cmdSem_prints : PrintsText cmdSem := ⟨_, rfl⟩

theorem taskLine_prints (t : Task) : PrintsText (taskLine t) := by
  cases hstate : t.state <;> simp only [taskLine, hstate, printDec_eq, ok_bind, pure_eq_ok] <;> exact ⟨_, rfl⟩

/-- `cmd_tasks` meets the tasks of the ring, each of them once. -/
theorem tasksFromCurrent_ok {s : Tasking} {l : List TaskRef} {fuel : ℕ} (hl : TaskRing s l) (hf : 9 ≤ fuel) :
    ∃ ts, tasksFromCurrent fuel s = .ok ts ∧ ts.Perm l := by
  obtain ⟨ts, hring, hperm⟩ := hl.ring.of_mem hl.current
  have hcopy : ∀ (ts us : List TaskRef), ts.foldl (fun acc t => acc ++ [t]) us = us ++ ts := by
    intro ts
    induction ts with
    | nil => simp
    | cons t ts ih => simp [ih]
  refine ⟨ts, ?_, hperm⟩
  have hloop : tasksFromCurrent fuel s = .ok (ts.foldl (fun acc t => acc ++ [t]) []) := by
    unfold tasksFromCurrent
    refine traverse_ring ?_ ?_ ?_
    · exact fun _ _ => rfl
    · exact hring
    · exact hperm.length_eq.trans_le (hl.length_le.trans hf)
  rw [hloop, hcopy, List.nil_append]

theorem cmdTasks_prints {s : Tasking} (h : ∃ l, TaskRing s l) (hf : 9 ≤ e.caller.fuel) : PrintsText (cmdTasks e s) := by
  obtain ⟨l, hl⟩ := h
  obtain ⟨ts, hts, -⟩ := tasksFromCurrent_ok hl hf
  choose line hline using taskLine_prints
  rw [cmdTasks, hts]
  simp only [Except.mapError, ok_bind, mapM_ok (l := ts) fun t _ => hline (s.tasks t), pure_eq_ok]
  exact ⟨_, rfl⟩

theorem processLine_prints (e : ConsoleEnv) (p : Process) : PrintsText (processLine e p) := by
  simp only [processLine, printUint_eq, Except.mapError, ok_bind, pure_eq_ok]
  exact ⟨_, rfl⟩

theorem cmdPs_prints (e : ConsoleEnv) (s : Procs) : PrintsText (cmdPs e s) := by
  choose line hline using processLine_prints e
  simp only [cmdPs, processList, mapM_ok fun i _ => hline (s.pool i), ok_bind, pure_eq_ok]
  exact ⟨_, rfl⟩

theorem cmdCat_prints (h : HoldsArgs argc args texts) {fs : Vfs} (hfs : VfsInv fs) : PrintsText (cmdCat argc args fs) := by
  unfold cmdCat
  split
  · exact ⟨_, rfl⟩
  · next hargc =>
    obtain ⟨name, hname, -⟩ := h.string (show 1 < argc by omega)
    rw [hname, ok_bind]
    cases hopen : vfsOpen name fs with
    | none => exact ⟨_, rfl⟩
    | some i =>
      have hused := List.find?_some hopen
      simp only [decide_eq_true_eq] at hused
      obtain ⟨-, content, -, -, hcontent, hlen, -⟩ := hfs i hused.1
      have hread : cString maxFileSize (fs i).content = .ok content := cString_holds hcontent hlen
      simp only [hread, Except.mapError, ok_bind, pure_eq_ok]
      exact ⟨_, rfl⟩

theorem cmdEcho_prints (h : HoldsArgs argc args texts) : PrintsText (cmdEcho argc args) := by
  have hwords := mapM_ok (ε := CommandStop) (l := List.range (argc - 1)) (f := fun a => do
      let word ← argString args (a + 1)
      pure (word.chars ++ if a + 1 < argc - 1 then [32] else []))
    (g := fun a => texts.getD (a + 1) [] ++ if a + 1 < argc - 1 then [32] else []) fun a ha => by
    have ha' := List.mem_range.mp ha
    obtain ⟨word, hword, hchars⟩ := h.string (show a + 1 < argc by omega)
    rw [hword, ok_bind, hchars]
    rfl
  rw [cmdEcho, hwords]
  exact ⟨_, rfl⟩

theorem hexdump_prints (h : HoldsArgs argc args texts) (m : Mem) :
    PrintsText (if argc < 2 then pure (say "\nUsage: hexdump <addr>") else (argString args 1).map (cmdHexdump m)) := by
  split
  · exact ⟨_, rfl⟩
  · next hargc =>
    obtain ⟨str, hstr, -⟩ := h.string (show 1 < argc by omega)
    rw [hstr]
    exact ⟨_, rfl⟩

/-- The only error of the switch of `cmd_calc` is the trap of its division. -/
theorem calcSwitch_cases (op : UInt8) (a b : Int32) :
    (∃ r, calcSwitch op a b = .ok r) ∨ calcSwitch op a b = .error .divideError := by
  unfold calcSwitch
  split
  · exact .inl ⟨_, rfl⟩
  split
  · exact .inl ⟨_, rfl⟩
  split
  · exact .inl ⟨_, rfl⟩
  split
  · split
    · exact .inl ⟨_, rfl⟩
    · unfold idiv
      split
      · exact .inr rfl
      · exact .inl ⟨_, rfl⟩
  · exact .inl ⟨_, rfl⟩

/-- `calc` returns unless it divides the smallest number by `-1`. -/
theorem cmdCalc_cases (h : HoldsArgs argc args texts) :
    PrintsText (cmdCalc argc args) ↔ ¬ (4 ≤ argc ∧ (texts.getD 2 []).head? = some 47 ∧
      DividesMinByMinusOne (texts.getD 1 []) (texts.getD 3 [])) := by
  by_cases hargc : 4 ≤ argc
  · obtain ⟨sa, ha, hsa, hla⟩ := h.row 1 (by omega)
    obtain ⟨op, hop, hsop, -⟩ := h.row 2 (by omega)
    obtain ⟨sb, hb, hsb, hlb⟩ := h.row 3 (by omega)
    have hchar : args 2 0 = 47 ↔ (texts.getD 2 []).head? = some 47 := by
      rw [hsop 0 (Nat.zero_le _), ← hop]
      cases op.chars with
      | nil => exact iff_of_false (by decide) (by simp)
      | cons c cs => simp
    rw [cmdCalc_eq hargc hsa hsb hla hlb, ← hchar, ← ha, ← hb]
    have htraps := @calcSwitch_traps_iff (args 2 0) (calcOperand sa.chars) (calcOperand sb.chars)
    rw [operand_eq_min, operand_eq_neg_one] at htraps
    have hcond : (4 ≤ argc ∧ args 2 0 = 47 ∧ DividesMinByMinusOne sa.chars sb.chars) ↔
        calcSwitch (args 2 0) (calcOperand sa.chars) (calcOperand sb.chars) = .error .divideError := by
      rw [htraps]
      exact and_iff_right hargc
    rw [hcond]
    obtain ⟨r, hr⟩ | herr := calcSwitch_cases (args 2 0) (calcOperand sa.chars) (calcOperand sb.chars)
    · rw [hr]
      exact iff_of_true ⟨_, rfl⟩ (by simp)
    · rw [herr]
      exact iff_of_false (by rintro ⟨text, ht⟩; cases ht) (not_not.mpr rfl)
  · have husage : cmdCalc argc args = .ok (CString.ofString "\nUsage: calc <n> <op> <m>").chars := if_pos (by omega)
    exact iff_of_true ⟨_, husage⟩ fun hall => hargc hall.1

end Texts

/-! ## Commands that change the kernel -/

section Changes

variable {argc : ℕ} {args : Args} {texts : List (List UInt8)} {e : ConsoleEnv} {k : ConsoleKernel}

theorem pagingGetFreePages_eq {c : Caller} {s : Paging} (hl : s.lock = mutexInit) (hf : 0 < c.fuel) :
    pagingGetFreePages c s = .ok (s.numFreePages, s) :=
  locked_pure (fun _ _ => rfl) hl hf

theorem pagingGetUsedPages_eq {c : Caller} {s : Paging} (hl : s.lock = mutexInit) (hf : 0 < c.fuel) :
    pagingGetUsedPages c s = .ok (s.numPages - s.numFreePages, s) :=
  locked_pure (fun _ _ => rfl) hl hf

theorem cmdSysinfo_good (hk : KernelGood k) (hf : 0 < e.caller.fuel) : PrintsGood (cmdSysinfo e k) := by
  simp only [cmdSysinfo, printDec_eq, pagingGetFreePages_eq hk.paging hf, Except.mapError, ok_bind, pure_eq_ok]
  exact ⟨_, _, rfl, hk⟩

theorem cmdPages_good (hk : KernelGood k) (hf : 0 < e.caller.fuel) : PrintsGood (cmdPages e k) := by
  simp only [cmdPages, printDec_eq, pagingGetFreePages_eq hk.paging hf, pagingGetUsedPages_eq hk.paging hf,
    Except.mapError, ok_bind, pure_eq_ok]
  exact ⟨_, _, rfl, hk⟩

theorem cmdVmmap_good (hk : KernelGood k) (hf : 0 < e.caller.fuel) : PrintsGood (cmdVmmap e k) := by
  simp only [cmdVmmap, printDec_eq, pagingGetFreePages_eq hk.paging hf, pagingGetUsedPages_eq hk.paging hf,
    Except.mapError, ok_bind, pure_eq_ok]
  exact ⟨_, _, rfl, hk⟩

/-- `kill` changes pending signals only, and logs. -/
theorem killLogged_good (hk : KernelGood k) (hf : 0 < e.caller.fuel) (pid : UInt32) (signum : ℤ) :
    ∃ err k', killLogged e pid signum k = .ok (err, k') ∧ KernelGood k' := by
  obtain ⟨err, herr⟩ := kill_eq (s := k.signals) hk.signals hf pid signum
  have hlock : (k.signals.send pid signum).lock = mutexInit := by
    unfold Signals.send
    split
    · exact hk.signals
    · exact hk.signals
  simp only [killLogged, herr, Except.mapError, ok_bind, pure_eq_ok]
  exact ⟨_, _, rfl, hk.kernel, hk.tasks, hk.clock, hk.frequency, hk.procs, hk.heap, hlock, hk.paging, hk.files⟩

theorem cmdTestsig_good (h : HoldsArgs argc args texts) (hk : KernelGood k) (hf : 0 < e.caller.fuel) :
    PrintsGood (cmdTestsigLogged e argc args k) := by
  unfold cmdTestsigLogged
  split
  · exact ⟨_, _, rfl, hk⟩
  · next hargc =>
    obtain ⟨arg, harg, -⟩ := h.string (show 1 < argc by omega)
    obtain ⟨err, k', hkill, hk'⟩ := killLogged_good hk hf (digitLoop UInt32.ofNat 0 arg.chars) sigTerm
    simp only [harg, ok_bind, hkill, printDec_eq, pure_eq_ok]
    exact ⟨_, _, rfl, hk'⟩

theorem KernelGood.setLog (hk : KernelGood k) (log : Log) : KernelGood { k with log := log } :=
  ⟨hk.kernel, hk.tasks, hk.clock, hk.frequency, hk.procs, hk.heap, hk.signals, hk.paging, hk.files⟩

/-- `loglevel` changes the level of the log only. -/
theorem cmdLoglevel_good (h : HoldsArgs argc args texts) (hk : KernelGood k) :
    PrintsGood ((cmdLoglevel argc args ⟨k.log, k.signals, []⟩).map fun (text, sk) =>
      (text, { k with log := sk.log })) := by
  unfold cmdLoglevel
  split
  · exact ⟨_, _, rfl, hk.setLog _⟩
  · next hargc =>
    obtain ⟨arg, harg, -⟩ := h.string (show 1 < argc by omega)
    simp only [harg, ok_bind, printDec_eq, pure_eq_ok]
    split
    · exact ⟨_, _, rfl, hk.setLog _⟩
    · exact ⟨_, _, rfl, hk.setLog _⟩

theorem cmdSpawn_good (h : HoldsArgs argc args texts) (hk : KernelGood k) (hf : maxProcesses ≤ e.caller.fuel) :
    PrintsGood (cmdSpawn e argc args k) := by
  have hcreate : ∀ name : CString, ∃ pid s',
      processCreate e.caller.fuel name.chars e.spawnedTaskFn 1 0 k.kernel.procs = .ok (pid, s') ∧
        KernelGood { k with kernel := { k.kernel with procs := s' } } := by
    intro name
    obtain ⟨n, hn⟩ := hk.procs
    obtain ⟨-, s', hs, hs'⟩ | ⟨-, hs⟩ := hn.create hf name.chars e.spawnedTaskFn 1 0
    · exact ⟨_, s', hs, ⟨hk.kernel.ring, ⟨0, hs'.current⟩, hk.kernel.handler⟩, hk.tasks, hk.clock, hk.frequency,
        ⟨n + 1, hs'⟩, hk.heap, hk.signals, hk.paging, hk.files⟩
    · exact ⟨_, _, hs, hk⟩
  unfold cmdSpawn
  by_cases hargc : 2 ≤ argc
  · obtain ⟨name, hname, -⟩ := h.string (show 1 < argc by omega)
    obtain ⟨pid, s', hs, hk'⟩ := hcreate name
    simp only [if_pos hargc, hname, hs, Except.mapError, ok_bind, printDec_eq, pure_eq_ok]
    split
    · exact ⟨_, _, rfl, hk'⟩
    · exact ⟨_, _, rfl, hk'⟩
  · obtain ⟨pid, s', hs, hk'⟩ := hcreate (.ofString "proc")
    simp only [if_neg hargc, hs, Except.mapError, ok_bind, printDec_eq, pure_eq_ok]
    split
    · exact ⟨_, _, rfl, hk'⟩
    · exact ⟨_, _, rfl, hk'⟩

theorem cmdMem_good (hk : KernelGood k) (hf : heapFuel ≤ e.caller.fuel) : PrintsGood (cmdMem e k) := by
  obtain ⟨bs, live, hI, -⟩ := hk.heap
  obtain ⟨u, hu, -⟩ := heapGetUsed_spec (c := e.caller) hI.blocks hI.canonical hI.mutex hf
  have hfree : heapGetFree e.caller k.heap = .ok (heapSize - u, k.heap) := by
    rw [heapGetFree, hu]
    rfl
  simp only [cmdMem, hu, hfree, Except.mapError, ok_bind, printDec_eq, pure_eq_ok]
  exact ⟨_, _, rfl, hk⟩

/-- The kernel with another heap, of which `ptr` is the only block that is held. -/
theorem KernelGood.setHeap (hk : KernelGood k) {heap : Heap} {ptr : UInt32} {bs : List Block}
    {live : List (UInt32 × UInt32)} (hI : HeapInv ⟨heap, live⟩ bs)
    (hlive : live.map Prod.fst = if ptr = 0 then [] else [ptr]) :
    KernelGood { k with heap := heap, testAllocPtr := ptr } :=
  ⟨hk.kernel, hk.tasks, hk.clock, hk.frequency, hk.procs, ⟨bs, live, hI, hlive⟩, hk.signals, hk.paging, hk.files⟩

/-- `alloc` takes a block if none is held. -/
theorem cmdAlloc_good (h : HoldsArgs argc args texts) (hk : KernelGood k) (hf : heapFuel ≤ e.caller.fuel) :
    PrintsGood ((cmdAlloc e.caller argc args k.testAllocPtr k.heap).map fun (text, ptr, heap) =>
      (text, { k with heap := heap, testAllocPtr := ptr })) := by
  obtain ⟨bs, live, hI, hlive⟩ := hk.heap
  unfold cmdAlloc
  by_cases h0 : k.testAllocPtr = 0
  · rw [if_pos h0, List.map_eq_nil_iff] at hlive
    subst hlive
    have halloc : ∀ sz : UInt32, ∃ p heap, kmalloc e.caller sz k.heap = .ok (p, heap) ∧
        KernelGood { k with heap := heap, testAllocPtr := p } := by
      intro sz
      obtain ⟨s', cs, hs', hI', -⟩ := kmallocStep_inv hI hf e.caller sz
      obtain ⟨⟨p, heap⟩, hkm, hst⟩ := bind_eq_ok.mp hs'
      obtain rfl := Except.ok.inj hst
      exact ⟨p, heap, hkm, hk.setHeap hI' (by split <;> rfl)⟩
    rw [if_neg (not_not.mpr h0)]
    by_cases hargc : 2 ≤ argc
    · obtain ⟨str, hstr, -⟩ := h.string (show 1 < argc by omega)
      obtain ⟨p, heap, hkm, hgood⟩ := halloc (if allocSize str.chars = 0 then 1024 else allocSize str.chars)
      simp only [if_pos hargc, hstr, hkm, Except.mapError, ok_bind, printDec_eq, pure_eq_ok]
      split
      · exact ⟨_, _, rfl, hgood⟩
      · exact ⟨_, _, rfl, hgood⟩
    · obtain ⟨p, heap, hkm, hgood⟩ := halloc 1024
      simp only [if_neg hargc, hkm, Except.mapError, ok_bind, printDec_eq, pure_eq_ok]
      split
      · exact ⟨_, _, rfl, hgood⟩
      · exact ⟨_, _, rfl, hgood⟩
  · rw [if_pos h0]
    exact ⟨_, _, rfl, hk⟩

theorem cmdFree_good (hk : KernelGood k) (hf : heapFuel ≤ e.caller.fuel) : PrintsGood (cmdFree e k) := by
  obtain ⟨bs, live, hI, hlive⟩ := hk.heap
  unfold cmdFree
  by_cases h0 : k.testAllocPtr = 0
  · rw [if_pos h0]
    exact ⟨_, _, rfl, hk⟩
  · rw [if_neg h0]
    rw [if_neg h0] at hlive
    obtain ⟨a, rest, rfl, ha, hrest⟩ := List.map_eq_cons_iff.mp hlive
    obtain rfl := List.map_eq_nil_iff.mp hrest
    obtain ⟨s', b, hs', -, -, hI', hlive', -⟩ := kfreeStep_inv hI hf e.caller (List.mem_singleton_self a)
    rw [heapStep, if_pos (by simp)] at hs'
    obtain ⟨heap, hkf, hst⟩ := bind_eq_ok.mp hs'
    have hkf' : kfree e.caller k.testAllocPtr k.heap = .ok heap := ha ▸ hkf
    obtain rfl := Except.ok.inj hst
    simp only [hkf', Except.mapError, ok_bind, pure_eq_ok]
    exact ⟨_, _, rfl, hk.setHeap hI' (by simp)⟩

end Changes

/-! ## The branches of `execute_command` -/

/-- The branch does not return: the machine stops, or the division of `calc` traps. -/
def Command.Stops (texts : List (List UInt8)) : Command → Prop
  | .reboot => True
  | .shutdown => True
  | .calc => 4 ≤ texts.length ∧ (texts.getD 2 []).head? = some 47 ∧
      DividesMinByMinusOne (texts.getD 1 []) (texts.getD 3 [])
  | _ => False

section Branches

variable {argc : ℕ} {args : Args} {texts : List (List UInt8)} {sh : Shell} {e : ConsoleEnv} {k : ConsoleKernel}

/-- The branch returns, and leaves the kernel as it should be. -/
def ReturnsGood (r : Except ConsoleStop (List Output × ConsoleKernel)) : Prop :=
  ∃ outs k', r = .ok (outs, k') ∧ KernelGood k'

theorem PrintsGood.returns {r : Except CommandStop (List UInt8 × ConsoleKernel)} (h : PrintsGood r) :
    ReturnsGood (prints r) := by
  obtain ⟨text, k', rfl, hk⟩ := h
  exact ⟨_, _, rfl, hk⟩

theorem PrintsText.returns {r : Except CommandStop (List UInt8)} (h : PrintsText r) (hk : KernelGood k) :
    ReturnsGood (printsOnly k r) := by
  obtain ⟨text, rfl⟩ := h
  exact ⟨_, _, rfl, hk⟩

theorem unknown_prints (h : HoldsArgs argc args texts) : PrintsText ((argString args 0).map fun name =>
    say "\nUnknown: '" ++ name.chars ++ say "'  (type 'help')") := by
  obtain ⟨name, hname, -⟩ := h.string h.pos
  rw [hname]
  exact ⟨_, rfl⟩

/-- **A branch returns unless it stops.** -/
theorem consoleCommand_returns (h : HoldsArgs argc args texts) (hsh : ShellInv sh) (hk : KernelGood k)
    (hf : heapFuel ≤ e.caller.fuel) {cmd : Command} (hcmd : ¬ cmd.Stops texts) :
    ReturnsGood (consoleCommand e cmd argc args sh k) := by
  have hfuel : heapFuel = 4194304 := rfl
  have hf0 : 0 < e.caller.fuel := by omega
  match cmd, hcmd with
  | .help, _ => exact PrintsText.returns ⟨_, rfl⟩ hk
  | .history, _ => exact (cmdHistory_prints hsh).returns hk
  | .clear, _ => exact ⟨_, _, rfl, hk⟩
  | .uptime, _ => exact (cmdUptime_prints hk.frequency).returns hk
  | .ticks, _ => exact (cmdTicks_prints _).returns hk
  | .sysinfo, _ => exact (cmdSysinfo_good hk hf0).returns
  | .logs, _ => exact PrintsText.returns ⟨_, rfl⟩ hk
  | .loglevel, _ => exact (cmdLoglevel_good h hk).returns
  | .logclear, _ => exact PrintsGood.returns ⟨_, _, rfl, hk.setLog _⟩
  | .pages, _ => exact (cmdPages_good hk hf0).returns
  | .vmmap, _ => exact (cmdVmmap_good hk hf0).returns
  | .ring, _ => exact (cmdRing_prints e).returns hk
  | .siglist, _ => exact PrintsText.returns ⟨_, rfl⟩ hk
  | .testsig, _ => exact (cmdTestsig_good h hk hf0).returns
  | .tasks, _ => exact (cmdTasks_prints hk.kernel.ring (by omega)).returns hk
  | .ps, _ => exact (cmdPs_prints e _).returns hk
  | .spawn, _ => exact (cmdSpawn_good h hk ((by decide : maxProcesses ≤ 16).trans (by omega))).returns
  | .mem, _ => exact (cmdMem_good hk hf).returns
  | .alloc, _ => exact (cmdAlloc_good h hk hf).returns
  | .free, _ => exact (cmdFree_good hk hf).returns
  | .hexdump, _ => exact (hexdump_prints h _).returns hk
  | .ls, _ => exact PrintsText.returns ⟨_, rfl⟩ hk
  | .cat, _ => exact (cmdCat_prints h hk.files).returns hk
  | .echo, _ => exact (cmdEcho_prints h).returns hk
  | .calc, hcmd => exact ((cmdCalc_cases h).mpr (h.count ▸ hcmd)).returns hk
  | .sem, _ => exact cmdSem_prints.returns hk
  | .sys, _ => exact (cmdSys_prints k).returns hk
  | .reboot, hcmd => exact absurd trivial hcmd
  | .shutdown, hcmd => exact absurd trivial hcmd
  | .unknown, _ => exact (unknown_prints h).returns hk

theorem consoleCommand_stops (h : HoldsArgs argc args texts) {cmd : Command} (hcmd : cmd.Stops texts) :
    ∃ err, consoleCommand e cmd argc args sh k = .error err := by
  by_cases hcalc : cmd = .calc
  · subst hcalc
    have hnot : ¬ PrintsText (cmdCalc argc args) := fun hp => (cmdCalc_cases h).mp hp (h.count ▸ hcmd)
    rw [consoleCommand]
    cases hr : cmdCalc argc args with
    | error err => exact ⟨_, rfl⟩
    | ok text => exact absurd ⟨text, hr⟩ hnot
  · cases cmd with
    | reboot => exact ⟨_, rfl⟩
    | shutdown => exact ⟨_, rfl⟩
    | _ => first | exact hcmd.elim | exact absurd rfl hcalc

end Branches

/-! ## The lines that stop the machine -/

/-- The words of the line, as `split_args` cuts it, are `reboot`, `shutdown`, or a division of the smallest number
by `-1`. -/
def HaltsTexts (texts : List (List UInt8)) : Prop :=
  texts.head? = some (say "reboot") ∨ texts.head? = some (say "shutdown") ∨
    texts.head? = some (say "calc") ∧ 4 ≤ texts.length ∧ (texts.getD 2 []).head? = some 47 ∧
      DividesMinByMinusOne (texts.getD 1 []) (texts.getD 3 [])

theorem commandOf_eq_iff {name : CString} {text : String} {c : Command} (hc : commandOf (.ofString text) = c)
    (hone : ∀ p ∈ commandNames, p.2 = c → p.1 = text) (hne : c ≠ .unknown) :
    commandOf name = c ↔ name.chars = say text := by
  constructor
  · intro h
    unfold commandOf at h
    split at h
    · next p hp =>
      have hname := List.find?_some hp
      rw [decide_eq_true_eq, shStrcmp_eq_zero] at hname
      rw [hname, hone p (List.mem_of_find?_eq_some hp) h, say]
    · exact absurd h.symm hne
  · intro h
    have hname : name = .ofString text := by
      cases name
      exact CString.mk.injEq .. ▸ h
    rw [hname, hc]

theorem haltsTexts_iff {name : CString} {texts : List (List UInt8)} (hname : texts.head? = some name.chars) :
    HaltsTexts texts ↔ (commandOf name).Stops texts := by
  have hreboot : name.chars = say "reboot" ↔ commandOf name = .reboot :=
    (commandOf_eq_iff (by decide) (by decide) (by decide)).symm
  have hshutdown : name.chars = say "shutdown" ↔ commandOf name = .shutdown :=
    (commandOf_eq_iff (by decide) (by decide) (by decide)).symm
  have hcalc : name.chars = say "calc" ↔ commandOf name = .calc :=
    (commandOf_eq_iff (by decide) (by decide) (by decide)).symm
  rw [HaltsTexts, hname, Option.some_inj, Option.some_inj, Option.some_inj, hreboot, hshutdown, hcalc]
  cases commandOf name <;> simp [Command.Stops]

end RtosKernel
