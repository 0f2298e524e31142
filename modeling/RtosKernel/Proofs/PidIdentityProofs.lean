import RtosKernel.Proofs.PidProofs

/-!
# Proofs: a pid names one process

From the `process_create` that returned it until `process_schedule` reaps the process, a pid belongs to one
slot (`Alive`), and afterwards to none (`Gone`): slots are used again with new pids, and the pid that a free
slot still has is not looked at.
-/

namespace RtosKernel

open Lib

instance (s : Procs) : (op : ProcOp) → Decidable (TakesSlot s op)
  | .create .. => inferInstanceAs (Decidable (freeSlot s ≠ none))
  | .exit _ => inferInstanceAs (Decidable False)
  | .sleep .. => inferInstanceAs (Decidable False)
  | .schedule .. => inferInstanceAs (Decidable False)

/-- The number of calls of `process_create` in the run that return a pid. -/
def created (fuel : ℕ) : Procs → List ProcOp → ℕ
  | _, [] => 0
  | s, op :: ops =>
    match procStep fuel s op with
    | .error _ => 0
    | .ok s' => (if TakesSlot s op then 1 else 0) + created fuel s' ops

/-- In the run from `s` a call of `process_schedule` reaps the process with the pid `pid` in slot `i`. -/
def Reaped (fuel : ℕ) (pid : UInt32) (i : Slot) (s : Procs) (ops : List ProcOp) : Prop :=
  ∃ pre esp now t t', pre ++ [.schedule esp now] <+: ops ∧ run (procStep fuel) s pre = .ok t ∧
    procStep fuel t (.schedule esp now) = .ok t' ∧ (t.pool i).pid = pid ∧ t.state i ≠ .unused ∧
    t'.state i = .unused

/-- The pid stands for the process in slot `i`: `process_get` finds it there, and `process_exit` changes its
state and nothing else. -/
structure Names (pid : UInt32) (i : Slot) (s : Procs) : Prop where
  get : processGet pid s = some i
  exit : processExit pid s = s.setProc i { s.pool i with state := .zombie }

/-- Slot `i` is in use with this pid. -/
def Alive (pid : UInt32) (i : Slot) (s : Procs) : Prop := s.state i ≠ .unused ∧ (s.pool i).pid = pid

/-- No slot in use has this pid. -/
def Gone (pid : UInt32) (s : Procs) : Prop := ∀ j, s.state j ≠ .unused → (s.pool j).pid ≠ pid

section Steps

variable {k fuel : ℕ} {s s' : Procs} {pid : UInt32} {i : Slot} {op : ProcOp}

/-- A process stays in its slot, unless `process_schedule` reaps it. -/
theorem Alive.step (hI : PidInv k s) (h : Alive pid i s) (hpid : pid ≠ 0) (hs : procStep fuel s op = .ok s') :
    Alive pid i s' ∨ ((∃ esp now, op = .schedule esp now) ∧ s'.state i = .unused ∧ Gone pid s') := by
  obtain ⟨hlive, rfl⟩ := h
  rcases procStep_slots hI hs with ⟨-, n, hn, -, -, hstate, -, hother⟩ | ⟨-, hp, hnew, -, hfree⟩
  · -- the slot that is taken was free, so it is another one
    have hin : i ≠ n := by
      rintro rfl
      exact hlive (freeSlot_some hn).2
    refine .inl ⟨?_, hother i hin⟩
    rw [hstate, Function.update_of_ne hin]
    exact hlive
  · by_cases hu : s'.state i = .unused
    · rcases hfree with hsch | hsame
      · refine .inr ⟨hsch, hu, fun j hj => ?_⟩
        have hij : j ≠ i := by
          rintro rfl
          exact hj hu
        rw [hp.pid]
        rcases hnew j hj with rfl | hj
        · rw [hI.idle]
          exact hpid.symm
        · exact hI.distinct j i hij hj hlive
      · exact absurd ((hsame i).mp hu) hlive
    · exact .inl ⟨hu, hp.pid i⟩

/-- A pid that was given out before is not given out again. -/
theorem Gone.step (hI : PidInv k s) (hk : TakesSlot s op → k + 1 < 2 ^ 32) (h : Gone pid s) (hpid : pid ≠ 0)
    (hle : pid.toNat ≤ k) (hs : procStep fuel s op = .ok s') : Gone pid s' := by
  intro j hj
  rcases procStep_slots hI hs with ⟨htakes, n, hn, -, -, hstate, hnpid, hother⟩ | ⟨-, hp, hnew, -⟩
  · by_cases hjn : j = n
    · subst hjn
      rw [hnpid]
      intro he
      have hnext := hI.nextPid
      have hlt := hk htakes
      rw [he, Nat.mod_eq_of_lt hlt] at hnext
      omega
    · rw [hother j hjn]
      rw [hstate, Function.update_of_ne hjn] at hj
      exact h j hj
  · rw [hp.pid]
    rcases hnew j hj with rfl | hj
    · rw [hI.idle]
      exact hpid.symm
    · exact h j hj

theorem Alive.names (hI : PidInv k s) (h : Alive pid i s) : Names pid i s := by
  obtain ⟨hlive, rfl⟩ := h
  have honly : ∀ j, s.state j ≠ .unused → (s.pool j).pid = (s.pool i).pid → j = i := by
    intro j hj he
    by_contra hne
    exact hI.distinct j i hne hj hlive he
  have hget : processGet (s.pool i).pid s = some i := by
    cases hfind : processGet (s.pool i).pid s with
    | none =>
      have hnone := List.find?_eq_none.mp hfind i (List.mem_finRange i)
      exact absurd (by simpa using hnone) hlive
    | some j =>
      have hj := List.find?_some hfind
      simp only [decide_eq_true_eq] at hj
      rw [honly j hj.1 hj.2]
  refine ⟨hget, ?_⟩
  have hsame : (List.finRange maxProcesses).find?
      (fun j => (s.pool j).pid = (s.pool i).pid ∧ s.state j ≠ .unused) = processGet (s.pool i).pid s := by
    simp only [processGet, and_comm]
  rw [processExit, hsame, hget]

theorem Gone.get (h : Gone pid s) : processGet pid s = none := by
  rw [processGet, List.find?_eq_none]
  intro j _ hj
  simp only [decide_eq_true_eq] at hj
  exact h j hj.1 hj.2

end Steps

section Runs

variable {k fuel : ℕ} {s s' : Procs} {ops : List ProcOp}

theorem created_append {post : List ProcOp} (h : run (procStep fuel) s ops = .ok s') :
    created fuel s (ops ++ post) = created fuel s ops + created fuel s' post := by
  induction ops generalizing s with
  | nil =>
    obtain rfl : s = s' := Except.ok.inj h
    rw [List.nil_append, created, Nat.zero_add]
  | cons op ops ih =>
    cases hs : procStep fuel s op with
    | error e => simp [run, hs] at h
    | ok t =>
      simp only [run, hs] at h
      simp only [List.cons_append, created, hs, ih h, Nat.add_assoc]

theorem created_singleton {op : ProcOp} (h : procStep fuel s op = .ok s') :
    created fuel s [op] = if TakesSlot s op then 1 else 0 := by
  simp only [created, h, Nat.add_zero]

/-- The number of processes that have been created. -/
theorem procRun_pidInv (hI : PidInv k s) (hk : k + created fuel s ops < 2 ^ 32)
    (hr : run (procStep fuel) s ops = .ok s') : PidInv (k + created fuel s ops) s' := by
  induction ops using List.reverseRecOn generalizing s' with
  | nil =>
    obtain rfl : s = s' := Except.ok.inj hr
    exact hI
  | append_singleton ops op ih =>
    obtain ⟨t, ht, hs⟩ := run_snoc_ok hr
    rw [created_append ht, created_singleton hs] at hk ⊢
    have hIt := ih (by omega) ht
    rcases procStep_pidInv hIt op hs with ⟨htakes, hI'⟩ | ⟨hno, hI'⟩
    · rw [if_pos htakes] at hk ⊢
      exact hI' hk
    · rw [if_neg hno]
      exact hI'

/-- After the process was created it is alive until it is reaped, and then gone. -/
theorem Alive.run {pid : UInt32} {i : Slot} (hI : PidInv k s) (h : Alive pid i s) (hpid : pid ≠ 0)
    (hk : k + created fuel s ops < 2 ^ 32) (hr : run (procStep fuel) s ops = .ok s') :
    (Alive pid i s' ∧ ¬ Reaped fuel pid i s ops) ∨ (Gone pid s' ∧ Reaped fuel pid i s ops) := by
  have hle : pid.toNat ≤ k := by
    rw [← h.2]
    exact hI.le i
  induction ops using List.reverseRecOn generalizing s' with
  | nil =>
    obtain rfl : s = s' := Except.ok.inj hr
    refine .inl ⟨h, ?_⟩
    rintro ⟨pre, esp, now, t, t', hpre, -⟩
    exact absurd hpre (by simp)
  | append_singleton ops op ih =>
    obtain ⟨t, ht, hs⟩ := run_snoc_ok hr
    rw [created_append ht, created_singleton hs] at hk
    have hIt := procRun_pidInv hI (by omega) ht
    rcases ih (by omega) ht with ⟨hal, hnot⟩ | ⟨hgone, hreap⟩
    · rcases hal.step hIt hpid hs with hal' | ⟨⟨esp, now, rfl⟩, hu, hgone⟩
      · refine .inl ⟨hal', ?_⟩
        rintro ⟨pre, esp, now, u, u', hpre, hu, hu', hupid, hulive, hfree⟩
        rcases List.prefix_concat_iff.mp hpre with he | hlt
        · -- the last call would have made the slot free
          obtain ⟨rfl, hop⟩ := List.append_inj' he rfl
          obtain rfl : ProcOp.schedule esp now = op := by simpa using hop
          obtain rfl : u = t := by
            rw [ht] at hu
            exact (Except.ok.inj hu).symm
          obtain rfl : u' = s' := by
            rw [hs] at hu'
            exact (Except.ok.inj hu').symm
          exact hal'.1 hfree
        · exact hnot ⟨pre, esp, now, u, u', hlt, hu, hu', hupid, hulive, hfree⟩
      · exact .inr ⟨hgone, ops, esp, now, t, s', List.prefix_rfl, ht, hs, hal.2, hal.1, hu⟩
    · have hk' : TakesSlot t op → k + created fuel s ops + 1 < 2 ^ 32 := by
        intro htakes
        rw [if_pos htakes] at hk
        omega
      obtain ⟨pre, esp, now, u, u', hpre, hrest⟩ := hreap
      exact .inr ⟨hgone.step hIt hk' hpid (by omega) hs, pre, esp, now, u, u',
        hpre.trans (List.prefix_append ..), hrest⟩

/-- A pid below `2^31` is read back from the `int` that `process_create` returns. -/
theorem toInt32_pos {pid : UInt32} (h0 : 0 < pid.toNat) (h : pid.toNat < 2 ^ 31) : 0 < pid.toInt32.toInt := by
  have hval : pid.toInt32.toInt =
      if 2 * pid.toNat < 2 ^ 32 then (pid.toNat : ℤ) else pid.toNat - (2 ^ 32 : ℕ) :=
    BitVec.toInt_eq_toNat_cond pid.toBitVec
  rw [hval, if_pos (by omega)]
  exact_mod_cast h0

/-- **Pids identify processes.** In every run of fewer than `2^31` successful calls of `process_create`,
mixed with the other calls, the pids of the slots in use are different. A pid that `process_create` returned
stands for the slot that it took until `process_schedule` reaps the process, and then for none. -/
theorem pids_identify_processes {s₀ : Procs} (hr : run (procStep fuel) (processInit s₀) ops = .ok s)
    (hn : created fuel (processInit s₀) ops < 2 ^ 31) :
    (∀ i j, i ≠ j → s.state i ≠ .unused → s.state j ≠ .unused → (s.pool i).pid ≠ (s.pool j).pid) ∧
    ∀ pre name entry priority ppid post s₁ r s₂,
      ops = pre ++ ProcOp.create name entry priority ppid :: post →
      run (procStep fuel) (processInit s₀) pre = .ok s₁ →
      processCreate fuel name entry priority ppid s₁ = .ok (r, s₂) → r ≠ -1 →
      ∃ i, freeSlot s₁ = some i ∧ 0 < r.toInt ∧ (s₂.pool i).pid = r.toUInt32 ∧
        (¬ Reaped fuel r.toUInt32 i s₂ post → Names r.toUInt32 i s) ∧
        (Reaped fuel r.toUInt32 i s₂ post → processGet r.toUInt32 s = none) := by
  have hI := procRun_pidInv (processInit_pidInv s₀) (by omega) hr
  refine ⟨hI.distinct, ?_⟩
  rintro pre name entry priority ppid post s₁ r s₂ rfl hpre hcr hr1
  have hs₁ : procStep fuel s₁ (.create name entry priority ppid) = .ok s₂ := by
    rw [procStep, hcr]
    rfl
  have hcons : pre ++ ProcOp.create name entry priority ppid :: post =
      (pre ++ [ProcOp.create name entry priority ppid]) ++ post := by simp
  have hmid : run (procStep fuel) (processInit s₀) (pre ++ [ProcOp.create name entry priority ppid]) =
      .ok s₂ := by
    rw [run_snoc hpre, hs₁]
  rw [hcons, created_append hmid] at hn
  rw [hcons, run_append hmid] at hr
  have hI₂ := procRun_pidInv (processInit_pidInv s₀) (by omega) hmid
  rcases processCreate_cases hcr with ⟨-, rfl, -⟩ | ⟨i, hi, rfl, hnext, -, hstate, hpid, -⟩
  · exact absurd rfl hr1
  · have hback : s₁.nextPid.toInt32.toUInt32 = s₁.nextPid := rfl
    have hlive : s₂.state i ≠ .unused := by
      rw [hstate, Function.update_self]
      exact ProcState.noConfusion
    have hal : Alive s₁.nextPid i s₂ := ⟨hlive, hpid⟩
    have hpos : s₁.nextPid ≠ 0 := by
      rw [← hpid]
      exact hI₂.pos i (freeSlot_some hi).1 hlive
    have hlt : s₁.nextPid.toNat < 2 ^ 31 := by
      have hle := hI₂.le i
      rw [hpid] at hle
      omega
    have hpos' : 0 < s₁.nextPid.toNat := by
      rw [Nat.pos_iff_ne_zero]
      exact fun e => hpos (UInt32.toNat_inj.mp e)
    refine ⟨i, hi, toInt32_pos hpos' hlt, hpid, ?_, ?_⟩
    · intro hnot
      rcases hal.run hI₂ hpos (by omega) hr with ⟨hal', -⟩ | ⟨-, hreap⟩
      · exact hal'.names hI
      · exact absurd hreap hnot
    · intro hreap
      rcases hal.run hI₂ hpos (by omega) hr with ⟨-, hnot⟩ | ⟨hgone, -⟩
      · exact absurd hreap hnot
      · exact hgone.get

/-- Two processes are created and the first one ends: its pid still stands for its slot. -/
theorem pids_identify_processes_zombie :
    ∃ s i, run (procStep 16) (processInit (bootProcs 0))
        [.create [97] 0x1000 1 0, .create [98] 0x2000 1 0, .exit 1] = .ok s ∧
      created 16 (processInit (bootProcs 0))
        [.create [97] 0x1000 1 0, .create [98] 0x2000 1 0, .exit 1] < 2 ^ 31 ∧ Names 1 i s := by
  have hn : created 16 (processInit (bootProcs 0))
      [.create [97] 0x1000 1 0, .create [98] 0x2000 1 0, .exit 1] < 2 ^ 31 := by decide
  obtain ⟨s₂, hs₂⟩ : ∃ s₂, processCreate 16 [97] 0x1000 1 0 (processInit (bootProcs 0)) = .ok (1, s₂) :=
    ⟨_, rfl⟩
  obtain ⟨s, hr⟩ : ∃ s, run (procStep 16) (processInit (bootProcs 0))
      [.create [97] 0x1000 1 0, .create [98] 0x2000 1 0, .exit 1] = .ok s := ⟨_, rfl⟩
  obtain ⟨-, hid⟩ := pids_identify_processes hr hn
  obtain ⟨i, -, -, -, hnames, -⟩ := hid [] [97] 0x1000 1 0 [.create [98] 0x2000 1 0, .exit 1] _ 1 s₂ rfl rfl
    hs₂ (by decide)
  refine ⟨s, i, hr, hn, hnames ?_⟩
  -- no call of `process_schedule` is in the run
  rintro ⟨pre, esp, now, t, t', hpre, -⟩
  have hmem : ProcOp.schedule esp now ∈ [ProcOp.create [98] 0x2000 1 0, .exit 1] := hpre.subset (by simp)
  simp at hmem

end Runs

end RtosKernel
