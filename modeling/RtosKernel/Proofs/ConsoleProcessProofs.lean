import RtosKernel.Console
import RtosKernel.Proofs.PidProofs
import RtosKernel.Proofs.PrintingProofs
import RtosKernel.Proofs.ProcessListProofs

/-!
# Proofs: the processes of the console

Only `spawn` creates a process, and nothing ends one. So the processes are those with the pids 0 to `n`, in the slots
0 to `n` and linked in this order (`ProcsUpTo`): `process_create` takes the next slot, as long as there is one.
-/

namespace RtosKernel

open Lib

/-- The first `n + 1` slots. -/
def firstSlots (n : ℕ) : List Slot := (List.finRange maxProcesses).take (n + 1)

/-- The processes after `n` calls of `process_create`. -/
structure ProcsUpTo (n : ℕ) (s : Procs) : Prop where
  lt : n < maxProcesses
  head : s.head = some 0
  current : s.current = some 0
  ring : IsRing s.next 0 (firstSlots n)
  used : ∀ i : Slot, s.state i ≠ .unused ↔ i.val ≤ n
  live : ∀ i, s.state i ≠ .zombie
  pid : ∀ i : Slot, i.val ≤ n → (s.pool i).pid = UInt32.ofNat i.val
  nextPid : s.nextPid = UInt32.ofNat (n + 1)

section Slots

variable {n : ℕ}

theorem firstSlots_length (hn : n < maxProcesses) : (firstSlots n).length = n + 1 := by
  simp only [firstSlots, List.length_take, List.length_finRange]
  omega

theorem filter_slots (hn : n < maxProcesses) :
    (List.finRange maxProcesses).filter (fun i => i.val ≤ n) = firstSlots n := by
  have hall : ∀ n : Fin maxProcesses,
      (List.finRange maxProcesses).filter (fun i => i.val ≤ n.val) = firstSlots n.val := by decide
  exact hall ⟨n, hn⟩

theorem mem_firstSlots (hn : n < maxProcesses) {i : Slot} : i ∈ firstSlots n ↔ i.val ≤ n := by
  rw [← filter_slots hn]
  simp

theorem firstSlots_succ (hn : n + 1 < maxProcesses) : firstSlots (n + 1) = firstSlots n ++ [⟨n + 1, hn⟩] := by
  rw [firstSlots, firstSlots, List.take_add_one, List.getElem?_eq_getElem (by simpa using hn)]
  simp

/-- The first slot behind the first `n + 1` ones. -/
theorem find_slot (hn : n < maxProcesses) :
    (List.finRange maxProcesses).find? (fun i => n < i.val) =
      if h : n + 1 < maxProcesses then some ⟨n + 1, h⟩ else none := by
  have hall : ∀ n : Fin maxProcesses, (List.finRange maxProcesses).find? (fun i => n.val < i.val) =
      if h : n.val + 1 < maxProcesses then some ⟨n.val + 1, h⟩ else none := by decide
  exact hall ⟨n, hn⟩

end Slots

section Processes

variable {n : ℕ} {s s' : Procs} {fuel : ℕ}

theorem ProcsUpTo.freeSlot_eq (h : ProcsUpTo n s) :
    freeSlot s = if h : n + 1 < maxProcesses then some ⟨n + 1, h⟩ else none := by
  rw [← find_slot h.lt, freeSlot]
  congr 1
  funext i
  have hused := h.used i
  rw [decide_eq_decide]
  constructor
  · rintro ⟨-, hi⟩
    exact not_le.mp fun hle => (hused.mpr hle) hi
  · intro hi
    exact ⟨by omega, not_not.mp fun hne => not_le.mpr hi (hused.mp hne)⟩

theorem processInit_upTo (s₀ : Procs) : ProcsUpTo 0 (processInit s₀) := by
  have hstate : ∀ i, i ≠ 0 → (processInit s₀).state i = .unused := by
    intro i hi
    simp [processInit, Procs.state, hi]
  have hzero : (processInit s₀).state 0 = .ready := by simp [processInit, Procs.state]
  refine ⟨by decide, rfl, rfl, (processInit_listInv s₀).1.ring, fun i => ?_, fun i => ?_, fun i hi => ?_, rfl⟩
  · by_cases hi : i = 0
    · rw [hi, hzero]
      decide
    · rw [hstate i hi]
      simpa using hi
  · by_cases hi : i = 0
    · rw [hi, hzero]
      decide
    · rw [hstate i hi]
      decide
  · obtain rfl : i = 0 := by simpa using hi
    rfl

/-- A change of the process table that leaves links and pids, and makes no process a zombie. -/
theorem ProcsUpTo.of_same (h : ProcsUpTo n s) (hnext : s'.next = s.next) (hhead : s'.head = s.head)
    (hcur : s'.current = s.current) (hpids : SamePids s s') (hstate : ∀ j, s'.state j = .unused ↔ s.state j = .unused)
    (hlive : ∀ i, s'.state i ≠ .zombie) : ProcsUpTo n s' := by
  refine ⟨h.lt, hhead.trans h.head, hcur.trans h.current, hnext ▸ h.ring, fun i => ?_, hlive, fun i hi => ?_,
    hpids.nextPid.trans h.nextPid⟩
  · rw [← h.used i]
    exact not_congr (hstate i)
  · rw [hpids.pid]
    exact h.pid i hi

theorem ProcsUpTo.sleep (h : ProcsUpTo n s) {ticks now : UInt32} (hs : processSleep ticks now s = .ok s') :
    ProcsUpTo n s' := by
  have hused : s.state 0 ≠ .unused := (h.used 0).mpr (Nat.zero_le n)
  obtain ⟨s'', he, hnext, hhead, hcur, hstate⟩ := processSleep_spec h.current hused ticks now
  obtain rfl : s'' = s' := Except.ok.inj (he.symm.trans hs)
  refine h.of_same hnext hhead hcur (processSleep_pids hs) hstate fun i => ?_
  rw [processSleep] at hs
  split at hs
  · obtain rfl := Except.ok.inj hs
    exact h.live i
  · rw [h.current] at hs
    obtain rfl := Except.ok.inj hs
    rw [Procs.setProc_state]
    by_cases hi : i = 0
    · rw [hi, Function.update_self]
      exact ProcState.noConfusion
    · rw [Function.update_of_ne hi]
      exact h.live i

/-- `process_create` takes the next slot and the next pid, or there is no slot. -/
theorem ProcsUpTo.create (h : ProcsUpTo n s) (hf : maxProcesses ≤ fuel) (name : List UInt8)
    (entry priority ppid : UInt32) :
    (n + 1 < maxProcesses ∧ ∃ s', processCreate fuel name entry priority ppid s =
      .ok ((UInt32.ofNat (n + 1)).toInt32, s') ∧ ProcsUpTo (n + 1) s') ∨
    (n + 1 = maxProcesses ∧ processCreate fuel name entry priority ppid s = .ok (-1, s)) := by
  have hfree := h.freeSlot_eq
  by_cases hn : n + 1 < maxProcesses
  · rw [dif_pos hn] at hfree
    obtain ⟨u, hu, -⟩ := h.ring.starts
    obtain ⟨p, t, hpt⟩ : ∃ p t, firstSlots n = p ++ [t] := by
      obtain hnil | ⟨p, t, hpt⟩ := List.eq_nil_or_concat (firstSlots n)
      · exact absurd (hu.symm.trans hnil) (List.cons_ne_nil _ _)
      · exact ⟨p, t, by rw [hpt, List.concat_eq_append]⟩
    have hlen : (p ++ [t]).length ≤ fuel := by
      rw [← hpt, firstSlots_length h.lt]
      exact (Nat.succ_le_of_lt h.lt).trans hf
    obtain ⟨r, s', hs, hnext, hstate, hhead, hcur⟩ :=
      processCreate_spec h.head (hpt ▸ h.ring) hfree hlen name entry priority ppid
    obtain ⟨hnone, -, -⟩ | ⟨i, hi, hr, hpid, -, -, hnew, hold⟩ := processCreate_cases hs
    · rw [hfree] at hnone
      cases hnone
    obtain rfl : ⟨n + 1, hn⟩ = i := Option.some.inj (hfree.symm.trans hi)
    have hnot : (⟨n + 1, hn⟩ : Slot) ∉ firstSlots n := by
      rw [mem_firstSlots h.lt]
      exact Nat.not_succ_le_self n
    refine .inl ⟨hn, s', by rw [hs, hr, h.nextPid], hn, hhead.trans h.head, hcur.trans h.current, ?_, fun i => ?_,
      fun i => ?_, fun i hi => ?_, ?_⟩
    · rw [firstSlots_succ hn, hnext, hpt, List.append_assoc]
      exact (hpt ▸ h.ring).append (hpt ▸ hnot)
    · rw [hstate]
      by_cases hi : i = ⟨n + 1, hn⟩
      · rw [hi, Function.update_self]
        simp
      · have hne : i.val ≠ n + 1 := fun e => hi (Fin.ext e)
        rw [Function.update_of_ne hi, h.used i]
        omega
    · rw [hstate]
      by_cases hi : i = ⟨n + 1, hn⟩
      · rw [hi, Function.update_self]
        decide
      · rw [Function.update_of_ne hi]
        exact h.live i
    · by_cases hin : i = ⟨n + 1, hn⟩
      · rw [hin, hnew, h.nextPid]
      · have hne : i.val ≠ n + 1 := fun e => hin (Fin.ext e)
        rw [hold i hin]
        exact h.pid i (by omega)
    · rw [hpid, h.nextPid]
      exact (UInt32.ofNat_add _ 1).symm
  · rw [dif_neg hn] at hfree
    have hlt := h.lt
    exact .inr ⟨by omega, processCreate_full hfree name entry priority ppid⟩

end Processes

end RtosKernel
