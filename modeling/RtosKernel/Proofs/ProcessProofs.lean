import RtosKernel.Lib.Scan
import RtosKernel.Process

/-!
# The process list: what the calls do to it

One specification lemma for each call of `process.c`, in terms of the links, the slot states, the head
and the current process. The list that starts at `proc_list_head` always comes back to it
(`ListInv`): every call keeps that, and `process_create` is the only one that changes the links. It
links its slot in behind the last node of the list. When that slot is still on the list, the nodes
behind it fall off (`listAfterCreate`).
-/

namespace RtosKernel

open Lib

section Calls

variable {s : Procs} {i t : Slot} {l p : List Slot} {fuel : ℕ}

@[simp] theorem Procs.setProc_next (s : Procs) (i : Slot) (q : Process) :
    (s.setProc i q).next = Function.update s.next i q.next := by
  funext j
  by_cases h : j = i
  · subst h
    simp [Procs.next, Procs.setProc]
  · simp [Procs.next, Procs.setProc, h]

@[simp] theorem Procs.setProc_state (s : Procs) (i : Slot) (q : Process) :
    (s.setProc i q).state = Function.update s.state i q.state := by
  funext j
  by_cases h : j = i
  · subst h
    simp [Procs.state, Procs.setProc]
  · simp [Procs.state, Procs.setProc, h]

@[simp] theorem Procs.setProc_pool (s : Procs) (i : Slot) (q : Process) : (s.setProc i q).pool i = q := by
  simp [Procs.setProc]

@[simp] theorem Procs.setProc_head (s : Procs) (i : Slot) (q : Process) : (s.setProc i q).head = s.head := rfl

@[simp] theorem Procs.setProc_current (s : Procs) (i : Slot) (q : Process) :
    (s.setProc i q).current = s.current := rfl

/-- Writing a control block without its link keeps all links. -/
theorem Procs.setProc_keeps_next (s : Procs) (i : Slot) (q : Process) (h : q.next = s.next i) :
    (s.setProc i q).next = s.next := by
  rw [Procs.setProc_next, h, Function.update_eq_self]

/-! ## `process_create` -/

theorem freeSlot_some (h : freeSlot s = some i) : i ≠ 0 ∧ s.state i = .unused := by
  have := List.find?_some h
  simp only [decide_eq_true_eq] at this
  exact ⟨fun e => by simp [e] at this, this.2⟩

/-- The loop of `process_create` stops at the last node of the list. -/
theorem tail_loop {x h : Slot} (hp : Path s.next x (l ++ [t]) h) (hl : h ∉ (l ++ [t]).tail)
    (hn : (l ++ [t]).length ≤ fuel) : loop Stop.spent (tailBody s h) fuel x = .ok t := by
  induction l generalizing x fuel with
  | nil =>
    obtain ⟨rfl, c, hc, hh⟩ := hp
    obtain rfl : c = h := hh
    obtain ⟨n, rfl⟩ : ∃ k, fuel = k + 1 := ⟨fuel - 1, by simp at hn; omega⟩
    exact loop_exit (by simp [tailBody, hc])
  | cons y l ih =>
    obtain ⟨rfl, c, hc, hp⟩ := hp
    obtain ⟨n, rfl⟩ : ∃ k, fuel = k + 1 := ⟨fuel - 1, by simp at hn; omega⟩
    have hmem : c ∈ l ++ [t] := by
      cases l with
      | nil => simp [hp.1]
      | cons z l => simp [hp.1]
    have hch : c ≠ h := by
      rintro rfl
      exact hl (by simpa using hmem)
    rw [loop_next (t := c) (by simp [tailBody, hc, hch])]
    refine ih hp (fun hm => hl ?_) (by simpa using hn)
    simpa using List.mem_of_mem_tail hm

/-- `process_create` with a free slot `i`: the slot becomes ready and is linked in between the last
node of the list and its head. -/
theorem processCreate_spec (hh : s.head = some 0) (hr : IsRing s.next 0 (p ++ [t]))
    (hi : freeSlot s = some i) (hn : (p ++ [t]).length ≤ fuel) (name : List UInt8)
    (entry priority ppid : UInt32) :
    ∃ r s', processCreate fuel name entry priority ppid s = .ok (r, s') ∧
      s'.next = Function.update (Function.update s.next t (some i)) i (some 0) ∧
      s'.state = Function.update s.state i .ready ∧ s'.head = s.head ∧ s'.current = s.current := by
  obtain ⟨u, hu, h0⟩ := hr.starts
  set q := newProcess (s.pool i) s.nextPid name entry priority ppid
    (s.poolAddr + sizeofProcess * UInt32.ofNat i.val + procStackOffset) with hq
  set s1 := { s.setProc i q with nextPid := s.nextPid + 1 } with hs1
  have hnext : s1.next = s.next := s.setProc_keeps_next i q rfl
  have hstate : s1.state = Function.update s.state i .ready := s.setProc_state i q
  have hloop : loop Stop.spent (tailBody s1 0) fuel 0 = .ok t := by
    refine tail_loop (by rw [hnext]; exact hr.path) ?_ hn
    rw [hu]
    exact h0
  refine ⟨s.nextPid.toInt32, linkLast t i s1, ?_, ?_, ?_, rfl, rfl⟩
  · have hh1 : (s.setProc i q).head = some 0 := hh
    simp only [processCreate, hi]
    rw [← hq, ← hs1]
    simp only [hh1]
    rw [hloop]
    rfl
  · have hh1 : s1.head = some 0 := hh
    simp [linkLast, hnext, hh1]
  · have hkeep : ∀ (a : Procs) (j : Slot) (o : Option Slot),
        (a.setProc j { a.pool j with next := o }).state = a.state := by
      intro a j o
      rw [Procs.setProc_state]
      exact Function.update_eq_self j a.state
    simp only [linkLast, hkeep, hstate]

theorem processCreate_full (hi : freeSlot s = none) (name : List UInt8) (entry priority ppid : UInt32) :
    processCreate fuel name entry priority ppid s = .ok (-1, s) := by
  simp [processCreate, hi]

/-! ## `process_exit` and `process_sleep` -/

/-- `process_exit` changes states only, and makes no slot free. -/
theorem processExit_spec (pid : UInt32) (s : Procs) :
    (processExit pid s).next = s.next ∧ (processExit pid s).head = s.head ∧
      (processExit pid s).current = s.current ∧
      ∀ j, (processExit pid s).state j = .unused ↔ s.state j = .unused := by
  rw [processExit]
  split
  · exact ⟨rfl, rfl, rfl, fun j => Iff.rfl⟩
  · next i hi =>
    have hlive := List.find?_some hi
    simp only [decide_eq_true_eq] at hlive
    refine ⟨s.setProc_keeps_next i _ rfl, rfl, rfl, fun j => ?_⟩
    rw [Procs.setProc_state]
    by_cases hj : j = i
    · subst hj
      simp [hlive.2]
    · rw [Function.update_of_ne hj]

/-- `process_sleep` changes the state of the current process only, and makes no slot free. -/
theorem processSleep_spec {c : Slot} (hc : s.current = some c) (hlive : s.state c ≠ .unused)
    (ticks now : UInt32) :
    ∃ s', processSleep ticks now s = .ok s' ∧ s'.next = s.next ∧ s'.head = s.head ∧
      s'.current = s.current ∧ ∀ j, s'.state j = .unused ↔ s.state j = .unused := by
  by_cases h0 : ticks = 0
  · exact ⟨s, by simp [processSleep, h0], rfl, rfl, rfl, fun j => Iff.rfl⟩
  · have hs : processSleep ticks now s = .ok (s.setProc c
        { s.pool c with sleepTicks := ticks, wakeTick := now + ticks, state := .sleeping }) := by
      simp only [processSleep, h0, if_false, hc, pure_eq_ok]
    refine ⟨_, hs, s.setProc_keeps_next c _ rfl, rfl, rfl, fun j => ?_⟩
    rw [Procs.setProc_state]
    by_cases hj : j = c
    · subst hj
      simp [hlive]
    · rw [Function.update_of_ne hj]

/-! ## `process_schedule` -/

/-- The table `s'` comes from `s` by ageing some slots: the links stay, and no slot gets taken. -/
structure Aged (s s' : Procs) : Prop where
  next : s'.next = s.next
  head : s'.head = s.head
  current : s'.current = s.current
  live : ∀ i, s'.state i ≠ .unused → s.state i ≠ .unused

theorem Aged.refl (s : Procs) : Aged s s := ⟨rfl, rfl, rfl, fun _ h => h⟩

theorem Aged.trans {s s' s'' : Procs} (h : Aged s s') (h' : Aged s' s'') : Aged s s'' :=
  ⟨h'.next.trans h.next, h'.head.trans h.head, h'.current.trans h.current,
    fun i hi => h.live i (h'.live i hi)⟩

/-- Rewriting one control block without its link, and not from unused to used. -/
theorem Aged.setProc {q : Process} (hn : q.next = s.next i) (hq : q.state ≠ .unused → s.state i ≠ .unused) :
    Aged s (s.setProc i q) := by
  refine ⟨s.setProc_keeps_next i q hn, rfl, rfl, fun j hj => ?_⟩
  rw [Procs.setProc_state] at hj
  by_cases h : j = i
  · subst h
    rw [Function.update_self] at hj
    exact hq hj
  · rwa [Function.update_of_ne h] at hj

theorem ageProc_live (now : UInt32) (q : Process) (h : (ageProc now q).state ≠ .unused) :
    q.state ≠ .unused := by
  intro hq
  exact h (by simp [ageProc, hq])

/-- The first loop of `process_schedule` changes the state and counts the time. -/
theorem ageProc_fields (now : UInt32) (q : Process) :
    ageProc now q = { q with state := (ageProc now q).state, cpuTime := q.cpuTime + 1 } := by
  simp only [ageProc]
  split <;> split <;> rfl

theorem ageProc_next (now : UInt32) (q : Process) : (ageProc now q).next = q.next := by
  rw [ageProc_fields]

theorem saveCurrent_live (esp : UInt32) (q : Process) (h : (saveCurrent esp q).state ≠ .unused) :
    q.state ≠ .unused := by
  intro hq
  exact h (by simp [saveCurrent, hq])

/-- A control block with the context of the current process `c` saved. -/
def savedProc (s : Procs) (c : Slot) (esp : UInt32) (i : Slot) : Process :=
  if i = c then saveCurrent esp (s.pool i) else s.pool i

/-- A control block after the first loop of `process_schedule`, called with `esp` at the tick `now` in `s` with
the list `l`. -/
def agedProc (s : Procs) (c : Slot) (l : List Slot) (esp now : UInt32) : Slot → Process :=
  rewriteOn l (ageProc now) (savedProc s c esp)

/-- The table after the call if it gives the CPU to `b`. -/
def runProc (s : Procs) (c : Slot) (l : List Slot) (esp now : UInt32) (b : Slot) : Procs :=
  { s with
    pool := Function.update (agedProc s c l esp now) b { agedProc s c l esp now b with state := .running }
    current := some b }

section Schedule

variable {c h n b : Slot} {o : List Slot} {esp now : UInt32}

theorem savedProc_fields (i : Slot) :
    savedProc s c esp i = { s.pool i with
      esp := if i = c then esp else (s.pool i).esp
      state := (savedProc s c esp i).state } := by
  rw [savedProc]
  split
  · rfl
  · rfl

/-- What a call of `process_schedule` changes in a control block, before it has chosen. -/
theorem agedProc_fields (i : Slot) :
    agedProc s c l esp now i = { s.pool i with
      esp := if i = c then esp else (s.pool i).esp
      state := (agedProc s c l esp now i).state
      cpuTime := (agedProc s c l esp now i).cpuTime } := by
  by_cases hi : i ∈ l
  · rw [agedProc, rewriteOn_of_mem hi, ageProc_fields, savedProc_fields]
  · rw [agedProc, rewriteOn_of_notMem hi, savedProc_fields]

theorem runProc_pool_self :
    (runProc s c l esp now b).pool b = { agedProc s c l esp now b with state := .running } :=
  Function.update_self ..

theorem runProc_pool_of_ne {i : Slot} (hi : i ≠ b) : (runProc s c l esp now b).pool i = agedProc s c l esp now i :=
  Function.update_of_ne hi ..

/-- What the whole call changes. -/
theorem runProc_fields (i : Slot) :
    (runProc s c l esp now b).pool i = { s.pool i with
      esp := if i = c then esp else (s.pool i).esp
      state := (runProc s c l esp now b).state i
      cpuTime := (agedProc s c l esp now i).cpuTime } := by
  by_cases hi : i = b
  · subst hi
    rw [Procs.state, runProc_pool_self, agedProc_fields]
  · rw [Procs.state, runProc_pool_of_ne hi, agedProc_fields]

/-- The call takes no slot. -/
theorem agedProc_live (i : Slot) (hi : (agedProc s c l esp now i).state ≠ .unused) : s.state i ≠ .unused := by
  have hsaved : (savedProc s c esp i).state ≠ .unused := by
    rw [agedProc, rewriteOn] at hi
    split at hi
    · exact ageProc_live now _ hi
    · exact hi
  rw [savedProc] at hsaved
  split at hsaved
  · exact saveCurrent_live esp _ hsaved
  · exact hsaved

theorem runProc_next : (runProc s c l esp now b).next = s.next := by
  funext i
  rw [Procs.next, runProc_fields]
  rfl

theorem agedProc_next : Procs.next { s with pool := agedProc s c l esp now } = s.next := by
  funext i
  show (agedProc s c l esp now i).next = _
  rw [agedProc_fields]
  rfl

/-- The first loop of `process_schedule`, behind the saved context. -/
theorem agePass_eq (hh : s.head = some h) (hr : IsRing s.next h l) (hn : l.length ≤ fuel) (c : Slot)
    (esp now : UInt32) :
    agePass fuel now (s.setProc c (saveCurrent esp (s.pool c))) =
      .ok { s with pool := agedProc s c l esp now } := by
  have hv : ∀ (j : Slot) (s : Procs), (s.setProc j (ageProc now (s.pool j))).next = s.next :=
    fun j s => s.setProc_keeps_next j _ (ageProc_next now _)
  have hsaved : s.setProc c (saveCurrent esp (s.pool c)) = { s with pool := savedProc s c esp } := by
    refine congrArg (fun f => { s with pool := f }) (funext fun i => ?_)
    rw [savedProc]
    by_cases hi : i = c
    · rw [if_pos hi, hi, Function.update_self]
    · rw [if_neg hi, Function.update_of_ne hi]
  have hring : IsRing (Procs.next { s with pool := savedProc s c esp }) h l := by
    refine hr.congr fun i _ => ?_
    show (savedProc s c esp i).next = _
    rw [savedProc_fields]
    rfl
  have hpass : agePass fuel now { s with pool := savedProc s c esp } =
      traverse Stop.spent Stop.null Procs.next (fun t s => s.setProc t (ageProc now (s.pool t))) h fuel
        { s with pool := savedProc s c esp } := by
    rw [agePass, show Procs.head { s with pool := savedProc s c esp } = some h from hh]
  rw [hsaved, hpass]
  exact traverse_each (fun f => { s with pool := f }) (ageProc now) (fun _ _ => rfl) hv hring hn

/-- The second loop of `process_schedule` is a scan for the largest priority. -/
theorem pickPass_eq (hcn : s.next c = some n) (ho : IsRing s.next n o) (hn : o.length ≤ fuel) :
    pickPass fuel c { s with pool := agedProc s c l esp now } =
      .ok (o.foldl (keepLast (fun i => (agedProc s c l esp now i).state = .ready)
        (fun i => (s.pool i).priority) UInt32.toNat) (none, 0)) := by
  set s1 : Procs := { s with pool := agedProc s c l esp now } with hs1
  have hnext : s1.next = s.next := agedProc_next
  have hcn1 : s1.next c = some n := by
    rw [hnext]
    exact hcn
  have hring : IsRing s1.next n o := by
    rw [hnext]
    exact ho
  have hscan : ∀ r, ∀ i ∈ o, pickProc s1 i r = keepLast (fun i => (agedProc s c l esp now i).state = .ready)
      (fun i => (s.pool i).priority) UInt32.toNat r i := by
    intro r i _
    have hpri : (s1.pool i).priority = (s.pool i).priority := by
      show (agedProc s c l esp now i).priority = _
      rw [agedProc_fields]
    simp only [pickProc, keepLast, Procs.state, hpri, UInt32.le_iff_toNat_le]
    rfl
  simp only [pickPass, hcn1]
  rw [← List.foldl_ext _ _ _ hscan]
  apply traverse_ring
  · exact fun _ _ => rfl
  · exact hring
  · exact hn

/-- **`process_schedule` gives the CPU to the last process of the largest priority that it meets behind the
current one, or to slot 0 if it meets no ready one.** -/
theorem processSchedule_eq (hh : s.head = some h) (hc : s.current = some c) (hcn : s.next c = some n)
    (ho : IsRing s.next n o) (hho : h ∈ o) (hn : o.length ≤ fuel) (esp now : UInt32) :
    ∃ b, processSchedule fuel esp now s = .ok ((agedProc s c o esp now b).esp, runProc s c o esp now b) ∧
      (LastMax (fun i => (agedProc s c o esp now i).state = .ready) (fun i => (s.pool i).priority.toNat) o b ∨
        b = 0 ∧ ∀ i ∈ o, (agedProc s c o esp now i).state ≠ .ready) := by
  obtain ⟨l, hr, hperm⟩ := ho.of_mem hho
  have hage : agePass fuel now (s.setProc c (saveCurrent esp (s.pool c))) =
      .ok { s with pool := agedProc s c o esp now } := by
    rw [agePass_eq hh hr (hperm.length_eq.trans_le hn), agedProc, agedProc, rewriteOn_perm hperm]
  have hrun : ∀ best pri, o.foldl (keepLast (fun i => (agedProc s c o esp now i).state = .ready)
      (fun i => (s.pool i).priority) UInt32.toNat) (none, 0) = (best, pri) →
      processSchedule fuel esp now s =
        .ok ((agedProc s c o esp now (best.getD 0)).esp, runProc s c o esp now (best.getD 0)) := by
    intro best pri hfold
    simp only [processSchedule, hc]
    rw [hage, ok_bind, pickPass_eq hcn ho hn, hfold]
    rfl
  rcases foldl_keepLast (fun i => (agedProc s c o esp now i).state = .ready) (fun i => (s.pool i).priority)
    UInt32.toNat 0 o with ⟨b, hb, hmax⟩ | ⟨hnone, hno⟩
  · refine ⟨b, hrun (some b) _ hb, .inl ⟨hmax.counts.1, fun x hx hr => hmax.max x hx ⟨hr, Nat.zero_le _⟩, ?_⟩⟩
    obtain ⟨before, after, hsplit, hlast⟩ := hmax.last
    exact ⟨before, after, hsplit, fun x hx hr => hlast x hx ⟨hr, Nat.zero_le _⟩⟩
  · exact ⟨0, hrun none _ hnone, .inr ⟨rfl, fun i hi hr => hno i hi ⟨hr, Nat.zero_le _⟩⟩⟩

end Schedule

/-- `process_schedule` on a list that both traversals come round: it returns, the links and the head
stay, the new current process is a running one of the list, and no other slot gets taken. -/
theorem processSchedule_spec {c n : Slot} (hh : s.head = some 0) (hr : IsRing s.next 0 l)
    (hc : s.current = some c) (hcn : s.next c = some n) (hnl : n ∈ l) (hn : l.length ≤ fuel)
    (esp now : UInt32) :
    ∃ r s', processSchedule fuel esp now s = .ok (r, s') ∧ s'.next = s.next ∧ s'.head = s.head ∧
      ∃ b ∈ l, s'.current = some b ∧ s'.state b = .running ∧
        ∀ j, s'.state j ≠ .unused → j = b ∨ s.state j ≠ .unused := by
  obtain ⟨o, ho, hperm⟩ := hr.of_mem hnl
  obtain ⟨b, hs, hb⟩ := processSchedule_eq hh hc hcn ho (hperm.mem_iff.mpr hr.head_mem)
    (hperm.length_eq.trans_le hn) esp now
  refine ⟨_, _, hs, runProc_next, rfl, b, ?_, rfl, ?_, fun j hj => ?_⟩
  · rcases hb with hmax | ⟨rfl, -⟩
    · exact hperm.subset hmax.mem
    · exact hr.head_mem
  · rw [Procs.state, runProc_pool_self]
  · by_cases hjb : j = b
    · exact .inl hjb
    · rw [Procs.state, runProc_pool_of_ne hjb] at hj
      exact .inr (agedProc_live j hj)

/-- `process_schedule` does not return when the links never lead back to `current_proc->next`. -/
theorem processSchedule_forever {c n : Slot} (hh : s.head = some 0) (hr : IsRing s.next 0 l)
    (hc : s.current = some c) (hcn : s.next c = some n) {S : Slot → Prop}
    (hS : ∀ x, S x → ∃ y, s.next x = some y ∧ y ≠ n ∧ S y) (h0 : S n) (fuel : ℕ) (esp now : UInt32)
    (r : UInt32 × Procs) : processSchedule fuel esp now s ≠ .ok r := by
  intro hs
  simp only [processSchedule, hc] at hs
  obtain ⟨s1, h1, hs⟩ := bind_eq_ok.mp hs
  obtain ⟨b, h2, -⟩ := bind_eq_ok.mp hs
  -- with a larger budget the first traversal gives the same table
  have h1' : agePass (fuel + l.length) now (s.setProc c (saveCurrent esp (s.pool c))) = .ok s1 := by
    simp only [agePass, Procs.setProc_head, hh] at h1 ⊢
    exact loop_mono h1 (by omega)
  rw [agePass_eq hh hr (Nat.le_add_left _ fuel)] at h1'
  obtain rfl := Except.ok.inj h1'
  have hnext : Procs.next { s with pool := agedProc s c l esp now } = s.next := agedProc_next
  have hspin : pickPass fuel c { s with pool := agedProc s c l esp now } = .error .spent := by
    simp only [pickPass, hnext, hcn]
    refine traverse_forever ?_ ?_ h0 fuel
    · exact fun _ _ => rfl
    · exact hS
  rw [hspin] at h2
  cases h2

end Calls

end RtosKernel
