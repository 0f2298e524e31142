import RtosKernel.Proofs.ProcessProofs

/-!
# Proofs: pids

What the calls of `process.c` that return do to the pids, to the states and to the current process, whatever
the links of the list are: only `process_create` gives out pids, and `process_schedule` makes no free slot
used but, as a last resort, slot 0.

`PidInv k s` is the invariant of runs: `k` processes have been created, their pids were `1, ..., k` in this
order, and the live ones are told apart by their pids.
-/

namespace RtosKernel

open Lib

section Calls

variable {s s' : Procs} {fuel : ℕ}

/-- No pid is changed or given out. -/
structure SamePids (s s' : Procs) : Prop where
  pid : ∀ j, (s'.pool j).pid = (s.pool j).pid
  nextPid : s'.nextPid = s.nextPid

theorem SamePids.refl (s : Procs) : SamePids s s := ⟨fun _ => rfl, rfl⟩

theorem SamePids.trans {s'' : Procs} (h : SamePids s s') (h' : SamePids s' s'') : SamePids s s'' :=
  ⟨fun j => (h'.pid j).trans (h.pid j), h'.nextPid.trans h.nextPid⟩

/-- Rewriting one control block without its pid. -/
theorem SamePids.setProc {i : Slot} {q : Process} (hq : q.pid = (s.pool i).pid) :
    SamePids s (s.setProc i q) := by
  refine ⟨fun j => ?_, rfl⟩
  by_cases hj : j = i
  · subst hj
    rw [Procs.setProc_pool]
    exact hq
  · simp only [Procs.setProc, Function.update_of_ne hj]

theorem ageProc_pid (now : UInt32) (q : Process) : (ageProc now q).pid = q.pid := by
  rw [ageProc_fields]

/-! ## `process_create` -/

/-- Linking in the new slot changes links only. -/
theorem linkLast_keeps (t np : Slot) (s : Procs) :
    SamePids s (linkLast t np s) ∧ (linkLast t np s).state = s.state ∧
      (linkLast t np s).current = s.current := by
  have hone : ∀ (a : Procs) (j : Slot) (o : Option Slot),
      SamePids a (a.setProc j { a.pool j with next := o }) ∧
        (a.setProc j { a.pool j with next := o }).state = a.state := by
    intro a j o
    refine ⟨SamePids.setProc rfl, ?_⟩
    rw [Procs.setProc_state]
    exact Function.update_eq_self j a.state
  obtain ⟨h1, h2⟩ := hone s t (some np)
  obtain ⟨h3, h4⟩ := hone (s.setProc t { s.pool t with next := some np }) np s.head
  exact ⟨h1.trans h3, h4.trans h2, rfl⟩

/-- A call of `process_create` that returns found no slot, or gave the next pid to the first free one. -/
theorem processCreate_cases {name : List UInt8} {entry priority ppid : UInt32} {r : Int32}
    (h : processCreate fuel name entry priority ppid s = .ok (r, s')) :
    (freeSlot s = none ∧ r = -1 ∧ s' = s) ∨
    ∃ i, freeSlot s = some i ∧ r = s.nextPid.toInt32 ∧ s'.nextPid = s.nextPid + 1 ∧
      s'.current = s.current ∧ s'.state = Function.update s.state i .ready ∧
      (s'.pool i).pid = s.nextPid ∧ ∀ j, j ≠ i → (s'.pool j).pid = (s.pool j).pid := by
  cases hi : freeSlot s with
  | none =>
    rw [processCreate_full hi] at h
    obtain ⟨rfl, rfl⟩ := Prod.mk.inj (Except.ok.inj h)
    exact .inl ⟨rfl, rfl, rfl⟩
  | some i =>
    refine .inr ⟨i, rfl, ?_⟩
    simp only [processCreate, hi] at h
    split at h
    · cases h
    · obtain ⟨t, -, hr⟩ := bind_eq_ok.mp h
      obtain ⟨rfl, rfl⟩ := Prod.mk.inj (Except.ok.inj hr)
      obtain ⟨hpids, hstate, hcur⟩ := linkLast_keeps t i { s.setProc i (newProcess (s.pool i) s.nextPid name
        entry priority ppid (s.poolAddr + sizeofProcess * UInt32.ofNat i.val + procStackOffset)) with
        nextPid := s.nextPid + 1 }
      refine ⟨rfl, hpids.nextPid, hcur, ?_, ?_, fun j hj => ?_⟩
      · rw [hstate]
        exact s.setProc_state i _
      · rw [hpids.pid]
        exact congrArg Process.pid (s.setProc_pool i _)
      · rw [hpids.pid]
        simp only [Procs.setProc, Function.update_of_ne hj]

/-! ## `process_exit`, `process_sleep` and `process_schedule` -/

theorem processExit_pids (pid : UInt32) (s : Procs) : SamePids s (processExit pid s) := by
  rw [processExit]
  split
  · exact SamePids.refl s
  · exact SamePids.setProc rfl

theorem processSleep_pids {ticks now : UInt32} (h : processSleep ticks now s = .ok s') : SamePids s s' := by
  rw [processSleep] at h
  split at h
  · rw [← Except.ok.inj h]
    exact SamePids.refl s
  · split at h
    · cases h
    · rw [← Except.ok.inj h]
      exact SamePids.setProc rfl

theorem agePass_aged {now : UInt32} (h : agePass fuel now s = .ok s') : Aged s s' ∧ SamePids s s' := by
  rw [agePass] at h
  split at h
  · cases h
  · refine traverse_inv (I := fun t => Aged s t ∧ SamePids s t) ?_ ⟨Aged.refl s, SamePids.refl s⟩ h
    rintro j t ⟨h1, h2⟩
    exact ⟨h1.trans (Aged.setProc (ageProc_next now _) (ageProc_live now _)),
      h2.trans (SamePids.setProc (ageProc_pid now _))⟩

/-- The second traversal picks a slot that is ready. -/
theorem pickPass_ready {c : Slot} {best : Option Slot} {pri : UInt32}
    (h : pickPass fuel c s = .ok (best, pri)) : ∀ b, best = some b → s.state b = .ready := by
  rw [pickPass] at h
  split at h
  · cases h
  · refine traverse_inv (I := fun r : Option Slot × UInt32 => ∀ b, r.1 = some b → s.state b = .ready) ?_ ?_ h
    · intro j r hr b hb
      rw [pickProc] at hb
      split at hb
      · rename_i hj
        rw [← Option.some.inj hb]
        exact hj.1
      · exact hr b hb
    · intro b hb
      cases hb

/-- A call of `process_schedule` that returns. -/
theorem processSchedule_cases {c : Slot} (hc : s.current = some c) {esp now r : UInt32}
    (h : processSchedule fuel esp now s = .ok (r, s')) :
    ∃ b, s'.current = some b ∧ s'.state b ≠ .unused ∧ SamePids s s' ∧ (b = 0 ∨ s.state b ≠ .unused) ∧
      ∀ j, s'.state j ≠ .unused → j = b ∨ s.state j ≠ .unused := by
  simp only [processSchedule, hc] at h
  obtain ⟨s1, h1, h⟩ := bind_eq_ok.mp h
  obtain ⟨⟨best, pri⟩, h2, h⟩ := bind_eq_ok.mp h
  obtain ⟨-, rfl⟩ := Prod.mk.inj (Except.ok.inj h)
  obtain ⟨haged, hpids⟩ := agePass_aged h1
  have hsave : Aged s (s.setProc c (saveCurrent esp (s.pool c))) := Aged.setProc rfl (saveCurrent_live esp _)
  have hs1 : Aged s s1 := hsave.trans haged
  have hsave' : SamePids s (s.setProc c (saveCurrent esp (s.pool c))) := SamePids.setProc rfl
  have hp1 : SamePids s s1 := hsave'.trans hpids
  have hp2 : SamePids s1 (s1.setProc (best.getD 0) { s1.pool (best.getD 0) with state := .running }) :=
    SamePids.setProc rfl
  have hstate := s1.setProc_state (best.getD 0) { s1.pool (best.getD 0) with state := .running }
  refine ⟨best.getD 0, rfl, ?_, ⟨(hp1.trans hp2).pid, (hp1.trans hp2).nextPid⟩, ?_, fun j hj => ?_⟩
  · show (s1.setProc (best.getD 0) { s1.pool (best.getD 0) with state := .running }).state _ ≠ _
    rw [hstate, Function.update_self]
    exact ProcState.noConfusion
  · cases best with
    | none => exact .inl rfl
    | some b =>
      refine .inr (hs1.live b ?_)
      rw [pickPass_ready h2 b rfl]
      exact ProcState.noConfusion
  · by_cases hb : j = best.getD 0
    · exact .inl hb
    · have hj' : (s1.setProc (best.getD 0)
          { s1.pool (best.getD 0) with state := .running }).state j ≠ .unused := hj
      rw [hstate, Function.update_of_ne hb] at hj'
      exact .inr (hs1.live j hj')

end Calls

/-! ## Every run -/

/-- `k` processes have been created: the next pid is `k + 1`, no slot has a higher pid than `k`, and the
slots in use have different pids. Slot 0 is the idle process with pid 0. -/
structure PidInv (k : ℕ) (s : Procs) : Prop where
  nextPid : s.nextPid.toNat = (k + 1) % 2 ^ 32
  le : ∀ i, (s.pool i).pid.toNat ≤ k
  idle : (s.pool 0).pid = 0
  pos : ∀ i, i ≠ 0 → s.state i ≠ .unused → (s.pool i).pid ≠ 0
  distinct : ∀ i j, i ≠ j → s.state i ≠ .unused → s.state j ≠ .unused → (s.pool i).pid ≠ (s.pool j).pid
  current : ∃ c, s.current = some c ∧ s.state c ≠ .unused

/-- The call takes a slot: it is a `process_create`, and one is free. -/
def TakesSlot (s : Procs) : ProcOp → Prop
  | .create .. => freeSlot s ≠ none
  | _ => False

section Runs

variable {k : ℕ} {s s' : Procs} {fuel : ℕ}

theorem processInit_pidInv (s₀ : Procs) : PidInv 0 (processInit s₀) := by
  have hpid : ∀ i, ((processInit s₀).pool i).pid = 0 := by
    intro i
    by_cases hi : i = 0
    · subst hi
      rfl
    · simp [processInit, Function.update_of_ne hi]
  have hunused : ∀ i, i ≠ 0 → (processInit s₀).state i = .unused := by
    intro i hi
    simp [processInit, Procs.state, Function.update_of_ne hi]
  have hzero : ∀ i, (processInit s₀).state i ≠ .unused → i = 0 := by
    intro i hi
    by_contra h0
    exact hi (hunused i h0)
  refine ⟨rfl, fun i => ?_, hpid 0, fun i hi hlive => absurd (hzero i hlive) hi, ?_, ⟨0, rfl, ?_⟩⟩
  · rw [hpid]
    exact le_rfl
  · intro i j hij hi hj
    exact absurd ((hzero i hi).trans (hzero j hj).symm) hij
  · exact ProcState.noConfusion

/-- A call that gives out no pid, and makes no slot used but slot 0 or the current one. -/
theorem PidInv.same (h : PidInv k s) (hp : SamePids s s')
    (hlive : ∀ j, s'.state j ≠ .unused → j = 0 ∨ s.state j ≠ .unused)
    (hcur : ∃ c, s'.current = some c ∧ s'.state c ≠ .unused) : PidInv k s' := by
  have hpos : ∀ i, i ≠ 0 → s'.state i ≠ .unused → (s.pool i).pid ≠ 0 := by
    intro i hi hl
    exact h.pos i hi ((hlive i hl).resolve_left hi)
  refine ⟨by rw [hp.nextPid]; exact h.nextPid, fun i => ?_, ?_, fun i hi hl => ?_,
    fun i j hij hi hj => ?_, hcur⟩
  · rw [hp.pid]
    exact h.le i
  · rw [hp.pid]
    exact h.idle
  · rw [hp.pid]
    exact hpos i hi hl
  · rw [hp.pid, hp.pid]
    by_cases hi0 : i = 0
    · rw [hi0, h.idle]
      exact (hpos j (fun e => hij (hi0.trans e.symm)) hj).symm
    · by_cases hj0 : j = 0
      · rw [hj0, h.idle]
        exact hpos i hi0 hi
      · exact h.distinct i j hij ((hlive i hi).resolve_left hi0) ((hlive j hj).resolve_left hj0)

/-- `process_create` gives the next pid to a slot that was not in use. -/
theorem PidInv.create (h : PidInv k s) (hk : k + 1 < 2 ^ 32) {i : Slot} (hi : freeSlot s = some i)
    (hn : s'.nextPid = s.nextPid + 1) (hcur : s'.current = s.current)
    (hstate : s'.state = Function.update s.state i .ready) (hpid : (s'.pool i).pid = s.nextPid)
    (hother : ∀ j, j ≠ i → (s'.pool j).pid = (s.pool j).pid) : PidInv (k + 1) s' := by
  obtain ⟨hi0, -⟩ := freeSlot_some hi
  have hnew : (s'.pool i).pid.toNat = k + 1 := by
    rw [hpid, h.nextPid]
    exact Nat.mod_eq_of_lt hk
  have hlive : ∀ j, j ≠ i → s'.state j ≠ .unused → s.state j ≠ .unused := by
    intro j hj hl
    rwa [hstate, Function.update_of_ne hj] at hl
  have hne : ∀ j, j ≠ i → (s'.pool j).pid ≠ (s'.pool i).pid := by
    intro j hj he
    have hle := h.le j
    rw [← hother j hj, he, hnew] at hle
    omega
  refine ⟨?_, fun j => ?_, ?_, fun j hj hl => ?_, fun j l hjl hj hl => ?_, ?_⟩
  · have h1 : (1 : UInt32).toNat = 1 := rfl
    rw [hn, UInt32.toNat_add, h.nextPid, h1]
    omega
  · by_cases hj : j = i
    · rw [hj, hnew]
    · rw [hother j hj]
      exact (h.le j).trans (Nat.le_succ k)
  · rw [hother 0 (Ne.symm hi0)]
    exact h.idle
  · by_cases hji : j = i
    · rw [hji]
      intro h0
      rw [h0] at hnew
      cases hnew
    · rw [hother j hji]
      exact h.pos j hj (hlive j hji hl)
  · by_cases hji : j = i
    · subst hji
      exact (hne l (Ne.symm hjl)).symm
    · by_cases hli : l = i
      · subst hli
        exact hne j hjl
      · rw [hother j hji, hother l hli]
        exact h.distinct j l hjl (hlive j hji hj) (hlive l hli hl)
  · obtain ⟨c, hc, hlc⟩ := h.current
    refine ⟨c, hcur.trans hc, ?_⟩
    rw [hstate]
    by_cases hci : c = i
    · rw [hci, Function.update_self]
      exact ProcState.noConfusion
    · rwa [Function.update_of_ne hci]

/-- What a call of the process API that returns does to the slots: it gives the next pid to a free one, or
it changes no pid and makes no slot used but slot 0; only `process_schedule` makes a slot free. -/
theorem procStep_slots (h : PidInv k s) {op : ProcOp} (hs : procStep fuel s op = .ok s') :
    (TakesSlot s op ∧ ∃ i, freeSlot s = some i ∧ s'.nextPid = s.nextPid + 1 ∧ s'.current = s.current ∧
      s'.state = Function.update s.state i .ready ∧ (s'.pool i).pid = s.nextPid ∧
      ∀ j, j ≠ i → (s'.pool j).pid = (s.pool j).pid) ∨
    (¬ TakesSlot s op ∧ SamePids s s' ∧ (∀ j, s'.state j ≠ .unused → j = 0 ∨ s.state j ≠ .unused) ∧
      (∃ c, s'.current = some c ∧ s'.state c ≠ .unused) ∧
      ((∃ esp now, op = .schedule esp now) ∨ ∀ j, s'.state j = .unused ↔ s.state j = .unused)) := by
  obtain ⟨c, hc, hlc⟩ := h.current
  cases op with
  | create name entry priority ppid =>
    obtain ⟨⟨r, t⟩, hcr, hst⟩ := bind_eq_ok.mp hs
    obtain rfl : t = s' := Except.ok.inj hst
    rcases processCreate_cases hcr with ⟨hfull, -, rfl⟩ | ⟨i, hi, -, hrest⟩
    · exact .inr ⟨fun htakes => htakes hfull, SamePids.refl t, fun j hj => .inr hj, ⟨c, hc, hlc⟩,
        .inr fun j => Iff.rfl⟩
    · have htakes : freeSlot s ≠ none := by
        rw [hi]
        exact Option.some_ne_none i
      exact .inl ⟨htakes, i, hi, hrest⟩
  | exit pid =>
    obtain rfl : processExit pid s = s' := Except.ok.inj hs
    obtain ⟨-, -, hcur, hunused⟩ := processExit_spec pid s
    refine .inr ⟨id, processExit_pids pid s, fun j hj => .inr ?_, ⟨c, hcur.trans hc, ?_⟩, .inr hunused⟩
    · exact fun hu => hj ((hunused j).mpr hu)
    · exact fun hu => hlc ((hunused c).mp hu)
  | sleep ticks now =>
    have hs' : processSleep ticks now s = .ok s' := hs
    obtain ⟨t, ht, -, -, hcur, hunused⟩ := processSleep_spec hc hlc ticks now
    obtain rfl : t = s' := by
      rw [ht] at hs'
      exact Except.ok.inj hs'
    refine .inr ⟨id, processSleep_pids ht, fun j hj => .inr ?_, ⟨c, hcur.trans hc, ?_⟩, .inr hunused⟩
    · exact fun hu => hj ((hunused j).mpr hu)
    · exact fun hu => hlc ((hunused c).mp hu)
  | schedule esp now =>
    obtain ⟨⟨r, t⟩, hsch, hst⟩ := bind_eq_ok.mp hs
    obtain rfl : t = s' := Except.ok.inj hst
    obtain ⟨b, hb, hlb, hp, hb0, hlive⟩ := processSchedule_cases hc hsch
    refine .inr ⟨id, hp, fun j hj => ?_, ⟨b, hb, hlb⟩, .inl ⟨esp, now, rfl⟩⟩
    rcases hlive j hj with rfl | hj
    · exact hb0
    · exact .inr hj

/-- A call that takes a slot brings the number of processes created to `k + 1`, and no other call changes
it. -/
theorem procStep_pidInv (h : PidInv k s) (op : ProcOp) (hs : procStep fuel s op = .ok s') :
    (TakesSlot s op ∧ (k + 1 < 2 ^ 32 → PidInv (k + 1) s')) ∨ (¬ TakesSlot s op ∧ PidInv k s') := by
  rcases procStep_slots h hs with ⟨htakes, i, hi, hn, hcur, hstate, hpid, hother⟩ | ⟨hno, hp, hlive, hcur, -⟩
  · exact .inl ⟨htakes, fun hk => h.create hk hi hn hcur hstate hpid hother⟩
  · exact .inr ⟨hno, h.same hp hlive hcur⟩

end Runs

end RtosKernel
