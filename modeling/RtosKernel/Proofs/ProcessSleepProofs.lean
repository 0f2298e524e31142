import RtosKernel.Proofs.ProcessListProofs
import RtosKernel.Proofs.ProcessScheduleProofs

/-!
# Proofs: how long a process sleeps

`process_sleep(n)` at the tick `T` stores the wrapped sum `T + n`, and `process_schedule` wakes the process when
the tick count is at least that. The comparison is right as long as the sum and the tick count have both wrapped
around or both not. Otherwise the process wakes at once, or sleeps on until the count comes round to `T + n`
(`process_sleep_on_time_iff`). Slot 0 is a case of its own: it runs, asleep or not, when no other process is
ready.
-/

namespace RtosKernel

open Lib

/-- The ticks that have passed since `T`, when the counter, which wraps around, shows `now`. -/
def elapsed (T now : UInt32) : ℕ := (now - T).toNat

/-- The process sleeps as long as fewer than `n` ticks have passed since `T`, and can run or runs from then on. -/
structure SleptFor (i : Slot) (T n : UInt32) (x : ClockedProcs) : Prop where
  asleep : elapsed T x.now < n.toNat → x.procs.state i = .sleeping
  awake : n.toNat ≤ elapsed T x.now → x.procs.state i = .ready ∨ x.procs.state i = .running

/-- The calls while the process sleeps, and after: it does not exit, it does not sleep again, it stays on the list,
and the clock goes forward, by less than `2^31` ticks in all. -/
def SparesSleeper (i : Slot) (T : UInt32) (x : ClockedProcs) : ProcOp → Prop
  | .create name entry priority ppid => TailUnused x.procs (.create name entry priority ppid)
  | .exit pid => processGet pid x.procs ≠ some i
  | .sleep ticks _ => ticks ≠ 0 → x.procs.current ≠ some i
  | .schedule _ now => elapsed T x.now ≤ elapsed T now ∧ elapsed T now < 2 ^ 31

/-- The process is slot 0, and a call of `process_schedule` at the tick `now` can choose no other. -/
structure OnlyIdle (s : Procs) (now : UInt32) (i : Slot) : Prop where
  idle : i = 0
  alone : ∀ c j, s.current = some c → j ≠ 0 → ¬ ReadyAt s c now j

/-- A call of `process_schedule` that finds the process asleep comes before the tick count wraps around exactly if
its wake-up time does. If the process is slot 0 and no other can run, its time must have come. -/
def ComparesRight (i : Slot) (T n : UInt32) (x : ClockedProcs) : ProcOp → Prop
  | .schedule _ now => x.procs.state i = .sleeping →
      (OnlyIdle x.procs now i → n.toNat ≤ elapsed T now) ∧
      (¬ OnlyIdle x.procs now i →
        (T.toNat + n.toNat < 2 ^ 32 ↔ T.toNat + elapsed T now < 2 ^ 32))
  | _ => True

/-! ## The comparison -/

section Ticks

variable {T n now : UInt32}

theorem elapsed_self : elapsed T T = 0 := by
  rw [elapsed, UInt32.sub_self]
  rfl

/-- What the counter shows. -/
theorem now_toNat : now.toNat = (T.toNat + elapsed T now) % 2 ^ 32 := by
  have hT := T.toNat_lt
  have hnow := now.toNat_lt
  rw [elapsed, UInt32.toNat_sub]
  omega

/-- The comparison `now >= wake_tick` says whether the time has come exactly if both sums wrap around or both do
not. -/
theorem wake_iff (hn : n.toNat < 2 ^ 31) (hd : elapsed T now < 2 ^ 31) :
    (T + n ≤ now ↔ n.toNat ≤ elapsed T now) ↔
      (T.toNat + n.toNat < 2 ^ 32 ↔ T.toNat + elapsed T now < 2 ^ 32) := by
  have hT := T.toNat_lt
  rw [UInt32.le_iff_toNat_le, UInt32.toNat_add, @now_toNat T now]
  omega

end Ticks

/-! ## What the calls do to a sleeper -/

section Calls

variable {s s' : Procs} {i c b : Slot} {l o : List Slot} {fuel : ℕ} {esp now : UInt32}

/-- The list with every used slot on it is a ring through the current process. -/
theorem ListInv.procRing (h : ListInv s l) (hu : HoldsUsed s l) : ∃ c o, ProcRing s c o ∧ o.Perm l := by
  obtain ⟨c, n, hc, hlive, -⟩ := h.current
  obtain ⟨o, ho, hperm⟩ := h.ring.after (hu c hlive)
  exact ⟨c, o, ⟨hc, ho, 0, hperm.mem_iff.mpr h.ring.head_mem, h.head⟩, hperm⟩

theorem readyAt_used (h : ReadyAt s c now i) : s.state i ≠ .unused := by
  rcases h with h | ⟨h, -⟩ | ⟨h, -⟩
  · rw [h]
    exact ProcState.noConfusion
  · rw [h]
    exact ProcState.noConfusion
  · rw [h]
    exact ProcState.noConfusion

/-- A sleeper after a call of `process_schedule`. -/
theorem ProcRing.schedule_sleeper (h : ProcRing s c o) (hu : HoldsUsed s o) (hf : o.length ≤ fuel)
    (hs : s.state i = .sleeping) (esp now : UInt32) :
    ∃ r s', processSchedule fuel esp now s = .ok (r, s') ∧ (s'.pool i).wakeTick = (s.pool i).wakeTick ∧
      ((s.pool i).wakeTick ≤ now ∨ OnlyIdle s now i → s'.state i = .ready ∨ s'.state i = .running) ∧
      (¬ ((s.pool i).wakeTick ≤ now ∨ OnlyIdle s now i) → s'.state i = .sleeping) := by
  have hmem : i ∈ o := hu i (by rw [hs]; exact ProcState.noConfusion)
  have hready : ReadyAt s c now i ↔ (s.pool i).wakeTick ≤ now := by
    simp [ReadyAt, hs]
  obtain ⟨b, he, hcase⟩ := h.schedule hf esp now
  have hwakeTick : ((runProc s c o esp now b).pool i).wakeTick = (s.pool i).wakeTick := by
    rw [runProc_fields]
  refine ⟨_, _, he, hwakeTick, fun hwake => ?_, fun hasleep => ?_⟩
  · by_cases hib : i = b
    · subst hib
      exact .inr runProc_state_self
    · rw [runProc_state_of_ne hib]
      rcases hwake with hwake | hidle
      · exact .inl ((agedProc_ready hmem).mpr (hready.mpr hwake))
      · -- another one was chosen, so slot 0 is not the only one that can run
        rcases hcase with hmax | ⟨hb, -⟩
        · have hb : b ≠ 0 := fun e => hib (hidle.idle.trans e.symm)
          exact absurd hmax.counts (hidle.alone c b h.current hb)
        · exact absurd (hidle.idle.trans hb.symm) hib
  · rw [not_or] at hasleep
    have hib : i ≠ b := by
      rintro rfl
      rcases hcase with hmax | ⟨rfl, hno⟩
      · exact hasleep.1 (hready.mp hmax.counts)
      · refine hasleep.2 ⟨rfl, fun c' j hc' _ hj => ?_⟩
        rw [h.current] at hc'
        obtain rfl := Option.some.inj hc'
        exact hno j (hu j (readyAt_used hj)) hj
    rw [runProc_state_of_ne hib, agedProc, rewriteOn_of_mem hmem, ageProc_state, savedProc_wakeTick,
      savedProc_state]
    simp [hs, hasleep.1]

/-- `process_create` changes no slot in use, but for its link. -/
theorem processCreate_keeps {name : List UInt8} {entry priority ppid : UInt32} {r : Int32}
    (h : processCreate fuel name entry priority ppid s = .ok (r, s')) (hi : s.state i ≠ .unused) :
    ∃ m, s'.pool i = { s.pool i with next := m } := by
  rw [processCreate] at h
  split at h
  · obtain ⟨-, rfl⟩ := Prod.mk.inj (Except.ok.inj h)
    exact ⟨(s.pool i).next, rfl⟩
  · next np hnp =>
    have hne : i ≠ np := used_ne_taken hi hnp
    dsimp only at h
    split at h
    · cases h
    · obtain ⟨t, -, h⟩ := bind_eq_ok.mp h
      obtain ⟨-, rfl⟩ := Prod.mk.inj (Except.ok.inj h)
      by_cases hit : i = t
      · subst hit
        exact ⟨some np, by simp [linkLast, Procs.setProc, hne]⟩
      · exact ⟨(s.pool i).next, by simp [linkLast, Procs.setProc, hne, hit]⟩

/-- `process_exit` of another process. -/
theorem processExit_keeps {pid : UInt32} (h : processGet pid s ≠ some i) :
    (processExit pid s).pool i = s.pool i := by
  have hsame : (List.finRange maxProcesses).find? (fun j => (s.pool j).pid = pid ∧ s.state j ≠ .unused) =
      processGet pid s := by
    simp only [processGet, and_comm]
  rw [processExit, hsame]
  split
  · rfl
  · next j hj =>
    have hij : i ≠ j := fun e => h (e ▸ hj)
    exact Function.update_of_ne hij _ _

/-- `process_sleep` of another process. -/
theorem processSleep_keeps {ticks : UInt32} (h : processSleep ticks now s = .ok s')
    (hcur : ticks ≠ 0 → s.current ≠ some i) : s'.pool i = s.pool i := by
  rw [processSleep] at h
  split at h
  · obtain rfl := Except.ok.inj h
    rfl
  · next h0 =>
    split at h
    · cases h
    · next c hc =>
      obtain rfl := Except.ok.inj h
      have hic : i ≠ c := fun e => hcur h0 (e ▸ hc)
      exact Function.update_of_ne hic _ _

end Calls

/-! ## Every run -/

/-- The list is intact, and the process sleeps until `T + n`, with that time still to come, or is awake, with that
time gone. -/
structure SleeperInv (i : Slot) (T n : UInt32) (x : ClockedProcs) : Prop where
  list : ∃ l, ListInv x.procs l ∧ HoldsUsed x.procs l
  slept : (x.procs.state i = .sleeping ∧ (x.procs.pool i).wakeTick = T + n ∧ elapsed T x.now < n.toNat) ∨
    ((x.procs.state i = .ready ∨ x.procs.state i = .running) ∧ n.toNat ≤ elapsed T x.now)

section Runs

variable {i : Slot} {T n : UInt32} {x x' : ClockedProcs} {fuel : ℕ}

theorem SleeperInv.sleptFor (h : SleeperInv i T n x) : SleptFor i T n x := by
  rcases h.slept with ⟨hs, -, hlt⟩ | ⟨hs, hle⟩
  · exact ⟨fun _ => hs, fun hle => by omega⟩
  · exact ⟨fun hlt => by omega, fun _ => hs⟩

theorem SleeperInv.used (h : SleeperInv i T n x) : x.procs.state i ≠ .unused := by
  rcases h.slept with ⟨hs, -⟩ | ⟨hs | hs, -⟩
  · rw [hs]
    exact ProcState.noConfusion
  · rw [hs]
    exact ProcState.noConfusion
  · rw [hs]
    exact ProcState.noConfusion

theorem clockedStep_ok {op : ProcOp} {p : Procs} (h : procStep fuel x.procs op = .ok p) :
    clockedStep fuel x op = .ok { procs := p, now := tickAt x.now op } := by
  rw [clockedStep, h, ok_bind, pure_eq_ok]

theorem SleeperInv.wakeTick (h : SleeperInv i T n x) (hasleep : x.procs.state i = .sleeping) :
    (x.procs.pool i).wakeTick = T + n := by
  rcases h.slept with ⟨-, hT, -⟩ | ⟨hs | hs, -⟩
  · exact hT
  · rw [hasleep] at hs
    cases hs
  · rw [hasleep] at hs
    cases hs

/-- A call that leaves the control block of the process as it is, but for its link, and the clock too. -/
theorem SleeperInv.of_keeps (h : SleeperInv i T n x) {p : Procs} (hl : ∃ l, ListInv p l ∧ HoldsUsed p l)
    (hkeep : ∃ m, p.pool i = { x.procs.pool i with next := m }) :
    SleeperInv i T n { procs := p, now := x.now } := by
  obtain ⟨m, hm⟩ := hkeep
  refine ⟨hl, ?_⟩
  show ((p.pool i).state = _ ∧ (p.pool i).wakeTick = _ ∧ _) ∨ (((p.pool i).state = _ ∨ (p.pool i).state = _) ∧ _)
  rw [hm]
  exact h.slept

/-- A call of `process_schedule` that finds the process awake. -/
theorem SleeperInv.schedule_awake (h : SleeperInv i T n x) (hf : maxProcesses ≤ fuel) {esp now : UInt32}
    (hforward : elapsed T x.now ≤ elapsed T now) (hawake : x.procs.state i ≠ .sleeping) :
    ∃ x', clockedStep fuel x (.schedule esp now) = .ok x' ∧ SleeperInv i T n x' := by
  obtain ⟨l, hl, hu⟩ := h.list
  obtain ⟨p, hp, hl'⟩ := procStep_intact hf x.procs (.schedule esp now) ⟨l, hl, hu⟩ trivial
  obtain ⟨c, o, hring, hperm⟩ := hl.procRing hu
  obtain ⟨b, he, -⟩ := hring.schedule (hperm.length_eq.trans_le (hl.length_le.trans hf)) esp now
  have hrun : p = runProc x.procs c o esp now b := by
    rw [procStep, he, ok_bind] at hp
    exact (Except.ok.inj hp).symm
  refine ⟨_, clockedStep_ok hp, hl', ?_⟩
  rcases h.slept with ⟨hs, -⟩ | ⟨hs, hle⟩
  · exact absurd hs hawake
  · refine .inr ⟨?_, hle.trans hforward⟩
    rw [hrun]
    exact runProc_stays (hperm.mem_iff.mpr (hu i h.used)) hs

/-- A call of `process_schedule` that finds the process asleep: it leaves it as it should be exactly if it compares
right. -/
theorem SleeperInv.schedule_asleep (h : SleeperInv i T n x) (hf : maxProcesses ≤ fuel) (hn : n.toNat < 2 ^ 31)
    {esp now : UInt32} (hd : elapsed T now < 2 ^ 31) (hasleep : x.procs.state i = .sleeping) :
    ∃ x', clockedStep fuel x (.schedule esp now) = .ok x' ∧
      (SleptFor i T n x' → ComparesRight i T n x (.schedule esp now)) ∧
      (ComparesRight i T n x (.schedule esp now) → SleeperInv i T n x') := by
  obtain ⟨l, hl, hu⟩ := h.list
  obtain ⟨p, hp, hl'⟩ := procStep_intact hf x.procs (.schedule esp now) ⟨l, hl, hu⟩ trivial
  obtain ⟨c, o, hring, hperm⟩ := hl.procRing hu
  obtain ⟨r, s', he, hsame, hwakes, hsleeps⟩ := hring.schedule_sleeper (fun j hj => hperm.mem_iff.mpr (hu j hj))
    (hperm.length_eq.trans_le (hl.length_le.trans hf)) hasleep esp now
  obtain rfl : s' = p := by
    rw [procStep, he, ok_bind] at hp
    exact Except.ok.inj hp
  rw [h.wakeTick hasleep] at hsame hwakes hsleeps
  have hcompare := wake_iff hn hd
  refine ⟨_, clockedStep_ok hp, fun hslept _ => ⟨fun hidle => ?_, fun hidle => ?_⟩, fun hright => ?_⟩
  · -- slot 0 has been made to run
    have hrun := hwakes (.inr hidle)
    by_contra hlt
    have hs : s'.state i = .sleeping := hslept.asleep (Nat.not_le.mp hlt)
    rw [hs] at hrun
    simp at hrun
  · rw [← hcompare]
    constructor
    · intro hwake
      by_contra hlt
      have hrun := hwakes (.inl hwake)
      have hs : s'.state i = .sleeping := hslept.asleep (Nat.not_le.mp hlt)
      rw [hs] at hrun
      simp at hrun
    · intro hle
      by_contra hno
      have hs := hsleeps fun hor => hor.elim hno hidle
      have hrun : s'.state i = .ready ∨ s'.state i = .running := hslept.awake hle
      rw [hs] at hrun
      simp at hrun
  · refine ⟨hl', ?_⟩
    obtain ⟨honly, hrest⟩ := hright hasleep
    by_cases hwake : T + n ≤ now ∨ OnlyIdle x.procs now i
    · refine .inr ⟨hwakes hwake, ?_⟩
      show n.toNat ≤ elapsed T now
      by_cases hidle : OnlyIdle x.procs now i
      · exact honly hidle
      · exact (hcompare.mpr (hrest hidle)).mp (hwake.resolve_right hidle)
    · refine .inl ⟨hsleeps hwake, hsame, ?_⟩
      show elapsed T now < n.toNat
      rw [not_or] at hwake
      by_contra hle
      exact hwake.1 ((hcompare.mpr (hrest hwake.2)).mpr (Nat.not_lt.mp hle))

/-- One step: what the invariant needs, and what it needs it for. -/
theorem SleeperInv.step (h : SleeperInv i T n x) (hf : maxProcesses ≤ fuel) (hn : n.toNat < 2 ^ 31) {op : ProcOp}
    (hD : SparesSleeper i T x op) :
    ∃ x', clockedStep fuel x op = .ok x' ∧ (SleptFor i T n x' → ComparesRight i T n x op) ∧
      (ComparesRight i T n x op → SleeperInv i T n x') := by
  cases op with
  | create name entry priority ppid =>
    obtain ⟨p, hp, hl⟩ := procStep_intact hf x.procs (.create name entry priority ppid) h.list hD
    have hkeep : ∃ m, p.pool i = { x.procs.pool i with next := m } := by
      rw [procStep] at hp
      obtain ⟨⟨r, s'⟩, hc, hp⟩ := bind_eq_ok.mp hp
      obtain rfl := Except.ok.inj hp
      exact processCreate_keeps hc h.used
    exact ⟨_, clockedStep_ok hp, fun _ => trivial, fun _ => h.of_keeps hl hkeep⟩
  | exit pid =>
    obtain ⟨p, hp, hl⟩ := procStep_intact hf x.procs (.exit pid) h.list trivial
    have hkeep : p.pool i = x.procs.pool i := by
      obtain rfl := Except.ok.inj hp
      exact processExit_keeps hD
    exact ⟨_, clockedStep_ok hp, fun _ => trivial, fun _ => h.of_keeps hl ⟨_, hkeep⟩⟩
  | sleep ticks now =>
    obtain ⟨p, hp, hl⟩ := procStep_intact hf x.procs (.sleep ticks now) h.list trivial
    have hkeep : p.pool i = x.procs.pool i := processSleep_keeps hp hD
    exact ⟨_, clockedStep_ok hp, fun _ => trivial, fun _ => h.of_keeps hl ⟨_, hkeep⟩⟩
  | schedule esp now =>
    obtain ⟨hforward, hd⟩ := hD
    by_cases hasleep : x.procs.state i = .sleeping
    · exact h.schedule_asleep hf hn hd hasleep
    · obtain ⟨x', he, hx'⟩ := @SleeperInv.schedule_awake _ _ _ _ _ h hf esp now hforward hasleep
      exact ⟨x', he, fun _ hs => absurd hs hasleep, fun _ => hx'⟩

end Runs

/-- **A process that calls `process_sleep(n)` at the tick `T`, `0 < n < 2^31`, sleeps at every later call of
`process_schedule` within `n` ticks and is awake at every one from then on, if and only if each call that finds it
asleep comes, like its wake-up time, before the tick count wraps around or, like it, after; and, if it is slot 0
and no other process can run, not before its time.** -/
theorem process_sleep_on_time_iff {fuel : ℕ} (hf : maxProcesses ≤ fuel) {s₀ s : Procs} {ops : List ProcOp}
    (hr : run (procStep fuel) (processInit s₀) ops = .ok s)
    (hops : AllSteps (procStep fuel) (processInit s₀) TailUnused ops) {i : Slot} (hi : s.current = some i)
    {T n : UInt32} (hpos : 0 < n.toNat) (hn : n.toNat < 2 ^ 31) :
    ∃ s₁, procStep fuel s (.sleep n T) = .ok s₁ ∧
      ∀ later, AllSteps (clockedStep fuel) { procs := s₁, now := T } (SparesSleeper i T) later →
        (Along (clockedStep fuel) { procs := s₁, now := T } (SleptFor i T n) later ↔
          AllSteps (clockedStep fuel) { procs := s₁, now := T } (ComparesRight i T n) later) := by
  have hlist : ∃ l, ListInv s l ∧ HoldsUsed s l := by
    obtain ⟨s', hr', hl⟩ := run_of_allSteps (I := fun s => ∃ l, ListInv s l ∧ HoldsUsed s l)
      ⟨[0], processInit_listInv s₀⟩ (procStep_intact hf) hops
    rw [hr] at hr'
    rwa [Except.ok.inj hr']
  obtain ⟨s₁, hs₁, hlist₁⟩ := procStep_intact hf s (.sleep n T) hlist trivial
  refine ⟨s₁, hs₁, fun later hlater => ?_⟩
  have hn0 : n ≠ 0 := by
    rintro rfl
    exact absurd hpos (by decide)
  have hstart : SleeperInv i T n { procs := s₁, now := T } := by
    have hsleep : processSleep n T s = .ok s₁ := hs₁
    rw [processSleep, if_neg hn0, hi] at hsleep
    obtain rfl := Except.ok.inj hsleep
    refine ⟨hlist₁, .inl ⟨?_, ?_, ?_⟩⟩
    · rw [Procs.setProc_state, Function.update_self]
    · rw [Procs.setProc_pool]
    · rw [elapsed_self]
      exact hpos
  refine along_iff_on (I := SleeperInv i T n) hstart (fun x h => h.sleptFor) (fun x op h hD hC => ?_) ?_ hlater
  · obtain ⟨x', he, -, hinv⟩ := h.step hf hn hD
    exact ⟨x', he, hinv hC⟩
  · intro x op x' h hD he hP
    obtain ⟨x'', he', hback, -⟩ := @SleeperInv.step _ _ _ _ fuel h hf hn op hD
    obtain rfl : x'' = x' := by rw [he'] at he; exact Except.ok.inj he
    exact hback hP

/-- A process of priority 5 is created and gets the CPU. -/
def oneProcOps : List ProcOp := [.create [97] 4096 5 0, .schedule 0 0]

/-- The table after these calls. -/
def oneProc : Procs :=
  match run (procStep 16) (processInit (bootProcs 0)) oneProcOps with
  | .ok s => s
  | .error _ => bootProcs 0

theorem oneProc_run : run (procStep 16) (processInit (bootProcs 0)) oneProcOps = .ok oneProc := by
  rfl

theorem oneProc_tailUnused : AllSteps (procStep 16) (processInit (bootProcs 0)) TailUnused oneProcOps := by
  refine allSteps_cons.mpr ⟨?_, fun s _ => allSteps_cons.mpr ⟨trivial, fun s _ => allSteps_nil⟩⟩
  intro h i a b hh hi hr
  exact absurd hr (processInit_notTaken hh hi)

/-- The table after `process_sleep(5)` of that process at the tick `T`. -/
def oneSleeper (T : UInt32) : ClockedProcs where
  procs := match procStep 16 oneProc (.sleep 5 T) with
    | .ok s => s
    | .error _ => oneProc
  now := T

theorem process_sleep_on_time_early :
    Along (clockedStep 16) (oneSleeper 100) (SleptFor 1 100 5) [.schedule 0 101] := by
  obtain ⟨s₁, hs₁, hiff⟩ := process_sleep_on_time_iff (le_refl 16) oneProc_run oneProc_tailUnused
    (i := 1) (T := 100) (n := 5) rfl (by decide) (by decide)
  obtain rfl : s₁ = (oneSleeper 100).procs := (Except.ok.inj hs₁).symm
  refine (hiff [.schedule 0 101] ?_).mpr ?_
  · exact allSteps_cons.mpr ⟨⟨by decide, by decide⟩, fun _ _ => allSteps_nil⟩
  · refine allSteps_cons.mpr ⟨fun _ => ⟨fun h => absurd h.idle (by decide), fun _ => ?_⟩, fun _ _ => allSteps_nil⟩
    decide

/-- `process_sleep(5)` one tick before the counter wraps around: a call of `process_schedule` in the same tick
wakes the process. -/
theorem process_sleep_wakes_at_once :
    AllSteps (clockedStep 16) (oneSleeper 0xFFFFFFFF) (SparesSleeper 1 0xFFFFFFFF) [.schedule 0 0xFFFFFFFF] ∧
      ¬ Along (clockedStep 16) (oneSleeper 0xFFFFFFFF) (SleptFor 1 0xFFFFFFFF 5) [.schedule 0 0xFFFFFFFF] := by
  constructor
  · exact allSteps_cons.mpr ⟨⟨by decide, by decide⟩, fun _ _ => allSteps_nil⟩
  · apply not_along_of_returns (Q := fun x => x.procs.state 1 = .running ∧ elapsed 0xFFFFFFFF x.now = 0)
    · decide +kernel
    · rintro x ⟨hrun, hnow⟩ hslept
      have hsleep := hslept.asleep (by rw [hnow]; decide)
      rw [hrun] at hsleep
      cases hsleep

end RtosKernel
